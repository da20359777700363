import Mathlib
import Untrusted.Proofs.Pattern.Literals
import Untrusted.Proofs.View.Tokens

/-!
# Literals in texts

A text is searched for a literal byte by byte. The bytes of chars stand in those of others only
where the chars do, so what is found is whole chars, and the first of them.
-/

namespace Untrusted

/-! ## Chars among chars -/

namespace Utf8

variable {s cs pre post : List Char} {c : Char} {i : Nat}

/-- `s` stands in `cs` first after `pre`, and `post` is left after it. -/
structure FirstAt (s cs pre post : List Char) : Prop where
  split : cs = pre ++ (s ++ post)
  least : ∀ pre' post', cs = pre' ++ (s ++ post') → pre.length ≤ pre'.length

theorem exists_firstAt (h : s <:+: cs) : ∃ pre post, FirstAt s cs pre post := by
  classical
  have somewhere : ∃ n pre post, cs = pre ++ (s ++ post) ∧ pre.length = n := by
    obtain ⟨pre, post, same⟩ := h
    exact ⟨_, pre, post, by rw [← same, List.append_assoc], rfl⟩
  obtain ⟨pre, post, split, length⟩ := Nat.find_spec somewhere
  refine ⟨pre, post, split, fun pre' post' split' => ?_⟩
  rw [length]
  exact Nat.find_min' somewhere ⟨pre', post', split', rfl⟩

theorem FirstAt.not_mem (h : FirstAt [c] cs pre post) : c ∉ pre := by
  intro inside
  obtain ⟨a, b, rfl⟩ := List.append_of_mem inside
  have le := h.least a (b ++ ([c] ++ post)) (by simp [h.split])
  rw [List.length_append, List.length_cons] at le
  omega

/-! ## Their bytes -/

theorem encode_ne_nil (filled : s ≠ []) : encode s ≠ [] := by
  intro empty
  exact filled (encode_injective empty)

/-- The bytes of chars stand in those of a text where the chars do, and nowhere else: their first
byte goes on with no char, so what precedes it is whole chars. -/
theorem standsAt_encode_iff (filled : s ≠ []) : Pattern.StandsAt (encode s) (encode cs) i ↔
    ∃ pre post, cs = pre ++ (s ++ post) ∧ i = (encode pre).length := by
  constructor
  · rintro ⟨front, back, split, rfl⟩
    have valid := isValid_encode cs
    rw [split] at valid
    obtain ⟨first, -⟩ := Kind.boundaries_of_inner (k := .text) (encode_ne_nil filled)
      (isValid_encode s) valid
    rw [← split] at first
    obtain ⟨pre, rest, rfl, length⟩ := exists_split_of_boundary first
    rw [encode_append] at split
    obtain ⟨rfl, later⟩ := List.append_inj split length.symm
    have whole : isValid back = true := by
      rw [← isValid_encode_append s, ← later]
      exact isValid_encode rest
    obtain ⟨post, rfl⟩ := exists_encode_of_isValid whole
    rw [← encode_append] at later
    rw [encode_injective later]
    exact ⟨pre, post, rfl, rfl⟩
  · rintro ⟨pre, post, rfl, rfl⟩
    exact ⟨encode pre, encode post, by rw [encode_append, encode_append], rfl⟩

theorem exists_standsAt_encode_iff :
    (∃ i, Pattern.StandsAt (encode s) (encode cs) i) ↔ s <:+: cs := by
  by_cases filled : s = []
  · rw [filled]
    exact iff_of_true ⟨0, [], encode cs, rfl, rfl⟩ (List.nil_infix)
  · simp only [standsAt_encode_iff filled]
    constructor
    · rintro ⟨-, pre, post, rfl, -⟩
      exact ⟨pre, post, by rw [List.append_assoc]⟩
    · rintro ⟨pre, post, same⟩
      exact ⟨_, pre, post, by rw [← same, List.append_assoc], rfl⟩

/-- The first place of the bytes is after the chars before the first place of the chars. -/
theorem FirstAt.isLeast (h : FirstAt s cs pre post) :
    IsLeast {i | Pattern.StandsAt (encode s) (encode cs) i} (encode pre).length := by
  constructor
  · exact ⟨encode pre, encode post, by rw [h.split, encode_append, encode_append], rfl⟩
  · intro i stands
    by_cases filled : s = []
    · have le := h.least [] cs (by rw [filled]; rfl)
      rw [List.length_eq_zero_iff.1 (Nat.le_zero.1 le)]
      exact Nat.zero_le i
    · obtain ⟨pre', post', split, rfl⟩ := (standsAt_encode_iff filled).1 stands
      have first : pre <+: cs := h.split ▸ List.prefix_append _ _
      have other : pre' <+: cs := split ▸ List.prefix_append _ _
      have le := h.least pre' post' split
      obtain ⟨between, rfl⟩ := List.prefix_of_prefix_length_le first other le
      rw [encode_append, List.length_append]
      exact Nat.le_add_right _ _

end Utf8

/-! ## One char -/

namespace Pattern

variable {cs : List Char} {c x : Char}

theorem encode_of_forall_eq (all : ∀ x ∈ cs, x = c) :
    Utf8.encode cs = repeated (Utf8.encode [c]) cs.length := by
  rw [List.eq_replicate_of_mem all, repeated, List.length_replicate, Utf8.encode,
    List.flatMap_replicate, Utf8.encode_singleton]

theorem not_prefix_of_ne (differs : x ≠ c) (later : List Char) :
    ¬ Utf8.encode [c] <+: Utf8.encode (x :: later) := by
  rintro ⟨rest, same⟩
  have read := congrArg Utf8.decode same
  rw [Utf8.encode_singleton, Utf8.encode_cons, Utf8.decode_encodeChar_append,
    Utf8.decode_encodeChar_append, Except.ok.injEq, Prod.mk.injEq] at read
  exact differs read.1.symm

theorem find?_ofLiteral_char (c : Char) (cs : List Char) :
    (ofLiteral (Utf8.encode [c])).find? (Utf8.encode cs) =
      (charWhere (· == c)).find? (Utf8.encode cs) := by
  by_cases inside : [c] <:+: cs
  · obtain ⟨pre, post, first⟩ := Utf8.exists_firstAt inside
    have scanned : Utf8.scanTo (· == c) 0 (Utf8.encode cs) =
        ((Utf8.encode pre).length, some (.ok (c, (String.utf8EncodeChar c).length))) := by
      rw [first.split, ← List.append_nil (Utf8.encode _)]
      refine Utf8.scanTo_encode_of_stops (fun d hd => ?_) ?_ []
      · rw [beq_eq_false_iff_ne]
        rintro rfl
        exact first.not_mem hd
      · exact beq_self_eq_true c
    rw [Seeks.chosen.find?_eq_some_iff.2 ⟨_, first.isLeast, rfl⟩, find?, scanned,
      Utf8.encode_singleton]
  · have absent : ∀ d ∈ cs, (d == c) = false := by
      intro d hd
      rw [beq_eq_false_iff_ne]
      rintro rfl
      obtain ⟨a, b, rfl⟩ := List.append_of_mem hd
      exact inside ⟨a, b, by simp⟩
    rw [Seeks.chosen.find?_eq_none_iff.2 fun i stands =>
      inside (Utf8.exists_standsAt_encode_iff.1 ⟨i, stands⟩), find?,
      Utf8.scanTo_encode_of_passes absent]

theorem reject?_ofLiteral_char (c : Char) (cs : List Char) :
    (ofLiteral (Utf8.encode [c])).reject? (Utf8.encode cs) =
      (charWhere (· == c)).reject? (Utf8.encode cs) := by
  have filled : Utf8.encode [c] ≠ [] := Utf8.encode_ne_nil (by simp)
  rw [Seeks.chosen.reject?_eq, reject?]
  by_cases other : ∃ x ∈ cs, (x == c) = false
  · obtain ⟨x, later, split, pass, stop⟩ := View.exists_first_rejected other
    have same : ∀ d ∈ cs.takeWhile (· == c), d = c := fun d hd => beq_iff_eq.1 (pass d hd)
    have scanned : Utf8.scanTo (fun d => !(d == c)) 0 (Utf8.encode cs) =
        ((Utf8.encode (cs.takeWhile (· == c))).length,
          some (.ok (x, (String.utf8EncodeChar x).length))) := by
      conv_lhs => rw [split, ← List.append_nil (Utf8.encode _)]
      refine Utf8.scanTo_encode_of_stops (fun d hd => ?_) ?_ []
      · rw [pass d hd]
        rfl
      · rw [stop]
        rfl
    -- The chars before are repetitions of the literal, and the next one does not go on with it.
    have differs := not_prefix_of_ne (beq_eq_false_iff_ne.1 stop) later
    have left : Utf8.encode (x :: later) ≠ [] := Utf8.encode_ne_nil (by simp)
    rw [scanned]
    conv_lhs => rw [split, Utf8.encode_append, encode_of_forall_eq same]
    rw [literalBreak?_repeated_append filled, literalBreak?_of_not_prefix filled left differs,
      encode_of_forall_eq same, length_repeated, Nat.zero_add]
    rfl
  · have same : ∀ d ∈ cs, d = c := by simpa using other
    have scanned : Utf8.scanTo (fun d => !(d == c)) 0 (Utf8.encode cs) =
        ((Utf8.encode cs).length, none) := by
      refine Utf8.scanTo_encode_of_passes fun d hd => ?_
      rw [same d hd, beq_self_eq_true]
      rfl
    rw [scanned, (literalBreak?_eq_none_iff filled).2 ⟨_, encode_of_forall_eq same⟩]
    rfl

end Pattern

/-! ## Cuts at chars -/

namespace View

variable {v : View} {p : Pattern} {s cs pre post : List Char}

theorem Placed.locate?_of_firstAt (h : v.Placed) (spells : v.Spells cs)
    (small : v.size ≤ Number.wholeLimit) (hp : Pattern.Seeks (Utf8.encode s) p)
    (first : Utf8.FirstAt s cs pre post) :
    v.locate? p = some ((Utf8.encode pre).length, (Utf8.encode (pre ++ s)).length) := by
  have found : p.find? v.bytes =
      some (Number.ofNat (Utf8.encode pre).length, Number.ofNat (Utf8.encode s).length) := by
    rw [spells.bytes]
    exact hp.find?_eq_some_iff.2 ⟨_, first.isLeast, rfl⟩
  obtain ⟨rfl, -⟩ := first
  have start := h.isBoundary_of_append spells
  rw [← List.append_assoc] at spells
  have stop := h.isBoundary_of_append spells
  have size := spells.size
  rw [Utf8.encode_append, List.length_append] at size
  rw [Utf8.encode_append, List.length_append] at stop size ⊢
  exact locate?_of_boundaries found (by omega) start stop

theorem Spells.isSome_find?_iff (spells : v.Spells cs) (hp : Pattern.Seeks (Utf8.encode s) p) :
    (p.find? v.bytes).isSome ↔ s <:+: cs := by
  rw [← not_iff_not, Option.not_isSome_iff_eq_none, spells.bytes, hp.find?_eq_none_iff,
    ← Utf8.exists_standsAt_encode_iff, not_exists]

theorem Placed.isSome_locate?_iff (h : v.Placed) (spells : v.Spells cs)
    (small : v.size ≤ Number.wholeLimit) (hp : Pattern.Seeks (Utf8.encode s) p) :
    (v.locate? p).isSome ↔ s <:+: cs := by
  by_cases inside : s <:+: cs
  · obtain ⟨pre, post, first⟩ := Utf8.exists_firstAt inside
    rw [h.locate?_of_firstAt spells small hp first]
    exact iff_of_true rfl inside
  · have missing : p.find? v.bytes = none := by
      rwa [← Option.not_isSome_iff_eq_none, spells.isSome_find?_iff hp]
    rw [locate?, missing]
    exact iff_of_false (by simp) inside

theorem Placed.splitUntil?_of_firstAt (h : v.Placed) (spells : v.Spells cs)
    (small : v.size ≤ Number.wholeLimit) (hp : Pattern.Seeks (Utf8.encode s) p)
    (first : Utf8.FirstAt s cs pre post) :
    ∃ head tail rest, v.splitUntil? p = some (head, tail) ∧
      v.splitUntilConsume? p = some (head, rest) ∧ head.Spells pre ∧ tail.Spells (s ++ post) ∧
      rest.Spells post := by
  have place := h.locate?_of_firstAt spells small hp first
  obtain ⟨rfl, -⟩ := first
  obtain ⟨head, tail⟩ := h.cut_spells spells
  rw [← List.append_assoc] at spells
  obtain ⟨-, rest⟩ := h.cut_spells spells
  refine ⟨_, _, _, ?_, ?_, head, tail, rest⟩
  · rw [splitUntil?, place, Option.map_some]
  · rw [splitUntilConsume?, place, Option.map_some]

end View

/-- A text is searched for a literal by its bytes as it would be by its chars: the cut is made
before the first place where these stand, or after it, and a match is never passed over for its
place. The literal of one char answers as the test for that char. Every view is no longer than the
numbers that count exactly. -/
theorem byte_search_is_char_search {v : View} {s : List Char} {p : Pattern} (h : v.Placed)
    (kind : v.kind = .text) (small : v.size ≤ Number.wholeLimit)
    (hp : Pattern.Seeks (Utf8.encode s) p) :
    ∃ cs, v.bytes = Utf8.encode cs ∧ v.tokens = cs.map .char ∧
      ((v.locate? p).isSome ↔ (p.find? v.bytes).isSome) ∧
      ((v.splitUntil? p).isSome ↔ s <:+: cs) ∧ ((v.splitUntilConsume? p).isSome ↔ s <:+: cs) ∧
      (s <:+: cs → ∃ pre post head tail rest, Utf8.FirstAt s cs pre post ∧
        v.splitUntil? p = some (head, tail) ∧ v.splitUntilConsume? p = some (head, rest) ∧
        head.tokens = pre.map .char ∧ tail.tokens = (s ++ post).map .char ∧
        rest.tokens = post.map .char) ∧
      ∀ c, s = [c] → p.find? v.bytes = (Pattern.charWhere (· == c)).find? v.bytes ∧
        p.reject? v.bytes = (Pattern.charWhere (· == c)).reject? v.bytes := by
  obtain ⟨cs, spells⟩ := h.exists_spells kind
  have place := h.isSome_locate?_iff spells small hp
  refine ⟨cs, spells.bytes, spells.tokens, ?_, ?_, ?_, ?_, ?_⟩
  · rw [place, spells.isSome_find?_iff hp]
  · rwa [View.splitUntil?, Option.isSome_map]
  · rwa [View.splitUntilConsume?, Option.isSome_map]
  · intro inside
    obtain ⟨pre, post, first⟩ := Utf8.exists_firstAt inside
    obtain ⟨head, tail, rest, cut, consumed, before, after, left⟩ :=
      h.splitUntil?_of_firstAt spells small hp first
    exact ⟨pre, post, head, tail, rest, first, cut, consumed, before.tokens, after.tokens,
      left.tokens⟩
  · rintro c rfl
    obtain ⟨finds, rejects⟩ := hp.eq_literal v.bytes
    obtain ⟨finds', rejects'⟩ := Pattern.Seeks.chosen.eq_literal v.bytes
    rw [finds, rejects, ← finds', ← rejects', spells.bytes]
    exact ⟨Pattern.find?_ofLiteral_char c cs, Pattern.reject?_ofLiteral_char c cs⟩

/-- Both chars end with the same byte, and only the whole of the literal is found. -/
theorem byte_search_is_char_search_inside :
    let source := Source.ofBytes 0 (Utf8.encode ['x', '¬', '€', '¬', '€'])
    let v : View := ⟨source, 1, 10, .startBounded, .text, none⟩
    v.Placed ∧ v.kind = .text ∧ v.size ≤ Number.wholeLimit ∧
      ∃ head tail rest, v.splitUntil? (.ofLiteral (Utf8.encode ['€'])) = some (head, tail) ∧
        v.splitUntilConsume? (.ofLiteral (Utf8.encode ['€'])) = some (head, rest) ∧
        head.tokens = [.char '¬'] ∧ tail.tokens = [.char '€', .char '¬', .char '€'] ∧
        rest.tokens = [.char '¬', .char '€'] := by
  intro source v
  have bytes : v.bytes = Utf8.encode ['¬', '€', '¬', '€'] := by decide +kernel
  have whole : v.kind.Whole v.bytes := by
    rw [bytes]
    exact Utf8.isValid_encode _
  have placed : v.Placed := ⟨rfl, by decide +kernel, by decide +kernel, whole⟩
  refine ⟨placed, rfl, by decide +kernel, ?_⟩
  obtain ⟨cs, bytes', -, -, -, -, cuts, -⟩ := byte_search_is_char_search (s := ['€']) placed rfl
    (by decide +kernel) Pattern.Seeks.chosen
  obtain rfl := Utf8.encode_injective (bytes'.symm.trans bytes)
  obtain ⟨pre, post, head, tail, rest, first, cut, consumed, before, after, left⟩ :=
    cuts (by decide)
  -- The first `€` comes after one char, and no place before it is left to try.
  have one : pre.length ≤ 1 := first.least ['¬'] ['¬', '€'] rfl
  have split := first.split
  obtain ⟨rfl, rfl⟩ : pre = ['¬'] ∧ post = ['¬', '€'] := by
    rcases pre with _ | ⟨c, _ | ⟨d, pre⟩⟩
    · simp at split
    · simpa [eq_comm] using split
    · simp at one
  exact ⟨head, tail, rest, cut, consumed, before, after, left⟩

end Untrusted
