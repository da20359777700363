import Mathlib
import Untrusted.Program
import Untrusted.Proofs.Ahead.Search
import Untrusted.Proofs.Decoding
import Untrusted.Proofs.Utf8.Problem

/-!
# Scanning for a token

A cut before the first token that a test rejects can be made with a pattern that repeats, with one
that is searched for, or token by token, and over bytes that hold text also while they are decoded.
All of them stop at the same place, and leave the same parts.
-/

namespace Untrusted

theorem Span.offsetWithin?_eq (s other : Span) :
    s.offsetWithin? other = (s.rangeOf? other).map Prod.fst := by
  unfold offsetWithin? rangeOf?
  split <;> rfl

/-! ## Tokens and their bytes -/

def Token.bytes : Token → List UInt8
  | .byte b => [b]
  | .char c => String.utf8EncodeChar c

def Token.encoded (ts : List Token) : List UInt8 := ts.flatMap Token.bytes

theorem Token.encoded_byte (bytes : List UInt8) : encoded (bytes.map .byte) = bytes := by
  simp [encoded, List.flatMap_map, Token.bytes]

theorem Token.encoded_char (cs : List Char) : encoded (cs.map .char) = Utf8.encode cs := by
  simp [encoded, List.flatMap_map, Token.bytes, Utf8.encode]

theorem Token.encoded_append (a b : List Token) : encoded (a ++ b) = encoded a ++ encoded b := by
  simp [encoded]

/-! ## Scans of an encoding -/

namespace Utf8

variable {stops : Char → Bool} {cs later : List Char} {c : Char}

theorem scanTo_encode_of_passes (pass : ∀ c ∈ cs, stops c = false) :
    scanTo stops 0 (encode cs) = ((encode cs).length, none) := by
  have scanned := scanTo_encode_append pass 0 []
  rw [List.append_nil, Nat.zero_add] at scanned
  rw [scanned, scanTo, if_pos (by rfl)]

theorem scanTo_encode_of_stops (pass : ∀ c ∈ cs, stops c = false) (stop : stops c = true)
    (rest : List UInt8) : scanTo stops 0 (encode (cs ++ c :: later) ++ rest) =
      ((encode cs).length, some (.ok (c, (String.utf8EncodeChar c).length))) := by
  rw [encode_append, List.append_assoc, scanTo_encode_append pass, Nat.zero_add, encode_cons,
    List.append_assoc, scanTo_of_decode (decode_encodeChar_append c _), if_pos stop]

theorem exists_encode_append (bytes : List UInt8) :
    ∃ cs rest f, bytes = encode cs ++ rest ∧ decode rest = .error f := by
  by_cases encoded : Encoded bytes
  · obtain ⟨cs, rfl⟩ := encoded
    exact ⟨cs, [], _, (List.append_nil _).symm, rfl⟩
  · obtain ⟨cs, rest, f, split, failed, -⟩ := exists_problem?_of_not_encoded encoded
    exact ⟨cs, rest, f, split, failed⟩

theorem encoded_encode_append_iff {rest : List UInt8} {f : Fault}
    (failed : decode rest = .error f) :
    Encoded (encode cs ++ rest) ↔ rest = [] := by
  rw [encoded_encode_append]
  constructor
  · intro encoded
    by_contra filled
    exact not_encoded_of_decode_error failed filled encoded
  · rintro rfl
    exact ⟨[], rfl⟩

end Utf8

namespace Kind

variable {k : Kind} {a b : List Token}

def Holds : Kind → List Token → Prop
  | .bytes, ts => ∃ bytes : List UInt8, ts = bytes.map .byte
  | .text, ts => ∃ cs : List Char, ts = cs.map .char

theorem Holds.left (h : k.Holds (a ++ b)) : k.Holds a := by
  cases k with
  | bytes =>
    obtain ⟨bytes, same⟩ := h
    obtain ⟨l, -, -, rfl, -⟩ := List.map_eq_append_iff.1 same.symm
    exact ⟨l, rfl⟩
  | text =>
    obtain ⟨cs, same⟩ := h
    obtain ⟨l, -, -, rfl, -⟩ := List.map_eq_append_iff.1 same.symm
    exact ⟨l, rfl⟩

theorem Holds.whole (h : k.Holds a) : k.Whole (Token.encoded a) := by
  cases k with
  | bytes => trivial
  | text =>
    obtain ⟨cs, rfl⟩ := h
    rw [Token.encoded_char]
    exact Utf8.isValid_encode cs

theorem exists_tokens_of_whole {bytes : List UInt8} (h : k.Whole bytes) :
    ∃ ts, k.Holds ts ∧ bytes = Token.encoded ts := by
  cases k with
  | bytes => exact ⟨_, ⟨bytes, rfl⟩, (Token.encoded_byte bytes).symm⟩
  | text =>
    obtain ⟨cs, rfl⟩ := Utf8.exists_encode_of_isValid h
    exact ⟨_, ⟨cs, rfl⟩, (Token.encoded_char cs).symm⟩

end Kind

theorem Pattern.findIdx?_append_cons {f : UInt8 → Bool} {before later : List UInt8} {x : UInt8}
    (pass : ∀ b ∈ before, f b = false) (stop : f x = true) :
    (before ++ x :: later).findIdx? f = some before.length := by
  have none : before.findIdx? f = none := List.findIdx?_eq_none_iff.2 pass
  rw [List.findIdx?_append, none, List.findIdx?_cons, if_pos stop]
  simp

def Pattern.tokenWhere (p : Nat → Bool) : Kind → Pattern
  | .bytes => .byteWhere fun b => p b.toNat
  | .text => .charWhere fun c => p c.toNat

namespace View

/-- A range of whole tokens that lies in its source, whatever its bound. -/
structure Placed (v : View) : Prop where
  unstray : v.stray = none
  inside : v.offset + v.size ≤ v.source.size
  backed : v.source.start + v.source.size ≤ v.source.buffer.bytes.size
  whole : v.kind.Whole v.bytes

variable {v : View} {p : Nat → Bool} {a b : List Token} {t : Token}

theorem tokens_of_encoded (unstray : v.stray = none) (holds : v.kind.Holds a)
    (bytes : v.bytes = Token.encoded a) : v.tokens = a := by
  cases kind : v.kind with
  | bytes =>
    rw [kind] at holds
    obtain ⟨l, rfl⟩ := holds
    rw [Token.encoded_byte] at bytes
    simp only [tokens, entries, unstray, kind, List.map_map, bytes]
    rfl
  | text =>
    rw [kind] at holds
    obtain ⟨cs, rfl⟩ := holds
    rw [Token.encoded_char] at bytes
    exact tokens_of_encode unstray kind bytes

namespace Placed

theorem intoBound_sound (h : v.Placed) : v.intoBound.Sound :=
  ⟨h.unstray, h.inside, h.backed, h.whole, by simp [intoBound]⟩

theorem length_bytes (h : v.Placed) : v.bytes.length = v.size := h.intoBound_sound.length_bytes

theorem isBoundary_iff (h : v.Placed) (i : Nat) :
    v.isBoundary i = true ↔ v.kind.Boundary v.bytes i :=
  h.intoBound_sound.isBoundary_iff i

theorem cut_eq (h : v.Placed) (i : Nat) :
    v.cut i = ({ v with size := i, bound := .fullyBounded },
      { v with offset := v.offset + i, size := v.size - i }) := by
  simp only [View.cut, h.unstray, Bound.closeEnd]

theorem endView_eq (h : v.Placed) :
    v.endView = { v with offset := v.offset + v.size, size := 0, bound := v.bound.forEnd } := by
  simp only [View.endView, h.unstray]

theorem tokens_spec (h : v.Placed) : v.kind.Holds v.tokens ∧ v.bytes = Token.encoded v.tokens := by
  obtain ⟨ts, holds, bytes⟩ := Kind.exists_tokens_of_whole h.whole
  rw [tokens_of_encoded h.unstray holds bytes]
  exact ⟨holds, bytes⟩

/-! ## Cuts between tokens -/

theorem boundary_of_tokens (h : v.Placed) (split : v.tokens = a ++ b) :
    v.kind.Boundary v.bytes (Token.encoded a).length := by
  obtain ⟨holds, bytes⟩ := h.tokens_spec
  have whole := h.whole
  rw [split] at holds bytes
  rw [bytes, Token.encoded_append] at whole ⊢
  exact Kind.boundary_of_whole_prefix holds.left.whole whole

theorem cut_tokens (h : v.Placed) (split : v.tokens = a ++ b) :
    (v.cut (Token.encoded a).length).1.tokens = a := by
  obtain ⟨holds, bytes⟩ := h.tokens_spec
  have le := (h.boundary_of_tokens split).le
  rw [h.length_bytes] at le
  rw [split] at holds bytes
  rw [h.cut_eq]
  refine tokens_of_encoded h.unstray holds.left ?_
  rw [bytes_resize le, bytes, Token.encoded_append, List.take_left]

/-! ## Where scans stop -/

theorem stops_at (h : v.Placed) (split : v.tokens = a ++ t :: b)
    (pass : ∀ s ∈ a, p s.value = true) (stop : p t.value = false) :
    v.firstWhere? (fun n => !p n) = some ((Token.encoded a).length, t.value) ∧
      (Pattern.tokenWhere (fun n => !p n) v.kind).find? v.bytes =
        some (Number.ofNat (Token.encoded a).length, Number.ofNat t.bytes.length) ∧
      (Pattern.tokenWhere p v.kind).reject? v.bytes =
        some (Number.ofNat (Token.encoded a).length) := by
  obtain ⟨holds, bytes⟩ := h.tokens_spec
  rw [split] at holds bytes
  cases kind : v.kind with
  | bytes =>
    rw [kind] at holds
    obtain ⟨l, same⟩ := holds
    obtain ⟨before, later, rfl, rfl, rest⟩ := List.map_eq_append_iff.1 same.symm
    obtain ⟨x, after, rfl, rfl, rfl⟩ := List.map_eq_cons_iff.1 rest
    rw [← List.map_cons, ← List.map_append, Token.encoded_byte] at bytes
    have found : (v.bytes.findIdx? fun b => !p b.toNat) = some before.length := by
      rw [bytes]
      refine Pattern.findIdx?_append_cons (fun x hx => ?_) ?_
      · simpa [Token.value] using pass _ (List.mem_map_of_mem hx)
      · simpa [Token.value] using stop
    rw [Token.encoded_byte]
    refine ⟨?_, ?_, ?_⟩
    · rw [bytes] at found
      simp [firstWhere?, h.unstray, kind, bytes, found, Token.value, -List.findIdx?_append]
    · rw [Pattern.tokenWhere, Pattern.find?_byteWhere, found]
      rfl
    · simp [Pattern.tokenWhere, Pattern.reject?, found]
  | text =>
    rw [kind] at holds
    obtain ⟨cs, same⟩ := holds
    obtain ⟨before, later, rfl, rfl, rest⟩ := List.map_eq_append_iff.1 same.symm
    obtain ⟨c, after, rfl, rfl, rfl⟩ := List.map_eq_cons_iff.1 rest
    rw [← List.map_cons, ← List.map_append, Token.encoded_char] at bytes
    have scanned : Utf8.scanTo (fun c => !p c.toNat) 0 v.bytes =
        ((Utf8.encode before).length, some (.ok (c, (String.utf8EncodeChar c).length))) := by
      rw [bytes, ← List.append_nil (Utf8.encode _)]
      refine Utf8.scanTo_encode_of_stops (fun d hd => ?_) ?_ []
      · simpa [Token.value] using pass _ (List.mem_map_of_mem hd)
      · simpa [Token.value] using stop
    rw [Token.encoded_char]
    refine ⟨?_, ?_, ?_⟩
    · simp [firstWhere?, h.unstray, kind, scanned, Token.value]
    · simp [Pattern.tokenWhere, Pattern.find?, scanned, Token.bytes]
    · simp [Pattern.tokenWhere, Pattern.reject?, scanned]

theorem passes_all (h : v.Placed) (pass : ∀ s ∈ v.tokens, p s.value = true) :
    v.firstWhere? (fun n => !p n) = none ∧
      (Pattern.tokenWhere (fun n => !p n) v.kind).find? v.bytes = none ∧
      (Pattern.tokenWhere p v.kind).reject? v.bytes = none := by
  obtain ⟨holds, bytes⟩ := h.tokens_spec
  generalize v.tokens = ts at holds bytes pass
  cases kind : v.kind with
  | bytes =>
    rw [kind] at holds
    obtain ⟨l, rfl⟩ := holds
    rw [Token.encoded_byte] at bytes
    have none : (v.bytes.findIdx? fun b => !p b.toNat) = none := by
      rw [List.findIdx?_eq_none_iff, bytes]
      intro x hx
      simpa [Token.value] using pass _ (List.mem_map_of_mem hx)
    refine ⟨?_, ?_, ?_⟩
    · simp [firstWhere?, h.unstray, kind, none]
    · rw [Pattern.tokenWhere, Pattern.find?_byteWhere, none]
      rfl
    · simp [Pattern.tokenWhere, Pattern.reject?, none]
  | text =>
    rw [kind] at holds
    obtain ⟨cs, rfl⟩ := holds
    rw [Token.encoded_char] at bytes
    have scanned : Utf8.scanTo (fun c => !p c.toNat) 0 v.bytes =
        ((Utf8.encode cs).length, none) := by
      rw [bytes]
      refine Utf8.scanTo_encode_of_passes fun d hd => ?_
      simpa [Token.value] using pass _ (List.mem_map_of_mem hd)
    refine ⟨?_, ?_, ?_⟩
    · simp [firstWhere?, h.unstray, kind, scanned]
    · simp [Pattern.tokenWhere, Pattern.find?, scanned]
    · simp [Pattern.tokenWhere, Pattern.reject?, scanned]

/-! ## Cuts at the token -/

section

variable {mode : Mode} {op : Operation}

theorem isBoundary_of_tokens (h : v.Placed) (split : v.tokens = a ++ b) :
    v.isBoundary (Token.encoded a).length = true :=
  (h.isBoundary_iff _).2 (h.boundary_of_tokens split)

theorem splitWhile_of_stops (h : v.Placed) (split : v.tokens = a ++ t :: b)
    (pass : ∀ s ∈ a, p s.value = true) (stop : p t.value = false) :
    v.splitWhile (.tokenWhere p v.kind) = v.cut (Token.encoded a).length := by
  obtain ⟨-, -, rejects⟩ := h.stops_at split pass stop
  exact splitWhile_of_reject? rejects (h.isBoundary_of_tokens split)

theorem trySplitWhile_of_stops (h : v.Placed) (split : v.tokens = a ++ t :: b)
    (pass : ∀ s ∈ a, p s.value = true) (stop : p t.value = false) :
    v.trySplitWhile mode (Action.sure p) op = .ok (v.cut (Token.encoded a).length) := by
  obtain ⟨first, -, -⟩ := h.stops_at split pass stop
  unfold trySplitWhile
  rw [show (fun n => !(Action.sure p).passes n) = fun n => !p n from rfl, first]
  rfl

theorem splitUntil?_of_stops (h : v.Placed) (small : v.size ≤ Number.wholeLimit)
    (split : v.tokens = a ++ t :: b) (pass : ∀ s ∈ a, p s.value = true)
    (stop : p t.value = false) :
    v.splitUntil? (.tokenWhere (fun n => !p n) v.kind) = some (v.cut (Token.encoded a).length) := by
  obtain ⟨-, found, -⟩ := h.stops_at split pass stop
  have start := h.isBoundary_of_tokens split
  have after : v.tokens = (a ++ [t]) ++ b := by rw [split, List.append_assoc, List.singleton_append]
  have length : (Token.encoded (a ++ [t])).length = (Token.encoded a).length + t.bytes.length := by
    simp [Token.encoded]
  have le := (h.boundary_of_tokens after).le
  have last := h.isBoundary_of_tokens after
  rw [h.length_bytes] at le
  rw [length] at le last
  have place := locate?_of_boundaries found (le.trans small) start last
  rw [splitUntil?, place, Option.map_some]

theorem splitWhile_of_passes (h : v.Placed) (pass : ∀ s ∈ v.tokens, p s.value = true) :
    v.splitWhile (.tokenWhere p v.kind) = v.exhausted := by
  obtain ⟨-, -, rejects⟩ := h.passes_all pass
  simp only [splitWhile, rejects]

theorem trySplitWhile_of_passes (h : v.Placed) (pass : ∀ s ∈ v.tokens, p s.value = true) :
    v.trySplitWhile mode (Action.sure p) op = .ok v.exhausted := by
  obtain ⟨none, -, -⟩ := h.passes_all pass
  unfold trySplitWhile
  rw [show (fun n => !(Action.sure p).passes n) = fun n => !p n from rfl, none]

theorem splitUntil?_of_passes (h : v.Placed) (pass : ∀ s ∈ v.tokens, p s.value = true) :
    v.splitUntil? (.tokenWhere (fun n => !p n) v.kind) = none := by
  obtain ⟨-, found, -⟩ := h.passes_all pass
  simp [splitUntil?, locate?, found]

end

end Placed

/-! ## The first token that is rejected -/

theorem exists_first_rejected {α : Type} {accepts : α → Bool} {l : List α}
    (some : ∃ x ∈ l, accepts x = false) :
    ∃ x later, l = l.takeWhile accepts ++ x :: later ∧
      (∀ y ∈ l.takeWhile accepts, accepts y = true) ∧ accepts x = false := by
  have filled : l.dropWhile accepts ≠ [] := by
    rw [ne_eq, List.dropWhile_eq_nil_iff]
    simpa using some
  obtain ⟨x, later, split⟩ := List.exists_cons_of_ne_nil filled
  refine ⟨x, later, ?_, fun y hy => List.mem_takeWhile_imp hy, ?_⟩
  · rw [← split, List.takeWhile_append_dropWhile]
  · have stop := List.head_dropWhile_not accepts filled
    simpa [split] using stop

/-! ## Bytes that are decoded as they are scanned -/

section

variable {mode : Mode} {op : Operation} {cs later : List Char} {c : Char} {rest : List UInt8}
  {f : Utf8.Fault}

theorem trySplitStrWhile_of_stops (bytes : v.bytes = Utf8.encode (cs ++ c :: later) ++ rest)
    (pass : ∀ d ∈ cs, p d.toNat = true) (stop : p c.toNat = false) :
    v.trySplitStrWhile mode (Action.sure p) op =
      .ok ({ (v.cut (Utf8.encode cs).length).1 with kind := .text },
        (v.cut (Utf8.encode cs).length).2) := by
  unfold trySplitStrWhile
  rw [show (fun c : Char => !(Action.sure p).passes c.toNat) = fun c => !p c.toNat from rfl, bytes,
    Utf8.scanTo_encode_of_stops (by simpa using pass) (by simpa using stop)]
  rfl

theorem trySplitStrWhile_of_passes (bytes : v.bytes = Utf8.encode cs)
    (pass : ∀ d ∈ cs, p d.toNat = true) :
    v.trySplitStrWhile mode (Action.sure p) op = .ok ({ v with kind := .text }, v.endView) := by
  unfold trySplitStrWhile
  rw [show (fun c : Char => !(Action.sure p).passes c.toNat) = fun c => !p c.toNat from rfl, bytes,
    Utf8.scanTo_encode_of_passes (by simpa using pass)]

theorem Placed.offsetWithin?_codePointCause (h : v.Placed) {start length : Nat}
    (le : start + length ≤ v.size) (retry : Option Retry) :
    (v.codePointCause op start length retry).span.offsetWithin? v.span =
      some (Number.ofNat start) := by
  have sound := h.intoBound_sound
  have place : (v.codePointCause op start length retry).span =
      v.intoBound.range start (start + length) :=
    sound.within_eq (Nat.le_add_right _ _) le
  rw [place, Span.offsetWithin?_eq]
  exact congrArg (Option.map Prod.fst) (sound.rangeOf?_range (Nat.le_add_right _ _) le)

theorem Placed.trySplitStrWhile_of_fault (h : v.Placed) (bytes : v.bytes = Utf8.encode cs ++ rest)
    (pass : ∀ d ∈ cs, p d.toNat = true) (filled : rest ≠ [])
    (failed : Utf8.decode rest = .error f) :
    ∃ e, v.trySplitStrWhile mode (Action.sure p) op = .error (mode.raise e) ∧ e.input = v ∧
      e.span.offsetWithin? v.span = some (Number.ofNat (Utf8.encode cs).length) := by
  have scanned : Utf8.scanTo (fun c => !p c.toNat) 0 v.bytes =
      ((Utf8.encode cs).length, some (.error f)) := by
    rw [bytes, Utf8.scanTo_encode_append (by simpa using pass),
      Utf8.scanTo_of_decode_error failed filled, Nat.zero_add]
  unfold trySplitStrWhile
  rw [show (fun c : Char => !(Action.sure p).passes c.toNat) = fun c => !p c.toNat from rfl,
    scanned]
  cases f with
  | invalid length =>
    have le := Utf8.invalid_bounds scanned
    rw [h.length_bytes] at le
    exact ⟨_, rfl, rfl, h.offsetWithin?_codePointCause le none⟩
  | incomplete expected available =>
    have same := (Utf8.incomplete_bounds scanned).1
    rw [h.length_bytes] at same
    exact ⟨_, rfl, rfl, h.offsetWithin?_codePointCause same.le _⟩

theorem Placed.trySplitStrWhile_of_encoded (h : v.Placed) (kind : v.kind = .bytes)
    (encoded : Utf8.Encoded v.bytes) : ∃ text head tail, v.intoText mode op = .ok text ∧
      v.trySplitStrWhile mode (Action.sure p) op = .ok (head, tail) ∧
      text.splitWhile (.charWhere fun c => p c.toNat) = (head, { tail with kind := .text }) := by
  obtain ⟨cs, bytes⟩ := encoded
  let text : View := { v with kind := .text }
  have placed : text.Placed := by
    refine ⟨h.unstray, h.inside, h.backed, ?_⟩
    exact Utf8.encoded_iff_isValid.1 ⟨cs, bytes⟩
  have tokens : text.tokens = cs.map .char := tokens_of_encode h.unstray rfl bytes
  have made : v.intoText mode op = .ok text := intoText_of_encode kind bytes mode op
  by_cases some : ∃ c ∈ cs, p c.toNat = false
  · obtain ⟨c, later, split, pass, stop⟩ := exists_first_rejected some
    generalize cs.takeWhile _ = before at split pass
    rw [split, List.map_append, List.map_cons] at tokens
    have cuts := placed.splitWhile_of_stops tokens (p := p) (by simpa [Token.value] using pass) stop
    rw [Token.encoded_char, placed.cut_eq] at cuts
    rw [split, ← List.append_nil (Utf8.encode _)] at bytes
    refine ⟨text, _, _, made, trySplitStrWhile_of_stops bytes pass stop, ?_⟩
    rw [h.cut_eq]
    exact cuts
  · have pass : ∀ c ∈ cs, p c.toNat = true := by simpa using some
    have cuts := placed.splitWhile_of_passes (p := p) (by
      rw [tokens]
      simpa [Token.value] using pass)
    refine ⟨text, _, _, made, trySplitStrWhile_of_passes bytes pass, ?_⟩
    rw [exhausted, placed.endView_eq] at cuts
    rw [h.endView_eq]
    exact cuts

theorem Placed.trySplitStrWhile_of_longestStart (h : v.Placed) :
    ∃ cs, Utf8.LongestStart Utf8.Encoded v.bytes (Utf8.encode cs) ∧
      ((∃ parts, v.trySplitStrWhile mode (Action.sure p) op = .ok parts) ↔
        Utf8.Encoded v.bytes ∨ ∃ c ∈ cs, p c.toNat = false) ∧
      ∀ e, v.trySplitStrWhile mode (Action.sure p) op = .error e →
        ∃ c, e = mode.raise c ∧ c.input = v ∧
          c.span.offsetWithin? v.span = some (Number.ofNat (Utf8.encode cs).length) := by
  obtain ⟨cs, rest, f, bytes, failed⟩ := Utf8.exists_encode_append v.bytes
  refine ⟨cs, by rw [bytes]; exact Utf8.longestStart_encode failed, ?_⟩
  by_cases some : ∃ c ∈ cs, p c.toNat = false
  · obtain ⟨c, later, split, pass, stop⟩ := exists_first_rejected some
    rw [split] at bytes
    rw [trySplitStrWhile_of_stops bytes pass stop]
    simp [some]
  · -- Every char passes, so all depends on whether bytes are left after the chars.
    have pass : ∀ c ∈ cs, p c.toNat = true := by simpa using some
    have valid : Utf8.Encoded v.bytes ↔ rest = [] := by
      rw [bytes, Utf8.encoded_encode_append_iff failed]
    by_cases filled : rest = []
    · have encoded := valid.2 filled
      rw [filled, List.append_nil] at bytes
      rw [trySplitStrWhile_of_passes bytes pass]
      simp [encoded]
    · obtain ⟨c, cut, input, span⟩ := h.trySplitStrWhile_of_fault bytes pass filled failed
      rw [cut]
      simp only [valid, filled, some]
      refine ⟨by simp, ?_⟩
      rintro _ ⟨⟩
      exact ⟨c, rfl, input, span⟩

end

/-- The scans of a view agree. They leave the tokens that the test accepts before the first one that
it rejects, and the whole view and its end if there is no such token; only a search then says that
there is no match. Bytes that encode chars are cut like the text of them. Other bytes are cut if the
test rejects a char among those that they start with, and else the failure names the place where
these end. Every view is no longer than the numbers that count exactly. -/
theorem token_scans_agree {v : View} (h : v.Placed) (small : v.size ≤ Number.wholeLimit)
    (mode : Mode) (op : Operation) (p : Nat → Bool) :
    (v.trySplitWhile mode (Action.sure p) op = .ok (v.splitWhile (.tokenWhere p v.kind)) ∧
      ((∃ t ∈ v.tokens, p t.value = false) →
        v.splitUntil? (.tokenWhere (fun n => !p n) v.kind) =
            some (v.splitWhile (.tokenWhere p v.kind)) ∧
          (v.splitWhile (.tokenWhere p v.kind)).1.offset = v.offset ∧
          (v.splitWhile (.tokenWhere p v.kind)).1.tokens = v.tokens.takeWhile fun t => p t.value) ∧
      ((∀ t ∈ v.tokens, p t.value = true) →
        v.splitUntil? (.tokenWhere (fun n => !p n) v.kind) = none ∧
          v.splitWhile (.tokenWhere p v.kind) = (v, v.endView))) ∧
    (v.kind = .bytes →
      (Utf8.Encoded v.bytes → ∃ text head tail, v.intoText mode op = .ok text ∧
        v.trySplitStrWhile mode (Action.sure p) op = .ok (head, tail) ∧
        text.splitWhile (.charWhere fun c => p c.toNat) = (head, { tail with kind := .text })) ∧
      ∃ cs, Utf8.LongestStart Utf8.Encoded v.bytes (Utf8.encode cs) ∧
        ((∃ parts, v.trySplitStrWhile mode (Action.sure p) op = .ok parts) ↔
          Utf8.Encoded v.bytes ∨ ∃ c ∈ cs, p c.toNat = false) ∧
        ∀ e, v.trySplitStrWhile mode (Action.sure p) op = .error e →
          ∃ c, e = mode.raise c ∧ c.input = v ∧
            c.span.offsetWithin? v.span = some (Number.ofNat (Utf8.encode cs).length)) := by
  refine ⟨⟨?_, ?_, ?_⟩, fun kind => ⟨?_, ?_⟩⟩
  · by_cases some : ∃ t ∈ v.tokens, p t.value = false
    · obtain ⟨t, later, split, pass, stop⟩ := exists_first_rejected some
      rw [h.trySplitWhile_of_stops split pass stop,
        h.splitWhile_of_stops split pass stop]
    · have pass : ∀ t ∈ v.tokens, p t.value = true := by simpa using some
      rw [h.trySplitWhile_of_passes pass, h.splitWhile_of_passes pass]
  · intro some
    obtain ⟨t, later, split, pass, stop⟩ := exists_first_rejected some
    rw [h.splitUntil?_of_stops small split pass stop,
      h.splitWhile_of_stops split pass stop]
    exact ⟨rfl, by rw [h.cut_eq], h.cut_tokens split⟩
  · intro pass
    rw [h.splitUntil?_of_passes pass, h.splitWhile_of_passes pass]
    exact ⟨rfl, rfl⟩
  · exact h.trySplitStrWhile_of_encoded kind
  · exact h.trySplitStrWhile_of_longestStart

theorem token_scans_agree_faulty :
    let v := ofSource (.ofBytes 0 [0x68, 0xe2, 0x28]) .bytes
    let p : Nat → Bool := fun n => n != 0x28
    v.Placed ∧ v.size ≤ Number.wholeLimit ∧
      v.splitUntil? (.byteWhere fun b => !p b.toNat) =
        some (v.splitWhile (.byteWhere fun b => p b.toNat)) ∧
      (v.splitWhile (.byteWhere fun b => p b.toNat)).1.tokens = [.byte 0x68, .byte 0xe2] ∧
      ∃ c, v.trySplitStrWhile .root (Action.sure p) .takeStrWhile = .error (Mode.root.raise c) ∧
        c.span.offsetWithin? v.span = some (Number.ofNat 1) := by
  intro v p
  have bytes : v.bytes = [0x68, 0xe2, 0x28] := bytes_ofBytes 0 _ _
  have sound : v.Sound := ofBytes_sound 0 trivial
  have placed : v.Placed := ⟨sound.unstray, sound.inside, sound.backed, sound.whole⟩
  have small : v.size ≤ Number.wholeLimit := by decide
  obtain ⟨⟨-, stops, -⟩, decoded⟩ := token_scans_agree placed small .root .takeStrWhile p
  obtain ⟨-, cs, longest, cuts, fails⟩ := decoded rfl
  have tokens : v.tokens = [.byte 0x68, .byte 0xe2, .byte 0x28] :=
    tokens_of_encoded rfl ⟨[0x68, 0xe2, 0x28], rfl⟩ bytes
  obtain ⟨found, -, head⟩ := stops ⟨.byte 0x28, by simp [tokens], rfl⟩
  have failed : Utf8.decode [0xe2, 0x28] = .error (.invalid 1) := by decide
  have start : Utf8.encode cs = Utf8.encode ['h'] := by
    refine longest.unique ?_
    rw [bytes]
    exact show Utf8.LongestStart _ (Utf8.encode ['h'] ++ [0xe2, 0x28]) _ from
      Utf8.longestStart_encode failed
  rw [start] at fails
  obtain rfl := Utf8.encode_injective start
  refine ⟨placed, small, found, ?_, ?_⟩
  · rw [tokens] at head
    exact head
  · cases cut : v.trySplitStrWhile .root (Action.sure p) .takeStrWhile with
    | ok parts =>
      have reached := cuts.1 ⟨parts, cut⟩
      rw [bytes, show [0x68, 0xe2, 0x28] = Utf8.encode ['h'] ++ [0xe2, 0x28] from rfl,
        Utf8.encoded_encode_append_iff failed] at reached
      simp [p] at reached
    | error e =>
      obtain ⟨c, rfl, -, span⟩ := fails e cut
      exact ⟨c, rfl, span⟩

end View
end Untrusted
