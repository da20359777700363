import Mathlib
import Untrusted.Program
import Untrusted.Proofs.Reader
import Untrusted.Proofs.Scans
import Untrusted.Proofs.View.Optional

/-!
# The tokens of a text

The chars of a text are counted by the bytes that start them, found by decoding from the front or by
going back from the end, and told apart from places inside them by a single byte. All of these are
about the same chars, because the bytes are valid.
-/

namespace Untrusted

/-! ## Bytes that start chars -/

namespace Utf8

variable {cs : List Char} {c : Char} {bytes : List UInt8} {i n start : Nat}

theorem countP_encode (cs : List Char) :
    (encode cs).countP (fun b => !isContinuation b) = cs.length := by
  induction cs with
  | nil => rfl
  | cons c cs ih =>
    obtain ⟨a, rest, form, lead, tails⟩ := (form_encodeChar c).exists_cons
    have starts : isContinuation a = false := by
      rw [Bool.eq_false_iff, ne_eq, isContinuation_iff]
      exact lead
    have none : rest.countP (fun b => !isContinuation b) = 0 := by
      rw [List.countP_eq_zero]
      intro b hb
      rw [(isContinuation_iff b).2 (tails b hb)]
      simp
    rw [encode_cons, List.countP_append, ih, form, List.countP_cons_of_pos (by rw [starts]; rfl),
      none, List.length_cons]
    omega

theorem lastCharStart_of_lead (lead : isContinuation (bytes.getD start 0) = false)
    (tails : ∀ j, start < j → j ≤ start + n → isContinuation (bytes.getD j 0) = true) :
    lastCharStart bytes (start + n + 1) = start := by
  induction n with
  | zero =>
    cases start with
    | zero => rfl
    | succ start => rw [Nat.add_zero, lastCharStart, if_neg (by rw [lead]; simp)]
  | succ n ih =>
    rw [← Nat.add_assoc, lastCharStart, if_pos (tails _ (by omega) (by omega))]
    exact ih fun j after le => tails j after (by omega)

theorem lastCharStart_encode (cs : List Char) (c : Char) :
    lastCharStart (encode (cs ++ [c])) (encode (cs ++ [c])).length = (encode cs).length := by
  obtain ⟨a, rest, form, lead, tails⟩ := (form_encodeChar c).exists_cons
  rw [encode_append, encode_singleton, form, List.length_append, List.length_cons, ← Nat.add_assoc]
  refine lastCharStart_of_lead ?_ fun j after le => ?_
  · rw [List.getD_append_right _ _ _ _ (Nat.le_refl _), Nat.sub_self, List.getD_cons_zero,
      Bool.eq_false_iff, ne_eq, isContinuation_iff]
    exact lead
  · obtain ⟨k, rfl⟩ := Nat.exists_eq_add_of_lt after
    have inside : k < rest.length := by omega
    rw [Nat.add_assoc, List.getD_append_right _ _ _ _ (Nat.le_add_right _ _),
      Nat.add_sub_cancel_left, List.getD_cons_succ, List.getD_eq_getElem _ _ inside,
      isContinuation_iff]
    exact tails _ (List.getElem_mem inside)

theorem charsLength?_encode (n i : Nat) (cs : List Char) : charsLength? n i (encode cs) =
    if n ≤ cs.length then some (i + (encode (cs.take n)).length) else none := by
  induction n generalizing i cs with
  | zero => simp [charsLength?, encode]
  | succ n ih =>
    cases cs with
    | nil => simp [charsLength?, encode, decode]
    | cons c cs =>
      rw [charsLength?, encode_cons, decode_encodeChar_append]
      simp only [List.drop_left, ih, List.length_cons, Nat.succ_le_succ_iff, List.take_succ_cons,
        encode_cons, List.length_append, Nat.add_assoc]

theorem token?_encode_cons (c : Char) (cs : List Char) :
    (Kind.text.token? (encode (c :: cs))).map Prod.fst = some (.char c) := by
  rw [Kind.token?, encode_cons, decode_encodeChar_append]
  rfl

end Utf8

/-! ## Views of a text -/

namespace View

/-- A text that holds these chars, and goes by its own numbers. -/
structure Spells (v : View) (cs : List Char) : Prop where
  unstray : v.stray = none
  kind : v.kind = .text
  bytes : v.bytes = Utf8.encode cs
  size : v.size = (Utf8.encode cs).length

variable {v : View} {cs a b : List Char} {n : Number} {m : Nat}

theorem Placed.exists_spells (h : v.Placed) (kind : v.kind = .text) : ∃ cs, v.Spells cs := by
  have whole := h.whole
  rw [kind] at whole
  obtain ⟨cs, bytes⟩ := Utf8.exists_encode_of_isValid whole
  exact ⟨cs, h.unstray, kind, bytes, by rw [← h.length_bytes, bytes]⟩

theorem Placed.cut_spells (h : v.Placed) (spells : v.Spells (a ++ b)) :
    (v.cut (Utf8.encode a).length).1.Spells a ∧ (v.cut (Utf8.encode a).length).2.Spells b := by
  have bytes := spells.bytes
  have size := spells.size
  rw [Utf8.encode_append] at bytes
  rw [Utf8.encode_append, List.length_append] at size
  have le : (Utf8.encode a).length ≤ v.size := by omega
  rw [h.cut_eq]
  refine ⟨⟨spells.unstray, spells.kind, ?_, rfl⟩, ⟨spells.unstray, spells.kind, ?_, ?_⟩⟩
  · rw [bytes_resize le, bytes, List.take_left]
  · have shifted : _ = v.bytes.drop _ := h.intoBound_sound.bytes_shift le v.bound
    rw [bytes, List.drop_left] at shifted
    exact shifted
  · simp only [size, Nat.add_sub_cancel_left]

namespace Spells

theorem tokens (h : v.Spells cs) : v.tokens = cs.map .char :=
  tokens_of_encode h.unstray h.kind h.bytes

theorem length (h : v.Spells cs) : v.length = Number.ofNat cs.length := by
  simp only [View.length, h.unstray, h.kind, h.bytes, Utf8.countP_encode]

theorem nth? (h : v.Spells cs) (m : Nat) :
    v.nth? (Number.ofNat m) = (cs[m]?).map Token.char := by
  rw [View.nth?, Number.toNat?_ofNat, Option.bind_some, h.tokens, List.getElem?_map]

theorem nth?_eq_none (h : v.Spells cs) (other : ∀ i < cs.length, n ≠ Number.ofNat i) :
    v.nth? n = none := by
  rw [View.nth?, Option.bind_eq_none_iff]
  intro i whole
  obtain rfl := Number.eq_ofNat_of_toNat? whole
  rw [List.getElem?_eq_none_iff, h.tokens, List.length_map]
  exact Nat.not_lt.1 fun inside => other i inside rfl

theorem firstEntry? (h : v.Spells cs) : v.firstEntry? = Kind.text.token? (Utf8.encode cs) := by
  simp only [View.firstEntry?, h.unstray, h.kind, ahead_eq, h.bytes, Kind.token?, Utf8.decode_take]

theorem first? (h : v.Spells cs) : v.first? = cs.head?.map Token.char := by
  rw [View.first?, h.firstEntry?]
  cases cs with
  | nil => rfl
  | cons c cs => exact Utf8.token?_encode_cons c cs

theorem last? (h : v.Spells cs) : v.last? = cs.getLast?.map Token.char := by
  simp only [View.last?, h.unstray, h.kind, h.bytes, h.size]
  rcases List.eq_nil_or_concat cs with rfl | ⟨cs, c, rfl⟩
  · rfl
  · rw [List.concat_eq_append, Utf8.lastCharStart_encode, Utf8.encode_append, List.drop_left,
      Utf8.token?_encode_cons, List.getLast?_concat, Option.map_some]

theorem first?_eq_nth? (h : v.Spells cs) : v.first? = v.nth? 0 := by
  rw [h.first?, show (0 : Number) = Number.ofNat 0 from rfl, h.nth?, List.head?_eq_getElem?]

theorem last?_eq_nth? (h : v.Spells cs) :
    v.last? = v.nth? (Number.ofInt ((cs.length : Int) - 1)) := by
  rw [h.last?]
  rcases Nat.eq_zero_or_pos cs.length with empty | filled
  · -- A text without chars has no last one, and no char has an index below zero.
    rw [List.length_eq_zero_iff.1 empty]
    rfl
  · have before : Number.ofInt ((cs.length : Int) - 1) = Number.ofNat (cs.length - 1) := by
      rw [Number.ofInt, Number.ofNat, ← Nat.cast_pred filled]
      norm_cast
    rw [before, h.nth?, List.getLast?_eq_getElem?]

theorem extent (h : v.Spells cs) : v.extent = Number.ofNat (Utf8.encode cs).length := by
  simp only [View.extent, h.unstray, h.size]

theorem splitFirst? (h : v.Spells cs) : v.splitFirst?.map Prod.fst = v.first? := by
  rw [View.splitFirst?, h.extent, show (0 : Number) = Number.ofNat 0 from rfl, Number.lt_ofNat]
  split
  · rw [Option.map_map, View.first?]
    rfl
  · rename_i empty
    rw [decide_eq_true_eq, Nat.not_lt, Nat.le_zero, List.length_eq_zero_iff] at empty
    rw [h.first?, show cs = [] from Utf8.encode_injective empty]
    rfl

theorem toOption_readChar (h : v.Spells cs) (mode : Mode) (last : Value) :
    (Action.readChar.run mode last v).result.toOption = v.first?.map Value.ofToken := by
  have step : (Action.readChar.run mode last v).result =
      ((v.splitFirst mode .readChar).map Prod.fst).map Value.ofToken :=
    congrArg (Except.map Value.ofToken) (Read.result_ofCut (fun v => v.splitFirst mode .readChar) v)
  rw [step, ← h.splitFirst?, ← toOption_splitFirst mode v .readChar]
  cases v.splitFirst mode .readChar <;> rfl

theorem byteIndex? (h : v.Spells cs) (m : Nat) : v.byteIndex? m =
    if m ≤ cs.length then some (Utf8.encode (cs.take m)).length else none := by
  simp only [View.byteIndex?, h.unstray, h.kind, ahead_eq, Utf8.charsLength?_take (Nat.le_refl _),
    h.bytes, Utf8.charsLength?_encode, Nat.zero_add]

theorem splitAt? (h : v.Spells cs) (le : m ≤ cs.length) :
    v.splitAt? (Number.ofNat m) = some (v.cut (Utf8.encode (cs.take m)).length) := by
  rw [View.splitAt?, Number.toNat?_ofNat, Option.bind_some, h.byteIndex?, if_pos le,
    Option.map_some]

theorem isSome_splitAt?_iff (h : v.Spells cs) :
    (v.splitAt? n).isSome ↔ ∃ m ≤ cs.length, n = Number.ofNat m := by
  constructor
  · intro cut
    rw [View.splitAt?, Option.isSome_map] at cut
    obtain ⟨i, place⟩ := Option.isSome_iff_exists.1 cut
    obtain ⟨m, whole, index⟩ := Option.bind_eq_some_iff.1 place
    rw [h.byteIndex?] at index
    split at index
    · rename_i le
      exact ⟨m, le, Number.eq_ofNat_of_toNat? whole⟩
    · contradiction
  · rintro ⟨m, le, rfl⟩
    rw [h.splitAt? le]
    rfl

end Spells

theorem Placed.exists_splitAt? (h : v.Placed) (spells : v.Spells cs) (le : m ≤ cs.length) :
    ∃ head tail, v.splitAt? (Number.ofNat m) = some (head, tail) ∧ head.Spells (cs.take m) ∧
      tail.Spells (cs.drop m) := by
  have cut := spells.splitAt? le
  rw [← List.take_append_drop m cs] at spells
  obtain ⟨head, tail⟩ := h.cut_spells spells
  exact ⟨_, _, cut, head, tail⟩

theorem Placed.isBoundary_of_append (h : v.Placed) (spells : v.Spells (a ++ b)) :
    v.isBoundary (Utf8.encode a).length = true := by
  rw [h.isBoundary_iff, spells.kind, spells.bytes, Utf8.encode_append]
  exact Utf8.boundary_of_append _ (Utf8.isValid_encode b)

theorem Placed.isBoundary_iff_take (h : v.Placed) (spells : v.Spells cs) {i : Nat} :
    v.isBoundary i = true ↔ ∃ m ≤ cs.length, i = (Utf8.encode (cs.take m)).length := by
  constructor
  · intro boundary
    rw [h.isBoundary_iff, spells.kind, spells.bytes] at boundary
    obtain ⟨pre, post, rfl, rfl⟩ := Utf8.exists_split_of_boundary boundary
    exact ⟨pre.length, by simp, by rw [List.take_left]⟩
  · rintro ⟨m, -, rfl⟩
    rw [← List.take_append_drop m cs] at spells
    exact h.isBoundary_of_append spells

theorem Placed.splitAtByte?_eq (h : v.Placed) (spells : v.Spells cs) (le : m ≤ cs.length) :
    v.splitAtByte? (Number.ofNat (Utf8.encode (cs.take m)).length) =
      v.splitAt? (Number.ofNat m) := by
  have boundary := (h.isBoundary_iff_take spells).2 ⟨m, le, rfl⟩
  have inside := ((h.isBoundary_iff _).1 boundary).le
  rw [spells.bytes] at inside
  have within : (Number.ofNat (Utf8.encode (cs.take m)).length).le v.extent = true := by
    rw [spells.extent, Number.le_ofNat, decide_eq_true_eq]
    exact inside
  rw [spells.splitAt? le, splitAtByte?, Number.toNat?_ofNat, Option.bind_some, within, boundary]
  rfl

theorem Placed.isSome_splitAtByte?_iff (h : v.Placed) (spells : v.Spells cs) :
    (v.splitAtByte? n).isSome ↔
      ∃ m ≤ cs.length, n = Number.ofNat (Utf8.encode (cs.take m)).length := by
  constructor
  · intro cut
    obtain ⟨parts, found⟩ := Option.isSome_iff_exists.1 cut
    obtain ⟨i, whole, place⟩ := Option.bind_eq_some_iff.1 found
    split at place
    · rename_i tested
      rw [Bool.and_eq_true] at tested
      obtain ⟨m, le, rfl⟩ := (h.isBoundary_iff_take spells).1 tested.2
      exact ⟨m, le, Number.eq_ofNat_of_toNat? whole⟩
    · contradiction
  · rintro ⟨m, le, rfl⟩
    rw [h.splitAtByte?_eq spells le, spells.splitAt? le]
    rfl

end View

/-- All questions about the tokens of a text are answered from the same chars, wherever the text is
in its source. They are counted, yielded in order and found by their index, which no other number
is; the first is the one that is read, and the last is found from the end. A cut after some of them
is made by their number or by their bytes, and by no other number of either. -/
theorem token_views_agree {v : View} (h : v.Placed) (kind : v.kind = .text) (mode : Mode)
    (last : Value) :
    ∃ cs : List Char, v.bytes = Utf8.encode cs ∧
      v.length = Number.ofNat cs.length ∧ v.tokens = cs.map .char ∧
      (∀ i (inside : i < cs.length), v.nth? (Number.ofNat i) = some (.char cs[i])) ∧
      (∀ n, (∀ i < cs.length, n ≠ Number.ofNat i) → v.nth? n = none) ∧
      v.first? = v.nth? 0 ∧
      (Action.readChar.run mode last v).result.toOption = v.first?.map Value.ofToken ∧
      v.last? = v.nth? (Number.ofInt ((cs.length : Int) - 1)) ∧
      (∀ n, (v.splitAt? n).isSome ↔ ∃ m ≤ cs.length, n = Number.ofNat m) ∧
      (∀ m ≤ cs.length, ∃ head tail, v.splitAt? (Number.ofNat m) = some (head, tail) ∧
        head.length = Number.ofNat m ∧ head.tokens = (cs.take m).map .char ∧
        tail.first? = v.nth? (Number.ofNat m) ∧ tail.tokens = (cs.drop m).map .char) ∧
      (∀ n, (v.splitAtByte? n).isSome ↔
        ∃ m ≤ cs.length, n = Number.ofNat (Utf8.encode (cs.take m)).length) ∧
      ∀ m ≤ cs.length, v.splitAtByte? (Number.ofNat (Utf8.encode (cs.take m)).length) =
        v.splitAt? (Number.ofNat m) := by
  obtain ⟨cs, spells⟩ := h.exists_spells kind
  refine ⟨cs, spells.bytes, spells.length, spells.tokens, ?_, fun n => spells.nth?_eq_none,
    spells.first?_eq_nth?, spells.toOption_readChar mode last, spells.last?_eq_nth?,
    fun n => spells.isSome_splitAt?_iff, ?_, fun n => h.isSome_splitAtByte?_iff spells,
    fun m le => h.splitAtByte?_eq spells le⟩
  · intro i inside
    rw [spells.nth?, List.getElem?_eq_getElem inside, Option.map_some]
  · intro m le
    obtain ⟨head, tail, cut, before, after⟩ := h.exists_splitAt? spells le
    refine ⟨head, tail, cut, ?_, before.tokens, ?_, after.tokens⟩
    · rw [before.length, List.length_take_of_le le]
    · rw [after.first?, spells.nth?, List.head?_drop]

/-- A text of chars of one to four bytes, after a byte of its source. -/
theorem token_views_agree_mixed :
    let source := Source.ofBytes 0 (Utf8.encode ['x', 'a', 'é', '€', '😀'])
    let v : View := ⟨source, 1, 10, .startBounded, .text, none⟩
    v.Placed ∧ v.kind = .text ∧ v.length = Number.ofNat 4 ∧ v.first? = some (.char 'a') ∧
      v.last? = some (.char '😀') ∧ v.nth? (Number.ofNat 2) = some (.char '€') ∧
      v.nth? .nan = none ∧ v.splitAtByte? (Number.ofNat 3) = v.splitAt? (Number.ofNat 2) ∧
      (v.splitAtByte? (Number.ofNat 4)).isSome = false := by
  intro source v
  have bytes : v.bytes = Utf8.encode ['a', 'é', '€', '😀'] := by decide +kernel
  have whole : v.kind.Whole v.bytes := by
    rw [bytes]
    exact Utf8.isValid_encode _
  have placed : v.Placed := ⟨rfl, by decide +kernel, by decide +kernel, whole⟩
  obtain ⟨cs, bytes', length, -, nth, others, first, -, last, -, -, defined, same⟩ :=
    token_views_agree placed rfl .full .absent
  obtain rfl := Utf8.encode_injective (bytes'.symm.trans bytes)
  refine ⟨placed, rfl, length, ?_, ?_, nth 2 (by decide), ?_, same 2 (by decide), ?_⟩
  · rw [first]
    exact nth 0 (by decide)
  · rw [last]
    exact nth 3 (by decide)
  · exact others .nan fun i _ same => by simp [Number.ofNat] at same
  · rw [Bool.eq_false_iff, ne_eq, defined]
    rintro ⟨m, le, place⟩
    have inside : m < 5 := Nat.lt_succ_of_le le
    have code := Number.ofNat_inj.1 place
    interval_cases m <;> revert code <;> decide +kernel

end Untrusted
