import Mathlib
import Untrusted.Proofs.Pattern.Matches
import Untrusted.Proofs.Repetition

/-!
# Where literals stand

A search for a literal goes from one occurrence of its first byte to the next, a search for one byte
compares nothing else, a repetition moves on by whole literals, and a test of the start looks at one
place. All of them say the same of where the literal stands.
-/

namespace Untrusted.Pattern

def StandsAt (needle bytes : List UInt8) (i : Nat) : Prop :=
  ∃ pre post, bytes = pre ++ (needle ++ post) ∧ pre.length = i

/-- Looks for `needle`: the pattern that is chosen for it, the one that is good for every literal,
and for one byte also the pattern of that byte. -/
inductive Seeks (needle : List UInt8) : Pattern → Prop where
  | chosen : Seeks needle (.ofLiteral needle)
  | general : Seeks needle (.literal needle)
  | single {b : UInt8} : needle = [b] → Seeks needle (.byte b.toNat)

variable {needle l rest : List UInt8} {i j k : Nat} {b : UInt8} {p : Pattern}

/-! ## Occurrences -/

theorem standsAt_iff : StandsAt needle l i ↔ i ≤ l.length ∧ needle <+: l.drop i := by
  constructor
  · rintro ⟨pre, post, rfl, rfl⟩
    rw [List.drop_left]
    exact ⟨by simp, List.prefix_append _ _⟩
  · rintro ⟨le, post, split⟩
    refine ⟨l.take i, post, ?_, List.length_take_of_le le⟩
    rw [split, List.take_append_drop]

theorem standsAt_zero : StandsAt needle l 0 ↔ needle <+: l := by
  simp [standsAt_iff]

theorem standsAt_append (pre : List UInt8) :
    StandsAt needle (pre ++ l) (pre.length + i) ↔ StandsAt needle l i := by
  simp [standsAt_iff, List.drop_length_add_append]

/-! ## The first occurrence -/

theorem exists_literalFrom?_of_standsAt (h : StandsAt needle l j) (i : Nat) :
    ∃ k, k ≤ j ∧ literalFrom? needle i l = some (i + k) := by
  induction l generalizing i j with
  | nil =>
    obtain ⟨pre, post, split, rfl⟩ := h
    have empty : needle = [] := by simp_all
    rw [empty, literalFrom?_nil]
    exact ⟨0, Nat.zero_le _, rfl⟩
  | cons b l ih =>
    rw [literalFrom?]
    split
    · exact ⟨0, Nat.zero_le _, rfl⟩
    · rename_i differs
      cases j with
      | zero => exact absurd (List.isPrefixOf_iff_prefix.2 (standsAt_zero.1 h)) differs
      | succ j =>
        rw [← List.singleton_append, Nat.add_comm, ← List.length_singleton (a := b),
          standsAt_append] at h
        obtain ⟨k, le, found⟩ := ih h (i + 1)
        refine ⟨k + 1, Nat.succ_le_succ le, ?_⟩
        rw [found, Nat.add_assoc, Nat.add_comm 1]

theorem isLeast_of_literalFrom? (h : literalFrom? needle 0 l = some i) :
    IsLeast {j | StandsAt needle l j} i := by
  constructor
  · obtain ⟨pre, post, split, rfl⟩ := exists_append_of_literalFrom? h
    exact ⟨pre, post, split, (Nat.zero_add _).symm⟩
  · intro j stands
    obtain ⟨k, le, found⟩ := exists_literalFrom?_of_standsAt stands 0
    rw [h, Nat.zero_add, Option.some.injEq] at found
    exact found.trans_le le

theorem literalFrom?_eq_some_iff :
    literalFrom? needle 0 l = some i ↔ IsLeast {j | StandsAt needle l j} i := by
  refine ⟨isLeast_of_literalFrom?, fun least => ?_⟩
  obtain ⟨k, -, found⟩ := exists_literalFrom?_of_standsAt least.1 0
  rw [found, (isLeast_of_literalFrom? found).unique least]

theorem literalFrom?_eq_none_iff :
    literalFrom? needle 0 l = none ↔ ∀ i, ¬ StandsAt needle l i := by
  constructor
  · intro missing i stands
    obtain ⟨k, -, found⟩ := exists_literalFrom?_of_standsAt stands 0
    rw [missing] at found
    contradiction
  · intro nowhere
    cases search : literalFrom? needle 0 l with
    | none => rfl
    | some i => exact absurd (isLeast_of_literalFrom? search).1 (nowhere i)

/-! ## Whole repetitions -/

def repeated (needle : List UInt8) (k : Nat) : List UInt8 := (List.replicate k needle).flatten

theorem repeated_succ (needle : List UInt8) (k : Nat) :
    repeated needle (k + 1) = needle ++ repeated needle k := by
  rw [repeated, List.replicate_succ, List.flatten_cons, repeated]

theorem length_repeated (needle : List UInt8) (k : Nat) :
    (repeated needle k).length = k * needle.length := by
  simp [repeated]

theorem repeated_add (needle : List UInt8) (m k : Nat) :
    repeated needle (m + k) = repeated needle m ++ repeated needle k := by
  rw [repeated, List.replicate_add, List.flatten_append, repeated, repeated]

theorem literalBreak?_repeated_append (filled : needle ≠ []) (i k : Nat) (l : List UInt8) :
    literalBreak? needle i (repeated needle k ++ l) =
      literalBreak? needle (i + k * needle.length) l := by
  induction k generalizing i with
  | zero => rw [Nat.zero_mul]; rfl
  | succ k ih =>
    rw [repeated_succ, List.append_assoc, literalBreak?_append filled, ih, Nat.succ_mul]
    congr 1
    omega

theorem exists_repeated_append (filled : needle ≠ []) (l : List UInt8) :
    ∃ k rest, l = repeated needle k ++ rest ∧ ¬ needle <+: rest := by
  by_cases starts : needle <+: l
  · obtain ⟨later, rfl⟩ := starts
    obtain ⟨k, rest, split, differs⟩ := exists_repeated_append filled later
    refine ⟨k + 1, rest, ?_, differs⟩
    rw [repeated_succ, List.append_assoc, ← split]
  · exact ⟨0, l, rfl, starts⟩
termination_by l.length
decreasing_by
  have positive := List.length_pos_iff.2 filled
  subst_vars
  rw [List.length_append]
  omega

theorem standsAt_repeated {m : Nat} (less : m < k) (rest : List UInt8) :
    StandsAt needle (repeated needle k ++ rest) (m * needle.length) := by
  obtain ⟨d, rfl⟩ := Nat.exists_eq_add_of_lt less
  refine ⟨repeated needle m, repeated needle d ++ rest, ?_, length_repeated needle m⟩
  rw [Nat.add_assoc, repeated_add, repeated_succ, List.append_assoc, List.append_assoc]

theorem isLeast_break (left : rest ≠ []) (differs : ¬ needle <+: rest) :
    IsLeast {j | j < (repeated needle k ++ rest).length ∧ needle.length ∣ j ∧
      ¬ StandsAt needle (repeated needle k ++ rest) j} (k * needle.length) := by
  have positive := List.length_pos_iff.2 left
  refine ⟨⟨?_, Dvd.intro_left k rfl, ?_⟩, ?_⟩
  · rw [List.length_append, length_repeated]
    omega
  · rwa [← length_repeated, ← Nat.add_zero (repeated needle k).length, standsAt_append,
      standsAt_zero]
  · rintro _ ⟨-, ⟨m, rfl⟩, absent⟩
    by_contra before
    rw [not_le, Nat.mul_comm needle.length] at before
    rw [Nat.mul_comm needle.length] at absent
    exact absent (standsAt_repeated (Nat.lt_of_mul_lt_mul_right before) rest)

theorem literalBreak?_eq_some_iff (filled : needle ≠ []) : literalBreak? needle 0 l = some j ↔
    IsLeast {i | i < l.length ∧ needle.length ∣ i ∧ ¬ StandsAt needle l i} j := by
  obtain ⟨k, rest, rfl, differs⟩ := exists_repeated_append filled l
  rw [literalBreak?_repeated_append filled, Nat.zero_add]
  by_cases left : rest = []
  · -- Every multiple before the end is one where the literal stands.
    rw [left, literalBreak?_nil filled]
    refine ⟨fun h => by contradiction, ?_⟩
    rintro ⟨⟨inside, ⟨m, rfl⟩, absent⟩, -⟩
    rw [List.append_nil, length_repeated, Nat.mul_comm] at inside
    rw [Nat.mul_comm] at absent
    exact absurd (standsAt_repeated (Nat.lt_of_mul_lt_mul_right inside) []) absent
  · have least := isLeast_break (k := k) left differs
    have broken := literalBreak?_of_not_prefix filled left differs
    rw [broken, Option.some.injEq]
    exact ⟨fun same => same ▸ least, fun h => least.unique h⟩

theorem literalBreak?_eq_none_iff (filled : needle ≠ []) :
    literalBreak? needle 0 l = none ↔ ∃ k, l = repeated needle k := by
  constructor
  · intro whole
    obtain ⟨k, rest, rfl, differs⟩ := exists_repeated_append filled l
    rw [literalBreak?_repeated_append filled] at whole
    by_cases left : rest = []
    · exact ⟨k, by rw [left, List.append_nil]⟩
    · have broken := literalBreak?_of_not_prefix filled left differs
      rw [broken] at whole
      contradiction
  · rintro ⟨k, rfl⟩
    rw [← List.append_nil (repeated needle k), literalBreak?_repeated_append filled,
      literalBreak?_nil filled]

/-! ## One byte -/

theorem isByte_toNat (b x : UInt8) : isByte (Number.ofNat b.toNat) x = (b == x) := by
  rw [isByte, Number.toNat?_ofNat, Bool.eq_iff_iff]
  simp [UInt8.toNat_inj]

theorem literalFrom?_singleton (b : UInt8) (i : Nat) (l : List UInt8) :
    literalFrom? [b] i l = (l.findIdx? (b == ·)).map (i + ·) := by
  induction l generalizing i with
  | nil => rfl
  | cons x l ih =>
    rw [literalFrom?, ih, List.findIdx?_cons]
    simp only [List.isPrefixOf, Bool.and_true]
    split
    · rfl
    · rw [Option.map_map]
      congr 1
      funext n
      simp only [Function.comp_apply]
      omega

theorem literalBreak?_singleton (b : UInt8) (i : Nat) (l : List UInt8) :
    literalBreak? [b] i l = (l.findIdx? fun x => !(b == x)).map (i + ·) := by
  induction l generalizing i with
  | nil => rw [literalBreak?_nil (by simp)]; rfl
  | cons x l ih =>
    rw [List.findIdx?_cons]
    cases same : b == x with
    | true =>
      have once : literalBreak? [b] i ([b] ++ l) = _ := literalBreak?_append (by simp) i l
      rw [List.singleton_append] at once
      rw [← beq_iff_eq.1 same, once, ih, Bool.not_true, if_neg (by simp), Option.map_map]
      congr 1
      funext n
      simp only [Function.comp_apply, List.length_singleton]
      omega
    | false =>
      rw [Bool.not_false, if_pos rfl]
      refine literalBreak?_of_not_prefix (by simp) (by simp) ?_ i
      simpa using same

theorem byte_eq_literal (b : UInt8) (l : List UInt8) :
    (byte b.toNat).find? l = (literal [b]).find? l ∧
      (byte b.toNat).reject? l = (literal [b]).reject? l := by
  have same : isByte (Number.ofNat b.toNat) = (b == ·) := funext (isByte_toNat b)
  constructor
  · rw [find?_byte, find?_literal, literalFrom?_singleton, same, Option.map_map]
    simp only [Function.comp_def, Nat.zero_add, List.length_singleton]
  · rw [reject?, reject?, literalBreak?_singleton, same, Option.map_map]
    simp only [Function.comp_def, Nat.zero_add]

theorem Seeks.eq_literal (h : Seeks needle p) (l : List UInt8) :
    p.find? l = (literal needle).find? l ∧ p.reject? l = (literal needle).reject? l := by
  cases h with
  | chosen =>
    unfold ofLiteral
    split
    · exact byte_eq_literal _ l
    · exact ⟨rfl, rfl⟩
  | general => exact ⟨rfl, rfl⟩
  | single one =>
    rw [one]
    exact byte_eq_literal _ l

/-! ## Every path -/

theorem Seeks.find?_eq_some_iff (h : Seeks needle p) {found : Number × Number} :
    p.find? l = some found ↔ ∃ i, IsLeast {j | StandsAt needle l j} i ∧
      found = (Number.ofNat i, Number.ofNat needle.length) := by
  rw [(h.eq_literal l).1, find?_literal, Option.map_eq_some_iff]
  simp only [literalFrom?_eq_some_iff, eq_comm (a := found)]

theorem Seeks.find?_eq_none_iff (h : Seeks needle p) :
    p.find? l = none ↔ ∀ i, ¬ StandsAt needle l i := by
  rw [(h.eq_literal l).1, find?_literal, Option.map_eq_none_iff, literalFrom?_eq_none_iff]

theorem Seeks.reject?_eq (h : Seeks needle p) :
    p.reject? l = (literalBreak? needle 0 l).map Number.ofNat :=
  (h.eq_literal l).2

/-- Every pattern for a literal finds its leftmost occurrence, and none exactly if there is none. It
rejects the first of the places, one literal apart, where the literal does not stand, and none
exactly if the bytes are a whole number of literals; the empty literal is rejected at the start. A
view starts with the literal exactly if it is found there. -/
theorem literal_search_leftmost (h : Seeks needle p) (bytes : List UInt8) :
    (∀ q, Seeks needle q → q.find? bytes = p.find? bytes ∧ q.reject? bytes = p.reject? bytes) ∧
    (∀ found, p.find? bytes = some found ↔
      ∃ i, IsLeast {j | StandsAt needle bytes j} i ∧
        found = (Number.ofNat i, Number.ofNat needle.length)) ∧
    (p.find? bytes = none ↔ ∀ i, ¬ StandsAt needle bytes i) ∧
    (needle = [] → p.reject? bytes = some (Number.ofNat 0)) ∧
    (needle ≠ [] →
      (∀ n, p.reject? bytes = some n ↔
        ∃ j, IsLeast {i | i < bytes.length ∧ needle.length ∣ i ∧ ¬ StandsAt needle bytes i} j ∧
          n = Number.ofNat j) ∧
      (p.reject? bytes = none ↔ ∃ k, bytes = repeated needle k)) ∧
    ∀ v : View, v.bytes = bytes →
      (v.hasPrefix needle = true ↔ ∃ n, p.find? bytes = some (Number.ofNat 0, n)) := by
  refine ⟨fun q hq => ?_, fun found => h.find?_eq_some_iff, h.find?_eq_none_iff, ?_, ?_, ?_⟩
  · obtain ⟨finds, rejects⟩ := h.eq_literal bytes
    rw [finds, rejects]
    exact hq.eq_literal bytes
  · intro empty
    rw [h.reject?_eq, empty, literalBreak?, dif_pos (by rfl), Option.map_some]
  · intro filled
    rw [h.reject?_eq]
    refine ⟨fun n => ?_, ?_⟩
    · rw [Option.map_eq_some_iff]
      simp only [literalBreak?_eq_some_iff filled, eq_comm (a := n)]
    · rw [Option.map_eq_none_iff, literalBreak?_eq_none_iff filled]
  · rintro v rfl
    rw [View.hasPrefix, List.isPrefixOf_iff_prefix, ← standsAt_zero]
    constructor
    · intro starts
      exact ⟨_, h.find?_eq_some_iff.2 ⟨0, ⟨starts, fun j _ => Nat.zero_le j⟩, rfl⟩⟩
    · rintro ⟨n, found⟩
      obtain ⟨i, least, same⟩ := h.find?_eq_some_iff.1 found
      obtain rfl := Number.ofNat_inj.1 (Prod.mk.inj same).1
      exact least.1

/-- The first `a` of three is no start of `aab`, though its first two bytes match. -/
theorem literal_search_leftmost_overlap :
    let needle : List UInt8 := [0x61, 0x61, 0x62]
    let bytes : List UInt8 := [0x61, 0x61, 0x61, 0x62]
    let p := Pattern.ofLiteral needle
    Seeks needle p ∧ Seeks needle (.literal needle) ∧ needle ≠ [] ∧
      p.find? bytes = some (Number.ofNat 1, Number.ofNat 3) ∧
      (literal needle).find? bytes = p.find? bytes ∧
      p.reject? bytes = some (Number.ofNat 0) ∧
      (View.ofSource (.ofBytes 0 bytes) .bytes).hasPrefix needle = false := by
  intro needle bytes p
  obtain ⟨same, finds, -, -, rejects, starts⟩ := literal_search_leftmost (.chosen) bytes (p := p)
  have absent : ¬ StandsAt needle bytes 0 := by
    rw [standsAt_zero]
    decide
  have first : IsLeast {j | StandsAt needle bytes j} 1 := by
    refine ⟨standsAt_iff.2 (by decide), fun j stands => ?_⟩
    by_contra before
    obtain rfl : j = 0 := by omega
    exact absent stands
  have found := (finds _).2 ⟨1, first, rfl⟩
  refine ⟨.chosen, .general, by decide, found, (same _ .general).1, ?_, ?_⟩
  · have broken := (rejects (by decide)).1 (Number.ofNat 0)
    exact broken.2 ⟨0, ⟨⟨by decide, by decide, absent⟩, fun j _ => Nat.zero_le j⟩, rfl⟩
  · rw [Bool.eq_false_iff, ne_eq, starts _ (View.bytes_ofBytes 0 bytes .bytes)]
    rintro ⟨n, here⟩
    rw [found] at here
    simp [Number.ofNat] at here

end Untrusted.Pattern
