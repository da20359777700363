import Mathlib
import Untrusted.Proofs.Utf8.Units
import Untrusted.View

/-!
# Patterns reject at token boundaries

What a pattern over the tokens of an input rejects starts between two of them. A pattern of the
caller's own is held to the same contract.
-/

namespace Untrusted

/-! ## Tokens and their boundaries -/

def Kind.Whole : Kind → List UInt8 → Prop
  | .bytes, _ => True
  | .text, l => Utf8.isValid l = true

/-- A place between two tokens, or at an end. -/
def Kind.Boundary : Kind → List UInt8 → Nat → Prop
  | .bytes, l, i => i ≤ l.length
  | .text, l, i => Utf8.Boundary l i

namespace Kind

variable {k : Kind} {l pre rest : List UInt8} {i : Nat}

theorem whole_nil (k : Kind) : k.Whole [] := by
  cases k with
  | bytes => trivial
  | text => exact Utf8.isValid_nil

theorem Boundary.le (h : k.Boundary l i) : i ≤ l.length := by
  cases k with
  | bytes => exact h
  | text => exact h.1

theorem Boundary.whole_parts (h : k.Boundary l i) (whole : k.Whole l) :
    k.Whole (l.take i) ∧ k.Whole (l.drop i) := by
  cases k with
  | bytes => exact ⟨trivial, trivial⟩
  | text => exact Utf8.Boundary.isValid_parts h whole

theorem Whole.take_of_drop (whole : k.Whole l) (le : i ≤ l.length)
    (rest : k.Whole (l.drop i)) : k.Whole (l.take i) := by
  cases k with
  | bytes => trivial
  | text => exact Utf8.isValid_take_of_drop whole le rest

theorem boundary_of_whole_prefix (hpre : k.Whole pre) (h : k.Whole (pre ++ rest)) :
    k.Boundary (pre ++ rest) pre.length := by
  cases k with
  | bytes => exact by simp [Boundary]
  | text => exact Utf8.boundary_of_valid_prefix hpre h

theorem boundary_of_take (whole : k.Whole l) (le : i ≤ l.length)
    (hpre : k.Whole (l.take i)) : k.Boundary l i := by
  have h : k.Boundary (l.take i ++ l.drop i) (l.take i).length :=
    boundary_of_whole_prefix hpre (by rwa [List.take_append_drop])
  rwa [List.take_append_drop, List.length_take, Nat.min_eq_left le] at h

theorem boundary_of_token? (whole : k.Whole l) {t : Token}
    {n : Nat} (h : k.token? (l.take Utf8.maxLength) = some (t, n)) : k.Boundary l n := by
  cases k with
  | bytes =>
    cases l with
    | nil => simp [Kind.token?] at h
    | cons b l =>
      simp only [Kind.token?, Utf8.maxLength, List.take_succ_cons, List.head?_cons, Option.map_some,
        Option.some.injEq, Prod.mk.injEq] at h
      obtain ⟨-, rfl⟩ := h
      simp [Kind.Boundary]
  | text =>
    simp only [Kind.token?, Utf8.decode_take] at h
    split at h
    · rename_i c k found
      cases h
      obtain ⟨rest, rfl, rfl⟩ := Utf8.exists_append_of_decode found
      exact Utf8.boundary_of_valid_prefix (Utf8.isValid_encode _) whole
    · contradiction

end Kind

/-! ## Regular expressions -/

namespace Regex

theorem splitsPair_toArray (us : List Nat) {i : Nat} (h : i < us.length) :
    splitsPair us.toArray i = Utf8.splitsPair us i := by
  have before : i - 1 < us.length := by omega
  simp [splitsPair, Utf8.splitsPair, h, before]

theorem byteCount_toArray (us : List Nat) (i : Nat) :
    byteCount us.toArray 0 i = Utf8.unitsByteLength (us.take i) := by
  simp [byteCount]

theorem chainEnd?_whole {r : Regex} {text : Array Nat} {fuel i j : Nat}
    (hi : i = 0 ∨ splitsPair text i = false) (h : chainEnd? r text fuel i = some j) :
    j < text.size ∧ (j = 0 ∨ splitsPair text j = false) := by
  -- By induction on the fuel: a chain only goes on from the end of a match that cuts no pair.
  induction fuel generalizing i with
  | zero => simp [chainEnd?] at h
  | succ fuel ih =>
    unfold chainEnd? at h
    split at h
    · contradiction
    · rename_i inside
      split at h
      · rename_i stop found
        split at h
        · cases h
          exact ⟨by omega, hi⟩
        · rename_i goes
          simp only [not_or, Bool.not_eq_true] at goes
          exact ih (.inr goes.2) h
      · cases h
        exact ⟨by omega, hi⟩

theorem reject?_boundary {r : Regex} {bytes : List UInt8} (valid : Utf8.isValid bytes = true)
    {n : Nat} (h : r.reject? bytes = some n) : Utf8.Boundary bytes n := by
  unfold reject? at h
  rw [Utf8.repaired_eq_chars valid] at h
  obtain ⟨i, broken, rfl⟩ := Option.map_eq_some_iff.1 h
  obtain ⟨inside, whole⟩ := chainEnd?_whole (.inl rfl) broken
  rw [List.size_toArray] at inside
  have uncut : Utf8.splitsPair (Utf8.units (Utf8.chars bytes)) i = false := by
    rcases whole with rfl | whole
    · rfl
    · rwa [splitsPair_toArray _ inside] at whole
  obtain ⟨pre, post, split, taken⟩ :=
    Utf8.exists_split_of_not_splitsPair (Nat.le_of_lt inside) uncut
  have whole : bytes = Utf8.encode pre ++ Utf8.encode post := by
    rw [← Utf8.encode_append, ← split]
    exact Utf8.eq_encode_chars valid
  rw [byteCount_toArray, taken, Utf8.unitsByteLength_units]
  rw [whole] at valid ⊢
  exact Utf8.boundary_of_valid_prefix (Utf8.isValid_encode pre) valid

end Regex

/-! ## What patterns reject -/

namespace Pattern

/-- What the pattern rejects starts at a boundary. -/
def Respects (k : Kind) (p : Pattern) : Prop :=
  ∀ bytes n, k.Whole bytes → p.reject? bytes = some n →
    ∃ i, n = Number.ofNat i ∧ k.Boundary bytes i

/-- Looks for what an input of the kind can hold: for a text, chars, expressions, and literals that
are texts. A pattern of the caller's own has to respect the boundaries of the input. -/
def Admissible (k : Kind) : Pattern → Prop
  | .byte value => k = .text → ∃ n < 0x80, value = Number.ofNat n
  | .literal needle => k.Whole needle
  | .byteWhere _ => k = .bytes
  | .charWhere _ => k = .text
  | .regex _ => k = .text
  | .custom find reject => (custom find reject).Respects k

theorem literalBreak?_prefix {needle bytes : List UInt8} {i j : Nat}
    (h : literalBreak? needle i bytes = some j) :
    ∃ pre rest, bytes = pre ++ rest ∧ j = i + pre.length ∧
      (Utf8.isValid needle = true → Utf8.isValid pre = true) := by
  fun_induction literalBreak? needle i bytes with
  | case1 i bytes empty => exact ⟨[], bytes, rfl, by simpa using h.symm, fun _ => Utf8.isValid_nil⟩
  | case2 => contradiction
  | case3 i bytes needed left isPrefix ih =>
    obtain ⟨rest, rfl⟩ := List.isPrefixOf_iff_prefix.1 isPrefix
    rw [List.drop_left] at ih h
    obtain ⟨pre, rest, rfl, rfl, valid⟩ := ih h
    refine ⟨needle ++ pre, rest, by rw [List.append_assoc], ?_, ?_⟩
    · rw [List.length_append, Nat.add_assoc]
    · exact fun hn => Utf8.isValid_append hn (valid hn)
  | case4 i bytes needed left differs =>
    exact ⟨[], bytes, rfl, by simpa using h.symm, fun _ => Utf8.isValid_nil⟩

theorem findIdx?_boundary {accepts : UInt8 → Bool} {bytes : List UInt8} {i : Nat}
    (h : (bytes.findIdx? fun b => !accepts b) = some i) :
    i ≤ bytes.length ∧ ∀ b ∈ bytes.take i, accepts b = true := by
  obtain ⟨inside, -, passed⟩ := List.findIdx?_eq_some_iff_getElem.1 h
  refine ⟨Nat.le_of_lt inside, fun b hb => ?_⟩
  obtain ⟨j, hj, rfl⟩ := List.getElem_of_mem hb
  rw [List.length_take] at hj
  simpa using passed j (by omega)

theorem respects_byte {k : Kind} {value : Number}
    (h : k = .text → ∃ n < 0x80, value = Number.ofNat n) : (byte value).Respects k := by
  intro bytes n whole rejects
  obtain ⟨i, found, rfl⟩ := Option.map_eq_some_iff.1 rejects
  obtain ⟨le, same⟩ := findIdx?_boundary found
  refine ⟨i, rfl, ?_⟩
  cases k with
  | bytes => exact le
  | text =>
    obtain ⟨n, ascii, rfl⟩ := h rfl
    refine Kind.boundary_of_take whole le (Utf8.isValid_of_ascii fun b hb => ?_)
    have code := same b hb
    simp only [isByte, Number.toNat?_ofNat, beq_iff_eq, Option.some.injEq] at code
    omega

theorem respects_literal {k : Kind} {needle : List UInt8} (h : k.Whole needle) :
    (literal needle).Respects k := by
  intro bytes n whole rejects
  obtain ⟨i, found, rfl⟩ := Option.map_eq_some_iff.1 rejects
  obtain ⟨pre, rest, rfl, rfl, valid⟩ := literalBreak?_prefix found
  rw [Nat.zero_add]
  refine ⟨_, rfl, Kind.boundary_of_whole_prefix ?_ whole⟩
  cases k with
  | bytes => trivial
  | text => exact valid h

theorem respects_charWhere (accepts : Char → Bool) : (charWhere accepts).Respects .text := by
  intro bytes n whole rejects
  simp only [reject?] at rejects
  split at rejects
  · rename_i i found scanned
    cases rejects
    obtain ⟨cs, rest, rfl, rfl, -⟩ := Utf8.exists_append_of_scanTo scanned
    rw [Nat.zero_add]
    exact ⟨_, rfl, Utf8.boundary_of_valid_prefix (Utf8.isValid_encode cs) whole⟩
  · contradiction

/-- Every admissible pattern keeps the contract that patterns of the caller's own are held to. -/
theorem Admissible.respects {k : Kind} {p : Pattern} (h : p.Admissible k) : p.Respects k := by
  cases p with
  | byte value => exact respects_byte h
  | literal needle => exact respects_literal h
  | byteWhere accepts =>
    obtain rfl := h
    intro bytes n whole rejects
    obtain ⟨i, found, rfl⟩ := Option.map_eq_some_iff.1 rejects
    exact ⟨i, rfl, (findIdx?_boundary found).1⟩
  | charWhere accepts =>
    obtain rfl := h
    exact respects_charWhere accepts
  | regex r =>
    obtain rfl := h
    intro bytes n whole rejects
    obtain ⟨i, found, rfl⟩ := Option.map_eq_some_iff.1 rejects
    exact ⟨i, rfl, Regex.reject?_boundary whole found⟩
  | custom find reject => exact h

end Pattern
end Untrusted
