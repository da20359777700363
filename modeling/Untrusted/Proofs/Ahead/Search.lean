import Mathlib
import Untrusted.Proofs.Ahead
import Untrusted.Proofs.View.Ranges

/-!
# Searching bytes before and after more of them arrive

The first match in bytes stays the first one when more bytes follow, for a match is known by its own
bytes. A literal that was cut short may still be completed; one that differs never is.
-/

namespace Untrusted

/-! ## First matches -/

namespace Pattern

/-- Looks for a byte or for a literal. -/
def Sought : Pattern → Prop
  | .byte _ => True
  | .literal _ => True
  | .byteWhere _ => True
  | _ => False

/-- Passes over one byte at a time. -/
def Bytewise : Pattern → Prop
  | .byte _ => True
  | .byteWhere _ => True
  | _ => False

/-- Where `needle` first occurs, counting from `i`, if every place is looked at in turn. -/
def literalFrom? (needle : List UInt8) : Nat → List UInt8 → Option Nat
  | i, [] => if needle.isEmpty then some i else none
  | i, b :: bytes =>
    if needle.isPrefixOf (b :: bytes) then some i else literalFrom? needle (i + 1) bytes

theorem literalFrom?_nil (i : Nat) (l : List UInt8) : literalFrom? [] i l = some i := by
  cases l <;> rfl

variable {needle l : List UInt8} {k j : Nat}

theorem literalFrom?_cons_of_not_prefix {b : UInt8} (differs : needle.isPrefixOf (b :: l) = false)
    (i : Nat) : literalFrom? needle i (b :: l) = literalFrom? needle (i + 1) l := by
  rw [literalFrom?, if_neg (by simp [differs])]

theorem literalFrom?_append_of_ne {first : UInt8} {more before : List UInt8}
    (other : ∀ b ∈ before, (b == first) = false) (i : Nat) (l : List UInt8) :
    literalFrom? (first :: more) i (before ++ l) =
      literalFrom? (first :: more) (i + before.length) l := by
  induction before generalizing i with
  | nil => rfl
  | cons b before ih =>
    have differs : (first :: more).isPrefixOf (b :: (before ++ l)) = false := by
      rw [List.isPrefixOf, BEq.comm, other b List.mem_cons_self, Bool.false_and]
    rw [List.cons_append, literalFrom?_cons_of_not_prefix differs,
      ih fun b hb => other b (List.mem_cons_of_mem _ hb), List.length_cons,
      Nat.add_assoc, Nat.add_comm 1]

theorem exists_append_of_findIdx? {f : UInt8 → Bool} (h : l.findIdx? f = some j) :
    ∃ before b later, l = before ++ b :: later ∧ before.length = j ∧ f b = true ∧
      ∀ x ∈ before, f x = false := by
  obtain ⟨inside, found, other⟩ := List.findIdx?_eq_some_iff_getElem.1 h
  refine ⟨l.take j, l[j], l.drop (j + 1), ?_, ?_, found, fun x hx => ?_⟩
  · rw [← List.drop_eq_getElem_cons, List.take_append_drop]
  · rw [List.length_take, Nat.min_eq_left (Nat.le_of_lt inside)]
  · obtain ⟨n, hn, rfl⟩ := List.getElem_of_mem hx
    rw [List.length_take] at hn
    simpa using other n (by omega)

/-- Going from one occurrence of the first byte to the next leaves out no place. -/
theorem anchoredFrom?_eq (first : UInt8) (more : List UInt8) (i : Nat) (l : List UInt8) :
    anchoredFrom? first more i l = literalFrom? (first :: more) i l := by
  fun_induction anchoredFrom? first more i l with
  | case1 i l missing =>
    have other := List.findIdx?_eq_none_iff.1 missing
    have passed : literalFrom? (first :: more) i (l ++ []) = none :=
      literalFrom?_append_of_ne other i []
    rw [← passed, List.append_nil]
  | case2 i l j found starts =>
    obtain ⟨before, b, later, rfl, rfl, -, other⟩ := exists_append_of_findIdx? found
    rw [List.drop_left] at starts
    rw [literalFrom?_append_of_ne other, literalFrom?, if_pos starts]
  | case3 i l j found differs ih =>
    obtain ⟨before, b, later, rfl, rfl, -, other⟩ := exists_append_of_findIdx? found
    rw [List.drop_left, Bool.not_eq_true] at differs
    rw [ih, literalFrom?_append_of_ne other, literalFrom?_cons_of_not_prefix differs]
    simp [Nat.add_assoc]

theorem literal?_eq (needle l : List UInt8) : literal? needle l = literalFrom? needle 0 l := by
  cases needle with
  | nil => rw [literalFrom?_nil, literal?]
  | cons first more => rw [literal?, anchoredFrom?_eq]

theorem literalFrom?_le (h : literalFrom? needle k l = some j) :
    k ≤ j ∧ j + needle.length ≤ k + l.length := by
  induction l generalizing k with
  | nil =>
    unfold literalFrom? at h
    split at h
    · rename_i empty
      cases h
      simp [List.isEmpty_iff.1 empty]
    · contradiction
  | cons b l ih =>
    unfold literalFrom? at h
    split at h
    · rename_i starts
      cases h
      exact ⟨Nat.le_refl _, Nat.add_le_add_left (List.isPrefixOf_iff_prefix.1 starts).length_le _⟩
    · have later := ih h
      rw [List.length_cons]
      omega

/-- A literal that is found has room before the end, so at no earlier place do further bytes bring
one. -/
theorem literalFrom?_append (h : literalFrom? needle k l = some j) (r : List UInt8) :
    literalFrom? needle k (l ++ r) = some j := by
  induction l generalizing k with
  | nil =>
    unfold literalFrom? at h
    split at h
    · rename_i empty
      cases h
      rw [List.isEmpty_iff.1 empty]
      cases r <;> rfl
    · contradiction
  | cons b l ih =>
    have room := (literalFrom?_le h).2
    unfold literalFrom? at h
    rw [List.cons_append]
    unfold literalFrom?
    split at h
    · rename_i starts
      rw [if_pos]
      · exact h
      · rw [List.isPrefixOf_iff_prefix] at starts ⊢
        rw [← List.cons_append]
        exact starts.trans (List.prefix_append _ _)
    · -- A literal that starts here in the longer list would have room in the shorter one too.
      rename_i differs
      have inside := literalFrom?_le h
      rw [if_neg]
      · exact ih h
      · rw [List.isPrefixOf_iff_prefix] at differs ⊢
        intro starts
        refine differs (List.prefix_of_prefix_length_le starts ?_ ?_)
        · rw [← List.cons_append]
          exact List.prefix_append _ _
        · rw [List.length_cons]
          omega

theorem findIdx?_append_of_eq_some {f : UInt8 → Bool} {i : Nat} (h : l.findIdx? f = some i)
    (r : List UInt8) : (l ++ r).findIdx? f = some i := by
  rw [List.findIdx?_append, h]
  rfl

theorem find?_byte (value : Number) (l : List UInt8) : (byte value).find? l =
    (l.findIdx? (isByte value)).map fun i => (Number.ofNat i, Number.ofNat 1) := by
  simp only [find?]
  cases l.findIdx? (isByte value) <;> rfl

theorem find?_byteWhere (accepts : UInt8 → Bool) (l : List UInt8) : (byteWhere accepts).find? l =
    (l.findIdx? accepts).map fun i => (Number.ofNat i, Number.ofNat 1) := by
  simp only [find?]
  cases l.findIdx? accepts <;> rfl

theorem find?_literal (needle l : List UInt8) : (literal needle).find? l =
    (literalFrom? needle 0 l).map fun i => (Number.ofNat i, Number.ofNat needle.length) := by
  simp only [find?, literal?_eq]
  cases literalFrom? needle 0 l <;> rfl

theorem find?_append {p : Pattern} (hp : p.Sought) {found : Number × Number}
    (h : p.find? l = some found) : ∃ i n : Nat, found = (Number.ofNat i, Number.ofNat n) ∧
      i + n ≤ l.length ∧ ∀ r, p.find? (l ++ r) = some found := by
  have single {f : UInt8 → Bool}
      (h : (l.findIdx? f).map (fun i => (Number.ofNat i, Number.ofNat 1)) = some found) :
      ∃ i n : Nat, found = (Number.ofNat i, Number.ofNat n) ∧ i + n ≤ l.length ∧
        ∀ r, ((l ++ r).findIdx? f).map (fun i => (Number.ofNat i, Number.ofNat 1)) =
          some found := by
    obtain ⟨i, at', rfl⟩ := Option.map_eq_some_iff.1 h
    obtain ⟨inside, -⟩ := List.findIdx?_eq_some_iff_getElem.1 at'
    refine ⟨i, 1, rfl, inside, fun r => ?_⟩
    rw [findIdx?_append_of_eq_some at']
    rfl
  cases p with
  | byte value =>
    simp only [find?_byte] at h ⊢
    exact single h
  | byteWhere accepts =>
    simp only [find?_byteWhere] at h ⊢
    exact single h
  | literal needle =>
    simp only [find?_literal] at h ⊢
    obtain ⟨i, at', rfl⟩ := Option.map_eq_some_iff.1 h
    have room := (literalFrom?_le at').2
    refine ⟨i, needle.length, rfl, by omega, fun r => ?_⟩
    rw [literalFrom?_append at' r]
    rfl
  | charWhere _ | regex _ | custom _ _ => exact hp.elim

theorem Bytewise.reject?_eq {p : Pattern} (hp : p.Bytewise) :
    ∃ f : UInt8 → Bool, ∀ l, p.reject? l = (l.findIdx? f).map Number.ofNat := by
  cases p with
  | byte value => exact ⟨_, fun _ => rfl⟩
  | byteWhere accepts => exact ⟨_, fun _ => rfl⟩
  | literal _ | charWhere _ | regex _ | custom _ _ => exact hp.elim

end Pattern

namespace View

variable {x : Prop} {more : Nat} {v w : View}

/-! ## Cutting at a match -/

theorem locate?_of_boundaries {p : Pattern} {i n : Nat}
    (found : p.find? v.bytes = some (Number.ofNat i, Number.ofNat n))
    (small : i + n ≤ Number.wholeLimit) (start : v.isBoundary i = true)
    (stop : v.isBoundary (i + n) = true) : v.locate? p = some (i, i + n) := by
  have whole : (Number.ofNat n).lt 0 = false := by
    rw [show (0 : Number) = Number.ofNat 0 from rfl, Number.lt_ofNat]
    simp
  simp only [locate?, found, Option.bind_some, Number.add_ofNat small, Number.toNat?_ofNat, whole,
    start, stop]
  rfl

theorem Sound.locate?_of_find? (h : v.Sound) (kind : v.kind = .bytes)
    (small : v.size ≤ Number.wholeLimit) {p : Pattern} {i n : Nat}
    (found : p.find? v.bytes = some (Number.ofNat i, Number.ofNat n)) (le : i + n ≤ v.size) :
    v.locate? p = some (i, i + n) := by
  have boundary {j : Nat} (hj : j ≤ v.size) : v.isBoundary j = true := by
    rw [h.isBoundary_iff, kind]
    exact hj.trans_eq h.length_bytes.symm
  exact locate?_of_boundaries found (le.trans small)
    (boundary (Nat.le_trans (Nat.le_add_right i n) le)) (boundary le)

theorem Ahead.locate? (h : v.Ahead x more w) {p : Pattern} (hp : p.Sought) :
    (∀ place, v.locate? p = some place →
      w.locate? p = some place ∧ place.1 ≤ v.size ∧ place.2 ≤ v.size) ∧
    (v.locate? p = none → w.bytes = v.bytes → w.locate? p = none) := by
  obtain ⟨less, -, -⟩ := h.size_eq
  obtain ⟨r, split, -⟩ := h.grown
  cases search : p.find? v.bytes with
  | none =>
    have missing {u : View} (nothing : p.find? u.bytes = none) : u.locate? p = none := by
      simp [View.locate?, nothing]
    refine ⟨fun place found => ?_, fun _ same => missing (by rw [same, search])⟩
    rw [missing search] at found
    contradiction
  | some found =>
    obtain ⟨i, n, rfl, le, again⟩ := Pattern.find?_append hp search
    rw [h.left.length_bytes] at le
    have small := Nat.le_trans less h.small
    have here := h.left.locate?_of_find? h.leftKind small search le
    have there : w.locate? p = some (i, i + n) := by
      refine h.right.locate?_of_find? h.rightKind h.small ?_ (Nat.le_trans le less)
      rw [split, again r]
    rw [here, there]
    refine ⟨?_, fun nothing => by contradiction⟩
    rintro _ ⟨⟩
    exact ⟨rfl, Nat.le_trans (Nat.le_add_right i n) le, le⟩

theorem Ahead.cutAtMatch (h : v.Ahead x more w) {p : Pattern} (hp : p.Sought)
    (parts : View → Nat × Nat → View × View)
    (ahead : ∀ place : Nat × Nat, place.1 ≤ v.size → place.2 ≤ v.size →
      SettledAhead more x (parts v place).1 (parts w place).1 ∧
        (parts v place).2.Ahead x more (parts w place).2 ∧ (parts v place).2.bound = v.bound)
    (op : Operation) :
    CutsAhead (SettledAhead more) x more v
      (((v.locate? p).map (parts v)).elim (.error (Mode.invalid.raise (v.untilCause op))) .ok)
      (((w.locate? p).map (parts w)).elim (.error (Mode.invalid.raise (w.untilCause op))) .ok) := by
  obtain ⟨again, nowhere⟩ := h.locate? hp
  apply cutsAhead_of_option
  · intro cut found
    obtain ⟨place, here, rfl⟩ := Option.map_eq_some_iff.1 found
    obtain ⟨there, start, stop⟩ := again place here
    refine ⟨parts w place, ?_, ahead place start stop⟩
    rw [there]
    rfl
  · intro full
    rw [requirement_untilCause, if_pos full]
  · intro missing requirement
    rw [Option.map_eq_none_iff] at missing ⊢
    rw [requirement_untilCause] at requirement ⊢
    split at requirement
    · rename_i full
      rw [if_pos (h.bound_iff.2 full)]
      exact ⟨nowhere missing (h.bytes_eq full), rfl⟩
    · contradiction
  · -- Fewer than one byte is none.
    intro n missing requirement enough
    rw [Option.map_eq_none_iff] at missing ⊢
    rw [requirement_untilCause] at requirement
    split at requirement
    · contradiction
    · cases requirement
      have nothing : more < 1 := enough
      obtain ⟨r, split, few, -⟩ := h.grown
      obtain rfl := List.eq_nil_of_length_eq_zero (show r.length = 0 by omega)
      exact nowhere missing (by rw [split, List.append_nil])

theorem splitUntil_eq (mode : Mode) (p : Pattern) (op : Operation) : v.splitUntil mode p op =
    ((v.locate? p).map fun place => v.cut place.1).elim
      (.error (mode.raise (v.untilCause op))) .ok := by
  unfold splitUntil splitUntil?
  cases v.locate? p <;> rfl

theorem splitUntilConsume_eq (mode : Mode) (p : Pattern) (op : Operation) :
    v.splitUntilConsume mode p op =
      ((v.locate? p).map fun place => ((v.cut place.1).1, (v.cut place.2).2)).elim
        (.error (mode.raise (v.untilCause op))) .ok := by
  unfold splitUntilConsume splitUntilConsume?
  cases v.locate? p <;> rfl

theorem Ahead.splitUntil (h : v.Ahead x more w) {p : Pattern} (hp : p.Sought) (op : Operation) :
    CutsAhead (SettledAhead more) x more v (v.splitUntil .invalid p op)
      (w.splitUntil .invalid p op) := by
  rw [splitUntil_eq, splitUntil_eq]
  refine h.cutAtMatch hp (fun u place => u.cut place.1) (fun place start _ => ?_) op
  exact ⟨h.settled_head start, h.cut_tail start, (h.left.cut_bounds _).2⟩

theorem Ahead.splitUntilConsume (h : v.Ahead x more w) {p : Pattern} (hp : p.Sought)
    (op : Operation) :
    CutsAhead (SettledAhead more) x more v (v.splitUntilConsume .invalid p op)
      (w.splitUntilConsume .invalid p op) := by
  rw [splitUntilConsume_eq, splitUntilConsume_eq]
  refine h.cutAtMatch hp (fun u place => ((u.cut place.1).1, (u.cut place.2).2))
    (fun place start stop => ?_) op
  exact ⟨h.settled_head start, h.cut_tail stop, (h.left.cut_bounds _).2⟩

/-! ## Passing over bytes -/

theorem Sound.splitWhile_bytes (h : v.Sound) (kind : v.kind = .bytes) {p : Pattern}
    {f : UInt8 → Bool} (hf : ∀ l, p.reject? l = (l.findIdx? f).map Number.ofNat) :
    v.splitWhile p = ((v.bytes.findIdx? f).map v.cut).getD v.exhausted := by
  unfold splitWhile
  rw [hf]
  cases search : v.bytes.findIdx? f with
  | none => rfl
  | some i =>
    obtain ⟨inside, -⟩ := List.findIdx?_eq_some_iff_getElem.1 search
    have boundary : v.isBoundary i = true := by
      rw [h.isBoundary_iff, kind]
      exact Nat.le_of_lt inside
    simp only [Option.map_some, Number.toNat?_ofNat, boundary, if_true, Option.getD_some]

theorem Sound.splitWhile_bound (h : v.Sound) (kind : v.kind = .bytes) {p : Pattern}
    (hp : p.Bytewise) (open' : v.bound ≠ .startBounded) : (v.splitWhile p).2.bound = v.bound := by
  obtain ⟨f, hf⟩ := hp.reject?_eq
  rw [h.splitWhile_bytes kind hf]
  cases v.bytes.findIdx? f with
  | some i => exact (h.cut_bounds i).2
  | none =>
    simp only [Option.map_none, Option.getD_none, exhausted, h.endView_eq]
    cases hb : v.bound with
    | startBounded => exact absurd hb open'
    | _ => rfl

theorem Ahead.splitWhile (h : v.Ahead x more w) {p : Pattern} (hp : p.Bytewise) :
    (v.splitWhile p).2.Ahead (x ∧ (v.splitWhile p).2.bound ≠ .unbounded) more
      (w.splitWhile p).2 := by
  obtain ⟨f, hf⟩ := hp.reject?_eq
  obtain ⟨less, few, same⟩ := h.size_eq
  obtain ⟨r, split, -⟩ := h.grown
  have length := h.left.length_bytes
  have length' := h.right.length_bytes
  rw [h.left.splitWhile_bytes h.leftKind hf, h.right.splitWhile_bytes h.rightKind hf]
  cases search : v.bytes.findIdx? f with
  | some i =>
    obtain ⟨inside, -⟩ := List.findIdx?_eq_some_iff_getElem.1 search
    rw [split, Pattern.findIdx?_append_of_eq_some search]
    exact (h.cut_tail (by omega)).mono And.left
  | none =>
    by_cases full : v.bound = .fullyBounded
    · rw [h.bytes_eq full, search]
      exact (h.endView full).mono And.left
    · -- The later read stops among the bytes that arrived, or at their end.
      have open' : w.bound ≠ .fullyBounded := fun full' => full (h.bound_iff.1 full')
      have undetermined : v.endView.bound = .unbounded := by
        rw [h.left.endView_eq]
        cases hv : v.bound with
        | fullyBounded => exact absurd hv full
        | _ => rfl
      refine Ahead.mono (x := False) ?_ fun hx => hx.2 undetermined
      cases search' : w.bytes.findIdx? f with
      | none =>
        simp only [Option.map_none, Option.getD_none, exhausted]
        refine h.of_undetermined full h.right.endView_tailOf ?_ ?_
        · simp only [h.right.endView_eq]
          omega
        · simp only [h.right.endView_eq]
          cases hw : w.bound with
          | fullyBounded => exact absurd hw open'
          | _ => simp [Bound.forEnd]
      | some j =>
        have inside : j < w.bytes.length := (List.findIdx?_eq_some_iff_getElem.1 search').1
        have passed : v.size ≤ j := by
          rw [split, List.findIdx?_append, search] at search'
          obtain ⟨i, -, rfl⟩ := Option.map_eq_some_iff.1 search'
          omega
        have boundary : w.kind.Boundary w.bytes j := by
          rw [h.rightKind]
          exact Nat.le_of_lt inside
        have tail := (h.right.cut_parts boundary).tail
        simp only [Option.map_none, Option.getD_none, Option.map_some, Option.getD_some, exhausted]
        refine h.of_undetermined full tail ?_ ?_
        · simp only [h.right.cut_eq]
          omega
        · simp only [h.right.cut_eq]
          exact open'

/-! ## Literals -/

theorem Sound.bytesOf?_start (h : v.Sound) {m : Nat} (hm : m ≤ v.size) :
    (Span.within v.source v.start (v.position m)).bytesOf? v.window = some (v.bytes.take m) := by
  rw [h.start_eq_position, h.within_eq (Nat.zero_le _) hm, h.bytesOf?_range (Nat.zero_le _) hm,
    List.drop_zero, Nat.sub_zero]

theorem bytes_ofLiteral (literal : List UInt8) (k : Kind) :
    (ofLiteral literal k).bytes = literal := by
  rw [View.bytes, Source.slice_eq, ofLiteral, Source.bytes_ofBytes, List.drop_zero]
  exact List.take_length

theorem Sound.requirement_prefixCause (h : v.Sound) (literal : List UInt8) (op : Operation) :
    (v.prefixCause literal op).requirement =
      if v.bound = .fullyBounded ∨ ¬ v.bytes.take literal.length <+: literal then none
      else Retry.ofHadAndNeeded? (min literal.length v.size : Nat) literal.length := by
  have found := h.bytesOf?_start (Nat.min_le_right literal.length v.size)
  have taken : v.bytes.take (min literal.length v.size) = v.bytes.take literal.length := by
    rw [← h.length_bytes, ← List.take_take, List.take_length]
  have length :
      (Span.within v.source v.start (v.position (min literal.length v.size : Nat))).length =
      Number.ofNat (min literal.length v.size) := by
    have inside := h.inside
    have last : v.position (min literal.length v.size : Nat) =
        Number.ofNat (v.offset + min literal.length v.size) := by
      simp only [position, h.unstray, Number.shift_ofNat]
    rw [h.start_eq, last, Span.within_ofNat _ (by omega) (by omega), Span.length,
      Number.distance_ofNat (by omega)]
    congr 1
    omega
  have needed : (ofLiteral literal v.kind).extent = Number.ofNat literal.length := rfl
  rw [taken] at found
  simp only [prefixCause, h.extent_eq, Number.least_ofNat, Cause.requirement, Cause.isFatal,
    Cause.mayBecome, Cause.span, found, length, needed, bytes_ofLiteral, isBound]
  by_cases full : v.bound = .fullyBounded
  · simp [full]
  · by_cases starts : v.bytes.take literal.length <+: literal
    · simp [full, starts]
    · simp [full, starts]

theorem splitPrefix_eq (mode : Mode) (literal : List UInt8) (op : Operation) :
    v.splitPrefix mode literal op =
      (v.splitPrefix? literal).elim (.error (mode.raise (v.prefixCause literal op))) .ok := by
  unfold splitPrefix
  cases v.splitPrefix? literal <;> rfl

theorem take_prefix_of_prefix_append {l r literal : List UInt8} (h : literal <+: l ++ r) :
    l.take literal.length <+: literal := by
  refine List.prefix_of_prefix_length_le ?_ h (List.length_take_le _ _)
  exact (List.take_prefix _ _).trans (List.prefix_append _ _)

theorem length_lt_of_take_prefix {l literal : List UInt8} (h : ¬ literal <+: l)
    (taken : l.take literal.length <+: literal) : l.length < literal.length := by
  by_contra long
  have length : (l.take literal.length).length = literal.length := by
    rw [List.length_take]
    omega
  apply h
  rw [← taken.eq_of_length length]
  exact List.take_prefix _ _

theorem Ahead.splitPrefix (h : v.Ahead x more w) {literal : List UInt8}
    (hl : literal.length ≤ Number.wholeLimit) (op : Operation) :
    CutsAhead (SettledAhead more) x more v (v.splitPrefix .invalid literal op)
      (w.splitPrefix .invalid literal op) := by
  obtain ⟨less, few, -⟩ := h.size_eq
  obtain ⟨r, split, -, -⟩ := h.grown
  have length := h.left.length_bytes
  have length' := h.right.length_bytes
  have fits : literal.length ≤ Number.greatestWhole := by
    rw [Number.wholeLimit_eq] at hl
    exact Number.le_greatestWhole (by omega)
  have missing? {u : View} : u.splitPrefix? literal = none ↔ ¬ literal <+: u.bytes := by
    rw [← List.isPrefixOf_iff_prefix]
    simp [splitPrefix?, hasPrefix]
  rw [splitPrefix_eq, splitPrefix_eq]
  apply cutsAhead_of_option
  · intro parts found
    simp only [splitPrefix?, hasPrefix, List.isPrefixOf_iff_prefix] at found ⊢
    split at found
    · rename_i starts
      cases found
      have le : literal.length ≤ v.size := by
        rw [← length]
        exact starts.length_le
      have starts' : literal <+: w.bytes := by
        rw [split]
        exact starts.trans (List.prefix_append _ _)
      exact ⟨_, if_pos starts', h.settled_head le, h.cut_tail le, (h.left.cut_bounds _).2⟩
    · contradiction
  · intro full
    rw [h.left.requirement_prefixCause, if_pos (.inl full)]
  · intro absent requirement
    rw [missing?] at absent ⊢
    rw [h.left.requirement_prefixCause] at requirement
    rw [h.right.requirement_prefixCause]
    split at requirement
    · rename_i final
      rcases final with full | differs
      · rw [h.bytes_eq full, if_pos (.inl (h.bound_iff.2 full))]
        exact ⟨absent, rfl⟩
      · -- What differs from the literal differs from it still, with more bytes after it.
        refine ⟨fun starts => differs ?_, if_pos (.inr fun starts => differs ?_)⟩
        · rw [split] at starts
          exact take_prefix_of_prefix_append starts
        · refine List.IsPrefix.trans ?_ starts
          rw [split, List.take_append]
          exact List.prefix_append _ _
    · -- What goes on from the literal is too short, so it has a requirement.
      rename_i open'
      simp only [not_or, not_not] at open'
      have short := length_lt_of_take_prefix absent open'.2
      have had : min literal.length v.size < literal.length := by omega
      obtain ⟨n, some, -⟩ := Retry.exists_ofHadAndNeeded? had fits
      rw [some] at requirement
      contradiction
  · intro n absent requirement enough
    rw [missing?] at absent ⊢
    rw [h.left.requirement_prefixCause] at requirement
    split at requirement
    · contradiction
    · rename_i open'
      simp only [not_or, not_not] at open'
      have short := length_lt_of_take_prefix absent open'.2
      have had : min literal.length v.size < literal.length := by omega
      obtain ⟨n', some, count⟩ := Retry.exists_ofHadAndNeeded? had fits
      rw [some] at requirement
      cases requirement
      have lacking := count hl
      intro starts
      have long := starts.length_le
      omega

end View
end Untrusted
