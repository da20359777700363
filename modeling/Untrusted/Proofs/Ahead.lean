import Mathlib
import Untrusted.Proofs.Rounding
import Untrusted.Proofs.View.Split

/-!
# Cutting bytes before and after more of them arrive

What a cut finds in bytes it finds there as well once more bytes follow. Where it fails, its
requirement is no greater than the number of bytes that it lacks, and without one no bytes help.
-/

namespace Untrusted

namespace View

/-- The same bytes before and after at most `more` of them arrived. The two views start at the same
place if `x` holds. The end of a settled view does not move; past an undetermined end the later view
may already have read some of what arrived. -/
structure Ahead (x : Prop) (more : Nat) (v w : View) : Prop where
  left : v.Sound
  right : w.Sound
  leftKind : v.kind = .bytes
  rightKind : w.kind = .bytes
  small : w.size ≤ Number.wholeLimit
  aligned : x → v.offset = w.offset
  grown : ∃ r, w.bytes = v.bytes ++ r ∧ r.length ≤ more ∧ (v.bound = .fullyBounded → r = [])
  kept : v.bound ≠ .unbounded → w.bound = v.bound
  free : v.bound = .unbounded → w.bound ≠ .fullyBounded

/-- Views that are the same but for the buffer, if `x` holds. -/
def Like (x : Prop) (u u' : View) : Prop :=
  x → u.offset = u'.offset ∧ u.size = u'.size ∧ u.bound = u'.bound ∧ u.kind = u'.kind ∧
    u.bytes = u'.bytes

variable {x y : Prop} {more : Nat} {v w : View}

namespace Ahead

theorem mono (h : v.Ahead x more w) (hy : y → x) : v.Ahead y more w :=
  { h with aligned := fun hy' => h.aligned (hy hy') }

theorem bound_iff (h : v.Ahead x more w) : w.bound = .fullyBounded ↔ v.bound = .fullyBounded := by
  constructor
  · intro full
    by_cases undetermined : v.bound = .unbounded
    · exact absurd full (h.free undetermined)
    · rw [← h.kept undetermined, full]
  · intro full
    rw [h.kept (by rw [full]; decide), full]

theorem size_eq (h : v.Ahead x more w) :
    v.size ≤ w.size ∧ w.size ≤ v.size + more ∧ (v.bound = .fullyBounded → w.size = v.size) := by
  obtain ⟨r, split, few, none⟩ := h.grown
  have length := congrArg List.length split
  rw [List.length_append, h.right.length_bytes, h.left.length_bytes] at length
  refine ⟨by omega, by omega, fun full => ?_⟩
  rw [none full, List.length_nil] at length
  omega

theorem bytes_eq (h : v.Ahead x more w) (full : v.bound = .fullyBounded) : w.bytes = v.bytes := by
  obtain ⟨r, split, -, none⟩ := h.grown
  rw [split, none full, List.append_nil]

theorem take_bytes (h : v.Ahead x more w) {i : Nat} (le : i ≤ v.size) :
    w.bytes.take i = v.bytes.take i := by
  obtain ⟨r, split, -⟩ := h.grown
  rw [split, List.take_append_of_le_length (by rw [h.left.length_bytes]; exact le)]

theorem toLike (h : v.Ahead x more w) (full : v.bound = .fullyBounded) : v.Like x w := by
  intro hx
  obtain ⟨-, -, size⟩ := h.size_eq
  refine ⟨h.aligned hx, (size full).symm, ?_, ?_, (h.bytes_eq full).symm⟩
  · rw [h.bound_iff.2 full, full]
  · rw [h.leftKind, h.rightKind]

/-! ## Both parts of a cut -/

theorem boundaries (h : v.Ahead x more w) {i : Nat} (le : i ≤ v.size) :
    v.kind.Boundary v.bytes i ∧ w.kind.Boundary w.bytes i := by
  obtain ⟨less, -, -⟩ := h.size_eq
  rw [h.leftKind, h.rightKind]
  exact ⟨le.trans_eq h.left.length_bytes.symm,
    (Nat.le_trans le less).trans_eq h.right.length_bytes.symm⟩

theorem cut_head (h : v.Ahead x more w) {i : Nat} (le : i ≤ v.size) :
    (v.cut i).1.Ahead x more (w.cut i).1 := by
  obtain ⟨hv, hw⟩ := h.boundaries le
  obtain ⟨less, -, -⟩ := h.size_eq
  have small := h.small
  have left := (h.left.cut_parts hv).head.sound
  have right := (h.right.cut_parts hw).head.sound
  rw [h.left.cut_eq] at left ⊢
  rw [h.right.cut_eq] at right ⊢
  refine ⟨left, right, h.leftKind, h.rightKind, ?_, h.aligned,
    ⟨[], ?_, Nat.zero_le _, fun _ => rfl⟩, fun _ => rfl, fun hb => by contradiction⟩
  · simp only
    omega
  · rw [List.append_nil, bytes_resize le, bytes_resize (Nat.le_trans le less), h.take_bytes le]

theorem cut_tail (h : v.Ahead x more w) {i : Nat} (le : i ≤ v.size) :
    (v.cut i).2.Ahead x more (w.cut i).2 := by
  obtain ⟨hv, hw⟩ := h.boundaries le
  obtain ⟨less, -, -⟩ := h.size_eq
  have small := h.small
  have left := (h.left.cut_parts hv).tail.sound
  have right := (h.right.cut_parts hw).tail.sound
  rw [h.left.cut_eq] at left ⊢
  rw [h.right.cut_eq] at right ⊢
  obtain ⟨r, split, few, none⟩ := h.grown
  refine ⟨left, right, h.leftKind, h.rightKind, ?_, ?_, ⟨r, ?_, few, none⟩, h.kept, h.free⟩
  · simp only
    omega
  · intro hx
    simp only [h.aligned hx]
  · have short : i ≤ v.bytes.length := by
      rw [h.left.length_bytes]
      exact le
    rw [h.left.bytes_shift le, h.right.bytes_shift (Nat.le_trans le less), split,
      List.drop_append_of_le_length short]

theorem endView (h : v.Ahead x more w) (full : v.bound = .fullyBounded) :
    v.endView.Ahead x more w.endView := by
  obtain ⟨-, -, size⟩ := h.size_eq
  have tail := h.cut_tail (Nat.le_refl v.size)
  rw [h.left.cut_eq, h.right.cut_eq] at tail
  have full' := h.bound_iff.2 full
  rw [h.left.endView_eq, h.right.endView_eq]
  simp only [full, full', size full, Bound.forEnd] at tail ⊢
  exact tail

theorem of_undetermined (h : v.Ahead x more w) (hb : v.bound ≠ .fullyBounded) {t : View}
    (tail : t.TailOf w) (far : t.size ≤ w.size - v.size) (ht : t.bound ≠ .fullyBounded) :
    v.endView.Ahead False more t := by
  have small := h.small
  obtain ⟨-, few, -⟩ := h.size_eq
  have undetermined : v.endView.bound = .unbounded := by
    rw [h.left.endView_eq]
    cases hv : v.bound with
    | fullyBounded => exact absurd hv hb
    | _ => rfl
  have end' := h.left.endView_tailOf
  have empty : v.endView.bytes = [] := by
    rw [← List.length_eq_zero_iff, end'.sound.length_bytes, h.left.endView_eq]
    exact Nat.sub_self _
  refine ⟨end'.sound, tail.sound, end'.kind.trans h.leftKind, tail.kind.trans h.rightKind, by omega,
    False.elim, ⟨t.bytes, ?_, ?_, ?_⟩, fun determined => absurd undetermined determined,
    fun _ => ht⟩
  · rw [empty, List.nil_append]
  · rw [tail.sound.length_bytes]
    omega
  · rw [undetermined]
    intro full
    contradiction

end Ahead

/-! ## Requirements -/

theorem Sound.span_length (h : v.Sound) : v.span.length = Number.ofNat v.size := by
  have stop : v.stop = Number.ofNat (v.offset + v.size) := by
    simp only [View.stop, position, h.unstray, h.extent_eq, Number.shift_ofNat]
  rw [View.span, h.start_eq, stop, Span.within_ofNat _ (Nat.le_add_right _ _) h.inside, Span.length,
    Number.distance_ofNat (by omega)]
  congr 1
  omega

theorem requirement_invalidCause (v : View) (op : Operation) (expected : String) (span : Span)
    (retry : Option Retry) : (v.invalidCause op expected span retry).requirement =
      if v.bound = .fullyBounded then none else retry := by
  cases retry <;> simp [invalidCause, Cause.requirement, Cause.isFatal, isBound]

theorem Sound.requirement_lengthCause (h : v.Sound) (n : Number) (op : Operation) :
    (v.lengthCause n op).requirement = n.toNat?.bind fun i =>
      if v.bound = .fullyBounded then none else Retry.ofHadAndNeeded? v.size i := by
  unfold lengthCause
  cases length : n.toNat? with
  | none =>
    rw [Option.bind_none]
    simp only [requirement_invalidCause, ite_self]
  | some i =>
    simp [Cause.requirement, Cause.isFatal, Cause.span, h.span_length, isBound]

theorem requirement_untilCause (op : Operation) : (v.untilCause op).requirement =
    if v.bound = .fullyBounded then none else some ⟨1, Nat.one_pos⟩ := by
  have one : Retry.create? 1 = some ⟨1, Nat.one_pos⟩ := Retry.create?_ofNat 1
  rw [untilCause, requirement_invalidCause, one]

end View

/-- What a failure says of a later try: without a requirement it is final, and it fails again until
as many bytes as its requirement have arrived. -/
def FailsAhead {α β : Type} (more : Nat) (v : View) (r : Except Failure α) (r' : Except Failure β) :
    Prop :=
  ∀ f, r = .error f → ∃ retry, f = .invalid retry ∧ (v.bound = .fullyBounded → retry = none) ∧
    (retry = none → r' = .error (.invalid none)) ∧
    ∀ n, retry = some n → more < n.count → ∃ f', r' = .error f'

/-- A cut that succeeds does so again, with a part that is alike and with what is left as far
ahead. -/
structure CutsAhead {α : Type} (like : Prop → α → α → Prop) (x : Prop) (more : Nat) (v : View)
    (r r' : Except Failure (α × View)) : Prop where
  cut : ∀ p, r = .ok p →
    ∃ p', r' = .ok p' ∧ like x p.1 p'.1 ∧ p.2.Ahead x more p'.2 ∧ p.2.bound = v.bound
  fails : FailsAhead more v r r'

namespace View

variable {α : Type} {like : Prop → α → α → Prop} {x : Prop} {more : Nat} {v w : View}

theorem cutsAhead_of_option {o o' : Option (α × View)} {c c' : Cause}
    (found : ∀ p, o = some p →
      ∃ p', o' = some p' ∧ like x p.1 p'.1 ∧ p.2.Ahead x more p'.2 ∧ p.2.bound = v.bound)
    (settled : v.bound = .fullyBounded → c.requirement = none)
    (final : o = none → c.requirement = none → o' = none ∧ c'.requirement = none)
    (lacking : ∀ n, o = none → c.requirement = some n → more < n.count → o' = none) :
    CutsAhead like x more v (o.elim (.error (Mode.invalid.raise c)) .ok)
      (o'.elim (.error (Mode.invalid.raise c')) .ok) := by
  cases o with
  | some parts =>
    refine ⟨fun p same => ?_, fun f failed => by contradiction⟩
    cases same
    obtain ⟨parts', found', follows⟩ := found _ rfl
    exact ⟨parts', by rw [found', Option.elim_some], follows⟩
  | none =>
    refine ⟨fun p same => by contradiction, fun f failed => ?_⟩
    cases failed
    refine ⟨c.requirement, rfl, settled, fun none => ?_, fun n some few => ?_⟩
    · obtain ⟨missing, requirement⟩ := final rfl none
      rw [missing, Option.elim_none, Mode.raise, requirement]
    · rw [lacking n rfl some few]
      exact ⟨_, rfl⟩

def SettledAhead (more : Nat) (x : Prop) (u u' : View) : Prop :=
  u.bound = .fullyBounded ∧ u.Ahead x more u'

theorem SettledAhead.toLike {u u' : View} (h : SettledAhead more x u u') : u.Like x u' :=
  h.2.toLike h.1

theorem Sound.cut_bounds (h : v.Sound) (i : Nat) :
    (v.cut i).1.bound = .fullyBounded ∧ (v.cut i).2.bound = v.bound := by
  rw [h.cut_eq]
  exact ⟨rfl, rfl⟩

theorem Ahead.settled_head (h : v.Ahead x more w) {i : Nat} (le : i ≤ v.size) :
    SettledAhead more x (v.cut i).1 (w.cut i).1 :=
  ⟨(h.left.cut_bounds i).1, h.cut_head le⟩

/-! ## Counted cuts -/

theorem splitAt_eq (mode : Mode) (n : Number) (op : Operation) : v.splitAt mode n op =
    (v.splitAt? n).elim (.error (mode.raise (v.lengthCause n op))) .ok := by
  unfold splitAt
  cases v.splitAt? n <;> rfl

theorem Sound.splitAt?_bytes (h : v.Sound) (kind : v.kind = .bytes) (n : Number) :
    v.splitAt? n = n.toNat?.bind fun i => if i ≤ v.size then some (v.cut i) else none := by
  unfold splitAt?
  cases n.toNat? with
  | none => rfl
  | some i =>
    simp only [Option.bind_some, byteIndex?, kind, h.extent_eq, Number.le_ofNat, decide_eq_true_eq]
    split <;> rfl

theorem Ahead.cutCounted (h : v.Ahead x more w) {n : Number} {i : Nat} (length : n.toNat? = some i)
    (hi : i ≤ Number.greatestWhole) (op : Operation) {o o' : Option (α × View)}
    (enough : i ≤ v.size → ∃ p p', o = some p ∧ o' = some p' ∧ like x p.1 p'.1 ∧
      p.2.Ahead x more p'.2 ∧ p.2.bound = v.bound)
    (short : v.size < i → o = none) (short' : w.size < i → o' = none) :
    CutsAhead like x more v (o.elim (.error (Mode.invalid.raise (v.lengthCause n op))) .ok)
      (o'.elim (.error (Mode.invalid.raise (w.lengthCause n op))) .ok) := by
  obtain ⟨less, few, same⟩ := h.size_eq
  have small := h.small
  have lacks : o = none → v.size < i := by
    intro missing
    by_contra there
    obtain ⟨p, -, found, -⟩ := enough (Nat.le_of_not_lt there)
    rw [missing] at found
    contradiction
  have requirement : (v.lengthCause n op).requirement =
      if v.bound = .fullyBounded then none else Retry.ofHadAndNeeded? v.size i := by
    rw [h.left.requirement_lengthCause, length, Option.bind_some]
  apply cutsAhead_of_option
  · intro p found
    rcases Nat.lt_or_ge v.size i with missing | there
    · rw [short missing] at found
      contradiction
    · obtain ⟨q, p', found', again, ahead⟩ := enough there
      rw [found] at found'
      cases found'
      exact ⟨p', again, ahead⟩
  · intro full
    rw [requirement, if_pos full]
  · -- Without a requirement the view is settled, and no more than it holds arrives.
    intro missing final
    rw [requirement] at final
    split at final
    · rename_i full
      refine ⟨short' ?_, ?_⟩
      · rw [same full]
        exact lacks missing
      · rw [h.right.requirement_lengthCause, length, Option.bind_some, if_pos (h.bound_iff.2 full)]
    · obtain ⟨r, some, -⟩ := Retry.exists_ofHadAndNeeded? (lacks missing) hi
      rw [some] at final
      contradiction
  · -- The requirement is exact, unless the length is greater than that of any input.
    intro r missing waits enough
    rw [requirement] at waits
    split at waits
    · contradiction
    · obtain ⟨r', some, count⟩ := Retry.exists_ofHadAndNeeded? (lacks missing) hi
      rw [some] at waits
      cases waits
      apply short'
      by_contra there
      have lacking := count (by omega)
      omega

theorem Ahead.splitAt (h : v.Ahead x more w) {n : Number} (hn : n.InRange) (op : Operation) :
    CutsAhead (SettledAhead more) x more v (v.splitAt .invalid n op) (w.splitAt .invalid n op) := by
  obtain ⟨less, -, -⟩ := h.size_eq
  rw [splitAt_eq, splitAt_eq, h.left.splitAt?_bytes h.leftKind, h.right.splitAt?_bytes h.rightKind]
  cases length : n.toNat? with
  | none =>
    apply cutsAhead_of_option
    all_goals
      simp [h.left.requirement_lengthCause, h.right.requirement_lengthCause, length]
  | some i =>
    apply h.cutCounted length (hn i length)
    · intro le
      refine ⟨v.cut i, w.cut i, if_pos le, if_pos (Nat.le_trans le less), h.settled_head le,
        h.cut_tail le, ?_⟩
      exact (h.left.cut_bounds i).2
    · intro short
      exact if_neg (Nat.not_le.2 short)
    · intro short
      exact if_neg (Nat.not_le.2 short)

theorem Sound.splitFirst?_bytes (h : v.Sound) (kind : v.kind = .bytes) :
    v.splitFirst? = v.bytes.head?.map fun b => (.byte b, (v.cut 1).2) := by
  have length := h.length_bytes
  have zero : (0 : Number) = Number.ofNat 0 := rfl
  unfold splitFirst? firstEntry?
  simp only [h.extent_eq, zero, Number.lt_ofNat, h.unstray, kind, ahead_eq, decide_eq_true_eq]
  cases hb : v.bytes with
  | nil =>
    rw [hb] at length
    rw [if_neg (by simpa using length.symm)]
    rfl
  | cons b rest =>
    rw [hb, List.length_cons] at length
    rw [if_pos (by omega)]
    rfl

theorem splitFirst_eq (mode : Mode) (op : Operation) : v.splitFirst mode op =
    v.splitFirst?.elim (.error (mode.raise (v.lengthCause 1 op))) .ok := by
  unfold splitFirst
  cases v.splitFirst? <;> rfl

theorem Ahead.splitFirst (h : v.Ahead x more w) (op : Operation) :
    CutsAhead (fun _ a b => a = b) x more v (v.splitFirst .invalid op)
      (w.splitFirst .invalid op) := by
  obtain ⟨r, split, -, -⟩ := h.grown
  have absent {u : View} (hu : u.Sound) (short : u.size < 1) :
      u.bytes.head?.map (fun b => (Token.byte b, (u.cut 1).2)) = none := by
    have length := hu.length_bytes
    rw [List.eq_nil_of_length_eq_zero (l := u.bytes) (by omega)]
    rfl
  rw [splitFirst_eq, splitFirst_eq, h.left.splitFirst?_bytes h.leftKind,
    h.right.splitFirst?_bytes h.rightKind]
  apply h.cutCounted (Number.toNat?_ofNat 1) (Number.le_greatestWhole (by decide))
  · intro le
    have length := h.left.length_bytes
    obtain ⟨b, rest, bytes⟩ := List.exists_cons_of_length_pos (l := v.bytes) (by omega)
    refine ⟨(.byte b, (v.cut 1).2), (.byte b, (w.cut 1).2), ?_, ?_, rfl, h.cut_tail le,
      (h.left.cut_bounds 1).2⟩
    · rw [bytes]
      rfl
    · rw [split, bytes]
      rfl
  · exact absent h.left
  · exact absent h.right

end View
end Untrusted
