import Mathlib
import Untrusted.Proofs.Reader
import Untrusted.Proofs.View.Split

/-!
# Views that come of settled ones

The bound of a settled view survives every way of cutting it, and a head of known length is settled
whatever it was cut from.
-/

namespace Untrusted.View

abbrev Settled (v : View) : Prop := v.bound = .fullyBounded

def Parted (parts : View × View) : Prop := parts.1.Settled ∧ parts.2.Settled

variable {v : View}

@[simp]
theorem place_settled (offset size : Number) (b : Bound) :
    (v.place offset size b).Settled ↔ b = .fullyBounded := by
  unfold place
  simp only
  split <;> rfl

theorem cut_head (v : View) (i : Nat) : (v.cut i).1.Settled := by
  unfold cut
  split
  · rfl
  · simp [cutAnywhere, Bound.closeEnd]

theorem cutAnywhere_parted (h : v.Settled) (n : Number) : Parted (v.cutAnywhere n) := by
  simpa [Parted, cutAnywhere, Bound.closeEnd] using h

theorem cut_parted (h : v.Settled) (i : Nat) : Parted (v.cut i) := by
  refine ⟨v.cut_head i, ?_⟩
  unfold cut
  split
  · exact h
  · exact (cutAnywhere_parted h _).2

theorem endView_settled (h : v.Settled) : v.endView.Settled := by
  have stays : v.bound.forEnd = .fullyBounded := by
    rw [h]
    rfl
  unfold endView
  split
  · exact stays
  · exact (place_settled _ _ _).2 stays

theorem exhausted_parted (h : v.Settled) : Parted v.exhausted := ⟨h, endView_settled h⟩

theorem consumedHead_settled (v : View) {rest : View} (h : rest.bound ≠ .unbounded) :
    (v.consumedHead rest).Settled := by
  unfold consumedHead
  simp only [if_neg h]
  split
  · rfl
  · simp [Bound.closeEnd]

/-! ## Cuts -/

variable {parts : View × View}

theorem splitAt?_head {n : Number} (cut : v.splitAt? n = some parts) : parts.1.Settled := by
  obtain ⟨i, -, rfl⟩ := Option.map_eq_some_iff.1 cut
  exact v.cut_head i

theorem splitUntil?_head {p : Pattern} (cut : v.splitUntil? p = some parts) :
    parts.1.Settled := by
  obtain ⟨⟨i, _⟩, -, rfl⟩ := Option.map_eq_some_iff.1 cut
  exact v.cut_head i

theorem splitUntilConsume?_head {p : Pattern} (cut : v.splitUntilConsume? p = some parts) :
    parts.1.Settled := by
  obtain ⟨⟨i, _⟩, -, rfl⟩ := Option.map_eq_some_iff.1 cut
  exact v.cut_head i

theorem splitAt?_parted (h : v.Settled) {n : Number} (cut : v.splitAt? n = some parts) :
    Parted parts := by
  obtain ⟨i, -, rfl⟩ := Option.map_eq_some_iff.1 cut
  exact cut_parted h i

theorem splitAtByte?_parted (h : v.Settled) {n : Number} (cut : v.splitAtByte? n = some parts) :
    Parted parts := by
  obtain ⟨i, -, place⟩ := Option.bind_eq_some_iff.1 cut
  split at place
  · cases place
    exact cut_parted h i
  · contradiction

theorem splitFirst?_settled (h : v.Settled) {first : Token × View}
    (cut : v.splitFirst? = some first) : first.2.Settled := by
  unfold splitFirst? at cut
  split at cut
  · obtain ⟨⟨t, n⟩, -, rfl⟩ := Option.map_eq_some_iff.1 cut
    exact (cut_parted h n).2
  · contradiction

theorem splitWhile_parted (h : v.Settled) (p : Pattern) : Parted (v.splitWhile p) := by
  unfold splitWhile
  split
  · exact exhausted_parted h
  · split
    · split
      · exact cut_parted h _
      · exact cutAnywhere_parted h _
    · exact cutAnywhere_parted h _

theorem splitUntil?_parted (h : v.Settled) {p : Pattern} (cut : v.splitUntil? p = some parts) :
    Parted parts := by
  obtain ⟨⟨i, _⟩, -, rfl⟩ := Option.map_eq_some_iff.1 cut
  exact cut_parted h i

theorem splitUntilConsume?_parted (h : v.Settled) {p : Pattern}
    (cut : v.splitUntilConsume? p = some parts) : Parted parts := by
  obtain ⟨⟨i, j⟩, -, rfl⟩ := Option.map_eq_some_iff.1 cut
  exact ⟨v.cut_head i, (cut_parted h j).2⟩

theorem splitPrefix?_parted (h : v.Settled) {literal : List UInt8}
    (cut : v.splitPrefix? literal = some parts) : Parted parts := by
  unfold splitPrefix? at cut
  split at cut
  · cases cut
    exact cut_parted h _
  · contradiction

variable {mode : Mode} {op : Operation}

theorem splitAt_parted (h : v.Settled) {n : Number} (cut : v.splitAt mode n op = .ok parts) :
    Parted parts := by
  unfold splitAt at cut
  split at cut
  · rename_i found
    cases cut
    exact splitAt?_parted h found
  · contradiction

theorem splitAtByte_parted (h : v.Settled) {n : Number}
    (cut : v.splitAtByte mode n op = .ok parts) : Parted parts := by
  unfold splitAtByte at cut
  split at cut
  · contradiction
  · split at cut
    · cases cut
      exact cut_parted h _
    · contradiction

theorem splitFirst_settled (h : v.Settled) {first : Token × View}
    (cut : v.splitFirst mode op = .ok first) : first.2.Settled := by
  unfold splitFirst at cut
  split at cut
  · rename_i found
    cases cut
    exact splitFirst?_settled h found
  · contradiction

theorem splitUntil_parted (h : v.Settled) {p : Pattern}
    (cut : v.splitUntil mode p op = .ok parts) : Parted parts := by
  unfold splitUntil at cut
  split at cut
  · rename_i found
    cases cut
    exact splitUntil?_parted h found
  · contradiction

theorem splitUntilConsume_parted (h : v.Settled) {p : Pattern}
    (cut : v.splitUntilConsume mode p op = .ok parts) : Parted parts := by
  unfold splitUntilConsume at cut
  split at cut
  · rename_i found
    cases cut
    exact splitUntilConsume?_parted h found
  · contradiction

theorem splitPrefix_parted (h : v.Settled) {literal : List UInt8}
    (cut : v.splitPrefix mode literal op = .ok parts) : Parted parts := by
  unfold splitPrefix at cut
  split at cut
  · rename_i found
    cases cut
    exact splitPrefix?_parted h found
  · contradiction

theorem trySplitWhile_parted (h : v.Settled) {check : Check}
    (cut : v.trySplitWhile mode check op = .ok parts) : Parted parts := by
  unfold trySplitWhile at cut
  split at cut
  · cases cut
    exact exhausted_parted h
  · rw [eq_of_stopped cut]
    exact cut_parted h _

theorem trySplitStrWhile_parted (h : v.Settled) {check : Check}
    (cut : v.trySplitStrWhile mode check op = .ok parts) : Parted parts := by
  unfold trySplitStrWhile at cut
  split at cut
  · cases cut
    exact ⟨h, endView_settled h⟩
  · rw [eq_of_stopped cut]
    exact cut_parted h _
  · contradiction
  · contradiction

theorem intoText_settled (h : v.Settled) {text : View} (made : v.intoText mode op = .ok text) :
    text.Settled := by
  rcases intoText_kind made with ⟨rfl, -⟩ | ⟨rfl, -⟩
  · exact h
  · exact h

theorem splitForeign_settled (h : v.Settled) {α : Type} {parser : Foreign (α × Number)}
    {expected : String} {read : α × View}
    (cut : v.splitForeign mode parser expected op = .ok read) :
    (∃ n, parser v = .ok (read.1, n)) ∧ read.2.Settled := by
  unfold splitForeign at cut
  split at cut
  · contradiction
  · rename_i value n parsed
    obtain ⟨parts, done, rfl⟩ := exists_ok_of_map_eq_ok cut
    exact ⟨⟨n, parsed⟩, (splitAtByte_parted h done).2⟩

end Untrusted.View
