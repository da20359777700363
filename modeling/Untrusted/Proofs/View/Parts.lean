import Mathlib
import Untrusted.Proofs.Number
import Untrusted.Proofs.Pattern
import Untrusted.View.Split

/-!
# Parts of a view

A sound view is a range of its source and holds whole tokens. Each way of cutting one yields a part
of it and the end of it that follows, both of them sound.
-/

namespace Untrusted.View

/-- A range of whole tokens that lies in its source, empty if both of its ends may move. -/
structure Sound (v : View) : Prop where
  unstray : v.stray = none
  inside : v.offset + v.size ≤ v.source.size
  backed : v.source.start + v.source.size ≤ v.source.buffer.bytes.size
  whole : v.kind.Whole v.bytes
  settled : v.bound = .unbounded → v.size = 0

/-- A range inside another view, with a settled end unless it ends where that view does. -/
structure PartOf (u v : View) : Prop where
  source : u.source = v.source
  start : v.offset ≤ u.offset
  stop : u.offset + u.size ≤ v.offset + v.size
  closed : u.bound = .fullyBounded ∨ u.offset + u.size = v.offset + v.size
  bound : v.bound = .fullyBounded → u.bound = .fullyBounded
  sound : u.Sound

/-- What is left of another view after some of its start. -/
structure TailOf (u v : View) : Prop where
  source : u.source = v.source
  kind : u.kind = v.kind
  start : v.offset ≤ u.offset
  stop : u.offset + u.size = v.offset + v.size
  bound : v.bound = .fullyBounded → u.bound = .fullyBounded
  sound : u.Sound

variable {u v w : View}

theorem TailOf.partOf (h : u.TailOf v) : u.PartOf v :=
  ⟨h.source, h.start, Nat.le_of_eq h.stop, .inr h.stop, h.bound, h.sound⟩

theorem Sound.tailOf_self (h : v.Sound) : v.TailOf v :=
  ⟨rfl, rfl, Nat.le_refl _, rfl, id, h⟩

theorem Sound.partOf_self (h : v.Sound) : v.PartOf v := h.tailOf_self.partOf

theorem PartOf.trans (huv : u.PartOf v) (hvw : v.PartOf w) : u.PartOf w := by
  have start := Nat.le_trans hvw.start huv.start
  have stop := Nat.le_trans huv.stop hvw.stop
  refine ⟨huv.source.trans hvw.source, start, stop, ?_, fun h => huv.bound (hvw.bound h), huv.sound⟩
  rcases huv.closed with full | same
  · exact .inl full
  · rcases hvw.closed with full | same'
    · exact .inl (huv.bound full)
    · exact .inr (same.trans same')

theorem TailOf.trans (huv : u.TailOf v) (hvw : v.TailOf w) : u.TailOf w :=
  ⟨huv.source.trans hvw.source, huv.kind.trans hvw.kind, Nat.le_trans hvw.start huv.start,
    huv.stop.trans hvw.stop, fun h => huv.bound (hvw.bound h), huv.sound⟩

/-! ## Bytes -/

theorem Sound.length_bytes (h : v.Sound) : v.bytes.length = v.size := by
  have inside := h.inside
  have backed := h.backed
  simp only [bytes, Source.slice_eq, Source.bytes_eq, List.length_take, List.length_drop,
    Array.length_toList]
  omega

theorem slice_inner {a b : Nat} (h : a + b ≤ v.size) :
    v.source.slice (v.offset + a) b = (v.bytes.drop a).take b := by
  simp only [bytes, Source.slice_eq, List.drop_take, List.drop_drop, List.take_take]
  rw [Nat.min_eq_left (by omega)]

theorem bytes_resize {n : Nat} (h : n ≤ v.size) (b : Bound) :
    ({ v with size := n, bound := b } : View).bytes = v.bytes.take n := by
  have inner := slice_inner (v := v) (a := 0) (b := n) (by omega)
  rwa [List.drop_zero, Nat.add_zero] at inner

theorem Sound.bytes_shift (h : v.Sound) {n : Nat} (hn : n ≤ v.size) (b : Bound) :
    ({ v with offset := v.offset + n, size := v.size - n, bound := b } : View).bytes =
      v.bytes.drop n := by
  have inner := slice_inner (v := v) (a := n) (b := v.size - n) (by omega)
  rwa [List.take_of_length_le (by rw [List.length_drop, h.length_bytes])] at inner

theorem Sound.extent_eq (h : v.Sound) : v.extent = Number.ofNat v.size := by
  simp only [extent, h.unstray]

theorem Sound.start_eq (h : v.Sound) : v.start = Number.ofNat v.offset := by
  simp only [View.start, h.unstray]

theorem bytes_ofBytes (id : Nat) (bytes : List UInt8) (k : Kind) :
    (ofSource (.ofBytes id bytes) k).bytes = bytes := by
  rw [View.bytes, Source.slice_eq, ofSource, Source.bytes_ofBytes, List.drop_zero]
  exact List.take_length

theorem ofBytes_sound (id : Nat) {bytes : List UInt8} {k : Kind} (whole : k.Whole bytes) :
    (ofSource (.ofBytes id bytes) k).Sound := by
  refine ⟨rfl, by simp [ofSource], by simp [ofSource, Source.ofBytes], ?_, by simp [ofSource]⟩
  rw [bytes_ofBytes]
  exact whole

/-! ## Shrinking, and starting later -/

theorem Sound.partOf_resize (h : v.Sound) {n : Nat} (le : n ≤ v.size) {b : Bound}
    (whole : v.kind.Whole (v.bytes.take n)) (closed : b = .fullyBounded ∨ n = v.size)
    (settled : b = .unbounded → n = 0) (bound : v.bound = .fullyBounded → b = .fullyBounded) :
    ({ v with size := n, bound := b } : View).PartOf v := by
  have inside := h.inside
  refine ⟨rfl, Nat.le_refl _, Nat.add_le_add_left le _, ?_, bound, ?_⟩
  · exact closed.imp_right (congrArg (v.offset + ·))
  · refine ⟨h.unstray, ?_, h.backed, ?_, settled⟩
    · exact Nat.le_trans (Nat.add_le_add_left le _) inside
    · rw [bytes_resize le]
      exact whole

theorem Sound.tailOf_shift (h : v.Sound) {n : Nat} (le : n ≤ v.size) {b : Bound}
    (whole : v.kind.Whole (v.bytes.drop n)) (settled : b = .unbounded → n = v.size)
    (bound : v.bound = .fullyBounded → b = .fullyBounded) :
    ({ v with offset := v.offset + n, size := v.size - n, bound := b } : View).TailOf v := by
  have inside := h.inside
  refine ⟨rfl, rfl, by simp, by simp only []; omega, bound, h.unstray, by simp only []; omega,
    h.backed, ?_, fun hb => ?_⟩
  · rw [h.bytes_shift le]
    exact whole
  · simp only [settled hb, Nat.sub_self]

/-! ## Cuts -/

/-- A view in two: a part from its start, and what is left after it. -/
structure Cut (v : View) (parts : View × View) : Prop where
  head : parts.1.PartOf v
  tail : parts.2.TailOf v

theorem Sound.cut_eq (h : v.Sound) (i : Nat) :
    v.cut i = ({ v with size := i, bound := .fullyBounded },
      { v with offset := v.offset + i, size := v.size - i }) := by
  simp only [View.cut, h.unstray, Bound.closeEnd]

theorem Sound.cut_parts (h : v.Sound) {i : Nat} (hi : v.kind.Boundary v.bytes i) :
    v.Cut (v.cut i) := by
  have le : i ≤ v.size := by
    rw [← h.length_bytes]
    exact hi.le
  obtain ⟨before, after⟩ := hi.whole_parts h.whole
  rw [h.cut_eq]
  constructor
  · exact h.partOf_resize le before (.inl rfl) (by simp) fun _ => rfl
  · refine h.tailOf_shift le after (fun hb => ?_) id
    have empty := h.settled hb
    omega

theorem Sound.cut_kind (h : v.Sound) (i : Nat) : (v.cut i).1.kind = v.kind := by
  rw [h.cut_eq]

theorem Sound.endView_eq (h : v.Sound) : v.endView =
    { v with offset := v.offset + v.size, size := v.size - v.size, bound := v.bound.forEnd } := by
  simp only [View.endView, h.unstray, Nat.sub_self]

theorem Sound.endView_tailOf (h : v.Sound) : v.endView.TailOf v := by
  rw [h.endView_eq]
  refine h.tailOf_shift (Nat.le_refl _) ?_ (fun _ => rfl) ?_
  · rw [← h.length_bytes, List.drop_length]
    exact Kind.whole_nil _
  · intro full
    rw [full]
    rfl

theorem Sound.exhausted_parts (h : v.Sound) : v.Cut v.exhausted :=
  ⟨h.partOf_self, h.endView_tailOf⟩

theorem TailOf.size_le (h : u.TailOf v) : u.size ≤ v.size := by
  have start := h.start
  have stop := h.stop
  omega

theorem Sound.consumedHead_eq (h : v.Sound) {rest : View} (hr : rest.TailOf v) :
    v.consumedHead rest = { v with
      size := v.size - rest.size
      bound := if rest.bound = .unbounded then v.bound.openEnd else .fullyBounded } := by
  unfold consumedHead
  rw [if_pos ⟨h.unstray, hr.sound.unstray, hr.size_le⟩]
  rfl

theorem Sound.consumedHead_partOf (h : v.Sound) {rest : View} (hr : rest.TailOf v) :
    (v.consumedHead rest).PartOf v := by
  have inside := h.inside
  have start := hr.start
  have stop := hr.stop
  have le := hr.size_le
  have same : v.bytes.drop (v.size - rest.size) = rest.bytes := by
    rw [← h.bytes_shift (by omega) v.bound]
    simp only [bytes, hr.source]
    congr 1 <;> omega
  have whole : v.kind.Whole (v.bytes.take (v.size - rest.size)) := by
    apply h.whole.take_of_drop
    · rw [h.length_bytes]
      omega
    · rw [same, ← hr.kind]
      exact hr.sound.whole
  rw [h.consumedHead_eq hr]
  split
  · -- An unbounded rest is empty, so the head is all of the view and may stay open.
    rename_i open'
    have empty := hr.sound.settled open'
    have unsettled : v.bound ≠ .fullyBounded := fun full => by
      rw [hr.bound full] at open'
      contradiction
    refine h.partOf_resize (by omega) whole (.inr (by omega)) ?_ (fun full => absurd full unsettled)
    cases hb : v.bound with
    | unbounded =>
      have := h.settled hb
      intro _
      omega
    | startBounded => simp [Bound.openEnd]
    | fullyBounded => exact absurd hb unsettled
  · exact h.partOf_resize (by omega) whole (.inl rfl) (by simp) fun _ => rfl

/-! ## Views of the same range -/

theorem PartOf.intoBound (h : u.PartOf v) : u.intoBound.PartOf v :=
  ⟨h.source, h.start, h.stop, .inl rfl, fun _ => rfl,
    ⟨h.sound.unstray, h.sound.inside, h.sound.backed, h.sound.whole, by simp [View.intoBound]⟩⟩

theorem PartOf.withKind (h : u.PartOf v) {k : Kind} (whole : k.Whole u.bytes) :
    ({ u with kind := k } : View).PartOf v :=
  ⟨h.source, h.start, h.stop, h.closed, h.bound,
    ⟨h.sound.unstray, h.sound.inside, h.sound.backed, whole, h.sound.settled⟩⟩

theorem PartOf.intoBytes (h : u.PartOf v) : u.intoBytes.PartOf v := h.withKind trivial

end Untrusted.View
