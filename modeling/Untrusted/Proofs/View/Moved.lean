import Mathlib
import Untrusted.Proofs.Raised
import Untrusted.Proofs.View.Ranges

/-!
# A view and a copy of it

A copy holds the bytes of a view in a buffer of its own. Each range of the copy is one of the view,
a constant number of positions later. Nothing but positions tells the two apart: they are cut at the
same places, for the same reasons, with the same bounds and bytes.
-/

namespace Untrusted

/-! ## Moving positions -/

namespace View

def copy (w : View) (key : Nat) : View := ⟨.ofBytes key w.bytes, 0, w.size, w.bound, w.kind, none⟩

/-- The range of `w` that is `u` in a copy of `w`. -/
def moved (w u : View) : View := { u with source := w.source, offset := w.offset + u.offset }

end View

def Span.moved (w : View) (s : Span) : Span :=
  ⟨w.source.buffer, Number.shift (w.source.start + w.offset) s.start,
    Number.shift (w.source.start + w.offset) s.stop⟩

def RootFrame.moved (w : View) (r : RootFrame) : RootFrame := { r with span := r.span.moved w }

def Cause.moved (w : View) (c : Cause) : Cause :=
  { c with root := c.root.moved w, input := w.moved c.input }

def Report.moved (w : View) (r : Report) : Report :=
  ⟨r.cause.moved w, w.moved r.input, { r.backtrace with root := r.backtrace.root.moved w }⟩

def Failure.moved (w : View) : Failure → Failure
  | .report r => .report (r.moved w)
  | e => e

/-- A result over the range of `w`, with what `f` makes of its value. -/
def movedResult {α β : Type} (w : View) (f : α → β) : Except Failure α → Except Failure β
  | .ok a => .ok (f a)
  | .error e => .error (e.moved w)

theorem movedResult_map {α α' β β' : Type} {w : View} {f : α → α'} {g : β → β'} {h : α → β}
    {h' : α' → β'} {r : Except Failure α} (same : ∀ a, r = .ok a → h' (f a) = g (h a)) :
    (movedResult w f r).map h' = movedResult w g (r.map h) := by
  cases r with
  | ok a => exact congrArg Except.ok (same a rfl)
  | error e => rfl

namespace View

variable {w u v : View} {key : Nat}

/-! ## Ranges of a copy -/

structure Copied (w : View) (key : Nat) (u : View) : Prop where
  sound : u.Sound
  source : u.source = .ofBytes key w.bytes

theorem bytes_copy (w : View) (key : Nat) (hw : w.Sound) : (w.copy key).bytes = w.bytes := by
  have all := hw.length_bytes
  simp only [bytes, copy, Source.slice_eq, Source.bytes_ofBytes, List.drop_zero] at all ⊢
  exact List.take_of_length_le all.le

theorem Sound.copied (hw : w.Sound) (key : Nat) : w.Copied key (w.copy key) := by
  refine ⟨⟨rfl, ?_, ?_, ?_, hw.settled⟩, rfl⟩
  · simp [copy, Source.ofBytes, hw.length_bytes]
  · simp [copy, Source.ofBytes]
  · rw [bytes_copy w key hw]
    exact hw.whole

theorem Copied.of_partOf (hu : w.Copied key u) (h : v.PartOf u) : w.Copied key v :=
  ⟨h.sound, h.source.trans hu.source⟩

theorem Copied.of_tailOf (hu : w.Copied key u) (h : v.TailOf u) : w.Copied key v :=
  hu.of_partOf h.partOf

section

variable (hw : w.Sound) (hu : w.Copied key u)

include hw hu

theorem Copied.inside : u.offset + u.size ≤ w.size := by
  have inside := hu.sound.inside
  rwa [hu.source, Source.ofBytes, hw.length_bytes] at inside

theorem Copied.bytes_moved : (w.moved u).bytes = u.bytes := by
  have inner := slice_inner (hu.inside hw)
  simp only [bytes, moved]
  rw [inner, hu.source, Source.slice_eq, Source.bytes_ofBytes]

theorem Copied.sound_moved : (w.moved u).Sound := by
  have inside := hu.inside hw
  have room := hw.inside
  refine ⟨hu.sound.unstray, ?_, hw.backed, ?_, hu.sound.settled⟩
  · simp only [moved]
    omega
  · rw [hu.bytes_moved hw]
    exact hu.sound.whole

omit hw in
theorem Copied.range_moved (i j : Nat) : (w.moved u).range i j = (u.range i j).moved w := by
  simp only [range, Span.moved, Number.shift_ofNat, moved, hu.source, Source.ofBytes]
  congr 2 <;> omega

theorem Copied.span_moved : (w.moved u).span = u.span.moved w := by
  rw [(hu.sound_moved hw).span_eq, hu.sound.span_eq, ← hu.range_moved]
  rfl

end

theorem PartOf.moved (hw : w.Sound) (hu : w.Copied key u) (h : v.PartOf u) :
    (w.moved v).PartOf (w.moved u) := by
  have start := h.start
  have stop := h.stop
  refine ⟨rfl, ?_, ?_, ?_, h.bound, (hu.of_partOf h).sound_moved hw⟩
  · simp only [View.moved]
    omega
  · simp only [View.moved]
    omega
  · refine h.closed.imp_right fun same => ?_
    simp only [View.moved]
    omega

theorem TailOf.moved (hw : w.Sound) (hu : w.Copied key u) (h : v.TailOf u) :
    (w.moved v).TailOf (w.moved u) := by
  have start := h.start
  have stop := h.stop
  refine ⟨rfl, h.kind, ?_, ?_, h.bound, (hu.of_tailOf h).sound_moved hw⟩
  · simp only [View.moved]
    omega
  · simp only [View.moved]
    omega

/-! ## The same cuts -/

def movedParts (w : View) : View × View → View × View := Prod.map w.moved w.moved

section

variable (hw : w.Sound) (hu : w.Copied key u)

include hw hu

theorem Copied.cut_moved (i : Nat) : (w.moved u).cut i = w.movedParts (u.cut i) := by
  rw [(hu.sound_moved hw).cut_eq, hu.sound.cut_eq]
  simp [moved, movedParts, Nat.add_assoc]

theorem Copied.endView_moved : (w.moved u).endView = w.moved u.endView := by
  rw [(hu.sound_moved hw).endView_eq, hu.sound.endView_eq]
  simp [moved, Nat.add_assoc]

theorem Copied.consumedHead_moved {rest : View} (hr : rest.TailOf u) :
    (w.moved u).consumedHead (w.moved rest) = w.moved (u.consumedHead rest) := by
  rw [(hu.sound_moved hw).consumedHead_eq (hr.moved hw hu), hu.sound.consumedHead_eq hr]
  rfl

theorem Copied.ahead_moved (count : Nat) : (w.moved u).ahead count = u.ahead count := by
  rw [ahead_eq, ahead_eq, hu.bytes_moved hw]

theorem Copied.isBoundary_moved (i : Nat) : (w.moved u).isBoundary i = u.isBoundary i := by
  rw [Bool.eq_iff_iff, (hu.sound_moved hw).isBoundary_iff, hu.sound.isBoundary_iff,
    hu.bytes_moved hw]
  rfl

theorem Copied.byteIndex?_moved (index : Nat) :
    (w.moved u).byteIndex? index = u.byteIndex? index := by
  have unstray := hu.sound.unstray
  simp only [byteIndex?, hu.ahead_moved hw]
  simp only [moved, extent, unstray]
  cases u.kind <;> rfl

theorem Copied.firstEntry?_moved : firstEntry? (w.moved u) = firstEntry? u := by
  have unstray := hu.sound.unstray
  simp only [ firstEntry?, hu.ahead_moved hw]
  simp only [moved, unstray]

theorem Copied.firstWhere?_moved (stops : Nat → Bool) :
    (w.moved u).firstWhere? stops = u.firstWhere? stops := by
  have unstray := hu.sound.unstray
  simp only [firstWhere?, hu.bytes_moved hw]
  simp only [moved, unstray]
  cases u.kind <;> rfl

theorem Copied.splitAt?_moved (n : Number) :
    (w.moved u).splitAt? n = (u.splitAt? n).map w.movedParts := by
  have index : (w.moved u).byteIndex? = u.byteIndex? := funext (hu.byteIndex?_moved hw)
  have cut : (w.moved u).cut = w.movedParts ∘ u.cut := funext (hu.cut_moved hw)
  rw [splitAt?, splitAt?, index, cut, Option.map_map]

theorem Copied.splitFirst?_moved :
    (w.moved u).splitFirst? = u.splitFirst?.map fun (t, tail) => (t, w.moved tail) := by
  unfold splitFirst?
  rw [hu.firstEntry?_moved hw]
  change (if Number.lt 0 u.extent = true then _ else _) = _
  split
  · cases u.firstEntry? with
    | none => rfl
    | some entry => simp [hu.cut_moved hw, movedParts]
  · rfl

theorem Copied.splitWhile_moved {p : Pattern} (hp : p.Respects u.kind) :
    (w.moved u).splitWhile p = w.movedParts (u.splitWhile p) := by
  unfold splitWhile
  rw [hu.bytes_moved hw]
  cases rejects : p.reject? u.bytes with
  | none => exact congrArg (Prod.mk (w.moved u)) (hu.endView_moved hw)
  | some n =>
    obtain ⟨i, rfl, boundary⟩ := hp _ _ hu.sound.whole rejects
    have here : u.isBoundary i = true := (hu.sound.isBoundary_iff i).2 boundary
    simp only [Number.toNat?_ofNat, hu.isBoundary_moved hw, here, if_true]
    exact hu.cut_moved hw i

theorem Copied.locate?_moved (p : Pattern) : (w.moved u).locate? p = u.locate? p := by
  unfold locate?
  simp only [hu.bytes_moved hw, hu.isBoundary_moved hw]

theorem Copied.splitUntil?_moved (p : Pattern) :
    (w.moved u).splitUntil? p = (u.splitUntil? p).map w.movedParts := by
  unfold splitUntil?
  rw [hu.locate?_moved hw, Option.map_map]
  congr 1
  funext place
  exact hu.cut_moved hw place.1

theorem Copied.splitUntilConsume?_moved (p : Pattern) :
    (w.moved u).splitUntilConsume? p = (u.splitUntilConsume? p).map w.movedParts := by
  unfold splitUntilConsume?
  rw [hu.locate?_moved hw, Option.map_map]
  congr 1
  funext place
  simp [hu.cut_moved hw, movedParts]

theorem Copied.splitPrefix?_moved (literal : List UInt8) :
    (w.moved u).splitPrefix? literal = (u.splitPrefix? literal).map w.movedParts := by
  unfold splitPrefix? hasPrefix
  rw [hu.bytes_moved hw]
  split
  · rw [Option.map_some, hu.cut_moved hw]
  · rfl

end

/-! ## The same causes -/

section

variable {c : Cause}

theorem Located.isFatal_moved (h : u.Located c) (hw : w.Sound) (hu : w.Copied key u) :
    (c.moved w).isFatal = c.isFatal := by
  obtain ⟨rfl, i, j, hij, hj, span⟩ := h
  have found : c.span.bytesOf? c.input.window = some ((c.input.bytes.drop i).take (j - i)) := by
    rw [span, hu.sound.bytesOf?_range hij hj]
  have found' : (c.moved w).span.bytesOf? (c.moved w).input.window =
      some ((c.input.bytes.drop i).take (j - i)) := by
    change (c.span.moved w).bytesOf? (w.moved c.input).window = _
    rw [span, ← hu.range_moved, (hu.sound_moved hw).bytesOf?_range hij hj, hu.bytes_moved hw]
  have becomes : (c.moved w).mayBecome = c.mayBecome := by
    funext expected
    simp only [Cause.mayBecome, found, found']
  unfold Cause.isFatal
  rw [becomes]
  rfl

theorem Located.length_moved (h : u.Located c) (hu : w.Copied key u) :
    (c.moved w).span.length = c.span.length := by
  obtain ⟨rfl, i, j, hij, hj, span⟩ := h
  change (c.span.moved w).length = _
  rw [span, ← hu.range_moved, length_range hij, length_range hij]

theorem Located.requirement_moved (h : u.Located c) (hw : w.Sound) (hu : w.Copied key u) :
    (c.moved w).requirement = c.requirement := by
  unfold Cause.requirement
  rw [h.isFatal_moved hw hu, h.length_moved hu]
  rfl

theorem Located.description_moved (h : u.Located c) (hw : w.Sound) (hu : w.Copied key u) :
    (c.moved w).description = c.description := by
  unfold Cause.description
  rw [h.isFatal_moved hw hu, h.length_moved hu]
  rfl

theorem Located.raise_moved (h : u.Located c) (hw : w.Sound) (hu : w.Copied key u) (mode : Mode) :
    mode.raise (c.moved w) = (mode.raise c).moved w := by
  cases mode with
  | root | full | fatal => rfl
  | invalid => exact congrArg Failure.invalid (h.requirement_moved hw hu)
  | note =>
    refine congrArg Failure.note ?_
    unfold Failure.noteOf
    rw [h.description_moved hw hu]
    rfl
  | infallible => exact congrArg Failure.broken (h.description_moved hw hu)

end

section

variable (hw : w.Sound) (hu : w.Copied key u)

include hw hu

theorem Copied.within_moved {i j : Nat} (hij : i ≤ j) (hj : j ≤ u.size) :
    Span.within (w.moved u).source ((w.moved u).position i) ((w.moved u).position j) =
      (Span.within u.source (u.position i) (u.position j)).moved w := by
  rw [(hu.sound_moved hw).within_eq hij hj, hu.sound.within_eq hij hj, hu.range_moved]

theorem Copied.lengthCause_moved (n : Number) (op : Operation) :
    (w.moved u).lengthCause n op = (u.lengthCause n op).moved w := by
  have start := hu.within_moved hw (Nat.le_refl 0) (Nat.zero_le _)
  rw [← hu.sound.start_eq_position, ← (hu.sound_moved hw).start_eq_position] at start
  unfold lengthCause
  split
  · rw [start]
    rfl
  · rw [hu.span_moved hw]
    rfl

theorem Copied.untilCause_moved (op : Operation) :
    (w.moved u).untilCause op = (u.untilCause op).moved w := by
  rw [untilCause, untilCause, hu.span_moved hw]
  rfl

theorem Copied.prefixCause_moved (literal : List UInt8) (op : Operation) :
    (w.moved u).prefixCause literal op = (u.prefixCause literal op).moved w := by
  have most : Number.least literal.length u.extent = Number.ofNat (min literal.length u.size) := by
    rw [hu.sound.extent_eq, ← Number.least_ofNat]
  have found := hu.within_moved hw (Nat.zero_le _) (Nat.min_le_right literal.length u.size)
  rw [← hu.sound.start_eq_position, ← (hu.sound_moved hw).start_eq_position, ← most] at found
  unfold prefixCause
  change (⟨_, ⟨_, _, Span.within _ _ ((w.moved u).position (Number.least _ u.extent))⟩,
    _⟩ : Cause) = _
  rw [found]
  rfl

theorem Copied.codePointCause_moved {start length : Nat} (le : start + length ≤ u.size)
    (op : Operation) (retry : Option Retry) :
    (w.moved u).codePointCause op start length retry =
      (u.codePointCause op start length retry).moved w := by
  unfold codePointCause
  rw [hu.within_moved hw (Nat.le_add_right _ _) le]
  rfl

/-! ## The same failures -/

variable (mode : Mode) (op : Operation)

theorem Located.error_moved {α β : Type} {c : Cause} (h : u.Located c) (f : α → β) :
    (.error (mode.raise (c.moved w)) : Except Failure β) =
      movedResult w f (.error (mode.raise c)) := by
  rw [h.raise_moved hw hu]
  rfl

theorem Copied.splitAt_moved (n : Number) :
    (w.moved u).splitAt mode n op = movedResult w w.movedParts (u.splitAt mode n op) := by
  unfold splitAt
  rw [hu.splitAt?_moved hw, hu.lengthCause_moved hw]
  cases u.splitAt? n with
  | some parts => rfl
  | none => exact (hu.sound.located_lengthCause n op).error_moved hw hu mode _

theorem Copied.splitFirst_moved :
    (w.moved u).splitFirst mode op =
      movedResult w (fun (t, tail) => (t, w.moved tail)) (u.splitFirst mode op) := by
  unfold splitFirst
  rw [hu.splitFirst?_moved hw, hu.lengthCause_moved hw]
  cases u.splitFirst? with
  | some first => rfl
  | none => exact (hu.sound.located_lengthCause 1 op).error_moved hw hu mode _

theorem Copied.splitUntil_moved (p : Pattern) :
    (w.moved u).splitUntil mode p op = movedResult w w.movedParts (u.splitUntil mode p op) := by
  unfold splitUntil
  rw [hu.splitUntil?_moved hw, hu.untilCause_moved hw]
  cases u.splitUntil? p with
  | some parts => rfl
  | none => exact (hu.sound.located_untilCause op).error_moved hw hu mode _

theorem Copied.splitUntilConsume_moved (p : Pattern) :
    (w.moved u).splitUntilConsume mode p op =
      movedResult w w.movedParts (u.splitUntilConsume mode p op) := by
  unfold splitUntilConsume
  rw [hu.splitUntilConsume?_moved hw, hu.untilCause_moved hw]
  cases u.splitUntilConsume? p with
  | some parts => rfl
  | none => exact (hu.sound.located_untilCause op).error_moved hw hu mode _

theorem Copied.splitPrefix_moved (literal : List UInt8) :
    (w.moved u).splitPrefix mode literal op =
      movedResult w w.movedParts (u.splitPrefix mode literal op) := by
  unfold splitPrefix
  rw [hu.splitPrefix?_moved hw, hu.prefixCause_moved hw]
  cases u.splitPrefix? literal with
  | some parts => rfl
  | none => exact (hu.sound.located_prefixCause literal op).error_moved hw hu mode _

theorem Copied.splitAtByte_moved (n : Nat) :
    (w.moved u).splitAtByte mode n op = movedResult w w.movedParts (u.splitAtByte mode n op) := by
  have tests : (w.moved u).isBoundary = u.isBoundary := funext (hu.isBoundary_moved hw)
  unfold splitAtByte
  rw [tests, hu.lengthCause_moved hw]
  change (if u.extent.lt n = true then _ else _) = _
  rw [hu.sound.extent_eq, Number.lt_ofNat]
  split
  · exact (hu.sound.located_lengthCause _ op).error_moved hw hu mode _
  · rename_i inside
    have le : n ≤ u.size := by simpa using inside
    cases (Number.toNat? n).filter u.isBoundary with
    | some i => exact congrArg Except.ok (hu.cut_moved hw i)
    | none =>
      have place : ∃ i j, i ≤ j ∧ j ≤ u.size ∧
          Span.within u.source (u.position n) (u.position n) = u.range i j :=
        ⟨n, n, le_rfl, le, hu.sound.within_eq le_rfl le⟩
      have located := located_invalidCause op "char index" none place
      simp only [hu.within_moved hw le_rfl le]
      exact located.error_moved hw hu mode _

omit hw hu in
theorem stopped_moved {α β : Type} {check : Check} (sure : check.Uses fun _ => False) (t : Nat)
    (f : α → β) (parts : α) :
    check.stopped mode (w.moved u) op t (f parts) =
      movedResult w f (check.stopped mode u op t parts) := by
  unfold Check.stopped
  cases answer : check t with
  | ok _ => rfl
  | error c => exact (sure t c answer).elim

theorem Copied.trySplitWhile_moved {check : Check} (sure : check.Uses fun _ => False) :
    (w.moved u).trySplitWhile mode check op =
      movedResult w w.movedParts (u.trySplitWhile mode check op) := by
  unfold trySplitWhile
  rw [hu.firstWhere?_moved hw]
  cases u.firstWhere? fun t => !check.passes t with
  | none => exact congrArg (fun v => Except.ok (w.moved u, v)) (hu.endView_moved hw)
  | some found =>
    simp only [hu.cut_moved hw]
    exact stopped_moved mode op sure _ _ _

theorem Copied.intoText_moved :
    (w.moved u).intoText mode op = movedResult w w.moved (u.intoText mode op) := by
  unfold intoText
  rw [hu.bytes_moved hw, show (w.moved u).kind = u.kind from rfl]
  cases u.kind with
  | text => rfl
  | bytes =>
    simp only
    cases found : Utf8.problem? u.bytes with
    | none => rfl
    | some problem =>
      obtain ⟨start, fault⟩ := problem
      cases fault with
      | invalid length =>
        have le := Utf8.invalid_bounds (Utf8.problem?_eq_some_iff.1 found)
        rw [hu.sound.length_bytes] at le
        simp only [hu.codePointCause_moved hw le]
        exact (hu.sound.located_codePointCause le op none).error_moved hw hu mode _
      | incomplete expected available =>
        have bounds := Utf8.incomplete_bounds (Utf8.problem?_eq_some_iff.1 found)
        rw [hu.sound.length_bytes] at bounds
        have le : start ≤ u.size := by omega
        have place := hu.within_moved hw le (Nat.le_refl _)
        have stop : (w.moved u).stop = (w.moved u).position u.size :=
          (hu.sound_moved hw).stop_eq_position
        rw [← stop, ← hu.sound.stop_eq_position] at place
        simp only [place]
        exact (hu.sound.located_truncated le expected op).error_moved hw hu mode _

theorem Copied.trySplitStrWhile_moved {check : Check} (sure : check.Uses fun _ => False) :
    (w.moved u).trySplitStrWhile mode check op =
      movedResult w w.movedParts (u.trySplitStrWhile mode check op) := by
  unfold trySplitStrWhile
  rw [hu.bytes_moved hw]
  cases scanned : Utf8.scanTo (fun c => !check.passes c.toNat) 0 u.bytes with
  | mk i found =>
    rcases found with _ | fault | ⟨c, n⟩
    · exact congrArg (fun v => Except.ok (({ w.moved u with kind := .text } : View), v))
        (hu.endView_moved hw)
    · cases fault with
      | invalid length =>
        have le := Utf8.invalid_bounds scanned
        rw [hu.sound.length_bytes] at le
        simp only [hu.codePointCause_moved hw le]
        exact (hu.sound.located_codePointCause le op none).error_moved hw hu mode _
      | incomplete expected available =>
        have bounds := Utf8.incomplete_bounds scanned
        rw [hu.sound.length_bytes] at bounds
        have le : i + available ≤ u.size := by omega
        simp only [hu.codePointCause_moved hw le]
        exact (hu.sound.located_codePointCause le op _).error_moved hw hu mode _
    · simp only [hu.cut_moved hw]
      exact stopped_moved mode op sure c.toNat w.movedParts
        ({ (u.cut i).1 with kind := .text }, (u.cut i).2)

end

end View
end Untrusted
