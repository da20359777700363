import Mathlib
import Untrusted.Proofs.Reader

/-!
# Where failures come from

A failure keeps the cause it was raised for, whatever scopes it leaves. The cause is one that an
operation found in the view it was asked of, or one of the caller's own.
-/

namespace Untrusted

/-! ## The cause of a failure -/

def Failure.Of (c : Cause) : Failure → Prop
  | .report r => r.cause = c
  | .invalid retry => retry = c.requirement
  | _ => True

namespace Failure

variable {c : Cause} {e : Failure}

theorem of_raise (mode : Mode) (c : Cause) : (mode.raise c).Of c := by
  cases mode <;> simp [Mode.raise, Of, Report.ofCause]

theorem Of.push (h : e.Of c) (f : Frame) : (e.push f).Of c := by
  cases e <;> exact h

theorem Of.widen (h : e.Of c) (v : View) : (e.widen v).Of c := by
  cases e with
  | report r =>
    have kept : (r.widen v).cause = r.cause := by
      unfold Report.widen
      split <;> rfl
    exact kept.trans h
  | _ => exact h

theorem Of.leave (h : e.Of c) (f : Frame) (v : View) : (e.leave f v).Of c := (h.push f).widen v

theorem of_foldl_push (h : e.Of c) (frames : List Frame) :
    (frames.foldl (fun e frame => e.push frame.asChild) e).Of c := by
  induction frames generalizing e with
  | nil => exact h
  | cons f frames ih => exact ih (h.push _)

def Final (e : Failure) : Prop := e.isFatal = true ∧ e.requirement = none

theorem Of.final (h : e.Of c) (fatal : c.isFatal = true) : e.Final := by
  have none : c.requirement = none := by simp [Cause.requirement, fatal]
  cases e with
  | report r =>
    unfold Of at h
    simp [Final, isFatal, requirement, h, fatal, none]
  | invalid retry =>
    unfold Of at h
    simp [Final, isFatal, requirement, h, none]
  | _ => exact ⟨rfl, rfl⟩

end Failure

/-! ## Causes found in a view -/

namespace View

/-- The causes that operations find in a view, each with what it was found by. -/
inductive Raises (v : View) : Cause → Prop where
  | invalid (op : Operation) (expected : String) (span : Span) (retry : Option Retry) :
      Raises v (v.invalidCause op expected span retry)
  | tokens {n : Number} (op : Operation) : v.splitAt? n = none → Raises v (v.lengthCause n op)
  | bytes {n : Number} (op : Operation) : v.extent.lt n = true → Raises v (v.lengthCause n op)
  | first (op : Operation) : v.splitFirst? = none → Raises v (v.lengthCause 1 op)
  | differs {literal : List UInt8} (op : Operation) : v.hasPrefix literal = false →
      Raises v (v.prefixCause literal op)
  /-- Bytes that end inside a char. -/
  | truncated {start expected available : Nat} (op : Operation) :
      Utf8.problem? v.bytes = some (start, .incomplete expected available) →
      Raises v ⟨.length expected none,
        ⟨op, "utf-8 code point", .within v.source (v.position start) v.stop⟩, v⟩
  | empty : v.isEmpty = true →
      Raises v ⟨.length 1 none, ⟨.intoNonEmpty, "non-empty input", v.span⟩, v⟩
  | trailing (rest : View) : Raises v (Read.trailingCause v rest)

theorem Raises.input_eq {v : View} {c : Cause} (h : v.Raises c) : c.input = v := by
  have length (n : Number) (op : Operation) : (v.lengthCause n op).input = v := by
    unfold lengthCause
    split <;> rfl
  cases h with
  | tokens op _ | bytes op _ => exact length _ op
  | first op _ => exact length 1 op
  | _ => rfl

def Fails {α : Type} (own : Cause → Prop) (v : View) (r : Except Failure α) : Prop :=
  ∀ e, r = .error e → ∃ c, e.Of c ∧ (own c ∨ v.Raises c)

variable {α β : Type} {own : Cause → Prop} {v : View}

theorem fails_ok (a : α) : v.Fails own (.ok a) := by
  intro e failed
  contradiction

theorem Fails.map {r : Except Failure α} (h : v.Fails own r) (f : α → β) :
    v.Fails own (r.map f) := by
  intro e failed
  cases r with
  | ok a => contradiction
  | error e' =>
    cases failed
    exact h _ rfl

theorem Raises.fails {c : Cause} (h : v.Raises c) (mode : Mode) :
    v.Fails own (.error (mode.raise c) : Except Failure α) := by
  rintro e ⟨⟩
  exact ⟨c, Failure.of_raise mode c, .inr h⟩

/-! ## Cuts -/

variable (mode : Mode) (op : Operation)

theorem fails_splitAt (n : Number) : v.Fails own (v.splitAt mode n op) := by
  unfold splitAt
  split
  · exact fails_ok _
  · rename_i short
    exact (Raises.tokens op short).fails mode

theorem fails_splitAtByte (n : Number) : v.Fails own (v.splitAtByte mode n op) := by
  unfold splitAtByte
  split
  · rename_i short
    exact (Raises.bytes op short).fails mode
  · split
    · exact fails_ok _
    · exact (Raises.invalid op _ _ _).fails mode

theorem fails_splitFirst : v.Fails own (v.splitFirst mode op) := by
  unfold splitFirst
  split
  · exact fails_ok _
  · rename_i short
    exact (Raises.first op short).fails mode

theorem fails_splitUntil (p : Pattern) : v.Fails own (v.splitUntil mode p op) := by
  unfold splitUntil
  split
  · exact fails_ok _
  · exact (Raises.invalid op _ _ _).fails mode

theorem fails_splitUntilConsume (p : Pattern) : v.Fails own (v.splitUntilConsume mode p op) := by
  unfold splitUntilConsume
  split
  · exact fails_ok _
  · exact (Raises.invalid op _ _ _).fails mode

theorem fails_splitPrefix (literal : List UInt8) :
    v.Fails own (v.splitPrefix mode literal op) := by
  unfold splitPrefix splitPrefix?
  cases found : v.hasPrefix literal with
  | true => exact fails_ok _
  | false => exact (Raises.differs op found).fails mode

def Check.Uses (own : Cause → Prop) (check : Check) : Prop := ∀ t c, check t = .error c → own c

theorem fails_stopped {check : Check} (h : check.Uses own) (t : Nat) (a : α) :
    v.Fails own (check.stopped mode v op t a) := by
  unfold Check.stopped
  split
  · rename_i c found
    rintro e ⟨⟩
    exact ⟨c, (Failure.of_raise mode c).leave _ _, .inl (h t c found)⟩
  · exact fails_ok _

theorem fails_trySplitWhile {check : Check} (h : check.Uses own) :
    v.Fails own (v.trySplitWhile mode check op) := by
  unfold trySplitWhile
  split
  · exact fails_ok _
  · exact fails_stopped mode op h _ _

theorem fails_intoText : v.Fails own (v.intoText mode op) := by
  unfold intoText
  split
  · exact fails_ok _
  · split
    · exact fails_ok _
    · exact (Raises.invalid op _ _ _).fails mode
    · rename_i found
      exact (Raises.truncated op found).fails mode

theorem fails_trySplitStrWhile {check : Check} (h : check.Uses own) :
    v.Fails own (v.trySplitStrWhile mode check op) := by
  unfold trySplitStrWhile
  split
  · exact fails_ok _
  · exact fails_stopped mode op h _ _
  · exact (Raises.invalid op _ _ _).fails mode
  · exact (Raises.invalid op _ _ _).fails mode

theorem fails_intoNonEmpty : v.Fails own (v.intoNonEmpty mode) := by
  unfold intoNonEmpty
  split
  · rename_i empty
    exact (Raises.empty empty).fails mode
  · exact fails_ok _

theorem fails_foreignFailure (f : ForeignFailure) (expected : String) :
    v.Fails own (.error (foreignFailure mode v f expected op) : Except Failure α) := by
  rintro e ⟨⟩
  exact ⟨_, Failure.of_foldl_push (Failure.of_raise mode _) _, .inr (.invalid op _ _ _)⟩

theorem fails_splitForeign (parser : Foreign (α × Number)) (expected : String) :
    v.Fails own (v.splitForeign mode parser expected op) := by
  unfold splitForeign
  split
  · exact fails_foreignFailure mode op _ expected
  · exact (fails_splitAtByte mode op _).map _

theorem fails_intoForeign (parser : Foreign α) (expected : String) :
    v.Fails own (v.intoForeign mode parser expected) := by
  unfold intoForeign
  split
  · exact fails_foreignFailure mode _ _ expected
  · exact fails_ok _

end View

/-! ## Steps that run no program -/

/-- The causes that a step brings along are the caller's own. -/
def Action.Uses (own : Cause → Prop) : Action → Prop
  | .fail c => own c
  | .tryTakeWhile check => check.Uses own
  | .trySkipWhile check => check.Uses own
  | .tryTakeStrWhile check => check.Uses own
  | .trySkipStrWhile check => check.Uses own
  | _ => True

theorem Action.uses_sure (own : Cause → Prop) (accepts : Nat → Bool) :
    (sure accepts).Uses own := by
  intro t c failed
  contradiction

open Read View

theorem Action.run_fails {own : Cause → Prop} {a : Action} (h : a.Uses own) (mode : Mode)
    (last : Value) (v : View) : v.Fails own (a.run mode last v).result := by
  have cut {α : Type} {cut : View → Except Failure (α × View)} (h : v.Fails own (cut v)) :
      v.Fails own (ofCut cut v).result := by
    unfold ofCut
    cases result : cut v with
    | ok parts => exact fails_ok _
    | error e =>
      rintro _ ⟨⟩
      exact h e result
  have parts? (f : View → Option (View × View)) : v.Fails own (ofParts? f v).result := by
    apply cut
    split <;> exact fails_ok _
  have check {f : Nat → Bool} := uses_sure own f
  cases a with
  | peekOpt | peekEq | atEnd | remainingBytes | peekRemaining | peekU8Opt | peekCharOpt | takeWhile
  | skipWhile | takeRemaining => exact fails_ok _
  | takeOpt | skipOpt | takeUntilOpt | takeUntilConsumeOpt | skipUntilOpt | skipUntilConsumeOpt
  | consumeOpt =>
    exact (parts? _).map _
  | peek n => exact (fails_splitAt mode _ _).map _
  | take | skip | takeArray | readNum => exact (cut (fails_splitAt mode _ _)).map _
  | peekU8 | peekChar => exact (fails_splitFirst mode _).map _
  | readU8 | readChar => exact (cut (fails_splitFirst mode _)).map _
  | takeUntil | skipUntil => exact (cut (fails_splitUntil mode _ _)).map _
  | takeUntilConsume | skipUntilConsume => exact (cut (fails_splitUntilConsume mode _ _)).map _
  | consume => exact (cut (fails_splitPrefix mode _ _)).map _
  | takeRemainingStr => exact (cut ((fails_intoText mode _).map _)).map _
  | takeStrWhile | skipStrWhile => exact (cut (fails_trySplitStrWhile mode _ check)).map _
  | tryTakeWhile | trySkipWhile => exact (cut (fails_trySplitWhile mode _ h)).map _
  | tryTakeStrWhile | trySkipStrWhile => exact (cut (fails_trySplitStrWhile mode _ h)).map _
  | tryExpectExternal => exact cut (fails_splitForeign mode _ _ _)
  | fail c =>
    rintro e ⟨⟩
    exact ⟨c, Failure.of_raise mode c, .inl h⟩

end Untrusted
