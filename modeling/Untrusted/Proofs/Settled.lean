import Mathlib
import Untrusted.Proofs.Keeps
import Untrusted.Proofs.Raised
import Untrusted.Proofs.View.Settled

/-!
# Programs over settled views

Every view that a program comes by from a settled one is settled, and the cause of each of its
failures was found in a settled view unless it is one of the caller's own.
-/

namespace Untrusted

/-! ## Values -/

namespace Value

variable {given : View → Prop}

def Settled (given : View → Prop) (a : Value) : Prop := ∀ u, a.Holds u → u.Settled ∨ given u

@[simp]
theorem settled_absent : absent.Settled given := by rintro u ⟨⟩

@[simp]
theorem settled_bool (b : Bool) : (bool b).Settled given := by rintro u ⟨⟩

@[simp]
theorem settled_number (n : Number) : (number n).Settled given := by rintro u ⟨⟩

@[simp]
theorem settled_text (s : String) : (text s).Settled given := by rintro u ⟨⟩

@[simp]
theorem settled_array (bytes : List UInt8) : (array bytes).Settled given := by rintro u ⟨⟩

@[simp]
theorem settled_span (s : Span) : (span s).Settled given := by rintro u ⟨⟩

theorem settled_view {u : View} (h : u.Settled) : (view u).Settled given := by
  rintro _ ⟨⟩
  exact .inl h

@[simp]
theorem settled_list {values : List Value} :
    (list values).Settled given ↔ ∀ a ∈ values, a.Settled given := by
  constructor
  · intro h a ha u hu
    exact h u (.item ha hu)
  · rintro h u (_ | ⟨ha, hu⟩)
    exact h _ ha u hu

theorem settled_pair {a b : Value} (ha : a.Settled given) (hb : b.Settled given) :
    (list [a, b]).Settled given := by
  simpa using ⟨ha, hb⟩

@[simp]
theorem settled_ofToken (t : Token) : (ofToken t).Settled given := by
  cases t with
  | byte b => exact settled_number _
  | char c => exact settled_text _

theorem settled_ofReading (r : Reading) : (ofReading r).Settled given := by
  cases r with
  | int i => exact settled_number _
  | wide i => rintro u ⟨⟩
  | float bits => rintro u ⟨⟩

theorem settled_ofOption {α : Type} {f : α → Value} {o : Option α}
    (h : ∀ a, o = some a → (f a).Settled given) : (ofOption f o).Settled given := by
  cases o with
  | none => exact settled_absent
  | some a => exact h a rfl

theorem settled_orAbsent {r : Except Failure Value} (h : ∀ a, r = .ok a → a.Settled given) :
    (orAbsent r).Settled given := by
  cases r with
  | ok a => exact h a rfl
  | error _ => exact settled_absent

end Value

/-! ## Reads -/

/-- Its cause was found in a settled view or is the caller's own. -/
def Failure.Settled (own : Cause → Prop) (e : Failure) : Prop :=
  ∃ c, e.Of c ∧ (own c ∨ c.input.Settled)

/-- Where it started and ended is settled, and so is what came of it. -/
structure Step.Settled (own : Cause → Prop) (given : View → Prop) (s : Step) : Prop where
  before : s.before.Settled
  after : s.after.Settled
  value : ∀ a, s.result = .ok a → a.Settled given
  failure : ∀ e, s.result = .error e → e.Settled own

structure Outcome.Settled {α : Type} (own : Cause → Prop) (given : View → Prop) (good : α → Prop)
    (o : Outcome α) : Prop where
  value : ∀ a, o.result = .ok a → good a
  failure : ∀ e, o.result = .error e → e.Settled own
  rest : o.rest.Settled
  steps : ∀ s ∈ Event.steps o.events, s.Settled own given

def Read.Settles {α : Type} (own : Cause → Prop) (given : View → Prop) (good : α → Prop)
    (p : Read α) : Prop :=
  ∀ v, v.Settled → (p v).Settled own given good

variable {own : Cause → Prop} {given : View → Prop}

theorem Failure.Settled.leave {e : Failure} (h : e.Settled own) (f : Frame) (v : View) :
    (e.leave f v).Settled own := by
  obtain ⟨c, of, found⟩ := h
  exact ⟨c, of.leave f v, found⟩

theorem Failure.settled_raise {c : Cause} (h : c.input.Settled) (mode : Mode) :
    (mode.raise c).Settled own :=
  ⟨c, of_raise mode c, .inr h⟩

theorem View.Fails.settled {α : Type} {v : View} {r : Except Failure α} (h : v.Fails own r)
    (hv : v.Settled) : ∀ e, r = .error e → e.Settled own := by
  intro e failed
  obtain ⟨c, of, brought | found⟩ := h e failed
  · exact ⟨c, of, .inl brought⟩
  · exact ⟨c, of, .inr (by rw [found.input_eq]; exact hv)⟩

section

variable {α β : Type} {good : α → Prop} {good' : β → Prop} {o : Outcome α}

theorem Outcome.Settled.withResult (h : o.Settled own given good) {r : Except Failure β}
    (value : ∀ b, r = .ok b → good' b) (failure : ∀ e, r = .error e → e.Settled own) :
    ({ o with result := r } : Outcome β).Settled own given good' :=
  ⟨value, failure, h.rest, h.steps⟩

theorem Outcome.Settled.withRest (h : o.Settled own given good) {rest : View}
    (hrest : rest.Settled) : { o with rest }.Settled own given good :=
  ⟨h.value, h.failure, hrest, h.steps⟩

theorem Outcome.Settled.restoring (h : o.Settled own given good) {v : View} (hv : v.Settled) :
    (o.restoring v).Settled own given good := by
  unfold Outcome.restoring
  split
  · exact h
  · exact h.withRest hv

theorem Outcome.Settled.withLines (h : o.Settled own given good) {events : List Event}
    (none : Event.steps events = []) :
    { o with events := o.events ++ events }.Settled own given good := by
  refine ⟨h.value, h.failure, h.rest, ?_⟩
  simp only [Event.steps_append, none, List.append_nil]
  exact h.steps

theorem Outcome.Settled.map (h : o.Settled own given good) {f : α → β}
    (hf : ∀ a, good a → good' (f a)) : (o.map f).Settled own given good' := by
  unfold Outcome.map
  cases result : o.result with
  | ok a =>
    refine h.withResult ?_ (by simp [Except.map])
    rintro _ ⟨⟩
    exact hf a (h.value a result)
  | error e =>
    refine h.withResult (by simp [Except.map]) ?_
    rintro _ ⟨⟩
    exact h.failure e result

end

namespace Read

variable {α β : Type} {good : α → Prop} {good' : β → Prop} {p : Read α}

theorem settles_map (h : p.Settles own given good) {f : α → β} (hf : ∀ a, good a → good' (f a)) :
    (map f p).Settles own given good' := by
  intro v hv
  exact (h v hv).map hf

theorem settles_ofCut {cut : View → Except Failure (α × View)}
    (h : ∀ v, v.Settled → ∀ parts, cut v = .ok parts → good parts.1 ∧ parts.2.Settled)
    (fails : ∀ v : View, v.Fails own (cut v)) : (ofCut cut).Settles own given good := by
  intro v hv
  unfold ofCut
  split
  · rename_i a rest done
    obtain ⟨ha, hrest⟩ := h v hv _ done
    refine ⟨?_, by simp, hrest, by simp⟩
    rintro _ ⟨⟩
    exact ha
  · rename_i e failed
    refine ⟨by simp, ?_, hv, by simp⟩
    rintro _ ⟨⟩
    exact (fails v).settled hv e failed

theorem settles_ofCut_parts {cut : View → Except Failure (View × View)}
    (h : ∀ v : View, v.Settled → ∀ parts, cut v = .ok parts → View.Parted parts)
    (fails : ∀ v : View, v.Fails own (cut v)) : (ofCut cut).Settles own given View.Settled :=
  settles_ofCut h fails

theorem settles_ofParts {cut : View → View × View}
    (h : ∀ v : View, v.Settled → View.Parted (cut v)) :
    (ofParts cut).Settles own given View.Settled := by
  refine settles_ofCut_parts (fun v hv parts done => ?_) fun v => View.fails_ok _
  cases done
  exact h v hv

theorem settles_ofParts? {cut : View → Option (View × View)}
    (h : ∀ v : View, v.Settled → ∀ parts, cut v = some parts → View.Parted parts) :
    (ofParts? cut).Settles own given fun head => ∀ u, head = some u → u.Settled := by
  refine settles_ofCut (fun v hv parts done => ?_) fun v => ?_
  · split at done
    · rename_i head rest found
      cases done
      have parted := h v hv _ found
      refine ⟨?_, parted.2⟩
      rintro u ⟨⟩
      exact parted.1
    · cases done
      exact ⟨by simp, hv⟩
  · split <;> exact View.fails_ok _

theorem settles_look {f : View → Except Failure α}
    (h : ∀ v, v.Settled → ∀ a, f v = .ok a → good a) (fails : ∀ v : View, v.Fails own (f v)) :
    (look f).Settles own given good := by
  intro v hv
  exact ⟨h v hv, (fails v).settled hv, hv, by simp [look]⟩

/-! ### Sequences -/

theorem settles_pure {a : α} (h : good a) : (pure a).Settles own given good := by
  intro v hv
  refine ⟨?_, by simp [pure], hv, by simp [pure]⟩
  rintro _ ⟨⟩
  exact h

theorem settles_andThen {next : α → Read β} (h : p.Settles own given good)
    (hnext : ∀ a, good a → (next a).Settles own given good') :
    (andThen p next).Settles own given good' := by
  intro v hv
  have first := h v hv
  cases result : (p v).result with
  | error e =>
    rw [andThen_error result]
    refine first.withResult (by simp) ?_
    rintro _ ⟨⟩
    exact first.failure e result
  | ok a =>
    have second := hnext a (first.value a result) (p v).rest first.rest
    rw [andThen_ok result]
    refine ⟨second.value, second.failure, second.rest, fun s hs => ?_⟩
    rw [Event.steps_append, List.mem_append] at hs
    rcases hs with earlier | later
    · exact first.steps s earlier
    · exact second.steps s later

theorem settles_unfailing {p : Read Value} (h : p.Settles own given (Value.Settled given)) :
    (unfailing p).Settles own given (Value.Settled given) := by
  intro v hv
  have inner := h v hv
  refine inner.withResult ?_ (by simp)
  rintro _ ⟨⟩
  exact Value.settled_orAbsent inner.value

theorem settles_recorded {p : Read Value} (h : p.Settles own given (Value.Settled given))
    (depth : Nat) (name : String) :
    (recorded depth name p).Settles own given (Value.Settled given) := by
  intro v hv
  have inner := h v hv
  refine ⟨inner.value, inner.failure, inner.rest, fun s hs => ?_⟩
  unfold recorded at hs
  rw [Event.steps_append, Event.steps_step, List.mem_append, List.mem_singleton] at hs
  rcases hs with earlier | rfl
  · exact inner.steps s earlier
  · exact ⟨hv, inner.rest, inner.value, inner.failure⟩

/-! ### Scopes -/

theorem settles_context (h : p.Settles own given good) (f : Frame) :
    (context f p).Settles own given good := by
  intro v hv
  have inner := h v hv
  refine inner.withResult (fun a same => ?_) fun e same => ?_
  all_goals unfold scope at same
  · split at same
    · rename_i result
      cases same
      exact inner.value _ result
    · contradiction
  · split at same
    · contradiction
    · rename_i result
      cases same
      exact (inner.failure _ result).leave f v

theorem settles_peekContext (h : p.Settles own given good) (f : Frame) :
    (peekContext f p).Settles own given good := by
  intro v hv
  exact (settles_context h f v hv).withRest hv

theorem settled_consumed {o : Outcome α} (h : o.Settled own given good) (v : View) :
    (v.consumedHead o.rest).Settled :=
  v.consumedHead_settled (by rw [h.rest]; simp)

theorem settles_takeConsumed {p : Read Value} (h : p.Settles own given (Value.Settled given)) :
    (takeConsumed p).Settles own given fun found =>
      (Value.orAbsent found.1).Settled given ∧ found.2.Settled := by
  intro v hv
  have inner := h v hv
  refine inner.withResult ?_ (by simp)
  rintro _ ⟨⟩
  exact ⟨Value.settled_orAbsent inner.value, settled_consumed inner v⟩

theorem settles_tryTakeConsumed (h : p.Settles own given good) :
    (tryTakeConsumed p).Settles own given fun found => good found.1 ∧ found.2.Settled := by
  intro v hv
  have inner := h v hv
  exact (inner.map fun a ha => ⟨ha, settled_consumed inner v⟩).restoring hv

theorem settles_recover (h : p.Settles own given good) :
    (recover p).Settles own given fun found => ∀ a, found = some a → good a := by
  intro v hv
  have inner := h v hv
  cases result : (p v).result with
  | ok a =>
    rw [recover_ok result]
    refine inner.withResult ?_ (by simp)
    rintro _ ⟨⟩ _ ⟨⟩
    exact inner.value a result
  | error _ =>
    rw [recover_error result]
    refine (inner.withResult ?_ (by simp)).withRest hv
    rintro _ ⟨⟩ _ ⟨⟩

theorem settles_recoverIf (h : p.Settles own given good) (accepts : Failure → Bool) :
    (recoverIf accepts p).Settles own given fun found => ∀ a, found = some a → good a := by
  intro v hv
  have inner := h v hv
  cases result : (p v).result with
  | ok a =>
    rw [recoverIf_ok result]
    refine inner.withResult ?_ (by simp)
    rintro _ ⟨⟩ _ ⟨⟩
    exact inner.value a result
  | error e =>
    cases accepted : accepts e with
    | true =>
      rw [recoverIf_accepted result accepted]
      refine (inner.withResult ?_ (by simp)).withRest hv
      rintro _ ⟨⟩ _ ⟨⟩
    | false =>
      rw [recoverIf_refused result accepted]
      refine (inner.withResult (by simp) ?_).withRest hv
      rintro _ ⟨⟩
      exact (inner.failure e result).leave _ v

theorem settles_errorScope (h : p.Settles own given good) :
    (errorScope p).Settles own given good := by
  intro v hv
  exact (h v hv).restoring hv

theorem settles_expect {p : Read (Option α)}
    (h : p.Settles own given fun found => ∀ a, found = some a → good a) (mode : Mode)
    (expected : String) (op : Operation) : (expect mode expected op p).Settles own given good := by
  intro v hv
  have inner := h v hv
  refine (inner.withResult (fun a same => ?_) fun e same => ?_).restoring hv
  · split at same
    · contradiction
    · rename_i result
      cases same
      exact inner.value _ result _ rfl
    · contradiction
  · split at same
    · rename_i result
      cases same
      exact inner.failure e result
    · contradiction
    · cases same
      exact Failure.settled_raise hv mode

theorem settles_expectErased (h : p.Settles own given good) (mode : Mode) (expected : String)
    (op : Operation) : (expectErased mode expected op p).Settles own given good := by
  intro v hv
  have inner := h v hv
  refine (inner.withResult (fun a same => ?_) fun e same => ?_).restoring hv
  · split at same
    · rename_i result
      cases same
      exact inner.value _ result
    · contradiction
  · split at same
    · contradiction
    · cases same
      exact Failure.settled_raise hv mode

/-! ### Entry points -/

theorem settles_readAll (h : p.Settles own given good) (mode : Mode) (debug : Bool) :
    (readAll mode debug p).Settles own given good := by
  intro v hv
  have inner := settles_context h (.ofOperation .readAll) v hv
  refine (inner.withResult (fun a same => ?_) fun e same => ?_).withLines
    (steps_failureLines _ _ _)
  · split at same
    · contradiction
    · rename_i result
      split at same
      · cases same
        exact inner.value _ result
      · contradiction
  · split at same
    · rename_i result
      cases same
      exact inner.failure e result
    · split at same
      · contradiction
      · cases same
        exact Failure.settled_raise hv mode

theorem settles_readPartial (h : p.Settles own given good) (debug : Bool) :
    (readPartial debug p).Settles own given fun found => good found.1 ∧ found.2.Settled := by
  intro v hv
  have inner := settles_context h (.ofOperation .readPartial) v hv
  exact (inner.map fun a ha => ⟨ha, inner.rest⟩).withLines (steps_failureLines _ _ _)

end Read

/-! ## Steps -/

open Read View

def Foreign.Yields (given : View → Prop) (parser : Foreign (Value × Number)) : Prop :=
  ∀ v a n, v.Settled → parser v = .ok (a, n) → a.Settled given

def Action.Yields (given : View → Prop) : Action → Prop
  | .tryExpectExternal _ parser => parser.Yields given
  | _ => True

theorem Action.run_settles {a : Action} (uses : a.Uses own) (yields : a.Yields given)
    (mode : Mode) (last : Value) :
    (a.run mode last).Settles own given (Value.Settled given) := by
  have splitAt (n : Number) (op : Operation) :
      (ofCut fun v => v.splitAt mode n op).Settles own given View.Settled :=
    settles_ofCut_parts (fun v hv parts cut => splitAt_parted hv cut)
      fun v => fails_splitAt mode op n
  have splitFirst (op : Operation) :
      (ofCut fun v => v.splitFirst mode op).Settles own given fun _ => True :=
    settles_ofCut (fun v hv parts cut => ⟨trivial, splitFirst_settled hv cut⟩)
      fun v => fails_splitFirst mode op
  have untilMatch (p : Pattern) (op : Operation) :
      (ofCut fun v => v.splitUntil mode p op).Settles own given View.Settled :=
    settles_ofCut_parts (fun v hv parts cut => splitUntil_parted hv cut)
      fun v => fails_splitUntil mode op p
  have pastMatch (p : Pattern) (op : Operation) :
      (ofCut fun v => v.splitUntilConsume mode p op).Settles own given View.Settled :=
    settles_ofCut_parts (fun v hv parts cut => splitUntilConsume_parted hv cut)
      fun v => fails_splitUntilConsume mode op p
  have whileChecked {check : Check} (h : check.Uses own) (op : Operation) :
      (ofCut fun v => v.trySplitWhile mode check op).Settles own given View.Settled :=
    settles_ofCut_parts (fun v hv parts cut => trySplitWhile_parted hv cut)
      fun v => fails_trySplitWhile mode op h
  have strWhile {check : Check} (h : check.Uses own) (op : Operation) :
      (ofCut fun v => v.trySplitStrWhile mode check op).Settles own given View.Settled :=
    settles_ofCut_parts (fun v hv parts cut => trySplitStrWhile_parted hv cut)
      fun v => fails_trySplitStrWhile mode op h
  have view (u : View) (hu : u.Settled) : (Value.view u).Settled given := Value.settled_view hu
  have found (head : Option View) (h : ∀ u, head = some u → u.Settled) :
      (viewOrAbsent head).Settled given :=
    Value.settled_ofOption fun u same => Value.settled_view (h u same)
  cases a with
  | peek n =>
    refine settles_look (fun v hv a same => ?_) fun v => (fails_splitAt mode _ _).map _
    obtain ⟨parts, cut, rfl⟩ := exists_ok_of_map_eq_ok same
    exact view _ (splitAt_parted hv cut).1
  | peekOpt n =>
    refine settles_look (fun v hv a same => ?_) fun v => fails_ok _
    cases same
    refine found _ fun u same => ?_
    obtain ⟨parts, cut, rfl⟩ := Option.map_eq_some_iff.1 same
    exact splitAt?_head cut
  | peekRemaining =>
    refine settles_look (fun v hv a same => ?_) fun v => fails_ok _
    cases same
    exact view v hv
  | peekEq | atEnd | remainingBytes =>
    refine settles_look (fun v hv a same => ?_) fun v => fails_ok _
    cases same
    simp
  | peekU8Opt | peekCharOpt =>
    refine settles_look (fun v hv a same => ?_) fun v => fails_ok _
    cases same
    exact Value.settled_ofOption fun t _ => Value.settled_ofToken t
  | peekU8 | peekChar =>
    refine settles_look (fun v hv a same => ?_) fun v => (fails_splitFirst mode _).map _
    obtain ⟨first, -, rfl⟩ := exists_ok_of_map_eq_ok same
    exact Value.settled_ofToken _
  | take n => exact settles_map (splitAt _ _) view
  | skip n => exact settles_map (splitAt _ _) fun _ _ => Value.settled_absent
  | takeArray n => exact settles_map (splitAt _ _) fun _ _ => Value.settled_array _
  | readNum kind endian =>
    refine settles_map (splitAt _ _) fun _ _ => ?_
    exact Value.settled_ofOption fun r _ => Value.settled_ofReading r
  | takeOpt n =>
    exact settles_map (settles_ofParts? fun v hv parts cut => splitAt?_parted hv cut) found
  | skipOpt n =>
    exact settles_map (settles_ofParts? fun v hv parts cut => splitAt?_parted hv cut)
      fun _ _ => Value.settled_bool _
  | takeWhile p =>
    exact settles_map (settles_ofParts fun v hv => splitWhile_parted hv p) view
  | skipWhile p =>
    exact settles_map (settles_ofParts fun v hv => splitWhile_parted hv p)
      fun _ _ => Value.settled_absent
  | takeUntil p => exact settles_map (untilMatch p _) view
  | skipUntil p => exact settles_map (untilMatch p _) fun _ _ => Value.settled_absent
  | takeUntilConsume p => exact settles_map (pastMatch p _) view
  | skipUntilConsume p => exact settles_map (pastMatch p _) fun _ _ => Value.settled_absent
  | takeUntilOpt p =>
    exact settles_map (settles_ofParts? fun v hv parts cut => splitUntil?_parted hv cut) found
  | skipUntilOpt p =>
    exact settles_map (settles_ofParts? fun v hv parts cut => splitUntil?_parted hv cut)
      fun _ _ => Value.settled_bool _
  | takeUntilConsumeOpt p =>
    exact settles_map (settles_ofParts? fun v hv parts cut => splitUntilConsume?_parted hv cut)
      found
  | skipUntilConsumeOpt p =>
    exact settles_map (settles_ofParts? fun v hv parts cut => splitUntilConsume?_parted hv cut)
      fun _ _ => Value.settled_bool _
  | consume literal =>
    refine settles_map (settles_ofCut_parts (fun v hv parts cut => splitPrefix_parted hv cut)
      fun v => fails_splitPrefix mode _ _) fun _ _ => Value.settled_absent
  | consumeOpt literal =>
    exact settles_map (settles_ofParts? fun v hv parts cut => splitPrefix?_parted hv cut)
      fun _ _ => Value.settled_bool _
  | takeRemaining => exact settles_map (settles_ofParts fun v hv => exhausted_parted hv) view
  | readU8 | readChar => exact settles_map (splitFirst _) fun t _ => Value.settled_ofToken t
  | takeRemainingStr =>
    refine settles_map (settles_ofCut_parts (fun v hv parts cut => ?_)
      fun v => (fails_intoText mode _).map _) view
    obtain ⟨text, made, rfl⟩ := exists_ok_of_map_eq_ok cut
    exact ⟨intoText_settled hv made, endView_settled hv⟩
  | takeStrWhile accepts => exact settles_map (strWhile (uses_sure own accepts) _) view
  | skipStrWhile accepts =>
    exact settles_map (strWhile (uses_sure own accepts) _) fun _ _ => Value.settled_absent
  | tryTakeStrWhile check => exact settles_map (strWhile uses _) view
  | trySkipStrWhile check => exact settles_map (strWhile uses _) fun _ _ => Value.settled_absent
  | tryTakeWhile check => exact settles_map (whileChecked uses _) view
  | trySkipWhile check => exact settles_map (whileChecked uses _) fun _ _ => Value.settled_absent
  | tryExpectExternal expected parser =>
    refine settles_ofCut (fun v hv read cut => ?_) fun v => fails_splitForeign mode _ _ _
    obtain ⟨⟨n, parsed⟩, rest⟩ := splitForeign_settled hv cut
    exact ⟨yields v read.1 n hv parsed, rest⟩
  | fail c =>
    intro v hv
    refine ⟨by simp [run, look], ?_, hv, by simp [run, look]⟩
    rintro _ ⟨⟩
    exact ⟨c, Failure.of_raise mode c, .inl uses⟩

namespace Part

theorem split_parted {v : View} (hv : v.Settled) {part : Part} {mode : Mode} {last : Value}
    {parts : View × View} (cut : part.split mode last v = .ok parts) : Parted parts := by
  unfold split at cut
  split at cut
  · exact splitAt_parted hv cut
  · cases cut
    exact exhausted_parted hv

theorem fails_split (part : Part) (mode : Mode) (last : Value) (v : View) :
    v.Fails own (part.split mode last v) := by
  unfold split
  split
  · exact fails_splitAt mode _ _
  · exact fails_ok _

theorem convert_settles {head : View} (h : head.Settled) (part : Part) (mode : Mode) :
    (∀ u, part.convert mode head = .ok u → u.Settled) ∧
      ∀ e, part.convert mode head = .error e → e.Settled own := by
  have inner : (if part.bound then head.intoBound else head).Settled := by
    split
    · rfl
    · exact h
  unfold convert
  simp only
  split
  · refine ⟨?_, by simp⟩
    rintro _ ⟨⟩
    exact inner
  · refine ⟨?_, by simp⟩
    rintro _ ⟨⟩
    exact inner
  · exact ⟨fun u made => intoText_settled inner made, (fails_intoText mode _).settled inner⟩

theorem take_settles (part : Part) (mode : Mode) (last : Value) :
    (part.take mode last).Settles own given View.Settled := by
  intro v hv
  unfold take
  split
  · rename_i e failed
    refine ⟨by simp, ?_, hv, by simp⟩
    rintro _ ⟨⟩
    exact (part.fails_split mode last v).settled hv e failed
  · rename_i head rest cut
    obtain ⟨hhead, hrest⟩ := split_parted hv cut
    obtain ⟨value, failure⟩ := convert_settles hhead part mode
    exact ⟨value, failure, hrest, by simp⟩

theorem within_settles (part : Part) {body : Read Value}
    (h : body.Settles own given (Value.Settled given)) (mode : Mode) (debug : Bool) :
    (part.within mode debug body).Settles own given (Value.Settled given) := by
  unfold within
  split
  · exact settles_readAll h mode debug
  · exact settles_map (settles_readPartial h debug) fun found good =>
      Value.settled_pair good.1 (Value.settled_view good.2)

theorem read_settles (part : Part) {body : Read Value}
    (h : body.Settles own given (Value.Settled given)) (mode : Mode) (debug : Bool)
    (last : Value) : (part.read mode debug last body).Settles own given (Value.Settled given) := by
  intro v hv
  have taken : (part.take mode last v).Settled own given View.Settled :=
    part.take_settles mode last v hv
  unfold read
  simp only
  split
  · rename_i e failed
    refine ⟨by simp, ?_, taken.rest, by simp⟩
    rintro _ ⟨⟩
    exact taken.failure e failed
  · rename_i u found
    exact (part.within_settles h mode debug u (taken.value u found)).withRest taken.rest

end Part

theorem Scope.run_settles (scope : Scope) {body : Mode → Read Value}
    (h : ∀ m, (body m).Settles own given (Value.Settled given)) (mode : Mode) (debug : Bool)
    (last : Value) : (scope.run mode debug last body).Settles own given (Value.Settled given) := by
  have all (a : Option Value) (good : ∀ b, a = some b → b.Settled given) :
      (Value.ofOption id a).Settled given :=
    Value.settled_ofOption good
  have withHead {a : Value} {head : View} (ha : a.Settled given) (hhead : head.Settled) :
      (Value.list [a, .view head]).Settled given :=
    Value.settled_pair ha (Value.settled_view hhead)
  have confirmed (a : Value) (_ : a.Settled given) (b : Value) (same : Scope.confirmed a = some b) :
      b.Settled given :=
    eq_of_confirmed same ▸ Value.settled_absent
  have present (a : Value) (good : a.Settled given) (b : Value) (same : Scope.present a = some b) :
      b.Settled given :=
    eq_of_present same ▸ good
  cases scope with
  | context f => exact settles_context (h mode) f
  | peekContext f => exact settles_peekContext (h mode) f
  | takeConsumed =>
    exact settles_map (settles_takeConsumed (h mode)) fun found good => withHead good.1 good.2
  | tryTakeConsumed =>
    exact settles_map (settles_tryTakeConsumed (h mode)) fun found good => withHead good.1 good.2
  | recover => exact settles_map (settles_recover (h mode)) all
  | recoverIf accepts => exact settles_map (settles_recoverIf (h mode) accepts) all
  | errorScope inner => exact settles_errorScope (h inner)
  | verify expected =>
    exact settles_expect (settles_map (settles_unfailing (h mode)) confirmed) mode expected _
  | tryVerify expected => exact settles_expect (settles_map (h mode) confirmed) mode expected _
  | expect expected =>
    exact settles_expect (settles_map (settles_unfailing (h mode)) present) mode expected _
  | tryExpect expected => exact settles_expect (settles_map (h mode) present) mode expected _
  | tryExpectErased expected => exact settles_expectErased (h .invalid) mode expected _
  | sub part => exact part.read_settles (h mode) mode debug last
  | bypass => exact h .infallible

/-! ## Programs -/

namespace Program

/-- The causes that its steps bring along are the caller's own, and the views among the values it
brings along are given by the caller. -/
def Uses (own : Cause → Prop) (given : View → Prop) : Program → Prop
  | .done => True
  | .finish a => a.Settled given
  | .choose next => ∀ a, (next a).Uses own given
  | .repeat _ body next => body.Uses own given ∧ next.Uses own given
  | .act a _ next => a.Uses own ∧ a.Yields given ∧ next.Uses own given
  | .within _ _ body next => body.Uses own given ∧ next.Uses own given

theorem rounds_settles {body : Read Value} (h : body.Settles own given (Value.Settled given))
    (most : Nat) : (rounds body most).Settles own given fun values =>
      ∀ a ∈ values, a.Settled given := by
  induction most with
  | zero => exact settles_pure (by simp)
  | succ most ih =>
    intro v hv
    unfold rounds
    split
    · exact settles_pure (by simp) v hv
    · refine settles_andThen h (fun a ha => settles_map ih fun values hvalues => ?_) v hv
      simpa using ⟨ha, hvalues⟩

theorem step_settles {p : Read Value} (h : p.Settles own given (Value.Settled given))
    (depth : Nat) (name : String) (soft : Bool) :
    (step depth name soft p).Settles own given (Value.Settled given) := by
  unfold step
  split
  · exact settles_unfailing (settles_recorded h depth name)
  · exact settles_recorded h depth name

theorem run_settles {p : Program} (hp : p.Uses own given) (debug : Bool) (mode : Mode)
    (depth : Nat) {last : Value} (hl : last.Settled given) :
    (p.run debug mode depth last).Settles own given (Value.Settled given) := by
  induction p generalizing mode depth last with
  | done => exact settles_pure hl
  | finish a => exact settles_pure hp
  | choose next ih => exact ih last (hp last) mode depth hl
  | «repeat» most body next ihBody ihNext =>
    refine settles_andThen (rounds_settles (ihBody hp.1 mode _ Value.settled_absent) most) ?_
    intro values hvalues
    exact ihNext hp.2 mode depth (Value.settled_list.2 hvalues)
  | act a soft next ih =>
    refine settles_andThen (step_settles (a.run_settles hp.1 hp.2.1 mode last) _ _ _) ?_
    intro b hb
    exact ih hp.2.2 mode depth hb
  | within scope soft body next ihBody ihNext =>
    have inner (m : Mode) := ihBody hp.1 m (depth + 1) Value.settled_absent
    refine settles_andThen (step_settles (scope.run_settles inner mode debug last) _ _ _) ?_
    intro b hb
    exact ihNext hp.2 mode depth hb

end Program

theorem Entry.run_settles {p : Program} (hp : p.Uses own given) (entry : Entry) (debug : Bool)
    (mode : Mode) (depth : Nat) :
    (entry.run debug mode depth p).Settles own given (Value.Settled given) := by
  have body (m : Mode) := p.run_settles hp debug m depth Value.settled_absent
  intro v hv
  cases entry with
  | all => exact settles_readAll (body mode) mode debug v hv
  | part =>
    exact (settles_readPartial (body mode) debug v hv).map fun found good =>
      Value.settled_pair good.1 (Value.settled_view good.2)
  | infallible =>
    have inner := body .infallible v hv
    exact inner.map fun a good => Value.settled_pair good (Value.settled_view inner.rest)

end Untrusted
