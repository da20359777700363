import Mathlib
import Untrusted.Proofs.Entries
import Untrusted.Proofs.Scopes.Programs

/-!
# The debug log only watches

A run that writes to the debug log goes the way of the one that does not. It writes one line for
each call of an entry point that fails, when the call returns: lines of the calls inside come first,
and a failure that is recovered from later has its line all the same.
-/

namespace Untrusted

open Read

/-! ## Calls of entry points -/

/-- A call of an entry point: which one it was, the calls made inside it, and what came of it. -/
inductive EntryCall where
  | mk (op : Operation) (inner : List EntryCall) (result : Except Failure Value)

namespace EntryCall

def failed {α : Type} (op : Operation) : Except Failure α → List (Operation × Failure)
  | .ok _ => []
  | .error e => [(op, e)]

theorem failed_map {α β : Type} (op : Operation) (r : Except Failure α) (f : α → β) :
    failed op (r.map f) = failed op r := by
  cases r <;> rfl

mutual

/-- The failures of a call: those of the calls inside it, which returned before, and its own. -/
def failures : EntryCall → List (Operation × Failure)
  | mk op inner result => failuresOf inner ++ failed op result

def failuresOf : List EntryCall → List (Operation × Failure)
  | [] => []
  | call :: later => call.failures ++ failuresOf later

end

theorem failuresOf_append (calls later : List EntryCall) :
    failuresOf (calls ++ later) = failuresOf calls ++ failuresOf later := by
  induction calls with
  | nil => rfl
  | cons call calls ih => rw [List.cons_append, failuresOf, failuresOf, ih, List.append_assoc]

theorem failuresOf_singleton (call : EntryCall) : failuresOf [call] = call.failures := by
  rw [failuresOf, failuresOf, List.append_nil]

def after {α : Type} (o : Outcome α) (next : α → View → List EntryCall) : List EntryCall :=
  match o.result with
  | .ok a => next a o.rest
  | .error _ => []

/-- The line that tells of a failed call: after how many more bytes to try again, if the failure
requires any. -/
def line (call : Operation × Failure) : String :=
  DebugLog.line "read" (call.1.description ++ " failed: " ++
    match call.2.requirement with
    | some retry => "retry after " ++ retry.text
    | none => "fatal")

end EntryCall

def entryPoint (whole : Bool) : Operation := if whole then .readAll else .readPartial

def Scope.mode (outer : Mode) : Scope → Mode
  | errorScope inner => inner
  | tryExpectErased _ => .invalid
  | bypass => .infallible
  | _ => outer

/-- The calls in a scope whose program makes the calls `inner`. A sub-parse that has its part calls
an entry point of it. -/
def Scope.entryCalls (mode : Mode) (last : Value) (body : Mode → Read Value)
    (inner : Mode → View → List EntryCall) (v : View) : Scope → List EntryCall
  | sub part => EntryCall.after (part.take mode last v) fun w _ =>
      [⟨entryPoint part.whole, inner mode w,
        (entered mode false part.whole (body mode) w).result⟩]
  | scope => inner (scope.mode mode) v

namespace Program

def roundsEntryCalls (body : Read Value) (inner : View → List EntryCall) :
    (most : Nat) → View → List EntryCall
  | 0, _ => []
  | most + 1, v =>
    if v.isEmpty then []
    else inner v ++ EntryCall.after (body v) fun _ rest => roundsEntryCalls body inner most rest

/-- The calls of entry points in a program, each with those inside it. -/
def entryCalls : Program → Mode → Nat → Value → View → List EntryCall
  | .done, _, _, _, _ => []
  | .finish _, _, _, _, _ => []
  | .choose next, mode, depth, last, v => (next last).entryCalls mode depth last v
  | .repeat most body next, mode, depth, _, v =>
    let round := body.run false mode (depth + 1) .absent
    roundsEntryCalls round (body.entryCalls mode (depth + 1) .absent) most v ++
      EntryCall.after (rounds round most v) fun values rest =>
        next.entryCalls mode depth (.list values) rest
  | .act action soft next, mode, depth, last, v =>
    EntryCall.after (step depth action.name soft (action.run mode last) v) fun a rest =>
      next.entryCalls mode depth a rest
  | .within scope soft body next, mode, depth, last, v =>
    let read (m : Mode) : Read Value := body.run false m (depth + 1) .absent
    let inner (m : Mode) (w : View) := body.entryCalls m (depth + 1) .absent w
    let whole := step depth scope.name soft (scope.run mode false last read)
    scope.entryCalls mode last read inner v ++
      EntryCall.after (whole v) fun a rest => next.entryCalls mode depth a rest

end Program

def Entry.call (entry : Entry) (mode : Mode) (depth : Nat) (p : Program) (v : View) : EntryCall :=
  .mk (entryPoint (entry == .all)) (p.entryCalls mode depth .absent v)
    (entry.run false mode depth p v).result

/-! ## Runs that log -/

/-- The outcome of a run with the log and of the same run without it, where the calls in `failed`
failed on the way. The latter keeps nothing but the steps. -/
structure Outcome.Logs {α : Type} (failed : List (Operation × Failure)) (o quiet : Outcome α) :
    Prop where
  result : o.result = quiet.result
  rest : o.rest = quiet.rest
  steps : quiet.events = (Event.steps o.events).map .step
  lines : Event.lines o.events = failed.map EntryCall.line

namespace Event

theorem lines_append (a b : List Event) : lines (a ++ b) = lines a ++ lines b := by
  simp [lines, List.filterMap_append]

theorem lines_steps (steps : List Step) : lines (steps.map .step) = [] := by
  simp [lines, List.filterMap_map]

theorem steps_steps (ss : List Step) : steps (ss.map .step) = ss := by
  simp [steps, List.filterMap_map]

end Event

section

variable {α β : Type} {failed later : List (Operation × Failure)} {o quiet : Outcome α}

theorem logs_silent {o : Outcome α} (h : o.events = []) : o.Logs [] o := by
  refine ⟨rfl, rfl, ?_, ?_⟩
  · rw [h]
    rfl
  · rw [h]
    rfl

theorem Outcome.Logs.made (h : o.Logs failed quiet) (result : Except Failure β) (rest : View) :
    Outcome.Logs failed ⟨result, rest, o.events⟩ ⟨result, rest, quiet.events⟩ :=
  ⟨rfl, rfl, h.steps, h.lines⟩

theorem Outcome.Logs.then (h : o.Logs failed quiet) {o' quiet' : Outcome β}
    (h' : o'.Logs later quiet') :
    Outcome.Logs (failed ++ later) { o' with events := o.events ++ o'.events }
      { quiet' with events := quiet.events ++ quiet'.events } := by
  refine ⟨h'.result, h'.rest, ?_, ?_⟩
  · rw [h.steps, h'.steps, Event.steps_append, List.map_append]
  · rw [Event.lines_append, h.lines, h'.lines, List.map_append]

end

namespace Read

variable {α β : Type} {failed : List (Operation × Failure)} {p p' : Read α} {v : View}

theorem logs_map (h : (p v).Logs failed (p' v)) (f : α → β) :
    (map f p v).Logs failed (map f p' v) := by
  simp only [map, Outcome.map, h.result, h.rest]
  exact h.made _ _

theorem logs_andThen (h : (p v).Logs failed (p' v)) {next next' : α → Read β}
    {later : α → View → List EntryCall}
    (hnext : ∀ a w, (next a w).Logs (EntryCall.failuresOf (later a w)) (next' a w)) :
    (andThen p next v).Logs (failed ++ EntryCall.failuresOf (EntryCall.after (p' v) later))
      (andThen p' next' v) := by
  unfold EntryCall.after
  cases result : (p' v).result with
  | error e =>
    rw [andThen_error result, andThen_error (h.result.trans result), h.rest, EntryCall.failuresOf,
      List.append_nil]
    exact h.made _ _
  | ok a =>
    rw [andThen_ok result, andThen_ok (h.result.trans result), h.rest]
    exact h.then (hnext a _)

theorem logs_unfailing {p p' : Read Value} (h : (p v).Logs failed (p' v)) :
    (unfailing p v).Logs failed (unfailing p' v) := by
  simp only [unfailing, h.result, h.rest]
  exact h.made _ _

theorem logs_recorded {p p' : Read Value} (h : (p v).Logs failed (p' v)) (depth : Nat)
    (name : String) : (recorded depth name p v).Logs failed (recorded depth name p' v) := by
  refine ⟨h.result, h.rest, ?_, ?_⟩
  · simp [recorded, h.steps, h.result, h.rest]
  · simp only [recorded, Event.lines_append, h.lines]
    exact List.append_nil _

/-! ### Scopes -/

theorem logs_context (h : (p v).Logs failed (p' v)) (f : Frame) :
    (context f p v).Logs failed (context f p' v) := by
  simp only [context, h.result, h.rest]
  exact h.made _ _

theorem logs_peekContext (h : (p v).Logs failed (p' v)) (f : Frame) :
    (peekContext f p v).Logs failed (peekContext f p' v) := by
  simp only [peekContext, (logs_context h f).result]
  exact (logs_context h f).made _ _

theorem logs_takeConsumed (h : (p v).Logs failed (p' v)) :
    (takeConsumed p v).Logs failed (takeConsumed p' v) := by
  simp only [takeConsumed, h.result, h.rest]
  exact h.made _ _

theorem logs_restoring {o quiet : Outcome α} (h : o.Logs failed quiet) :
    (o.restoring v).Logs failed (quiet.restoring v) := by
  simp only [Outcome.restoring, h.result]
  split
  · exact h
  · exact h.made _ _

theorem logs_tryTakeConsumed (h : (p v).Logs failed (p' v)) :
    (tryTakeConsumed p v).Logs failed (tryTakeConsumed p' v) := by
  simp only [tryTakeConsumed, h.result, h.rest]
  exact logs_restoring (h.made _ _)

theorem logs_recover (h : (p v).Logs failed (p' v)) :
    (recover p v).Logs failed (recover p' v) := by
  simp only [recover, h.result, h.rest]
  split <;> exact h.made _ _

theorem logs_recoverIf (h : (p v).Logs failed (p' v)) (accepts : Failure → Bool) :
    (recoverIf accepts p v).Logs failed (recoverIf accepts p' v) := by
  simp only [recoverIf, h.result, h.rest]
  split
  · exact h.made _ _
  · split <;> exact h.made _ _

theorem logs_expect {p p' : Read (Option α)} (h : (p v).Logs failed (p' v)) (mode : Mode)
    (expected : String) (op : Operation) :
    (expect mode expected op p v).Logs failed (expect mode expected op p' v) := by
  simp only [expect, h.result, h.rest]
  exact logs_restoring (h.made _ _)

theorem logs_expectErased (h : (p v).Logs failed (p' v)) (mode : Mode) (expected : String)
    (op : Operation) :
    (expectErased mode expected op p v).Logs failed (expectErased mode expected op p' v) := by
  simp only [expectErased, h.result, h.rest]
  exact logs_restoring (h.made _ _)

/-! ### Entry points -/

theorem failureLines_quiet (op : Operation) (r : Except Failure α) :
    failureLines false op r = [] := by
  unfold failureLines
  split <;> rfl

theorem lines_failureLines (op : Operation) {r : Except Failure α}
    (h : ∀ e, r = .error e → e.Under Mode.Offered) :
    Event.lines (failureLines true op r) = (EntryCall.failed op r).map EntryCall.line := by
  cases r with
  | ok a => rfl
  | error e =>
    obtain ⟨m, offered, o, rfl⟩ := h e rfl
    cases offered <;> rfl

theorem logs_failureLines (op : Operation) {r : Except Failure α} {o quiet : Outcome β}
    (h : o.Logs failed quiet) (under : ∀ e, r = .error e → e.Under Mode.Offered) :
    Outcome.Logs (failed ++ EntryCall.failed op r)
      { o with events := o.events ++ failureLines true op r }
      { quiet with events := quiet.events ++ failureLines false op r } := by
  refine ⟨h.result, h.rest, ?_, ?_⟩
  · rw [failureLines_quiet, List.append_nil, Event.steps_append, steps_failureLines,
      List.append_nil, h.steps]
  · rw [Event.lines_append, h.lines, lines_failureLines op under, List.map_append]

theorem logs_entered {mode : Mode} (hm : mode.Offered) {p p' : Read Value}
    (h : (p v).Logs failed (p' v)) (under : p'.FailsUnder Mode.Offered) (whole : Bool) :
    (entered mode true whole p v).Logs
      (failed ++ EntryCall.failed (entryPoint whole) (entered mode false whole p' v).result)
      (entered mode false whole p' v) := by
  cases whole with
  | true =>
    have inner := logs_context h (.ofOperation .readAll)
    have fails := failsUnder_readAll (fun _ => id) hm under false v
    simp only [entered, entryPoint, readAll, inner.result, inner.rest, if_true] at fails ⊢
    exact logs_failureLines .readAll (inner.made _ _) fails
  | false =>
    have inner := logs_context h (.ofOperation .readPartial)
    have fails := failsUnder_context (fun _ => id) under (.ofOperation .readPartial) v
    simp only [entered, entryPoint, Bool.false_eq_true, if_false, map, Outcome.map, readPartial,
      inner.result, inner.rest, EntryCall.failed_map]
    exact (logs_failureLines .readPartial inner fails).made _ _

end Read

/-! ## Programs -/

/-- No step runs under a mode other than those that callers choose from. -/
def Program.Offered : Program → Prop
  | .done => True
  | .finish _ => True
  | .choose next => ∀ a, (next a).Offered
  | .repeat _ body next => body.Offered ∧ next.Offered
  | .act _ _ next => next.Offered
  | .within scope _ body next => scope.Checked Mode.Offered ∧ body.Offered ∧ next.Offered

theorem Program.Offered.checked {p : Program} (h : p.Offered) {modes : Mode → Prop}
    (offered : ∀ m, m.Offered → modes m) : p.Checked modes := by
  induction p generalizing modes with
  | done | finish => trivial
  | choose next ih => exact fun a => ih a (h a) offered
  | «repeat» most body next ihBody ihNext => exact ⟨ihBody h.1 offered, ihNext h.2 offered⟩
  | act action soft next ih => exact ih h offered
  | within scope soft body next ihBody ihNext =>
    refine ⟨?_, ihBody h.2.1 fun m hm => .inr (offered m hm), ihNext h.2.2 offered⟩
    cases scope with
    | errorScope inner => exact .inr (offered inner h.1)
    | bypass => exact h.1
    | _ => trivial

theorem Action.events_run (a : Action) (mode : Mode) (last : Value) (v : View) :
    (a.run mode last v).events = [] := by
  have events_map {α β : Type} (f : α → β) (p : Read α) : (map f p v).events = (p v).events := rfl
  have events_ofCut {α : Type} (cut : View → Except Failure (α × View)) :
      (ofCut cut v).events = [] := by
    unfold ofCut
    split <;> rfl
  cases a <;> simp only [run, look, ofParts, ofParts?, events_map, events_ofCut]

open EntryCall in
theorem Scope.logs_run {mode : Mode} (hm : mode.Offered)
    {scope : Scope} (hs : scope.Checked Mode.Offered)
    (last : Value) {body quiet : Mode → Read Value} {inner : Mode → View → List EntryCall}
    (h : ∀ m, m.Offered → ∀ w, (body m w).Logs (failuresOf (inner m w)) (quiet m w))
    (under : ∀ m, m.Offered → (quiet m).FailsUnder Mode.Offered) (v : View) :
    (scope.run mode true last body v).Logs
      (failuresOf (scope.entryCalls mode last quiet inner v))
      (scope.run mode false last quiet v) := by
  cases scope with
  | context f => exact logs_context (h mode hm v) f
  | peekContext f => exact logs_peekContext (h mode hm v) f
  | takeConsumed => exact logs_map (logs_takeConsumed (h mode hm v)) _
  | tryTakeConsumed => exact logs_map (logs_tryTakeConsumed (h mode hm v)) _
  | recover => exact logs_map (logs_recover (h mode hm v)) _
  | recoverIf accepts => exact logs_map (logs_recoverIf (h mode hm v) accepts) _
  | errorScope m => exact logs_restoring (h m hs v)
  | verify expected | expect expected =>
    exact logs_expect (logs_map (logs_unfailing (h mode hm v)) _) mode expected _
  | tryVerify expected | tryExpect expected =>
    exact logs_expect (logs_map (h mode hm v) _) mode expected _
  | tryExpectErased expected => exact logs_expectErased (h .invalid .invalid v) mode expected _
  | sub part =>
    -- Taking the part calls nothing, so what is logged is the call on it, if it was taken.
    simp only [Scope.run, Part.read, Scope.entryCalls, EntryCall.after]
    cases taken : (part.take mode last v).result with
    | error e => exact logs_silent rfl
    | ok w =>
      have logs := logs_entered hm (h mode hm w) (under mode hm) part.whole
      simp only [failuresOf_singleton, failures]
      exact ⟨logs.result, rfl, logs.steps, logs.lines⟩
  | bypass => exact hs.elim

namespace Program

open EntryCall

theorem logs_rounds {body quiet : Read Value} {inner : View → List EntryCall}
    (h : ∀ w, (body w).Logs (failuresOf (inner w)) (quiet w)) (most : Nat) (v : View) :
    (rounds body most v).Logs (failuresOf (roundsEntryCalls quiet inner most v))
      (rounds quiet most v) := by
  induction most generalizing v with
  | zero => exact logs_silent rfl
  | succ most ih =>
    unfold rounds roundsEntryCalls
    split
    · exact logs_silent rfl
    · rw [failuresOf_append]
      exact logs_andThen (h v) fun a w => logs_map (ih w) _

theorem logs_step {p p' : Read Value} {v : View} {failed : List (Operation × Failure)}
    (h : (p v).Logs failed (p' v)) (depth : Nat) (name : String) (soft : Bool) :
    (step depth name soft p v).Logs failed (step depth name soft p' v) := by
  cases soft with
  | false => exact logs_recorded h depth name
  | true => exact logs_unfailing (logs_recorded h depth name)

theorem logs_run {p : Program} (hp : p.Offered) {mode : Mode} (hm : mode.Offered) (depth : Nat)
    (last : Value) (v : View) :
    (p.run true mode depth last v).Logs (failuresOf (p.entryCalls mode depth last v))
      (p.run false mode depth last v) := by
  -- The mode is generalized since an error scope runs its program under its own.
  induction p generalizing mode depth last v with
  | done | finish => exact logs_silent rfl
  | choose next ih => exact ih last (hp last) hm depth last v
  | «repeat» most body next ihBody ihNext =>
    rw [entryCalls, failuresOf_append]
    exact logs_andThen (logs_rounds (ihBody hp.1 hm _ _) most v) fun values w =>
      ihNext hp.2 hm depth _ w
  | act action soft next ih =>
    rw [entryCalls]
    have silent := logs_silent (action.events_run mode last v)
    exact logs_andThen (logs_step silent depth action.name soft) fun a w => ih hp hm depth a w
  | within scope soft body next ihBody ihNext =>
    rw [entryCalls, failuresOf_append]
    refine logs_andThen (logs_step ?_ depth _ _) fun a w => ihNext hp.2.2 hm depth a w
    exact scope.logs_run hm hp.1 last (fun m hm' w => ihBody hp.2.1 hm' (depth + 1) .absent w)
      (fun m hm' => run_failsUnder (fun _ => id) hm' (hp.2.1.checked fun _ => id) false (depth + 1)
        .absent) v

end Program

/-! ## Entry points -/

/-- With the debug log a run yields the same, leaves the same rest and makes the same steps as
without it, when nothing is written. The lines are those of the calls of entry points that fail, one
for each, in the order in which they return. Each says after how many more bytes to try again, if
the failure requires any then, and else that it is fatal. -/
theorem Entry.debug_log_observes {entry : Entry} (fallible : entry ≠ .infallible) {mode : Mode}
    (hm : mode.Offered) {p : Program} (hp : p.Offered) (depth : Nat) (v : View) :
    let o := entry.run true mode depth p v
    let quiet := entry.run false mode depth p v
    o.result = quiet.result ∧ o.rest = quiet.rest ∧
      Event.steps o.events = Event.steps quiet.events ∧ Event.lines quiet.events = [] ∧
      Event.lines o.events = (entry.call mode depth p v).failures.map EntryCall.line := by
  intro o quiet
  have logs : o.Logs (entry.call mode depth p v).failures quiet := by
    have run := Program.logs_run hp hm depth .absent v
    have under := Program.run_failsUnder (fun _ => id) hm
      (hp.checked fun _ => id) false depth .absent
    rw [call, EntryCall.failures]
    cases entry with
    | all => exact logs_entered hm run under true
    | part => exact logs_entered hm run under false
    | infallible => exact absurd rfl fallible
  refine ⟨logs.result, logs.rest, ?_, ?_, logs.lines⟩
  · rw [logs.steps, Event.steps_steps]
  · rw [logs.steps, Event.lines_steps]

/-- Three bytes that are the start of four are recovered from. Then a part is too short inside
another. -/
theorem Entry.debug_log_observes_recovered :
    let start : Program := .within (.sub ⟨none, false, none, false⟩) false
      (.act (.consume [1, 2, 3, 4]) false .done) .done
    let short : Program := .within (.sub ⟨some (.given 1), false, none, true⟩) false
      (.act (.take (.given 2)) false .done) .done
    let p : Program := .within .recover false start
      (.within (.sub ⟨none, false, none, false⟩) false short .done)
    let v := View.ofSource (.ofBytes 0 [1, 2, 3]) .bytes
    Entry.all ≠ .infallible ∧ Mode.full.Offered ∧ p.Offered ∧
      (Entry.all.run true .full 0 p v).result = (Entry.all.run false .full 0 p v).result ∧
      Event.lines (Entry.all.run true .full 0 p v).events =
        ["[caution:read] read a partial input failed: retry after 1 byte more",
          "[caution:read] read all input failed: fatal",
          "[caution:read] read a partial input failed: fatal",
          "[caution:read] read all input failed: fatal"] := by
  intro start short p v
  have offered : p.Offered :=
    ⟨trivial, ⟨trivial, trivial, trivial⟩, trivial, ⟨trivial, trivial, trivial⟩, trivial⟩
  have fallible : Entry.all ≠ .infallible := by decide
  obtain ⟨result, -, -, -, lines⟩ := debug_log_observes fallible .full offered 0 v
  refine ⟨fallible, .full, offered, result, lines.trans ?_⟩
  decide +kernel

end Untrusted
