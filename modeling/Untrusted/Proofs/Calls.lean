import Mathlib
import Untrusted.Proofs.Reader

/-!
# The calls of a program

A program calls its reader step by step. The calls of one level are those that a program makes
itself; a call of a scope has a level of its own, the program that the scope runs. What a run
records are the steps of its calls, in their order.
-/

namespace Untrusted

/-- What a reader is called for: a step that runs no program, or a scope around one. -/
inductive Callee where
  | act (action : Action)
  | within (scope : Scope) (body : Program)

namespace Callee

def name : Callee → String
  | act action => action.name
  | within scope _ => scope.name

/-- What a call does whose steps are `depth` deep, after a step that yielded `last`. -/
def run (debug : Bool) (mode : Mode) (depth : Nat) (last : Value) : Callee → Read Value
  | act action => action.run mode last
  | within scope body =>
    scope.run mode debug last fun m => body.run debug m (depth + 1) .absent

end Callee

/-- A call: how deep it is nested, where the reader stood, and what came of it. -/
structure Call where
  callee : Callee
  depth : Nat
  before : View
  outcome : Outcome Value

def Call.steps (c : Call) : List Step :=
  Event.steps c.outcome.events ++
    [⟨c.depth, c.callee.name, c.before, c.outcome.rest, c.outcome.result⟩]

namespace Program

def callsThen {α : Type} (first : View → List Call) (p : Read α) (next : α → View → List Call)
    (v : View) : List Call :=
  first v ++
    match (p v).result with
    | .ok a => next a (p v).rest
    | .error _ => []

def roundCalls (calls : View → List Call) (body : Read Value) : (most : Nat) → View → List Call
  | 0, _ => []
  | most + 1, v =>
    if v.isEmpty then [] else callsThen calls body (fun _ => roundCalls calls body most) v

def callOf (debug : Bool) (mode : Mode) (depth : Nat) (last : Value) (callee : Callee) (v : View) :
    List Call :=
  [⟨callee, depth, v, callee.run debug mode depth last v⟩]

/-- The calls that a program makes itself, whose steps are `depth` deep, after a step that yielded
`last`. -/
def calls (debug : Bool) (mode : Mode) : Program → Nat → Value → View → List Call
  | .done, _, _ => fun _ => []
  | .finish _, _, _ => fun _ => []
  | .choose next, depth, last => (next last).calls debug mode depth last
  | .repeat most body next, depth, _ =>
    let round := body.run debug mode (depth + 1) .absent
    callsThen (roundCalls (body.calls debug mode (depth + 1) .absent) round most)
      (rounds round most) fun values => next.calls debug mode depth (.list values)
  | .act action soft next, depth, last =>
    let callee := Callee.act action
    callsThen (callOf debug mode depth last callee)
      (step depth callee.name soft (callee.run debug mode depth last))
      (next.calls debug mode depth)
  | .within scope soft body next, depth, last =>
    let callee := Callee.within scope body
    callsThen (callOf debug mode depth last callee)
      (step depth callee.name soft (callee.run debug mode depth last))
      (next.calls debug mode depth)

/-! ## What is recorded -/

section

variable {α β : Type} {p : Read α} {first : View → List Call} {v : View}

theorem steps_andThen (h : Event.steps (p v).events = (first v).flatMap Call.steps)
    {next : α → Read β} {later : α → View → List Call}
    (hnext : ∀ a w, Event.steps (next a w).events = (later a w).flatMap Call.steps) :
    Event.steps (Read.andThen p next v).events =
      (callsThen first p later v).flatMap Call.steps := by
  unfold callsThen
  cases result : (p v).result with
  | error e =>
    rw [Read.andThen_error result]
    simp only [List.append_nil, h]
  | ok a =>
    rw [Read.andThen_ok result]
    simp only [Event.steps_append, List.flatMap_append, h, hnext]

end

variable {debug : Bool} {mode : Mode}

theorem steps_step (depth : Nat) (last : Value) (callee : Callee) (soft : Bool) (v : View) :
    Event.steps (step depth callee.name soft (callee.run debug mode depth last) v).events =
      (callOf debug mode depth last callee v).flatMap Call.steps := by
  rw [events_step]
  simp [callOf, Call.steps]

theorem steps_rounds {body : Read Value} {calls : View → List Call}
    (h : ∀ v, Event.steps (body v).events = (calls v).flatMap Call.steps) (most : Nat) (v : View) :
    Event.steps (rounds body most v).events =
      (roundCalls calls body most v).flatMap Call.steps := by
  induction most generalizing v with
  | zero => rfl
  | succ most ih =>
    unfold rounds roundCalls
    split
    · rfl
    · exact steps_andThen (h v) fun a w => ih w

theorem steps_run (p : Program) (depth : Nat) (last : Value) (v : View) :
    Event.steps (p.run debug mode depth last v).events =
      (p.calls debug mode depth last v).flatMap Call.steps := by
  -- By induction on the program: what a run records are the steps of its calls.
  induction p generalizing depth last v with
  | done => rfl
  | finish a => rfl
  | choose next ih => exact ih last depth last v
  | «repeat» most body next ihBody ihNext =>
    exact steps_andThen (steps_rounds (ihBody _ _) most v) fun values w => ihNext depth _ w
  | act action soft next ih =>
    exact steps_andThen (steps_step depth last (.act action) soft v) fun a w => ih depth a w
  | within scope soft body next _ ih =>
    exact steps_andThen (steps_step depth last (.within scope body) _ v) fun a w => ih depth a w

end Program

/-! ## Entry points -/

namespace Entry

def inner (mode : Mode) : Entry → Mode
  | infallible => .infallible
  | _ => mode

variable (entry : Entry) (debug : Bool) (mode : Mode) (depth : Nat) (p : Program) (v : View)

theorem rest_run :
    (entry.run debug mode depth p v).rest = (p.start debug (entry.inner mode) depth v).rest := by
  cases entry <;> rfl

theorem steps_run : Event.steps (entry.run debug mode depth p v).events =
    Event.steps (p.start debug (entry.inner mode) depth v).events := by
  cases entry with
  | all =>
    change Event.steps ((p.start debug mode depth v).events ++ Read.failureLines _ _ _) = _
    rw [Event.steps_append, Read.steps_failureLines, List.append_nil]
    rfl
  | part =>
    change Event.steps ((p.start debug mode depth v).events ++ Read.failureLines _ _ _) = _
    rw [Event.steps_append, Read.steps_failureLines, List.append_nil]
    rfl
  | infallible => rfl

end Entry
end Untrusted
