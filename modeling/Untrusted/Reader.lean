import Untrusted.DebugLog
import Untrusted.Value
import Untrusted.View.Split

/-!
# Readers

A reader goes through a view from its start. A read either succeeds and stands after what it read,
or fails and stands where it did before; the scopes say for themselves where the reader stands after
a failure inside them. What a reader writes to the debug log, and the steps of a program it runs,
are kept in the order in which they happen.
-/

namespace Untrusted

/-- A completed step of a program: how deep it is nested, where the reader stood before and after
it, and what came of it. -/
structure Step where
  depth : Nat
  name : String
  before : View
  after : View
  result : Except Failure Value

inductive Event where
  | step (s : Step)
  | line (text : String)

namespace Event

def lines (events : List Event) : List String :=
  events.filterMap fun
    | .line text => some text
    | .step _ => none

def steps (events : List Event) : List Step :=
  events.filterMap fun
    | .step s => some s
    | .line _ => none

/-- What went wrong in a step that failed where no failure was possible. -/
def broken? : Event → Option String
  | .step ⟨_, _, _, _, .error (.broken description)⟩ => some description
  | _ => none

/-- The events before the first failure where none was possible, and what that failure was. Nothing
happens after it. -/
def upToBroken : List Event → List Event × Option String
  | [] => ([], none)
  | e :: rest =>
    match e.broken? with
    | some description => ([], some description)
    | none =>
      let (before, found) := upToBroken rest
      (e :: before, found)

end Event

def brokenMessage (description : String) : String :=
  "infallible reader produced an error: " ++ description

/-- What came of a read, where the reader stands after it, and what happened on the way. -/
structure Outcome (α : Type) where
  result : Except Failure α
  rest : View
  events : List Event

abbrev Read (α : Type) := View → Outcome α

namespace Outcome

def map {α β : Type} (f : α → β) (o : Outcome α) : Outcome β :=
  ⟨o.result.map f, o.rest, o.events⟩

/-- Stands at `v` unless the read succeeded. -/
def restoring {α : Type} (o : Outcome α) (v : View) : Outcome α :=
  match o.result with
  | .ok _ => o
  | .error _ => { o with rest := v }

end Outcome

namespace Read

def map {α β : Type} (f : α → β) (p : Read α) : Read β := fun v => (p v).map f

/-- Reads the first part of a cut and stands at the second. -/
def ofCut {α : Type} (cut : View → Except Failure (α × View)) : Read α := fun v =>
  match cut v with
  | .ok (a, tail) => ⟨.ok a, tail, []⟩
  | .error e => ⟨.error e, v, []⟩

def ofParts (cut : View → View × View) : Read View := ofCut fun v => .ok (cut v)

def ofParts? (cut : View → Option (View × View)) : Read (Option View) := ofCut fun v =>
  match cut v with
  | some (head, tail) => .ok (some head, tail)
  | none => .ok (none, v)

/-- Looks at the view without going on. -/
def look {α : Type} (f : View → Except Failure α) : Read α := fun v => ⟨f v, v, []⟩

/-! ## Sequences -/

def pure {α : Type} (a : α) : Read α := fun v => ⟨.ok a, v, []⟩

/-- Reads on with what the value of the first read asks for, unless that read failed. -/
def andThen {α β : Type} (p : Read α) (next : α → Read β) : Read β := fun v =>
  let o := p v
  match o.result with
  | .error e => ⟨.error e, o.rest, o.events⟩
  | .ok a =>
    let later := next a o.rest
    { later with events := o.events ++ later.events }

/-- Yields no value where the read fails, and stays where the failure arose. -/
def unfailing (p : Read Value) : Read Value := fun v =>
  let o := p v
  { o with result := .ok (.orAbsent o.result) }

def recorded (depth : Nat) (name : String) (p : Read Value) : Read Value := fun v =>
  let o := p v
  { o with events := o.events ++ [.step ⟨depth, name, v, o.rest, o.result⟩] }

/-! ## Scopes -/

/-- Adds a frame and the view at the start of the scope to a failure, and stays where it arose. -/
def context {α : Type} (f : Frame) (p : Read α) : Read α := fun v =>
  let o := p v
  { o with result := scope v f o.result }

def peekContext {α : Type} (f : Frame) (p : Read α) : Read α := fun v =>
  { context f p v with rest := v }

/-- Reads, and gives what was made of it with the part of the view that was read. The reader goes on
even from a failure, which is a value here. -/
def takeConsumed {α : Type} (p : Read α) : Read (Except Failure α × View) := fun v =>
  let o := p v
  ⟨.ok (o.result, v.consumedHead o.rest), o.rest, o.events⟩

def tryTakeConsumed {α : Type} (p : Read α) : Read (α × View) := fun v =>
  let o := p v
  ({ o with result := o.result.map fun a => (a, v.consumedHead o.rest) } : Outcome _).restoring v

def recover {α : Type} (p : Read α) : Read (Option α) := fun v =>
  let o := p v
  match o.result with
  | .ok a => ⟨.ok (some a), o.rest, o.events⟩
  | .error _ => ⟨.ok none, v, o.events⟩

/-- Turns the failures that `accepts` holds of into no value, and leaves the scope with others. -/
def recoverIf {α : Type} (accepts : Failure → Bool) (p : Read α) : Read (Option α) := fun v =>
  let o := p v
  match o.result with
  | .ok a => ⟨.ok (some a), o.rest, o.events⟩
  | .error e =>
    if accepts e then ⟨.ok none, v, o.events⟩
    else ⟨.error (e.leave (.ofOperation .recoverIf) v), v, o.events⟩

def errorScope {α : Type} (p : Read α) : Read α := fun v => (p v).restoring v

/-- Reads a value that has to be there. If there is none, what was read is not what was expected. -/
def expect {α : Type} (mode : Mode) (expected : String) (op : Operation) (p : Read (Option α)) :
    Read α := fun v =>
  let o := p v
  let result :=
    match o.result with
    | .error e => .error e
    | .ok (some a) => .ok a
    | .ok none =>
      .error (mode.raise (v.invalidCause op expected (v.consumedHead o.rest).span none))
  ({ o with result } : Outcome α).restoring v

/-- Reads under the mode that keeps only requirements. Of a failure nothing else remains. -/
def expectErased {α : Type} (mode : Mode) (expected : String) (op : Operation) (p : Read α) :
    Read α := fun v =>
  let o := p v
  let result :=
    match o.result with
    | .ok a => .ok a
    | .error e =>
      .error (mode.raise
        (v.invalidCause op expected (v.consumedHead o.rest).span e.requirement))
  ({ o with result } : Outcome α).restoring v

/-! ## Entry points -/

def failureLines {α : Type} (debug : Bool) (op : Operation) (r : Except Failure α) : List Event :=
  match r with
  | .ok _ => []
  | .error (.broken _) => []
  | .error e =>
    let outcome :=
      if e.tellsRetry then
        match e.requirement with
        | some retry => "retry after " ++ retry.text
        | none => "fatal"
      else e.text
    if debug then [.line (DebugLog.line "read" (op.description ++ " failed: " ++ outcome))] else []

/-- Too much input: what a reader of all of `v` left unread. -/
def trailingCause (v rest : View) : Cause :=
  ⟨.length 0 (some 0), ⟨.readAll, "no trailing input", rest.span⟩, v⟩

def readAll {α : Type} (mode : Mode) (debug : Bool) (p : Read α) : Read α := fun v =>
  let o := context (.ofOperation .readAll) p v
  let result :=
    match o.result with
    | .error e => .error e
    | .ok a =>
      if o.rest.isEmpty then .ok a else .error (mode.raise (trailingCause v o.rest))
  ⟨result, o.rest, o.events ++ failureLines debug .readAll result⟩

def readPartial {α : Type} (debug : Bool) (p : Read α) : Read (α × View) := fun v =>
  let o := context (.ofOperation .readPartial) p v
  ⟨o.result.map fun a => (a, o.rest), o.rest,
    o.events ++ failureLines debug .readPartial o.result⟩

end Read
end Untrusted
