import Untrusted.Cause

/-!
# Failures and error modes

An error mode says how much of a cause a failure keeps: everything with a backtrace, only the
requirement for a retry, or nothing. Reading is written once and runs under any mode.
-/

namespace Untrusted

/-- A cause with the scopes it left and the widest input known to contain it. -/
structure Report where
  cause : Cause
  input : View
  backtrace : Backtrace
  deriving DecidableEq, Repr

namespace Report

def ofCause (full : Bool) (c : Cause) : Report := ⟨c, c.input, .ofRoot full c.root⟩

def push (r : Report) (f : Frame) : Report := { r with backtrace := r.backtrace.push f }

/-- Takes a wider input; one that does not contain the recorded input is ignored. -/
def widen (r : Report) (v : View) : Report :=
  if r.input.span.isWithin v.span then { r with input := v } else r

def span (r : Report) : Span := r.cause.span

def description (r : Report) : String := r.cause.description

def expected? (r : Report) : Option View :=
  match r.cause.expectation with
  | .value expected => some expected
  | _ => none

def message (r : Report) : String :=
  "error attempting to " ++ r.cause.root.op.description ++ ": " ++ r.description

end Report

inductive Failure where
  | report (r : Report)
  /-- Only whether and when to retry. -/
  | invalid (retry : Option Retry)
  | fatal
  | note (text : String)
  /-- A failure where none was possible. -/
  | broken (description : String)
  deriving DecidableEq, Repr

inductive Mode where
  | root
  | full
  | invalid
  | fatal
  | note
  | infallible
  deriving DecidableEq, Repr

namespace Failure

def noteOf (c : Cause) : String :=
  let word :=
    match c.expectation with
    | .value _ => "value"
    | .length _ _ => "length"
    | .valid _ => "valid"
  word ++ "(" ++ c.description ++ ")"

def noteFrame (f : Frame) : String :=
  " < " ++ (if f.isChild then "child " else "") ++ f.operation ++
    match f.expected with
    | some expected => ":" ++ expected
    | none => ""

def noteInput (v : View) : String :=
  let kind :=
    match v.kind with
    | .bytes => "bytes"
    | .text => "text"
  " @ " ++ kind ++ "[" ++ v.extent.text ++ "]"

/-- Adds the frame of a scope that the failure leaves. -/
def push : Failure → Frame → Failure
  | .report r, f => .report (r.push f)
  | .note text, f => .note (text ++ noteFrame f)
  | e, _ => e

def widen : Failure → View → Failure
  | .report r, v => .report (r.widen v)
  | .note text, v => .note (text ++ noteInput v)
  | e, _ => e

/-- Leaves a scope that was entered at `v`. -/
def leave (e : Failure) (f : Frame) (v : View) : Failure := (e.push f).widen v

def requirement : Failure → Option Retry
  | .report r => r.cause.requirement
  | .invalid retry => retry
  | _ => none

def tellsRetry : Failure → Bool
  | .note _ => false
  | _ => true

def isFatal : Failure → Bool
  | .report r => r.cause.isFatal
  | .invalid retry => retry.isNone
  | _ => true

def isRetryable (e : Failure) : Bool := e.tellsRetry && !e.isFatal

def text : Failure → String
  | .report r => "Expected: " ++ r.message
  | .invalid none => "invalid input"
  | .invalid (some retry) =>
    "invalid input: needs " ++ retry.text ++ " to continue processing"
  | .fatal => "invalid input"
  | .note text => text
  | .broken description => description

end Failure

namespace Mode

def raise (mode : Mode) (c : Cause) : Failure :=
  match mode with
  | .root => .report (.ofCause false c)
  | .full => .report (.ofCause true c)
  | .invalid => .invalid c.requirement
  | .fatal => .fatal
  | .note => .note (Failure.noteOf c)
  | .infallible => .broken c.description

end Mode

/-- Runs under a scope: a failure leaves it with its frame, and with the input it was entered at. -/
def scope {α : Type} (v : View) (f : Frame) (r : Except Failure α) : Except Failure α :=
  match r with
  | .ok a => .ok a
  | .error e => .error (e.leave f v)

end Untrusted
