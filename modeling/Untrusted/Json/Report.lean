import Untrusted.Json
import Untrusted.Reader
import Untrusted.Text.Hex

/-!
# Values and failures as JSON

What reading yields, for other programs to read: views with their place and bound, spans by their
positions, and reports with their cause, input and frames.
-/

namespace Untrusted.Json

def nat (n : Nat) : Json := .number n

/-- A number; one that is not finite is given by its text. -/
def ofNumber (n : Number) : Json :=
  if n.isFinite then .number n else .object [("number", .string n.text)]

def ofOption {α : Type} (f : α → Json) : Option α → Json
  | some a => f a
  | none => .null

def ofBytes (bytes : List UInt8) : Json := .string (Text.hexOfBytes bytes)

def ofView (v : View) : Json :=
  let content : String × Json :=
    match v.kind with
    | .bytes => ("bytes", ofBytes v.bytes)
    | .text => ("text", .string v.text)
  .object [content, ("off", ofNumber v.start), ("bound", .string v.bound.name)]

def ofSpan (s : Span) : Json := .array [ofNumber s.start, ofNumber s.stop]

def ofRetry (r : Option Retry) : Json := ofOption (fun r => nat r.count) r

/-- The bits of a floating-point number, of which those of no number are not told apart. -/
def ofFloat (bits : Nat) : Json :=
  .string (if FixedWidth.isNaN bits then "nan" else Text.hexOfNat 16 bits)

mutual

def ofValue : Value → Json
  | .absent => .null
  | .null => .null
  | .bool b => .bool b
  | .number n => ofNumber n
  | .wide i => .object [("big", .string (toString i))]
  | .float bits => .object [("float", ofFloat bits)]
  | .text s => .string s
  | .array bytes => .object [("array", ofBytes bytes)]
  | .view v => ofView v
  | .span s => .object [("span", ofSpan s)]
  | .retry r => .object [("retry", nat r.count)]
  | .list values => .array (ofValues values)
  | .record fields => .object (ofFields fields)

def ofValues : List Value → List Json
  | [] => []
  | v :: rest => ofValue v :: ofValues rest

def ofFields : List (String × Value) → List (String × Json)
  | [] => []
  | (name, v) :: rest => (name, ofValue v) :: ofFields rest

end

mutual

def toValue : Json → Value
  | .null => .null
  | .bool b => .bool b
  | .number n => .number n
  | .string s => .text s
  | .array items => .list (toValues items)
  | .object fields => .record (toFields fields)

def toValues : List Json → List Value
  | [] => []
  | j :: rest => toValue j :: toValues rest

def toFields : List (String × Json) → List (String × Value)
  | [] => []
  | (name, j) :: rest => (name, toValue j) :: toFields rest

end

/-! ## Failures -/

def ofFrame (depth : Nat) (f : Frame) : Json :=
  .array [nat depth, .string f.operation, ofOption .string f.expected, .bool f.isChild]

def ofCause (c : Cause) : Json :=
  let (kind, details) : String × List (String × Json) :=
    match c.expectation with
    | .value v => ("value", [("value", ofView v)])
    | .length least most =>
      ("length", [("min", ofNumber least), ("max", ofOption ofNumber most)])
    | .valid retry => ("valid", [("given", ofRetry retry)])
  .object ([("kind", .string kind), ("op", .string c.root.op.name),
    ("expects", .string c.root.expected), ("span", ofSpan c.span), ("fatal", .bool c.isFatal),
    ("retry", ofRetry c.requirement), ("description", .string c.description),
    ("of", ofView c.input)] ++ details)

def ofReport (r : Report) : Json :=
  .object [("error", .string "Expected"), ("message", .string r.message),
    ("cause", ofCause r.cause), ("description", .string r.description),
    ("expected", ofOption ofView r.expected?), ("input", ofView r.input),
    ("span", ofSpan r.span), ("at", ofOption ofNumber (r.span.offsetWithin? r.input.span)),
    ("fatal", .bool r.cause.isFatal), ("retry", ofRetry r.cause.requirement),
    ("count", nat r.backtrace.count),
    ("frames", .array (r.backtrace.visits.map fun (depth, f) => ofFrame depth f))]

def ofFailure (e : Failure) : Json :=
  let plain (name : String) : Json :=
    .object [("error", .string name), ("text", .string e.text), ("fatal", .bool e.isFatal),
      ("retry", ofRetry e.requirement)]
  match e with
  | .report r => ofReport r
  | .invalid _ => plain "Invalid"
  | .fatal => plain "Fatal"
  | .note text => .object [("error", .string "log"), ("text", .string text)]
  | .broken description => .object [("error", .string "broken"), ("text", .string description)]

def ofResult : Except Failure Value → Fields
  | .ok v => [("ok", ofValue v)]
  | .error e => [("err", ofFailure e)]

def ofStep (s : Step) : Json :=
  .object ([("d", nat s.depth), ("do", .string s.name), ("left", ofNumber s.after.extent)] ++
    ofResult s.result)

end Untrusted.Json
