import Untrusted.Program

/-!
# Inquiries

What callers ask of an input outside a reader: its properties, its parts, and what programs make of
it. A session asks one inquiry after another, each of the input it has come to.
-/

namespace Untrusted

inductive Inquiry where
  | kind
  | length
  | byteLength
  | bound
  | isEmpty
  | isBound
  | span
  | asBytes
  | asString
  | toText
  | first
  | last
  | tokens
  | nth (n : Number)
  | equals (other : View)
  | hasPrefix (literal : List UInt8)
  | clone
  | endView
  | intoBound
  | intoBytes
  | intoText (op : Operation)
  | intoNonEmpty
  | splitAtOpt (n : Number)
  | splitAt (n : Number) (op : Operation)
  | splitAtByteOpt (n : Number)
  | splitAtByte (n : Number) (op : Operation)
  | splitFirst (op : Operation)
  | splitPrefixOpt (literal : List UInt8)
  | splitPrefix (literal : List UInt8) (op : Operation)
  | splitWhile (p : Pattern)
  | splitUntilOpt (p : Pattern)
  | splitUntil (p : Pattern) (op : Operation)
  | splitUntilConsumeOpt (p : Pattern)
  | splitUntilConsume (p : Pattern) (op : Operation)
  | splitStrWhile (accepts : Nat → Bool) (op : Operation)
  | trySplitWhile (check : View.Check) (op : Operation)
  | trySplitStrWhile (check : View.Check) (op : Operation)
  | splitConsumed (body : Program)
  | trySplitConsumed (body : Program)
  | splitExpect (expected : String) (op : Operation) (body : Program)
  | trySplitExpect (expected : String) (op : Operation) (body : Program)
  | trySplitExpectErased (expected : String) (op : Operation) (body : Program)
  | trySplitExternal (expected : String) (op : Operation) (parser : Foreign (Value × Number))
  | intoExternal (expected : String) (parser : Foreign Value)
  | enter (entry : Entry) (body : Program)

namespace Inquiry

/-- How deep the steps of a program are that an inquiry runs: the inquiry itself is a step. -/
def depth : Nat := 1

/-- What an inquiry yields: a value, or a result where it can fail. -/
inductive Reply where
  | value (v : Value)
  | result (r : Except Failure Value)

def Reply.value? : Reply → Option Value
  | .value v => some v
  | .result (.ok v) => some v
  | .result (.error _) => none

def pair (parts : View × View) : Value := .list [.view parts.1, .view parts.2]

def withRest {α : Type} (f : α → List Value) (o : Outcome α) : Reply × List Event :=
  (.result (o.result.map fun a => .list (f a ++ [.view o.rest])), o.events)

def ask (debug : Bool) (mode : Mode) (v : View) : Inquiry → Reply × List Event
  | kind => (.value (.text (match v.kind with | .bytes => "bytes" | .text => "text")), [])
  | length => (.value (.number v.length), [])
  | byteLength => (.value (.number v.extent), [])
  | bound => (.value (.text v.bound.name), [])
  | isEmpty => (.value (.bool v.isEmpty), [])
  | isBound => (.value (.bool v.isBound), [])
  | span => (.value (.span v.span), [])
  | asBytes => (.value (.array v.bytes), [])
  | asString => (.value (.text v.text), [])
  | toText => (.value (.text v.plainText), [])
  | first => (.value (.ofOption .ofToken v.first?), [])
  | last => (.value (.ofOption .ofToken v.last?), [])
  | tokens => (.value (.list (v.tokens.map .ofToken)), [])
  | nth n => (.value (.ofOption .ofToken (v.nth? n)), [])
  | equals other => (.value (.bool (v.sameBytes other)), [])
  | hasPrefix literal => (.value (.bool (v.hasPrefix literal)), [])
  | clone => (.value (.view v), [])
  | endView => (.value (.view v.endView), [])
  | intoBound => (.value (.view v.intoBound), [])
  | intoBytes => (.value (.view v.intoBytes), [])
  | intoText op =>
    match v.kind with
    | .text => (.value (.view v), [])
    | .bytes => (.result ((v.intoText mode op).map .view), [])
  | intoNonEmpty => (.result ((v.intoNonEmpty mode).map .view), [])
  | splitAtOpt n => (.value (.ofOption pair (v.splitAt? n)), [])
  | splitAt n op => (.result ((v.splitAt mode n op).map pair), [])
  | splitAtByteOpt n => (.value (.ofOption pair (v.splitAtByte? n)), [])
  | splitAtByte n op => (.result ((v.splitAtByte mode n op).map pair), [])
  | splitFirst op =>
    (.result ((v.splitFirst mode op).map fun (t, rest) => .list [.ofToken t, .view rest]), [])
  | splitPrefixOpt literal => (.value (.ofOption pair (v.splitPrefix? literal)), [])
  | splitPrefix literal op => (.result ((v.splitPrefix mode literal op).map pair), [])
  | splitWhile p => (.value (pair (v.splitWhile p)), [])
  | splitUntilOpt p => (.value (.ofOption pair (v.splitUntil? p)), [])
  | splitUntil p op => (.result ((v.splitUntil mode p op).map pair), [])
  | splitUntilConsumeOpt p => (.value (.ofOption pair (v.splitUntilConsume? p)), [])
  | splitUntilConsume p op => (.result ((v.splitUntilConsume mode p op).map pair), [])
  | splitStrWhile accepts op =>
    (.result ((v.trySplitStrWhile mode (Action.sure accepts) op).map pair), [])
  | trySplitWhile check op => (.result ((v.trySplitWhile mode check op).map pair), [])
  | trySplitStrWhile check op => (.result ((v.trySplitStrWhile mode check op).map pair), [])
  | splitConsumed body =>
    let o := body.start debug mode depth v
    (.value (.list [.orAbsent o.result, .view (v.consumedHead o.rest), .view o.rest]), o.events)
  | trySplitConsumed body =>
    withRest (fun (a, head) => [a, .view head])
      (Read.tryTakeConsumed (body.start debug mode depth) v)
  | splitExpect expected op body =>
    let read := Read.map Scope.present (Read.unfailing (body.start debug mode depth))
    withRest (fun a => [a]) (Read.expect mode expected op read v)
  | trySplitExpect expected op body =>
    let read := Read.map Scope.present (body.start debug mode depth)
    withRest (fun a => [a]) (Read.expect mode expected op read v)
  | trySplitExpectErased expected op body =>
    withRest (fun a => [a]) (Read.expectErased mode expected op (body.start debug .invalid depth) v)
  | trySplitExternal expected op parser =>
    let answer := v.splitForeign mode parser expected op
    (.result (answer.map fun (a, rest) => .list [a, .view rest]), [])
  | intoExternal expected parser => (.result (v.intoForeign mode parser expected), [])
  | enter .infallible body =>
    let o := Entry.infallible.run debug mode depth body v
    match o.result with
    | .ok a => (.value a, o.events)
    | .error e => (.result (.error e), o.events)
  | enter entry body =>
    let o := entry.run debug mode depth body v
    (.result o.result, o.events)

/-- The view that a session goes on with: the value, or the item of it at an index. -/
def kept? (index : Nat) (a : Value) : Option View :=
  let picked :=
    match a with
    | .list values => values[index]?
    | a => some a
  match picked with
  | some (.view v) => some v
  | _ => none

/-- Where a session stands after a reply, of which it keeps the part at `index` if it keeps any. -/
def follow (index : Option Nat) (v : View) (r : Reply) : View :=
  (index.bind fun i => r.value?.bind (kept? i)).getD v

end Inquiry
end Untrusted
