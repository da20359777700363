import Untrusted.Reader

/-!
# Reader programs

A program is a sequence of steps on one reader, some of which run a program of their own inside a
scope. What comes next may depend on the value of the step before it. A failed step ends the program
with its failure unless the step is soft; then it yields no value and the program goes on.
-/

namespace Untrusted

/-- A length given outright, or by the value of the step before. -/
inductive Length where
  | given (n : Number)
  | last

/-- Steps that run no program. -/
inductive Action where
  | peek (n : Length)
  | peekOpt (n : Length)
  | take (n : Length)
  | takeOpt (n : Length)
  | skip (n : Length)
  | skipOpt (n : Length)
  | takeArray (n : Length)
  | takeWhile (p : Pattern)
  | skipWhile (p : Pattern)
  | takeUntil (p : Pattern)
  | takeUntilOpt (p : Pattern)
  | takeUntilConsume (p : Pattern)
  | takeUntilConsumeOpt (p : Pattern)
  | skipUntil (p : Pattern)
  | skipUntilOpt (p : Pattern)
  | skipUntilConsume (p : Pattern)
  | skipUntilConsumeOpt (p : Pattern)
  | peekEq (literal : List UInt8)
  | consume (literal : List UInt8)
  | consumeOpt (literal : List UInt8)
  | atEnd
  | remainingBytes
  | peekRemaining
  | takeRemaining
  | readU8
  | peekU8
  | peekU8Opt
  | readChar
  | peekChar
  | peekCharOpt
  | readNum (kind : NumericKind) (endian : Endian)
  | takeRemainingStr
  | takeStrWhile (accepts : Nat → Bool)
  | skipStrWhile (accepts : Nat → Bool)
  | tryTakeWhile (check : View.Check)
  | trySkipWhile (check : View.Check)
  | tryTakeStrWhile (check : View.Check)
  | trySkipStrWhile (check : View.Check)
  | tryExpectExternal (expected : String) (parser : Foreign (Value × Number))
  | fail (cause : Cause)

/-- Which part of the view a sub-parse reads, and how. -/
structure Part where
  /-- How many tokens it takes; everything that is left if absent. -/
  length : Option Length
  /-- Whether the part is taken as settled. -/
  bound : Bool
  kind : Option Kind
  whole : Bool

/-- Steps that run a program. -/
inductive Scope where
  | context (frame : Frame)
  | peekContext (frame : Frame)
  | takeConsumed
  | tryTakeConsumed
  | recover
  | recoverIf (accepts : Failure → Bool)
  | errorScope (mode : Mode)
  | verify (expected : String)
  | tryVerify (expected : String)
  | expect (expected : String)
  | tryExpect (expected : String)
  | tryExpectErased (expected : String)
  | sub (part : Part)
  | bypass

inductive Program where
  /-- Yields the value of the step before. -/
  | done
  | finish (value : Value)
  /-- Goes on as the value of the step before has it. -/
  | choose (next : Value → Program)
  /-- Runs `body` while input is left, at most `most` times, and yields the list of its values. -/
  | repeat (most : Nat) (body next : Program)
  | act (action : Action) (soft : Bool) (next : Program)
  | within (scope : Scope) (soft : Bool) (body next : Program)

/-! ## Steps that run no program -/

namespace Length

def toNumber (last : Value) : Length → Number
  | .given n => n
  | .last => last.toNumber

end Length

namespace Action

def name : Action → String
  | peek _ => "peek"
  | peekOpt _ => "peekOpt"
  | take _ => "take"
  | takeOpt _ => "takeOpt"
  | skip _ => "skip"
  | skipOpt _ => "skipOpt"
  | takeArray _ => "takeArray"
  | takeWhile _ => "takeWhile"
  | skipWhile _ => "skipWhile"
  | takeUntil _ => "takeUntil"
  | takeUntilOpt _ => "takeUntilOpt"
  | takeUntilConsume _ => "takeUntilConsume"
  | takeUntilConsumeOpt _ => "takeUntilConsumeOpt"
  | skipUntil _ => "skipUntil"
  | skipUntilOpt _ => "skipUntilOpt"
  | skipUntilConsume _ => "skipUntilConsume"
  | skipUntilConsumeOpt _ => "skipUntilConsumeOpt"
  | peekEq _ => "peekEq"
  | consume _ => "consume"
  | consumeOpt _ => "consumeOpt"
  | atEnd => "atEnd"
  | remainingBytes => "remainingBytes"
  | peekRemaining => "peekRemaining"
  | takeRemaining => "takeRemaining"
  | readU8 => "readU8"
  | peekU8 => "peekU8"
  | peekU8Opt => "peekU8Opt"
  | readChar => "readChar"
  | peekChar => "peekChar"
  | peekCharOpt => "peekCharOpt"
  | readNum _ _ => "readNum"
  | takeRemainingStr => "takeRemainingStr"
  | takeStrWhile _ => "takeStrWhile"
  | skipStrWhile _ => "skipStrWhile"
  | tryTakeWhile _ => "tryTakeWhile"
  | trySkipWhile _ => "trySkipWhile"
  | tryTakeStrWhile _ => "tryTakeStrWhile"
  | trySkipStrWhile _ => "trySkipStrWhile"
  | tryExpectExternal _ _ => "tryExpectExternal"
  | fail _ => "fail"

open Read

def viewOrAbsent : Option View → Value := .ofOption .view

def wasFound (part : Option View) : Value := .bool part.isSome

def nothing {α : Type} (_ : α) : Value := .absent

def readNumber (kind : NumericKind) (endian : Endian) (v : View) : Value :=
  .ofOption .ofReading (FixedWidth.decode? kind endian v.bytes)

def sure (accepts : Nat → Bool) : View.Check := fun t => .ok (accepts t)

/-- What a step does, after a step that yielded `last`. -/
def run (mode : Mode) (last : Value) : Action → Read Value
  | peek n => look fun v => (v.splitAt mode (n.toNumber last) .peek).map fun (head, _) => .view head
  | peekOpt n => look fun v => .ok (viewOrAbsent ((v.splitAt? (n.toNumber last)).map Prod.fst))
  | take n => map .view (ofCut fun v => v.splitAt mode (n.toNumber last) .take)
  | takeOpt n => map viewOrAbsent (ofParts? fun v => v.splitAt? (n.toNumber last))
  | skip n => map nothing (ofCut fun v => v.splitAt mode (n.toNumber last) .skip)
  | skipOpt n => map wasFound (ofParts? fun v => v.splitAt? (n.toNumber last))
  | takeArray n =>
    map (fun head => .array head.bytes) (ofCut fun v => v.splitAt mode (n.toNumber last) .takeArray)
  | takeWhile p => map .view (ofParts fun v => v.splitWhile p)
  | skipWhile p => map nothing (ofParts fun v => v.splitWhile p)
  | takeUntil p => map .view (ofCut fun v => v.splitUntil mode p .takeUntil)
  | takeUntilOpt p => map viewOrAbsent (ofParts? fun v => v.splitUntil? p)
  | takeUntilConsume p => map .view (ofCut fun v => v.splitUntilConsume mode p .takeUntilConsume)
  | takeUntilConsumeOpt p => map viewOrAbsent (ofParts? fun v => v.splitUntilConsume? p)
  | skipUntil p => map nothing (ofCut fun v => v.splitUntil mode p .skipUntil)
  | skipUntilOpt p => map wasFound (ofParts? fun v => v.splitUntil? p)
  | skipUntilConsume p => map nothing (ofCut fun v => v.splitUntilConsume mode p .skipUntilConsume)
  | skipUntilConsumeOpt p => map wasFound (ofParts? fun v => v.splitUntilConsume? p)
  | peekEq literal => look fun v => .ok (.bool (v.hasPrefix literal))
  | consume literal => map nothing (ofCut fun v => v.splitPrefix mode literal .consume)
  | consumeOpt literal => map wasFound (ofParts? fun v => v.splitPrefix? literal)
  | atEnd => look fun v => .ok (.bool v.isEmpty)
  | remainingBytes => look fun v => .ok (.number v.extent)
  | peekRemaining => look fun v => .ok (.view v)
  | takeRemaining => map .view (ofParts View.exhausted)
  | readU8 => map .ofToken (ofCut fun v => v.splitFirst mode .readU8)
  | peekU8 => look fun v => (v.splitFirst mode .peekU8).map fun (t, _) => .ofToken t
  | peekU8Opt => look fun v => .ok (.ofOption .ofToken v.first?)
  | readChar => map .ofToken (ofCut fun v => v.splitFirst mode .readChar)
  | peekChar => look fun v => (v.splitFirst mode .peekChar).map fun (t, _) => .ofToken t
  | peekCharOpt => look fun v => .ok (.ofOption .ofToken v.first?)
  | readNum kind endian =>
    map (readNumber kind endian) (ofCut fun v => v.splitAt mode kind.width .readNum)
  | takeRemainingStr =>
    map .view (ofCut fun v => (v.intoText mode .takeRemainingStr).map fun t => (t, v.endView))
  | takeStrWhile accepts =>
    map .view (ofCut fun v => v.trySplitStrWhile mode (sure accepts) .takeStrWhile)
  | skipStrWhile accepts =>
    map nothing (ofCut fun v => v.trySplitStrWhile mode (sure accepts) .skipStrWhile)
  | tryTakeWhile check => map .view (ofCut fun v => v.trySplitWhile mode check .takeWhile)
  | trySkipWhile check => map nothing (ofCut fun v => v.trySplitWhile mode check .skipWhile)
  | tryTakeStrWhile check => map .view (ofCut fun v => v.trySplitStrWhile mode check .takeStrWhile)
  | trySkipStrWhile check =>
    map nothing (ofCut fun v => v.trySplitStrWhile mode check .skipStrWhile)
  | tryExpectExternal expected parser =>
    ofCut fun v => v.splitForeign mode parser expected .expectExternal
  | fail cause => look fun _ => .error (mode.raise cause)

end Action

/-! ## Steps that run a program -/

namespace Part

def split (mode : Mode) (last : Value) (p : Part) (v : View) : Except Failure (View × View) :=
  match p.length with
  | some n => v.splitAt mode (n.toNumber last) .take
  | none => .ok v.exhausted

/-- What was taken, as the sub-parse is to read it. -/
def convert (mode : Mode) (p : Part) (head : View) : Except Failure View :=
  let part := if p.bound then head.intoBound else head
  match p.kind with
  | none => .ok part
  | some .bytes => .ok part.intoBytes
  | some .text => part.intoText mode .intoText

/-- The part of a view, and the view after it. What was taken stays taken if it is then no text. -/
def take (mode : Mode) (last : Value) (p : Part) : Read View := fun v =>
  match p.split mode last v with
  | .error e => ⟨.error e, v, []⟩
  | .ok (head, tail) => ⟨p.convert mode head, tail, []⟩

/-- What a sub-parse makes of its part: the value of `body`, with what it left unless it had to
read to the end. -/
def within (mode : Mode) (debug : Bool) (p : Part) (body : Read Value) : Read Value :=
  if p.whole then Read.readAll mode debug body
  else Read.map (fun (a, rest) => .list [a, .view rest]) (Read.readPartial debug body)

def read (mode : Mode) (debug : Bool) (last : Value) (p : Part) (body : Read Value) :
    Read Value := fun v =>
  let taken := p.take mode last v
  match taken.result with
  | .error e => ⟨.error e, taken.rest, []⟩
  | .ok part => { p.within mode debug body part with rest := taken.rest }

end Part

namespace Scope

def name : Scope → String
  | context _ => "context"
  | peekContext _ => "peekContext"
  | takeConsumed => "takeConsumed"
  | tryTakeConsumed => "tryTakeConsumed"
  | recover => "recover"
  | recoverIf _ => "recoverIf"
  | errorScope _ => "errorScope"
  | verify _ => "verify"
  | tryVerify _ => "tryVerify"
  | expect _ => "expect"
  | tryExpect _ => "tryExpect"
  | tryExpectErased _ => "tryExpectErased"
  | sub _ => "sub"
  | bypass => "bypass"

def present (a : Value) : Option Value := if a.isAbsent then none else some a

def confirmed (a : Value) : Option Value := if a.confirms then some .absent else none

open Read

/-- What a step does with the program `body`, which runs under the mode it is given. -/
def run (mode : Mode) (debug : Bool) (last : Value) (body : Mode → Read Value) :
    Scope → Read Value
  | context f => Read.context f (body mode)
  | peekContext f => Read.peekContext f (body mode)
  | takeConsumed =>
    map (fun (r, head) => .list [.orAbsent r, .view head]) (Read.takeConsumed (body mode))
  | tryTakeConsumed =>
    map (fun (a, head) => .list [a, .view head]) (Read.tryTakeConsumed (body mode))
  | recover => map (.ofOption id) (Read.recover (body mode))
  | recoverIf accepts => map (.ofOption id) (Read.recoverIf accepts (body mode))
  | errorScope inner => Read.errorScope (body inner)
  | verify expected =>
    Read.expect mode expected .verify (map confirmed (unfailing (body mode)))
  | tryVerify expected => Read.expect mode expected .verify (map confirmed (body mode))
  | expect expected => Read.expect mode expected .expect (map present (unfailing (body mode)))
  | tryExpect expected => Read.expect mode expected .expect (map present (body mode))
  | tryExpectErased expected => Read.expectErased mode expected .expectErased (body .invalid)
  | sub part => part.read mode debug last (body mode)
  | bypass => body .infallible

end Scope

/-! ## Programs -/

namespace Program

def rounds (body : Read Value) : (most : Nat) → Read (List Value)
  | 0 => Read.pure []
  | most + 1 => fun v =>
    if v.isEmpty then Read.pure [] v
    else Read.andThen body (fun a => Read.map (a :: ·) (rounds body most)) v

/-- Makes a step and records it. The failure of a soft step counts as no value. -/
def step (depth : Nat) (name : String) (soft : Bool) (p : Read Value) : Read Value :=
  if soft then Read.unfailing (Read.recorded depth name p) else Read.recorded depth name p

/-- Runs a program whose steps are `depth` deep, after a step that yielded `last`. -/
def run (debug : Bool) : Program → Mode → Nat → Value → Read Value
  | .done, _, _, last => Read.pure last
  | .finish value, _, _, _ => Read.pure value
  | .choose next, mode, depth, last => (next last).run debug mode depth last
  | .repeat most body next, mode, depth, _ =>
    Read.andThen (rounds (body.run debug mode (depth + 1) .absent) most) fun values =>
      next.run debug mode depth (.list values)
  | .act action soft next, mode, depth, last =>
    Read.andThen (step depth action.name soft (action.run mode last)) (next.run debug mode depth)
  | .within scope soft body next, mode, depth, last =>
    let inner (m : Mode) : Read Value := body.run debug m (depth + 1) .absent
    Read.andThen (step depth scope.name soft (scope.run mode debug last inner))
      (next.run debug mode depth)

def start (debug : Bool) (mode : Mode) (depth : Nat) (p : Program) : Read Value :=
  p.run debug mode depth .absent

end Program

/-! ## Entry points -/

inductive Entry where
  | all
  | part
  | infallible
  deriving DecidableEq, Repr

namespace Entry

/-- Runs a program whose steps are `depth` deep on a view. -/
def run (debug : Bool) (mode : Mode) (depth : Nat) (p : Program) : Entry → Read Value
  | all => Read.readAll mode debug (p.start debug mode depth)
  | part =>
    (Read.readPartial debug (p.start debug mode depth)).map fun (a, rest) => .list [a, .view rest]
  | infallible => fun v =>
    let o := p.start debug .infallible depth v
    o.map fun a => .list [a, .view o.rest]

end Entry
end Untrusted
