import Untrusted.Program

/-!
# Steps by name

The steps of programs that are written down, found by their names and what they are given.
-/

namespace Untrusted

namespace Action

def ofLength? (name : String) : Option (Length → Action) :=
  [peek, peekOpt, take, takeOpt, skip, skipOpt, takeArray].find? fun f => (f .last).name == name

def ofPattern? (name : String) : Option (Pattern → Action) :=
  [takeWhile, skipWhile, takeUntil, takeUntilOpt, takeUntilConsume, takeUntilConsumeOpt, skipUntil,
    skipUntilOpt, skipUntilConsume, skipUntilConsumeOpt].find? fun f =>
      (f (.literal [])).name == name

def ofLiteral? (name : String) : Option (List UInt8 → Action) :=
  [peekEq, consume, consumeOpt].find? fun f => (f []).name == name

def ofCharTest? (name : String) : Option ((Nat → Bool) → Action) :=
  [takeStrWhile, skipStrWhile].find? fun f => (f fun _ => true).name == name

def ofCheck? (name : String) : Option (View.Check → Action) :=
  [tryTakeWhile, trySkipWhile, tryTakeStrWhile, trySkipStrWhile].find? fun f =>
    (f (sure fun _ => true)).name == name

/-- A step that is given nothing. -/
def ofName? (name : String) : Option Action :=
  [atEnd, remainingBytes, peekRemaining, takeRemaining, readU8, peekU8, peekU8Opt, readChar,
    peekChar, peekCharOpt, takeRemainingStr].find? fun a => a.name == name

end Action

namespace Scope

/-- A scope that is given what it expects. -/
def ofExpected? (name : String) : Option (String → Scope) :=
  [verify, tryVerify, expect, tryExpect, tryExpectErased].find? fun f => (f "").name == name

def ofName? (name : String) : Option Scope :=
  [takeConsumed, tryTakeConsumed, recover, bypass].find? fun s => s.name == name

/-- The failures that a scope recovers from, by name; any other name stands for none. -/
def recoverable (name : String) : Failure → Bool :=
  if name = "retryable" then Failure.isRetryable
  else if name = "fatal" then fun e => !e.isRetryable
  else if name = "always" then fun _ => true
  else fun _ => false

end Scope
end Untrusted
