import Untrusted.Backtrace
import Untrusted.Retry
import Untrusted.View

/-!
# Causes of failure

A read fails because a value is not the expected one, because there is too little or too much input,
or because what is there is not valid. Each cause says whether more input could still help, and how
much of it: never over an input that is settled.
-/

namespace Untrusted

inductive Expectation where
  | value (expected : View)
  /-- At least `least` bytes, or exactly `most` if that is given. -/
  | length (least : Number) (most : Option Number)
  /-- Something valid; the operation may know how much input could still make it so. -/
  | valid (retry : Option Retry)
  deriving DecidableEq, Repr

structure Cause where
  expectation : Expectation
  root : RootFrame
  input : View
  deriving DecidableEq, Repr

namespace Cause

def span (c : Cause) : Span := c.root.span

/-- Whether what was found can still become the expected value. -/
def mayBecome (c : Cause) (expected : View) : Bool :=
  match c.span.bytesOf? c.input.window with
  | some found => found.isPrefixOf expected.bytes
  | none => false

/-- Whether no amount of further input helps. -/
def isFatal (c : Cause) : Bool :=
  c.input.isBound ||
    match c.expectation with
    | .value expected => !c.mayBecome expected
    | .length _ most => most.isSome
    | .valid retry => retry.isNone

def requirement (c : Cause) : Option Retry :=
  if c.isFatal then none
  else
    match c.expectation with
    | .value expected => Retry.ofHadAndNeeded? c.span.length expected.extent
    | .length least _ => Retry.ofHadAndNeeded? c.span.length least
    | .valid retry => retry

def describeLength (least : Number) (most : Option Number) : String :=
  match most with
  | none => "at least " ++ byteCount least
  | some n => "exactly " ++ byteCount n

def description (c : Cause) : String :=
  match c.expectation with
  | .value _ =>
    if c.isFatal then "found a different value to the exact expected"
    else "not enough input to match expected value"
  | .length least most =>
    "found " ++ byteCount c.span.length ++ " when " ++ describeLength least most ++ " was expected"
  | .valid _ => "expected " ++ c.root.expected

end Cause
end Untrusted
