import Untrusted.Number.Rounding

/-!
# Windows

Which elements of a long input are shown: one or two runs of them, given by the indices where each
run starts and ends.
-/

namespace Untrusted.Display

inductive Section where
  | full
  | head
  | tail
  | headTail
  deriving DecidableEq, Repr

namespace Section

def name : Section → String
  | full => "full"
  | head => "head"
  | tail => "tail"
  | headTail => "head-tail"

def ofName? (s : String) : Option Section := [full, head, tail, headTail].find? (·.name == s)

end Section

inductive Limit where
  | all
  | most (n : Nat)
  /-- No number, which reaches no element. -/
  | unordered
  deriving DecidableEq, Repr

/-- The limit that a number sets: its whole part, and at least one. -/
def limitOf : Number → Limit
  | .infinite false => .all
  | .infinite true => .most 1
  | .finite q => .most (max 1 q.floor.toNat)
  | .nan => .unordered

abbrev Window := List (Nat × Nat)

/-- The elements among which a window is taken. -/
def Limit.reached {α : Type} : Limit → List α → List α
  | .unordered, _ => []
  | _, elements => elements

def sectionWindow (count : Nat) (limit : Limit) (part : Section) : Window :=
  match limit with
  | .all => [(0, count)]
  | .unordered =>
    match part with
    | .full => [(0, count)]
    | .head | .tail => [(0, 0)]
    | .headTail => [(0, 0), (0, 0)]
  | .most most =>
    if count ≤ most then [(0, count)]
    else
      match part with
      | .full => [(0, count)]
      | .head => [(0, most)]
      | .tail => [(count - most, count)]
      | .headTail =>
        let head := (most + 1) / 2
        [(0, head), (count - (most - head), count)]

/-- The window around the element `focus`, which stands a quarter of the limit from its start unless
an end of the input is near. -/
def spanWindow (count : Nat) (limit : Limit) (focus : Nat) : Window :=
  match limit with
  | .all => [(0, count)]
  | .unordered => [(0, 0)]
  | .most most =>
    let start := min (focus - most / 4) (count - most)
    [(start, min count (start + most))]

end Untrusted.Display
