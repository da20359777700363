/-!
# Bounds

Whether the ends of an input may still move when more of the same data arrives. The start of an
input is settled unless it is the empty input at an undetermined end.
-/

namespace Untrusted

inductive Bound where
  /-- Both ends may move. -/
  | unbounded
  /-- The start is fixed and the end may grow. -/
  | startBounded
  /-- Neither end moves, so no failure over the input can be retried. -/
  | fullyBounded
  deriving DecidableEq, Repr, Inhabited

namespace Bound

def name : Bound → String
  | unbounded => "unbounded"
  | startBounded => "start-bounded"
  | fullyBounded => "fully-bounded"

def ofName? (s : String) : Option Bound :=
  [unbounded, startBounded, fullyBounded].find? (·.name == s)

theorem ofName?_name (b : Bound) : ofName? b.name = some b := by cases b <;> rfl

/-- The bound of a head of known length. Only an empty input is unbounded, so such a head is
settled whatever it was cut from. -/
def closeEnd (_ : Bound) : Bound := fullyBounded

/-- The bound of a consumed head whose reader could have gone on. -/
def openEnd : Bound → Bound
  | unbounded => unbounded
  | _ => startBounded

def forEnd : Bound → Bound
  | fullyBounded => fullyBounded
  | _ => unbounded

end Bound
end Untrusted
