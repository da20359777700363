import Untrusted.Backtrace
import Untrusted.Retry
import Untrusted.View

/-!
# Foreign parsers

A parser that knows nothing of views' errors. What it says of a failure is optional: a place, a
requirement for a retry, and frames of its own.
-/

namespace Untrusted

structure ForeignFailure where
  span : Option Span
  retry : Option Retry
  /-- The innermost first. -/
  frames : List Frame
  deriving DecidableEq, Repr

abbrev Foreign (α : Type) := View → Except ForeignFailure α

namespace Foreign

/-- Reads the ASCII digits that a view starts with as a number, and says how many they were. -/
def digits : Foreign (Number × Number) := fun v =>
  let found := v.bytes.takeWhile fun b => 0x30 ≤ b && b ≤ 0x39
  if found.isEmpty then .error ⟨none, Retry.create? 1, []⟩
  else
    let value := found.foldl (fun n b => n * 10 + (b.toNat - 0x30)) 0
    .ok (.ofDecimal false value 0, found.length)

end Foreign
end Untrusted
