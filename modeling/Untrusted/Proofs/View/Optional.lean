import Mathlib
import Untrusted.View.Split

/-!
# Cuts that fail and cuts that find nothing

Each cut that can fail goes through exactly where its counterpart finds something, under any error
mode, and yields the same parts.
-/

namespace Untrusted.View

variable (mode : Mode) (v : View) (op : Operation)

theorem toOption_splitAt (n : Number) : (v.splitAt mode n op).toOption = v.splitAt? n := by
  unfold splitAt
  cases v.splitAt? n <;> rfl

theorem toOption_splitFirst : (v.splitFirst mode op).toOption = v.splitFirst? := by
  unfold splitFirst
  cases v.splitFirst? <;> rfl

theorem toOption_splitUntil (p : Pattern) :
    (v.splitUntil mode p op).toOption = v.splitUntil? p := by
  unfold splitUntil
  cases v.splitUntil? p <;> rfl

theorem toOption_splitUntilConsume (p : Pattern) :
    (v.splitUntilConsume mode p op).toOption = v.splitUntilConsume? p := by
  unfold splitUntilConsume
  cases v.splitUntilConsume? p <;> rfl

theorem toOption_splitPrefix (literal : List UInt8) :
    (v.splitPrefix mode literal op).toOption = v.splitPrefix? literal := by
  unfold splitPrefix
  cases v.splitPrefix? literal <;> rfl

end Untrusted.View
