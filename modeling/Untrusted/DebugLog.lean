/-!
# The debug log

Lines say which part of the library wrote them. A writer may put a mark before each line.
-/

namespace Untrusted.DebugLog

def line (scope message : String) : String := "[caution:" ++ scope ++ "] " ++ message

/-- A line as a writer with a mark passes it on. -/
def written (mark : Option String) (line : String) : String := mark.getD "" ++ line

end Untrusted.DebugLog
