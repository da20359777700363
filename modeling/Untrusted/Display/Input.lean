import Untrusted.Display.Layout
import Untrusted.Settings
import Untrusted.View

/-!
# Inputs as text

Renders an input on one line, all of it or the part around a span with the span marked beneath.
Whatever an option leaves open is taken from the settings.
-/

namespace Untrusted.Display

structure Options where
  maxElements : Option Number
  part : Option Section
  /-- Whether bytes that are valid UTF-8 are shown as text. -/
  strHint : Option Bool
  banner : Option Bool
  colors : Option Bool
  deriving Inhabited

def Options.none : Options := ⟨.none, .none, .none, .none, .none⟩

/-- Options with the settings put in for those that are open. -/
structure Resolved where
  limit : Limit
  part : Section
  strHint : Bool

def Options.resolve (settings : Settings) (o : Options) : Resolved where
  limit := limitOf (o.maxElements.getD ((settings.getNumber? "display.maxElements").getD 40))
  part := o.part.getD .headTail
  strHint := o.strHint.getD (settings.getBoolean "display.strHint" false)

def renderBytes (settings : Settings) (o : Options) (isText : Bool) (bytes : List UInt8) : String :=
  let r := o.resolve settings
  let (all, textual) := elements isText r.strHint bytes
  let shown := if r.part = .full then all else r.limit.reached all
  (layout shown (sectionWindow shown.length r.limit r.part) textual).line

def renderView (settings : Settings) (o : Options) (v : View) : String :=
  renderBytes settings o (v.kind == .text) v.bytes

/-- The index of the first element that ends after a position, or the number of elements. -/
def focus (shown : List Element) (start : Number) : Nat :=
  shown.findIdx fun e => start.lt e.stop

/-- Renders the part of a view around a span, given by offsets in the view. The second line marks
the span. -/
def renderSpan (settings : Settings) (o : Options) (v : View) (start stop : Number) :
    String × List Char :=
  let r := o.resolve settings
  let (all, textual) := elements (v.kind == .text) r.strHint v.bytes
  let shown := r.limit.reached all
  let l := layout shown (spanWindow shown.length r.limit (focus shown start)) textual
  (l.line, l.underline start stop)

end Untrusted.Display
