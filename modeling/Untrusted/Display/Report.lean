import Untrusted.Display.Input

/-!
# Failures as text

A report is rendered with what was attempted, the input with the failure marked in it, and the
backtrace. A span outside the input is shown on its own, with a note. Colors change nothing but the
color of the parts.
-/

namespace Untrusted.Display

/-! ## Colors -/

inductive Style where
  | bold
  | red
  | yellow
  | cyan
  deriving DecidableEq, Repr

def Style.code : Style → String
  | bold => "\x1b[1m"
  | red => "\x1b[31m"
  | yellow => "\x1b[33m"
  | cyan => "\x1b[36m"

/-- What ends every style. -/
def plainCode : String := "\x1b[0m"

/-- Whether colors are used: they have to be asked for, and the environment can forbid them. -/
def colorsEnabled (env : Settings.Environment) (requested : Bool) : Bool :=
  requested && (env.value? "NO_COLOR").getD "" == "" && env.value? "FORCE_COLOR" != some "0"

def paint (enabled : Bool) (styles : List Style) (text : String) : String :=
  if !enabled || text == "" then text
  else String.join (styles.map Style.code) ++ text ++ plainCode

/-! ## Sections -/

structure Details where
  input : View
  span : Span
  expected : Option View
  description : String
  backtrace : Backtrace

def Details.ofReport (r : Report) : Details :=
  ⟨r.input, r.span, r.expected?, r.description, r.backtrace⟩

def spanNote : List String :=
  ["note: error span is not within the error input indicating the",
    "      concrete error being used has a bug. Consider raising an",
    "      issue with the maintainer!"]

def lineOf (bytes : List UInt8) (offset : Number) : Nat :=
  1 + (bytes.mapIdx fun i b => (i, b)).countP fun (i, b) => b == 0x0a && (Number.ofNat i).lt offset

def additional (v : View) (start : Number) : String :=
  let offsets :=
    "error offset: " ++ start.text ++ ", input length: " ++ v.extent.text
  match v.kind with
  | .text => "  error line: " ++ toString (lineOf v.bytes start) ++ ", " ++ offsets
  | .bytes => "  " ++ offsets

/-- The lines of a backtrace, given how many children stand right before. A frame is numbered by its
depth, and a child by its place among the children of its frame. -/
def backtraceLines (colors : Bool) : Nat → List (Nat × Frame) → List String
  | _, [] => []
  | children, (depth, f) :: rest =>
    let expected :=
      match f.expected with
      | some expected => " (expected " ++ expected ++ ")"
      | none => ""
    let name := paint colors [.yellow] ("\x60" ++ f.operation ++ "\x60") ++ expected
    if f.isChild then
      ("    " ++ toString (children + 1) ++ ". " ++ name) ::
        backtraceLines colors (children + 1) rest
    else ("  " ++ toString depth ++ ". " ++ name) :: backtraceLines colors 0 rest

/-! ## Reports -/

def inputMark : String := "> "

def ruleWidth : Nat := 60

def blanks (n : Nat) : String := String.ofList (List.replicate n ' ')

/-- The lines that show where a failure is. -/
def placeLines (settings : Settings) (o : Options) (colors : Bool) (d : Details) : List String :=
  match d.span.rangeOf? d.input.span with
  | none =>
    let strHint := o.strHint == some true || d.input.kind == .text
    spanNote.map (paint colors [.yellow]) ++
      [paint colors [.cyan] "span:",
        inputMark ++ renderBytes settings { o with strHint := some strHint } false d.span.bytes,
        paint colors [.cyan] "input:",
        inputMark ++ renderView settings o d.input]
  | some (start, stop) =>
    let (line, underline) := renderSpan settings o d.input start stop
    let carets := underline.dropWhile (· == ' ')
    [inputMark ++ line,
      blanks (inputMark.length + (underline.length - carets.length)) ++
        paint colors [.red] (String.ofList carets),
      paint colors [.cyan] "additional:",
      additional d.input start]

def reportLines (settings : Settings) (env : Settings.Environment) (o : Options) (d : Details) :
    List String :=
  let colors := colorsEnabled env (o.colors.getD (settings.getBoolean "display.colors" false))
  let header :=
    paint colors [.bold, .red] "error" ++ " attempting to " ++ d.backtrace.root.op.description ++
      ": " ++ paint colors [.bold] d.description
  let expected :=
    match d.expected with
    | some v =>
      [paint colors [.cyan] "expected:", inputMark ++ renderView settings o v,
        paint colors [.cyan] "in:"]
    | none => []
  let body :=
    header :: expected ++ placeLines settings o colors d ++
      paint colors [.cyan] "backtrace:" :: backtraceLines colors 0 d.backtrace.visits
  if o.banner.getD (settings.getBoolean "display.banner" false) then
    let title := "-- INPUT ERROR "
    (title ++ String.ofList (List.replicate (ruleWidth - title.length) '-')) :: body ++
      [String.ofList (List.replicate ruleWidth '-')]
  else body

def renderDetails (settings : Settings) (env : Settings.Environment) (o : Options) (d : Details) :
    String :=
  "\n".intercalate (reportLines settings env o d)

def renderFailure (settings : Settings) (env : Settings.Environment) (o : Options) :
    Failure → String
  | .report r => renderDetails settings env o (.ofReport r)
  | e => e.text

end Untrusted.Display
