import Untrusted.Display.Elements
import Untrusted.Display.Window

/-!
# Layout

A window of elements on one line, with a mark wherever elements were left out. Chars stand between
double quotes and bytes between brackets. Each element keeps its column, counted in 16-bit units, so
that a span can be marked beneath it.
-/

namespace Untrusted.Display

/-- A part of a line, which shows an element or stands between elements. -/
structure Piece where
  text : List Char
  element : Option Element
  deriving DecidableEq, Repr

namespace Piece

def ofElement (e : Element) : Piece := ⟨e.text, some e⟩

def cut : Piece := ⟨['.', '.'], none⟩

def quote : Piece := ⟨['"'], none⟩

def blank : Piece := ⟨[' '], none⟩

def width (p : Piece) : Nat := (Utf8.units p.text).length

end Piece

def width : List Piece → Nat
  | [] => 0
  | p :: pieces => p.width + width pieces

def run (elements : List Element) (range : Nat × Nat) : List Piece :=
  ((elements.take range.2).drop range.1).map .ofElement

/-- Whether elements after a window were left out. -/
def cutAtEnd (count : Nat) (window : Window) : Bool :=
  match window.getLast? with
  | some (_, stop) => stop < count
  | none => false

/-- The runs of a window. One has a mark before it unless it starts the input. -/
def runs (elements : List Element) (wrap : List Piece → List Piece) (window : Window) :
    List Piece :=
  (window.mapIdx fun n range =>
    (if 0 < n ∨ 0 < range.1 then [Piece.cut] else []) ++ wrap (run elements range)).flatten

def spaced : List Piece → List Piece
  | [] => []
  | [p] => [p]
  | p :: rest => p :: .blank :: spaced rest

/-- A line as pieces, and the column just past the last element shown. -/
structure Layout where
  pieces : List Piece
  endColumn : Nat
  deriving Repr

def layout (elements : List Element) (window : Window) (textual : Bool) : Layout :=
  let after := if cutAtEnd elements.length window then [Piece.cut] else []
  if textual then
    let shown := runs elements (fun r => .quote :: r ++ [.quote]) window
    ⟨shown ++ after, width shown - 1⟩
  else
    let shown := ⟨['['], none⟩ :: spaced (runs elements id window ++ after)
    ⟨shown ++ [⟨[']'], none⟩], width shown⟩

namespace Layout

def line (l : Layout) : String := String.ofList (l.pieces.flatMap Piece.text)

def placedFrom : Nat → List Piece → List (Element × Nat)
  | _, [] => []
  | column, p :: rest =>
    let later := placedFrom (column + p.width) rest
    match p.element with
    | some e => (e, column) :: later
    | none => later

def placed (l : Layout) : List (Element × Nat) := placedFrom 0 l.pieces

/-- The columns that are marked beneath a line, each range as its first column and its width. -/
def marks (l : Layout) (start stop : Number) : List (Nat × Nat) :=
  if start.same stop then
    match l.placed.find? fun (e, _) => start.le e.start with
    | some (_, column) => [(column, 1)]
    | none => [(l.endColumn, 1)]
  else
    (l.placed.filter fun (e, _) => (Number.ofNat e.start).lt stop && start.lt e.stop).map
      fun (e, column) => (column, max 1 (Utf8.units e.text).length)

/-- Carets in the marked columns from `column` on, with blanks before and between them. -/
def caretsFrom (column : Nat) : List (Nat × Nat) → List Char
  | [] => []
  | (first, n) :: rest =>
    List.replicate (first - column) ' ' ++ List.replicate n '^' ++ caretsFrom (first + n) rest

def underline (l : Layout) (start stop : Number) : List Char := caretsFrom 0 (l.marks start stop)

end Layout
end Untrusted.Display
