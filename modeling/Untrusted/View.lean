import Untrusted.Bound
import Untrusted.Pattern
import Untrusted.Span
import Untrusted.Text.Hex

/-!
# Views

A view is a range of a source with a bound. Cutting a view gives views of the same source, so their
spans compare. The tokens of a view are its bytes or, for text, its chars.

A pattern of the caller's own may reject a place that the view does not have, or one inside a char.
The view is cut there all the same, and its parts are stray: they go by numbers that are no range of
whole tokens. A token of a stray view is still one that its source has where the view says.
-/

namespace Untrusted

inductive Kind where
  | bytes
  | text
  deriving DecidableEq, Repr

inductive Token where
  | byte (b : UInt8)
  | char (c : Char)
  deriving DecidableEq, Repr

def Token.value : Token → Nat
  | .byte b => b.toNat
  | .char c => c.toNat

/-- The token that bytes start with, and its length. -/
def Kind.token? : Kind → List UInt8 → Option (Token × Nat)
  | .bytes, l => l.head?.map fun b => (.byte b, 1)
  | .text, l =>
    match Utf8.decode l with
    | .ok (c, n) => some (.char c, n)
    | .error _ => none

/-- Where the last char before `stop` starts, if the bytes are valid. A number that is no length has
nothing before it to go back over. -/
def Utf8.lastCharBefore (bytes : List UInt8) (stop : Number) : Number :=
  match (stop.sub 1).toNat? with
  | some i => lastCharStart bytes (i + 1)
  | none => (stop.sub 1).greatest 0

/-- The numbers that a stray view goes by. -/
structure Stray where
  offset : Number
  size : Number
  deriving DecidableEq, Repr

structure View where
  source : Source
  /-- Where the bytes of the view start in its source. -/
  offset : Nat
  size : Nat
  bound : Bound
  kind : Kind
  stray : Option Stray
  deriving DecidableEq, Repr

namespace View

def ofSource (s : Source) (kind : Kind) : View := ⟨s, 0, s.size, .startBounded, kind, none⟩

/-- A literal as an input of its own, for errors that name the value they expected. -/
def ofLiteral (bytes : List UInt8) (kind : Kind) : View :=
  ⟨.ofBytes 0 bytes, 0, bytes.length, .fullyBounded, kind, none⟩

/-! ## The numbers of a view -/

def start (v : View) : Number :=
  match v.stray with
  | none => v.offset
  | some s => s.offset

/-- The number of bytes that a view goes by. -/
def extent (v : View) : Number :=
  match v.stray with
  | none => v.size
  | some s => s.size

def position (v : View) (n : Number) : Number :=
  match v.stray with
  | none => Number.shift v.offset n
  | some s => s.offset.add n

def stop (v : View) : Number := v.position v.extent

def bytes (v : View) : List UInt8 := v.source.slice v.offset v.size

/-- Whether the bytes of a view are whole tokens. -/
def isWhole (v : View) : Bool :=
  match v.kind with
  | .bytes => true
  | .text => Utf8.isValid v.bytes

/-- The view of the same source that goes by other numbers. It is stray unless they are a range of
whole tokens. -/
def place (v : View) (offset size : Number) (bound : Bound) : View :=
  let first := offset.toIndex v.source.size
  let last := (offset.add size).toIndex v.source.size
  let inside := { v with offset := first, size := last - first, bound, stray := none }
  if Number.ofNat inside.offset = offset ∧ Number.ofNat inside.size = size ∧ inside.isWhole then
    inside
  else { inside with stray := some ⟨offset, size⟩ }

/-! ## What a view holds -/

def window (v : View) : Source :=
  let start := min v.offset v.source.size
  ⟨v.source.buffer, v.source.start + start, min v.size (v.source.size - start)⟩

def isEmpty (v : View) : Bool :=
  match v.stray with
  | none => v.size == 0
  | some s => s.size.same 0

def isBound (v : View) : Bool := v.bound == .fullyBounded

def intoBound (v : View) : View := { v with bound := .fullyBounded }

def intoBytes (v : View) : View := { v with kind := .bytes }

def span (v : View) : Span := .within v.source v.start v.stop

/-- The empty view at the end of a view. -/
def endView (v : View) : View :=
  match v.stray with
  | none => { v with offset := v.offset + v.size, size := 0, bound := v.bound.forEnd }
  | some _ => v.place v.stop 0 v.bound.forEnd

def text (v : View) : String :=
  match v.stray with
  | none => Utf8.decodeText v.bytes
  | some _ => String.ofList (Utf8.repaired v.bytes)

/-- What a view holds: a text itself, and bytes in hexadecimal. -/
def plainText (v : View) : String :=
  match v.kind with
  | .text => v.text
  | .bytes => "[" ++ " ".intercalate (v.bytes.map fun b => String.ofList (Text.hex b)) ++ "]"

/-! ## Tokens -/

def ahead (v : View) (count : Nat) : List UInt8 := v.source.slice v.offset (min count v.size)

theorem ahead_eq (v : View) (count : Nat) : v.ahead count = v.bytes.take count := by
  unfold ahead bytes
  rw [Source.slice_eq, Source.slice_eq, List.take_take]

/-- The token that starts `i` bytes into a stray view, and its length. -/
def strayEntry? (v : View) (i : Number) : Option (Token × Nat) :=
  if i.lt 0 || v.extent.le i then none
  else v.kind.token? (v.source.sliceAt (v.start.add i) Utf8.maxLength)

/-- The tokens of a stray view from `i` bytes on, at most as many as are asked for. -/
def strayEntries (v : View) : Nat → Nat → List (Token × Nat)
  | 0, _ => []
  | most + 1, i =>
    if (Number.ofNat i).lt v.extent then
      match v.strayEntry? i with
      | some (t, n) => (t, n) :: v.strayEntries most (i + n)
      | none => []
    else []

def entries (v : View) : List (Token × Nat) :=
  match v.stray, v.kind with
  | none, .bytes => v.bytes.map fun b => (.byte b, 1)
  | none, .text => (Utf8.scan v.bytes).1.map fun (c, n) => (.char c, n)
  | some _, _ => v.strayEntries (v.source.size + 1) 0

def tokens (v : View) : List Token := v.entries.map Prod.fst

/-- How many positions from `i` on, but before `stop`, no char goes on at; at most `most` are looked
at. -/
def startsBefore (s : Source) (stop : Number) : Nat → Number → Nat
  | 0, _ => 0
  | most + 1, i =>
    if i.lt stop then
      let later := startsBefore s stop most (i.add 1)
      if (s.sliceAt i 1).any Utf8.isContinuation then later else later + 1
    else 0

/-- The number of tokens; a text has one per position that no char goes on at. -/
def length (v : View) : Number :=
  match v.stray, v.kind with
  | _, .bytes => v.extent
  | none, .text => (v.bytes.countP fun b => !Utf8.isContinuation b : Nat)
  | some _, .text => (startsBefore v.source v.stop (v.extent.countBelow + 1) v.start : Nat)

def firstEntry? (v : View) : Option (Token × Nat) :=
  match v.stray with
  | none => v.kind.token? (v.ahead Utf8.maxLength)
  | some _ => v.strayEntry? 0

def first? (v : View) : Option Token := v.firstEntry?.map Prod.fst

/-- The offset in bytes and the value of the first of `tokens` whose value `stops` holds of, where
the tokens start `i` bytes in. -/
def entryWhere? (stops : Nat → Bool) : Nat → List (Token × Nat) → Option (Nat × Nat)
  | _, [] => none
  | i, (t, n) :: rest =>
    if stops t.value then some (i, t.value) else entryWhere? stops (i + n) rest

def firstWhere? (v : View) (stops : Nat → Bool) : Option (Nat × Nat) :=
  match v.stray, v.kind with
  | none, .bytes =>
    let bytes := v.bytes
    (bytes.findIdx? fun b => stops b.toNat).map fun i => (i, (bytes.getD i 0).toNat)
  | none, .text =>
    match Utf8.scanTo (fun c => stops c.toNat) 0 v.bytes with
    | (i, some (.ok (c, _))) => some (i, c.toNat)
    | _ => none
  | some _, _ => entryWhere? stops 0 v.entries

/-- The last token, found from the end. -/
def last? (v : View) : Option Token :=
  match v.stray, v.kind with
  | none, .bytes => v.bytes.getLast?.map .byte
  | none, .text =>
    (Kind.text.token? (v.bytes.drop (Utf8.lastCharStart v.bytes v.size))).map Prod.fst
  | some _, .bytes =>
    if v.isEmpty then none
    else (Kind.bytes.token? (v.source.sliceAt (v.stop.sub 1) 1)).map Prod.fst
  | some _, .text =>
    if v.isEmpty then none
    else (v.strayEntry? (Utf8.lastCharBefore v.bytes v.extent)).map Prod.fst

def nth? (v : View) (n : Number) : Option Token := n.toNat?.bind fun i => v.tokens[i]?

def sameBytes (v other : View) : Bool := v.bytes == other.bytes

def hasPrefix (v : View) (literal : List UInt8) : Bool := literal.isPrefixOf v.bytes

/-- The offset of the token `count` tokens after the one `i` bytes into a stray view. -/
def strayIndex? (v : View) : Nat → Nat → Option Nat
  | 0, i => some i
  | count + 1, i => (v.strayEntry? i).bind fun (_, n) => v.strayIndex? count (i + n)

/-- The offset in bytes of the token at `index`, or of the end if `index` is the number of
tokens. -/
def byteIndex? (v : View) (index : Nat) : Option Nat :=
  match v.stray, v.kind with
  | _, .bytes => if Number.le index v.extent then some index else none
  | none, .text => Utf8.charsLength? index 0 (v.ahead (Utf8.maxLength * index))
  | some _, .text => v.strayIndex? index 0

/-- Whether no char goes on `i` bytes into a view. -/
def startsAt (v : View) (i : Nat) : Bool :=
  match v.stray with
  | none => !(v.ahead (i + 1))[i]?.any Utf8.isContinuation
  | some s => !(v.source.sliceAt (s.offset.add i) 1).any Utf8.isContinuation

/-- Whether a cut after `i` bytes leaves both parts whole. -/
def isBoundary (v : View) (i : Nat) : Bool :=
  match v.kind with
  | .bytes => Number.le i v.extent
  | .text => !v.extent.lt i && ((Number.ofNat i).same v.extent || v.startsAt i)

/-! ## Cutting -/

/-- Cuts after `mid` bytes, whatever number that is. -/
def cutAnywhere (v : View) (mid : Number) : View × View :=
  (v.place v.start mid v.bound.closeEnd, v.place (v.start.add mid) (v.extent.sub mid) v.bound)

/-- Cuts after `mid` bytes, which the caller knows to be a boundary. -/
def cut (v : View) (mid : Nat) : View × View :=
  match v.stray with
  | none =>
    ({ v with size := mid, bound := v.bound.closeEnd },
      { v with offset := v.offset + mid, size := v.size - mid })
  | some _ => v.cutAnywhere mid

def exhausted (v : View) : View × View := (v, v.endView)

def splitAt? (v : View) (n : Number) : Option (View × View) :=
  (n.toNat?.bind v.byteIndex?).map v.cut

def splitAtByte? (v : View) (n : Number) : Option (View × View) :=
  n.toNat?.bind fun i => if n.le v.extent && v.isBoundary i then some (v.cut i) else none

def splitFirst? (v : View) : Option (Token × View) :=
  if Number.lt 0 v.extent then v.firstEntry?.map fun (t, n) => (t, (v.cut n).2) else none

def splitWhile (v : View) (p : Pattern) : View × View :=
  match p.reject? v.bytes with
  | none => v.exhausted
  | some n =>
    match n.toNat? with
    | some i => if v.isBoundary i then v.cut i else v.cutAnywhere n
    | none => v.cutAnywhere n

/-- Where the first match starts and ends, if both are boundaries of the view. -/
def locate? (v : View) (p : Pattern) : Option (Nat × Nat) :=
  (p.find? v.bytes).bind fun (index, length) =>
    match index.toNat?, (index.add length).toNat? with
    | some start, some stop =>
      if length.lt 0 || !v.isBoundary start || !v.isBoundary stop then none else some (start, stop)
    | _, _ => none

def splitUntil? (v : View) (p : Pattern) : Option (View × View) :=
  (v.locate? p).map fun (start, _) => v.cut start

def splitUntilConsume? (v : View) (p : Pattern) : Option (View × View) :=
  (v.locate? p).map fun (start, stop) => ((v.cut start).1, (v.cut stop).2)

def splitPrefix? (v : View) (literal : List UInt8) : Option (View × View) :=
  if v.hasPrefix literal then some (v.cut literal.length) else none

/-- The part of a view before the rest that a reader left. It stays open where the reader stopped at
an undetermined end. -/
def consumedHead (v rest : View) : View :=
  let bound := if rest.bound = .unbounded then v.bound.openEnd else v.bound.closeEnd
  if v.stray = none ∧ rest.stray = none ∧ rest.size ≤ v.size then
    { v with size := v.size - rest.size, bound }
  else v.place v.start (v.extent.sub rest.extent) bound

end View
end Untrusted
