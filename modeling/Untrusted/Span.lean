import Untrusted.Number.Text

/-!
# Buffers and spans

A span is a range of positions in a buffer, apart from what the buffer holds. Positions count from
the start of the buffer, so spans taken from unrelated windows of one buffer compare, and spans of
different buffers never lie within each other.
-/

namespace Untrusted

/-- A block of memory. Two buffers are the same one if their identities agree. -/
structure Buffer where
  id : Nat
  bytes : Array UInt8
  deriving DecidableEq, Repr, Inhabited

/-- A window of a buffer, in which inputs lie. -/
structure Source where
  buffer : Buffer
  start : Nat
  size : Nat
  deriving DecidableEq, Repr, Inhabited

namespace Source

def ofBytes (id : Nat) (bytes : List UInt8) : Source := ⟨⟨id, bytes.toArray⟩, 0, bytes.length⟩

def amid (id : Nat) (before bytes after : List UInt8) : Source :=
  ⟨⟨id, (before ++ bytes ++ after).toArray⟩, before.length, bytes.length⟩

/-- The window between two of a source's own positions. -/
def window (s : Source) (first last : Number) : Source :=
  let a := first.toIndex s.size
  ⟨s.buffer, s.start + a, last.toIndex s.size - a⟩

def bytes (s : Source) : List UInt8 := (s.buffer.bytes.extract s.start (s.start + s.size)).toList

def slice (s : Source) (first count : Nat) : List UInt8 :=
  let start := s.start + first
  (s.buffer.bytes.extract start (start + min count (s.size - first))).toList

/-- At most `count` bytes from a position on. There are none at a number that is no position. -/
def sliceAt (s : Source) (position : Number) (count : Nat) : List UInt8 :=
  match position.toNat? with
  | some first => s.slice first count
  | none => []

theorem bytes_eq (s : Source) : s.bytes = (s.buffer.bytes.toList.drop s.start).take s.size := by
  simp [bytes, List.extract_eq_take_drop]

theorem slice_eq (s : Source) (first count : Nat) :
    s.slice first count = (s.bytes.drop first).take count := by
  rw [bytes_eq, List.drop_take, List.drop_drop, List.take_take]
  simp [slice, List.extract_eq_take_drop]

theorem bytes_ofBytes (id : Nat) (bytes : List UInt8) : (ofBytes id bytes).bytes = bytes := by
  simp [ofBytes, bytes_eq]

end Source

structure Span where
  buffer : Buffer
  start : Number
  stop : Number
  deriving DecidableEq, Repr, Inhabited

namespace Span

def ofSource (s : Source) : Span := ⟨s.buffer, s.start, (s.start + s.size : Nat)⟩

/-- The positions from `first` to `last` of a source, moved into the source where they are not. -/
def within (s : Source) (first last : Number) : Span :=
  let lo := Number.least (Number.greatest 0 first) s.size
  let hi := Number.least (Number.greatest lo last) s.size
  ⟨s.buffer, Number.shift s.start lo, Number.shift s.start hi⟩

theorem within_ofNat (s : Source) {a b : Nat} (hab : a ≤ b) (hb : b ≤ s.size) :
    within s a b = ⟨s.buffer, (s.start + a : Nat), (s.start + b : Nat)⟩ := by
  have h0 : (0 : Number) = Number.ofNat 0 := rfl
  simp only [within, h0, Number.greatest_ofNat, Number.least_ofNat, Number.shift_ofNat]
  simp [Nat.min_eq_left (Nat.le_trans hab hb), Nat.max_eq_right hab, Nat.min_eq_left hb]

def sameBuffer (a b : Span) : Bool := a.buffer.id == b.buffer.id

def length (s : Span) : Number := Number.distance s.start s.stop

def isEmpty (s : Span) : Bool := s.start.same s.stop

def nonEmpty? (s : Span) : Option Span := if s.isEmpty then none else some s

/-! ## How two spans lie -/

def isWithin (s other : Span) : Bool :=
  s.sameBuffer other && other.start.le s.start && s.stop.le other.stop

/-- Where a span starts and ends, counted from the start of one that it lies within. -/
def rangeOf? (s parent : Span) : Option (Number × Number) :=
  if s.isWithin parent then
    some (Number.distance parent.start s.start, Number.distance parent.start s.stop)
  else none

def offsetWithin? (s other : Span) : Option Number :=
  if s.isWithin other then some (Number.distance other.start s.start) else none

/-- Empty and at the start of `other`. -/
def isStartOf (s other : Span) : Bool :=
  s.isEmpty && s.sameBuffer other && other.start.same s.start

/-- Empty and at the end of `other`. -/
def isEndOf (s other : Span) : Bool :=
  s.isEmpty && s.sameBuffer other && other.stop.same s.stop

def isOverlappingStartOf (s other : Span) : Bool := s.sameBuffer other && s.start.lt other.start

def isOverlappingEndOf (s other : Span) : Bool := s.sameBuffer other && other.stop.lt s.stop

def isStartWithin (s other : Span) : Bool :=
  s.sameBuffer other && other.start.le s.start && s.start.lt other.stop

def same (s other : Span) : Bool :=
  s.sameBuffer other && s.start.same other.start && s.stop.same other.stop

/-! ## What a span covers -/

/-- The bytes of a span that lies within `parent`. -/
def bytesOf? (s : Span) (parent : Source) : Option (List UInt8) :=
  (s.rangeOf? (ofSource parent)).map fun (first, last) => (parent.window first last).bytes

def bytes (s : Span) : List UInt8 :=
  let size := s.buffer.bytes.size
  let first := s.start.toIndex size
  (s.buffer.bytes.extract first (first + s.length.toIndex size)).toList

def text (s : Span) : String :=
  "(offset: " ++ s.start.text ++ ", len: " ++ s.length.text ++ ")"

end Span
end Untrusted
