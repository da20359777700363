import Untrusted.Failure
import Untrusted.Foreign

/-!
# Cutting views, or saying why not

Each cut that can fail names its place in the view and what it expected there.
-/

namespace Untrusted.View

/-! ## Failures -/

def invalidCause (v : View) (op : Operation) (expected : String) (span : Span)
    (retry : Option Retry) : Cause :=
  ⟨.valid retry, ⟨op, expected, span⟩, v⟩

/-- Too little input for `n` tokens or bytes, or a number that is no length. -/
def lengthCause (v : View) (n : Number) (op : Operation) : Cause :=
  match n.toNat? with
  | none => v.invalidCause op "valid length" (.within v.source v.start v.start) none
  | some least => ⟨.length least none, ⟨op, "enough input", v.span⟩, v⟩

/-- No match yet, and one more byte could still bring one. -/
def untilCause (v : View) (op : Operation) : Cause :=
  v.invalidCause op "pattern match" v.span (Retry.create? 1)

/-- The bytes that `literal` was compared with. -/
def prefixCause (v : View) (literal : List UInt8) (op : Operation) : Cause :=
  let found := Span.within v.source v.start (v.position (Number.least literal.length v.extent))
  ⟨.value (.ofLiteral literal v.kind), ⟨op, "exact value", found⟩, v⟩

def codePointCause (v : View) (op : Operation) (start length : Nat) (retry : Option Retry) :
    Cause :=
  let span := Span.within v.source (v.position start) (v.position (start + length : Nat))
  v.invalidCause op "utf-8 code point" span retry

/-- A failure of a foreign parser, with its own frames as children. -/
def foreignFailure (mode : Mode) (v : View) (f : ForeignFailure) (expected : String)
    (op : Operation) : Failure :=
  let cause := v.invalidCause op expected (f.span.getD v.span) f.retry
  f.frames.foldl (fun e frame => e.push frame.asChild) (mode.raise cause)

/-! ## Cuts -/

def splitAt (mode : Mode) (v : View) (n : Number) (op : Operation) : Except Failure (View × View) :=
  match v.splitAt? n with
  | some parts => .ok parts
  | none => .error (mode.raise (v.lengthCause n op))

def splitAtByte (mode : Mode) (v : View) (n : Number) (op : Operation) :
    Except Failure (View × View) :=
  if v.extent.lt n then .error (mode.raise (v.lengthCause n op))
  else
    match n.toNat?.filter v.isBoundary with
    | some i => .ok (v.cut i)
    | none =>
      let place := v.position n
      .error (mode.raise (v.invalidCause op "char index" (.within v.source place place) none))

def splitFirst (mode : Mode) (v : View) (op : Operation) : Except Failure (Token × View) :=
  match v.splitFirst? with
  | some parts => .ok parts
  | none => .error (mode.raise (v.lengthCause 1 op))

def splitUntil (mode : Mode) (v : View) (p : Pattern) (op : Operation) :
    Except Failure (View × View) :=
  match v.splitUntil? p with
  | some parts => .ok parts
  | none => .error (mode.raise (v.untilCause op))

def splitUntilConsume (mode : Mode) (v : View) (p : Pattern) (op : Operation) :
    Except Failure (View × View) :=
  match v.splitUntilConsume? p with
  | some parts => .ok parts
  | none => .error (mode.raise (v.untilCause op))

def splitPrefix (mode : Mode) (v : View) (literal : List UInt8) (op : Operation) :
    Except Failure (View × View) :=
  match v.splitPrefix? literal with
  | some parts => .ok parts
  | none => .error (mode.raise (v.prefixCause literal op))

/-- A test of tokens, by their values, that can itself fail. -/
abbrev Check := Nat → Except Cause Bool

def Check.passes (check : Check) (t : Nat) : Bool :=
  match check t with
  | .ok b => b
  | .error _ => false

def Check.stopped {α : Type} (check : Check) (mode : Mode) (v : View) (op : Operation) (t : Nat)
    (parts : α) : Except Failure α :=
  match check t with
  | .error c => .error ((mode.raise c).leave (.ofOperation op) v)
  | .ok _ => .ok parts

def trySplitWhile (mode : Mode) (v : View) (check : Check) (op : Operation) :
    Except Failure (View × View) :=
  match v.firstWhere? fun t => !check.passes t with
  | none => .ok v.exhausted
  | some (i, t) => check.stopped mode v op t (v.cut i)

/-! ## UTF-8 -/

/-- The text of a view. Bytes that end inside a char are too little input; other bytes that are no
char are not valid. -/
def intoText (mode : Mode) (v : View) (op : Operation) : Except Failure View :=
  match v.kind with
  | .text => .ok v
  | .bytes =>
    match Utf8.problem? v.bytes with
    | none => .ok { v with kind := .text }
    | some (start, .invalid length) =>
      .error (mode.raise (v.codePointCause op start length none))
    | some (start, .incomplete expected _) =>
      let span := Span.within v.source (v.position start) v.stop
      .error (mode.raise ⟨.length expected none, ⟨op, "utf-8 code point", span⟩, v⟩)

/-- Cuts bytes before the first char that a check rejects. Nothing after that char is decoded. -/
def trySplitStrWhile (mode : Mode) (v : View) (check : Check) (op : Operation) :
    Except Failure (View × View) :=
  match Utf8.scanTo (fun c => !check.passes c.toNat) 0 v.bytes with
  | (_, none) => .ok ({ v with kind := .text }, v.endView)
  | (i, some (.ok (c, _))) =>
    let (head, tail) := v.cut i
    check.stopped mode v op c.toNat ({ head with kind := .text }, tail)
  | (start, some (.error (.invalid length))) =>
    .error (mode.raise (v.codePointCause op start length none))
  | (start, some (.error (.incomplete expected available))) =>
    .error (mode.raise (v.codePointCause op start available
      (Retry.ofHadAndNeeded? available expected)))

/-! ## Other readers of a view -/

def intoNonEmpty (mode : Mode) (v : View) : Except Failure View :=
  if v.isEmpty then
    .error (mode.raise ⟨.length 1 none, ⟨.intoNonEmpty, "non-empty input", v.span⟩, v⟩)
  else .ok v

/-- Hands the view to a foreign parser and cuts after what it read. -/
def splitForeign {α : Type} (mode : Mode) (v : View) (parser : Foreign (α × Number))
    (expected : String) (op : Operation) : Except Failure (α × View) :=
  match parser v with
  | .error f => .error (foreignFailure mode v f expected op)
  | .ok (value, read) => (v.splitAtByte mode read op).map fun (_, tail) => (value, tail)

def intoForeign {α : Type} (mode : Mode) (v : View) (parser : Foreign α) (expected : String) :
    Except Failure α :=
  match parser v with
  | .error f => .error (foreignFailure mode v f expected .intoExternal)
  | .ok value => .ok value

end Untrusted.View
