/-!
# Fixed-width numbers

Integers and floating-point numbers of a fixed number of bytes, in either byte order.
-/

namespace Untrusted

inductive Endian where
  | big
  | little
  deriving DecidableEq, Repr

inductive NumericKind where
  | u8 | i8 | u16 | i16 | u32 | i32 | u64 | i64 | f32 | f64
  deriving DecidableEq, Repr

/-- What a fixed-width read yields. -/
inductive Reading where
  | int (value : Int)
  /-- A 64-bit integer, which a floating-point number could not hold. -/
  | wide (value : Int)
  /-- The binary64 bits of a floating-point number. -/
  | float (bits : Nat)
  deriving DecidableEq, Repr

namespace NumericKind

def all : List NumericKind := [u8, i8, u16, i16, u32, i32, u64, i64, f32, f64]

def name : NumericKind → String
  | u8 => "u8"
  | i8 => "i8"
  | u16 => "u16"
  | i16 => "i16"
  | u32 => "u32"
  | i32 => "i32"
  | u64 => "u64"
  | i64 => "i64"
  | f32 => "f32"
  | f64 => "f64"

def ofName? (s : String) : Option NumericKind := all.find? (·.name == s)

def width : NumericKind → Nat
  | u8 | i8 => 1
  | u16 | i16 => 2
  | u32 | i32 | f32 => 4
  | u64 | i64 | f64 => 8

def isSigned : NumericKind → Bool
  | i8 | i16 | i32 | i64 => true
  | _ => false

end NumericKind

namespace FixedWidth

def ofBigEndian (bytes : List UInt8) : Nat := bytes.foldl (fun n b => n * 256 + b.toNat) 0

def ofBytes (endian : Endian) (bytes : List UInt8) : Nat :=
  match endian with
  | .big => ofBigEndian bytes
  | .little => ofBigEndian bytes.reverse

theorem ofBytes_little (bytes : List UInt8) : ofBytes .little bytes = ofBytes .big bytes.reverse :=
  rfl

/-- The two's complement value of `bits` bits. -/
def signed (bits n : Nat) : Int :=
  if n < 1 <<< (bits - 1) then n else (n : Int) - (1 <<< bits : Nat)

/-- The binary64 bits of the number that binary32 bits stand for. -/
def widenFloat (n : Nat) : Nat :=
  let sign := n >>> 31 % 2
  let exponent := n >>> 23 % 256
  let fraction := n % (1 <<< 23)
  let magnitude :=
    if exponent = 255 then 2047 <<< 52 + fraction <<< 29
    else if exponent = 0 then
      if fraction = 0 then 0
      else
        let top := fraction.log2
        (top + 874) <<< 52 + (fraction - 1 <<< top) <<< (52 - top)
    else (exponent + 896) <<< 52 + fraction <<< 29
  sign <<< 63 + magnitude

def isNaN (bits : Nat) : Bool := bits >>> 52 % 2048 == 2047 && bits % (1 <<< 52) != 0

def interpret (kind : NumericKind) (n : Nat) : Reading :=
  match kind with
  | .u64 => .wide n
  | .i64 => .wide (signed 64 n)
  | .f32 => .float (widenFloat n)
  | .f64 => .float n
  | _ => .int (if kind.isSigned then signed (8 * kind.width) n else n)

/-- The number that bytes start with, if there are enough of them. -/
def decode? (kind : NumericKind) (endian : Endian) (bytes : List UInt8) : Option Reading :=
  if bytes.length < kind.width then none
  else some (interpret kind (ofBytes endian (bytes.take kind.width)))

end FixedWidth
end Untrusted
