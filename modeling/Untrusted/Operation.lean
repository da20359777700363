/-!
# Operations

The operations that can fail or that name a scope. A failure says in words which one was attempted.
-/

namespace Untrusted

inductive Operation where
  | readAll | readPartial | intoText | intoNonEmpty | intoExternal | splitAt
  | splitAtByte | splitPrefix | splitUntil | splitWhile | take | takeArray
  | takeWhile | takeUntil | takeUntilConsume | takeConsumed | takeStrWhile | takeRemainingStr
  | skip | skipWhile | skipUntil | skipUntilConsume | skipStrWhile | consume
  | peek | peekU8 | peekChar | readU8 | readNum | readChar
  | verify | expect | expectErased | expectExternal | recoverIf
  deriving DecidableEq, Repr

namespace Operation

def all : List Operation :=
  [readAll, readPartial, intoText, intoNonEmpty, intoExternal, splitAt, splitAtByte,
    splitPrefix, splitUntil, splitWhile, take, takeArray, takeWhile, takeUntil,
    takeUntilConsume, takeConsumed, takeStrWhile, takeRemainingStr, skip, skipWhile, skipUntil,
    skipUntilConsume, skipStrWhile, consume, peek, peekU8, peekChar, readU8, readNum, readChar,
    verify, expect, expectErased, expectExternal, recoverIf]

def name : Operation → String
  | readAll => "readAll"
  | readPartial => "readPartial"
  | intoText => "intoText"
  | intoNonEmpty => "intoNonEmpty"
  | intoExternal => "intoExternal"
  | splitAt => "splitAt"
  | splitAtByte => "splitAtByte"
  | splitPrefix => "splitPrefix"
  | splitUntil => "splitUntil"
  | splitWhile => "splitWhile"
  | take => "take"
  | takeArray => "takeArray"
  | takeWhile => "takeWhile"
  | takeUntil => "takeUntil"
  | takeUntilConsume => "takeUntilConsume"
  | takeConsumed => "takeConsumed"
  | takeStrWhile => "takeStrWhile"
  | takeRemainingStr => "takeRemainingStr"
  | skip => "skip"
  | skipWhile => "skipWhile"
  | skipUntil => "skipUntil"
  | skipUntilConsume => "skipUntilConsume"
  | skipStrWhile => "skipStrWhile"
  | consume => "consume"
  | peek => "peek"
  | peekU8 => "peekU8"
  | peekChar => "peekChar"
  | readU8 => "readU8"
  | readNum => "readNum"
  | readChar => "readChar"
  | verify => "verify"
  | expect => "expect"
  | expectErased => "expectErased"
  | expectExternal => "expectExternal"
  | recoverIf => "recoverIf"

/-- What the operation does, in the words of an error. -/
def description : Operation → String
  | readAll => "read all input"
  | readPartial => "read a partial input"
  | intoText => "convert input into UTF-8 text"
  | intoNonEmpty => "convert input into non-empty input"
  | intoExternal => "convert input into an external type"
  | splitAt => "split input"
  | splitAtByte => "split input at a byte index"
  | splitPrefix => "split a prefix from input"
  | splitUntil => "split input until a pattern matches"
  | splitWhile => "split input while a condition remains true"
  | take => "take a length of input"
  | takeArray => "take an array of bytes"
  | takeWhile => "take input while a condition remains true"
  | takeUntil => "take input until a pattern matches"
  | takeUntilConsume => "take input until a pattern matches and consume it"
  | takeConsumed => "take consumed input"
  | takeStrWhile => "take UTF-8 input while a condition remains true"
  | takeRemainingStr => "take remaining input as UTF-8"
  | skip => "skip a length of input"
  | skipWhile => "skip input while a condition remains true"
  | skipUntil => "skip input until a pattern matches"
  | skipUntilConsume => "skip input until a pattern matches and consume it"
  | skipStrWhile => "skip UTF-8 input while a condition remains true"
  | consume => "consume input"
  | peek => "peek a length of input"
  | peekU8 => "peek a u8"
  | peekChar => "peek a char"
  | readU8 => "read a u8"
  | readNum => "read a number"
  | readChar => "read a char"
  | verify => "verify input"
  | expect => "read and expect a value"
  | expectErased => "read and expect an erased value"
  | expectExternal => "read and expect an external value"
  | recoverIf => "recover if"

def ofName? (s : String) : Option Operation := all.find? (·.name == s)

theorem ofName?_name (o : Operation) : ofName? o.name = some o := by
  cases o <;> decide +kernel

end Operation
end Untrusted
