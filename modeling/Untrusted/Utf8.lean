/-!
# UTF-8

Decoding tells bytes that can never be UTF-8 from bytes that were cut short. A lead byte announces
how many bytes its char takes, and narrows the range of the second byte so that each char has one
encoding and surrogates have none.
-/

namespace Untrusted.Utf8

/-- The encoded length that a lead byte announces, and 0 for a byte that leads no char. -/
def charLength (lead : UInt8) : Nat :=
  if lead < 0x80 then 1
  else if lead < 0xc2 then 0
  else if lead < 0xe0 then 2
  else if lead < 0xf0 then 3
  else if lead < 0xf5 then 4
  else 0

def isContinuation (b : UInt8) : Bool := b &&& 0xc0 == 0x80

/-- The number of bytes that a code point takes, a lone surrogate's being those of its
replacement. -/
def encodedLength (codePoint : Nat) : Nat :=
  if codePoint < 0x80 then 1
  else if codePoint < 0x800 then 2
  else if codePoint < 0x10000 then 3
  else 4

def encode (chars : List Char) : List UInt8 := chars.flatMap String.utf8EncodeChar

def encodeText (s : String) : List UInt8 := encode s.toList

theorem encode_append (a b : List Char) : encode (a ++ b) = encode a ++ encode b := by
  simp [encode]

/-! ## One char -/

inductive Fault where
  /-- The first `length` bytes can never be part of one. -/
  | invalid (length : Nat)
  /-- The bytes end after `available` of the `expected` bytes that were announced. -/
  | incomplete (expected available : Nat)
  deriving DecidableEq, Repr

def secondByteRange (lead : UInt8) : UInt8 × UInt8 :=
  if lead = 0xe0 then (0xa0, 0xbf)
  else if lead = 0xed then (0x80, 0x9f)
  else if lead = 0xf0 then (0x90, 0xbf)
  else if lead = 0xf4 then (0x80, 0x8f)
  else (0x80, 0xbf)

/-- The range of the byte at `place` of a char. -/
def byteRange (lead : UInt8) (place : Nat) : UInt8 × UInt8 :=
  if place = 1 then secondByteRange lead else (0x80, 0xbf)

/-- Goes on with a char that `lead` announced, `place` bytes in, with `owed` bytes to come. -/
def decodeTail (lead : UInt8) (place value : Nat) : Nat → List UInt8 → Except Fault (Char × Nat)
  | 0, _ => .ok (Char.ofNat value, place)
  | owed + 1, [] => .error (.incomplete (place + owed + 1) place)
  | owed + 1, b :: rest =>
    let (lo, hi) := byteRange lead place
    if b < lo ∨ hi < b then .error (.invalid place)
    else decodeTail lead (place + 1) (value * 64 + b.toNat % 64) owed rest

/-- What a lead byte says of its char, if `owed` bytes follow it. -/
def leadValue (lead : UInt8) : Nat → Nat
  | 0 => lead.toNat
  | 1 => lead.toNat % 32
  | 2 => lead.toNat % 16
  | _ => lead.toNat % 8

/-- The char that bytes start with, and its length. -/
def decode : List UInt8 → Except Fault (Char × Nat)
  | [] => .error (.incomplete 1 0)
  | lead :: rest =>
    match charLength lead with
    | 0 => .error (.invalid 1)
    | owed + 1 => decodeTail lead 1 (leadValue lead owed) owed rest

theorem decodeTail_length {lead : UInt8} {bytes : List UInt8} {place value owed : Nat} {c : Char}
    {n : Nat} (h : decodeTail lead place value owed bytes = .ok (c, n)) :
    n = place + owed ∧ owed ≤ bytes.length := by
  induction owed generalizing place value bytes with
  | zero =>
    simp [decodeTail] at h
    simp [h.2]
  | succ owed ih =>
    cases bytes with
    | nil => simp [decodeTail] at h
    | cons b rest =>
      simp only [decodeTail] at h
      split at h
      · simp at h
      · have := ih h
        simp only [List.length_cons]
        omega

theorem length_of_decode {bytes : List UInt8} {c : Char} {n : Nat}
    (h : decode bytes = .ok (c, n)) : 0 < n ∧ n ≤ bytes.length := by
  cases bytes with
  | nil => simp [decode] at h
  | cons lead rest =>
    simp only [decode] at h
    split at h
    · simp at h
    · have := decodeTail_length h
      simp only [List.length_cons]
      omega

def maxLength : Nat := 4

theorem decodeTail_take {lead : UInt8} {bytes : List UInt8} {place value owed m : Nat}
    (h : owed ≤ m) :
    decodeTail lead place value owed (bytes.take m) = decodeTail lead place value owed bytes := by
  induction owed generalizing place value bytes m with
  | zero => simp [decodeTail]
  | succ owed ih =>
    cases bytes with
    | nil => simp
    | cons b rest =>
      obtain ⟨m, rfl⟩ := Nat.exists_eq_add_of_lt (Nat.lt_of_lt_of_le (Nat.zero_lt_succ owed) h)
      simp only [Nat.zero_add, List.take_succ_cons, decodeTail]
      rw [ih (by omega)]

theorem charLength_le (lead : UInt8) : charLength lead ≤ maxLength := by
  unfold charLength maxLength
  repeat' split
  all_goals omega

theorem decode_take (bytes : List UInt8) : decode (bytes.take maxLength) = decode bytes := by
  cases bytes with
  | nil => rfl
  | cons lead rest =>
    have h := charLength_le lead
    simp only [maxLength, List.take_succ_cons, decode]
    split
    · rfl
    · rename_i owed found
      exact decodeTail_take (by simp only [maxLength] at h; omega)

/-! ## Many chars -/

/-- The chars that bytes start with, each with its length, and why no further one follows if bytes
are left. -/
def scan (bytes : List UInt8) : List (Char × Nat) × Option Fault :=
  if bytes.isEmpty then ([], none)
  else
    match _h : decode bytes with
    | .ok (c, n) =>
      let (rest, fault) := scan (bytes.drop n)
      ((c, n) :: rest, fault)
    | .error fault => ([], some fault)
termination_by bytes.length
decreasing_by
  have := length_of_decode _h
  simp only [List.length_drop]
  omega

/-- What stands at the first char that `stops` holds of or at the first fault, and its offset,
counting from `i`; nothing stands at the end. -/
def scanTo (stops : Char → Bool) (i : Nat) (bytes : List UInt8) :
    Nat × Option (Except Fault (Char × Nat)) :=
  if bytes.isEmpty then (i, none)
  else
    match _h : decode bytes with
    | .error fault => (i, some (.error fault))
    | .ok (c, n) =>
      if stops c then (i, some (.ok (c, n))) else scanTo stops (i + n) (bytes.drop n)
termination_by bytes.length
decreasing_by
  have := length_of_decode _h
  simp only [List.length_drop]
  omega

/-- The number of bytes, counting from `i`, that the first `n` chars take. -/
def charsLength? : Nat → Nat → List UInt8 → Option Nat
  | 0, i, _ => some i
  | n + 1, i, bytes =>
    match decode bytes with
    | .ok (_, k) => charsLength? n (i + k) (bytes.drop k)
    | .error _ => none

theorem decode_take_of_le {bytes : List UInt8} {m : Nat} (h : maxLength ≤ m) :
    decode (bytes.take m) = decode bytes := by
  rw [← decode_take (bytes.take m), List.take_take, Nat.min_eq_left h, decode_take]

theorem le_maxLength_of_decode {bytes : List UInt8} {c : Char} {n : Nat}
    (h : decode bytes = .ok (c, n)) : n ≤ maxLength := by
  rw [← decode_take] at h
  have := (length_of_decode h).2
  simp only [List.length_take] at this
  omega

theorem charsLength?_take {n i m : Nat} {bytes : List UInt8} (h : maxLength * n ≤ m) :
    charsLength? n i (bytes.take m) = charsLength? n i bytes := by
  induction n generalizing i bytes m with
  | zero => rfl
  | succ n ih =>
    have room : maxLength * n + maxLength ≤ m := by rw [← Nat.mul_succ]; exact h
    simp only [charsLength?, decode_take_of_le (by omega : maxLength ≤ m)]
    split
    · rename_i c k found
      have := le_maxLength_of_decode found
      rw [List.drop_take, ih (by omega)]
    · rfl

def chars (bytes : List UInt8) : List Char := (scan bytes).1.map Prod.fst

/-- How many of the bytes are valid, and what is wrong with those after them. -/
def problem? (bytes : List UInt8) : Option (Nat × Fault) :=
  let (valid, fault) := scan bytes
  fault.map fun f => (valid.foldr (fun c n => c.2 + n) 0, f)

def isValid (bytes : List UInt8) : Bool := (problem? bytes).isNone

/-- The chars of bytes with a replacement for each fault. -/
def repaired (bytes : List UInt8) : List Char :=
  if bytes.isEmpty then []
  else
    match _h : decode bytes with
    | .ok (c, n) => c :: repaired (bytes.drop n)
    | .error (.invalid n) => '\uFFFD' :: repaired (bytes.drop (max n 1))
    | .error (.incomplete _ _) => ['\uFFFD']
termination_by bytes.length
decreasing_by
  · have := length_of_decode _h
    simp only [List.length_drop]
    omega
  · have := List.length_pos_iff.mpr (by simp_all : bytes ≠ [])
    simp only [List.length_drop]
    omega

theorem repaired_eq_chars {bytes : List UInt8} (h : isValid bytes = true) :
    repaired bytes = chars bytes := by
  simp only [isValid, problem?, Option.isNone_map, Option.isNone_iff_eq_none] at h
  unfold chars
  fun_induction scan bytes with
  | case1 bytes empty => rw [repaired, if_pos empty]; rfl
  | case2 bytes filled c n found rest fault inner ih =>
    have step : repaired bytes = c :: repaired (bytes.drop n) := by
      rw [repaired, if_neg filled]
      split <;> simp_all
    rw [step, ih (by simpa [inner] using h), inner]
    rfl
  | case3 => simp at h

def decodeText (bytes : List UInt8) : String := String.ofList (chars bytes)

/-- Where the last char of the first `stop` bytes starts, if they are valid. -/
def lastCharStart (bytes : List UInt8) : Nat → Nat
  | 0 => 0
  | 1 => 0
  | i + 2 => if isContinuation (bytes.getD (i + 1) 0) then lastCharStart bytes (i + 1) else i + 1

end Untrusted.Utf8
