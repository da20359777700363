import Mathlib
import Untrusted.Display.Input
import Untrusted.Proofs.Display.Elements

/-!
# Reading a line back

A line that leaves nothing out can be read back: its bytes follow from it. So different inputs have
different lines. No character of a line would break it or is hidden.
-/

namespace Untrusted.Display

/-! ## Reading chars -/

def unescape (c : Char) : Char :=
  if c = 'n' then '\n' else if c = 'r' then '\r' else if c = 't' then '\t' else c

inductive InQuotes where
  | betweenChars
  | afterBackslash
  | inCode (n : Nat)

/-- The chars before a quote that ends the line. -/
def readChars : InQuotes → List Char → Option (List Char)
  | _, [] => none
  | .betweenChars, c :: rest =>
    if c = '"' then if rest = [] then some [] else none
    else if c = '\\' then readChars .afterBackslash rest
    else (readChars .betweenChars rest).map (c :: ·)
  | .afterBackslash, c :: rest =>
    if c = 'u' then readChars (.inCode 0) rest
    else (readChars .betweenChars rest).map (unescape c :: ·)
  | .inCode n, c :: rest =>
    if c = '\x7b' then readChars (.inCode 0) rest
    else if c = '\x7d' then (readChars .betweenChars rest).map (Char.ofNat n :: ·)
    else (Text.hexValue? c).bind fun d => readChars (.inCode (n * 16 + d)) rest

theorem toDigits_of_hidden {n : Nat} (h : n < 0x80) :
    Nat.toDigits 16 n = if n < 16 then [Text.hexDigit n] else Text.hex (UInt8.ofNat n) := by
  have all : ∀ n : Fin 0x80, Nat.toDigits 16 n.val =
      if n.val < 16 then [Text.hexDigit n.val] else Text.hex (UInt8.ofNat n.val) := by
    decide +kernel
  exact all ⟨n, h⟩

theorem hexDigit_ne_brace {n : Nat} (h : n < 16) :
    Text.hexDigit n ≠ '\x7b' ∧ Text.hexDigit n ≠ '\x7d' := by
  have all : ∀ n : Fin 16, Text.hexDigit n.val ≠ '\x7b' ∧ Text.hexDigit n.val ≠ '\x7d' := by
    decide +kernel
  exact all ⟨n, h⟩

theorem readChars_hexDigit {d : Nat} (h : d < 16) (n : Nat) (rest : List Char) :
    readChars (.inCode n) (Text.hexDigit d :: rest) = readChars (.inCode (n * 16 + d)) rest := by
  obtain ⟨opened, closed⟩ := hexDigit_ne_brace h
  rw [readChars, if_neg opened, if_neg closed, Text.hexValue?_hexDigit h, Option.bind_some]

theorem readChars_code {c : Char} (h : c.toNat < 0x80) (rest : List Char) :
    readChars .afterBackslash ('u' :: '\x7b' :: Nat.toDigits 16 c.toNat ++ '\x7d' :: rest) =
      (readChars .betweenChars rest).map (c :: ·) := by
  have closed (n : Nat) : readChars (.inCode n) ('\x7d' :: rest) =
      (readChars .betweenChars rest).map (Char.ofNat n :: ·) := rfl
  have opened : readChars .afterBackslash
      ('u' :: '\x7b' :: Nat.toDigits 16 c.toNat ++ '\x7d' :: rest) =
        readChars (.inCode 0) (Nat.toDigits 16 c.toNat ++ '\x7d' :: rest) := rfl
  rw [opened, toDigits_of_hidden h]
  split_ifs with short
  · rw [List.singleton_append, readChars_hexDigit short, closed, Nat.zero_mul, Nat.zero_add,
      Char.ofNat_toNat]
  · have byte : (UInt8.ofNat c.toNat).toNat = c.toNat := Utf8.toNat_ofNat_byte (by omega)
    have whole : (0 * 16 + c.toNat / 16) * 16 + c.toNat % 16 = c.toNat := by omega
    rw [Text.hex, byte, List.cons_append, List.cons_append, List.nil_append,
      readChars_hexDigit (by omega), readChars_hexDigit (by omega), closed, whole,
      Char.ofNat_toNat]

theorem readChars_escape (c : Char) (rest : List Char) :
    readChars .betweenChars (escape c ++ rest) =
      (readChars .betweenChars rest).map (c :: ·) := by
  unfold escape
  split_ifs with newline back tab quote slash hidden
  · rw [newline]; rfl
  · rw [back]; rfl
  · rw [tab]; rfl
  · rw [quote]; rfl
  · rw [slash]; rfl
  · have code := readChars_code (c := c) (by omega) rest
    rw [List.append_assoc, List.append_assoc, List.singleton_append]
    exact code
  · rw [List.singleton_append, readChars, if_neg quote, if_neg slash]

theorem readChars_escapes (cs : List Char) :
    readChars .betweenChars (cs.flatMap escape ++ ['"']) = some cs := by
  induction cs with
  | nil => rfl
  | cons c cs ih => rw [List.flatMap_cons, List.append_assoc, readChars_escape, ih, Option.map_some]

/-! ## Reading bytes -/

def readBytes : List Char → Option (List UInt8)
  | [']'] => some []
  | ' ' :: rest => readBytes rest
  | '\'' :: c :: '\'' :: rest => (readBytes rest).map (UInt8.ofNat c.toNat :: ·)
  | c :: d :: rest =>
    (Text.hexValue? c).bind fun high => (Text.hexValue? d).bind fun low =>
      (readBytes rest).map (UInt8.ofNat (high * 16 + low) :: ·)
  | _ => none

theorem readBytes_pair {c : Char} (blank : c ≠ ' ') (quote : c ≠ '\'') (d : Char)
    (rest : List Char) : readBytes (c :: d :: rest) =
      (Text.hexValue? c).bind fun high => (Text.hexValue? d).bind fun low =>
        (readBytes rest).map (UInt8.ofNat (high * 16 + low) :: ·) := by
  rw [readBytes]
  · exact fun same => blank same
  · exact fun _ same _ => quote same

theorem readBytes_hex (b : UInt8) (rest : List Char) :
    readBytes (Text.hex b ++ rest) = (readBytes rest).map (b :: ·) := by
  have high : b.toNat / 16 < 16 := by have := b.toNat_lt; omega
  have low : b.toNat % 16 < 16 := by omega
  have whole : b.toNat / 16 * 16 + b.toNat % 16 = b.toNat := by omega
  have digit : ∀ n : Fin 16, Text.hexDigit n.val ≠ ' ' ∧ Text.hexDigit n.val ≠ '\'' := by
    decide +kernel
  obtain ⟨blank, quote⟩ := digit ⟨b.toNat / 16, high⟩
  rw [Text.hex, List.cons_append, List.cons_append, List.nil_append, readBytes_pair blank quote,
    Text.hexValue?_hexDigit high, Text.hexValue?_hexDigit low, Option.bind_some, Option.bind_some,
    whole, UInt8.ofNat_toNat]

theorem readBytes_byteText (quoteAscii : Bool) (b : UInt8) (rest : List Char) :
    readBytes (byteText quoteAscii b ++ rest) = (readBytes rest).map (b :: ·) := by
  unfold byteText
  split_ifs with visible
  · have small : b.toNat.isValidChar := .inl (by have := b.toNat_lt; omega)
    have same : UInt8.ofNat (Char.ofNat b.toNat).toNat = b := by
      rw [Char.toNat_ofNat, if_pos small, UInt8.ofNat_toNat]
    have quoted : readBytes (['\'', Char.ofNat b.toNat, '\''] ++ rest) =
        (readBytes rest).map (UInt8.ofNat (Char.ofNat b.toNat).toNat :: ·) := rfl
    rw [quoted, same]
  · exact readBytes_hex b rest

theorem readBytes_byteTexts (quoteAscii : Bool) (bytes : List UInt8) :
    readBytes ([' '].intercalate (bytes.map (byteText quoteAscii)) ++ [']']) = some bytes := by
  induction bytes with
  | nil => rfl
  | cons b bytes ih =>
    cases bytes with
    | nil =>
      rw [List.map_singleton, List.intercalate_singleton, readBytes_byteText]
      rfl
    | cons c bytes =>
      have next : readBytes (' ' :: ([' '].intercalate ((c :: bytes).map (byteText quoteAscii)) ++
          [']'])) = some (c :: bytes) := ih
      rw [List.map_cons, List.map_cons, List.intercalate_cons_cons, ← List.map_cons,
        List.append_assoc, List.append_assoc, readBytes_byteText, List.singleton_append, next,
        Option.map_some]

/-! ## Lines that leave nothing out -/

theorem sectionWindow_full (count : Nat) (limit : Limit) :
    sectionWindow count limit .full = [(0, count)] := by
  unfold sectionWindow
  cases limit with
  | all | unordered => rfl
  | most n => exact ite_self _

theorem text_spaced (pieces : List Piece) :
    (spaced pieces).flatMap Piece.text = [' '].intercalate (pieces.map Piece.text) := by
  induction pieces using spaced.induct with
  | case1 => rfl
  | case2 p => simp [spaced]
  | case3 p rest filled ih =>
    cases rest with
    | nil => contradiction
    | cons q rest =>
      rw [spaced, List.flatMap_cons, List.flatMap_cons, ih]
      · rw [List.map_cons, List.map_cons, List.map_cons, List.intercalate_cons_cons,
          List.append_assoc]
        rfl
      · exact filled

section

variable (es : List Element)

theorem runs_full (wrap : List Piece → List Piece) :
    runs es wrap [(0, es.length)] = wrap (es.map .ofElement) := by
  have whole : run es (0, es.length) = es.map .ofElement := by
    rw [run, List.take_length, List.drop_zero]
  simp [runs, whole]

theorem line_full_text :
    (layout es [(0, es.length)] true).line.toList = '"' :: (es.flatMap Element.text ++ ['"']) := by
  have pieces : (layout es [(0, es.length)] true).pieces =
      .quote :: es.map .ofElement ++ [.quote] := by
    simp [layout, cutAtEnd, runs_full]
  rw [Layout.line, String.toList_ofList, pieces, List.flatMap_append, List.flatMap_cons,
    List.flatMap_map]
  rfl

theorem line_full_bytes : (layout es [(0, es.length)] false).line.toList =
    '[' :: ([' '].intercalate (es.map Element.text) ++ [']']) := by
  have pieces : (layout es [(0, es.length)] false).pieces =
      ⟨['['], none⟩ :: spaced (es.map .ofElement) ++ [⟨[']'], none⟩] := by
    simp [layout, cutAtEnd, runs_full]
  rw [Layout.line, String.toList_ofList, pieces, List.flatMap_append, List.flatMap_cons,
    text_spaced, List.map_map]
  rfl

end

theorem texts_charElementsFrom (i : Nat) (cs : List (Char × Nat)) :
    (charElementsFrom i cs).map Element.text = cs.map fun c => escape c.1 := by
  induction cs generalizing i with
  | nil => rfl
  | cons c cs ih => rw [charElementsFrom, List.map_cons, List.map_cons, ih]

theorem texts_byteElements (quoteAscii : Bool) (bytes : List UInt8) :
    (byteElements quoteAscii bytes).map Element.text = bytes.map (byteText quoteAscii) := by
  apply List.ext_getElem?
  intro i
  rw [byteElements, List.getElem?_map, List.getElem?_mapIdx, List.getElem?_map, Option.map_map]
  rfl

theorem texts_charElements (cs : List Char) :
    (charElements (Utf8.encode cs)).map Element.text = cs.map escape := by
  have chars : (Utf8.scan (Utf8.encode cs)).1.map Prod.fst = cs := Utf8.chars_encode cs
  rw [charElements, texts_charElementsFrom]
  conv_rhs => rw [← chars, List.map_map]
  rfl

/-- What a section that leaves nothing out is written as. -/
inductive Written (bytes : List UInt8) : List Char → Prop where
  | quoted (cs : List Char) : bytes = Utf8.encode cs →
      Written bytes ('"' :: (cs.flatMap escape ++ ['"']))
  | listed (quoteAscii : Bool) :
      Written bytes ('[' :: ([' '].intercalate (bytes.map (byteText quoteAscii)) ++ [']']))

theorem written_renderBytes {settings : Settings} {o : Options} (full : o.part = some .full)
    {isText : Bool} {bytes : List UInt8} (valid : isText = true → Utf8.isValid bytes = true) :
    Written bytes (renderBytes settings o isText bytes).toList := by
  have part : (o.resolve settings).part = .full := by rw [Options.resolve, full, Option.getD_some]
  unfold renderBytes elements
  dsimp only
  rw [part, if_pos rfl, sectionWindow_full]
  split_ifs with textual
  · have encoded : Utf8.isValid bytes = true := by
      cases isText with
      | true => exact valid rfl
      | false => simpa using And.right (by simpa using textual)
    obtain ⟨cs, rfl⟩ := Utf8.exists_encode_of_isValid encoded
    rw [line_full_text, List.flatMap_def, texts_charElements, ← List.flatMap_def]
    exact .quoted cs rfl
  · rw [line_full_bytes, texts_byteElements]
    exact .listed _

/-! ## Characters of a line -/

def IsVisible (c : Char) : Prop := 0x20 ≤ c.toNat ∧ c.toNat ≠ 0x7f

theorem isVisible_hexDigit {n : Nat} (h : n < 16) : IsVisible (Text.hexDigit n) := by
  have all : ∀ n : Fin 16, 0x20 ≤ (Text.hexDigit n.val).toNat ∧
      (Text.hexDigit n.val).toNat ≠ 0x7f := by decide +kernel
  exact all ⟨n, h⟩

theorem isVisible_hex (b : UInt8) : ∀ d ∈ Text.hex b, IsVisible d := by
  rw [Text.hex, List.forall_mem_cons, List.forall_mem_singleton]
  exact ⟨isVisible_hexDigit (by have := b.toNat_lt; omega), isVisible_hexDigit (by omega)⟩

theorem isVisible_escape (c : Char) : ∀ d ∈ escape c, IsVisible d := by
  unfold escape
  split_ifs with newline back tab quote slash hidden
  · simp [IsVisible]
  · simp [IsVisible]
  · simp [IsVisible]
  · simp [IsVisible]
  · simp [IsVisible]
  · have digits : ∀ d ∈ Nat.toDigits 16 c.toNat, IsVisible d := by
      rw [toDigits_of_hidden (by omega)]
      split_ifs with short
      · rw [List.forall_mem_singleton]
        exact isVisible_hexDigit short
      · exact isVisible_hex _
    rw [List.forall_mem_append, List.forall_mem_append]
    exact ⟨⟨by simp [IsVisible], digits⟩, by simp [IsVisible]⟩
  · rw [List.forall_mem_singleton, IsVisible]
    omega

theorem isVisible_byteText (quoteAscii : Bool) (b : UInt8) :
    ∀ d ∈ byteText quoteAscii b, IsVisible d := by
  unfold byteText
  split_ifs with visible
  · simp only [Bool.and_eq_true, decide_eq_true_eq, UInt8.lt_iff_toNat_lt] at visible
    obtain ⟨⟨-, above⟩, below⟩ := visible
    have shown : IsVisible (Char.ofNat b.toNat) := by
      rw [IsVisible, Char.toNat_ofNat, if_pos (.inl (by have := b.toNat_lt; omega))]
      exact ⟨above.le, below.ne⟩
    rw [List.forall_mem_cons, List.forall_mem_cons]
    exact ⟨by simp [IsVisible], shown, by simp [IsVisible]⟩
  · exact isVisible_hex b

theorem isVisible_byteTexts (quoteAscii : Bool) (bytes : List UInt8) :
    ∀ d ∈ [' '].intercalate (bytes.map (byteText quoteAscii)), IsVisible d := by
  induction bytes with
  | nil => simp [List.intercalate]
  | cons b bytes ih =>
    cases bytes with
    | nil =>
      rw [List.map_singleton, List.intercalate_singleton]
      exact isVisible_byteText quoteAscii b
    | cons c bytes =>
      rw [List.map_cons, List.map_cons, List.intercalate_cons_cons, List.forall_mem_append,
        List.forall_mem_append]
      exact ⟨⟨isVisible_byteText quoteAscii b, by simp [IsVisible]⟩, ih⟩

theorem Written.isVisible {bytes : List UInt8} {line : List Char} (h : Written bytes line) :
    ∀ c ∈ line, IsVisible c := by
  have mark : ∀ c ∈ ['"', '[', ']'], IsVisible c := by simp [IsVisible]
  cases h with
  | quoted cs =>
    rw [List.forall_mem_cons, List.forall_mem_append, List.forall_mem_singleton,
      List.forall_mem_flatMap]
    exact ⟨mark _ (by simp), fun c _ => isVisible_escape c, mark _ (by simp)⟩
  | listed quoteAscii =>
    rw [List.forall_mem_cons, List.forall_mem_append, List.forall_mem_singleton]
    exact ⟨mark _ (by simp), isVisible_byteTexts quoteAscii bytes, mark _ (by simp)⟩

/-! ## Reading lines -/

/-- The bytes of an input that was written without leaving anything out. -/
def readLine? (line : String) : Option (List UInt8) :=
  match line.toList with
  | '"' :: rest => (readChars .betweenChars rest).map Utf8.encode
  | '[' :: rest => readBytes rest
  | _ => none

theorem readLine?_of_written {bytes : List UInt8} {line : String} (h : Written bytes line.toList) :
    readLine? line = some bytes := by
  unfold readLine?
  generalize line.toList = l at h
  cases h with
  | quoted cs same =>
    change (readChars .betweenChars (cs.flatMap escape ++ ['"'])).map Utf8.encode = some bytes
    rw [readChars_escapes, same, Option.map_some]
  | listed quoteAscii =>
    exact readBytes_byteTexts quoteAscii bytes

/-- Whether it is shown as text or as bytes, an input of which nothing is left out can be read back
from its line, so no other input has that line. All characters of the line can be seen. -/
theorem full_line_tells_input {settings : Settings} {o : Options} (full : o.part = some .full)
    {isText : Bool} {bytes : List UInt8} (valid : isText = true → Utf8.isValid bytes = true) :
    let line := renderBytes settings o isText bytes
    readLine? line = some bytes ∧ (∀ c ∈ line.toList, IsVisible c) ∧
    ∀ (settings' : Settings) (o' : Options) (isText' : Bool) (other : List UInt8),
      o'.part = some .full → (isText' = true → Utf8.isValid other = true) → other ≠ bytes →
      renderBytes settings' o' isText' other ≠ line := by
  intro line
  have written : Written bytes line.toList := written_renderBytes full valid
  have back : readLine? line = some bytes := readLine?_of_written written
  refine ⟨back, written.isVisible, fun settings' o' isText' other full' valid' differs same => ?_⟩
  have back' : readLine? (renderBytes settings' o' isText' other) = some other :=
    readLine?_of_written (written_renderBytes full' valid')
  rw [same, back] at back'
  exact differs (Option.some.inj back').symm

/-- A text with a quote, a bell and a new line, and one that spells the new line as it is shown. -/
theorem full_line_tells_input_spelled :
    let settings := Settings.load .nothing []
    let o : Options := ⟨none, some .full, none, none, none⟩
    let text := Utf8.encode ['"', '\x07', '\n']
    let spelled := Utf8.encode ['"', '\x07', '\\', 'n']
    let line := renderBytes settings o true text
    o.part = some .full ∧ Utf8.isValid text = true ∧ Utf8.isValid spelled = true ∧
      spelled ≠ text ∧ readLine? line = some text ∧ (∀ c ∈ line.toList, IsVisible c) ∧
      renderBytes settings o true spelled ≠ line := by
  intro settings o text spelled line
  have valid : Utf8.isValid text = true := Utf8.isValid_encode _
  have valid' : Utf8.isValid spelled = true := Utf8.isValid_encode _
  have differs : spelled ≠ text := by decide +kernel
  have full : o.part = some .full := rfl
  obtain ⟨back, visible, others⟩ : readLine? line = some text ∧ (∀ c ∈ line.toList, IsVisible c) ∧
      ∀ (settings' : Settings) (o' : Options) (isText' : Bool) (other : List UInt8),
        o'.part = some .full → (isText' = true → Utf8.isValid other = true) → other ≠ text →
        renderBytes settings' o' isText' other ≠ line :=
    full_line_tells_input full fun _ => valid
  exact ⟨rfl, valid, valid', differs, back, visible,
    others settings o true spelled rfl (fun _ => valid') differs⟩

end Untrusted.Display
