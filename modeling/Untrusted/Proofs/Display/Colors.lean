import Mathlib
import Untrusted.Proofs.Backtrace
import Untrusted.Proofs.Display.Place
import Untrusted.Proofs.Display.ReadBack

/-!
# Colors change nothing but color

A report in colors is the report without them, with styles put in between its parts. Nothing else in
it holds an escape, whatever the input holds, so the styles can be told from the text and taken out
again.
-/

namespace Untrusted.Display

/-! ## Taking styles out -/

/-- The length of the style that a text starts with: an escape, a bracket, digits and an `m`. -/
def styleLength : List Char → Nat
  | '\x1b' :: '[' :: rest =>
    let digits := rest.takeWhile Char.isDigit
    if digits ≠ [] ∧ (rest.drop digits.length).head? = some 'm' then digits.length + 3 else 0
  | _ => 0

def unstyledFrom : (skipped : Nat) → List Char → List Char
  | _, [] => []
  | skipped + 1, _ :: rest => unstyledFrom skipped rest
  | 0, c :: rest =>
    match styleLength (c :: rest) with
    | 0 => c :: unstyledFrom 0 rest
    | later + 1 => unstyledFrom later rest

/-- A text without its styles. -/
def unstyled (s : String) : String := String.ofList (unstyledFrom 0 s.toList)

example : unstyled "a\x1b[31mb\x1b[m\x1b[1" = "ab\x1b[m\x1b[1" := by decide +kernel

/-- The text holds nothing that a style can start with. -/
def NoEscape (s : String) : Prop := '\x1b' ∉ s.toList

instance (s : String) : Decidable (NoEscape s) := inferInstanceAs (Decidable (¬ _))

theorem styleLength_of_ne {c : Char} (h : c ≠ '\x1b') (rest : List Char) :
    styleLength (c :: rest) = 0 := by
  unfold styleLength
  split
  · rename_i same
    exact absurd (List.cons.inj same).1 h
  · rfl

theorem unstyledFrom_append_of_not_mem {s : List Char} (h : '\x1b' ∉ s) (rest : List Char) :
    unstyledFrom 0 (s ++ rest) = s ++ unstyledFrom 0 rest := by
  induction s with
  | nil => rfl
  | cons c s ih =>
    rw [List.mem_cons, not_or] at h
    rw [List.cons_append, unstyledFrom, styleLength_of_ne (Ne.symm h.1), ih h.2, List.cons_append]

theorem unstyledFrom_append (s rest : List Char) :
    unstyledFrom s.length (s ++ rest) = unstyledFrom 0 rest := by
  induction s with
  | nil => rfl
  | cons c s ih => rwa [List.cons_append, List.length_cons, unstyledFrom]

theorem unstyledFrom_style {digits : List Char} (filled : digits ≠ [])
    (h : ∀ d ∈ digits, d.isDigit = true) (rest : List Char) :
    unstyledFrom 0 ('\x1b' :: '[' :: digits ++ 'm' :: rest) = unstyledFrom 0 rest := by
  have run : (digits ++ 'm' :: rest).takeWhile Char.isDigit = digits := by
    rw [List.takeWhile_append_of_pos h, List.takeWhile_cons_of_neg (by decide), List.append_nil]
  have length : styleLength ('\x1b' :: '[' :: (digits ++ 'm' :: rest)) = digits.length + 3 := by
    simp [styleLength, run, filled]
  have skipped := unstyledFrom_append ('[' :: (digits ++ ['m'])) rest
  simp only [List.length_cons, List.length_append, List.length_nil, List.cons_append,
    List.append_assoc, List.nil_append] at skipped
  rw [List.cons_append, List.cons_append, unstyledFrom, length]
  exact skipped

/-! ## Text in colors -/

/-- The first text is the second one in colors. What is written after it makes no difference, so
texts in colors can be joined. -/
structure Colored (s t : String) : Prop where
  noEscape : NoEscape t
  unstyled : ∀ rest, unstyledFrom 0 (s.toList ++ rest) = t.toList ++ unstyledFrom 0 rest

section

variable {s t s' t' : String}

theorem colored_self (h : NoEscape t) : Colored t t :=
  ⟨h, unstyledFrom_append_of_not_mem h⟩

theorem Colored.unstyled_eq (h : Colored s t) : Display.unstyled s = t := by
  have all := h.unstyled []
  rw [List.append_nil, unstyledFrom, List.append_nil] at all
  rw [Display.unstyled, all, String.ofList_toList]

theorem NoEscape.append (h : NoEscape t) (h' : NoEscape t') : NoEscape (t ++ t') := by
  rw [NoEscape, String.toList_append, List.mem_append, not_or]
  exact ⟨h, h'⟩

theorem Colored.append (h : Colored s t) (h' : Colored s' t') : Colored (s ++ s') (t ++ t') := by
  refine ⟨h.noEscape.append h'.noEscape, fun rest => ?_⟩
  rw [String.toList_append, List.append_assoc, h.unstyled, h'.unstyled, String.toList_append,
    List.append_assoc]

theorem Colored.lines {on off : List String} (h : List.Forall₂ Colored on off) :
    Colored ("\n".intercalate on) ("\n".intercalate off) := by
  have line : NoEscape "\n" := by decide
  induction h with
  | nil => exact colored_self (by decide)
  | cons first later ih =>
    cases later with
    | nil => rwa [String.intercalate_singleton, String.intercalate_singleton]
    | cons second rest =>
      rw [String.intercalate_cons_cons, String.intercalate_cons_cons]
      exact (first.append (colored_self line)).append ih

theorem colored_code {code : String} (digits : List Char) (filled : digits ≠ [])
    (h : ∀ d ∈ digits, d.isDigit = true) (same : code.toList = '\x1b' :: '[' :: digits ++ ['m']) :
    Colored code "" := by
  refine ⟨by decide, fun rest => ?_⟩
  rw [same, List.append_assoc]
  exact unstyledFrom_style filled h rest

theorem colored_styleCode (style : Style) : Colored style.code "" := by
  cases style with
  | bold => exact colored_code ['1'] (by simp) (by simp) (by simp [Style.code])
  | red => exact colored_code ['3', '1'] (by simp) (by simp) (by simp [Style.code])
  | yellow => exact colored_code ['3', '3'] (by simp) (by simp) (by simp [Style.code])
  | cyan => exact colored_code ['3', '6'] (by simp) (by simp) (by simp [Style.code])

theorem colored_plainCode : Colored plainCode "" :=
  colored_code ['0'] (by simp) (by simp) (by simp [plainCode])

theorem colored_codes (styles : List Style) : Colored (String.join (styles.map Style.code)) "" := by
  induction styles with
  | nil => exact colored_self (by decide)
  | cons style styles ih =>
    rw [List.map_cons, String.join_cons]
    exact (colored_styleCode style).append ih

theorem colored_paint (h : NoEscape t) (colors : Bool) (styles : List Style) :
    Colored (paint colors styles t) t := by
  unfold paint
  split
  · exact colored_self h
  · have all := ((colored_codes styles).append (colored_self h)).append colored_plainCode
    rwa [String.empty_append, String.append_empty] at all

end

/-! ## Numbers -/

theorem ne_escape_of_isDigit {c : Char} (h : c.isDigit = true) : c ≠ '\x1b' := by
  rintro rfl
  contradiction

theorem noEscape_toDigits (n : Nat) : '\x1b' ∉ Nat.toDigits 10 n := fun h =>
  ne_escape_of_isDigit (Nat.isDigit_of_mem_toDigits (by decide) (by decide) h) rfl

theorem noEscape_toString (n : Nat) : NoEscape (toString n) := by
  simpa [NoEscape] using noEscape_toDigits n

theorem noEscape_int (i : Int) : NoEscape (toString i) := by
  cases i with
  | ofNat n => exact noEscape_toString n
  | negSucc n =>
    have sign : NoEscape "-" := by decide
    exact sign.append (noEscape_toString (n + 1))

theorem noEscape_shortest (q : Rat) : '\x1b' ∉ (Number.shortest q).1 := by
  unfold Number.shortest
  dsimp only
  split
  · intro h
    rw [List.mem_reverse] at h
    have digit := (List.dropWhile_sublist _).subset h
    exact noEscape_toDigits _ (List.mem_reverse.1 digit)
  · decide

theorem noEscape_numberLayout {digits : List Char} (h : '\x1b' ∉ digits) (point : Int) :
    NoEscape (Number.layout digits point) := by
  have taken (n : Nat) : '\x1b' ∉ digits.take n := fun mem => h (List.mem_of_mem_take mem)
  have left (n : Nat) : '\x1b' ∉ digits.drop n := fun mem => h (List.mem_of_mem_drop mem)
  have sign : NoEscape (if point - 1 < 0 then "-" else "+") := by split <;> decide
  have mark : NoEscape "e" := by decide
  unfold Number.layout
  dsimp only
  split
  · simp [NoEscape, h]
  · split
    · simp [NoEscape, taken, left]
    · split
      · simp [NoEscape, h]
      · refine ((NoEscape.append ?_ mark).append sign).append (noEscape_toString _)
        rcases digits with _ | ⟨d, _ | ⟨d', rest⟩⟩
        · decide
        · simpa [NoEscape] using h
        · simpa [NoEscape] using h

theorem noEscape_number (n : Number) : NoEscape n.text := by
  unfold Number.text
  split
  · decide
  · split <;> decide
  · split
    · exact noEscape_int _
    · refine NoEscape.append ?_ (noEscape_numberLayout (noEscape_shortest _) _)
      split <;> decide

/-! ## Inputs -/

theorem noEscape_of_isVisible {s : List Char} (h : ∀ c ∈ s, IsVisible c) : '\x1b' ∉ s := by
  intro mem
  have visible := h _ mem
  simp [IsVisible] at visible

theorem noEscape_elements (isText hint : Bool) (bytes : List UInt8) :
    ∀ e ∈ (elements isText hint bytes).1, '\x1b' ∉ e.text := by
  intro e he
  apply noEscape_of_isVisible
  have text := List.mem_map_of_mem (f := Element.text) he
  unfold elements at text
  split at text
  · rw [charElements, texts_charElementsFrom, List.mem_map] at text
    obtain ⟨c, -, same⟩ := text
    exact same ▸ isVisible_escape c.1
  · rw [texts_byteElements, List.mem_map] at text
    obtain ⟨b, -, same⟩ := text
    exact same ▸ isVisible_byteText hint b

theorem noEscape_reached (limit : Limit) (isText hint : Bool) (bytes : List UInt8) :
    ∀ e ∈ limit.reached (elements isText hint bytes).1, '\x1b' ∉ e.text := by
  cases limit with
  | unordered => exact List.forall_mem_nil _
  | all | most n => exact noEscape_elements isText hint bytes

section

variable {es : List Element} (h : ∀ e ∈ es, '\x1b' ∉ e.text)

def PlainPieces (pieces : List Piece) : Prop := ∀ p ∈ pieces, '\x1b' ∉ p.text

theorem PlainPieces.append {a b : List Piece} (ha : PlainPieces a) (hb : PlainPieces b) :
    PlainPieces (a ++ b) :=
  List.forall_mem_append.2 ⟨ha, hb⟩

theorem plainPieces_one {p : Piece} (h : '\x1b' ∉ p.text) : PlainPieces [p] :=
  List.forall_mem_singleton.2 h

theorem PlainPieces.spaced {pieces : List Piece} (h : PlainPieces pieces) :
    PlainPieces (spaced pieces) := by
  induction pieces using spaced.induct with
  | case1 => exact h
  | case2 p => exact h
  | case3 p rest filled ih =>
    obtain ⟨first, later⟩ := List.forall_mem_cons.1 h
    rw [Display.spaced]
    · exact List.forall_mem_cons.2 ⟨first, List.forall_mem_cons.2 ⟨by decide, ih later⟩⟩
    · exact filled

include h

theorem plainPieces_runs {wrap : List Piece → List Piece}
    (kept : ∀ run, PlainPieces run → PlainPieces (wrap run)) (w : Window) :
    PlainPieces (runs es wrap w) := by
  have plain (range : Nat × Nat) : PlainPieces (run es range) := by
    intro p hp
    obtain ⟨e, he, rfl⟩ := List.mem_map.1 hp
    exact h e (List.mem_of_mem_take (List.mem_of_mem_drop he))
  intro p hp
  obtain ⟨row, hrow, hp⟩ := List.mem_flatten.1 hp
  rw [List.mem_mapIdx] at hrow
  obtain ⟨n, inside, rfl⟩ := hrow
  rcases List.mem_append.1 hp with cut | shown
  · split at cut
    · exact plainPieces_one (by decide) p cut
    · contradiction
  · exact kept _ (plain _) p shown

theorem noEscape_layout (w : Window) (textual : Bool) : NoEscape (layout es w textual).line := by
  have cut : PlainPieces (if cutAtEnd es.length w then [Piece.cut] else []) := by
    split
    · exact plainPieces_one (by decide)
    · exact List.forall_mem_nil _
  have quote : PlainPieces [Piece.quote] := plainPieces_one (by decide)
  have pieces : PlainPieces (layout es w textual).pieces := by
    unfold layout
    dsimp only
    split
    · exact (plainPieces_runs h (fun run plain => (quote.append plain).append quote) w).append cut
    · have shown := ((plainPieces_runs h (fun run plain => plain) w).append cut).spaced
      exact ((plainPieces_one (by decide)).append shown).append (plainPieces_one (by decide))
  rw [NoEscape, Layout.line, String.toList_ofList]
  intro mem
  obtain ⟨p, hp, text⟩ := List.mem_flatMap.1 mem
  exact pieces p hp text

end

section

variable (settings : Settings) (o : Options) (v : View)

theorem noEscape_renderBytes (isText : Bool) (bytes : List UInt8) :
    NoEscape (renderBytes settings o isText bytes) := by
  unfold renderBytes
  dsimp only
  split_ifs
  · exact noEscape_layout (noEscape_elements _ _ _) _ _
  · exact noEscape_layout (noEscape_reached _ _ _ _) _ _

theorem noEscape_renderSpan (start stop : Number) :
    NoEscape (renderSpan settings o v start stop).1 := by
  unfold renderSpan
  exact noEscape_layout (noEscape_reached _ _ _ _) _ _

theorem noEscape_additional (start : Number) : NoEscape (additional v start) := by
  have place : NoEscape "error offset: " := by decide
  have length : NoEscape ", input length: " := by decide
  have line : NoEscape "  error line: " := by decide
  have blank : NoEscape "  " := by decide
  have comma : NoEscape ", " := by decide
  have offsets :=
    ((place.append (noEscape_number start)).append length).append (noEscape_number v.extent)
  unfold additional
  dsimp only
  cases v.kind with
  | text => exact ((line.append (noEscape_toString _)).append comma).append offsets
  | bytes => exact blank.append offsets

end

/-! ## Backtraces -/

structure PlainFrame (f : Frame) : Prop where
  operation : NoEscape f.operation
  expected : ∀ expected ∈ f.expected, NoEscape expected

def frameText (colors : Bool) (f : Frame) : String :=
  paint colors [.yellow] ("\x60" ++ f.operation ++ "\x60") ++
    f.expected.elim "" fun expected => " (expected " ++ expected ++ ")"

theorem backtraceLines_cons (colors : Bool) (children depth : Nat) (f : Frame)
    (rest : List (Nat × Frame)) : backtraceLines colors children ((depth, f) :: rest) =
      if f.isChild then
        ("    " ++ toString (children + 1) ++ ". " ++ frameText colors f) ::
          backtraceLines colors (children + 1) rest
      else ("  " ++ toString depth ++ ". " ++ frameText colors f) ::
        backtraceLines colors 0 rest := by
  obtain ⟨operation, expected, isChild⟩ := f
  cases expected <;> rfl

theorem PlainFrame.colored_frameText {f : Frame} (plain : PlainFrame f) (colors : Bool) :
    Colored (frameText colors f) (frameText false f) := by
  have quote : NoEscape "\x60" := by decide
  have before : NoEscape " (expected " := by decide
  have after : NoEscape ")" := by decide
  have operation := (quote.append plain.operation).append quote
  refine (colored_paint operation colors [.yellow]).append (colored_self ?_)
  cases same : f.expected with
  | none => decide
  | some expected => exact (before.append (plain.expected expected same)).append after

theorem colored_backtraceLines {visits : List (Nat × Frame)}
    (plain : ∀ visit ∈ visits, PlainFrame visit.2) (colors : Bool) (children : Nat) :
    List.Forall₂ Colored (backtraceLines colors children visits)
      (backtraceLines false children visits) := by
  have dot : NoEscape ". " := by decide
  have numbered {indent : String} (blank : NoEscape indent) (n : Nat) :
      Colored (indent ++ toString n ++ ". ") (indent ++ toString n ++ ". ") :=
    colored_self ((blank.append (noEscape_toString n)).append dot)
  induction visits generalizing children with
  | nil => exact .nil
  | cons visit visits ih =>
    obtain ⟨depth, f⟩ := visit
    obtain ⟨first, later⟩ := List.forall_mem_cons.1 plain
    have text := first.colored_frameText colors
    rw [backtraceLines_cons, backtraceLines_cons]
    split
    · exact .cons ((numbered (by decide) _).append text) (ih later _)
    · exact .cons ((numbered (by decide) _).append text) (ih later _)

/-! ## Reports -/

structure Details.Plain (d : Details) : Prop where
  description : NoEscape d.description
  frames : ∀ f ∈ d.backtrace.frames, PlainFrame f

theorem Details.Plain.visits {d : Details} (h : d.Plain) :
    ∀ visit ∈ d.backtrace.visits, PlainFrame visit.2 := fun _ hv =>
  h.frames _ (d.backtrace.visits_perm.mem_iff.1 (List.mem_map_of_mem hv))

theorem colored_title (colors : Bool) {title : String} (h : NoEscape title) :
    Colored (paint colors [.cyan] title) (paint false [.cyan] title) :=
  colored_paint h colors _

theorem noEscape_input {s : String} (h : NoEscape s) : NoEscape (inputMark ++ s) :=
  NoEscape.append (by decide) h

theorem noEscape_blanks (n : Nat) : NoEscape (blanks n) := by
  rw [NoEscape, blanks_toList, List.mem_replicate]
  rintro ⟨-, same⟩
  contradiction

section

variable (settings : Settings) (o : Options) (colors : Bool) (d : Details)

theorem colored_placeLines :
    List.Forall₂ Colored (placeLines settings o colors d) (placeLines settings o false d) := by
  have title {s : String} (h : NoEscape s) := colored_title colors h
  have note : ∀ line ∈ spanNote, NoEscape line := by decide
  cases place : d.span.rangeOf? d.input.span with
  | none =>
    have notes : List.Forall₂ Colored (spanNote.map (paint colors [.yellow]))
        (spanNote.map (paint false [.yellow])) := by
      rw [List.forall₂_map_left_iff, List.forall₂_map_right_iff, List.forall₂_same]
      exact fun line hl => colored_paint (note line hl) colors _
    have span := noEscape_input (noEscape_renderBytes settings
      { o with strHint := some (o.strHint == some true || d.input.kind == .text) } false
      d.span.bytes)
    have input := noEscape_input (noEscape_renderBytes settings o (d.input.kind == .text)
      d.input.bytes)
    simp only [placeLines, place]
    exact List.rel_append notes (.cons (title (by decide)) (.cons (colored_self span)
      (.cons (title (by decide)) (.cons (colored_self input) .nil))))
  | some range =>
    -- The indent is taken from the underline before that is painted, so it is the same for both.
    obtain ⟨start, stop⟩ := range
    have line := noEscape_renderSpan settings o d.input start stop
    have marks := renderSpan_mem settings o d.input start stop
    simp only [placeLines, place]
    generalize renderSpan settings o d.input start stop = rendered at line marks ⊢
    obtain ⟨shown, underline⟩ := rendered
    have carets : NoEscape (String.ofList (underline.dropWhile (· == ' '))) := by
      rw [NoEscape, String.toList_ofList]
      intro mem
      have mark := marks _ ((List.dropWhile_sublist _).subset mem)
      contradiction
    have underlined := (colored_self (noEscape_blanks
      (inputMark.length + (underline.length - (underline.dropWhile (· == ' ')).length)))).append
        (colored_paint carets colors [.red])
    have offsets := colored_self (noEscape_additional d.input start)
    exact .cons (colored_self (noEscape_input line))
      (.cons underlined (.cons (title (by decide)) (.cons offsets .nil)))

end

def inColors (settings : Settings) (env : Settings.Environment) (o : Options) : Bool :=
  colorsEnabled env (o.colors.getD (settings.getBoolean "display.colors" false))

def headerLine (colors : Bool) (d : Details) : String :=
  paint colors [.bold, .red] "error" ++ " attempting to " ++ d.backtrace.root.op.description ++
    ": " ++ paint colors [.bold] d.description

def expectedLines (settings : Settings) (o : Options) (colors : Bool) (d : Details) :
    List String :=
  match d.expected with
  | some v =>
    [paint colors [.cyan] "expected:", inputMark ++ renderView settings o v,
      paint colors [.cyan] "in:"]
  | none => []

def bodyLines (settings : Settings) (o : Options) (colors : Bool) (d : Details) : List String :=
  headerLine colors d :: expectedLines settings o colors d ++ placeLines settings o colors d ++
    paint colors [.cyan] "backtrace:" :: backtraceLines colors 0 d.backtrace.visits

def bannerTop : String :=
  "-- INPUT ERROR " ++ String.ofList (List.replicate (ruleWidth - "-- INPUT ERROR ".length) '-')

def bannerBottom : String := String.ofList (List.replicate ruleWidth '-')

def inBanner (banner : Bool) (lines : List String) : List String :=
  if banner then bannerTop :: lines ++ [bannerBottom] else lines

section

variable (settings : Settings) (env : Settings.Environment) (o : Options) (d : Details)

theorem reportLines_eq : reportLines settings env o d =
    inBanner (o.banner.getD (settings.getBoolean "display.banner" false))
      (bodyLines settings o (inColors settings env o) d) := rfl

theorem reportLines_colors (c : Option Bool) : reportLines settings env { o with colors := c } d =
    inBanner (o.banner.getD (settings.getBoolean "display.banner" false))
      (bodyLines settings o (inColors settings env { o with colors := c }) d) := rfl

end

section

variable (settings : Settings) (o : Options) (colors : Bool) {d : Details}

theorem colored_headerLine (plain : d.Plain) :
    Colored (headerLine colors d) (headerLine false d) := by
  have error : NoEscape "error" := by decide
  have attempting : NoEscape " attempting to " := by decide
  have colon : NoEscape ": " := by decide
  have operation : NoEscape d.backtrace.root.op.description :=
    (plain.frames d.backtrace.root.frame (by simp [Backtrace.frames])).operation
  exact ((((colored_paint error colors _).append (colored_self attempting)).append
    (colored_self operation)).append (colored_self colon)).append
      (colored_paint plain.description colors _)

theorem colored_expectedLines :
    List.Forall₂ Colored (expectedLines settings o colors d)
      (expectedLines settings o false d) := by
  unfold expectedLines
  split
  · exact .cons (colored_title colors (by decide))
      (.cons (colored_self (noEscape_input (noEscape_renderBytes _ _ _ _)))
        (.cons (colored_title colors (by decide)) .nil))
  · exact .nil

theorem colored_bodyLines (plain : d.Plain) :
    List.Forall₂ Colored (bodyLines settings o colors d) (bodyLines settings o false d) :=
  List.rel_append
    (.cons (colored_headerLine colors plain)
      (List.rel_append (colored_expectedLines settings o colors)
        (colored_placeLines settings o colors d)))
    (.cons (colored_title colors (by decide))
      (colored_backtraceLines plain.visits colors 0))

theorem colored_inBanner {on off : List String} (h : List.Forall₂ Colored on off) (banner : Bool) :
    List.Forall₂ Colored (inBanner banner on) (inBanner banner off) := by
  unfold inBanner
  split
  · exact List.rel_append (.cons (colored_self (by decide)) h)
      (.cons (colored_self (by decide)) .nil)
  · exact h

end

/-! ## Failures -/

theorem mem_lines {line : String} {lines : List String} (h : line ∈ lines) {c : Char}
    (hc : c ∈ line.toList) : c ∈ ("\n".intercalate lines).toList := by
  induction lines with
  | nil => contradiction
  | cons first later ih =>
    cases later with
    | nil => rwa [String.intercalate_singleton, ← List.mem_singleton.1 h]
    | cons second rest =>
      rw [String.intercalate_cons_cons, String.toList_append, String.toList_append,
        List.mem_append, List.mem_append]
      rcases List.mem_cons.1 h with rfl | h
      · exact .inl (.inl hc)
      · exact .inr (ih h)

/-- What a failure is described with holds no escape; what it failed on may. -/
def PlainFailure : Failure → Prop
  | .report r => (Details.ofReport r).Plain
  | .note text => NoEscape text
  | .broken description => NoEscape description
  | .invalid _ | .fatal => True

theorem noEscape_retry (retry : Retry) : NoEscape retry.text := by
  have one : NoEscape "1 byte" := by decide
  have bytes : NoEscape " bytes" := by decide
  have more : NoEscape " more" := by decide
  unfold Retry.text byteCount
  split
  · exact one.append more
  · exact ((noEscape_number _).append bytes).append more

theorem noEscape_text {e : Failure} (plain : PlainFailure e) (other : ∀ r, e ≠ .report r) :
    NoEscape e.text := by
  cases e with
  | report r => exact absurd rfl (other r)
  | note text => exact plain
  | broken description => exact plain
  | fatal => decide
  | invalid retry =>
    cases retry with
    | none => decide
    | some retry =>
      have before : NoEscape "invalid input: needs " := by decide
      have after : NoEscape " to continue processing" := by decide
      exact (before.append (noEscape_retry retry)).append after

section

variable (settings : Settings) (env : Settings.Environment) (o : Options)

theorem colored_renderDetails (env' : Settings.Environment) (c : Option Bool) {d : Details}
    (plain : d.Plain) :
    Colored (renderDetails settings env' { o with colors := c } d)
      (renderDetails settings env { o with colors := some false } d) := by
  unfold renderDetails
  rw [reportLines_colors, reportLines_colors]
  exact Colored.lines (colored_inBanner (colored_bodyLines settings o _ plain) _)

theorem escape_mem_renderDetails {d : Details} (asked : inColors settings env o = true) :
    '\x1b' ∈ (renderDetails settings env o d).toList := by
  rw [renderDetails, reportLines_eq, asked]
  have header : '\x1b' ∈ (headerLine true d).toList := by
    simp [headerLine, paint, Style.code]
  refine mem_lines ?_ header
  have first : headerLine true d ∈ bodyLines settings o true d := by simp [bodyLines]
  unfold inBanner
  split
  · exact List.mem_append_left _ (List.mem_cons_of_mem _ first)
  · exact first

theorem renderDetails_of_not_inColors {c : Option Bool} {d : Details}
    (off : inColors settings env { o with colors := c } = false) (env' : Settings.Environment) :
    renderDetails settings env { o with colors := c } d =
      renderDetails settings env' { o with colors := some false } d := by
  unfold renderDetails
  rw [reportLines_colors, reportLines_colors, off]
  rfl

/-- A failure that is described without escapes is rendered without any if colors are off, whatever
input it shows. With colors, if they are asked for and the environment does not forbid them, taking
out the styles leaves just what is rendered without; only a report has any. -/
theorem colors_only_color {e : Failure} (plain : PlainFailure e) :
    let off := renderFailure settings env { o with colors := some false } e
    NoEscape off ∧ ∀ env' colors,
      let on := renderFailure settings env' { o with colors := colors } e
      unstyled on = off ∧
        ('\x1b' ∈ on.toList ↔
          inColors settings env' { o with colors := colors } = true ∧ ∃ r, e = .report r) := by
  by_cases report : ∃ r, e = .report r
  · obtain ⟨r, rfl⟩ := report
    have colored := fun env' c => colored_renderDetails settings env o env' c plain
    refine ⟨(colored env none).noEscape, fun env' colors => ⟨(colored env' colors).unstyled_eq, ?_⟩⟩
    constructor
    · intro escape
      refine ⟨?_, r, rfl⟩
      -- Without colors the report is the plain one, which holds no escape.
      by_contra off
      rw [Bool.not_eq_true] at off
      have same := renderDetails_of_not_inColors settings env' o (d := .ofReport r) off env
      refine (colored env' colors).noEscape ?_
      rw [← same]
      exact escape
    · rintro ⟨asked, -⟩
      exact escape_mem_renderDetails settings env' _ asked
  · have text (env : Settings.Environment) (o : Options) :
        renderFailure settings env o e = e.text := by
      cases e with
      | report r => exact absurd ⟨r, rfl⟩ report
      | _ => rfl
    have clear := noEscape_text plain fun r same => report ⟨r, same⟩
    simp only [text]
    refine ⟨clear, fun env' colors => ⟨(colored_self clear).unstyled_eq, ?_⟩⟩
    constructor
    · exact fun escape => absurd escape clear
    · exact fun both => absurd both.2 report

end

/-- A text that holds a style of its own, which is shown as it is written and stays. -/
theorem colors_only_color_escaped :
    let v := View.ofSource (.ofBytes 0 (Utf8.encode "\x1b[1mné".toList)) .text
    let root : RootFrame := ⟨.consume, "exact value", .within v.source (0 : Nat) (1 : Nat)⟩
    let expected := View.ofSource (.ofBytes 1 [0x6e]) .text
    let e : Failure := .report ⟨⟨.value expected, root, v⟩, v, ⟨true, root, [.named "header"]⟩⟩
    let on := renderFailure (.load .nothing []) [] { Options.none with colors := some true } e
    PlainFailure e ∧ 0x1b ∈ v.bytes ∧ '\x1b' ∈ on.toList ∧
      unstyled on = "\n".intercalate
        ["error attempting to consume input: found a different value to the exact expected",
          "expected:", "> \"n\"", "in:", "> \"\\u\x7b1b\x7d[1mné\"", "   ^^^^^^", "additional:",
          "  error line: 1, error offset: 0, input length: 7", "backtrace:", "  1. \x60header\x60",
          "  2. \x60consume input\x60 (expected exact value)"] := by
  intro v root expected e on
  have header : PlainFrame (.named "header") := ⟨by decide, fun _ absent => by contradiction⟩
  have consume : PlainFrame root.frame :=
    ⟨by decide, fun _ same => Option.some.inj same ▸ by decide⟩
  have plain : PlainFailure e :=
    ⟨by decide +kernel, List.forall_mem_cons.2 ⟨header, List.forall_mem_singleton.2 consume⟩⟩
  obtain ⟨-, both⟩ := colors_only_color (.load .nothing []) [] Options.none plain
  obtain ⟨same, escape⟩ := both [] (some true)
  refine ⟨plain, by decide +kernel, escape.2 ⟨by decide +kernel, _, rfl⟩, ?_⟩
  rw [same]
  decide +kernel

end Untrusted.Display
