import Mathlib
import Untrusted.Display.Report

/-!
# The place of a failure

A report whose span lies in its input is rendered with the span underlined there, and no line says
that the span is elsewhere.
-/

namespace Untrusted

namespace Display

/-! ## Lines that are none of the note -/

/-- How the lines of the note start, in either color. -/
def noteStarts : List (List Char) := ["note:".toList, "     ".toList, "\x1b[33m".toList]

def NoNote (line : String) : Prop :=
  ∀ colors, ∀ note ∈ spanNote, line ≠ paint colors [.yellow] note

variable {line : String}

theorem noNote_of_start (h : line.toList.take 5 ∉ noteStarts) : NoNote line := by
  intro colors note hn same
  have starts : ∀ colors, ∀ note ∈ spanNote,
      (paint colors [.yellow] note).toList.take 5 ∈ noteStarts := by decide +kernel
  exact h (same ▸ starts colors note hn)

theorem noNote_of_first {c : Char} {rest : List Char} (h : line.toList = c :: rest)
    (hc : c ≠ 'n' ∧ c ≠ ' ' ∧ c ≠ '\x1b') : NoNote line := by
  apply noNote_of_start
  simp [h, noteStarts, hc]

theorem noNote_cyan (colors : Bool) : ∀ title ∈ ["expected:", "in:", "additional:", "backtrace:"],
    NoNote (paint colors [.cyan] title) := by
  intro title ht
  apply noNote_of_start
  revert title colors
  decide +kernel

/-! ## The underline -/

theorem caretsFrom_mem {column : Nat} {marks : List (Nat × Nat)} {c : Char}
    (h : c ∈ Layout.caretsFrom column marks) : c = ' ' ∨ c = '^' := by
  induction marks generalizing column with
  | nil => simp [Layout.caretsFrom] at h
  | cons mark marks ih =>
    obtain ⟨first, n⟩ := mark
    simp only [Layout.caretsFrom, List.mem_append, List.mem_replicate] at h
    rcases h with (⟨-, rfl⟩ | ⟨-, rfl⟩) | later
    · exact .inl rfl
    · exact .inr rfl
    · exact ih later

theorem blanks_toList (n : Nat) : (blanks n).toList = List.replicate n ' ' := by
  simp [blanks]

theorem noNote_underline (colors : Bool) {n : Nat} (hn : 0 < n) {carets : List Char}
    (h : ∀ c ∈ carets, c = ' ' ∨ c = '^') :
    NoNote (blanks n ++ paint colors [.red] (String.ofList carets)) := by
  have colored : ∀ note ∈ spanNote, (paint true [.yellow] note).toList.head? = some '\x1b' := by
    decide +kernel
  have plain : ∀ note ∈ spanNote, 'e' ∈ (paint false [.yellow] note).toList ∧
      '\x1b' ∉ (paint false [.yellow] note).toList := by decide +kernel
  intro other note mem same
  cases other with
  | true =>
    have first := colored note mem
    obtain ⟨n, rfl⟩ := Nat.exists_eq_succ_of_ne_zero hn.ne'
    rw [← same] at first
    simp [blanks_toList, List.replicate_succ] at first
  | false =>
    obtain ⟨letter, uncolored⟩ := plain note mem
    rw [← same, String.toList_append, blanks_toList, List.mem_append] at letter uncolored
    have painted : 'e' ∈ (paint colors [.red] (String.ofList carets)).toList := by
      simpa using letter
    unfold paint at painted uncolored
    split at painted
    · have caret := h 'e' (by simpa using painted)
      simp at caret
    · rename_i code
      rw [if_neg code] at uncolored
      simp [Style.code] at uncolored

theorem renderSpan_mem (settings : Settings) (o : Options) (v : View) (start stop : Number) :
    ∀ c ∈ (renderSpan settings o v start stop).2, c = ' ' ∨ c = '^' :=
  fun _ => caretsFrom_mem

/-! ## The other lines -/

theorem noNote_input (s : String) : NoNote (inputMark ++ s) := by
  have text : (inputMark ++ s).toList = '>' :: ' ' :: s.toList := by simp [inputMark]
  exact noNote_of_first text (by decide)

theorem noNote_additional (v : View) (start : Number) : NoNote (additional v start) := by
  apply noNote_of_start
  unfold additional
  cases v.kind <;> simp [noteStarts]

theorem exists_digit (n : Nat) : ∃ c rest, Nat.toDigits 10 n = c :: rest ∧ c ≠ ' ' := by
  obtain ⟨c, rest, eq⟩ := List.exists_cons_of_ne_nil (Nat.toDigits_ne_nil (n := n) (b := 10))
  refine ⟨c, rest, eq, ?_⟩
  rintro rfl
  have digit := Nat.isDigit_of_mem_toDigits (b := 10) (n := n) (by decide) (by decide)
    (eq ▸ List.mem_cons_self)
  simp [Char.isDigit] at digit

theorem noNote_backtraceLines (colors : Bool) (children : Nat) (visits : List (Nat × Frame)) :
    ∀ line ∈ backtraceLines colors children visits, NoNote line := by
  induction visits generalizing children with
  | nil => simp [backtraceLines]
  | cons visit visits ih =>
    obtain ⟨depth, f⟩ := visit
    obtain ⟨c, rest, number, digit⟩ := exists_digit depth
    obtain ⟨c', rest', number', digit'⟩ := exists_digit (children + 1)
    unfold backtraceLines
    dsimp only
    split_ifs
    · rw [List.forall_mem_cons]
      refine ⟨noNote_of_start ?_, ih _⟩
      simp [noteStarts, number', digit']
    · rw [List.forall_mem_cons]
      refine ⟨noNote_of_start ?_, ih _⟩
      simp [noteStarts, number, digit]

/-! ## The place of a failure -/

section

variable {d : Details} {start stop : Number} (h : d.span.rangeOf? d.input.span = some (start, stop))
  (settings : Settings) (o : Options) (colors : Bool)

include h

theorem placeLines_of_rangeOf? :
    ∃ line indent carets,
      renderSpan settings o d.input start stop = (line, List.replicate indent ' ' ++ carets) ∧
      placeLines settings o colors d =
        [inputMark ++ line,
          blanks (inputMark.length + indent) ++ paint colors [.red] (String.ofList carets),
          paint colors [.cyan] "additional:", additional d.input start] := by
  cases rendered : renderSpan settings o d.input start stop with
  | mk line underline =>
    have blank : underline.takeWhile (· == ' ') =
        List.replicate (underline.takeWhile (· == ' ')).length ' ' :=
      List.eq_replicate_iff.2 ⟨rfl, fun c hc => by simpa using List.mem_takeWhile_imp hc⟩
    have split := List.takeWhile_append_dropWhile (p := (· == ' ')) (l := underline)
    refine ⟨line, (underline.takeWhile (· == ' ')).length, underline.dropWhile (· == ' '), ?_, ?_⟩
    · rw [← blank, split]
    · have indent : underline.length - (underline.dropWhile (· == ' ')).length =
          (underline.takeWhile (· == ' ')).length := by
        have length := congrArg List.length split
        rw [List.length_append] at length
        omega
      simp only [placeLines, h, rendered, indent]

theorem noNote_placeLines : ∀ line ∈ placeLines settings o colors d, NoNote line := by
  obtain ⟨line, indent, carets, rendered, eq⟩ := placeLines_of_rangeOf? h settings o colors
  have marks : ∀ c ∈ carets, c = ' ' ∨ c = '^' := by
    intro c hc
    apply renderSpan_mem settings o d.input start stop
    rw [rendered]
    exact List.mem_append_right _ hc
  have mark : inputMark.length = 2 := rfl
  rw [eq]
  simp only [List.forall_mem_cons, List.not_mem_nil, false_imp_iff, implies_true, and_true]
  exact ⟨noNote_input line, noNote_underline colors (by omega) marks,
    noNote_cyan colors _ (by simp), noNote_additional _ _⟩

omit colors in
theorem noNote_reportLines (env : Settings.Environment) :
    ∀ line ∈ reportLines settings env o d, NoNote line := by
  have header (colors : Bool) (s : String) : NoNote (paint colors [.bold, .red] "error" ++ s) := by
    apply noNote_of_start
    cases colors <;> simp [paint, Style.code, noteStarts]
  have rule (s : String) : NoNote ("-- INPUT ERROR " ++ s) := by
    have text : ("-- INPUT ERROR " ++ s).toList = '-' :: ("- INPUT ERROR ".toList ++ s.toList) := by
      simp
    exact noNote_of_first text (by decide)
  have ruled : NoNote (String.ofList (List.replicate ruleWidth '-')) :=
    noNote_of_first String.toList_ofList (by decide)
  unfold reportLines
  dsimp only
  generalize colorsEnabled env _ = colors
  have expected (v : View) : ∀ line ∈ [paint colors [.cyan] "expected:",
      inputMark ++ renderView settings o v, paint colors [.cyan] "in:"], NoNote line := by
    simp only [List.forall_mem_cons, List.not_mem_nil, false_imp_iff, implies_true, and_true]
    exact ⟨noNote_cyan colors _ (by simp), noNote_input _, noNote_cyan colors _ (by simp)⟩
  have place := noNote_placeLines h settings o colors
  have trace := noNote_backtraceLines colors 0 d.backtrace.visits
  have backtrace := noNote_cyan colors "backtrace:" (by simp)
  split
  · simp only [List.forall_mem_cons, List.forall_mem_append, String.append_assoc, rule, ruled,
      header, List.cons_append]
    refine ⟨trivial, trivial, ⟨⟨⟨?_, place⟩, backtrace, trace⟩, trivial, by simp⟩⟩
    split
    · exact expected _
    · simp
  · simp only [List.forall_mem_cons, List.forall_mem_append, String.append_assoc, header,
      List.cons_append]
    refine ⟨trivial, ⟨?_, place⟩, backtrace, trace⟩
    split
    · exact expected _
    · simp

end

end Display

end Untrusted
