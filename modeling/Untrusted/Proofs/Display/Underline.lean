import Mathlib
import Untrusted.Proofs.Display.Place
import Untrusted.Proofs.Display.Window
import Untrusted.Proofs.Number

/-!
# Underlines mark their span

A caret stands beneath each column of an element that the span overlaps, and beneath no other. The
element at which the span starts is always shown, so some caret marks its start.
-/

namespace Untrusted.Display

/-! ## Columns -/

/-- Whether an element shows some of the bytes from `i` up to `j`. -/
def Element.overlaps (e : Element) (i j : Nat) : Bool := e.start < j && i < e.stop

/-- The column just past the last of some placed elements; the first is just past what opens a
line. -/
def endOf (placed : List (Element × Nat)) : Nat :=
  match placed.getLast? with
  | some x => x.2 + x.1.width
  | none => 1

section

variable {a b pieces : List Piece} {column : Nat} {x : Element × Nat}

@[simp]
theorem width_nil : width [] = 0 := rfl

@[simp]
theorem width_cons (p : Piece) : width (p :: a) = p.width + width a := rfl

@[simp]
theorem width_append : width (a ++ b) = width a + width b := by
  induction a with
  | nil => simp
  | cons p a ih => simp [ih, Nat.add_assoc]

namespace Layout

theorem placedFrom_append : placedFrom column (a ++ b) =
    placedFrom column a ++ placedFrom (column + width a) b := by
  induction a generalizing column with
  | nil => simp [placedFrom]
  | cons p a ih =>
    rw [List.cons_append, placedFrom, placedFrom, ih, width_cons, Nat.add_assoc]
    cases p.element <;> rfl

theorem map_fst_placedFrom : (placedFrom column pieces).map Prod.fst = shown pieces := by
  induction pieces generalizing column with
  | nil => rfl
  | cons p pieces ih =>
    rw [placedFrom, shown, List.filterMap_cons]
    cases p.element with
    | none => exact ih
    | some e => exact congrArg (e :: ·) ih

theorem placedFrom_plain (h : ∀ p ∈ pieces, p.element = none) : placedFrom column pieces = [] := by
  rw [← List.map_eq_nil_iff (f := Prod.fst), map_fst_placedFrom]
  exact List.filterMap_eq_nil_iff.2 h

theorem exists_append_of_mem_placedFrom (hx : x ∈ placedFrom column pieces) :
    ∃ before p after, pieces = before ++ p :: after ∧ p.element = some x.1 ∧
      x.2 = column + width before := by
  induction pieces generalizing column with
  | nil => simp [placedFrom] at hx
  | cons p pieces ih =>
    have later (hx : x ∈ placedFrom (column + p.width) pieces) : ∃ before q after,
        p :: pieces = before ++ q :: after ∧ q.element = some x.1 ∧
          x.2 = column + width before := by
      obtain ⟨before, q, after, rfl, element, place⟩ := ih hx
      exact ⟨p :: before, q, after, rfl, element, by rw [place, width_cons, Nat.add_assoc]⟩
    rw [placedFrom] at hx
    cases shows : p.element with
    | none =>
      rw [shows] at hx
      exact later hx
    | some e =>
      rw [shows] at hx
      rcases List.mem_cons.1 hx with rfl | hx
      · exact ⟨[], p, pieces, rfl, shows, rfl⟩
      · exact later hx

theorem le_of_mem_placedFrom (hx : x ∈ placedFrom column pieces) : column ≤ x.2 := by
  obtain ⟨before, p, after, -, -, place⟩ := exists_append_of_mem_placedFrom hx
  omega

theorem pairwise_placedFrom (faithful : Faithful pieces) (column : Nat) :
    (placedFrom column pieces).Pairwise fun x y => x.2 + x.1.width ≤ y.2 := by
  induction pieces generalizing column with
  | nil => exact .nil
  | cons p pieces ih =>
    have later := ih (fun q hq => faithful q (List.mem_cons_of_mem p hq)) (column + p.width)
    rw [placedFrom]
    cases shows : p.element with
    | none => exact later
    | some e =>
      have text := faithful p List.mem_cons_self e shows
      refine .cons (fun y hy => ?_) later
      have after := le_of_mem_placedFrom hy
      rwa [Piece.width, text] at after

theorem units_of_mem_placed {l : Layout} (faithful : Faithful l.pieces) (hx : x ∈ l.placed) :
    ((Utf8.units l.line.toList).drop x.2).take x.1.width = Utf8.units x.1.text := by
  obtain ⟨before, p, after, split, element, place⟩ := exists_append_of_mem_placedFrom hx
  have text := faithful p (by simp [split]) x.1 element
  have column : (Utf8.units (before.flatMap Piece.text)).length = x.2 := by
    rw [place, Nat.zero_add]
    clear * -
    induction before with
    | nil => rfl
    | cons q before ih =>
      rw [List.flatMap_cons, Utf8.units, List.flatMap_append, List.length_append, width_cons, ← ih]
      rfl
  have line : Utf8.units l.line.toList = Utf8.units (before.flatMap Piece.text) ++
      (Utf8.units x.1.text ++ Utf8.units (after.flatMap Piece.text)) := by
    rw [line, String.toList_ofList, split, List.flatMap_append, List.flatMap_cons, text]
    simp [Utf8.units, List.flatMap_append]
  rw [line, ← column, List.drop_left, Element.width, List.take_left]

end Layout

/-! ## Carets -/

namespace Layout

theorem caretsFrom_cons (column : Nat) (m : Nat × Nat) (marks : List (Nat × Nat)) :
    caretsFrom column (m :: marks) =
      List.replicate (m.1 - column) ' ' ++ List.replicate m.2 '^' ++
        caretsFrom (m.1 + m.2) marks := rfl

theorem caretsFrom_getElem? {marks : List (Nat × Nat)} {column j : Nat}
    (apart : marks.Pairwise fun m m' => m.1 + m.2 ≤ m'.1) (from_ : ∀ m ∈ marks, column ≤ m.1) :
    (caretsFrom column marks)[j]? = some '^' ↔
      ∃ m ∈ marks, m.1 ≤ column + j ∧ column + j < m.1 + m.2 := by
  -- By induction on the marks, which follow each other: a caret stands in each column of a mark.
  induction marks generalizing column j with
  | nil => simp [caretsFrom]
  | cons m marks ih =>
    obtain ⟨first, later⟩ := List.pairwise_cons.1 apart
    have start := from_ m List.mem_cons_self
    rw [caretsFrom_cons, List.append_assoc]
    -- Blanks stand before the mark, and the marks after it all start past it.
    rcases Nat.lt_or_ge j (m.1 - column) with before | after
    · rw [List.getElem?_append_left (by simpa using before), List.getElem?_replicate, if_pos before]
      constructor
      · simp
      · rintro ⟨m', hm, inside⟩
        have apart' : m'.1 < m.1 := by omega
        rcases List.mem_cons.1 hm with rfl | hm
        · omega
        · have := first m' hm
          omega
    · rw [List.getElem?_append_right (by simpa using after), List.length_replicate]
      rcases Nat.lt_or_ge (j - (m.1 - column)) m.2 with inside | past
      · rw [List.getElem?_append_left (by simpa using inside), List.getElem?_replicate,
          if_pos inside]
        exact iff_of_true rfl ⟨m, List.mem_cons_self, by omega, by omega⟩
      · have place : m.1 + m.2 + (j - (m.1 - column) - m.2) = column + j := by omega
        rw [List.getElem?_append_right (by simpa using past), List.length_replicate, ih later first,
          place, List.exists_mem_cons_iff]
        refine (or_iff_right fun inside => ?_).symm
        omega

theorem caretsFrom_zero_cons {first n : Nat} (filled : 0 < n) (marks : List (Nat × Nat)) :
    ∃ rest, caretsFrom 0 ((first, n) :: marks) = List.replicate first ' ' ++ '^' :: rest := by
  obtain ⟨n, rfl⟩ := Nat.exists_eq_succ_of_ne_zero filled.ne'
  exact ⟨_, by rw [caretsFrom_cons, Nat.sub_zero, List.replicate_succ, List.append_assoc]; rfl⟩

variable {l : Layout} {i j : Nat}

theorem marks_of_lt (wide : ∀ x ∈ l.placed, 0 < x.1.width) (lt : i < j) :
    l.marks i j = (l.placed.filter fun x => x.1.overlaps i j).map fun x => (x.2, x.1.width) := by
  rw [marks, Number.same_ofNat, if_neg (by simp; omega)]
  simp only [Number.lt_ofNat]
  apply List.map_congr_left
  intro x hx
  have filled := wide x (List.mem_filter.1 hx).1
  exact congrArg (Prod.mk x.2) (Nat.max_eq_right filled)

theorem underline_getElem? (faithful : Faithful l.pieces) (wide : ∀ x ∈ l.placed, 0 < x.1.width)
    (lt : i < j) (column : Nat) :
    (l.underline i j)[column]? = some '^' ↔
      ∃ x ∈ l.placed, x.1.overlaps i j = true ∧ x.2 ≤ column ∧ column < x.2 + x.1.width := by
  have row : l.placed.Pairwise fun x y => x.2 + x.1.width ≤ y.2 := pairwise_placedFrom faithful 0
  have apart := (row.filter fun x => x.1.overlaps i j).map
    (fun x : Element × Nat => (x.2, x.1.width)) (S := fun m m' => m.1 + m.2 ≤ m'.1) fun _ _ h => h
  rw [underline, marks_of_lt wide lt, caretsFrom_getElem? apart (fun _ _ => Nat.zero_le _)]
  rw [Nat.zero_add]
  constructor
  · rintro ⟨m, marked, near⟩
    obtain ⟨x, hx, rfl⟩ := List.mem_map.1 marked
    obtain ⟨hx, overlaps⟩ := List.mem_filter.1 hx
    exact ⟨x, hx, overlaps, near⟩
  · rintro ⟨x, hx, overlaps, near⟩
    exact ⟨_, List.mem_map.2 ⟨x, List.mem_filter.2 ⟨hx, overlaps⟩, rfl⟩, near⟩

theorem underline_of_find? (wide : ∀ x ∈ l.placed, 0 < x.1.width) (lt : i < j)
    (first : l.placed.find? (fun x => x.1.overlaps i j) = some x) :
    ∃ rest, l.underline i j = List.replicate x.2 ' ' ++ '^' :: rest := by
  rw [← List.head?_filter] at first
  obtain ⟨later, split⟩ := List.head?_eq_some_iff.1 first
  rw [underline, marks_of_lt wide lt, split, List.map_cons]
  exact caretsFrom_zero_cons (wide x (List.mem_of_mem_filter (split ▸ List.mem_cons_self))) _

theorem underline_self (l : Layout) (i : Nat) : l.underline i i =
    List.replicate ((l.placed.find? fun x => i ≤ x.1.start).elim l.endColumn Prod.snd) ' ' ++
      ['^'] := by
  rw [underline, marks, Number.same_ofNat, if_pos (by simp)]
  simp only [Number.le_ofNat]
  cases l.placed.find? fun x => decide (i ≤ x.1.start) with
  | none => simp [caretsFrom]
  | some x => simp [caretsFrom]

end Layout

/-! ## The end of a line -/

theorem endOf_concat (before : List Piece) (e : Element) :
    endOf (Layout.placedFrom 0 (before ++ [.ofElement e])) = width (before ++ [.ofElement e]) := by
  have last : Layout.placedFrom (0 + width before) [.ofElement e] = [(e, width before)] := by
    rw [Nat.zero_add]
    rfl
  rw [Layout.placedFrom_append, last, endOf, List.getLast?_concat, width_append]
  rfl

theorem endOf_append_plain {rest : List Piece} (h : ∀ p ∈ rest, p.element = none) :
    endOf (Layout.placedFrom 0 (a ++ rest)) = endOf (Layout.placedFrom 0 a) := by
  rw [Layout.placedFrom_append, Layout.placedFrom_plain h, List.append_nil]

theorem exists_spaced_concat (before : List Piece) (p : Piece) :
    ∃ before', spaced (before ++ [p]) = before' ++ [p] := by
  induction before with
  | nil => exact ⟨[], rfl⟩
  | cons q before ih =>
    obtain ⟨before', split⟩ := ih
    refine ⟨q :: .blank :: before', ?_⟩
    have step : spaced (q :: (before ++ [p])) = q :: .blank :: spaced (before ++ [p]) := by
      cases before with
      | nil => rfl
      | cons _ _ => rfl
    rw [List.cons_append, step, split]
    rfl

theorem runs_one (es : List Element) (wrap : List Piece → List Piece) (range : Nat × Nat) :
    runs es wrap [range] = (if 0 < range.1 then [.cut] else []) ++ wrap (run es range) := by
  simp [runs]

theorem run_cases {es : List Element} {i j : Nat} (filled : i < j ∨ i = 0)
    (inside : j ≤ es.length) :
    (i = 0 ∧ run es (i, j) = []) ∨ ∃ before e, run es (i, j) = before ++ [.ofElement e] := by
  rcases List.eq_nil_or_concat' ((es.take j).drop i) with empty | ⟨xs, e, concat⟩
  · have length := congrArg List.length empty
    simp at length
    exact .inl ⟨by omega, by rw [run, empty, List.map_nil]⟩
  · exact .inr ⟨xs.map .ofElement, e, by rw [run, concat, List.map_append, List.map_singleton]⟩

theorem endColumn_layout {es : List Element} {i j : Nat} (filled : i < j ∨ i = 0)
    (inside : j ≤ es.length) {textual : Bool} (ends : textual = true ∨ j = es.length) :
    (layout es [(i, j)] textual).endColumn = endOf (layout es [(i, j)] textual).placed := by
  let before : List Piece := if 0 < i then [.cut] else []
  let after : List Piece := if cutAtEnd es.length [(i, j)] then [.cut] else []
  have plain : ∀ p ∈ after, p.element = none := by
    simp only [after]
    split <;> simp [Piece.cut]
  cases textual with
  | true =>
    -- The last run ends in a quote, which takes the one column that is not counted.
    let line := before ++ [.quote] ++ run es (i, j)
    have row : runs es (fun r => .quote :: r ++ [.quote]) [(i, j)] = line ++ [.quote] := by
      rw [runs_one]
      simp [line, before]
    have past : endOf (Layout.placedFrom 0 line) = width line := by
      rcases run_cases filled inside with ⟨rfl, empty⟩ | ⟨xs, e, last⟩
      · simp only [line, before, empty]
        decide
      · simp only [line, last, ← List.append_assoc]
        exact endOf_concat _ e
    change width (runs es _ _) - 1 = endOf (Layout.placedFrom 0 (runs es _ _ ++ after))
    have quote : Piece.quote.width = 1 := by decide
    rw [row, endOf_append_plain plain, endOf_append_plain (by simp [Piece.quote]), past,
      width_append]
    simp [quote]
  | false =>
    -- No mark follows, as the run goes on to the last element.
    obtain rfl : j = es.length := by simpa using ends
    let line := [⟨['['], none⟩] ++ spaced (before ++ run es (i, es.length))
    have row : spaced (runs es id [(i, es.length)] ++ after) =
        spaced (before ++ run es (i, es.length)) := by
      rw [runs_one]
      simp [before, after, cutAtEnd]
    have past : endOf (Layout.placedFrom 0 line) = width line := by
      rcases run_cases filled inside with ⟨rfl, empty⟩ | ⟨xs, e, last⟩
      · simp only [line, before, empty]
        decide
      · obtain ⟨ys, split⟩ := exists_spaced_concat (before ++ xs) (.ofElement e)
        simp only [line, last, ← List.append_assoc, split]
        exact endOf_concat _ e
    change width (_ :: spaced (runs es id _ ++ after)) =
      endOf (Layout.placedFrom 0 ((_ :: spaced (runs es id _ ++ after)) ++ _))
    rw [row, endOf_append_plain (by simp)]
    exact past.symm

end

/-! ## The first element of a span -/

theorem eq_or_before_of_find? {es : List Element} {p : Element → Bool} {f g : Element}
    (row : es.Pairwise fun a b => a.stop ≤ b.start) (found : es.find? p = some f) (hg : g ∈ es)
    (holds : p g = true) : g = f ∨ f.stop ≤ g.start := by
  obtain ⟨-, before, after, rfl, passed⟩ := List.find?_eq_some_iff_append.1 found
  rcases List.mem_append.1 hg with early | late
  · have := passed g early
    simp [holds] at this
  · rcases List.mem_cons.1 late with rfl | late
    · exact .inl rfl
    · exact .inr ((List.pairwise_cons.1 (List.pairwise_append.1 row).2.1).1 g late)

theorem find?_of_sublist {es part : List Element} {p : Element → Bool} {f : Element} {i j : Nat}
    (tiles : Tiles i j es) (sub : part.Sublist es) (found : es.find? p = some f) (hf : f ∈ part) :
    part.find? p = some f := by
  cases first : part.find? p with
  | none => exact absurd (List.find?_some found) (List.find?_eq_none.1 first f hf)
  | some g =>
    have hg := sub.subset (List.mem_of_find?_eq_some first)
    have after := eq_or_before_of_find? tiles.pairwise found hg (List.find?_some first)
    have before := eq_or_before_of_find? (tiles.pairwise.sublist sub) first hf
      (List.find?_some found)
    -- Two different ones would each come before the other.
    rcases after with same | after
    · rw [same]
    · rcases before with same | before
      · rw [same]
      · have := tiles.bounds hg
        have := tiles.bounds (sub.subset hf)
        omega

theorem find?_overlaps {es : List Element} {n i j : Nat} (tiles : Tiles 0 n es) (lt : i < j)
    (inside : i < n) : ∃ f, es.find? (·.overlaps i j) = some f ∧
      es.find? (fun e => i < e.stop) = some f := by
  obtain ⟨before, f, after, rfl, starts, stops, passed⟩ := tiles.exists_at (Nat.zero_le i) inside
  refine ⟨f, List.find?_eq_some_iff_append.2 ⟨?_, before, after, rfl, fun b hb => ?_⟩,
    List.find?_eq_some_iff_append.2 ⟨by simpa using stops, before, after, rfl, fun b hb => ?_⟩⟩
  · simp only [Element.overlaps, Bool.and_eq_true, decide_eq_true_eq]
    omega
  · have := passed b hb
    simp only [Element.overlaps, Bool.not_eq_true', Bool.and_eq_false_iff, decide_eq_false_iff_not]
    omega
  · have := passed b hb
    simp only [Bool.not_eq_true', decide_eq_false_iff_not]
    omega

/-! ## Spans and what is around them -/

section

variable {es : List Element} {most first n i j : Nat} {l : Layout} {textual : Bool}

theorem Surrounds.map_fst_placed {start : Number} (line : Surrounds es most start l first textual) :
    l.placed.map Prod.fst = (es.drop first).take (min es.length most) :=
  Layout.map_fst_placedFrom.trans line.tells.shown

theorem Surrounds.sublist {start : Number} (line : Surrounds es most start l first textual) :
    (l.placed.map Prod.fst).Sublist es := by
  rw [line.map_fst_placed]
  exact (List.take_sublist _ _).trans (List.drop_sublist _ _)

theorem Surrounds.placed_eq_nil_iff {start : Number}
    (line : Surrounds es most start l first textual) (tiles : Tiles 0 n es) (filled : 0 < most) :
    l.placed = [] ↔ n = 0 := by
  rw [← List.map_eq_nil_iff (f := Prod.fst), line.map_fst_placed, ← List.length_eq_zero_iff,
    eq_comm (a := n), ← tiles.eq_nil_iff, ← List.length_eq_zero_iff, List.length_take,
    List.length_drop]
  have := line.inside
  omega

theorem Surrounds.exists_first (line : Surrounds es most i l first textual) (tiles : Tiles 0 n es)
    (lt : i < j) (inside : j ≤ n) : ∃ x, es.find? (·.overlaps i j) = some x.1 ∧
      l.placed.find? (fun x => x.1.overlaps i j) = some x := by
  obtain ⟨f, overlaps, focus⟩ := find?_overlaps tiles lt (lt.trans_le inside)
  have near := line.near f (by simpa [Number.lt_ofNat] using focus)
  rw [← line.map_fst_placed] at near
  have among := find?_of_sublist tiles line.sublist overlaps near
  rw [List.find?_map] at among
  obtain ⟨x, found, rfl⟩ := Option.map_eq_some_iff.1 among
  exact ⟨x, overlaps, found⟩

theorem endColumn_of_missing (line : Surrounds es most i l first textual) (filled : 0 < most)
    (byte : textual = false → ∀ e ∈ es, e.stop = e.start + 1)
    (missing : ∀ x ∈ l.placed, x.1.start < i) : l.endColumn = endOf l.placed := by
  have ends : textual = true ∨ first + min es.length most = es.length := by
    cases textual with
    | true => exact .inl rfl
    | false =>
      refine .inr (line.far (Option.eq_none_iff_forall_ne_some.2 fun f focus => ?_))
      have stop := byte rfl f (List.mem_of_find?_eq_some focus)
      have after := List.find?_some focus
      have near := line.near f focus
      rw [← line.map_fst_placed] at near
      obtain ⟨x, hx, rfl⟩ := List.mem_map.1 near
      have before := missing x hx
      rw [Number.lt_ofNat, decide_eq_true_eq] at after
      omega
  have inside := line.inside
  rw [line.window]
  exact endColumn_layout (by omega) inside ends

theorem Surrounds.underline_self (line : Surrounds es most i l first textual) (filled : 0 < most)
    (byte : textual = false → ∀ e ∈ es, e.stop = e.start + 1) : l.underline i i =
      List.replicate ((l.placed.find? fun x => i ≤ x.1.start).elim (endOf l.placed) Prod.snd) ' ' ++
        ['^'] := by
  rw [Layout.underline_self]
  cases found : l.placed.find? fun x => i ≤ x.1.start with
  | some x => rfl
  | none =>
    have past := endColumn_of_missing line filled byte (by simpa using found)
    rw [Option.elim_none, Option.elim_none, past]

end

/-! ## Reports -/

theorem exists_reportLines (settings : Settings) (env : Settings.Environment) (o : Options)
    (d : Details) : ∃ before after, reportLines settings env o d = before ++
      placeLines settings o
        (colorsEnabled env (o.colors.getD (settings.getBoolean "display.colors" false))) d ++
        after := by
  have framed (title rule : String) (a b c : List String) :
      title :: (a ++ b ++ c) ++ [rule] = title :: a ++ b ++ (c ++ [rule]) := by
    simp
  unfold reportLines
  dsimp only
  split
  · exact ⟨_, _, framed _ _ _ _ _⟩
  · exact ⟨_, _, rfl⟩

theorem placeLines_plain (settings : Settings) (o : Options) {d : Details} {start stop : Number}
    (h : d.span.rangeOf? d.input.span = some (start, stop)) :
    let rendered := renderSpan settings o d.input start stop
    ∃ after, placeLines settings o false d =
      [inputMark ++ rendered.1, blanks inputMark.length ++ String.ofList rendered.2] ++ after := by
  obtain ⟨line, indent, carets, rendered, lines⟩ := placeLines_of_rangeOf? h settings o false
  have moved : blanks (inputMark.length + indent) ++ paint false [.red] (String.ofList carets) =
      blanks inputMark.length ++ String.ofList (List.replicate indent ' ' ++ carets) := by
    apply String.toList_inj.1
    simp only [String.toList_append, blanks_toList, paint, String.toList_ofList, Bool.not_false,
      Bool.true_or, if_true, ← List.append_assoc, List.replicate_append_replicate]
  rw [lines, rendered, moved]
  exact ⟨_, rfl⟩

theorem exists_reportLines_plain (settings : Settings) (o : Options) {env : Settings.Environment}
    {d : Details} {start stop : Number}
    (h : d.span.rangeOf? d.input.span = some (start, stop))
    (plain : colorsEnabled env (o.colors.getD (settings.getBoolean "display.colors" false)) =
      false) :
    let rendered := renderSpan settings o d.input start stop
    ∃ before after, reportLines settings env o d = before ++
      [inputMark ++ rendered.1, blanks inputMark.length ++ String.ofList rendered.2] ++ after := by
  obtain ⟨before, after, report⟩ := exists_reportLines settings env o d
  obtain ⟨later, lines⟩ := placeLines_plain settings o h
  refine ⟨before, later ++ after, ?_⟩
  rw [report, plain, lines]
  simp only [List.append_assoc]

/-! ## Spans of an input -/

/-- Beneath an input, a span is marked at the elements that it overlaps, from the first of them on,
and an empty span at its place. In a report the marks stay beneath what they mark. -/
theorem underline_marks_span (settings : Settings) (o : Options) (q : Rat) {v : View}
    (valid : v.kind = .text → Utf8.isValid v.bytes = true) {i j : Nat} (le : i ≤ j)
    (inside : j ≤ v.bytes.length) :
    let o := { o with maxElements := some (.finite q) }
    let es := (elements (v.kind == .text) (o.resolve settings).strHint v.bytes).1
    let l := spanLayout settings o v i
    let carets := l.underline i j
    renderSpan settings o v i j = (l.line, carets) ∧
    (l.placed.map Prod.fst = shown l.pieces ∧ ∀ x ∈ l.placed, 0 < x.1.width ∧
      ((Utf8.units l.line.toList).drop x.2).take x.1.width = Utf8.units x.1.text) ∧
    (i < j →
      (∀ column, carets[column]? = some '^' ↔ ∃ x ∈ l.placed, x.1.overlaps i j = true ∧
        x.2 ≤ column ∧ column < x.2 + x.1.width) ∧
      ∃ x ∈ l.placed, es.find? (·.overlaps i j) = some x.1 ∧
        ∃ rest, carets = List.replicate x.2 ' ' ++ '^' :: rest) ∧
    (i = j → carets =
      List.replicate ((l.placed.find? fun x => i ≤ x.1.start).elim (endOf l.placed) Prod.snd) ' ' ++
        ['^']) ∧
    (l.placed = [] ↔ v.bytes = []) ∧
    ∀ env d, d.input = v → d.span.rangeOf? v.span = some (Number.ofNat i, Number.ofNat j) →
      colorsEnabled env (o.colors.getD (settings.getBoolean "display.colors" false)) = false →
      ∃ before after, reportLines settings env o d = before ++
        [inputMark ++ l.line, blanks inputMark.length ++ String.ofList carets] ++ after := by
  intro o es l carets
  have tiles : Tiles 0 v.bytes.length es := tiles_elements (by simpa using valid)
  have filled : 0 < max 1 q.floor.toNat :=
    Nat.lt_of_lt_of_le Nat.zero_lt_one (Nat.le_max_left 1 _)
  obtain ⟨first, line⟩ := exists_surrounds filled valid (spanLayout_most (o := o) rfl v i)
  replace line : Surrounds es (max 1 q.floor.toNat) i l first _ := line
  have wide : ∀ x ∈ l.placed, 0 < x.1.width := fun x hx =>
    width_pos_of_mem_elements (line.sublist.subset (List.mem_map_of_mem hx))
  refine ⟨renderSpan_eq .., ⟨Layout.map_fst_placedFrom, fun x hx =>
      ⟨wide x hx, Layout.units_of_mem_placed line.tells.faithful hx⟩⟩,
    fun lt => ⟨Layout.underline_getElem? line.tells.faithful wide lt, ?_⟩, ?_, ?_, ?_⟩
  · obtain ⟨x, overlaps, found⟩ := line.exists_first tiles lt inside
    exact ⟨x, List.mem_of_find?_eq_some found, overlaps, Layout.underline_of_find? wide lt found⟩
  · rintro rfl
    exact line.underline_self filled fun plain e he => stop_of_mem_elements plain he
  · rw [line.placed_eq_nil_iff tiles filled, List.length_eq_zero_iff]
  · rintro env d rfl range plain
    exact exists_reportLines_plain settings o range plain

/-- Two of six bytes, of which four may be shown. -/
theorem underline_marks_span_bytes :
    let o : Options := ⟨some (.finite 4), none, some false, none, some false⟩
    let settings := Settings.load .nothing []
    let v := View.ofSource (.ofBytes 0 [1, 2, 3, 4, 5, 6]) .bytes
    let l := spanLayout settings o v (2 : Nat)
    let carets := l.underline (2 : Nat) (4 : Nat)
    let d : Details := ⟨v, .within v.source (2 : Nat) (4 : Nat), none, "", .ofRoot true
      ⟨.take, "enough input", v.span⟩⟩
    2 ≤ v.bytes.length ∧ d.span.rangeOf? v.span = some (Number.ofNat 2, Number.ofNat 4) ∧
      l.line = "[.. 02 03 04 05 ..]" ∧ carets = "       ^^ ^^".toList ∧
      (∃ x ∈ l.placed, (elements false false v.bytes).1.find? (·.overlaps 2 4) = some x.1 ∧
        ∃ rest, carets = List.replicate x.2 ' ' ++ '^' :: rest) ∧
      ∃ before after, reportLines settings [] o d = before ++
        [inputMark ++ l.line, blanks inputMark.length ++ String.ofList carets] ++ after := by
  intro o settings v l carets d
  have inside : 4 ≤ v.bytes.length := by decide +kernel
  have range : d.span.rangeOf? v.span = some (Number.ofNat 2, Number.ofNat 4) := by decide +kernel
  obtain ⟨-, -, marked, -, -, report⟩ := underline_marks_span settings o 4 (v := v)
    (by simp [v, View.ofSource]) (by decide : 2 ≤ 4) inside
  exact ⟨by omega, range, by decide +kernel, by decide +kernel, (marked (by decide)).2,
    report [] d rfl range rfl⟩

end Untrusted.Display
