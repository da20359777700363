import Mathlib
import Untrusted.Display.Input
import Untrusted.Proofs.Display.Elements

/-!
# What a line shows, and what it leaves out

A line that is too short for its elements shows one or two runs of them. A reader can tell where
others were left out: each run of those is told by one mark, and there are no other marks.
-/

namespace Untrusted.Display

/-! ## Elements and marks of a line -/

/-- What a piece tells of the elements: that one is there, or that some were left out. -/
def Piece.item? (p : Piece) : Option (Option Element) :=
  match p.element with
  | some e => some (some e)
  | none => if p = cut then some none else none

def items (pieces : List Piece) : List (Option Element) := pieces.filterMap Piece.item?

def shown (pieces : List Piece) : List Element := pieces.filterMap Piece.element

/-- Pieces that show elements by their texts. -/
def Faithful (pieces : List Piece) : Prop := ∀ p ∈ pieces, ∀ e, p.element = some e → p.text = e.text

/-- What there is to tell of elements of which some are kept: those, and once for each run of the
others that they were left out. A run that has begun may have been told already. -/
def elideFrom (keep : Element → Bool) (told : Bool) : List Element → List (Option Element)
  | [] => []
  | e :: rest =>
    if keep e then some e :: elideFrom keep false rest
    else (if told then [] else [none]) ++ elideFrom keep true rest

def elide (keep : Element → Bool) (elements : List Element) : List (Option Element) :=
  elideFrom keep false elements

/-! ## Pieces of a layout -/

section

variable {a b : List Piece} {es : List Element}

@[simp]
theorem items_nil : items [] = [] := rfl

@[simp]
theorem items_append : items (a ++ b) = items a ++ items b := List.filterMap_append

@[simp]
theorem items_cut : items [Piece.cut] = [none] := rfl

@[simp]
theorem items_quote : items [Piece.quote] = [] := rfl

theorem items_cons (p : Piece) : items (p :: a) = items [p] ++ items a :=
  items_append (a := [p])

theorem items_plain {text : List Char} (h : text ≠ ['.', '.']) (rest : List Piece) :
    items (⟨text, none⟩ :: rest) = items rest := by
  rw [items_cons]
  simp [items, Piece.item?, Piece.cut, h]

@[simp]
theorem items_run (es : List Element) (range : Nat × Nat) :
    items (run es range) = ((es.take range.2).drop range.1).map some := by
  rw [run, items, List.filterMap_map]
  exact congrFun List.filterMap_eq_map' _

@[simp]
theorem items_spaced (a : List Piece) : items (spaced a) = items a := by
  induction a using spaced.induct with
  | case1 => rfl
  | case2 p => rfl
  | case3 p rest filled ih =>
    have step : spaced (p :: rest) = p :: .blank :: spaced rest := by
      cases rest with
      | nil => contradiction
      | cons _ _ => rfl
    rw [step, items_cons, Piece.blank, items_plain (by decide), ih, ← items_cons]

/-- The runs of a window with a mark before each that does not start the input, and one at the end
if elements are left. -/
def windowItems (es : List Element) (w : Window) : List (Option Element) :=
  (w.mapIdx fun n range =>
      (if 0 < n ∨ 0 < range.1 then [none] else []) ++
        ((es.take range.2).drop range.1).map some).flatten ++
    if cutAtEnd es.length w then [none] else []

theorem items_runs (wrap : List Piece → List Piece) (h : ∀ r, items (wrap r) = items r)
    (w : Window) :
    items (runs es wrap w) = (w.mapIdx fun n range =>
      (if 0 < n ∨ 0 < range.1 then [none] else []) ++
        ((es.take range.2).drop range.1).map some).flatten := by
  rw [runs, items, List.filterMap_flatten]
  congr 1
  apply List.ext_getElem?
  intro n
  rw [List.getElem?_map, List.getElem?_mapIdx, List.getElem?_mapIdx, Option.map_map]
  congr 1
  funext range
  change items _ = _
  rw [items_append, h, items_run]
  split <;> rfl

theorem items_layout (es : List Element) (w : Window) (textual : Bool) :
    items (layout es w textual).pieces = windowItems es w := by
  have after : items (if cutAtEnd es.length w then [Piece.cut] else []) =
      if cutAtEnd es.length w then [none] else [] := by
    split <;> rfl
  have quoted (r : List Piece) : items (Piece.quote :: r ++ [.quote]) = items r := by
    rw [List.cons_append, items_cons]
    simp
  cases textual with
  | true =>
    change items (runs es (fun r => .quote :: r ++ [.quote]) w ++ _) = _
    rw [items_append, items_runs _ quoted, after]
    rfl
  | false =>
    change items (⟨['['], none⟩ :: spaced (runs es id w ++ _) ++ [⟨[']'], none⟩]) = _
    rw [List.cons_append, items_plain (by decide), items_append, items_spaced, items_append,
      items_runs id fun _ => rfl, after, items_plain (by decide), items_nil, List.append_nil]
    rfl

theorem shown_eq (a : List Piece) : shown a = (items a).filterMap id := by
  rw [items, List.filterMap_filterMap, shown]
  congr 1
  funext p
  simp only [Piece.item?]
  cases p.element with
  | some e => rfl
  | none => by_cases marked : p = .cut <;> simp [marked]

end

/-! ## Layouts of an input -/

def sectionLayout (settings : Settings) (o : Options) (isText : Bool) (bytes : List UInt8) :
    Layout :=
  let r := o.resolve settings
  let row := elements isText r.strHint bytes
  let es := if r.part = .full then row.1 else r.limit.reached row.1
  layout es (sectionWindow es.length r.limit r.part) row.2

/-- What a view is laid out as around a span that starts at `start`. -/
def spanLayout (settings : Settings) (o : Options) (v : View) (start : Number) : Layout :=
  let r := o.resolve settings
  let row := elements (v.kind == .text) r.strHint v.bytes
  let es := r.limit.reached row.1
  layout es (spanWindow es.length r.limit (focus es start)) row.2

theorem renderBytes_eq (settings : Settings) (o : Options) (isText : Bool) (bytes : List UInt8) :
    renderBytes settings o isText bytes = (sectionLayout settings o isText bytes).line := rfl

theorem renderSpan_eq (settings : Settings) (o : Options) (v : View) (start stop : Number) :
    renderSpan settings o v start stop =
      ((spanLayout settings o v start).line,
        (spanLayout settings o v start).underline start stop) := rfl

section

variable {settings : Settings} {o : Options} {most : Nat}

theorem sectionLayout_most (limit : (o.resolve settings).limit = .most most) (isText : Bool)
    (bytes : List UInt8) :
    let r := o.resolve settings
    let row := elements isText r.strHint bytes
    sectionLayout settings o isText bytes =
      layout row.1 (sectionWindow row.1.length (.most most) r.part) row.2 := by
  simp only [sectionLayout, limit, Limit.reached, ite_self]

theorem spanLayout_most (limit : (o.resolve settings).limit = .most most) (v : View)
    (start : Number) :
    let row := elements (v.kind == .text) (o.resolve settings).strHint v.bytes
    spanLayout settings o v start =
      layout row.1 (spanWindow row.1.length (.most most) (focus row.1 start)) row.2 := by
  simp only [spanLayout, limit, Limit.reached]

end

/-! ## Runs that are kept -/

section

variable {keep : Element → Bool} {a : List Element}

theorem elideFrom_kept (h : ∀ e ∈ a, keep e = true) (told : Bool) (rest : List Element) :
    elideFrom keep told (a ++ rest) = a.map some ++ elideFrom keep (told && a.isEmpty) rest := by
  induction a generalizing told with
  | nil => simp
  | cons e a ih =>
    rw [List.cons_append, elideFrom, if_pos (h e List.mem_cons_self),
      ih (fun e he => h e (List.mem_cons_of_mem _ he))]
    simp

theorem elideFrom_left (h : ∀ e ∈ a, keep e = false) (told : Bool) (rest : List Element) :
    elideFrom keep told (a ++ rest) =
      (if told || a.isEmpty then [] else [none]) ++ elideFrom keep (told || !a.isEmpty) rest := by
  induction a generalizing told with
  | nil => simp
  | cons e a ih =>
    rw [List.cons_append, elideFrom, if_neg (by simp [h e List.mem_cons_self]),
      ih (fun e he => h e (List.mem_cons_of_mem _ he))]
    cases told <;> simp

theorem elideFrom_all_kept (h : ∀ e ∈ a, keep e = true) (told : Bool) :
    elideFrom keep told a = a.map some := by
  simpa [elideFrom] using elideFrom_kept h told []

theorem elideFrom_all_left (h : ∀ e ∈ a, keep e = false) (told : Bool) :
    elideFrom keep told a = if told || a.isEmpty then [] else [none] := by
  simpa [elideFrom] using elideFrom_left h told []

variable {before kept left later : List Element}

theorem elide_run (distinct : (before ++ (kept ++ later)).Nodup) (filled : kept = [] → later = []) :
    elide (· ∈ kept) (before ++ (kept ++ later)) =
      (if before.isEmpty then [] else [none]) ++ kept.map some ++
        if later.isEmpty then [] else [none] := by
  obtain ⟨-, inner, outside⟩ := List.nodup_append.1 distinct
  have after := (List.nodup_append.1 inner).2.2
  have first : ∀ e ∈ before, decide (e ∈ kept) = false := by
    simpa using fun e he hk => outside e he e (by simp [hk]) rfl
  have last : ∀ e ∈ later, decide (e ∈ kept) = false := by
    simpa using fun e he hk => after e hk e he rfl
  rw [elide, elideFrom_left first, elideFrom_kept (by simp), elideFrom_all_left last]
  cases kept with
  | nil => simp [filled rfl]
  | cons e kept => simp

theorem elide_runs (distinct : (before ++ (left ++ later)).Nodup) (filled : left ≠ []) :
    elide (· ∈ before ++ later) (before ++ (left ++ later)) =
      before.map some ++ [none] ++ later.map some := by
  obtain ⟨-, inner, outside⟩ := List.nodup_append.1 distinct
  have after := (List.nodup_append.1 inner).2.2
  have out : ∀ e ∈ left, decide (e ∈ before ++ later) = false := by
    intro e he
    have first : e ∉ before := fun hb => outside e hb e (by simp [he]) rfl
    have last : e ∉ later := fun hl => after e he e hl rfl
    simp [first, last]
  rw [elide, elideFrom_kept (fun e he => by simp [he]), elideFrom_left out,
    elideFrom_all_kept (fun e he => by simp [he])]
  simp [filled]

end

/-! ## Windows -/

def kept (es : List Element) (w : Window) : List Element :=
  w.flatMap fun range => (es.take range.2).drop range.1

theorem shown_layout (es : List Element) (w : Window) (textual : Bool) :
    shown (layout es w textual).pieces = kept es w := by
  have some_id (l : List Element) : (l.map some).filterMap id = l := by simp
  rw [shown_eq, items_layout, windowItems, List.filterMap_append, List.filterMap_flatten, kept,
    List.flatMap]
  have runs : ((w.mapIdx fun n range => (if 0 < n ∨ 0 < range.1 then [none] else []) ++
      ((es.take range.2).drop range.1).map some).map (List.filterMap id)) =
        w.map fun range => (es.take range.2).drop range.1 := by
    apply List.ext_getElem?
    intro n
    rw [List.getElem?_map, List.getElem?_mapIdx, List.getElem?_map, Option.map_map]
    congr 1
    funext range
    rw [Function.comp, List.filterMap_append, some_id]
    split <;> simp
  rw [runs]
  split <;> simp

section

variable {es : List Element} {a b : Nat}

theorem take_drop_drop (le : a ≤ b) : es.take a ++ ((es.take b).drop a ++ es.drop b) = es := by
  have first : es.take a = (es.take b).take a := by rw [List.take_take, Nat.min_eq_left le]
  rw [← List.append_assoc, first, List.take_append_drop, List.take_append_drop]

theorem items_eq_elide_run (distinct : es.Nodup) (le : a ≤ b) (inside : b ≤ es.length)
    (filled : a < b ∨ b = es.length) :
    windowItems es [(a, b)] = elide (· ∈ kept es [(a, b)]) es := by
  have distinct' : (es.take a ++ ((es.take b).drop a ++ es.drop b)).Nodup := by
    rwa [take_drop_drop le]
  have run := elide_run distinct' (by simp; omega)
  rw [take_drop_drop le] at run
  simp only [kept, List.flatMap_cons, List.flatMap_nil, List.append_nil, run]
  have starts : (es.take a).isEmpty = true ↔ a = 0 := by
    rw [List.isEmpty_iff, ← List.length_eq_zero_iff, List.length_take]
    omega
  have ends : (es.drop b).isEmpty = true ↔ ¬b < es.length := by
    rw [List.isEmpty_iff, ← List.length_eq_zero_iff, List.length_drop]
    omega
  simp only [starts, ends, ite_not]
  cases a <;> simp [windowItems, cutAtEnd]

theorem items_eq_elide_runs (distinct : es.Nodup) (lt : a < b) (inside : b ≤ es.length) :
    windowItems es [(0, a), (b, es.length)] = elide (· ∈ kept es [(0, a), (b, es.length)]) es := by
  have distinct' : (es.take a ++ ((es.take b).drop a ++ es.drop b)).Nodup := by
    rwa [take_drop_drop lt.le]
  have runs := elide_runs distinct' (by simp; omega)
  rw [take_drop_drop lt.le] at runs
  simp only [kept, List.flatMap_cons, List.flatMap_nil, List.append_nil, List.drop_zero,
    List.take_length, runs]
  simp [windowItems, cutAtEnd, List.take_of_length_le]

end

/-! ## What a line tells -/

/-- Pieces of a line that show `part` of a row of elements, in its order and by their texts, with a
mark in place of each run of others. -/
structure Tells (pieces : List Piece) (es part : List Element) : Prop where
  faithful : Faithful pieces
  shown : shown pieces = part
  marked : items pieces = elide (· ∈ part) es

section

variable {a b : List Piece} {es : List Element}

theorem faithful_nil : Faithful [] := by simp [Faithful]

theorem Faithful.append (ha : Faithful a) (hb : Faithful b) : Faithful (a ++ b) := by
  intro p hp
  rcases List.mem_append.1 hp with hp | hp
  · exact ha p hp
  · exact hb p hp

theorem faithful_plain (text : List Char) : Faithful [⟨text, none⟩] := by
  simp [Faithful]

theorem faithful_run (es : List Element) (range : Nat × Nat) : Faithful (run es range) := by
  intro p hp e same
  obtain ⟨e', -, rfl⟩ := List.mem_map.1 hp
  obtain rfl := Option.some.inj same
  rfl

theorem Faithful.spaced (ha : Faithful a) : Faithful (spaced a) := by
  induction a using spaced.induct with
  | case1 => exact ha
  | case2 p => exact ha
  | case3 p rest filled ih =>
    have step : Display.spaced (p :: rest) = [p] ++ [.blank] ++ Display.spaced rest := by
      cases rest with
      | nil => contradiction
      | cons _ _ => rfl
    rw [step]
    refine Faithful.append (Faithful.append ?_ (faithful_plain _)) (ih fun q hq => ?_)
    · exact fun q hq => ha q (List.mem_cons.2 (.inl (List.mem_singleton.1 hq)))
    · exact ha q (List.mem_cons_of_mem p hq)

theorem faithful_runs (es : List Element) {wrap : List Piece → List Piece}
    (h : ∀ r, Faithful r → Faithful (wrap r)) (w : Window) : Faithful (runs es wrap w) := by
  have mark (n : Nat) (range : Nat × Nat) :
      Faithful (if 0 < n ∨ 0 < range.1 then [Piece.cut] else []) := by
    split
    · exact faithful_plain _
    · exact faithful_nil
  intro p hp
  obtain ⟨pieces, made, inside⟩ := List.mem_flatten.1 hp
  obtain ⟨n, hn, rfl⟩ := List.mem_mapIdx.1 made
  exact (mark n w[n]).append (h _ (faithful_run es w[n])) p inside

theorem faithful_layout (es : List Element) (w : Window) (textual : Bool) :
    Faithful (layout es w textual).pieces := by
  have after : Faithful (if cutAtEnd es.length w then [Piece.cut] else []) := by
    split
    · exact faithful_plain _
    · exact faithful_nil
  cases textual with
  | true =>
    have quoted (r : List Piece) (h : Faithful r) : Faithful ([.quote] ++ r ++ [.quote]) :=
      ((faithful_plain _).append h).append (faithful_plain _)
    exact (faithful_runs es quoted w).append after
  | false =>
    have inner := ((faithful_runs es (fun _ h => h) w).append after).spaced
    exact ((faithful_plain ['[']).append inner).append (faithful_plain _)

theorem tells_layout {w : Window} (h : windowItems es w = elide (· ∈ kept es w) es)
    (textual : Bool) : Tells (layout es w textual).pieces es (kept es w) :=
  ⟨faithful_layout es w textual, shown_layout es w textual, (items_layout es w textual).trans h⟩

variable {most : Nat}

theorem section_marked (distinct : es.Nodup) (filled : 0 < most) (part : Section) :
    let w := sectionWindow es.length (.most most) part
    windowItems es w = elide (· ∈ kept es w) es := by
  have full := items_eq_elide_run distinct (Nat.zero_le _) le_rfl (.inr rfl)
  unfold sectionWindow
  dsimp only
  split
  · exact full
  · cases part with
    | full => exact full
    | head => exact items_eq_elide_run distinct (Nat.zero_le _) (by omega) (.inl filled)
    | tail => exact items_eq_elide_run distinct (by omega) le_rfl (.inr rfl)
    | headTail => exact items_eq_elide_runs distinct (by omega) (by omega)

theorem span_marked (distinct : es.Nodup) (filled : 0 < most) (place : Nat) :
    let w := spanWindow es.length (.most most) place
    windowItems es w = elide (· ∈ kept es w) es :=
  items_eq_elide_run distinct (by omega) (by omega) (by omega)

theorem kept_section (es : List Element) (most : Nat) (part : Section) :
    let c := es.length
    let part' := kept es (sectionWindow c (.most most) part)
    (part = .full ∨ c ≤ most → part' = es) ∧
    (most < c →
      (part = .head → part' = es.take most) ∧
      (part = .tail → part' = es.drop (c - most)) ∧
      (part = .headTail →
        part' = es.take ((most + 1) / 2) ++ es.drop (c - (most - (most + 1) / 2)))) := by
  have run (a b : Nat) : kept es [(a, b)] = (es.take b).drop a := by simp [kept]
  have all : kept es [(0, es.length)] = es := by rw [run, List.take_length, List.drop_zero]
  unfold sectionWindow
  refine ⟨?_, fun long => ⟨?_, ?_, ?_⟩⟩
  · dsimp only
    rintro (rfl | short)
    · simp [all]
    · rw [if_pos short, all]
  all_goals
    rintro rfl
    simp only [if_neg (Nat.not_le.2 long)]
  · simp [run]
  · simp [run]
  · simp [kept]

theorem exists_spanWindow (count : Nat) (filled : 0 < most) (place : Nat) : ∃ i,
    spanWindow count (.most most) place = [(i, i + min count most)] ∧ i + min count most ≤ count ∧
      (place < count → i ≤ place ∧ place < i + min count most) ∧
      (count ≤ place → i = count - most) := by
  refine ⟨min (place - most / 4) (count - most), ?_, by omega, by omega, by omega⟩
  simp only [spanWindow, List.cons.injEq, Prod.mk.injEq, true_and, and_true]
  omega

end

/-- A line of one run of elements from `first` on, as many of them as there may be, with the first
one that ends after `start`, or the last ones if none does. -/
structure Surrounds (es : List Element) (most : Nat) (start : Number) (l : Layout) (first : Nat)
    (textual : Bool) : Prop where
  window : l = layout es [(first, first + min es.length most)] textual
  tells : Tells l.pieces es ((es.drop first).take (min es.length most))
  inside : first + min es.length most ≤ es.length
  near : ∀ e, es.find? (fun e => start.lt e.stop) = some e →
    e ∈ (es.drop first).take (min es.length most)
  far : es.find? (fun e => start.lt e.stop) = none → first + min es.length most = es.length

theorem exists_surrounds {settings : Settings} {o : Options} {most : Nat} {v : View}
    {start : Number} (filled : 0 < most) (valid : v.kind = .text → Utf8.isValid v.bytes = true)
    (line : let row := elements (v.kind == .text) (o.resolve settings).strHint v.bytes
      spanLayout settings o v start =
        layout row.1 (spanWindow row.1.length (.most most) (focus row.1 start)) row.2) :
    let row := elements (v.kind == .text) (o.resolve settings).strHint v.bytes
    ∃ first, Surrounds row.1 most start (spanLayout settings o v start) first row.2 := by
  intro row
  have tiles : Tiles 0 v.bytes.length row.1 := tiles_elements (by simpa using valid)
  have place : row.1.find? (fun e => start.lt e.stop) = row.1[focus row.1 start]? :=
    List.find?_eq_getElem?_findIdx
  obtain ⟨i, window, inside, near, far⟩ :=
    exists_spanWindow row.1.length filled (focus row.1 start)
  replace line : spanLayout settings o v start =
      layout row.1 [(i, i + min row.1.length most)] row.2 := window ▸ line
  have part : kept row.1 [(i, i + min row.1.length most)] =
      (row.1.drop i).take (min row.1.length most) := by
    simp [kept, List.drop_take]
  have marked := span_marked tiles.nodup filled (focus row.1 start)
  rw [window] at marked
  have tells := tells_layout marked row.2
  rw [← line, part] at tells
  refine ⟨i, line, tells, inside, fun e found => ?_, fun missing => ?_⟩
  · -- The window holds the index of the element, so the element is in its run.
    rw [place] at found
    obtain ⟨le, lt⟩ := near (List.getElem?_eq_some_iff.1 found).1
    apply List.mem_of_getElem? (i := focus row.1 start - i)
    rw [List.getElem?_take_of_lt (by omega), List.getElem?_drop, Nat.add_sub_cancel' le, found]
  · rw [place] at missing
    have past := far (List.getElem?_eq_none_iff.1 missing)
    omega

/-- Whatever the limit, the elements that a section or the surroundings of a span are to show are
shown, as many as the limit lets there be. A mark stands wherever elements were left out, and
nowhere else. -/
theorem left_out_elements_marked (settings : Settings) (o : Options) (q : Rat) :
    let o := { o with maxElements := some (.finite q) }
    let r := o.resolve settings
    let most := max 1 q.floor.toNat
    (∀ isText bytes, (isText = true → Utf8.isValid bytes = true) →
      let es := (elements isText r.strHint bytes).1
      let c := es.length
      let l := sectionLayout settings o isText bytes
      renderBytes settings o isText bytes = l.line ∧ Tiles 0 bytes.length es ∧
      (r.part = .full ∨ c ≤ most → Tells l.pieces es es) ∧
      (most < c →
        (r.part ≠ .full → (shown l.pieces).length = most) ∧
        (r.part = .head → Tells l.pieces es (es.take most)) ∧
        (r.part = .tail → Tells l.pieces es (es.drop (c - most))) ∧
        (r.part = .headTail → Tells l.pieces es
          (es.take ((most + 1) / 2) ++ es.drop (c - (most - (most + 1) / 2)))))) ∧
    ∀ v : View, (v.kind = .text → Utf8.isValid v.bytes = true) → ∀ start : Number,
      let es := (elements (v.kind == .text) r.strHint v.bytes).1
      let c := es.length
      let l := spanLayout settings o v start
      let focus := es.find? fun e => start.lt e.stop
      (∀ stop, renderSpan settings o v start stop = (l.line, l.underline start stop)) ∧
      Tiles 0 v.bytes.length es ∧
      ∃ i, Tells l.pieces es ((es.drop i).take (min c most)) ∧ i + min c most ≤ c ∧
        (∀ e, focus = some e → e ∈ (es.drop i).take (min c most)) ∧
        (focus = none → i + min c most = c) := by
  intro o r most
  have filled : 0 < most := Nat.lt_of_lt_of_le Nat.zero_lt_one (Nat.le_max_left 1 _)
  constructor
  · intro isText bytes valid es c l
    have tiles : Tiles 0 bytes.length es := tiles_elements valid
    have tells : Tells l.pieces es (kept es (sectionWindow c (.most most) r.part)) := by
      rw [show l = _ from sectionLayout_most rfl isText bytes]
      exact tells_layout (section_marked tiles.nodup filled r.part) _
    have shows {part : List Element} (h : kept es (sectionWindow c (.most most) r.part) = part) :
        Tells l.pieces es part := by
      rwa [← h]
    obtain ⟨short, long⟩ := kept_section es most r.part
    refine ⟨renderBytes_eq .., tiles, fun all => shows (short all), fun more => ?_⟩
    obtain ⟨head, tail, headTail⟩ := long more
    refine ⟨fun partly => ?_, fun part => shows (head part), fun part => shows (tail part),
      fun part => shows (headTail part)⟩
    rw [tells.shown]
    cases part : r.part with
    | full => contradiction
    | head => rw [← part, head part]; simp; omega
    | tail => rw [← part, tail part]; simp; omega
    | headTail => rw [← part, headTail part]; simp; omega
  · intro v valid start es c l focus
    obtain ⟨i, line⟩ := exists_surrounds filled valid (spanLayout_most (o := o) rfl v start)
    exact ⟨fun _ => renderSpan_eq .., tiles_elements (by simpa using valid), i, line.tells,
      line.inside, line.near, line.far⟩

/-- Five chars, of which three and a half may be shown, and the last of them as a span. -/
theorem left_out_elements_marked_chars :
    let o : Options := ⟨some (.finite (7 / 2)), some .headTail, some false, none, none⟩
    let settings := Settings.load .nothing []
    let v := View.ofSource (.ofBytes 0 [97, 98, 99, 100, 101]) .text
    let es := (elements true false v.bytes).1
    let l := sectionLayout settings o true v.bytes
    Utf8.isValid v.bytes = true ∧ max 1 (7 / 2 : Rat).floor.toNat < es.length ∧
      (shown l.pieces).length = 3 ∧ Tells l.pieces es (es.take 2 ++ es.drop 4) ∧
      l.line = "\"ab\"..\"e\"" ∧
      ∃ i, Tells (spanLayout settings o v (4 : Nat)).pieces es ((es.drop i).take 3) ∧ i + 3 ≤ 5 ∧
        ⟨['e'], 4, 5⟩ ∈ (es.drop i).take 3 := by
  intro o settings v es l
  have valid : Utf8.isValid v.bytes = true := by decide +kernel
  have most : max 1 (7 / 2 : Rat).floor.toNat = 3 := by decide +kernel
  have five : es.length = 5 := by decide +kernel
  have more : max 1 (7 / 2 : Rat).floor.toNat < es.length := by rw [most, five]; decide
  have count : min es.length (max 1 (7 / 2 : Rat).floor.toNat) = 3 := by rw [most, five]; decide
  obtain ⟨sections, spans⟩ := left_out_elements_marked settings o (7 / 2)
  obtain ⟨-, -, -, long⟩ := sections true v.bytes fun _ => valid
  obtain ⟨-, -, i, line, inside, near, -⟩ := spans v (fun _ => valid) (4 : Nat)
  obtain ⟨length, -, -, headTail⟩ := long more
  have part : Tells l.pieces es (es.take ((max 1 (7 / 2 : Rat).floor.toNat + 1) / 2) ++
      es.drop (es.length - (max 1 (7 / 2 : Rat).floor.toNat -
        (max 1 (7 / 2 : Rat).floor.toNat + 1) / 2))) := headTail rfl
  rw [most, five] at part
  rw [most] at length
  refine ⟨valid, more, length (by decide), part, by decide +kernel, i, ?_, ?_, ?_⟩
  · rw [← count]
    exact line
  · rw [← count, ← five]
    exact inside
  · rw [← count]
    exact near _ (by decide +kernel)

end Untrusted.Display
