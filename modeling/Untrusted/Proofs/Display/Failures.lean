import Mathlib
import Untrusted.Proofs.Display.Underline
import Untrusted.Proofs.Widening

/-!
# Failures are marked in their input

A failed entry yields a report whose span lies in the input that was entered. Rendered, it has
carets beneath that input.
-/

namespace Untrusted

namespace Display

variable {settings : Settings} {o : Options} {v : View}

theorem limitOf_pos {x : Number} {most : Nat} (h : limitOf x = .most most) : 0 < most := by
  unfold limitOf at h
  split at h <;> cases h
  · exact Nat.one_pos
  · exact Nat.lt_of_lt_of_le Nat.zero_lt_one (Nat.le_max_left 1 _)

theorem spanLayout_all (limit : (o.resolve settings).limit = .all) (v : View) (start : Number) :
    let row := elements (v.kind == .text) (o.resolve settings).strHint v.bytes
    spanLayout settings o v start =
      layout row.1 (spanWindow row.1.length (.most (row.1.length + 1)) (focus row.1 start))
        row.2 := by
  have window (count place : Nat) :
      spanWindow count .all place = spanWindow count (.most (count + 1)) place := by
    simp [spanWindow]
  simp only [spanLayout, limit, Limit.reached, window]

theorem exists_spanLayout (ordered : (o.resolve settings).limit ≠ .unordered) (v : View)
    (start : Number) :
    let row := elements (v.kind == .text) (o.resolve settings).strHint v.bytes
    ∃ most, 0 < most ∧ spanLayout settings o v start =
      layout row.1 (spanWindow row.1.length (.most most) (focus row.1 start)) row.2 := by
  cases limit : (o.resolve settings).limit with
  | all => exact ⟨_, Nat.succ_pos _, spanLayout_all limit v start⟩
  | most n => exact ⟨n, limitOf_pos limit, spanLayout_most limit v start⟩
  | unordered => contradiction

theorem caret_mem_renderSpan (ordered : (o.resolve settings).limit ≠ .unordered)
    (valid : v.kind = .text → Utf8.isValid v.bytes = true) {i j : Nat} (le : i ≤ j)
    (inside : j ≤ v.bytes.length) : '^' ∈ (renderSpan settings o v i j).2 := by
  obtain ⟨most, filled, shown⟩ := exists_spanLayout ordered v (i : Nat)
  obtain ⟨first, line⟩ := exists_surrounds filled valid shown
  have tiles : Tiles 0 v.bytes.length
      (elements (v.kind == .text) (o.resolve settings).strHint v.bytes).1 :=
    tiles_elements (by simpa using valid)
  rw [renderSpan_eq]
  rcases le.eq_or_lt with rfl | lt
  · rw [Layout.underline_self]
    exact List.mem_append_right _ (List.mem_singleton_self _)
  · obtain ⟨x, -, found⟩ := line.exists_first tiles lt inside
    have wide : ∀ x ∈ (spanLayout settings o v i).placed, 0 < x.1.width := fun x hx =>
      width_pos_of_mem_elements (line.sublist.subset (List.mem_map_of_mem hx))
    obtain ⟨rest, carets⟩ := Layout.underline_of_find? wide lt found
    rw [carets]
    exact List.mem_append_right _ List.mem_cons_self

end Display

/-! ## Failed entries -/

variable {mode : Mode} {v : View}

theorem Report.Within.exists_range {r : Report} (h : r.Within v) :
    ∃ i j, i ≤ j ∧ j ≤ v.size ∧ r.span = v.range i j := by
  obtain ⟨i, j, hij, hj, eq⟩ := h.place.place
  have start := h.origin.start
  have stop := h.origin.stop
  refine ⟨_, _, ?_, ?_, eq.trans (h.origin.range_eq i j)⟩ <;> omega

/-- Whatever scopes a failure of the library's own crosses, and whatever parts are parsed on the
way, it comes out as a report on the input that the program was entered at. Its cause lies in the
input that it recorded and that one in the entered one, so the span is underlined there and no note
says that it lies elsewhere. -/
theorem Entry.failure_marked_in_input (sound : v.Sound) {p : Program} (hp : p.Native v.kind)
    {entry : Entry} (fallible : entry ≠ .infallible) (keeps : mode = .root ∨ mode = .full)
    {debug : Bool} {depth : Nat} {e : Failure}
    (failed : (entry.run debug mode depth p v).result = .error e) :
    ∃ r, e = .report r ∧ r.input = v ∧ r.cause.span.isWithin r.cause.input.span = true ∧
      r.cause.input.PartOf v ∧ r.cause.input.span.isWithin v.span = true ∧
      ∃ start stop : Nat, start ≤ stop ∧ stop ≤ v.size ∧
        r.span.rangeOf? r.input.span = some (Number.ofNat start, Number.ofNat stop) ∧
        ∀ settings o,
          (∀ colors, ∃ line indent carets,
            Display.renderSpan settings o v start stop =
              (line, List.replicate indent ' ' ++ carets) ∧
            ((o.resolve settings).limit ≠ .unordered → '^' ∈ carets) ∧
            Display.placeLines settings o colors (.ofReport r) =
              [Display.inputMark ++ line,
                Display.blanks (Display.inputMark.length + indent) ++
                  Display.paint colors [.red] (String.ofList carets),
                Display.paint colors [.cyan] "additional:", Display.additional v start]) ∧
          ∀ env, ∀ line ∈ Display.reportLines settings env o (.ofReport r),
            Display.NoNote line := by
  obtain ⟨r, rfl, input, within⟩ := Entry.exists_report sound hp fallible keeps failed
  obtain ⟨start, stop, le, inside, span⟩ := within.exists_range
  have place : r.span.rangeOf? r.input.span = some (Number.ofNat start, Number.ofNat stop) := by
    rw [span, input]
    exact sound.rangeOf?_range le inside
  refine ⟨r, rfl, input, ?_, within.origin, within.origin.isWithin sound, start, stop, le, inside,
    place, fun settings o => ⟨fun colors => ?_, fun env => ?_⟩⟩
  · obtain ⟨i, j, hij, hj, eq⟩ := within.place.place
    rw [eq]
    exact within.origin.sound.range_isWithin hij hj
  · obtain ⟨line, indent, carets, rendered, lines⟩ :=
      Display.placeLines_of_rangeOf? (d := .ofReport r) place settings o colors
    replace rendered : Display.renderSpan settings o v start stop =
      (line, List.replicate indent ' ' ++ carets) := input ▸ rendered
    refine ⟨line, indent, carets, rendered, fun ordered => ?_, input ▸ lines⟩
    have valid (text : v.kind = .text) : Utf8.isValid v.bytes = true := by
      have whole := sound.whole
      rwa [text] at whole
    have marked :=
      Display.caret_mem_renderSpan ordered valid le (inside.trans_eq sound.length_bytes.symm)
    rw [rendered, List.mem_append, List.mem_replicate] at marked
    exact marked.resolve_left (by simp)
  · exact Display.noNote_reportLines (d := .ofReport r) place settings o env

/-- Two chars of a text read as bytes, of which there are too few. -/
theorem Entry.failure_marked_in_input_nested :
    let p : Program := .within (.context (.named "header")) false
      (.within (.sub ⟨some (.given 2), true, some .bytes, true⟩) false
        (.act (.consume [0x6e]) false (.act (.take (.given 5)) false .done)) .done) .done
    let v := View.ofSource (.ofBytes 0 (Utf8.encode ['n', 'é', 'e'])) .text
    v.Sound ∧ p.Native v.kind ∧ ∃ r, (Entry.all.run true .full 0 p v).result = .error (.report r) ∧
      r.input = v ∧ r.cause.input.PartOf v := by
  intro p v
  have sound : v.Sound := View.ofBytes_sound 0 (Utf8.isValid_encode _)
  have native : p.Native v.kind :=
    ⟨trivial, ⟨trivial, ⟨trivial, trivial, trivial⟩, trivial⟩, trivial⟩
  obtain ⟨e, failed⟩ : ∃ e, (Entry.all.run true .full 0 p v).result = .error e := ⟨_, rfl⟩
  obtain ⟨r, rfl, input, -, inside, -⟩ :=
    failure_marked_in_input sound native (by decide) (.inr rfl) failed
  exact ⟨sound, native, r, failed, input, inside⟩

end Untrusted
