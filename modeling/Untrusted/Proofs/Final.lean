import Mathlib
import Untrusted.Inquiry
import Untrusted.Proofs.Settled

/-!
# Failures over settled views are final

Whatever is asked of a settled view, and whatever programs make of it, a failure that the library
raises is fatal and has no requirement, however the view was come by.
-/

namespace Untrusted

variable {own : Cause → Prop} {given : View → Prop} {v : View}

namespace Inquiry

/-! ## Answers -/

/-- The causes that the inquiry and its programs bring along are the caller's own, and so are the
views that are not settled. -/
def Uses (own : Cause → Prop) (given : View → Prop) : Inquiry → Prop
  | trySplitWhile check _ => check.Uses own
  | trySplitStrWhile check _ => check.Uses own
  | splitConsumed body => body.Uses own given
  | trySplitConsumed body => body.Uses own given
  | splitExpect _ _ body => body.Uses own given
  | trySplitExpect _ _ body => body.Uses own given
  | trySplitExpectErased _ _ body => body.Uses own given
  | trySplitExternal _ _ parser => parser.Yields given
  | intoExternal _ parser => ∀ v a, v.Settled → parser v = .ok a → a.Settled given
  | enter _ body => body.Uses own given
  | _ => True

/-- What an answer gives is settled, and so is each of the steps on the way to it. -/
structure Settles (own : Cause → Prop) (given : View → Prop) (answer : Reply × List Event) :
    Prop where
  value : ∀ a, answer.1.value? = some a → a.Settled given
  failure : ∀ e, answer.1 = .result (.error e) → e.Settled own
  steps : ∀ s ∈ Event.steps answer.2, s.Settled own given

theorem settles_value {a : Value} (h : a.Settled given) {events : List Event}
    (hs : ∀ s ∈ Event.steps events, s.Settled own given) :
    Settles own given (.value a, events) := by
  refine ⟨?_, by simp, hs⟩
  rintro _ ⟨⟩
  exact h

theorem settles_look {a : Value} (h : a.Settled given) : Settles own given (.value a, []) :=
  settles_value h (by simp)

theorem settles_outcome {o : Outcome Value} (h : o.Settled own given (Value.Settled given)) :
    Settles own given (.result o.result, o.events) := by
  refine ⟨fun a same => h.value a ?_, fun e same => h.failure e (Reply.result.inj same), h.steps⟩
  cases result : o.result with
  | ok b => simpa [Reply.value?, result] using same
  | error e => simp [Reply.value?, result] at same

theorem settles_result {r : Except Failure Value} (h : ∀ a, r = .ok a → a.Settled given)
    (hv : v.Settled) (fails : v.Fails own r) : Settles own given (.result r, []) :=
  settles_outcome (o := ⟨r, v, []⟩) ⟨h, fails.settled hv, hv, by simp⟩

theorem settles_map {α : Type} {r : Except Failure α} {f : α → Value}
    (h : ∀ a, r = .ok a → (f a).Settled given) (hv : v.Settled) (fails : v.Fails own r) :
    Settles own given (.result (r.map f), []) := by
  refine settles_result (fun b same => ?_) hv (fails.map f)
  obtain ⟨a, found, rfl⟩ := exists_ok_of_map_eq_ok same
  exact h a found

theorem settles_withRest {α : Type} {good : α → Prop} {o : Outcome α} {f : α → List Value}
    (h : o.Settled own given good) (hf : ∀ a, good a → ∀ b ∈ f a, b.Settled given) :
    Settles own given (withRest f o) := by
  refine settles_outcome (o := o.map fun a => .list (f a ++ [.view o.rest]))
    (h.map fun a good => ?_)
  simp only [Value.settled_list, List.mem_append, List.mem_singleton]
  rintro b (earlier | rfl)
  · exact hf a good b earlier
  · exact Value.settled_view h.rest

theorem settled_pair {parts : View × View} (h : View.Parted parts) : (pair parts).Settled given :=
  Value.settled_pair (Value.settled_view h.1) (Value.settled_view h.2)

open View

theorem ask_settles (hv : v.Settled) {i : Inquiry} (hi : i.Uses own given) (debug : Bool)
    (mode : Mode) : Settles own given (i.ask debug mode v) := by
  have self : (Value.view v).Settled given := Value.settled_view hv
  have parts? {cut : Option (View × View)} (h : ∀ parts, cut = some parts → Parted parts) :
      Settles own given (.value (.ofOption pair cut), []) :=
    settles_look (Value.settled_ofOption fun parts found => settled_pair (h parts found))
  have parts {cut : Except Failure (View × View)} (h : ∀ parts, cut = .ok parts → Parted parts)
      (fails : v.Fails own cut) : Settles own given (.result (cut.map pair), []) :=
    settles_map (fun parts done => settled_pair (h parts done)) hv fails
  have runs {body : Program} (hb : body.Uses own given) (m : Mode) :
      (body.start debug m depth).Settles own given (Value.Settled given) :=
    body.run_settles hb debug m depth Value.settled_absent
  have present {p : Read Value} (hp : p.Settles own given (Value.Settled given)) :
      (Read.map Scope.present p).Settles own given fun found =>
        ∀ b, found = some b → b.Settled given :=
    Read.settles_map hp fun _ good _ same => Scope.eq_of_present same ▸ good
  have single (a : Value) (good : a.Settled given) : ∀ b ∈ [a], b.Settled given := by
    simpa using good
  cases i with
  | kind | length | byteLength | bound | isEmpty | isBound | span | asBytes | asString | toText
  | equals | hasPrefix => exact settles_look (by simp)
  | first | last | nth =>
    exact settles_look (Value.settled_ofOption fun t _ => Value.settled_ofToken t)
  | tokens =>
    refine settles_look (Value.settled_list.2 fun a ha => ?_)
    obtain ⟨t, -, rfl⟩ := List.mem_map.1 ha
    exact Value.settled_ofToken t
  | clone => exact settles_look self
  | endView => exact settles_look (Value.settled_view (endView_settled hv))
  | intoBound => exact settles_look (Value.settled_view rfl)
  | intoBytes => exact settles_look (Value.settled_view hv)
  | intoText op =>
    simp only [ask]
    split
    · exact settles_look self
    · exact settles_map (fun text made => Value.settled_view (intoText_settled hv made)) hv
        (fails_intoText mode op)
  | intoNonEmpty =>
    refine settles_map (fun u made => ?_) hv (fails_intoNonEmpty mode)
    exact View.eq_of_intoNonEmpty made ▸ self
  | splitAtOpt n => exact parts? fun _ cut => splitAt?_parted hv cut
  | splitAt n op => exact parts (fun _ cut => splitAt_parted hv cut) (fails_splitAt mode op n)
  | splitAtByteOpt n => exact parts? fun _ cut => splitAtByte?_parted hv cut
  | splitAtByte n op =>
    exact parts (fun _ cut => splitAtByte_parted hv cut) (fails_splitAtByte mode op n)
  | splitFirst op =>
    refine settles_map (fun first cut => ?_) hv (fails_splitFirst mode op)
    exact Value.settled_pair (Value.settled_ofToken _)
      (Value.settled_view (splitFirst_settled hv cut))
  | splitPrefixOpt literal => exact parts? fun _ cut => splitPrefix?_parted hv cut
  | splitPrefix literal op =>
    exact parts (fun _ cut => splitPrefix_parted hv cut) (fails_splitPrefix mode op literal)
  | splitWhile p => exact settles_look (settled_pair (splitWhile_parted hv p))
  | splitUntilOpt p => exact parts? fun _ cut => splitUntil?_parted hv cut
  | splitUntil p op =>
    exact parts (fun _ cut => splitUntil_parted hv cut) (fails_splitUntil mode op p)
  | splitUntilConsumeOpt p => exact parts? fun _ cut => splitUntilConsume?_parted hv cut
  | splitUntilConsume p op =>
    exact parts (fun _ cut => splitUntilConsume_parted hv cut) (fails_splitUntilConsume mode op p)
  | splitStrWhile accepts op =>
    exact parts (fun _ cut => trySplitStrWhile_parted hv cut)
      (fails_trySplitStrWhile mode op (Action.uses_sure own accepts))
  | trySplitStrWhile check op =>
    exact parts (fun _ cut => trySplitStrWhile_parted hv cut) (fails_trySplitStrWhile mode op hi)
  | trySplitWhile check op =>
    exact parts (fun _ cut => trySplitWhile_parted hv cut) (fails_trySplitWhile mode op hi)
  | splitConsumed body =>
    have inner := runs hi mode v hv
    refine settles_value ?_ inner.steps
    simpa using ⟨Value.settled_orAbsent inner.value,
      Value.settled_view (Read.settled_consumed inner v), Value.settled_view inner.rest⟩
  | trySplitConsumed body =>
    refine settles_withRest (Read.settles_tryTakeConsumed (runs hi mode) v hv) ?_
    rintro ⟨a, head⟩ good
    simpa using ⟨good.1, Value.settled_view good.2⟩
  | splitExpect expected op body =>
    have inner := present (Read.settles_unfailing (runs hi mode))
    exact settles_withRest (Read.settles_expect inner mode expected op v hv) single
  | trySplitExpect expected op body =>
    have inner := present (runs hi mode)
    exact settles_withRest (Read.settles_expect inner mode expected op v hv) single
  | trySplitExpectErased expected op body =>
    have inner := runs hi .invalid
    exact settles_withRest (Read.settles_expectErased inner mode expected op v hv) single
  | trySplitExternal expected op parser =>
    refine settles_map (fun read cut => ?_) hv (fails_splitForeign mode op parser expected)
    obtain ⟨⟨n, parsed⟩, rest⟩ := splitForeign_settled hv cut
    exact Value.settled_pair (hi v read.1 n hv parsed) (Value.settled_view rest)
  | intoExternal expected parser =>
    refine settles_result (fun a same => ?_) hv (fails_intoForeign mode parser expected)
    exact hi v a hv (View.eq_ok_of_intoForeign same)
  | enter entry body =>
    have inner := Entry.run_settles hi entry debug mode depth v hv
    cases entry with
    | all | part => exact settles_outcome inner
    | infallible =>
      simp only [ask]
      split
      · rename_i a found
        exact settles_value (inner.value a found) inner.steps
      · rename_i e failed
        refine ⟨by simp [Reply.value?], ?_, inner.steps⟩
        rintro _ ⟨⟩
        exact inner.failure e failed

/-! ## Sessions -/

/-- The views that are settled by how they were come by: made so, taken by their length or up to a
match, read up to a determined place, or obtained from such views and not from the caller. -/
inductive Closed (own : Cause → Prop) (given : View → Prop) : View → Prop where
  | bound {v : View} : v.Settled → Closed own given v
  | intoBound (v : View) : Closed own given v.intoBound
  | taken {v : View} {n : Number} {parts : View × View} : v.splitAt? n = some parts →
      Closed own given parts.1
  | takenUntil {v : View} {p : Pattern} {parts : View × View} : v.splitUntil? p = some parts →
      Closed own given parts.1
  | takenPast {v : View} {p : Pattern} {parts : View × View} :
      v.splitUntilConsume? p = some parts → Closed own given parts.1
  | consumed {v rest : View} : rest.bound ≠ .unbounded → Closed own given (v.consumedHead rest)
  | reply {u w : View} {i : Inquiry} {debug : Bool} {mode : Mode} {a : Value} :
      Closed own given u → i.Uses own given → (i.ask debug mode u).1.value? = some a →
      a.Holds w → ¬ given w → Closed own given w
  | before {u : View} {i : Inquiry} {debug : Bool} {mode : Mode} {s : Step} :
      Closed own given u → i.Uses own given → s ∈ Event.steps (i.ask debug mode u).2 →
      Closed own given s.before
  | after {u : View} {i : Inquiry} {debug : Bool} {mode : Mode} {s : Step} :
      Closed own given u → i.Uses own given → s ∈ Event.steps (i.ask debug mode u).2 →
      Closed own given s.after
  | yielded {u w : View} {i : Inquiry} {debug : Bool} {mode : Mode} {s : Step} {a : Value} :
      Closed own given u → i.Uses own given → s ∈ Event.steps (i.ask debug mode u).2 →
      s.result = .ok a → a.Holds w → ¬ given w → Closed own given w

theorem Closed.settled (h : Closed own given v) : v.Settled := by
  -- By induction on how the view was come by.
  induction h with
  | bound hv => exact hv
  | intoBound v => rfl
  | taken cut => exact splitAt?_head cut
  | takenUntil cut => exact splitUntil?_head cut
  | takenPast cut => exact splitUntilConsume?_head cut
  | consumed determined => exact consumedHead_settled _ determined
  | reply _ hi answered holds brought ih =>
    exact ((ask_settles ih hi _ _).value _ answered _ holds).resolve_right brought
  | before _ hi step ih => exact ((ask_settles ih hi _ _).steps _ step).before
  | after _ hi step ih => exact ((ask_settles ih hi _ _).steps _ step).after
  | yielded _ hi step result holds brought ih =>
    exact (((ask_settles ih hi _ _).steps _ step).value _ result _ holds).resolve_right brought

/-! ## Failures -/

theorem final_or_own {e : Failure} (h : e.Settled own) : e.Final ∨ ∃ c, own c ∧ e.Of c := by
  obtain ⟨c, of, brought | settled⟩ := h
  · exact .inr ⟨c, brought, of⟩
  · have bound : c.input.isBound = true := by
      unfold View.isBound
      rw [settled]
      rfl
    exact .inl (of.final (by simp [Cause.isFatal, bound]))

/-- No failure over a settled view says that more input could help, under any mode: neither that of
an inquiry, which may run a program in any way, nor that of a step of its program. The failures of
causes that the caller's checks and steps bring along are left to the caller. -/
theorem failures_final (hv : Closed own given v) {i : Inquiry} (hi : i.Uses own given)
    (debug : Bool) (mode : Mode) :
    (∀ e, (i.ask debug mode v).1 = .result (.error e) → e.Final ∨ ∃ c, own c ∧ e.Of c) ∧
    ∀ s ∈ Event.steps (i.ask debug mode v).2, ∀ e, s.result = .error e →
      e.Final ∨ ∃ c, own c ∧ e.Of c := by
  have answered := ask_settles hv.settled hi debug mode
  refine ⟨fun e failed => final_or_own (answered.failure e failed), fun s hs e failed => ?_⟩
  exact final_or_own ((answered.steps s hs).failure e failed)

/-- A foreign parser that asks for one more byte, erased, over a part that was taken. -/
theorem failures_final_erased :
    let v := View.ofSource (.ofBytes 0 [0x61, 0x62, 0x63]) .bytes
    let head := (v.cut 2).1
    let parser : Foreign (Value × Number) := fun _ => .error ⟨none, Retry.create? 1, []⟩
    let asked : Inquiry := .enter .all (.within (.tryExpectErased "number") false
      (.act (.tryExpectExternal "digits" parser) false .done) .done)
    Closed (fun _ => False) (fun _ => False) head ∧
    asked.Uses (fun _ => False) (fun _ => False) ∧ Retry.create? 1 ≠ none ∧
    ∃ e, (asked.ask true .full head).1 = .result (.error e) ∧ e.Final := by
  intro v head parser asked
  have cut : v.splitAt? (Number.ofNat 2) = some (v.cut 2) := by rfl
  have closed : Closed (fun _ => False) (fun _ => False) head := .taken cut
  have uses : asked.Uses (fun _ => False) (fun _ => False) := by
    refine ⟨⟨trivial, ?_, trivial⟩, trivial⟩
    rintro u a n - ⟨⟩
  have answered : ∃ e, (asked.ask true .full head).1 = .result (.error e) := ⟨_, rfl⟩
  obtain ⟨e, answer⟩ := answered
  refine ⟨closed, uses, by decide, e, answer, ?_⟩
  rcases (failures_final closed uses true .full).1 e answer with final | ⟨c, brought, -⟩
  · exact final
  · exact brought.elim

end Inquiry
end Untrusted
