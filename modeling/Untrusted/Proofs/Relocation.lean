import Mathlib
import Untrusted.Proofs.View.Moved
import Untrusted.Proofs.Widening

/-!
# Reads of a view and of a copy of it

What a read does over a range of a view, it does over the same range of a copy, a constant number of
positions earlier. Each way of putting reads together keeps this.
-/

namespace Untrusted

open View (Copied)

variable {w : View} {key : Nat}

/-! ## Moving what a read yields -/

namespace Value

mutual

/-- A value with the positions that it holds in the buffer of `w`. -/
def moved (w : View) : Value → Value
  | .view v => .view (w.moved v)
  | .span s => .span (s.moved w)
  | .list values => .list (movedItems w values)
  | .record fields => .record (movedFields w fields)
  | a => a

def movedItems (w : View) : List Value → List Value
  | [] => []
  | a :: rest => moved w a :: movedItems w rest

def movedFields (w : View) : List (String × Value) → List (String × Value)
  | [] => []
  | (name, a) :: rest => (name, moved w a) :: movedFields w rest

end

theorem movedItems_eq_map (w : View) (values : List Value) :
    movedItems w values = values.map (moved w) := by
  induction values with
  | nil => rfl
  | cons a rest ih => exact congrArg (moved w a :: ·) ih

@[simp]
theorem moved_absent : moved w .absent = .absent := rfl

@[simp]
theorem moved_bool (b : Bool) : moved w (.bool b) = .bool b := rfl

@[simp]
theorem moved_number (n : Number) : moved w (.number n) = .number n := rfl

@[simp]
theorem moved_array (bytes : List UInt8) : moved w (.array bytes) = .array bytes := rfl

@[simp]
theorem moved_view (v : View) : moved w (.view v) = .view (w.moved v) := rfl

@[simp]
theorem moved_list (values : List Value) : moved w (.list values) = .list (values.map (moved w)) :=
  congrArg Value.list (movedItems_eq_map w values)

@[simp]
theorem moved_ofToken (t : Token) : moved w (ofToken t) = ofToken t := by
  cases t <;> rfl

theorem moved_ofReading (r : Reading) : moved w (ofReading r) = ofReading r := by
  cases r <;> rfl

theorem moved_ofOption {α : Type} {f : α → Value} {g : α → α}
    (same : ∀ a, f (g a) = moved w (f a)) (o : Option α) :
    ofOption f (o.map g) = moved w (ofOption f o) := by
  cases o with
  | none => rfl
  | some a => exact same a

theorem moved_orAbsent (r : Except Failure Value) :
    orAbsent (movedResult w (moved w) r) = moved w (orAbsent r) := by
  cases r <;> rfl

theorem isAbsent_moved (a : Value) : (moved w a).isAbsent = a.isAbsent := by
  cases a <;> rfl

theorem confirms_moved (a : Value) : (moved w a).confirms = a.confirms := by
  cases a <;> rfl

theorem toNumber_moved (a : Value) : (moved w a).toNumber = a.toNumber := by
  cases a <;> rfl

end Value

def Step.moved (w : View) (s : Step) : Step :=
  ⟨s.depth, s.name, w.moved s.before, w.moved s.after, movedResult w (Value.moved w) s.result⟩

def Event.moved (w : View) : Event → Event
  | .step s => .step (s.moved w)
  | .line text => .line text

def Outcome.moved {α β : Type} (w : View) (f : α → β) (o : Outcome α) : Outcome β :=
  ⟨movedResult w f o.result, w.moved o.rest, o.events.map (Event.moved w)⟩

/-! ## Failures -/

def Failure.Copied (w : View) (key : Nat) (e : Failure) : Prop :=
  ∀ r, e = .report r →
    r.cause.input.Located r.cause ∧ w.Copied key r.cause.input ∧ w.Copied key r.input

namespace Failure

variable {mode : Mode} {u : View} {e : Failure}

theorem Within.copied (h : e.Within mode u) (hu : w.Copied key u) : e.Copied w key := by
  intro r same
  have inside := h.inside r same
  exact ⟨inside.place, hu.of_partOf inside.origin, hu.of_partOf inside.input⟩

theorem Copied.requirement_moved (h : e.Copied w key) (hw : w.Sound) :
    (e.moved w).requirement = e.requirement := by
  cases e with
  | report r => exact (h r rfl).1.requirement_moved hw (h r rfl).2.1
  | _ => rfl

theorem Copied.isFatal_moved (h : e.Copied w key) (hw : w.Sound) :
    (e.moved w).isFatal = e.isFatal := by
  cases e with
  | report r => exact (h r rfl).1.isFatal_moved hw (h r rfl).2.1
  | _ => rfl

theorem push_moved (e : Failure) (f : Frame) : (e.moved w).push f = (e.push f).moved w := by
  cases e with
  | report r =>
    simp only [Failure.moved, push, Report.push, Report.moved, Backtrace.push]
    split <;> rfl
  | _ => rfl

theorem foldl_push_moved (e : Failure) (frames : List Frame) :
    frames.foldl (fun e frame => e.push frame.asChild) (e.moved w) =
      (frames.foldl (fun e frame => e.push frame.asChild) e).moved w := by
  induction frames generalizing e with
  | nil => rfl
  | cons f frames ih =>
    simp only [List.foldl_cons]
    rw [push_moved, ih]

theorem leave_moved (h : e.Within mode u) (hw : w.Sound) (hu : w.Copied key u) (f : Frame) :
    (e.moved w).leave f (w.moved u) = (e.leave f u).moved w := by
  have pushed := h.push f
  unfold Failure.leave
  rw [push_moved]
  cases found : e.push f with
  | report r =>
    have inside := (pushed.inside r found).input
    have outside : (r.moved w).input.span.isWithin (w.moved u).span = true :=
      (inside.moved hw hu).isWithin (hu.sound_moved hw)
    simp only [Failure.moved, widen, Report.widen]
    rw [if_pos (inside.isWithin hu.sound), if_pos outside]
    rfl
  | _ => rfl

end Failure

section

variable {α β : Type} {mode : Mode} {u : View} {r : Except Failure α}

theorem scope_moved (h : u.FailsWithin mode r) (hw : w.Sound) (hu : w.Copied key u) (f : Frame)
    (g : α → β) : scope (w.moved u) f (movedResult w g r) = movedResult w g (scope u f r) := by
  cases r with
  | ok a => rfl
  | error e => exact congrArg Except.error (Failure.leave_moved (h e rfl) hw hu f)

theorem failureLines_moved (h : u.FailsWithin mode r) (hw : w.Sound) (hu : w.Copied key u)
    (debug : Bool) (op : Operation) (g : α → β) :
    Read.failureLines debug op (movedResult w g r) =
      (Read.failureLines debug op r).map (Event.moved w) := by
  cases r with
  | ok a => rfl
  | error e =>
    have same := ((h e rfl).copied hu).requirement_moved hw
    cases e with
    | report r =>
      simp only [Failure.moved] at same
      simp only [Read.failureLines, movedResult, Failure.moved, Failure.tellsRetry, same]
      cases debug <;> simp [Event.moved]
    | _ => cases debug <;> rfl

end

/-! ## Reads -/

/-- The second outcome is the first one, moved. The failures of the steps on the way lie in the copy
too. -/
structure Outcome.Moves {α β : Type} (w : View) (key : Nat) (f : α → β) (o : Outcome α)
    (o' : Outcome β) : Prop where
  eq : o' = o.moved w f
  steps : ∀ s ∈ Event.steps o.events, ∀ e, s.result = .error e → e.Copied w key

/-- From any range of the copy of the kind, the second read does at the range of `w` what the first
one does there. -/
def Read.Moves {α β : Type} (w : View) (key : Nat) (k : Kind) (f : α → β) (p : Read α)
    (q : Read β) : Prop :=
  ∀ u, w.Copied key u → u.kind = k → (p u).Moves w key f (q (w.moved u))

namespace Outcome

variable {α α' β β' : Type} {f : α → β} {o : Outcome α} {o' : Outcome β}

theorem moves_mk {f : α → β} {r : Except Failure α} {r' : Except Failure β} {rest : View}
    (h : r' = movedResult w f r) : Moves w key f ⟨r, rest, []⟩ ⟨r', w.moved rest, []⟩ :=
  ⟨by rw [h]; rfl, by simp⟩

theorem Moves.ok (h : o.Moves w key f o') {a : α} (ok : o.result = .ok a) :
    o'.result = .ok (f a) := by
  rw [h.eq, moved, ok]
  rfl

theorem Moves.error (h : o.Moves w key f o') {e : Failure} (error : o.result = .error e) :
    o'.result = .error (e.moved w) := by
  rw [h.eq, moved, error]
  rfl

theorem Moves.result (h : o.Moves w key f o') : o'.result = movedResult w f o.result := by
  rw [h.eq, moved]

theorem Moves.rest (h : o.Moves w key f o') : o'.rest = w.moved o.rest := by
  rw [h.eq, moved]

theorem Moves.withResult (h : o.Moves w key f o') {g : α' → β'} {r : Except Failure α'}
    {r' : Except Failure β'} (same : r' = movedResult w g r) :
    Moves w key g { o with result := r } { o' with result := r' } :=
  ⟨by rw [h.eq, same]; rfl, h.steps⟩

theorem Moves.withRest (h : o.Moves w key f o') (rest : View) :
    Moves w key f { o with rest } { o' with rest := w.moved rest } :=
  ⟨by rw [h.eq]; rfl, h.steps⟩

theorem Moves.restoring (h : o.Moves w key f o') (u : View) :
    (o.restoring u).Moves w key f (o'.restoring (w.moved u)) := by
  cases result : o.result with
  | ok a => rwa [Read.restoring_ok result, Read.restoring_ok (h.ok result)]
  | error e =>
    rw [Read.restoring_error result, Read.restoring_error (h.error result)]
    exact h.withRest u

theorem Moves.withLines (h : o.Moves w key f o') {lines lines' : List Event}
    (none : Event.steps lines = []) (same : lines' = lines.map (Event.moved w)) :
    Moves w key f { o with events := o.events ++ lines }
      { o' with events := o'.events ++ lines' } := by
  refine ⟨by rw [h.eq, same]; simp [moved], ?_⟩
  simpa only [Event.steps_append, none, List.append_nil] using h.steps

end Outcome

namespace Read

variable {α α' β β' : Type} {k : Kind} {mode : Mode} {f : α → β} {p : Read α} {q : Read β}

theorem moves_map_of_ok (h : p.Moves w key k f q) {c : α → α'} {d : β → β'} {g : α' → β'}
    (same : ∀ u, w.Copied key u → u.kind = k → ∀ a, (p u).result = .ok a → d (f a) = g (c a)) :
    (map c p).Moves w key k g (map d q) := by
  intro u hu hk
  have inner := h u hu hk
  refine inner.withResult ?_
  rw [inner.result]
  exact movedResult_map (same u hu hk)

theorem moves_map (h : p.Moves w key k f q) {c : α → α'} {d : β → β'} {g : α' → β'}
    (same : ∀ a, d (f a) = g (c a)) : (map c p).Moves w key k g (map d q) :=
  moves_map_of_ok h fun _ _ _ a _ => same a

theorem moves_ofCut {cut : View → Except Failure (α × View)}
    {cut' : View → Except Failure (β × View)}
    (h : ∀ u, w.Copied key u → u.kind = k →
      cut' (w.moved u) = movedResult w (Prod.map f w.moved) (cut u)) :
    (ofCut cut).Moves w key k f (ofCut cut') := by
  intro u hu hk
  unfold ofCut
  rw [h u hu hk]
  cases cut u with
  | ok parts => exact Outcome.moves_mk rfl
  | error e => exact Outcome.moves_mk rfl

theorem moves_ofParts {cut : View → View × View}
    (h : ∀ u, w.Copied key u → u.kind = k → cut (w.moved u) = w.movedParts (cut u)) :
    (ofParts cut).Moves w key k w.moved (ofParts cut) :=
  moves_ofCut fun u hu hk => congrArg Except.ok (h u hu hk)

theorem moves_ofParts? {cut : View → Option (View × View)}
    (h : ∀ u, w.Copied key u → u.kind = k → cut (w.moved u) = (cut u).map w.movedParts) :
    (ofParts? cut).Moves w key k (Option.map w.moved) (ofParts? cut) := by
  refine moves_ofCut fun u hu hk => ?_
  rw [h u hu hk]
  cases cut u <;> rfl

theorem moves_look {look' : View → Except Failure β} {f : α → β} {seen : View → Except Failure α}
    (h : ∀ u, w.Copied key u → u.kind = k → look' (w.moved u) = movedResult w f (seen u)) :
    (look seen).Moves w key k f (look look') :=
  fun u hu hk => Outcome.moves_mk (h u hu hk)

theorem moves_pure (f : α → β) (a : α) : (pure a).Moves w key k f (pure (f a)) :=
  fun _ _ _ => Outcome.moves_mk rfl

/-! ## Sequences -/

theorem moves_andThen {next : α → Read α'} {next' : β → Read β'} {g : α' → β'}
    (reach : p.Reaches mode k) (h : p.Moves w key k f q)
    (hnext : ∀ a, (next a).Moves w key k g (next' (f a))) :
    (andThen p next).Moves w key k g (andThen q next') := by
  intro u hu hk
  have first := h u hu hk
  cases result : (p u).result with
  | error e =>
    rw [andThen_error result, andThen_error (first.error result)]
    exact first.withResult rfl
  | ok a =>
    have rest := (reach u hu.sound hk).rest
    have second := hnext a (p u).rest (hu.of_tailOf rest) (rest.kind.trans hk)
    rw [andThen_ok result, andThen_ok (first.ok result), first.rest]
    refine ⟨?_, ?_⟩
    · rw [second.eq, first.eq]
      simp [Outcome.moved]
    · rw [Event.steps_append]
      intro s hs
      exact (List.mem_append.1 hs).elim (first.steps s) (second.steps s)

theorem moves_unfailing {p q : Read Value} (h : p.Moves w key k (Value.moved w) q) :
    (unfailing p).Moves w key k (Value.moved w) (unfailing q) := by
  intro u hu hk
  have inner := h u hu hk
  refine inner.withResult ?_
  rw [inner.result, Value.moved_orAbsent]
  rfl

theorem moves_recorded {p q : Read Value} (reach : p.Reaches mode k)
    (h : p.Moves w key k (Value.moved w) q) (depth : Nat) (name : String) :
    (recorded depth name p).Moves w key k (Value.moved w) (recorded depth name q) := by
  intro u hu hk
  have inner := h u hu hk
  have failure := (reach u hu.sound hk).failure
  refine ⟨?_, ?_⟩
  · unfold recorded
    rw [inner.eq]
    simp [Outcome.moved, Event.moved, Step.moved]
  · simp only [recorded, Event.steps_append, Event.steps_step, List.mem_append,
      List.mem_singleton]
    rintro s (before | rfl) e failed
    · exact inner.steps s before e failed
    · exact (failure e failed).copied hu

/-! ## Scopes -/

section

variable (hw : w.Sound) (reach : p.Reaches mode k) (h : p.Moves w key k f q)

include hw reach h

theorem moves_context (frame : Frame) :
    (context frame p).Moves w key k f (context frame q) := by
  intro u hu hk
  have inner := h u hu hk
  refine inner.withResult ?_
  rw [inner.result]
  exact scope_moved (reach u hu.sound hk).failure hw hu frame f

theorem moves_peekContext (frame : Frame) :
    (peekContext frame p).Moves w key k f (peekContext frame q) :=
  fun u hu hk => (moves_context hw reach h frame u hu hk).withRest u

theorem moves_takeConsumed : (takeConsumed p).Moves w key k
    (Prod.map (movedResult w f) w.moved) (takeConsumed q) := by
  intro u hu hk
  have inner := h u hu hk
  refine inner.withResult ?_
  rw [inner.rest, inner.result, hu.consumedHead_moved hw (reach u hu.sound hk).rest]
  rfl

theorem moves_tryTakeConsumed :
    (tryTakeConsumed p).Moves w key k (Prod.map f w.moved) (tryTakeConsumed q) := by
  intro u hu hk
  have inner := h u hu hk
  refine Outcome.Moves.restoring (inner.withResult ?_) u
  rw [inner.rest, inner.result, hu.consumedHead_moved hw (reach u hu.sound hk).rest]
  exact movedResult_map fun _ _ => rfl

omit hw reach in
theorem moves_recover : (recover p).Moves w key k (Option.map f) (recover q) := by
  intro u hu hk
  have inner := h u hu hk
  cases result : (p u).result with
  | ok a =>
    rw [recover_ok result, recover_ok (inner.ok result)]
    exact inner.withResult rfl
  | error e =>
    rw [recover_error result, recover_error (inner.error result)]
    exact (inner.withResult rfl).withRest u

theorem moves_recoverIf {accepts : Failure → Bool}
    (same : ∀ e, e.Copied w key → accepts (e.moved w) = accepts e) :
    (recoverIf accepts p).Moves w key k (Option.map f) (recoverIf accepts q) := by
  intro u hu hk
  have inner := h u hu hk
  cases result : (p u).result with
  | ok a =>
    rw [recoverIf_ok result, recoverIf_ok (inner.ok result)]
    exact inner.withResult rfl
  | error e =>
    have within := (reach u hu.sound hk).failure e result
    have agree := same e (within.copied hu)
    cases accepted : accepts e with
    | true =>
      rw [recoverIf_accepted result accepted,
        recoverIf_accepted (inner.error result) (agree.trans accepted)]
      exact (inner.withResult rfl).withRest u
    | false =>
      rw [recoverIf_refused result accepted,
        recoverIf_refused (inner.error result) (agree.trans accepted)]
      refine (inner.withResult ?_).withRest u
      exact congrArg Except.error (Failure.leave_moved within hw hu _)

omit hw reach in
theorem moves_errorScope : (errorScope p).Moves w key k f (errorScope q) :=
  fun u hu hk => (h u hu hk).restoring u

theorem moves_expectErased (outer : Mode) (expected : String) (op : Operation) :
    (expectErased outer expected op p).Moves w key k f (expectErased outer expected op q) := by
  intro u hu hk
  have inner := h u hu hk
  have reached := reach u hu.sound hk
  cases result : (p u).result with
  | ok a =>
    rw [expectErased_ok result, expectErased_ok (inner.ok result)]
    exact inner.withResult rfl
  | error e =>
    have needed := ((reached.failure e result).copied hu).requirement_moved hw
    have located := hu.sound.located_consumed reached.rest op expected e.requirement
    rw [expectErased_error result, expectErased_error (inner.error result), needed, inner.rest,
      hu.consumedHead_moved hw reached.rest,
      (hu.of_partOf (hu.sound.consumedHead_partOf reached.rest)).span_moved hw]
    exact (inner.withResult (located.error_moved hw hu outer f)).withRest u

end

theorem moves_expect {p : Read (Option α)} {q : Read (Option β)} (hw : w.Sound)
    (reach : p.Reaches mode k) (h : p.Moves w key k (Option.map f) q) (expected : String)
    (op : Operation) : (expect mode expected op p).Moves w key k f (expect mode expected op q) := by
  intro u hu hk
  have inner := h u hu hk
  have rest := (reach u hu.sound hk).rest
  rcases result : (p u).result with e | _ | a
  · rw [expect_error result, expect_error (inner.error result)]
    exact (inner.withResult rfl).withRest u
  · have located := hu.sound.located_consumed rest op expected none
    rw [expect_none result, expect_none (inner.ok result), inner.rest,
      hu.consumedHead_moved hw rest,
      (hu.of_partOf (hu.sound.consumedHead_partOf rest)).span_moved hw]
    exact (inner.withResult (located.error_moved hw hu mode f)).withRest u
  · rw [expect_some result, expect_some (inner.ok result)]
    exact inner.withResult rfl

/-! ## Reads of all of a view -/

theorem trailingCause_moved {u rest : View} (hw : w.Sound) (hu : w.Copied key u)
    (hr : rest.TailOf u) :
    trailingCause (w.moved u) (w.moved rest) = (trailingCause u rest).moved w := by
  rw [trailingCause, trailingCause, (hu.of_tailOf hr).span_moved hw]
  rfl

section

variable (hw : w.Sound) (reach : p.Reaches mode k) (h : p.Moves w key k f q) (debug : Bool)

include hw reach h

theorem moves_readAll : (readAll mode debug p).Moves w key k f (readAll mode debug q) := by
  intro u hu hk
  have inner := moves_context hw reach h (.ofOperation .readAll) u hu hk
  have rest := (reach u hu.sound hk).rest
  have within := (reaches_readAll reach debug u hu.sound hk).failure
  have result : (readAll mode debug q (w.moved u)).result =
      movedResult w f (readAll mode debug p u).result := by
    cases found : (context (.ofOperation .readAll) p u).result with
    | error e =>
      rw [readAll_error found, readAll_error (inner.error found)]
      rfl
    | ok a =>
      have empty : (w.moved (p u).rest).isEmpty = (p u).rest.isEmpty := rfl
      rw [readAll_ok found, readAll_ok (inner.ok found), (h u hu hk).rest, empty,
        trailingCause_moved hw hu rest, (located_trailingCause rest).raise_moved hw hu]
      split <;> rfl
  refine (inner.withResult result).withLines (steps_failureLines debug .readAll _) ?_
  exact (congrArg _ result).trans (failureLines_moved within hw hu debug .readAll f)

theorem moves_readPartial :
    (readPartial debug p).Moves w key k (Prod.map f w.moved) (readPartial debug q) := by
  intro u hu hk
  have inner := moves_context hw reach h (.ofOperation .readPartial) u hu hk
  have within := (reaches_context reach (.ofOperation .readPartial) u hu.sound hk).failure
  have result : (readPartial debug q (w.moved u)).result =
      movedResult w (Prod.map f w.moved) (readPartial debug p u).result := by
    simp only [readPartial]
    rw [inner.rest, inner.result]
    exact movedResult_map fun _ _ => rfl
  refine (inner.withResult result).withLines (steps_failureLines debug .readPartial _) ?_
  exact (congrArg _ inner.result).trans (failureLines_moved within hw hu debug .readPartial f)

end

end Read

end Untrusted
