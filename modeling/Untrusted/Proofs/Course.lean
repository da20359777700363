import Mathlib
import Untrusted.Proofs.Reader

/-!
# Error modes do not steer

What a program reads does not depend on how much its failures keep. Runs under the modes that
callers choose from take one course, and their failures are made from the same cause, the same
widest input and the same scopes.
-/

namespace Untrusted

inductive Mode.Offered : Mode → Prop where
  | root : Offered .root
  | full : Offered .full
  | invalid : Offered .invalid
  | fatal : Offered .fatal

/-! ## What a failure is made from -/

/-- A cause, the widest input known to contain it, and the frames of the scopes it left, the
outermost first. -/
structure Origin where
  cause : Cause
  input : View
  frames : List Frame

namespace Origin

def ofCause (c : Cause) : Origin := ⟨c, c.input, []⟩

def push (o : Origin) (f : Frame) : Origin := { o with frames := f :: o.frames }

def widen (o : Origin) (v : View) : Origin :=
  if o.input.span.isWithin v.span then { o with input := v } else o

def under (o : Origin) : Mode → Failure
  | .root => .report ⟨o.cause, o.input, ⟨false, o.cause.root, []⟩⟩
  | .full => .report ⟨o.cause, o.input, ⟨true, o.cause.root, o.frames⟩⟩
  | .invalid => .invalid o.cause.requirement
  | _ => .fatal

theorem raise_eq_under {m : Mode} (hm : m.Offered) (c : Cause) :
    m.raise c = (ofCause c).under m := by
  cases hm <;> rfl

theorem push_under {m : Mode} (hm : m.Offered) (o : Origin) (f : Frame) :
    (o.under m).push f = (o.push f).under m := by
  cases hm <;> rfl

theorem widen_under {m : Mode} (hm : m.Offered) (o : Origin) (v : View) :
    (o.under m).widen v = (o.widen v).under m := by
  unfold widen
  cases hm
  case invalid => split <;> rfl
  case fatal => split <;> rfl
  all_goals
    simp only [under, Failure.widen, Report.widen]
    split <;> rfl

theorem leave_under {m : Mode} (hm : m.Offered) (o : Origin) (f : Frame) (v : View) :
    (o.under m).leave f v = ((o.push f).widen v).under m := by
  rw [Failure.leave, push_under hm, widen_under hm]

end Origin

/-! ## Results of one course -/

section Alike

variable {α β : Type}

/-- The results under all modes succeed with one value or fail from one origin. -/
def Alike (r : Mode → Except Failure α) : Prop :=
  ∃ course : Except Origin α, ∀ m, m.Offered → r m = course.mapError (·.under m)

theorem alike_ok (a : α) : Alike fun _ => .ok a := ⟨.ok a, fun _ _ => rfl⟩

theorem alike_raise (c : Cause) : Alike fun m => (.error (m.raise c) : Except Failure α) :=
  ⟨.error (.ofCause c), fun _ hm => congrArg Except.error (Origin.raise_eq_under hm c)⟩

theorem alike_error (o : Origin) : Alike fun m => (.error (o.under m) : Except Failure α) :=
  ⟨.error o, fun _ _ => rfl⟩

theorem Alike.congr {r r' : Mode → Except Failure α} (h : Alike r')
    (same : ∀ m, m.Offered → r m = r' m) : Alike r := by
  obtain ⟨course, h⟩ := h
  exact ⟨course, fun m hm => (same m hm).trans (h m hm)⟩

theorem Alike.ok_or_error {r : Mode → Except Failure α} (h : Alike r) :
    (∃ a, ∀ m, m.Offered → r m = .ok a) ∨
      ∃ o : Origin, ∀ m, m.Offered → r m = .error (o.under m) := by
  obtain ⟨course, h⟩ := h
  cases course with
  | ok a => exact .inl ⟨a, h⟩
  | error o => exact .inr ⟨o, h⟩

theorem alike_map {r : Mode → Except Failure α} (h : Alike r) (f : α → β) :
    Alike fun m => (r m).map f := by
  obtain ⟨course, h⟩ := h
  refine ⟨course.map f, fun m hm => ?_⟩
  simp only [h m hm]
  cases course <;> rfl

theorem alike_scope {r : Mode → Except Failure α} (h : Alike r) (v : View) (f : Frame) :
    Alike fun m => scope v f (r m) := by
  obtain ⟨course, h⟩ := h
  cases course with
  | ok a => exact ⟨.ok a, fun m hm => by simp only [h m hm]; rfl⟩
  | error o =>
    refine ⟨.error ((o.push f).widen v), fun m hm => ?_⟩
    simp only [h m hm]
    exact congrArg Except.error (Origin.leave_under hm o f v)

theorem alike_raise_leave (c : Cause) (f : Frame) (v : View) :
    Alike fun m => (.error ((m.raise c).leave f v) : Except Failure α) :=
  alike_scope (alike_raise c) v f

theorem alike_foreignFailure (v : View) (f : ForeignFailure) (expected : String) (op : Operation) :
    Alike fun m => (.error (View.foreignFailure m v f expected op) : Except Failure α) := by
  have pushes (frames : List Frame) (o : Origin) : ∃ o' : Origin, ∀ m, m.Offered →
      frames.foldl (fun e frame => e.push frame.asChild) (o.under m) = o'.under m := by
    induction frames generalizing o with
    | nil => exact ⟨o, fun _ _ => rfl⟩
    | cons frame rest ih =>
      obtain ⟨o', h⟩ := ih (o.push frame.asChild)
      refine ⟨o', fun m hm => ?_⟩
      rw [List.foldl_cons, Origin.push_under hm, h m hm]
  obtain ⟨o, h⟩ :=
    pushes f.frames (.ofCause (v.invalidCause op expected (f.span.getD v.span) f.retry))
  refine ⟨.error o, fun m hm => ?_⟩
  simp only [View.foreignFailure, Origin.raise_eq_under hm, h m hm]
  rfl

end Alike

/-! ## Cuts -/

namespace View

theorem splitAt_alike (v : View) (n : Number) (op : Operation) :
    Alike fun m => splitAt m v n op := by
  unfold splitAt
  cases v.splitAt? n with
  | some parts => exact alike_ok parts
  | none => exact alike_raise _

theorem splitAtByte_alike (v : View) (n : Number) (op : Operation) :
    Alike fun m => splitAtByte m v n op := by
  unfold splitAtByte
  split
  · exact alike_raise _
  · cases n.toNat?.filter v.isBoundary with
    | some i => exact alike_ok (v.cut i)
    | none => exact alike_raise _

theorem splitFirst_alike (v : View) (op : Operation) : Alike fun m => splitFirst m v op := by
  unfold splitFirst
  cases v.splitFirst? with
  | some parts => exact alike_ok parts
  | none => exact alike_raise _

theorem splitUntil_alike (v : View) (p : Pattern) (op : Operation) :
    Alike fun m => splitUntil m v p op := by
  unfold splitUntil
  cases v.splitUntil? p with
  | some parts => exact alike_ok parts
  | none => exact alike_raise _

theorem splitUntilConsume_alike (v : View) (p : Pattern) (op : Operation) :
    Alike fun m => splitUntilConsume m v p op := by
  unfold splitUntilConsume
  cases v.splitUntilConsume? p with
  | some parts => exact alike_ok parts
  | none => exact alike_raise _

theorem splitPrefix_alike (v : View) (literal : List UInt8) (op : Operation) :
    Alike fun m => splitPrefix m v literal op := by
  unfold splitPrefix
  cases v.splitPrefix? literal with
  | some parts => exact alike_ok parts
  | none => exact alike_raise _

theorem stopped_alike {α : Type} (check : Check) (v : View) (op : Operation) (t : Nat) (parts : α) :
    Alike fun m => check.stopped m v op t parts := by
  unfold Check.stopped
  cases check t with
  | ok _ => exact alike_ok parts
  | error c => exact alike_raise_leave c _ _

theorem trySplitWhile_alike (v : View) (check : Check) (op : Operation) :
    Alike fun m => trySplitWhile m v check op := by
  unfold trySplitWhile
  cases v.firstWhere? fun t => !check.passes t with
  | none => exact alike_ok v.exhausted
  | some found => exact stopped_alike check v op found.2 _

theorem intoText_alike (v : View) (op : Operation) : Alike fun m => intoText m v op := by
  unfold intoText
  cases v.kind with
  | text => exact alike_ok v
  | bytes =>
    match Utf8.problem? v.bytes with
    | none => exact alike_ok _
    | some (_, .invalid _) => exact alike_raise _
    | some (_, .incomplete _ _) => exact alike_raise _

theorem trySplitStrWhile_alike (v : View) (check : Check) (op : Operation) :
    Alike fun m => trySplitStrWhile m v check op := by
  unfold trySplitStrWhile
  match Utf8.scanTo (fun c => !check.passes c.toNat) 0 v.bytes with
  | (_, none) => exact alike_ok _
  | (_, some (.ok (c, _))) => exact stopped_alike check v op c.toNat _
  | (_, some (.error (.invalid _))) => exact alike_raise _
  | (_, some (.error (.incomplete _ _))) => exact alike_raise _

theorem splitForeign_alike {α : Type} (v : View) (parser : Foreign (α × Number)) (expected : String)
    (op : Operation) : Alike fun m => splitForeign m v parser expected op := by
  unfold splitForeign
  match parser v with
  | .error f => exact alike_foreignFailure v f expected op
  | .ok (value, read) => exact alike_map (splitAtByte_alike v read op) _

end View

/-! ## Reads -/

structure Stage where
  depth : Nat
  name : String
  before : View
  after : View
  value : Option Value

def Step.stage (s : Step) : Stage := ⟨s.depth, s.name, s.before, s.after, s.result.toOption⟩

def Event.stages (events : List Event) : List Stage := (steps events).map Step.stage

theorem Event.stages_append (a b : List Event) : stages (a ++ b) = stages a ++ stages b := by
  simp [stages]

def Outcome.stages {α : Type} (o : Outcome α) : List Stage := Event.stages o.events

/-- The outcomes under all modes are of one course. -/
structure Uniform {α : Type} (o : Mode → Outcome α) : Prop where
  result : Alike fun m => (o m).result
  rest : ∀ m, m.Offered → (o m).rest = (o .root).rest
  stages : ∀ m, m.Offered → (o m).stages = (o .root).stages

section Uniform

variable {α β : Type} {o : Mode → Outcome α}

theorem Uniform.congr {o' : Mode → Outcome α} (h : Uniform o')
    (same : ∀ m, m.Offered → o m = o' m) : Uniform o := by
  refine ⟨h.result.congr fun m hm => by rw [same m hm], fun m hm => ?_, fun m hm => ?_⟩
  · rw [same m hm, same _ .root, h.rest m hm]
  · rw [same m hm, same _ .root, h.stages m hm]

theorem Uniform.withResult (h : Uniform o) {r : Mode → Except Failure β} (hr : Alike r) :
    Uniform fun m => ({ o m with result := r m } : Outcome β) :=
  ⟨hr, h.rest, h.stages⟩

theorem Uniform.withRest (h : Uniform o) (v : View) : Uniform fun m => { o m with rest := v } :=
  ⟨h.result, fun _ _ => rfl, h.stages⟩

theorem Uniform.withEvents (h : Uniform o) {events : Mode → List Event}
    (same : ∀ m, m.Offered → Event.stages (events m) = Event.stages (events .root)) :
    Uniform fun m => { o m with events := events m } :=
  ⟨h.result, h.rest, same⟩

theorem Uniform.restoring (h : Uniform o) (v : View) : Uniform fun m => (o m).restoring v := by
  rcases h.result.ok_or_error with ⟨a, ok⟩ | ⟨e, error⟩
  · exact h.congr fun m hm => Read.restoring_ok (ok m hm)
  · exact (h.withRest v).congr fun m hm => Read.restoring_error (error m hm)

end Uniform

namespace Read

variable {α β : Type} {v : View}

theorem uniform_result {r : Mode → Except Failure α} (h : Alike r) (rest : View) :
    Uniform fun m => (⟨r m, rest, []⟩ : Outcome α) :=
  ⟨h, fun _ _ => rfl, fun _ _ => rfl⟩

theorem uniform_pure (a : α) : Uniform fun _ => pure a v := uniform_result (alike_ok a) v

theorem uniform_look {f : Mode → View → Except Failure α} (h : ∀ v, Alike fun m => f m v) :
    Uniform fun m => look (f m) v := uniform_result (h v) v

theorem uniform_ofCut {cut : Mode → View → Except Failure (α × View)}
    (h : ∀ v, Alike fun m => cut m v) : Uniform fun m => ofCut (cut m) v := by
  rcases (h v).ok_or_error with ⟨parts, ok⟩ | ⟨e, error⟩
  · refine (uniform_result (alike_ok parts.1) parts.2).congr fun m hm => ?_
    simp [ofCut, ok m hm]
  · refine (uniform_result (alike_error e) v).congr fun m hm => ?_
    simp [ofCut, error m hm]

theorem uniform_ofParts (cut : View → View × View) : Uniform fun _ => ofParts cut v :=
  uniform_ofCut fun v => alike_ok (cut v)

theorem uniform_ofParts? (cut : View → Option (View × View)) :
    Uniform fun _ => ofParts? cut v := by
  apply uniform_ofCut
  intro v
  cases cut v with
  | some parts => exact alike_ok (some parts.1, parts.2)
  | none => exact alike_ok (none, v)

variable {p : Mode → Read α}

theorem uniform_map (h : Uniform fun m => p m v) (f : α → β) :
    Uniform fun m => map f (p m) v :=
  h.withResult (alike_map h.result f)

theorem uniform_andThen {next : Mode → α → Read β} (h : Uniform fun m => p m v)
    (hnext : ∀ a w, Uniform fun m => next m a w) :
    Uniform fun m => andThen (p m) (next m) v := by
  rcases h.result.ok_or_error with ⟨a, ok⟩ | ⟨e, error⟩
  · have later := hnext a (p .root v).rest
    have both : ∀ m, m.Offered →
        Event.stages ((p m v).events ++ (next m a (p .root v).rest).events) =
          Event.stages ((p .root v).events ++ (next .root a (p .root v).rest).events) := by
      intro m hm
      rw [Event.stages_append, Event.stages_append]
      exact congrArg₂ _ (h.stages m hm) (later.stages m hm)
    refine (later.withEvents both).congr fun m hm => ?_
    rw [andThen_ok (ok m hm), h.rest m hm]
  · refine (h.withResult (alike_error e)).congr fun m hm => ?_
    rw [andThen_error (error m hm)]

theorem uniform_unfailing {p : Mode → Read Value} (h : Uniform fun m => p m v) :
    Uniform fun m => unfailing (p m) v := by
  apply h.withResult
  rcases h.result.ok_or_error with ⟨a, ok⟩ | ⟨e, error⟩
  · exact (alike_ok a).congr fun m hm => by simp only [ok m hm]; rfl
  · exact (alike_ok .absent).congr fun m hm => by simp only [error m hm]; rfl

theorem uniform_recorded {p : Mode → Read Value} (h : Uniform fun m => p m v) (depth : Nat)
    (name : String) : Uniform fun m => recorded depth name (p m) v := by
  have value (m : Mode) (hm : m.Offered) :
      (p m v).result.toOption = (p .root v).result.toOption := by
    rcases h.result.ok_or_error with ⟨a, ok⟩ | ⟨e, error⟩
    · rw [ok m hm, ok _ .root]
    · rw [error m hm, error _ .root]; rfl
  apply h.withEvents
  intro m hm
  rw [Event.stages_append, Event.stages_append]
  refine congrArg₂ _ (h.stages m hm) ?_
  simp [Event.stages, Step.stage, h.rest m hm, value m hm]

/-! ## Scopes -/

theorem uniform_context (h : Uniform fun m => p m v) (f : Frame) :
    Uniform fun m => context f (p m) v :=
  h.withResult (alike_scope h.result v f)

theorem uniform_peekContext (h : Uniform fun m => p m v) (f : Frame) :
    Uniform fun m => peekContext f (p m) v :=
  (uniform_context h f).withRest v

theorem uniform_tryTakeConsumed (h : Uniform fun m => p m v) :
    Uniform fun m => tryTakeConsumed (p m) v := by
  refine Uniform.restoring (h.withResult ?_) v
  refine (alike_map h.result fun a => (a, v.consumedHead (p .root v).rest)).congr fun m hm => ?_
  rw [h.rest m hm]

theorem uniform_takeConsumed {p : Mode → Read Value} (h : Uniform fun m => p m v) :
    Uniform fun m => map (fun (r, head) => Value.list [.orAbsent r, .view head])
      (takeConsumed (p m)) v := by
  have given : Alike fun m =>
      .ok (Value.list [.orAbsent (p m v).result, .view (v.consumedHead (p m v).rest)]) := by
    refine (alike_map (uniform_unfailing h).result fun a =>
      Value.list [a, .view (v.consumedHead (p .root v).rest)]).congr fun m hm => ?_
    rw [h.rest m hm]
    rfl
  exact h.withResult given

theorem uniform_recover (h : Uniform fun m => p m v) : Uniform fun m => recover (p m) v := by
  rcases h.result.ok_or_error with ⟨a, ok⟩ | ⟨e, error⟩
  · refine (h.withResult (alike_ok (some a))).congr fun m hm => ?_
    exact recover_ok (ok m hm)
  · refine ((h.withResult (alike_ok none)).withRest v).congr fun m hm => ?_
    exact recover_error (error m hm)

theorem uniform_recoverIf {accepts : Failure → Bool} {b : Bool} (blind : ∀ e, accepts e = b)
    (h : Uniform fun m => p m v) : Uniform fun m => recoverIf accepts (p m) v := by
  rcases h.result.ok_or_error with ⟨a, ok⟩ | ⟨e, error⟩
  · refine (h.withResult (alike_ok (some a))).congr fun m hm => ?_
    exact recoverIf_ok (ok m hm)
  · cases b with
    | true =>
      refine ((h.withResult (alike_ok none)).withRest v).congr fun m hm => ?_
      exact recoverIf_accepted (error m hm) (blind _)
    | false =>
      have left : Alike fun m => scope v (.ofOperation .recoverIf)
          (.error (e.under m) : Except Failure (Option α)) :=
        alike_scope (alike_error e) v _
      refine ((h.withResult left).withRest v).congr fun m hm => ?_
      exact recoverIf_refused (error m hm) (blind _)

theorem uniform_expect {p : Mode → Read (Option α)} (h : Uniform fun m => p m v)
    (expected : String) (op : Operation) :
    Uniform fun m => expect m expected op (p m) v := by
  refine Uniform.restoring (h.withResult ?_) v
  rcases h.result.ok_or_error with ⟨a, ok⟩ | ⟨e, error⟩
  · cases a with
    | some a => exact (alike_ok a).congr fun m hm => by rw [ok m hm]
    | none =>
      refine (alike_raise (v.invalidCause op expected
        (v.consumedHead (p .root v).rest).span none)).congr fun m hm => ?_
      rw [ok m hm, h.rest m hm]
  · exact (alike_error e).congr fun m hm => by rw [error m hm]

theorem uniform_expectErased (p : Read α) (expected : String) (op : Operation) :
    Uniform fun m => expectErased m expected op p v := by
  have same : Uniform fun m : Mode => ({ p v with result := .ok () } : Outcome Unit) :=
    ⟨alike_ok (), fun _ _ => rfl, fun _ _ => rfl⟩
  refine Uniform.restoring (same.withResult ?_) v
  cases (p v).result with
  | ok a => exact alike_ok a
  | error e => exact alike_raise _

/-! ## Entry points -/

theorem uniform_readPartial (debug : Bool) (h : Uniform fun m => p m v) :
    Uniform fun m => readPartial debug (p m) v := by
  have inner := uniform_context h (.ofOperation .readPartial)
  have given := alike_map inner.result fun a => (a, (p .root v).rest)
  refine (inner.withResult (given.congr fun m hm => ?_)).withEvents fun m hm => ?_
  · rw [inner.rest m hm]
    rfl
  · simp only [Event.stages, Event.steps_append, steps_failureLines, List.append_nil]
    exact h.stages m hm

theorem uniform_readAll (debug : Bool) (h : Uniform fun m => p m v) :
    Uniform fun m => readAll m debug (p m) v := by
  have inner := uniform_context h (.ofOperation .readAll)
  refine (inner.withResult ?_).withEvents fun m hm => ?_
  · rcases inner.result.ok_or_error with ⟨a, ok⟩ | ⟨e, error⟩
    · by_cases empty : (context (.ofOperation .readAll) (p .root) v).rest.isEmpty
      · refine (alike_ok a).congr fun m hm => ?_
        simp only [ok m hm, inner.rest m hm, if_pos empty]
      · refine (alike_raise (trailingCause v (p .root v).rest)).congr fun m hm => ?_
        simp only [ok m hm, inner.rest m hm, if_neg empty]
        rfl
    · exact (alike_error e).congr fun m hm => by simp only [error m hm]
  · simp only [Event.stages, Event.steps_append, steps_failureLines, List.append_nil]
    exact h.stages m hm

end Read

/-! ## Programs -/

/-- Recovers, if it does, without looking at the failure, runs no step that may not fail, and lets
out no failure of another mode. -/
def Scope.Blind (soft : Bool) : Scope → Prop
  | .recoverIf accepts => ∃ b, ∀ e, accepts e = b
  | .errorScope _ => soft = true
  | .bypass => False
  | _ => True

def Program.Blind : Program → Prop
  | .done => True
  | .finish _ => True
  | .choose next => ∀ a, (next a).Blind
  | .repeat _ body next => body.Blind ∧ next.Blind
  | .act _ _ next => next.Blind
  | .within scope soft body next => scope.Blind soft ∧ body.Blind ∧ next.Blind

open Read

theorem Action.run_uniform (a : Action) (last : Value) (v : View) :
    Uniform fun m => a.run m last v := by
  cases a with
  | peek n =>
    exact uniform_look (fun v => alike_map (v.splitAt_alike _ _) _)
  | peekOpt | peekEq | atEnd | remainingBytes | peekRemaining | peekU8Opt | peekCharOpt =>
    exact uniform_look fun v => alike_ok _
  | take n | skip n | takeArray n =>
    exact uniform_map (uniform_ofCut fun v => v.splitAt_alike _ _) _
  | readNum kind endian =>
    exact uniform_map (uniform_ofCut fun v => v.splitAt_alike _ _) _
  | takeWhile | skipWhile | takeRemaining => exact uniform_map (uniform_ofParts _) _
  | takeOpt | skipOpt | takeUntilOpt | takeUntilConsumeOpt | skipUntilOpt | skipUntilConsumeOpt
  | consumeOpt => exact uniform_map (uniform_ofParts? _) _
  | takeUntil p | skipUntil p =>
    exact uniform_map (uniform_ofCut fun v => v.splitUntil_alike p _) _
  | takeUntilConsume p | skipUntilConsume p =>
    exact uniform_map (uniform_ofCut fun v => v.splitUntilConsume_alike p _) _
  | consume literal =>
    exact uniform_map (uniform_ofCut fun v => v.splitPrefix_alike literal _) _
  | readU8 | readChar =>
    exact uniform_map (uniform_ofCut fun v => v.splitFirst_alike _) _
  | peekU8 | peekChar =>
    exact uniform_look (fun v => alike_map (v.splitFirst_alike _) _)
  | takeRemainingStr =>
    exact uniform_map (uniform_ofCut fun v => alike_map (v.intoText_alike _) _) _
  | takeStrWhile accepts | skipStrWhile accepts =>
    exact uniform_map (uniform_ofCut fun v => v.trySplitStrWhile_alike _ _) _
  | tryTakeWhile check | trySkipWhile check =>
    exact uniform_map (uniform_ofCut fun v => v.trySplitWhile_alike check _) _
  | tryTakeStrWhile check | trySkipStrWhile check =>
    exact uniform_map (uniform_ofCut fun v => v.trySplitStrWhile_alike check _) _
  | tryExpectExternal expected parser =>
    exact uniform_ofCut fun v => v.splitForeign_alike parser expected _
  | fail cause => exact uniform_look fun _ => alike_raise cause

theorem Part.split_alike (part : Part) (last : Value) (v : View) :
    Alike fun m => part.split m last v := by
  unfold split
  cases part.length with
  | some n => exact v.splitAt_alike _ _
  | none => exact alike_ok _

theorem Part.convert_alike (part : Part) (head : View) : Alike fun m => part.convert m head := by
  unfold convert
  match part.kind with
  | none => exact alike_ok _
  | some .bytes => exact alike_ok _
  | some .text => exact View.intoText_alike _ _

theorem Part.take_uniform (part : Part) (last : Value) (v : View) :
    Uniform fun m => part.take m last v := by
  rcases (part.split_alike last v).ok_or_error with ⟨parts, ok⟩ | ⟨e, error⟩
  · refine (uniform_result (part.convert_alike parts.1) parts.2).congr fun m hm => ?_
    simp only [Part.take, ok m hm]
  · refine (uniform_result (alike_error e) v).congr fun m hm => ?_
    simp only [Part.take, error m hm]

theorem Part.within_uniform (part : Part) (debug : Bool) {body : Mode → Read Value} {v : View}
    (h : Uniform fun m => body m v) : Uniform fun m => part.within m debug (body m) v := by
  unfold within
  cases part.whole with
  | true => exact uniform_readAll debug h
  | false => exact uniform_map (uniform_readPartial debug h) _

theorem Part.read_uniform (part : Part) (debug : Bool) (last : Value) {body : Mode → Read Value}
    (h : ∀ v, Uniform fun m => body m v) (v : View) :
    Uniform fun m => part.read m debug last (body m) v := by
  have taken := part.take_uniform last v
  rcases taken.result.ok_or_error with ⟨head, ok⟩ | ⟨e, error⟩
  · have inner := part.within_uniform debug (h head)
    refine (inner.withRest (part.take .root last v).rest).congr fun m hm => ?_
    simp only [Part.read, ok m hm, taken.rest m hm]
  · refine (uniform_result (alike_error e) (part.take .root last v).rest).congr fun m hm => ?_
    simp only [Part.read, error m hm, taken.rest m hm]

theorem Scope.run_uniform {scope : Scope} {soft : Bool} (hs : scope.Blind soft)
    (outer : ∀ inner, scope ≠ .errorScope inner) (debug : Bool) (last : Value)
    {body : Mode → Read Value} (h : ∀ v, Uniform fun m => body m v) (v : View) :
    Uniform fun m => scope.run m debug last body v := by
  cases scope with
  | context f => exact uniform_context (h v) f
  | peekContext f => exact uniform_peekContext (h v) f
  | takeConsumed => exact uniform_takeConsumed (h v)
  | tryTakeConsumed => exact uniform_map (uniform_tryTakeConsumed (h v)) _
  | recover => exact uniform_map (uniform_recover (h v)) _
  | recoverIf accepts =>
    obtain ⟨b, blind⟩ := hs
    exact uniform_map (uniform_recoverIf blind (h v)) _
  | errorScope mode => exact absurd rfl (outer mode)
  | verify expected => exact uniform_expect (uniform_map (uniform_unfailing (h v)) _) expected _
  | tryVerify expected => exact uniform_expect (uniform_map (h v) _) expected _
  | expect expected => exact uniform_expect (uniform_map (uniform_unfailing (h v)) _) expected _
  | tryExpect expected => exact uniform_expect (uniform_map (h v) _) expected _
  | tryExpectErased expected => exact uniform_expectErased (body .invalid) expected _
  | sub part => exact part.read_uniform debug last h v
  | bypass => exact hs.elim

namespace Program

theorem rounds_uniform {body : Mode → Read Value} (h : ∀ v, Uniform fun m => body m v) (most : Nat)
    (v : View) : Uniform fun m => rounds (body m) most v := by
  induction most generalizing v with
  | zero => exact uniform_pure []
  | succ most ih =>
    by_cases empty : v.isEmpty
    · simp only [rounds, empty, if_true]
      exact uniform_pure []
    · simp only [rounds, empty]
      exact uniform_andThen (h v) fun a w => uniform_map (ih w) _

theorem step_uniform {p : Mode → Read Value} {v : View} (h : Uniform fun m => p m v) (depth : Nat)
    (name : String) (soft : Bool) : Uniform fun m => step depth name soft (p m) v := by
  cases soft with
  | true => exact uniform_unfailing (uniform_recorded h depth name)
  | false => exact uniform_recorded h depth name

/-- A soft step that no mode decides yields a value, whatever its own failures are. -/
theorem soft_step_uniform (p : Read Value) (v : View) (depth : Nat) (name : String) :
    Uniform fun _ => step depth name true p v :=
  ⟨alike_ok _, fun _ _ => rfl, fun _ _ => rfl⟩

theorem run_uniform {p : Program} (hp : p.Blind) (debug : Bool) (depth : Nat) (last : Value)
    (v : View) : Uniform fun m => p.run debug m depth last v := by
  -- By induction on the program: the scopes it opens are uniform if their bodies are.
  induction p generalizing depth last v with
  | done => exact uniform_pure last
  | finish value => exact uniform_pure value
  | choose next ih => exact ih last (hp last) depth last v
  | «repeat» most body next ihBody ihNext =>
    refine uniform_andThen ?_ fun a w => ihNext hp.2 depth _ w
    exact rounds_uniform (fun w => ihBody hp.1 (depth + 1) .absent w) most v
  | act action soft next ih =>
    refine uniform_andThen ?_ fun a w => ih hp depth a w
    exact step_uniform (action.run_uniform last v) depth action.name soft
  | within scope soft body next ihBody ihNext =>
    refine uniform_andThen ?_ fun a w => ihNext hp.2.2 depth a w
    have inner (w : View) := ihBody hp.2.1 (depth + 1) .absent w
    -- An error scope runs its body under its own mode, so only as a soft step is it uniform.
    cases scope with
    | errorScope mode =>
      obtain rfl : soft = true := hp.1
      exact soft_step_uniform _ v depth _
    | _ => exact step_uniform (Scope.run_uniform hp.1 (by simp) debug last inner v) depth _ _

end Program

/-! ## One course under all modes -/

/-- Two runs succeed with the same value or both fail, stand at the same place, and their steps are
the same but for what failures keep. -/
structure Outcome.SameCourse {α : Type} (o o' : Outcome α) : Prop where
  result : o.result.toOption = o'.result.toOption
  rest : o.rest = o'.rest
  stages : o.stages = o'.stages

theorem Uniform.sameCourse {α : Type} {o : Mode → Outcome α} (h : Uniform o) {m m' : Mode}
    (hm : m.Offered) (hm' : m'.Offered) : (o m).SameCourse (o m') := by
  refine ⟨?_, (h.rest m hm).trans (h.rest m' hm').symm,
    (h.stages m hm).trans (h.stages m' hm').symm⟩
  rcases h.result.ok_or_error with ⟨a, ok⟩ | ⟨e, error⟩
  · rw [ok m hm, ok m' hm']
  · rw [error m hm, error m' hm']
    rfl

theorem Entry.run_uniform {entry : Entry} (fallible : entry ≠ .infallible) {p : Program}
    (hp : p.Blind) (debug : Bool) (depth : Nat) (v : View) :
    Uniform fun m => entry.run debug m depth p v := by
  have body (w : View) := Program.run_uniform hp debug depth .absent w
  cases entry with
  | all => exact uniform_readAll debug (body v)
  | part => exact uniform_map (v := v) (uniform_readPartial debug (body v)) _
  | infallible => exact absurd rfl fallible

/-- A program that looks at no failure takes one course under all modes. If it fails, the reports
with one frame and with all frames are of one cause over one input, the requirement that is kept
alone is the one they give, and the one frame is the root of them all. -/
theorem Entry.run_same_course {entry : Entry} (fallible : entry ≠ .infallible) {p : Program}
    (hp : p.Blind) (debug : Bool) (depth : Nat) (v : View) :
    (∀ m m' : Mode, m.Offered → m'.Offered →
      (entry.run debug m depth p v).SameCourse (entry.run debug m' depth p v)) ∧
    ∀ e, (entry.run debug .root depth p v).result = .error e →
      ∃ r full : Report, e = .report r ∧
        (entry.run debug .full depth p v).result = .error (.report full) ∧
        r.cause = full.cause ∧ r.input = full.input ∧
        r.backtrace.root = full.backtrace.root ∧ r.backtrace.frames = [full.backtrace.root.frame] ∧
        (entry.run debug .invalid depth p v).result = .error (.invalid full.cause.requirement) ∧
        (entry.run debug .fatal depth p v).result = .error .fatal := by
  have uniform := run_uniform fallible hp debug depth v
  refine ⟨fun m m' hm hm' => uniform.sameCourse hm hm', fun e failed => ?_⟩
  rcases uniform.result.ok_or_error with ⟨a, ok⟩ | ⟨o, error⟩
  · rw [ok _ .root] at failed
    contradiction
  · -- Every mode's failure is made of one origin.
    rw [error _ .root] at failed
    obtain rfl := Except.error.inj failed
    exact ⟨_, _, rfl, error _ .full, rfl, rfl, rfl, rfl, error _ .invalid, error _ .fatal⟩

/-- Recovering from no failure of a scope that asks for more than there is. -/
theorem Entry.run_same_course_recovery :
    let never := Scope.recoverIf fun _ => false
    let p := Program.within never false
      (.within (.context (.named "pair")) false (.act (.take (.given 3)) false .done) .done) .done
    let v := View.ofSource (.ofBytes 0 [1, 2]) .bytes
    Entry.all ≠ .infallible ∧ p.Blind ∧
      (Entry.all.run true .full 0 p v).SameCourse (Entry.all.run true .invalid 0 p v) := by
  have blind : (Program.within (.recoverIf fun _ => false) false
      (.within (.context (.named "pair")) false (.act (.take (.given 3)) false .done) .done)
      .done).Blind :=
    ⟨⟨false, fun _ => rfl⟩, ⟨trivial, trivial, trivial⟩, trivial⟩
  exact ⟨by decide, blind, (run_same_course (by decide) blind true 0 _).1 _ _ .full .invalid⟩

end Untrusted
