import Mathlib
import Untrusted.Proofs.Raised
import Untrusted.Proofs.Containment
import Untrusted.Proofs.View.Ranges

/-!
# Failures are widened to the input they are read from

A failure is raised for a cause at a range of the view in which it arose. Each scope that it leaves
was entered at a view that contains what the failure recorded so far, so it ends up with the input
that the outermost one was entered at.
-/

namespace Untrusted

open View (Located)

/-! ## Failures inside a view -/

/-- The cause lies in an input that lies in `v`, as does the input that the report names. -/
structure Report.Within (v : View) (r : Report) : Prop where
  place : r.cause.input.Located r.cause
  origin : r.cause.input.PartOf v
  input : r.input.PartOf v

def Mode.KeepsReports (mode : Mode) : Prop := mode = .root ∨ mode = .full

/-- A failure that is a report if the mode keeps them, and any report lies in `v`. -/
structure Failure.Within (mode : Mode) (v : View) (e : Failure) : Prop where
  reports : mode.KeepsReports → ∃ r, e = .report r
  inside : ∀ r, e = .report r → r.Within v

def View.FailsWithin {α : Type} (mode : Mode) (v : View) (result : Except Failure α) : Prop :=
  ∀ e, result = .error e → e.Within mode v

variable {mode : Mode} {v w : View}

theorem Report.Within.trans {r : Report} (h : r.Within v) (hv : v.PartOf w) : r.Within w :=
  ⟨h.place, h.origin.trans hv, h.input.trans hv⟩

theorem Report.Within.widen {r : Report} (h : r.Within v) (sound : v.Sound) :
    (r.widen v).Within v ∧ (r.widen v).input = v := by
  have wider : r.widen v = { r with input := v } := by
    rw [Report.widen, if_pos (h.input.isWithin sound)]
  rw [wider]
  exact ⟨⟨h.place, h.origin, sound.partOf_self⟩, rfl⟩

namespace Failure

variable {e : Failure}

theorem Within.trans (h : e.Within mode v) (hv : v.PartOf w) : e.Within mode w :=
  ⟨h.reports, fun r same => (h.inside r same).trans hv⟩

theorem within_raise (sound : v.Sound) {c : Cause} (h : v.Located c) (mode : Mode) :
    (mode.raise c).Within mode v := by
  have made (full : Bool) : (Report.ofCause full c).Within v := by
    obtain ⟨rfl, place⟩ := h
    exact ⟨⟨rfl, place⟩, sound.partOf_self, sound.partOf_self⟩
  constructor
  · rintro (rfl | rfl) <;> exact ⟨_, rfl⟩
  · intro r same
    cases mode <;> simp only [Mode.raise, report.injEq, reduceCtorEq] at same
    all_goals exact same ▸ made _

theorem Within.push (h : e.Within mode v) (f : Frame) : (e.push f).Within mode v := by
  constructor
  · intro keeps
    obtain ⟨r, rfl⟩ := h.reports keeps
    exact ⟨r.push f, rfl⟩
  · intro r same
    cases e with
    | report r' =>
      obtain rfl := report.inj same
      have inside := h.inside r' rfl
      exact ⟨inside.place, inside.origin, inside.input⟩
    | _ => simp [Failure.push] at same

theorem Within.foldl_push (h : e.Within mode v) (frames : List Frame) :
    (frames.foldl (fun e frame => e.push frame.asChild) e).Within mode v := by
  induction frames generalizing e with
  | nil => exact h
  | cons f frames ih => exact ih (h.push _)

theorem Within.leave (h : e.Within mode v) (sound : v.Sound) (f : Frame) :
    (e.leave f v).Within mode v ∧ ∀ r, e.leave f v = .report r → r.input = v := by
  have pushed := h.push f
  unfold Failure.leave
  cases found : e.push f with
  | report r =>
    obtain ⟨inside, input⟩ := (pushed.inside r found).widen sound
    simp only [Failure.widen, report.injEq, forall_eq']
    exact ⟨⟨fun _ => ⟨_, rfl⟩, by simpa using inside⟩, input⟩
  | _ =>
    rw [found] at pushed
    simp only [Failure.widen, reduceCtorEq, false_imp_iff, implies_true, and_true]
    refine ⟨fun keeps => ?_, by simp⟩
    obtain ⟨r, same⟩ := pushed.reports keeps
    contradiction

end Failure

/-- A foreign parser that leaves it to the library to say where it failed, and counts what it read
in whole bytes. -/
def Foreign.Native {α : Type} (k : Kind) (parser : Foreign (α × Number)) : Prop :=
  ∀ v : View, v.Sound → v.kind = k → (∀ f, parser v = .error f → f.span = none) ∧
    ∀ a n, parser v = .ok (a, n) → ∃ i : Nat, n = Number.ofNat i

/-! ## Cuts -/

namespace View

section

variable {α β : Type}

theorem failsWithin_ok (a : α) : v.FailsWithin mode (.ok a) := by
  intro e failed
  contradiction

theorem FailsWithin.map {r : Except Failure α} (h : v.FailsWithin mode r) (f : α → β) :
    v.FailsWithin mode (r.map f) := by
  intro e failed
  cases r with
  | ok a => contradiction
  | error e' =>
    cases failed
    exact h _ rfl

theorem Located.failsWithin (sound : v.Sound) {c : Cause} (h : v.Located c) :
    v.FailsWithin mode (.error (mode.raise c) : Except Failure α) := by
  rintro e ⟨⟩
  exact Failure.within_raise sound h mode

theorem FailsWithin.trans {r : Except Failure α} (h : v.FailsWithin mode r) (hv : v.PartOf w) :
    w.FailsWithin mode r :=
  fun e failed => (h e failed).trans hv

end

section

variable (h : v.Sound) (op : Operation)

include h

theorem Sound.splitAt_within (n : Number) : v.FailsWithin mode (v.splitAt mode n op) := by
  unfold splitAt
  split
  · exact failsWithin_ok _
  · exact (h.located_lengthCause n op).failsWithin h

theorem Sound.splitFirst_within : v.FailsWithin mode (v.splitFirst mode op) := by
  unfold splitFirst
  split
  · exact failsWithin_ok _
  · exact (h.located_lengthCause 1 op).failsWithin h

theorem Sound.splitUntil_within (p : Pattern) : v.FailsWithin mode (v.splitUntil mode p op) := by
  unfold splitUntil
  split
  · exact failsWithin_ok _
  · exact (h.located_untilCause op).failsWithin h

theorem Sound.splitUntilConsume_within (p : Pattern) :
    v.FailsWithin mode (v.splitUntilConsume mode p op) := by
  unfold splitUntilConsume
  split
  · exact failsWithin_ok _
  · exact (h.located_untilCause op).failsWithin h

theorem Sound.splitPrefix_within (literal : List UInt8) :
    v.FailsWithin mode (v.splitPrefix mode literal op) := by
  unfold splitPrefix
  split
  · exact failsWithin_ok _
  · exact (h.located_prefixCause literal op).failsWithin h

theorem Sound.splitAtByte_within (n : Nat) : v.FailsWithin mode (v.splitAtByte mode n op) := by
  unfold splitAtByte
  rw [h.extent_eq, Number.lt_ofNat]
  split
  · exact (h.located_lengthCause _ op).failsWithin h
  · rename_i inside
    split
    · exact failsWithin_ok _
    · have le : n ≤ v.size := by simpa using inside
      refine (located_invalidCause op _ none ⟨n, n, le_rfl, le, ?_⟩).failsWithin h
      exact h.within_eq le_rfl le

omit h in
theorem stopped_within {α : Type} {check : Check} (sure : check.Uses fun _ => False) (t : Nat)
    (parts : α) : v.FailsWithin mode (check.stopped mode v op t parts) := by
  unfold Check.stopped
  split
  · rename_i c failed
    exact (sure t c failed).elim
  · exact failsWithin_ok _

omit h in
theorem trySplitWhile_within {check : Check} (sure : check.Uses fun _ => False) :
    v.FailsWithin mode (v.trySplitWhile mode check op) := by
  unfold trySplitWhile
  split
  · exact failsWithin_ok _
  · exact stopped_within op sure _ _

theorem Sound.intoText_within : v.FailsWithin mode (v.intoText mode op) := by
  unfold intoText
  split
  · exact failsWithin_ok _
  · split
    · exact failsWithin_ok _
    · rename_i start length found
      have le := Utf8.invalid_bounds (Utf8.problem?_eq_some_iff.1 found)
      rw [h.length_bytes] at le
      exact (h.located_codePointCause le op none).failsWithin h
    · rename_i start expected available found
      have bounds := Utf8.incomplete_bounds (Utf8.problem?_eq_some_iff.1 found)
      rw [h.length_bytes] at bounds
      exact (h.located_truncated (by omega) expected op).failsWithin h

theorem Sound.trySplitStrWhile_within {check : Check} (sure : check.Uses fun _ => False) :
    v.FailsWithin mode (v.trySplitStrWhile mode check op) := by
  unfold trySplitStrWhile
  split
  · exact failsWithin_ok _
  · exact stopped_within op sure _ _
  · rename_i start length scanned
    have le := Utf8.invalid_bounds scanned
    rw [h.length_bytes] at le
    exact (h.located_codePointCause le op none).failsWithin h
  · rename_i start expected available scanned
    have bounds := Utf8.incomplete_bounds scanned
    rw [h.length_bytes] at bounds
    exact (h.located_codePointCause (by omega) op _).failsWithin h

theorem Sound.splitForeign_within {α : Type} {parser : Foreign (α × Number)}
    (native : parser.Native v.kind) (expected : String) :
    v.FailsWithin mode (v.splitForeign mode parser expected op) := by
  obtain ⟨placeless, counted⟩ := native v h rfl
  unfold splitForeign
  split
  · rename_i f failed
    rintro e ⟨⟩
    refine Failure.Within.foldl_push (Failure.within_raise h ?_ mode) f.frames
    rw [placeless f failed]
    exact h.located_all op expected f.retry
  · rename_i a n read
    obtain ⟨i, rfl⟩ := counted a n read
    exact (h.splitAtByte_within op i).map _

end

end View

/-! ## Reads -/

/-- A read from `v` that stands at an end of it, and whose failure lies in it. -/
structure Outcome.Reaches {α : Type} (mode : Mode) (v : View) (o : Outcome α) : Prop where
  rest : o.rest.TailOf v
  failure : v.FailsWithin mode o.result

def Read.Reaches {α : Type} (mode : Mode) (k : Kind) (p : Read α) : Prop :=
  ∀ v, v.Sound → v.kind = k → (p v).Reaches mode v

theorem Outcome.Reaches.restoring {α : Type} {o : Outcome α} (h : o.Reaches mode v)
    (sound : v.Sound) : (o.restoring v).Reaches mode v := by
  unfold Outcome.restoring
  split
  · exact h
  · exact ⟨sound.tailOf_self, h.failure⟩

namespace Read

open View

variable {α β : Type} {k : Kind} {p : Read α}

theorem reaches_map (h : p.Reaches mode k) (f : α → β) : (map f p).Reaches mode k :=
  fun v sound hk => ⟨(h v sound hk).rest, (h v sound hk).failure.map f⟩

theorem reaches_ofCut {cut : View → Except Failure (α × View)}
    (h : ∀ v : View, v.Sound → v.kind = k →
      v.FailsWithin mode (cut v) ∧ ∀ parts, cut v = .ok parts → parts.2.TailOf v) :
    (ofCut cut).Reaches mode k := by
  intro v sound hk
  obtain ⟨within, tail⟩ := h v sound hk
  unfold ofCut
  split
  · rename_i a rest done
    exact ⟨tail _ done, failsWithin_ok a⟩
  · rename_i e failed
    refine ⟨sound.tailOf_self, ?_⟩
    rintro _ ⟨⟩
    exact within e failed

theorem reaches_ofParts {cut : View → View × View}
    (h : ∀ v : View, v.Sound → v.kind = k → v.Cut (cut v)) : (ofParts cut).Reaches mode k := by
  apply reaches_ofCut
  intro v sound hk
  refine ⟨failsWithin_ok _, ?_⟩
  rintro parts ⟨⟩
  exact (h v sound hk).tail

theorem reaches_ofParts? {cut : View → Option (View × View)}
    (h : ∀ v : View, v.Sound → v.kind = k → ∀ parts, cut v = some parts → v.Cut parts) :
    (ofParts? cut).Reaches mode k := by
  apply reaches_ofCut
  intro v sound hk
  cases found : cut v with
  | none =>
    refine ⟨failsWithin_ok _, ?_⟩
    rintro parts ⟨⟩
    exact sound.tailOf_self
  | some parts =>
    refine ⟨failsWithin_ok _, ?_⟩
    rintro _ ⟨⟩
    exact (h v sound hk parts found).tail

theorem reaches_look {f : View → Except Failure α}
    (h : ∀ v : View, v.Sound → v.kind = k → v.FailsWithin mode (f v)) :
    (look f).Reaches mode k :=
  fun v sound hk => ⟨sound.tailOf_self, h v sound hk⟩

theorem reaches_pure (a : α) : (pure a).Reaches mode k :=
  fun _ sound _ => ⟨sound.tailOf_self, failsWithin_ok a⟩

theorem reaches_andThen {next : α → Read β} (h : p.Reaches mode k)
    (hnext : ∀ a, (next a).Reaches mode k) : (andThen p next).Reaches mode k := by
  intro v sound hk
  have first := h v sound hk
  cases result : (p v).result with
  | error e =>
    rw [andThen_error result]
    refine ⟨first.rest, ?_⟩
    rintro _ ⟨⟩
    exact first.failure e result
  | ok a =>
    have second := hnext a (p v).rest first.rest.sound (first.rest.kind.trans hk)
    rw [andThen_ok result]
    exact ⟨second.rest.trans first.rest, second.failure.trans first.rest.partOf⟩

theorem reaches_unfailing {p : Read Value} {inner : Mode} (h : p.Reaches inner k) :
    (unfailing p).Reaches mode k :=
  fun v sound hk => ⟨(h v sound hk).rest, failsWithin_ok _⟩

theorem reaches_recorded {p : Read Value} (h : p.Reaches mode k) (depth : Nat) (name : String) :
    (recorded depth name p).Reaches mode k :=
  fun v sound hk => ⟨(h v sound hk).rest, (h v sound hk).failure⟩

/-! ## Scopes -/

theorem scope_within (sound : v.Sound) {r : Except Failure α} (h : v.FailsWithin mode r)
    (f : Frame) : v.FailsWithin mode (scope v f r) := by
  intro e failed
  cases r with
  | ok a => contradiction
  | error e' =>
    cases failed
    exact ((h e' rfl).leave sound f).1

theorem reaches_context (h : p.Reaches mode k) (f : Frame) : (context f p).Reaches mode k :=
  fun v sound hk => ⟨(h v sound hk).rest, scope_within sound (h v sound hk).failure f⟩

theorem reaches_peekContext (h : p.Reaches mode k) (f : Frame) :
    (peekContext f p).Reaches mode k :=
  fun v sound hk => ⟨sound.tailOf_self, (reaches_context h f v sound hk).failure⟩

theorem reaches_takeConsumed {inner : Mode} (h : p.Reaches inner k) :
    (takeConsumed p).Reaches mode k :=
  fun v sound hk => ⟨(h v sound hk).rest, failsWithin_ok _⟩

theorem reaches_tryTakeConsumed (h : p.Reaches mode k) : (tryTakeConsumed p).Reaches mode k := by
  intro v sound hk
  have inner := h v sound hk
  exact Outcome.Reaches.restoring ⟨inner.rest, inner.failure.map _⟩ sound

theorem reaches_recover (h : p.Reaches mode k) : (recover p).Reaches mode k := by
  intro v sound hk
  have inner := h v sound hk
  cases result : (p v).result with
  | ok a =>
    rw [recover_ok result]
    exact ⟨inner.rest, failsWithin_ok _⟩
  | error e =>
    rw [recover_error result]
    exact ⟨sound.tailOf_self, failsWithin_ok _⟩

theorem reaches_recoverIf (h : p.Reaches mode k) (accepts : Failure → Bool) :
    (recoverIf accepts p).Reaches mode k := by
  intro v sound hk
  have inner := h v sound hk
  cases result : (p v).result with
  | ok a =>
    rw [recoverIf_ok result]
    exact ⟨inner.rest, failsWithin_ok _⟩
  | error e =>
    cases accepted : accepts e with
    | true =>
      rw [recoverIf_accepted result accepted]
      exact ⟨sound.tailOf_self, failsWithin_ok _⟩
    | false =>
      have refused : v.FailsWithin mode (.error e : Except Failure (Option α)) := by
        rintro _ ⟨⟩
        exact inner.failure e result
      rw [recoverIf_refused result accepted]
      exact ⟨sound.tailOf_self, scope_within sound refused _⟩

theorem reaches_errorScope (h : p.Reaches mode k) : (errorScope p).Reaches mode k :=
  fun v sound hk => (h v sound hk).restoring sound

theorem reaches_of_keepsReports {inner : Mode} (keeps : inner.KeepsReports)
    (h : p.Reaches inner k) : p.Reaches mode k := by
  intro v sound hk
  have within := h v sound hk
  refine ⟨within.rest, fun e failed => ?_⟩
  have inside := within.failure e failed
  exact ⟨fun _ => inside.reports keeps, inside.inside⟩

theorem reaches_expect {p : Read (Option α)} (h : p.Reaches mode k) (expected : String)
    (op : Operation) : (expect mode expected op p).Reaches mode k := by
  intro v sound hk
  have inner := h v sound hk
  rcases result : (p v).result with e | _ | a
  · rw [expect_error result]
    refine ⟨sound.tailOf_self, ?_⟩
    rintro _ ⟨⟩
    exact inner.failure e result
  · rw [expect_none result]
    exact ⟨sound.tailOf_self,
      (sound.located_consumed inner.rest op expected none).failsWithin sound⟩
  · rw [expect_some result]
    exact ⟨inner.rest, failsWithin_ok a⟩

theorem reaches_expectErased {erased : Mode} (h : p.Reaches erased k) (expected : String)
    (op : Operation) : (expectErased mode expected op p).Reaches mode k := by
  intro v sound hk
  have inner := h v sound hk
  cases result : (p v).result with
  | ok a =>
    rw [expectErased_ok result]
    exact ⟨inner.rest, failsWithin_ok a⟩
  | error e =>
    rw [expectErased_error result]
    exact ⟨sound.tailOf_self, (sound.located_consumed inner.rest op expected _).failsWithin sound⟩

/-! ## Entry points -/

theorem located_trailingCause {rest : View} (hr : rest.TailOf v) :
    v.Located (trailingCause v rest) :=
  ⟨rfl, v.size - rest.size, v.size, Nat.sub_le _ _, le_rfl, hr.span_eq⟩

theorem reaches_readAll (h : p.Reaches mode k) (debug : Bool) :
    (readAll mode debug p).Reaches mode k := by
  intro v sound hk
  have inner := reaches_context h (.ofOperation .readAll) v sound hk
  refine ⟨inner.rest, fun e failed => ?_⟩
  cases result : (context (.ofOperation .readAll) p v).result with
  | error e' =>
    rw [readAll_error result] at failed
    exact inner.failure e (result.trans failed)
  | ok a =>
    rw [readAll_ok result] at failed
    split at failed
    · contradiction
    · exact (located_trailingCause inner.rest).failsWithin sound e failed

theorem reaches_readPartial (h : p.Reaches mode k) (debug : Bool) :
    (readPartial debug p).Reaches mode k := by
  intro v sound hk
  have inner := reaches_context h (.ofOperation .readPartial) v sound hk
  exact ⟨inner.rest, inner.failure.map _⟩

end Read

/-! ## Programs whose failures are the library's own -/

/-- The steps that bring no failure of the caller's along, and whose patterns, literals and foreign
parsers keep what is asked of them. -/
def Action.Native (k : Kind) : Action → Prop
  | .takeWhile p => p.Admissible k
  | .skipWhile p => p.Admissible k
  | .consume literal => k.Whole literal
  | .consumeOpt literal => k.Whole literal
  | .tryExpectExternal _ parser => parser.Native k
  | .tryTakeWhile check => check.Uses fun _ => False
  | .trySkipWhile check => check.Uses fun _ => False
  | .tryTakeStrWhile check => check.Uses fun _ => False
  | .trySkipStrWhile check => check.Uses fun _ => False
  | .fail _ => False
  | _ => True

/-- Whether the steps inside may fail if they can, and a mode that the scope sets is one of
`modes`. -/
def Scope.Checked (modes : Mode → Prop) : Scope → Prop
  | .bypass => False
  | .errorScope inner => modes inner
  | _ => True

/-- The modes that may be set inside a step, whose failures are of `modes` if they leave it. -/
def Mode.Inside (soft : Bool) (modes : Mode → Prop) (mode : Mode) : Prop := soft = true ∨ modes mode

@[simp]
theorem Mode.inside_false (modes : Mode → Prop) : Inside false modes = modes := by
  funext mode
  simp [Inside]

/-- Each step is so for the kind of view that it reads, none runs steps that can fail where none
may, and no scope lets out failures that are no reports. -/
def Program.Native (k : Kind) : Program → Prop
  | .done => True
  | .finish _ => True
  | .choose next => ∀ a, (next a).Native k
  | .repeat _ body next => body.Native k ∧ next.Native k
  | .act action _ next => action.Native k ∧ next.Native k
  | .within scope soft body next =>
    scope.Checked (Mode.Inside soft Mode.KeepsReports) ∧ body.Native (scope.bodyKind k) ∧
      next.Native k

open Read View

variable {k : Kind}

/-! ## Steps that run no program -/

theorem Action.run_reaches {a : Action} (ha : a.Native k) (last : Value) :
    (a.run mode last).Reaches mode k := by
  -- Most steps differ only in what they make of the parts of one of these cuts.
  have splitAt (n : Number) (op : Operation) :
      (ofCut fun v => v.splitAt mode n op).Reaches mode k :=
    reaches_ofCut fun v sound _ =>
      ⟨sound.splitAt_within op n, fun parts cut => (sound.splitAt_parts cut).1.tail⟩
  have splitFirst (op : Operation) :
      (ofCut fun v => v.splitFirst mode op).Reaches mode k :=
    reaches_ofCut fun v sound _ =>
      ⟨sound.splitFirst_within op, fun parts cut => sound.splitFirst_tail cut⟩
  have untilMatch (p : Pattern) (op : Operation) :
      (ofCut fun v => v.splitUntil mode p op).Reaches mode k :=
    reaches_ofCut fun v sound _ =>
      ⟨sound.splitUntil_within op p, fun parts cut => (sound.splitUntil_parts cut).tail⟩
  have pastMatch (p : Pattern) (op : Operation) :
      (ofCut fun v => v.splitUntilConsume mode p op).Reaches mode k :=
    reaches_ofCut fun v sound _ =>
      ⟨sound.splitUntilConsume_within op p,
        fun parts cut => (sound.splitUntilConsume_parts cut).tail⟩
  have whileChecked {check : View.Check} (sure : check.Uses fun _ => False) (op : Operation) :
      (ofCut fun v => v.trySplitWhile mode check op).Reaches mode k :=
    reaches_ofCut fun v sound _ =>
      ⟨trySplitWhile_within op sure, fun parts cut => (sound.trySplitWhile_parts cut).tail⟩
  have strWhile {check : View.Check} (sure : check.Uses fun _ => False) (op : Operation) :
      (ofCut fun v => v.trySplitStrWhile mode check op).Reaches mode k :=
    reaches_ofCut fun v sound _ =>
      ⟨sound.trySplitStrWhile_within op sure,
        fun parts cut => (sound.trySplitStrWhile_parts cut).tail⟩
  cases a with
  | peek n => exact reaches_look fun v sound _ => (sound.splitAt_within _ _).map _
  | peekOpt | peekEq | atEnd | remainingBytes | peekRemaining | peekU8Opt | peekCharOpt =>
    exact reaches_look fun v _ _ => failsWithin_ok _
  | peekU8 | peekChar => exact reaches_look fun v sound _ => (sound.splitFirst_within _).map _
  | take | skip | takeArray | readNum => exact reaches_map (splitAt _ _) _
  | takeOpt | skipOpt =>
    exact reaches_map (reaches_ofParts? fun v sound _ parts cut => (sound.splitAt?_parts cut).1) _
  | takeWhile p | skipWhile p =>
    refine reaches_map (reaches_ofParts fun v sound hk => ?_) _
    exact sound.splitWhile_parts (hk ▸ ha.respects)
  | takeUntil | skipUntil => exact reaches_map (untilMatch _ _) _
  | takeUntilConsume | skipUntilConsume => exact reaches_map (pastMatch _ _) _
  | takeUntilOpt | skipUntilOpt =>
    exact reaches_map (reaches_ofParts? fun v sound _ parts cut => sound.splitUntil?_parts cut) _
  | takeUntilConsumeOpt | skipUntilConsumeOpt =>
    exact reaches_map
      (reaches_ofParts? fun v sound _ parts cut => sound.splitUntilConsume?_parts cut) _
  | consume literal =>
    refine reaches_map (reaches_ofCut fun v sound hk => ?_) _
    exact ⟨sound.splitPrefix_within _ _,
      fun parts cut => (sound.splitPrefix_parts (hk ▸ ha) cut).tail⟩
  | consumeOpt literal =>
    refine reaches_map (reaches_ofParts? fun v sound hk parts cut => ?_) _
    exact sound.splitPrefix?_parts (hk ▸ ha) cut
  | takeRemaining => exact reaches_map (reaches_ofParts fun v sound _ => sound.exhausted_parts) _
  | readU8 | readChar => exact reaches_map (splitFirst _) _
  | takeRemainingStr =>
    refine reaches_map (reaches_ofCut fun v sound _ => ⟨(sound.intoText_within _).map _, ?_⟩) _
    intro parts cut
    obtain ⟨text, -, rfl⟩ := exists_ok_of_map_eq_ok cut
    exact sound.endView_tailOf
  | takeStrWhile | skipStrWhile =>
    exact reaches_map (strWhile (Action.uses_sure _ _) _) _
  | tryTakeStrWhile | trySkipStrWhile => exact reaches_map (strWhile ha _) _
  | tryTakeWhile | trySkipWhile => exact reaches_map (whileChecked ha _) _
  | tryExpectExternal expected parser =>
    refine reaches_ofCut fun v sound hk => ⟨sound.splitForeign_within _ (hk ▸ ha) expected, ?_⟩
    exact fun parts cut => (sound.splitForeign_tail cut).2
  | fail => exact ha.elim

/-! ## Steps that run a program -/

namespace Part

theorem split_within (sound : v.Sound) (part : Part) (last : Value) :
    v.FailsWithin mode (part.split mode last v) := by
  unfold split
  split
  · exact sound.splitAt_within _ _
  · exact failsWithin_ok _

theorem convert_within {head : View} (sound : head.Sound) (part : Part) :
    head.FailsWithin mode (part.convert mode head) := by
  have settled : (if part.bound then head.intoBound else head).PartOf head := by
    split
    · exact sound.partOf_self.intoBound
    · exact sound.partOf_self
  unfold convert
  cases part.kind with
  | none => exact failsWithin_ok _
  | some k =>
    cases k with
    | bytes => exact failsWithin_ok _
    | text => exact (settled.sound.intoText_within _).trans settled

theorem take_reaches (part : Part) (last : Value) : (part.take mode last).Reaches mode k := by
  intro v sound hk
  have within : v.FailsWithin mode (part.split mode last v) := split_within sound part last
  unfold take
  cases cut : part.split mode last v with
  | error e =>
    refine ⟨sound.tailOf_self, ?_⟩
    rintro _ ⟨⟩
    exact within e cut
  | ok parts =>
    obtain ⟨head, tail⟩ := parts
    have parted := (split_parts sound cut).1
    exact ⟨parted.tail, (convert_within parted.head.sound part).trans parted.head⟩

theorem within_reaches (part : Part) {body : Read Value} (h : body.Reaches mode k)
    (debug : Bool) : (part.within mode debug body).Reaches mode k := by
  unfold within
  split
  · exact reaches_readAll h debug
  · exact reaches_map (reaches_readPartial h debug) _

theorem read_reaches (part : Part) {body : Read Value} (h : body.Reaches mode (part.kind.getD k))
    (debug : Bool) (last : Value) : (part.read mode debug last body).Reaches mode k := by
  intro v sound hk
  have taken : (part.take mode last v).Reaches mode v := take_reaches part last v sound hk
  unfold read
  simp only
  split
  · rename_i e failed
    refine ⟨taken.rest, ?_⟩
    rintro _ ⟨⟩
    exact taken.failure e failed
  · rename_i u found
    have kept := part.take_keeps mode last v sound.partOf_self hk
    obtain ⟨inside, kind⟩ := kept.value u found
    have inner := within_reaches part h debug u inside.sound kind
    exact ⟨taken.rest, inner.failure.trans inside⟩

end Part

theorem Scope.run_reaches {scope : Scope} (checked : scope.Checked Mode.KeepsReports)
    {body : Mode → Read Value} (h : ∀ m, (body m).Reaches m (scope.bodyKind k)) (debug : Bool)
    (last : Value) : (scope.run mode debug last body).Reaches mode k := by
  cases scope with
  | context f => exact reaches_context (h mode) f
  | peekContext f => exact reaches_peekContext (h mode) f
  | takeConsumed => exact reaches_map (reaches_takeConsumed (h mode)) _
  | tryTakeConsumed => exact reaches_map (reaches_tryTakeConsumed (h mode)) _
  | recover => exact reaches_map (reaches_recover (h mode)) _
  | recoverIf accepts => exact reaches_map (reaches_recoverIf (h mode) accepts) _
  | errorScope inner => exact reaches_of_keepsReports checked (reaches_errorScope (h inner))
  | verify expected | expect expected =>
    exact reaches_expect (reaches_map (reaches_unfailing (h mode)) _) expected _
  | tryVerify expected | tryExpect expected =>
    exact reaches_expect (reaches_map (h mode) _) expected _
  | tryExpectErased expected => exact reaches_expectErased (h .invalid) expected _
  | sub part => exact part.read_reaches (h mode) debug last
  | bypass => exact checked.elim

theorem Scope.exists_reaches {scope : Scope} {modes : Mode → Prop} (checked : scope.Checked modes)
    {body : Mode → Read Value}
    (h : ∀ m, (body m).Reaches m (scope.bodyKind k)) (mode : Mode) (debug : Bool) (last : Value) :
    ∃ inner, (scope.run mode debug last body).Reaches inner k := by
  cases scope with
  | errorScope inner => exact ⟨inner, reaches_errorScope (h inner)⟩
  | bypass => exact checked.elim
  | _ => exact ⟨mode, run_reaches (by trivial) h debug last⟩

/-! ## Programs -/

namespace Program

theorem rounds_reaches {body : Read Value} (h : body.Reaches mode k) (most : Nat) :
    (rounds body most).Reaches mode k := by
  induction most with
  | zero => exact reaches_pure []
  | succ most ih =>
    intro v sound hk
    unfold rounds
    split
    · exact reaches_pure [] v sound hk
    · exact reaches_andThen h (fun a => reaches_map ih _) v sound hk

theorem step_reaches {p : Read Value} (h : p.Reaches mode k) (depth : Nat) (name : String)
    (soft : Bool) : (step depth name soft p).Reaches mode k := by
  unfold step
  split
  · exact reaches_unfailing (reaches_recorded h depth name)
  · exact reaches_recorded h depth name

theorem soft_step_reaches {p : Read Value} {inner : Mode} (h : p.Reaches inner k) (depth : Nat)
    (name : String) : (step depth name true p).Reaches mode k :=
  reaches_unfailing (reaches_recorded h depth name)

theorem run_reaches {p : Program} (hp : p.Native k) (debug : Bool) (mode : Mode) (depth : Nat)
    (last : Value) : (p.run debug mode depth last).Reaches mode k := by
  -- By induction on the program: what a step records lies in the view it started at, which is an
  -- end of the one that the program started at.
  induction p generalizing k mode depth last with
  | done => exact reaches_pure last
  | finish a => exact reaches_pure a
  | choose next ih => exact ih last (hp last) mode depth last
  | «repeat» most body next ihBody ihNext =>
    refine reaches_andThen (rounds_reaches (ihBody hp.1 mode _ _) most) fun values => ?_
    exact ihNext hp.2 mode depth _
  | act action soft next ih =>
    refine reaches_andThen (step_reaches (action.run_reaches hp.1 last) _ _ _) fun a => ?_
    exact ih hp.2 mode depth a
  | within scope soft body next ihBody ihNext =>
    obtain ⟨checked, hbody, hnext⟩ := hp
    have inner (m : Mode) := ihBody hbody m (depth + 1) .absent
    refine reaches_andThen ?_ fun a => ihNext hnext mode depth a
    cases soft with
    | true =>
      obtain ⟨_, reach⟩ := scope.exists_reaches checked inner mode debug last
      exact soft_step_reaches reach depth _
    | false =>
      rw [Mode.inside_false] at checked
      exact step_reaches (Scope.run_reaches checked inner debug last) _ _ _

end Program

/-! ## Entry points -/

namespace Read

variable {α : Type} {p : Read α} {e : Failure} {r : Report}

theorem input_eq_of_context (h : p.Reaches mode k) (sound : v.Sound) (hk : v.kind = k) (f : Frame)
    (failed : (context f p v).result = .error (.report r)) : r.input = v := by
  have inner := (h v sound hk).failure
  change scope v f (p v).result = _ at failed
  unfold scope at failed
  split at failed
  · contradiction
  · rename_i e found
    exact ((inner e found).leave sound f).2 r (Except.error.inj failed)

theorem eq_error_of_map_eq_error {β : Type} {f : α → β} {r : Except Failure α}
    (h : r.map f = .error e) : r = .error e := by
  cases r with
  | ok a => contradiction
  | error e' => exact congrArg _ (Except.error.inj h)

theorem input_eq_of_readAll (h : p.Reaches mode k) (sound : v.Sound) (hk : v.kind = k)
    (debug : Bool) (failed : (readAll mode debug p v).result = .error (.report r)) :
    r.input = v := by
  cases result : (context (.ofOperation .readAll) p v).result with
  | error e =>
    rw [readAll_error result] at failed
    exact input_eq_of_context h sound hk _ (result.trans failed)
  | ok a =>
    rw [readAll_ok result] at failed
    split at failed
    · contradiction
    · cases mode <;> simp only [Mode.raise, Except.error.injEq, Failure.report.injEq,
        reduceCtorEq] at failed
      all_goals rw [← failed]; rfl

end Read

/-- Under a mode that keeps reports, a failed entry yields one that names the input it was entered
at. Its cause lies in that input. -/
theorem Entry.exists_report (sound : v.Sound) {p : Program} (hp : p.Native v.kind) {entry : Entry}
    (fallible : entry ≠ .infallible) (keeps : mode = .root ∨ mode = .full) {debug : Bool}
    {depth : Nat} {e : Failure} (failed : (entry.run debug mode depth p v).result = .error e) :
    ∃ r, e = .report r ∧ r.input = v ∧ r.Within v := by
  have body := p.run_reaches hp debug mode depth .absent
  cases entry with
  | infallible => contradiction
  | all =>
    have within := (reaches_readAll body debug v sound rfl).failure e failed
    obtain ⟨r, rfl⟩ := within.reports keeps
    exact ⟨r, rfl, input_eq_of_readAll body sound rfl debug failed, within.inside r rfl⟩
  | part =>
    have within := ((reaches_readPartial body debug v sound rfl).failure.map _) e failed
    obtain ⟨r, rfl⟩ := within.reports keeps
    -- Neither pairing the value with the rest nor listing the two touches the failure.
    have inner := eq_error_of_map_eq_error (eq_error_of_map_eq_error failed)
    exact ⟨r, rfl, input_eq_of_context body sound rfl _ inner, within.inside r rfl⟩

end Untrusted
