import Mathlib
import Untrusted.Proofs.Course
import Untrusted.Proofs.Widening

/-!
# Reading all of an input, and reading its start

The two entry points at which a program may fail run it in the same way. They differ in what they
make of input that is left, and in the name of the scope that a failure leaves last.
-/

namespace Untrusted

variable {mode : Mode} {modes : Mode → Prop}

/-! ## Failures of some modes -/

def Failure.Under (modes : Mode → Prop) (e : Failure) : Prop :=
  ∃ m, modes m ∧ ∃ o : Origin, e = o.under m

def Read.FailsUnder {α : Type} (modes : Mode → Prop) (p : Read α) : Prop :=
  ∀ v e, (p v).result = .error e → e.Under modes

theorem Failure.Under.leave {e : Failure} (h : e.Under modes) (offered : ∀ m, modes m → m.Offered)
    (f : Frame) (v : View) : (e.leave f v).Under modes := by
  obtain ⟨m, hm, o, rfl⟩ := h
  exact ⟨m, hm, _, Origin.leave_under (offered m hm) o f v⟩

theorem Alike.failsUnder {α : Type} {r : Mode → Except Failure α} (h : Alike r) (hm : modes mode)
    (offered : ∀ m, modes m → m.Offered) {e : Failure} (failed : r mode = .error e) :
    e.Under modes := by
  rcases h.ok_or_error with ⟨a, ok⟩ | ⟨o, error⟩
  · rw [ok mode (offered mode hm)] at failed
    contradiction
  · rw [error mode (offered mode hm)] at failed
    exact ⟨mode, hm, o, (Except.error.inj failed).symm⟩

namespace Read

variable {α β : Type} {p : Read α}

theorem failsUnder_pure (a : α) : (pure a).FailsUnder modes := by
  intro v e failed
  contradiction

theorem failsUnder_map (h : p.FailsUnder modes) (f : α → β) : (map f p).FailsUnder modes :=
  fun v e failed => h v e (eq_error_of_map_eq_error failed)

theorem failsUnder_andThen {next : α → Read β} (h : p.FailsUnder modes)
    (hnext : ∀ a, (next a).FailsUnder modes) : (andThen p next).FailsUnder modes := by
  intro v e failed
  cases result : (p v).result with
  | error e' =>
    rw [andThen_error result] at failed
    exact Except.error.inj failed ▸ h v e' result
  | ok a =>
    rw [andThen_ok result] at failed
    exact hnext a _ e failed

theorem failsUnder_unfailing (p : Read Value) : (unfailing p).FailsUnder modes := by
  intro v e failed
  contradiction

theorem result_restoring (o : Outcome α) (v : View) : (o.restoring v).result = o.result := by
  unfold Outcome.restoring
  split <;> rfl

theorem failsUnder_errorScope (h : p.FailsUnder modes) : (errorScope p).FailsUnder modes := by
  intro v e failed
  rw [errorScope, result_restoring] at failed
  exact h v e failed

theorem failsUnder_tryTakeConsumed (h : p.FailsUnder modes) :
    (tryTakeConsumed p).FailsUnder modes := by
  intro v e failed
  rw [tryTakeConsumed, result_restoring] at failed
  exact h v e (eq_error_of_map_eq_error failed)

theorem failsUnder_recover (p : Read α) : (recover p).FailsUnder modes := by
  intro v e failed
  cases result : (p v).result with
  | ok a =>
    rw [recover_ok result] at failed
    contradiction
  | error e' =>
    rw [recover_error result] at failed
    contradiction

section

variable (offered : ∀ m, modes m → m.Offered)

include offered

theorem failsUnder_context (h : p.FailsUnder modes) (f : Frame) :
    (context f p).FailsUnder modes := by
  intro v e failed
  change scope v f (p v).result = _ at failed
  unfold scope at failed
  split at failed
  · contradiction
  · rename_i inner found
    exact Except.error.inj failed ▸ (h v inner found).leave offered f v

theorem failsUnder_recoverIf (h : p.FailsUnder modes) (accepts : Failure → Bool) :
    (recoverIf accepts p).FailsUnder modes := by
  intro v e failed
  cases result : (p v).result with
  | ok a =>
    rw [recoverIf_ok result] at failed
    contradiction
  | error e' =>
    cases accepted : accepts e' with
    | true =>
      rw [recoverIf_accepted result accepted] at failed
      contradiction
    | false =>
      rw [recoverIf_refused result accepted] at failed
      exact Except.error.inj failed ▸ (h v e' result).leave offered _ v

theorem failsUnder_readPartial (h : p.FailsUnder modes) (debug : Bool) :
    (readPartial debug p).FailsUnder modes := by
  intro v e failed
  exact failsUnder_context offered h (.ofOperation .readPartial) v e
    (eq_error_of_map_eq_error failed)

variable (hm : modes mode)

include hm

theorem failsUnder_expect {p : Read (Option α)} (h : p.FailsUnder modes) (expected : String)
    (op : Operation) : (expect mode expected op p).FailsUnder modes := by
  intro v e failed
  cases result : (p v).result with
  | error e' =>
    rw [expect_error result] at failed
    exact Except.error.inj failed ▸ h v e' result
  | ok found =>
    cases found with
    | some a =>
      rw [expect_some result] at failed
      contradiction
    | none =>
      rw [expect_none result] at failed
      exact (alike_raise _).failsUnder hm offered failed

theorem failsUnder_expectErased (p : Read α) (expected : String) (op : Operation) :
    (expectErased mode expected op p).FailsUnder modes := by
  intro v e failed
  cases result : (p v).result with
  | ok a =>
    rw [expectErased_ok result] at failed
    contradiction
  | error e' =>
    rw [expectErased_error result] at failed
    exact (alike_raise _).failsUnder hm offered failed

theorem failsUnder_readAll (h : p.FailsUnder modes) (debug : Bool) :
    (readAll mode debug p).FailsUnder modes := by
  intro v e failed
  cases result : (context (.ofOperation .readAll) p v).result with
  | error e' =>
    rw [readAll_error result] at failed
    exact failsUnder_context offered h _ v e (result.trans failed)
  | ok a =>
    rw [readAll_ok result] at failed
    split at failed
    · contradiction
    · exact (alike_raise _).failsUnder hm offered failed

end

end Read

/-! ## Programs -/

/-- No step runs steps that can fail where none may, and a failure that leaves one is of the mode
around it or of one of `modes`. -/
def Program.Checked (modes : Mode → Prop) : Program → Prop
  | .done => True
  | .finish _ => True
  | .choose next => ∀ a, (next a).Checked modes
  | .repeat _ body next => body.Checked modes ∧ next.Checked modes
  | .act _ _ next => next.Checked modes
  | .within scope soft body next =>
    scope.Checked (Mode.Inside soft modes) ∧ body.Checked (Mode.Inside soft modes) ∧
      next.Checked modes

open Read

section

variable (offered : ∀ m, modes m → m.Offered) (hm : modes mode)

include offered hm

theorem Part.read_failsUnder (part : Part) (debug : Bool) (last : Value) {body : Read Value}
    (h : body.FailsUnder modes) : (part.read mode debug last body).FailsUnder modes := by
  have within : (part.within mode debug body).FailsUnder modes := by
    unfold Part.within
    split
    · exact failsUnder_readAll offered hm h debug
    · exact failsUnder_map (failsUnder_readPartial offered h debug) _
  intro v e failed
  unfold Part.read at failed
  simp only at failed
  split at failed
  · rename_i e' taken
    rw [← Except.error.inj failed]
    exact (part.take_uniform last v).result.failsUnder hm offered taken
  · exact within _ e failed

theorem Scope.run_failsUnder {scope : Scope} (checked : scope.Checked modes) (debug : Bool)
    (last : Value) {body : Mode → Read Value} (h : ∀ m, modes m → (body m).FailsUnder modes) :
    (scope.run mode debug last body).FailsUnder modes := by
  have inner := h mode hm
  cases scope with
  | context f | peekContext f => exact failsUnder_context offered inner f
  | takeConsumed =>
    intro v e failed
    contradiction
  | tryTakeConsumed => exact failsUnder_map (failsUnder_tryTakeConsumed inner) _
  | recover => exact failsUnder_map (failsUnder_recover _) _
  | recoverIf accepts => exact failsUnder_map (failsUnder_recoverIf offered inner accepts) _
  | errorScope m => exact failsUnder_errorScope (h m checked)
  | verify expected | expect expected =>
    exact failsUnder_expect offered hm (failsUnder_map (failsUnder_unfailing _) _) expected _
  | tryVerify expected | tryExpect expected =>
    exact failsUnder_expect offered hm (failsUnder_map inner _) expected _
  | tryExpectErased expected => exact failsUnder_expectErased offered hm _ expected _
  | sub part => exact part.read_failsUnder offered hm debug last inner
  | bypass => exact checked.elim

end

namespace Program

theorem rounds_failsUnder {body : Read Value} (h : body.FailsUnder modes) (most : Nat) :
    (rounds body most).FailsUnder modes := by
  induction most with
  | zero => exact failsUnder_pure []
  | succ most ih =>
    intro v
    unfold rounds
    split
    · exact failsUnder_pure [] v
    · exact failsUnder_andThen h (fun a => failsUnder_map ih _) v

theorem step_failsUnder {p : Read Value} {soft : Bool} (h : soft = false → p.FailsUnder modes)
    (depth : Nat) (name : String) : (step depth name soft p).FailsUnder modes := by
  cases soft with
  | true => exact failsUnder_unfailing _
  | false => exact fun v e failed => h rfl v e failed

theorem run_failsUnder (offered : ∀ m, modes m → m.Offered) (hm : modes mode) {p : Program}
    (hp : p.Checked modes) (debug : Bool) (depth : Nat) (last : Value) :
    (p.run debug mode depth last).FailsUnder modes := by
  -- By induction on the program: a failure of a mode that is none of `modes` stays inside a soft
  -- step.
  induction p generalizing mode depth last with
  | done => exact failsUnder_pure last
  | finish a => exact failsUnder_pure a
  | choose next ih => exact ih last hm (hp last) depth last
  | «repeat» most body next ihBody ihNext =>
    refine failsUnder_andThen (rounds_failsUnder (ihBody hm hp.1 _ _) most) fun _ => ?_
    exact ihNext hm hp.2 depth _
  | act action soft next ih =>
    refine failsUnder_andThen (step_failsUnder (fun _ v e failed => ?_) _ _) fun a =>
      ih hm hp depth a
    exact (action.run_uniform last v).result.failsUnder hm offered failed
  | within scope soft body next ihBody ihNext =>
    obtain ⟨checked, hbody, hnext⟩ := hp
    refine failsUnder_andThen (step_failsUnder ?_ _ _) fun a => ihNext hm hnext depth a
    rintro rfl
    rw [Mode.inside_false] at checked hbody
    exact Scope.run_failsUnder offered hm checked debug last fun m hm =>
      ihBody hm hbody (depth + 1) .absent

end Program

/-! ## The two entry points -/

/-- Failures that differ at most in the frame of the scope they left last: `f` of one, `f'` of the
other. Under a mode that keeps one frame or none they do not differ at all. -/
structure Failure.DifferIn (mode : Mode) (f f' : Frame) (e e' : Failure) : Prop where
  requirement : e'.requirement = e.requirement
  isFatal : e'.isFatal = e.isFatal
  reports : mode = .root ∨ mode = .full → ∃ r r', e = .report r ∧ e' = .report r' ∧
    r'.cause = r.cause ∧ r'.span = r.span ∧ r'.input = r.input
  frames : mode = .full → ∀ r r', e = .report r → e' = .report r' → ∃ inner,
    r.backtrace.frames = f :: inner ∧ r'.backtrace.frames = f' :: inner
  same : mode ≠ .full → e' = e

theorem Origin.differIn_push (hm : mode.Offered) (o : Origin) (f f' : Frame) :
    ((o.push f).under mode).DifferIn mode f f' ((o.push f').under mode) := by
  cases hm
  case full =>
    refine ⟨rfl, rfl, fun _ => ⟨_, _, rfl, rfl, rfl, rfl, rfl⟩, ?_, fun ne => absurd rfl ne⟩
    rintro _ r r' ⟨⟩ ⟨⟩
    exact ⟨_, rfl, rfl⟩
  case root =>
    exact ⟨rfl, rfl, fun _ => ⟨_, _, rfl, rfl, rfl, rfl, rfl⟩, by simp, fun _ => rfl⟩
  all_goals exact ⟨rfl, rfl, by simp, by simp, fun _ => rfl⟩

theorem Origin.widen_push (o : Origin) (f : Frame) (v : View) :
    (o.push f).widen v = (o.widen v).push f := by
  cases inside : o.input.span.isWithin v.span <;> simp [widen, push, inside]

theorem Read.trailingCause_isFatal (v rest : View) : (trailingCause v rest).isFatal = true := by
  simp [Cause.isFatal, trailingCause]

namespace Entry

variable {p : Program} {debug : Bool} {depth : Nat} {v : View}

theorem results_of_ok {a : Value} (h : (p.start debug mode depth v).result = .ok a) :
    let rest := (p.start debug mode depth v).rest
    (part.run debug mode depth p v).result = .ok (.list [a, .view rest]) ∧
      (all.run debug mode depth p v).result =
        if rest.isEmpty then .ok a else .error (mode.raise (Read.trailingCause v rest)) := by
  intro rest
  have read (f : Frame) : (Read.context f (p.start debug mode depth) v).result = .ok a := by
    change scope v f (p.start debug mode depth v).result = _
    rw [h]
    rfl
  refine ⟨?_, Read.readAll_ok (read _)⟩
  change ((Read.context (.ofOperation .readPartial) _ v).result.map _).map _ = _
  rw [read]
  rfl

theorem results_of_error {e : Failure} (h : (p.start debug mode depth v).result = .error e) :
    (part.run debug mode depth p v).result = .error (e.leave (.ofOperation .readPartial) v) ∧
      (all.run debug mode depth p v).result = .error (e.leave (.ofOperation .readAll) v) := by
  have left (f : Frame) :
      (Read.context f (p.start debug mode depth) v).result = .error (e.leave f v) := by
    change scope v f (p.start debug mode depth v).result = _
    rw [h]
    rfl
  refine ⟨?_, Read.readAll_error (left _)⟩
  change ((Read.context (.ofOperation .readPartial) _ v).result.map _).map _ = _
  rw [left]
  rfl

/-- A program reads all of an input exactly if it reads its start and leaves nothing. What it leaves
otherwise is too much input. A program that fails does so at both entry points, with failures that
differ at most in the name of the entry point. Either way its steps are the same. -/
theorem all_part_agree (hm : mode.Offered) (hp : p.Checked (· = mode)) (debug : Bool) (depth : Nat)
    (v : View) :
    let whole := all.run debug mode depth p v
    let start := part.run debug mode depth p v
    (∀ a, whole.result = .ok a ↔
      ∃ rest, start.result = .ok (.list [a, .view rest]) ∧ rest.isEmpty = true) ∧
    (∀ b, start.result = .ok b → ∃ a rest, b = .list [a, .view rest] ∧
      (rest.isEmpty = false → ∃ e, whole.result = .error e ∧ e.Final ∧
        (mode = .root ∨ mode = .full → ∃ r, e = .report r ∧
          r.cause.expectation = .length 0 (some 0) ∧ r.span = rest.span ∧ r.cause.input = v ∧
          r.input = v))) ∧
    (∀ e, start.result = .error e → ∃ e', whole.result = .error e' ∧
      e.DifferIn mode (.ofOperation .readPartial) (.ofOperation .readAll) e') ∧
    whole.rest = start.rest ∧ Event.steps whole.events = Event.steps start.events := by
  intro whole start
  have steps : Event.steps whole.events = Event.steps start.events := by
    change Event.steps ((p.start debug mode depth v).events ++ Read.failureLines _ _ _) =
      Event.steps ((p.start debug mode depth v).events ++ Read.failureLines _ _ _)
    simp only [Event.steps_append, Read.steps_failureLines]
  cases result : (p.start debug mode depth v).result with
  | ok a =>
    obtain ⟨given, read⟩ := results_of_ok result
    rw [given, read]
    refine ⟨fun b => ?_, ?_, by simp, rfl, steps⟩
    · cases empty : (p.start debug mode depth v).rest.isEmpty with
      | true => simp [empty]
      | false => simp [empty]
    · rintro _ ⟨⟩
      refine ⟨a, _, rfl, fun left => ⟨_, if_neg (by simp [left]), ?_, ?_⟩⟩
      · exact (Failure.of_raise mode _).final (Read.trailingCause_isFatal v _)
      · rintro (rfl | rfl)
        · exact ⟨_, rfl, rfl, rfl, rfl, rfl⟩
        · exact ⟨_, rfl, rfl, rfl, rfl, rfl⟩
  | error e =>
    have offered : ∀ m, m = mode → m.Offered := by
      rintro m rfl
      exact hm
    have under := Program.run_failsUnder offered rfl hp debug depth .absent
    obtain ⟨_, rfl, o, rfl⟩ := under v e result
    obtain ⟨given, read⟩ := results_of_error result
    rw [given, read]
    refine ⟨by simp, by simp, ?_, rfl, steps⟩
    rintro _ ⟨⟩
    refine ⟨_, rfl, ?_⟩
    rw [Origin.leave_under hm, Origin.leave_under hm, Origin.widen_push, Origin.widen_push]
    exact Origin.differIn_push hm _ _ _

/-- A scope of a program that asks for more than there is, with every frame kept. -/
theorem all_part_agree_scope :
    let p : Program :=
      .within (.context (.named "pair")) false (.act (.take (.given 3)) false .done) .done
    let v := View.ofSource (.ofBytes 0 [1, 2]) .bytes
    Mode.full.Offered ∧ p.Checked (· = .full) ∧
      ∃ e e', (part.run true .full 0 p v).result = .error e ∧
      (all.run true .full 0 p v).result = .error e' ∧
      e.DifferIn .full (.ofOperation .readPartial) (.ofOperation .readAll) e' := by
  intro p v
  have checked : p.Checked (· = .full) := ⟨trivial, trivial, trivial⟩
  have failed : ∃ e, (part.run true .full 0 p v).result = .error e := ⟨_, rfl⟩
  obtain ⟨e, failed⟩ := failed
  obtain ⟨e', read, differ⟩ := (all_part_agree .full checked true 0 v).2.2.1 e failed
  exact ⟨.full, checked, e, e', failed, read, differ⟩

end Entry
end Untrusted
