import Mathlib
import Untrusted.Proofs.Reader

/-!
# Failed reads give back what they read

A step that fails leaves the reader at the view where it started, bound and all, whatever it read
before it failed. Three steps do not: a context passes its reader on as it is, a part that was taken
stays taken, and a bypass runs its program as if it could not fail.
-/

namespace Untrusted

/-! ## Reads -/

/-- If it fails, it stands where it started. -/
def Read.Restores {α : Type} (p : Read α) : Prop :=
  ∀ v e, (p v).result = .error e → (p v).rest = v

namespace Read

variable {α β : Type}

theorem rest_restoring {o : Outcome α} {v : View} {e : Failure}
    (h : (o.restoring v).result = .error e) : (o.restoring v).rest = v := by
  unfold Outcome.restoring at *
  split at h
  · simp_all
  · rfl

theorem restores_ofCut (cut : View → Except Failure (α × View)) : (ofCut cut).Restores := by
  intro v e failed
  unfold ofCut at *
  split at failed
  · simp at failed
  · rfl

theorem restores_look (f : View → Except Failure α) : (look f).Restores := by
  intro v e failed
  rfl

theorem restores_map {p : Read α} (h : p.Restores) (f : α → β) : (map f p).Restores := by
  intro v e failed
  cases result : (p v).result with
  | error e => exact h v e result
  | ok a => simp [map, Outcome.map, result, Except.map] at failed

theorem restores_of_ok {p : Read α} (h : ∀ v, ∃ a, (p v).result = .ok a) : p.Restores := by
  intro v e failed
  obtain ⟨a, result⟩ := h v
  rw [result] at failed
  contradiction

theorem restores_peekContext (f : Frame) (p : Read α) : (peekContext f p).Restores := by
  intro v e failed
  rfl

theorem restores_tryTakeConsumed (p : Read α) : (tryTakeConsumed p).Restores := by
  intro v e failed
  exact rest_restoring failed

theorem restores_recover (p : Read α) : (recover p).Restores := by
  apply restores_of_ok
  intro v
  cases result : (p v).result with
  | ok a => exact ⟨some a, by rw [recover_ok result]⟩
  | error e => exact ⟨none, by rw [recover_error result]⟩

theorem restores_recoverIf (accepts : Failure → Bool) (p : Read α) :
    (recoverIf accepts p).Restores := by
  intro v e failed
  cases result : (p v).result with
  | ok a => simp [recoverIf_ok result] at failed
  | error f =>
    cases accepted : accepts f with
    | true => rw [recoverIf_accepted result accepted]
    | false => rw [recoverIf_refused result accepted]

theorem restores_errorScope (p : Read α) : (errorScope p).Restores := by
  intro v e failed
  exact rest_restoring failed

theorem restores_expect (mode : Mode) (expected : String) (op : Operation) (p : Read (Option α)) :
    (expect mode expected op p).Restores := by
  intro v e failed
  exact rest_restoring failed

theorem restores_expectErased (mode : Mode) (expected : String) (op : Operation) (p : Read α) :
    (expectErased mode expected op p).Restores := by
  intro v e failed
  exact rest_restoring failed

end Read

/-! ## Steps -/

open Read

theorem Action.run_restores (a : Action) (mode : Mode) (last : Value) :
    (a.run mode last).Restores := by
  cases a
  all_goals unfold Action.run
  all_goals first
    | exact restores_look _
    | exact restores_ofCut _
    | exact restores_map (restores_ofCut _) _

namespace Scope

/-- The names of the scopes that may fail beyond their start. -/
def advancing : List String := ["context", "sub", "bypass"]

theorem run_restores {scope : Scope} (h : scope.name ∉ advancing) (mode : Mode) (debug : Bool)
    (last : Value) (body : Mode → Read Value) : (scope.run mode debug last body).Restores := by
  cases scope with
  | context | sub | bypass => simp [name, advancing] at h
  | peekContext f => exact restores_peekContext f _
  | takeConsumed => exact restores_of_ok fun v => ⟨_, rfl⟩
  | tryTakeConsumed => exact restores_map (restores_tryTakeConsumed _) _
  | recover => exact restores_map (restores_recover _) _
  | recoverIf accepts => exact restores_map (restores_recoverIf accepts _) _
  | errorScope inner => exact restores_errorScope _
  | verify expected | tryVerify expected => exact restores_expect mode expected _ _
  | expect expected | tryExpect expected => exact restores_expect mode expected _ _
  | tryExpectErased expected => exact restores_expectErased mode expected _ _

def Swallows (e : Failure) : Scope → Prop
  | recover => True
  | recoverIf accepts => accepts e = true
  | _ => False

/-- A failure that is swallowed leaves no trace but the events on the way to it. -/
theorem run_swallowed {scope : Scope} {e : Failure} (h : scope.Swallows e) {mode : Mode}
    {body : Mode → Read Value} {v : View} (failed : (body mode v).result = .error e)
    (debug : Bool) (last : Value) :
    scope.run mode debug last body v = ⟨.ok .absent, v, (body mode v).events⟩ := by
  cases scope with
  | recover =>
    simp only [run, map, recover_error failed]
    rfl
  | recoverIf accepts =>
    simp only [run, map, recoverIf_accepted failed h]
    rfl
  | _ => contradiction

end Scope

/-! ## The steps of a run -/

def Read.Records {α : Type} (P : Step → Prop) (p : Read α) : Prop :=
  ∀ v, ∀ s ∈ Event.steps (p v).events, P s

namespace Read

variable {α β : Type} {P : Step → Prop}

theorem records_pure (a : α) : (pure a).Records P := by
  intro v s hs
  simp [pure] at hs

theorem records_map {p : Read α} (h : p.Records P) (f : α → β) : (map f p).Records P := h

theorem records_andThen {p : Read α} {next : α → Read β} (h : p.Records P)
    (hnext : ∀ a, (next a).Records P) : (andThen p next).Records P := by
  intro v s hs
  cases result : (p v).result with
  | error e =>
    rw [andThen_error result] at hs
    exact h v s hs
  | ok a =>
    rw [andThen_ok result, Event.steps_append, List.mem_append] at hs
    rcases hs with earlier | later
    · exact h v s earlier
    · exact hnext a _ s later

theorem records_recorded {p : Read Value} (h : p.Records P) {depth : Nat} {name : String}
    (hp : ∀ v, P ⟨depth, name, v, (p v).rest, (p v).result⟩) :
    (recorded depth name p).Records P := by
  intro v s hs
  unfold recorded at hs
  rw [Event.steps_append, Event.steps_step, List.mem_append, List.mem_singleton] at hs
  rcases hs with earlier | rfl
  · exact h v s earlier
  · exact hp v

theorem records_recover {p : Read α} (h : p.Records P) : (recover p).Records P := by
  intro v s hs
  cases result : (p v).result with
  | ok a =>
    rw [recover_ok result] at hs
    exact h v s hs
  | error e =>
    rw [recover_error result] at hs
    exact h v s hs

theorem records_recoverIf {p : Read α} (h : p.Records P) (accepts : Failure → Bool) :
    (recoverIf accepts p).Records P := by
  intro v s hs
  cases result : (p v).result with
  | ok a =>
    rw [recoverIf_ok result] at hs
    exact h v s hs
  | error e =>
    cases accepted : accepts e with
    | true =>
      rw [recoverIf_accepted result accepted] at hs
      exact h v s hs
    | false =>
      rw [recoverIf_refused result accepted] at hs
      exact h v s hs

theorem events_restoring (o : Outcome α) (v : View) : (o.restoring v).events = o.events := by
  unfold Outcome.restoring
  split <;> rfl

theorem records_restoring {p : Read α} (h : p.Records P) {q : Read β}
    (events : ∀ v, ∃ o : Outcome β, q v = o.restoring v ∧ o.events = (p v).events) :
    q.Records P := by
  intro v s hs
  obtain ⟨o, same, inner⟩ := events v
  rw [same, events_restoring, inner] at hs
  exact h v s hs

theorem records_readAll {p : Read α} (h : p.Records P) (mode : Mode) (debug : Bool) :
    (readAll mode debug p).Records P := by
  intro v s hs
  simp only [readAll, Event.steps_append, steps_failureLines, List.append_nil] at hs
  exact h v s hs

theorem records_readPartial {p : Read α} (h : p.Records P) (debug : Bool) :
    (readPartial debug p).Records P := by
  intro v s hs
  simp only [readPartial, Event.steps_append, steps_failureLines, List.append_nil] at hs
  exact h v s hs

end Read

theorem Action.run_records {P : Step → Prop} (a : Action) (mode : Mode) (last : Value) :
    (a.run mode last).Records P := by
  have cut {α : Type} (cut : View → Except Failure (α × View)) : (ofCut cut).Records P := by
    intro v s hs
    unfold ofCut at hs
    split at hs
    · simp at hs
    · simp at hs
  have look {α : Type} (f : View → Except Failure α) : (look f).Records P := by
    intro v s hs
    simp [Read.look] at hs
  cases a
  all_goals unfold Action.run
  all_goals first
    | exact look _
    | exact cut _
    | exact records_map (cut _) _

theorem Part.read_records {P : Step → Prop} {body : Read Value} (h : body.Records P) (part : Part)
    (mode : Mode) (debug : Bool) (last : Value) : (part.read mode debug last body).Records P := by
  have within : (part.within mode debug body).Records P := by
    unfold Part.within
    split
    · exact records_readAll h mode debug
    · exact records_map (records_readPartial h debug) _
  intro v s hs
  unfold Part.read at hs
  simp only at hs
  split at hs
  · simp at hs
  · exact within _ s hs

theorem Scope.run_records {P : Step → Prop} {body : Mode → Read Value}
    (h : ∀ m, (body m).Records P) (scope : Scope) (mode : Mode) (debug : Bool) (last : Value) :
    (scope.run mode debug last body).Records P := by
  -- The scopes that may go back to their start keep the steps of the read they take back.
  cases scope with
  | context | peekContext | takeConsumed => exact h mode
  | tryTakeConsumed =>
    have tried : (Read.tryTakeConsumed (body mode)).Records P :=
      records_restoring (h mode) fun v => ⟨_, rfl, rfl⟩
    exact records_map tried _
  | verify | tryVerify | expect | tryExpect =>
    exact records_restoring (h mode) fun v => ⟨_, rfl, rfl⟩
  | recover => exact records_map (records_recover (h mode)) _
  | recoverIf accepts => exact records_map (records_recoverIf (h mode) accepts) _
  | errorScope inner => exact records_restoring (h inner) fun v => ⟨_, rfl, rfl⟩
  | tryExpectErased => exact records_restoring (h .invalid) fun v => ⟨_, rfl, rfl⟩
  | sub part => exact part.read_records (h mode) mode debug last
  | bypass => exact h .infallible

namespace Program

theorem rounds_records {P : Step → Prop} {body : Read Value} (h : body.Records P) (most : Nat) :
    (rounds body most).Records P := by
  induction most with
  | zero => exact records_pure _
  | succ most ih =>
    intro v
    unfold rounds
    split
    · exact records_pure _ v
    · exact records_andThen h (fun a => records_map ih _) v

theorem step_records {P : Step → Prop} {p : Read Value} (h : p.Records P) {depth : Nat}
    {name : String} (soft : Bool) (hp : ∀ v, P ⟨depth, name, v, (p v).rest, (p v).result⟩) :
    (step depth name soft p).Records P := by
  unfold step
  split
  · exact records_recorded h hp
  · exact records_recorded h hp

theorem run_records {P : Step → Prop}
    (action : ∀ (a : Action) mode last depth v,
      P ⟨depth, a.name, v, (a.run mode last v).rest, (a.run mode last v).result⟩)
    (scope : ∀ (scope : Scope) mode debug last body depth v,
      P ⟨depth, scope.name, v, (scope.run mode debug last body v).rest,
        (scope.run mode debug last body v).result⟩)
    (debug : Bool) (p : Program) (mode : Mode) (depth : Nat) (last : Value) :
    (p.run debug mode depth last).Records P := by
  induction p generalizing mode depth last with
  | done => exact records_pure _
  | finish a => exact records_pure _
  | choose next ih => exact ih last mode depth last
  | «repeat» most body next ihBody ihNext =>
    exact records_andThen (rounds_records (ihBody mode _ _) most) fun values => ihNext mode depth _
  | act a soft next ih =>
    apply records_andThen _ fun b => ih mode depth b
    exact step_records (a.run_records mode last) soft (action a mode last depth)
  | within s soft body next ihBody ihNext =>
    apply records_andThen _ fun b => ihNext mode depth b
    exact step_records (s.run_records (fun m => ihBody m _ _) mode debug last) _
      (scope s mode debug last _ depth)

end Program

/-! ## Failed steps -/

/-- If it failed, the reader stands where it stood before, unless the step is one that may fail
beyond its start. -/
def Step.Restored (s : Step) : Prop :=
  s.name ∉ Scope.advancing → ∀ e, s.result = .error e → s.after = s.before

theorem Program.steps_restored (p : Program) (debug : Bool) (mode : Mode) (depth : Nat)
    (last : Value) : (p.run debug mode depth last).Records Step.Restored := by
  apply run_records
  · intro a mode last depth v _ e failed
    exact a.run_restores mode last v e failed
  · intro scope mode debug last body depth v listed e failed
    exact Scope.run_restores listed mode debug last body v e failed

/-- The program after a failure that was swallowed does what it would have done in its place. -/
theorem Program.within_swallowed {scope : Scope} {e : Failure} (h : scope.Swallows e)
    {debug : Bool} {mode : Mode} {depth : Nat} {body : Program} {v : View}
    (failed : (body.run debug mode (depth + 1) .absent v).result = .error e) (soft : Bool)
    (next : Program) (last : Value) :
    ∃ events, (Program.within scope soft body next).run debug mode depth last v =
      { next.run debug mode depth .absent v with
        events := events ++ (next.run debug mode depth .absent v).events } := by
  have swallowed : scope.run mode debug last (fun m => body.run debug m (depth + 1) .absent) v =
      ⟨.ok .absent, v, (body.run debug mode (depth + 1) .absent v).events⟩ :=
    Scope.run_swallowed h failed debug last
  have stepped : step depth scope.name soft (scope.run mode debug last
      fun m => body.run debug m (depth + 1) .absent) v =
        ⟨.ok .absent, v, (body.run debug mode (depth + 1) .absent v).events ++
          [.step ⟨depth, scope.name, v, v, .ok .absent⟩]⟩ := by
    unfold step
    split
    · simp only [unfailing, recorded, swallowed]
      rfl
    · simp only [recorded, swallowed]
  refine ⟨(body.run debug mode (depth + 1) .absent v).events ++
    [.step ⟨depth, scope.name, v, v, .ok .absent⟩], ?_⟩
  rw [run, andThen_ok (by rw [stepped]), stepped]

/-- In a run of any program from any view, each step that fails stands where it started, however
deep it is nested and whatever its program read before; and a failure that is swallowed leaves the
rest of the program as it would be without the step. -/
theorem Program.failures_restore (debug : Bool) (mode : Mode) (depth : Nat) (last : Value)
    (v : View) :
    (∀ (p : Program), ∀ s ∈ Event.steps (p.run debug mode depth last v).events,
      s.name ∉ Scope.advancing → ∀ e, s.result = .error e → s.after = s.before) ∧
    ∀ (scope : Scope) (soft : Bool) (body next : Program) (e : Failure), scope.Swallows e →
      (body.run debug mode (depth + 1) .absent v).result = .error e →
      ∃ events, (Program.within scope soft body next).run debug mode depth last v =
        { next.run debug mode depth .absent v with
          events := events ++ (next.run debug mode depth .absent v).events } := by
  constructor
  · intro p s hs
    exact p.steps_restored debug mode depth last v s hs
  · intro scope soft body next e swallows failed
    exact within_swallowed swallows failed soft next last

/-- A byte is read before the program fails for want of more, which is swallowed. -/
theorem Program.failures_restore_swallowed :
    let v := View.ofSource (.ofBytes 0 [0x61, 0x62]) .bytes
    let body : Program := .act .readU8 false (.act (.take (.given 5)) false .done)
    let next : Program := .act (.take (.given 2)) false .done
    let e := Mode.full.raise (({ v with offset := 1, size := 1 } : View).lengthCause 5 .take)
    Scope.Swallows e .recover ∧ (body.run true .full 1 .absent v).result = .error e ∧
    (body.run true .full 1 .absent v).rest.size = 1 ∧
    ∃ events, (Program.within .recover false body next).run true .full 0 .absent v =
      { next.run true .full 0 .absent v with
        events := events ++ (next.run true .full 0 .absent v).events } := by
  intro v body next e
  have failed : (body.run true .full 1 .absent v).result = .error e := by rfl
  exact ⟨trivial, failed, rfl,
    (failures_restore true .full 0 .absent v).2 .recover false body next e
    trivial failed⟩

end Untrusted
