import Mathlib
import Untrusted.Proofs.Backtrace
import Untrusted.Proofs.Scopes

/-!
# Backtraces of programs

Where a program fails follows from its scopes and from what comes of the steps before. A walk over
the failure visits the scopes that are open there and what failed inside them: nothing of a scope
that was left with a value or whose failure was recovered from.
-/

namespace Untrusted

open Read

/-! ## Sequences -/

def Sites.unless (soft : Bool) (sites : Sites) : Sites := if soft then .none else sites

section

variable {mode : Mode} {v : View}

theorem traced_andThen {α β : Type} {p : Read α} {next : α → Read β} {sites : Sites}
    {later : α → View → Sites} (h : Traced mode (p v).result sites)
    (hnext : ∀ a w, Traced mode (next a w).result (later a w)) :
    Traced mode (andThen p next v).result (sites.or (.after (p v) later)) := by
  apply h.after
  · intro e failed
    rw [andThen_error failed]
  · intro a ok
    rw [andThen_ok ok]
    exact hnext a _

theorem traced_step {p : Read Value} {sites : Sites} {soft : Bool}
    (h : soft = false → Traced mode (p v).result sites) (depth : Nat) (name : String) :
    Traced mode (Program.step depth name soft p v).result (.unless soft sites) := by
  cases soft with
  | true => exact traced_ok _
  | false => exact h rfl

end

/-! ## Entry points -/

def Read.entered (mode : Mode) (debug whole : Bool) (p : Read Value) : Read Value :=
  if whole then readAll mode debug p
  else Read.map (fun r => .list [r.1, .view r.2]) (readPartial debug p)

/-- The sites of a read inside an entry point. Trailing input is found after the scope was left. -/
def Sites.entered (whole : Bool) (p : Read Value) (v : View) (sites : Sites) : Sites :=
  if whole then
    (sites.within (.ofOperation .readAll)).or
      (.after (context (.ofOperation .readAll) p v) fun _ rest =>
        if rest.isEmpty then .none else .here (.ofCause (trailingCause v rest)))
  else sites.within (.ofOperation .readPartial)

theorem scope_eq_ok_iff {α : Type} {v : View} {f : Frame} {r : Except Failure α} {a : α} :
    scope v f r = .ok a ↔ r = .ok a := by
  cases r <;> simp [scope]

theorem Sites.entered_cases {whole : Bool} {p : Read Value} {v : View} {sites : Sites}
    {scopes : List Frame} {root : Root} (site : Sites.entered whole p v sites scopes root) :
    (∃ inner, scopes = .ofOperation (if whole then .readAll else .readPartial) :: inner ∧
        sites inner root) ∨
      (whole = true ∧ scopes = [] ∧ ∃ a, (p v).result = .ok a ∧ (p v).rest.isEmpty = false ∧
        root = .ofCause (trailingCause v (p v).rest)) := by
  cases whole with
  | false => exact .inl site
  | true =>
    refine site.imp id ?_
    rintro ⟨a, left, trailing⟩
    change (if (p v).rest.isEmpty then Sites.none else _) scopes root at trailing
    split at trailing
    · exact trailing.elim
    · rename_i rest
      exact ⟨rfl, trailing.1, a, scope_eq_ok_iff.1 left, by simpa using rest, trailing.2⟩

theorem traced_entered {mode : Mode} (hm : mode.Offered) (debug whole : Bool) {p : Read Value}
    {v : View} {sites : Sites} (h : Traced mode (p v).result sites) :
    Traced mode (entered mode debug whole p v).result (.entered whole p v sites) := by
  cases whole with
  | false => exact ((h.scope hm v _).map _).map _
  | true =>
    -- The scope is left before anyone looks for trailing input.
    have read : Traced mode (context (.ofOperation .readAll) p v).result
        (sites.within (.ofOperation .readAll)) := h.scope hm v _
    refine read.after (fun e failed => readAll_error failed) fun a ok => ?_
    change Traced mode (readAll mode debug p v).result _
    rw [readAll_ok ok]
    change Traced mode _ (if (p v).rest.isEmpty then _ else _)
    split
    · exact traced_ok a
    · exact traced_raise hm _

/-! ## Scopes -/

namespace Part

def sites (mode : Mode) (last : Value) (p : Part) (body : Read Value) (inner : View → Sites)
    (v : View) : Sites :=
  (Sites.raised mode (p.take mode last v).result [.take, .intoText]).or
    (.after (p.take mode last v) fun part _ => .entered p.whole body part (inner part))

end Part

namespace Scope

def sites (mode : Mode) (debug : Bool) (last : Value) (body : Mode → Read Value)
    (inner : View → Sites) (v : View) : Scope → Sites
  | context f | peekContext f => (inner v).within f
  | tryTakeConsumed => inner v
  | recoverIf accepts =>
    Sites.given (∀ e, (body mode v).result = .error e → accepts e = false)
      ((inner v).within (.ofOperation .recoverIf))
  | verify expected =>
    .raised mode ((verify expected).run mode debug last body v).result [.verify]
  | expect expected =>
    .raised mode ((expect expected).run mode debug last body v).result [.expect]
  | tryVerify expected => (inner v).or (.after (body mode v) fun _ _ =>
      .raised mode ((tryVerify expected).run mode debug last body v).result [.verify])
  | tryExpect expected => (inner v).or (.after (body mode v) fun _ _ =>
      .raised mode ((tryExpect expected).run mode debug last body v).result [.expect])
  | tryExpectErased expected =>
    .raised mode ((tryExpectErased expected).run mode debug last body v).result [.expectErased]
  | sub part => part.sites mode last (body mode) inner v
  | takeConsumed | recover | errorScope _ | bypass => .none

end Scope

section

variable {mode : Mode} {v : View}

theorem raisedAs_expect {α : Type} {p : Read (Option α)} (h : ∀ e, (p v).result ≠ .error e)
    (expected : String) (op : Operation) :
    RaisedAs mode (Read.expect mode expected op p v).result [op] := by
  cases result : (p v).result with
  | error e => exact absurd result (h e)
  | ok found =>
    cases found with
    | none =>
      rw [expect_none result]
      exact raisedAs_raise (by simp [View.invalidCause])
    | some a =>
      rw [expect_some result]
      exact raisedAs_ok a

theorem raisedAs_expectErased {α : Type} (p : Read α) (expected : String) (op : Operation) :
    RaisedAs mode (expectErased mode expected op p v).result [op] := by
  cases result : (p v).result with
  | ok a =>
    rw [expectErased_ok result]
    exact raisedAs_ok a
  | error e =>
    rw [expectErased_error result]
    exact raisedAs_raise (by simp [View.invalidCause])

theorem Part.raisedAs_split (p : Part) (last : Value) :
    RaisedAs mode (p.split mode last v) [.take] := by
  unfold split
  split
  · exact View.raisedAs_splitAt _ _
  · exact raisedAs_ok _

theorem Part.raisedAs_convert (p : Part) (head : View) :
    RaisedAs mode (p.convert mode head) [.intoText] := by
  unfold convert
  simp only
  split
  · exact raisedAs_ok _
  · exact raisedAs_ok _
  · exact View.raisedAs_intoText _

theorem Part.raisedAs_take (p : Part) (last : Value) :
    RaisedAs mode (p.take mode last v).result [.take, .intoText] := by
  cases parts : p.split mode last v with
  | error e =>
    simp only [take, parts]
    rintro _ ⟨⟩
    exact (p.raisedAs_split last).mono (by simp) e parts
  | ok parts' =>
    simp only [take, parts]
    exact (p.raisedAs_convert _).mono (by simp)

theorem Part.traced_read (hm : mode.Offered) (p : Part) (debug : Bool) (last : Value)
    {body : Read Value} {inner : View → Sites} (h : ∀ w, Traced mode (body w).result (inner w)) :
    Traced mode (p.read mode debug last body v).result (p.sites mode last body inner v) := by
  apply ((p.raisedAs_take last).traced hm).after
  · intro e failed
    simp only [read, failed]
  · intro part ok
    simp only [read, ok]
    exact traced_entered hm debug p.whole (h part)

theorem Scope.traced_run (hm : mode.Offered) {scope : Scope}
    (checked : scope.Checked fun _ => False)
    (debug : Bool) (last : Value) {body : Mode → Read Value} {inner : View → Sites}
    (h : ∀ w, Traced mode (body mode w).result (inner w)) :
    Traced mode (scope.run mode debug last body v).result
      (scope.sites mode debug last body inner v) := by
  have expecting (present : Value → Option Value) (expected : String) (op : Operation) :
      let r := (Read.expect mode expected op (Read.map present (body mode)) v).result
      Traced mode r ((inner v).or (.after (body mode v) fun _ _ => .raised mode r [op])) := by
    intro r
    apply (h v).after
    · intro e failed
      have passed := congrArg (·.map present) failed
      exact congrArg Outcome.result (expect_error passed)
    · intro a ok
      apply (raisedAs_expect _ expected op).traced hm
      simp [Read.map, Outcome.map, ok, Except.map]
  cases scope with
  | context f | peekContext f => exact (h v).scope hm v f
  | takeConsumed => exact traced_ok _
  | tryTakeConsumed =>
    apply Traced.map
    rw [Read.tryTakeConsumed, result_restoring]
    exact (h v).map _
  | recover =>
    cases result : (body mode v).result with
    | ok a =>
      simp only [run, Read.map, recover_ok result]
      exact traced_ok _
    | error e =>
      simp only [run, Read.map, recover_error result]
      exact traced_ok _
  | recoverIf accepts =>
    apply traced_given
    · intro refuses
      apply ((h v).scope hm v (.ofOperation .recoverIf)).congr
      intro e
      cases result : (body mode v).result with
      | ok a => simp [run, Read.map, recoverIf_ok result, Outcome.map, Except.map, scope]
      | error e' =>
        simp [run, Read.map, recoverIf_refused result (refuses e' result), Outcome.map, Except.map,
          scope]
    · intro accepted
      push Not at accepted
      obtain ⟨e, failed, accepts⟩ := accepted
      simp only [run, Read.map, recoverIf_accepted failed (by simpa using accepts)]
      exact ⟨_, rfl⟩
  | errorScope inner => exact checked.elim
  | verify expected | expect expected =>
    apply (raisedAs_expect _ expected _).traced hm
    simp [Read.map, Outcome.map, unfailing, Except.map]
  | tryVerify expected => exact expecting confirmed expected .verify
  | tryExpect expected => exact expecting present expected .expect
  | tryExpectErased expected => exact (raisedAs_expectErased _ _ _).traced hm
  | sub part => exact part.traced_read hm debug last h
  | bypass => exact checked.elim

end

/-! ## Programs -/

namespace Program

def roundsSites (body : Read Value) (sites : View → Sites) : (most : Nat) → View → Sites
  | 0, _ => .none
  | most + 1, v =>
    if v.isEmpty then .none
    else (sites v).or (.after (body v) fun _ rest => roundsSites body sites most rest)

/-- Where a program fails: in one of its steps, if those before succeed. -/
def sites (debug : Bool) (mode : Mode) : Program → Nat → Value → View → Sites
  | .done, _, _, _ => .none
  | .finish _, _, _, _ => .none
  | .choose next, depth, last, v => (next last).sites debug mode depth last v
  | .repeat most body next, depth, _, v =>
    let round := body.run debug mode (depth + 1) .absent
    (roundsSites round (body.sites debug mode (depth + 1) .absent) most v).or
      (.after (rounds round most v) fun values rest =>
        next.sites debug mode depth (.list values) rest)
  | .act action soft next, depth, last, v =>
    (Sites.unless soft (action.sites mode last v)).or
      (.after (step depth action.name soft (action.run mode last) v) fun a rest =>
        next.sites debug mode depth a rest)
  | .within scope soft body next, depth, last, v =>
    let inner (m : Mode) : Read Value := body.run debug m (depth + 1) .absent
    (Sites.unless soft
        (scope.sites mode debug last inner (body.sites debug mode (depth + 1) .absent) v)).or
      (.after (step depth scope.name soft (scope.run mode debug last inner) v) fun a rest =>
        next.sites debug mode depth a rest)

variable {mode : Mode}

theorem traced_rounds {body : Read Value} {sites : View → Sites}
    (h : ∀ v, Traced mode (body v).result (sites v)) (most : Nat) (v : View) :
    Traced mode (rounds body most v).result (roundsSites body sites most v) := by
  induction most generalizing v with
  | zero => exact traced_ok _
  | succ most ih =>
    unfold rounds roundsSites
    split
    · exact traced_ok _
    · exact traced_andThen (h v) fun a w => (ih w).map _

theorem traced_scopeStep (hm : mode.Offered) {scope : Scope} {soft : Bool}
    (checked : scope.Checked (Mode.Inside soft fun _ => False)) (debug : Bool) (depth : Nat)
    (last : Value) {body : Mode → Read Value} {inner : View → Sites}
    (h : soft = false → ∀ w, Traced mode (body mode w).result (inner w)) (v : View) :
    Traced mode (step depth scope.name soft (scope.run mode debug last body) v).result
      (.unless soft (scope.sites mode debug last body inner v)) := by
  apply traced_step
  rintro rfl
  rw [Mode.inside_false] at checked
  exact scope.traced_run hm checked debug last (h rfl)

theorem traced_run (hm : mode.Offered) {p : Program} (hp : p.Checked fun _ => False) (debug : Bool)
    (depth : Nat) (last : Value) (v : View) :
    Traced mode (p.run debug mode depth last v).result (p.sites debug mode depth last v) := by
  -- By induction on the program: the step that fails does so in the scopes that are open.
  induction p generalizing depth last v with
  | done => exact traced_ok last
  | finish a => exact traced_ok a
  | choose next ih => exact ih last (hp last) depth last v
  | «repeat» most body next ihBody ihNext =>
    exact traced_andThen (traced_rounds (ihBody hp.1 _ _) most v) fun values w =>
      ihNext hp.2 depth (.list values) w
  | act action soft next ih =>
    refine traced_andThen ?_ fun a w => ih hp depth a w
    exact traced_step (fun _ => action.traced_run hm last) depth action.name
  | within scope soft body next ihBody ihNext =>
    obtain ⟨checked, hbody, hnext⟩ := hp
    refine traced_andThen ?_ fun a w => ihNext hnext depth a w
    refine traced_scopeStep hm checked debug depth last ?_ v
    rintro rfl
    rw [Mode.inside_false] at hbody
    exact ihBody hbody (depth + 1) .absent

end Program

/-! ## Nests -/

/-- Reads inside each other: programs, one read after another, scopes around reads, and scans whose
test of a token reads in turn, from a view of its own. -/
inductive Nest where
  | program (p : Program)
  | after (before next : Nest)
  | within (scope : Scope) (soft : Bool) (body : Nest)
  | scan (s : Scan) (on : Nat → View) (test : Nat → Nest)

namespace Nest

/-- No step runs steps that can fail where none may, and failures of another mode leave none. -/
def Checked : Nest → Prop
  | program p => p.Checked fun _ => False
  | after before next => before.Checked ∧ next.Checked
  | within scope soft body => scope.Checked (Mode.Inside soft fun _ => False) ∧ body.Checked
  | scan _ _ test => ∀ t, (test t).Checked

/-- Runs a nest after a step that yielded `last`. A token passes if the test of it confirms that. -/
def run (debug : Bool) : Nest → Mode → Nat → Value → Read Value
  | program p, mode, depth, last => p.run debug mode depth last
  | after before next, mode, depth, last =>
    Read.andThen (before.run debug mode depth last) (next.run debug mode depth)
  | within scope soft body, mode, depth, last =>
    Program.step depth scope.name soft
      (scope.run mode debug last fun m => body.run debug m (depth + 1) .absent)
  | scan s on test, mode, depth, _ =>
    s.read mode fun t =>
      ((test t).run debug mode (depth + 1) .absent (on t)).result.map Value.confirms

def sites (debug : Bool) (mode : Mode) : Nest → Nat → Value → View → Sites
  | program p, depth, last, v => p.sites debug mode depth last v
  | after before next, depth, last, v =>
    (before.sites debug mode depth last v).or
      (.after (before.run debug mode depth last v) fun a rest =>
        next.sites debug mode depth a rest)
  | within scope soft body, depth, last, v =>
    Sites.unless soft
      (scope.sites mode debug last (fun m => body.run debug m (depth + 1) .absent)
        (body.sites debug mode (depth + 1) .absent) v)
  | scan s on test, depth, _, v =>
    s.sites mode
      (fun t => ((test t).run debug mode (depth + 1) .absent (on t)).result.map Value.confirms)
      (fun t => (test t).sites debug mode (depth + 1) .absent (on t)) v

variable {mode : Mode}

theorem traced_run (hm : mode.Offered) {n : Nest} (hn : n.Checked) (debug : Bool) (depth : Nat)
    (last : Value) (v : View) :
    Traced mode (n.run debug mode depth last v).result (n.sites debug mode depth last v) := by
  induction n generalizing depth last v with
  | program p => exact Program.traced_run hm hn debug depth last v
  | after before next ihBefore ihNext =>
    exact traced_andThen (ihBefore hn.1 depth last v) fun a w => ihNext hn.2 depth a w
  | within scope soft body ih =>
    exact Program.traced_scopeStep hm hn.1 debug depth last (fun _ => ih hn.2 (depth + 1) .absent) v
  | scan s on test ih =>
    exact s.traced_read hm fun t => (ih t (hn t) (depth + 1) .absent (on t)).map _

/-- A failure has left the scopes that were open where it arose, and only those. With every frame
kept, a walk visits the entry point, the scopes inside it from the outermost in, and what failed
inside them, with the frames of a foreign parser as its children. With the root alone kept, it
visits what failed. Trailing input fails outside the scope of its own entry point. -/
theorem backtrace_is_open_scopes {n : Nest} (hn : n.Checked) (debug whole : Bool) (depth : Nat)
    (v : View) :
    let read (mode : Mode) := n.run debug mode depth .absent
    let outcome (mode : Mode) := (entered mode debug whole (read mode) v).result
    let inner (mode : Mode) := n.sites debug mode depth .absent v
    let sites (mode : Mode) := Sites.entered whole (read mode) v (inner mode)
    let entry := Frame.ofOperation (if whole then .readAll else .readPartial)
    (∀ mode scopes root, sites mode scopes root →
      (∃ scopes', scopes = entry :: scopes' ∧ inner mode scopes' root) ∨
      (whole = true ∧ scopes = [] ∧ ∃ a, (read mode v).result = .ok a ∧
        (read mode v).rest.isEmpty = false ∧
        root = .ofCause (trailingCause v (read mode v).rest))) ∧
    (∀ mode, mode.Offered → ∀ e, outcome mode = .error e → ∃ scopes root, sites mode scopes root) ∧
    (∀ scopes root, sites .full scopes root → ∃ r, outcome .full = .error (.report r) ∧
      r.cause = root.cause ∧ r.backtrace.count = scopes.length + 1 + root.foreign.length ∧
      ((∀ f ∈ scopes, f.isChild = false) → r.backtrace.firstVisits none =
        ((scopes ++ [root.cause.root.frame]).mapIdx (fun n f => (n + 1, f)) ++
          root.foreign.reverse.map fun f => (scopes.length + 1, f.asChild), true))) ∧
    (∀ scopes root, sites .root scopes root → ∃ r, outcome .root = .error (.report r) ∧
      r.cause = root.cause ∧ r.backtrace.count = 1 ∧
      r.backtrace.firstVisits none = ([(1, root.cause.root.frame)], true)) := by
  intro read outcome inner sites entry
  have traced (mode : Mode) (hm : mode.Offered) : Traced mode (outcome mode) (sites mode) :=
    traced_entered hm debug whole (traced_run hm hn debug depth .absent v)
  refine ⟨fun _ _ _ => Sites.entered_cases, fun mode hm => (traced mode hm).found, ?_, ?_⟩
  · intro scopes root site
    obtain ⟨o, failed, left⟩ := (traced .full .full).left scopes root site
    refine ⟨_, failed, left.cause, ?_, fun plain => ?_⟩
    · simp only [Backtrace.count, Backtrace.frames, left.frames, Root.children]
      simp
      omega
    · rw [Backtrace.firstVisits_none, left.frames,
        Backtrace.visits_scopes_children _ plain fun f => Root.isChild_of_mem_children, left.cause]
      simp [Root.children, Function.comp_def]
  · intro scopes root site
    obtain ⟨o, failed, left⟩ := (traced .root .root).left scopes root site
    refine ⟨_, failed, left.cause, rfl, ?_⟩
    rw [Backtrace.firstVisits_none, ← left.cause]
    rfl

/-- A scope that was recovered from comes first. Then a header is read to its end by a scan that
tests its bytes with a parser of numbers, which finds no digits. -/
theorem backtrace_is_open_scopes_foreign :
    let parser : Foreign (Value × Number) := fun _ =>
      .error ⟨none, none, [.named "digit", .named "digits"]⟩
    let nine : Program := .act (.take (.given 9)) false .done
    let optional : Program :=
      .within .recover false (.within (.context (.named "nine")) false nine .done) .done
    let number : Nest := .program (.act (.tryExpectExternal "number" parser) false .done)
    let other := View.ofSource (.ofBytes 1 [0x41]) .bytes
    let n : Nest := .after (.program optional) (.within (.context (.named "header")) false
      (.within (.recoverIf fun _ => false) false
        (.within (.sub ⟨some (.given 2), false, none, true⟩) false
          (.scan .takeWhile (fun _ => other) fun _ => number))))
    let v := View.ofSource (.ofBytes 0 [1, 2, 3]) .bytes
    n.Checked ∧ ∃ r, (entered .full false false (n.run false .full 0 .absent) v).result =
        .error (.report r) ∧ r.backtrace.count = 8 ∧
      (r.backtrace.firstVisits none).1.map (fun visit => (visit.1, visit.2.operation)) =
        [(1, "read a partial input"), (2, "header"), (3, "recover if"), (4, "read all input"),
          (5, "take input while a condition remains true"),
          (6, "read and expect an external value"), (6, "digits"), (6, "digit")] := by
  intro parser nine optional number other n v
  have checked : n.Checked := by
    refine ⟨⟨trivial, ⟨trivial, trivial, trivial⟩, trivial⟩, trivial, trivial, trivial, ?_⟩
    exact fun _ => trivial
  let c := other.invalidCause .expectExternal "number" other.span none
  have site : Sites.entered false (n.run false .full 0 .absent) v
      (n.sites false .full 0 .absent v)
      [.ofOperation .readPartial, .named "header", .ofOperation .recoverIf, .ofOperation .readAll,
        .ofOperation .takeWhile] ⟨c, [.named "digit", .named "digits"]⟩ := by
    refine ⟨_, rfl, .inr ⟨_, rfl, _, rfl, ⟨fun _ _ => rfl, _, rfl, ?_⟩⟩⟩
    exact .inr ⟨_, rfl, .inl ⟨_, rfl, _, rfl, .inl ⟨rfl, rfl⟩⟩⟩
  obtain ⟨r, failed, -, count, visits⟩ :=
    (backtrace_is_open_scopes checked false false 0 v).2.2.1 _ _ site
  refine ⟨checked, r, failed, count, ?_⟩
  rw [visits (by decide)]
  decide

end Nest

end Untrusted
