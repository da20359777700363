import Mathlib
import Untrusted.Proofs.Entries

/-!
# Where reads fail

A read fails at an operation that is not met, inside the scopes that are open there. Which ones they
are is told from the outside in, the way the read comes to the operation. A failure collects its
frames the other way, from the inside out, as it leaves one scope after the other. Both tell of the
same frames.
-/

namespace Untrusted

/-! ## Sites -/

/-- What a failure starts with: the cause of the operation that failed, and the frames that a
foreign parser gave with it, the innermost first. -/
structure Root where
  cause : Cause
  foreign : List Frame

namespace Root

def ofCause (c : Cause) : Root := ⟨c, []⟩

def children (r : Root) : List Frame := (r.foreign.map Frame.asChild).reverse

theorem isChild_of_mem_children {r : Root} {f : Frame} (h : f ∈ r.children) : f.isChild = true := by
  simp only [children, List.mem_reverse, List.mem_map] at h
  obtain ⟨inner, -, rfl⟩ := h
  rfl

end Root

/-- Where a read fails: the scopes that are open there, the outermost first, and what fails inside
all of them. -/
abbrev Sites := List Frame → Root → Prop

namespace Sites

def none : Sites := fun _ _ => False

def here (root : Root) : Sites := fun scopes r => scopes = [] ∧ r = root

def within (f : Frame) (sites : Sites) : Sites := fun scopes root =>
  ∃ inner, scopes = f :: inner ∧ sites inner root

def or (a b : Sites) : Sites := fun scopes root => a scopes root ∨ b scopes root

def given (condition : Prop) (sites : Sites) : Sites := fun scopes root =>
  condition ∧ sites scopes root

/-- The sites of what follows a read: it goes on with the value, where the read left off. -/
def after {α : Type} (o : Outcome α) (later : α → View → Sites) : Sites := fun scopes root =>
  ∃ a, o.result = .ok a ∧ later a o.rest scopes root

end Sites

/-! ## Failures of a site -/

/-- The origin of a failure that was raised for `root` and has left `scopes` since. -/
structure Origin.Left (o : Origin) (scopes : List Frame) (root : Root) : Prop where
  cause : o.cause = root.cause
  frames : o.frames = scopes ++ root.children

section

variable {o : Origin} {scopes : List Frame} {root : Root}

theorem Origin.Left.push (h : o.Left scopes root) (f : Frame) :
    (o.push f).Left (f :: scopes) root :=
  ⟨h.cause, congrArg (f :: ·) h.frames⟩

theorem Origin.Left.widen (h : o.Left scopes root) (v : View) : (o.widen v).Left scopes root := by
  unfold Origin.widen
  split
  · exact ⟨h.cause, h.frames⟩
  · exact h

end

/-- A result is a failure if and only if it has a site, and then one that left the scopes of the
site. -/
structure Traced {α : Type} (mode : Mode) (r : Except Failure α) (sites : Sites) : Prop where
  found : ∀ e, r = .error e → ∃ scopes root, sites scopes root
  left : ∀ scopes root, sites scopes root →
    ∃ o : Origin, r = .error (o.under mode) ∧ o.Left scopes root

section

variable {α β : Type} {mode : Mode} {r : Except Failure α} {sites : Sites}

theorem traced_ok (a : α) : Traced mode (.ok a) .none :=
  ⟨fun _ failed => absurd failed (by simp), fun _ _ site => site.elim⟩

theorem traced_raise (hm : mode.Offered) (c : Cause) :
    Traced mode (.error (mode.raise c) : Except Failure α) (.here (.ofCause c)) := by
  refine ⟨fun _ _ => ⟨[], .ofCause c, rfl, rfl⟩, ?_⟩
  rintro _ _ ⟨rfl, rfl⟩
  exact ⟨.ofCause c, congrArg _ (Origin.raise_eq_under hm c), rfl, rfl⟩

theorem traced_foreignFailure (hm : mode.Offered) (v : View) (f : ForeignFailure)
    (expected : String) (op : Operation) :
    Traced mode (.error (View.foreignFailure mode v f expected op) : Except Failure α)
      (.here ⟨v.invalidCause op expected (f.span.getD v.span) f.retry, f.frames⟩) := by
  have pushes (frames : List Frame) (o : Origin) :
      frames.foldl (fun e frame => e.push frame.asChild) (o.under mode) =
        { o with frames := (frames.map Frame.asChild).reverse ++ o.frames }.under mode := by
    induction frames generalizing o with
    | nil => rfl
    | cons frame frames ih =>
      rw [List.foldl_cons, Origin.push_under hm, ih]
      simp [Origin.push]
  let c := v.invalidCause op expected (f.span.getD v.span) f.retry
  refine ⟨fun _ _ => ⟨[], _, rfl, rfl⟩, ?_⟩
  rintro _ root ⟨rfl, rfl⟩
  refine ⟨⟨c, c.input, Root.children ⟨c, f.frames⟩⟩, ?_, rfl, rfl⟩
  simp only [View.foreignFailure, Origin.raise_eq_under hm, pushes]
  simp [Origin.ofCause, Root.children, c]

theorem Traced.congr {r' : Except Failure β} (h : Traced mode r sites)
    (same : ∀ e, r' = .error e ↔ r = .error e) : Traced mode r' sites := by
  refine ⟨fun e failed => h.found e ((same e).1 failed), fun scopes root site => ?_⟩
  obtain ⟨o, failed, left⟩ := h.left scopes root site
  exact ⟨o, (same _).2 failed, left⟩

theorem Traced.map (h : Traced mode r sites) (f : α → β) : Traced mode (r.map f) sites := by
  apply h.congr
  intro e
  cases r <;> simp [Except.map]

theorem Traced.scope (hm : mode.Offered) (h : Traced mode r sites) (v : View) (f : Frame) :
    Traced mode (Untrusted.scope v f r) (sites.within f) := by
  constructor
  · intro e failed
    cases result : r with
    | ok a => simp [Untrusted.scope, result] at failed
    | error inner =>
      obtain ⟨scopes, root, site⟩ := h.found inner result
      exact ⟨f :: scopes, root, scopes, rfl, site⟩
  · rintro _ root ⟨scopes, rfl, site⟩
    obtain ⟨o, failed, left⟩ := h.left scopes root site
    refine ⟨(o.push f).widen v, ?_, (left.push f).widen v⟩
    rw [failed, Untrusted.scope, Origin.leave_under hm]

theorem traced_given {condition : Prop} (holds : condition → Traced mode r sites)
    (fails : ¬condition → ∃ a, r = .ok a) : Traced mode r (.given condition sites) := by
  by_cases met : condition
  · have traced := holds met
    refine ⟨fun e failed => ?_, fun scopes root site => traced.left scopes root site.2⟩
    obtain ⟨scopes, root, site⟩ := traced.found e failed
    exact ⟨scopes, root, met, site⟩
  · obtain ⟨a, rfl⟩ := fails met
    exact ⟨fun _ failed => absurd failed (by simp), fun _ _ site => absurd site.1 met⟩

theorem Traced.after {o : Outcome α} {r' : Except Failure β} {later : α → View → Sites}
    (h : Traced mode o.result sites) (failed : ∀ e, o.result = .error e → r' = .error e)
    (next : ∀ a, o.result = .ok a → Traced mode r' (later a o.rest)) :
    Traced mode r' (sites.or (.after o later)) := by
  -- Only one of the two has sites: what follows if there is a value, and the read itself if not.
  cases result : o.result with
  | error e =>
    have passed : Traced mode r' sites := h.congr fun e' => by simp [failed e result, result]
    refine ⟨fun e' h => ?_, ?_⟩
    · obtain ⟨scopes, root, site⟩ := passed.found e' h
      exact ⟨scopes, root, .inl site⟩
    · rintro scopes root (site | ⟨a, ok, -⟩)
      · exact passed.left scopes root site
      · rw [result] at ok
        contradiction
  | ok a =>
    have goesOn := next a result
    refine ⟨fun e h => ?_, ?_⟩
    · obtain ⟨scopes, root, site⟩ := goesOn.found e h
      exact ⟨scopes, root, .inr ⟨a, result, site⟩⟩
    · rintro scopes root (site | ⟨a', ok, site⟩)
      · obtain ⟨o', failed, -⟩ := h.left scopes root site
        rw [result] at failed
        contradiction
      · rw [result] at ok
        obtain rfl := Except.ok.inj ok
        exact goesOn.left scopes root site

end

/-! ## Operations that fail by themselves -/

def Sites.raised {α : Type} (mode : Mode) (r : Except Failure α) (ops : List Operation) : Sites :=
  fun scopes root =>
    ∃ c, r = .error (mode.raise c) ∧ c.root.op ∈ ops ∧ Sites.here (.ofCause c) scopes root

/-- If a result is a failure, one of the operations has raised it, and it left no scope since. -/
def RaisedAs {α : Type} (mode : Mode) (r : Except Failure α) (ops : List Operation) : Prop :=
  ∀ e, r = .error e → ∃ c, e = mode.raise c ∧ c.root.op ∈ ops

section

variable {α β : Type} {mode : Mode} {r : Except Failure α} {ops : List Operation} {v : View}

theorem raisedAs_ok (a : α) : RaisedAs mode (.ok a) ops := by
  intro e failed
  contradiction

theorem raisedAs_raise {c : Cause} (h : c.root.op ∈ ops) :
    RaisedAs mode (.error (mode.raise c) : Except Failure α) ops := by
  rintro e ⟨⟩
  exact ⟨c, rfl, h⟩

theorem RaisedAs.map (h : RaisedAs mode r ops) (f : α → β) : RaisedAs mode (r.map f) ops :=
  fun e failed => h e (Read.eq_error_of_map_eq_error failed)

theorem RaisedAs.mono {ops' : List Operation} (h : RaisedAs mode r ops) (sub : ops ⊆ ops') :
    RaisedAs mode r ops' := by
  intro e failed
  obtain ⟨c, same, raised⟩ := h e failed
  exact ⟨c, same, sub raised⟩

theorem RaisedAs.traced (hm : mode.Offered) (h : RaisedAs mode r ops) :
    Traced mode r (.raised mode r ops) := by
  constructor
  · intro e failed
    obtain ⟨c, rfl, raised⟩ := h e failed
    exact ⟨[], .ofCause c, c, failed, raised, rfl, rfl⟩
  · rintro scopes root ⟨c, failed, -, site⟩
    rw [failed]
    exact (traced_raise hm c).left scopes root site

namespace View

theorem op_lengthCause (v : View) (n : Number) (op : Operation) :
    (v.lengthCause n op).root.op = op := by
  unfold lengthCause
  split <;> rfl

theorem raisedAs_splitAt (n : Number) (op : Operation) :
    RaisedAs mode (v.splitAt mode n op) [op] := by
  unfold splitAt
  split
  · exact raisedAs_ok _
  · exact raisedAs_raise (by simp [op_lengthCause])

theorem raisedAs_splitAtByte (n : Number) (op : Operation) :
    RaisedAs mode (v.splitAtByte mode n op) [op] := by
  unfold splitAtByte
  split
  · exact raisedAs_raise (by simp [op_lengthCause])
  · split
    · exact raisedAs_ok _
    · exact raisedAs_raise (by simp [invalidCause])

theorem raisedAs_splitFirst (op : Operation) : RaisedAs mode (v.splitFirst mode op) [op] := by
  unfold splitFirst
  split
  · exact raisedAs_ok _
  · exact raisedAs_raise (by simp [op_lengthCause])

theorem raisedAs_splitUntil (p : Pattern) (op : Operation) :
    RaisedAs mode (v.splitUntil mode p op) [op] := by
  unfold splitUntil
  split
  · exact raisedAs_ok _
  · exact raisedAs_raise (by simp [untilCause, invalidCause])

theorem raisedAs_splitUntilConsume (p : Pattern) (op : Operation) :
    RaisedAs mode (v.splitUntilConsume mode p op) [op] := by
  unfold splitUntilConsume
  split
  · exact raisedAs_ok _
  · exact raisedAs_raise (by simp [untilCause, invalidCause])

theorem raisedAs_splitPrefix (literal : List UInt8) (op : Operation) :
    RaisedAs mode (v.splitPrefix mode literal op) [op] := by
  unfold splitPrefix
  split
  · exact raisedAs_ok _
  · exact raisedAs_raise (by simp [prefixCause])

theorem raisedAs_intoText (op : Operation) : RaisedAs mode (v.intoText mode op) [op] := by
  unfold intoText
  split
  · exact raisedAs_ok _
  · split
    · exact raisedAs_ok _
    · exact raisedAs_raise (by simp [codePointCause, invalidCause])
    · exact raisedAs_raise (by simp)

end View

end

namespace Read

section

variable {α : Type} {mode : Mode} {ops : List Operation} {v : View}

theorem raisedAs_ofCut {cut : View → Except Failure (α × View)} (h : RaisedAs mode (cut v) ops) :
    RaisedAs mode (ofCut cut v).result ops := by
  rw [result_ofCut]
  exact h.map _

theorem raisedAs_ofParts? (cut : View → Option (View × View)) :
    RaisedAs mode (ofParts? cut v).result ops := by
  cases found : cut v with
  | none =>
    rw [ofParts?_none found]
    exact raisedAs_ok _
  | some parts =>
    rw [ofParts?_some found]
    exact raisedAs_ok _

end

end Read

/-! ## Scans -/

namespace View.Check

def test (check : Check) (mode : Mode) (t : Nat) : Except Failure Bool :=
  (check t).mapError mode.raise

def sites (check : Check) (t : Nat) : Sites :=
  match check t with
  | .ok _ => .none
  | .error c => .here (.ofCause c)

theorem traced_test {mode : Mode} (check : Check) (hm : mode.Offered) (t : Nat) :
    Traced mode (check.test mode t) (check.sites t) := by
  unfold test sites
  cases check t with
  | ok b => exact traced_ok b
  | error c => exact traced_raise hm c

end View.Check

/-- The scans whose test of a token can fail. -/
inductive Scan where
  | takeWhile
  | skipWhile
  | takeStrWhile
  | skipStrWhile

namespace Scan

open View

def operation : Scan → Operation
  | takeWhile => .takeWhile
  | skipWhile => .skipWhile
  | takeStrWhile => .takeStrWhile
  | skipStrWhile => .skipStrWhile

def action : Scan → Check → Action
  | takeWhile => .tryTakeWhile
  | skipWhile => .trySkipWhile
  | takeStrWhile => .tryTakeStrWhile
  | skipStrWhile => .trySkipStrWhile

def cut (s : Scan) (mode : Mode) (check : Check) (v : View) : Except Failure (View × View) :=
  match s with
  | takeWhile | skipWhile => v.trySplitWhile mode check s.operation
  | takeStrWhile | skipStrWhile => v.trySplitStrWhile mode check s.operation

def value : Scan → View → Value
  | takeWhile | takeStrWhile => .view
  | skipWhile | skipStrWhile => Action.nothing

/-- The token that a scan stops at: the first one that `passes` does not hold of. -/
def stop? (s : Scan) (passes : Nat → Bool) (v : View) : Option Nat :=
  match s with
  | takeWhile | skipWhile => (v.firstWhere? fun t => !passes t).map Prod.snd
  | takeStrWhile | skipStrWhile =>
    match Utf8.scanTo (fun c => !passes c.toNat) 0 v.bytes with
    | (_, some (.ok (c, _))) => some c.toNat
    | _ => none

def passes (test : Nat → Except Failure Bool) (t : Nat) : Bool :=
  match test t with
  | .ok b => b
  | .error _ => false

/-- Scans with a test that can do anything, such as reading another input. The scan leaves with the
failure of the test at the token it stops at. -/
def read (s : Scan) (mode : Mode) (test : Nat → Except Failure Bool) : Read Value := fun v =>
  let plain := (s.action (Action.sure (passes test))).run mode .absent v
  match s.stop? (passes test) v with
  | none => plain
  | some t =>
    match test t with
    | .ok _ => plain
    | .error e => ⟨.error (e.leave (.ofOperation s.operation) v), v, []⟩

/-- Where a scan fails, if its test of a token fails at `sites`: inside the test at the token it
stops at, or at bytes before it that are no char. -/
def sites (s : Scan) (mode : Mode) (test : Nat → Except Failure Bool) (sites : Nat → Sites)
    (v : View) : Sites :=
  match s.stop? (passes test) v with
  | some t => (sites t).within (.ofOperation s.operation)
  | none => .raised mode (s.read mode test v).result [s.operation]

end Scan

namespace Action

def own : Action → List Operation
  | peek _ => [.peek]
  | take _ => [.take]
  | skip _ => [.skip]
  | takeArray _ => [.takeArray]
  | takeUntil _ => [.takeUntil]
  | takeUntilConsume _ => [.takeUntilConsume]
  | skipUntil _ => [.skipUntil]
  | skipUntilConsume _ => [.skipUntilConsume]
  | consume _ => [.consume]
  | readU8 => [.readU8]
  | peekU8 => [.peekU8]
  | readChar => [.readChar]
  | peekChar => [.peekChar]
  | readNum _ _ => [.readNum]
  | takeRemainingStr => [.takeRemainingStr]
  | takeStrWhile _ => [.takeStrWhile]
  | skipStrWhile _ => [.skipStrWhile]
  | tryExpectExternal _ _ => [.expectExternal]
  | fail c => [c.root.op]
  | _ => []

def sites (mode : Mode) (last : Value) (v : View) : Action → Sites
  | tryTakeWhile check => Scan.takeWhile.sites mode (check.test mode) check.sites v
  | trySkipWhile check => Scan.skipWhile.sites mode (check.test mode) check.sites v
  | tryTakeStrWhile check => Scan.takeStrWhile.sites mode (check.test mode) check.sites v
  | trySkipStrWhile check => Scan.skipStrWhile.sites mode (check.test mode) check.sites v
  | tryExpectExternal expected parser =>
    match parser v with
    | .error f =>
      .here ⟨v.invalidCause .expectExternal expected (f.span.getD v.span) f.retry, f.frames⟩
    | .ok (_, read) => .raised mode (v.splitAtByte mode read .expectExternal) [.expectExternal]
  | a => .raised mode (a.run mode last v).result a.own

end Action

section

variable {mode : Mode} {v : View}

namespace Scan

variable {s : Scan} {check : View.Check} {accepts : Nat → Bool} {t : Nat}

theorem run_action (s : Scan) (mode : Mode) (last : Value) (check : View.Check) :
    (s.action check).run mode last = Read.map s.value (Read.ofCut (s.cut mode check)) := by
  cases s <;> rfl

theorem raisedAs_cut_sure : RaisedAs mode (s.cut mode (Action.sure accepts) v) [s.operation] := by
  cases s with
  | takeWhile | skipWhile =>
    simp only [cut, View.trySplitWhile]
    split
    · exact raisedAs_ok _
    · exact raisedAs_ok _
  | takeStrWhile | skipStrWhile =>
    simp only [cut, View.trySplitStrWhile]
    split
    · exact raisedAs_ok _
    · exact raisedAs_ok _
    · exact raisedAs_raise (by simp [View.codePointCause, View.invalidCause])
    · exact raisedAs_raise (by simp [View.codePointCause, View.invalidCause])

@[simp]
theorem passes_sure : (Action.sure accepts).passes = accepts := rfl

theorem cut_of_unstopped (h : s.stop? check.passes v = none) :
    s.cut mode check v = s.cut mode (Action.sure check.passes) v := by
  cases s with
  | takeWhile | skipWhile =>
    simp only [stop?, Option.map_eq_none_iff] at h
    simp only [cut, View.trySplitWhile, passes_sure, h]
  | takeStrWhile | skipStrWhile =>
    simp only [stop?] at h
    simp only [cut, View.trySplitStrWhile, passes_sure]
    split at h
    · contradiction
    · rename_i unstopped
      split
      · rfl
      · rename_i stopped
        exact absurd stopped (unstopped _ _ _)
      · rfl
      · rfl

/-- At the token that a scan stops at, it is for the check to say if the scan fails. -/
theorem cut_of_stopped (mode : Mode) (check : View.Check) (h : s.stop? check.passes v = some t) :
    ∃ parts, s.cut mode (Action.sure check.passes) v = .ok parts ∧
      s.cut mode check v = check.stopped mode v s.operation t parts := by
  cases s with
  | takeWhile | skipWhile =>
    simp only [stop?, Option.map_eq_some_iff] at h
    obtain ⟨stop, found, rfl⟩ := h
    simp only [cut, View.trySplitWhile, passes_sure, found]
    exact ⟨_, rfl, rfl⟩
  | takeStrWhile | skipStrWhile =>
    simp only [stop?] at h
    simp only [cut, View.trySplitStrWhile, passes_sure]
    split at h
    · rename_i scanned
      obtain rfl := Option.some.inj h
      rw [scanned]
      exact ⟨_, rfl, rfl⟩
    · contradiction

variable {test : Nat → Except Failure Bool}

theorem result_run_action (last : Value) : ((s.action check).run mode last v).result =
    (s.cut mode check v).map fun parts => s.value parts.1 := by
  rw [run_action]
  change ((Read.ofCut _ v).result).map _ = _
  rw [Read.result_ofCut]
  cases s.cut mode check v <;> rfl

theorem traced_read (hm : mode.Offered) (s : Scan) {inner : Nat → Sites}
    (h : ∀ t, Traced mode (test t) (inner t)) :
    Traced mode (s.read mode test v).result (s.sites mode test inner v) := by
  unfold sites
  cases stopped : s.stop? (passes test) v with
  | none =>
    simp only [read, stopped, result_run_action]
    exact (raisedAs_cut_sure.map _).traced hm
  | some t =>
    apply ((h t).scope hm v (.ofOperation s.operation)).congr
    intro e
    cases tested : test t with
    | error e' => simp [read, stopped, tested, scope]
    | ok b =>
      obtain ⟨parts, ok, -⟩ := cut_of_stopped mode (Action.sure (passes test)) stopped
      rw [passes_sure] at ok
      simp [read, stopped, tested, scope, result_run_action, ok, Except.map]

theorem passes_test (check : View.Check) : passes (check.test mode) = check.passes := by
  funext t
  simp only [passes, View.Check.test, View.Check.passes]
  cases check t <;> rfl

theorem read_test (last : Value) :
    s.read mode (check.test mode) v = (s.action check).run mode last v := by
  have plain (accepts : Nat → Bool) : (s.action (Action.sure accepts)).run mode .absent v =
      (s.action (Action.sure accepts)).run mode last v := by
    rw [run_action, run_action]
  have ran (check' : View.Check) (same : s.cut mode check v = s.cut mode check' v) :
      (s.action check').run mode last v = (s.action check).run mode last v := by
    simp only [run_action, Read.map, Read.ofCut, same]
  simp only [read, passes_test, plain]
  split
  · rename_i stopped
    exact ran _ (cut_of_unstopped stopped)
  · rename_i t stopped
    obtain ⟨parts, ok, cut⟩ := cut_of_stopped mode check stopped
    simp only [View.Check.stopped] at cut
    simp only [View.Check.test]
    cases tested : check t with
    | ok b =>
      simp only [tested] at cut
      exact ran _ (cut.trans ok.symm)
    | error c =>
      simp only [tested] at cut
      simp [run_action, Read.map, Read.ofCut, cut, Except.mapError, Outcome.map, Except.map]

end Scan

open Read View

/-- A step fails at its own operation, inside the test of a token, or in a foreign parser. -/
theorem Action.traced_run (hm : mode.Offered) (last : Value) (a : Action) :
    Traced mode (a.run mode last v).result (a.sites mode last v) := by
  have raised (a : Action) (h : RaisedAs mode (a.run mode last v).result a.own) :
      Traced mode (a.run mode last v).result (.raised mode (a.run mode last v).result a.own) :=
    h.traced hm
  have scanned (s : Scan) (check : Check) :
      Traced mode ((s.action check).run mode last v).result
        (s.sites mode (check.test mode) check.sites v) := by
    rw [← Scan.read_test]
    exact s.traced_read hm (check.traced_test hm)
  cases a with
  | tryTakeWhile check => exact scanned .takeWhile check
  | trySkipWhile check => exact scanned .skipWhile check
  | tryTakeStrWhile check => exact scanned .takeStrWhile check
  | trySkipStrWhile check => exact scanned .skipStrWhile check
  | tryExpectExternal expected parser =>
    simp only [run, result_ofCut, splitForeign, sites]
    cases parser v with
    | error f => exact (traced_foreignFailure hm v f expected _).map _
    | ok parts => exact (((raisedAs_splitAtByte parts.2 _).traced hm).map _).map _
  | peek n => exact raised _ ((raisedAs_splitAt _ _).map _)
  | take n | skip n | takeArray n | readNum kind endian =>
    exact raised _ ((raisedAs_ofCut (raisedAs_splitAt _ _)).map _)
  | takeUntil p | skipUntil p => exact raised _ ((raisedAs_ofCut (raisedAs_splitUntil p _)).map _)
  | takeUntilConsume p | skipUntilConsume p =>
    exact raised _ ((raisedAs_ofCut (raisedAs_splitUntilConsume p _)).map _)
  | consume literal => exact raised _ ((raisedAs_ofCut (raisedAs_splitPrefix literal _)).map _)
  | readU8 | readChar => exact raised _ ((raisedAs_ofCut (raisedAs_splitFirst _)).map _)
  | peekU8 | peekChar => exact raised _ ((raisedAs_splitFirst _).map _)
  | takeRemainingStr => exact raised _ ((raisedAs_ofCut ((raisedAs_intoText _).map _)).map _)
  | takeStrWhile accepts =>
    exact raised _ ((raisedAs_ofCut (Scan.raisedAs_cut_sure (s := .takeStrWhile))).map _)
  | skipStrWhile accepts =>
    exact raised _ ((raisedAs_ofCut (Scan.raisedAs_cut_sure (s := .skipStrWhile))).map _)
  | fail cause => exact raised _ (raisedAs_raise (by simp [own]))
  | takeOpt n | skipOpt n | takeUntilOpt p | takeUntilConsumeOpt p | skipUntilOpt p
  | skipUntilConsumeOpt p | consumeOpt literal =>
    exact raised _ ((raisedAs_ofParts? _).map _)
  | takeWhile p | skipWhile p | takeRemaining | peekOpt n | peekEq literal | atEnd
  | remainingBytes | peekRemaining | peekU8Opt | peekCharOpt =>
    exact raised _ (raisedAs_ok _)

end

end Untrusted
