import Mathlib
import Untrusted.Proofs.Reader
import Untrusted.Proofs.View.Anchored

/-!
# Steps that find nothing and their siblings that fail

A program of steps that cannot fail goes the way of the program of their siblings, which can, where
each failure is turned into what the step yields if it finds nothing.
-/

namespace Untrusted

/-! ## Runs by given steps -/

namespace Program

/-- Runs a program whose steps that run no program are made by `make`. -/
def runBy (debug : Bool) (make : Mode → Nat → Action → Bool → Value → Read Value) :
    Program → Mode → Nat → Value → Read Value
  | .done, _, _, last => Read.pure last
  | .finish value, _, _, _ => Read.pure value
  | .choose next, mode, depth, last => (next last).runBy debug make mode depth last
  | .repeat most body next, mode, depth, _ =>
    Read.andThen (rounds (body.runBy debug make mode (depth + 1) .absent) most) fun values =>
      next.runBy debug make mode depth (.list values)
  | .act action soft next, mode, depth, last =>
    Read.andThen (make mode depth action soft last) (next.runBy debug make mode depth)
  | .within scope soft body next, mode, depth, last =>
    let inner (m : Mode) : Read Value := body.runBy debug make m (depth + 1) .absent
    Read.andThen (step depth scope.name soft (scope.run mode debug last inner))
      (next.runBy debug make mode depth)

def ownStep (mode : Mode) (depth : Nat) (action : Action) (soft : Bool) (last : Value) :
    Read Value :=
  step depth action.name soft (action.run mode last)

theorem runBy_ownStep (debug : Bool) (p : Program) (mode : Mode) (depth : Nat) (last : Value) :
    p.runBy debug ownStep mode depth last = p.run debug mode depth last := by
  induction p generalizing mode depth last with
  | done => rfl
  | finish a => rfl
  | choose next ih => exact ih last mode depth last
  | «repeat» most body next ihBody ihNext => simp only [runBy, run, ihBody, ihNext]
  | act action soft next ih =>
    simp only [runBy, run]
    rw [funext (ih mode depth)]
    rfl
  | within scope soft body next ihBody ihNext =>
    simp only [runBy, run, ihBody]
    rw [funext (ihNext mode depth)]

end Program

/-! ## Siblings -/

namespace Action

def Infallible : Action → Prop
  | .atEnd => True
  | .remainingBytes => True
  | .peekRemaining => True
  | .takeRemaining => True
  | .peekOpt _ => True
  | .peekEq _ => True
  | .takeOpt _ => True
  | .skipOpt _ => True
  | .takeWhile _ => True
  | .skipWhile _ => True
  | .takeUntilOpt _ => True
  | .takeUntilConsumeOpt _ => True
  | .skipUntilOpt _ => True
  | .skipUntilConsumeOpt _ => True
  | .consumeOpt _ => True
  | .peekU8Opt => True
  | .peekCharOpt => True
  | _ => False

/-- The step that fails where this one finds nothing. -/
def sibling : Action → Action
  | .peekOpt n => .peek n
  | .takeOpt n => .take n
  | .skipOpt n => .skip n
  | .takeUntilOpt p => .takeUntil p
  | .takeUntilConsumeOpt p => .takeUntilConsume p
  | .skipUntilOpt p => .skipUntil p
  | .skipUntilConsumeOpt p => .skipUntilConsume p
  | .consumeOpt literal => .consume literal
  | .peekU8Opt => .peekU8
  | .peekCharOpt => .peekChar
  | a => a

/-- What counts as the value of the step if its sibling comes to `r`: whether it succeeded, for a
step that goes past something, and otherwise its value, if any. -/
def erased (r : Except Failure Value) : Action → Value
  | .skipOpt _ => .bool r.isOk
  | .skipUntilOpt _ => .bool r.isOk
  | .skipUntilConsumeOpt _ => .bool r.isOk
  | .consumeOpt _ => .bool r.isOk
  | _ => .orAbsent r

end Action

namespace Program

def siblingStep (mode : Mode) (depth : Nat) (action : Action) (_soft : Bool) (last : Value) :
    Read Value := fun v =>
  let o := Read.recorded depth action.sibling.name (action.sibling.run mode last) v
  { o with result := .ok (action.erased o.result) }

def Infallible : Program → Prop
  | .done => True
  | .finish _ => True
  | .choose next => ∀ a, (next a).Infallible
  | .repeat _ body next => body.Infallible ∧ next.Infallible
  | .act action _ next => action.Infallible ∧ next.Infallible
  | .within scope _ body next => scope = .takeConsumed ∧ body.Infallible ∧ next.Infallible

end Program

/-! ## One step -/

variable {v : View}

/-- The outcome `o` is `o'` but that its value is made by `f` of what came of the other. Where the
reader stands then, it finds a first token just where a cut does. -/
structure Outcome.ErasedBy (f : Except Failure Value → Value) (o o' : Outcome Value) : Prop where
  result : o.result = .ok (f o'.result)
  rest : o'.rest = o.rest
  anchored : o.rest.Anchored
  events : o.events = [] ∧ o'.events = []

namespace Read

variable {find : View → Option (View × View)} {cut : View → Except Failure (View × View)}

theorem erased_cut (h : v.Anchored) (same : (cut v).toOption = find v)
    (tail : ∀ parts, find v = some parts → parts.2.Anchored) {f : Option View → Value}
    {g : View → Value} {erase : Except Failure Value → Value}
    (found : ∀ u, f (some u) = erase (.ok (g u))) (missing : ∀ e, f none = erase (.error e)) :
    (map f (ofParts? find) v).ErasedBy erase (map g (ofCut cut) v) := by
  unfold map
  cases result : cut v with
  | error e =>
    rw [result] at same
    rw [ofParts?_none same.symm, ofCut_error result]
    exact ⟨congrArg _ (missing e), rfl, h, rfl, rfl⟩
  | ok parts =>
    rw [result] at same
    rw [ofParts?_some same.symm, ofCut_ok result]
    exact ⟨congrArg _ (found parts.1), rfl, tail parts same.symm, rfl, rfl⟩

theorem erased_look {α : Type} {find : Option (α × View)} {cut : Except Failure (α × View)}
    (same : cut.toOption = find) (f : α → Value) :
    Value.ofOption f (find.map Prod.fst) = .orAbsent (cut.map fun parts => f parts.1) := by
  subst same
  cases cut <;> rfl

end Read

open Read View

/-- By the kind of step: both of a pair make the same cut, or look the same thing up. -/
theorem Action.run_erased {a : Action} (ha : a.Infallible) (mode inner : Mode) (last : Value)
    (h : v.Anchored) :
    (a.run inner last v).ErasedBy (a.erased ·) (a.sibling.run mode last v) := by
  cases a with
  | peekOpt n =>
    exact ⟨congrArg _ (erased_look (v.toOption_splitAt ..) .view), rfl, h, rfl, rfl⟩
  | peekU8Opt | peekCharOpt =>
    refine ⟨congrArg Except.ok ?_, rfl, h, rfl, rfl⟩
    rw [h.first?_eq]
    exact erased_look (v.toOption_splitFirst ..) .ofToken
  | takeOpt n =>
    exact erased_cut h (v.toOption_splitAt ..) (fun _ => h.splitAt?) (fun _ => rfl) fun _ => rfl
  | skipOpt n =>
    exact erased_cut h (v.toOption_splitAt ..) (fun _ => h.splitAt?) (fun _ => rfl) fun _ => rfl
  | takeUntilOpt p =>
    exact erased_cut h (v.toOption_splitUntil ..) (fun _ => h.splitUntil?) (fun _ => rfl)
      fun _ => rfl
  | skipUntilOpt p =>
    exact erased_cut h (v.toOption_splitUntil ..) (fun _ => h.splitUntil?) (fun _ => rfl)
      fun _ => rfl
  | takeUntilConsumeOpt p =>
    exact erased_cut h (v.toOption_splitUntilConsume ..) (fun _ => h.splitUntilConsume?)
      (fun _ => rfl) fun _ => rfl
  | skipUntilConsumeOpt p =>
    exact erased_cut h (v.toOption_splitUntilConsume ..) (fun _ => h.splitUntilConsume?)
      (fun _ => rfl) fun _ => rfl
  | consumeOpt literal =>
    exact erased_cut h (v.toOption_splitPrefix ..) (fun _ => h.splitPrefix?) (fun _ => rfl)
      fun _ => rfl
  | atEnd | remainingBytes | peekRemaining | peekEq => exact ⟨rfl, rfl, h, rfl, rfl⟩
  | takeWhile p | skipWhile p => exact ⟨rfl, rfl, h.splitWhile p, rfl, rfl⟩
  | takeRemaining => exact ⟨rfl, rfl, v.anchored_endView, rfl, rfl⟩
  | _ => exact ha.elim

/-! ## Programs -/

/-- A step of an infallible reader and the one that it stands for: made at the same depth, from the
same place to the same place, and with the value that is made of what came of the other. -/
inductive Step.Erases : Step → Step → Prop where
  | act {a : Action} (ha : a.Infallible) (depth : Nat) (before after : View)
      (result : Except Failure Value) :
      Erases ⟨depth, a.name, before, after, .ok (a.erased result)⟩
        ⟨depth, a.sibling.name, before, after, result⟩
  | within (depth : Nat) (name : String) (before after : View) (value : Value) :
      Erases ⟨depth, name, before, after, .ok value⟩ ⟨depth, name, before, after, .ok value⟩

theorem Step.Erases.succeeds {steps steps' : List Step} (h : List.Forall₂ Erases steps steps') :
    ∀ s ∈ steps, ∃ a, s.result = .ok a := by
  induction h with
  | nil => simp
  | cons first _ ih =>
    intro s hs
    rcases List.mem_cons.1 hs with rfl | later
    · cases first <;> exact ⟨_, rfl⟩
    · exact ih s later

/-- Two runs that yield the same value and leave the same rest, step by step. -/
structure Outcome.Erases {α : Type} (o o' : Outcome α) : Prop where
  result : ∃ a, o.result = .ok a ∧ o'.result = .ok a
  rest : o'.rest = o.rest
  anchored : o.rest.Anchored
  steps : List.Forall₂ Step.Erases (Event.steps o.events) (Event.steps o'.events)

namespace Read

variable {α β : Type} {p p' : Read α}

theorem erases_pure (a : α) (h : v.Anchored) : (pure a v).Erases (pure a v) :=
  ⟨⟨a, rfl, rfl⟩, rfl, h, .nil⟩

theorem erases_map (h : (p v).Erases (p' v)) (f : α → β) :
    (map f p v).Erases (map f p' v) := by
  obtain ⟨a, ok, ok'⟩ := h.result
  refine ⟨⟨f a, ?_, ?_⟩, h.rest, h.anchored, h.steps⟩
  · exact congrArg (Except.map f) ok
  · exact congrArg (Except.map f) ok'

theorem erases_andThen (h : (p v).Erases (p' v)) {next next' : α → Read β}
    (hnext : ∀ a w, w.Anchored → (next a w).Erases (next' a w)) :
    (andThen p next v).Erases (andThen p' next' v) := by
  obtain ⟨a, ok, ok'⟩ := h.result
  have later := hnext a (p v).rest h.anchored
  rw [andThen_ok ok, andThen_ok ok', h.rest]
  refine ⟨later.result, later.rest, later.anchored, ?_⟩
  simp only [Event.steps_append]
  exact List.rel_append h.steps later.steps

theorem erases_takeConsumed {p p' : Read Value} (h : (p v).Erases (p' v)) :
    (takeConsumed p v).Erases (takeConsumed p' v) := by
  obtain ⟨a, ok, ok'⟩ := h.result
  refine ⟨⟨(.ok a, v.consumedHead (p v).rest), ?_, ?_⟩, h.rest, h.anchored, h.steps⟩
  · simp only [takeConsumed, ok]
  · simp only [takeConsumed, ok', h.rest]

end Read

namespace Program

theorem rounds_erases {body body' : Read Value}
    (h : ∀ w : View, w.Anchored → (body w).Erases (body' w)) (most : Nat) (hv : v.Anchored) :
    (rounds body most v).Erases (rounds body' most v) := by
  induction most generalizing v with
  | zero => exact erases_pure [] hv
  | succ most ih =>
    unfold rounds
    split
    · exact erases_pure [] hv
    · exact erases_andThen (h v hv) fun a w hw => erases_map (ih hw) _

theorem siblingStep_erases {a : Action} (ha : a.Infallible) (mode inner : Mode) (depth : Nat)
    (soft : Bool) (last : Value) (h : v.Anchored) :
    (step depth a.name soft (a.run inner last) v).Erases
      (siblingStep mode depth a soft last v) := by
  have pair := a.run_erased ha mode inner last h
  have value : (step depth a.name soft (a.run inner last) v).result =
      .ok (a.erased (a.sibling.run mode last v).result) := by
    have result := pair.result
    cases soft with
    | false => exact result
    | true => exact congrArg (fun r => Except.ok (Value.orAbsent r)) result
  refine ⟨⟨_, value, rfl⟩, ?_, ?_, ?_⟩
  · rw [rest_step]
    exact pair.rest
  · rw [rest_step]
    exact pair.anchored
  · rw [events_step, pair.events.1, pair.result]
    change List.Forall₂ _ _
      (Event.steps ((a.sibling.run mode last v).events ++ [.step ⟨_, _, _, _, _⟩]))
    rw [pair.events.2, pair.rest]
    exact .cons (.act ha _ _ _ _) .nil

theorem step_erases {p p' : Read Value} (h : (p v).Erases (p' v)) (depth : Nat) (name : String)
    (soft : Bool) : (step depth name soft p v).Erases (step depth name soft p' v) := by
  obtain ⟨a, ok, ok'⟩ := h.result
  have value {q : Read Value} (ok : (q v).result = .ok a) :
      (step depth name soft q v).result = .ok a := by
    cases soft with
    | false => exact ok
    | true => exact congrArg (fun r => Except.ok (Value.orAbsent r)) ok
  refine ⟨⟨a, value ok, value ok'⟩, ?_, ?_, ?_⟩
  · rw [rest_step, rest_step]
    exact h.rest
  · rw [rest_step]
    exact h.anchored
  · rw [events_step, events_step, Event.steps_append, Event.steps_append, ok, ok', h.rest]
    exact List.rel_append h.steps (.cons (.within _ _ _ _ _) .nil)

theorem runBy_erases {make make' : Mode → Nat → Action → Bool → Value → Read Value}
    {inner mode : Mode}
    (pair : ∀ a : Action, a.Infallible → ∀ (depth : Nat) (soft : Bool) (last : Value) (w : View),
      w.Anchored → (make inner depth a soft last w).Erases (make' mode depth a soft last w))
    {p : Program} (hp : p.Infallible) (debug : Bool) (depth : Nat) (last : Value)
    (h : v.Anchored) :
    (p.runBy debug make inner depth last v).Erases (p.runBy debug make' mode depth last v) := by
  -- By induction on the program: steps that go the same way start from the same place.
  induction p generalizing depth last v with
  | done => exact erases_pure last h
  | finish a => exact erases_pure a h
  | choose next ih => exact ih last (hp last) depth last h
  | «repeat» most body next ihBody ihNext =>
    refine erases_andThen (rounds_erases (fun w hw => ?_) most h) fun values w hw => ?_
    · exact ihBody hp.1 _ _ hw
    · exact ihNext hp.2 depth _ hw
  | act action soft next ih =>
    exact erases_andThen (pair action hp.1 depth soft last v h) fun a w hw => ih hp.2 depth a hw
  | within scope soft body next ihBody ihNext =>
    obtain ⟨rfl, hbody, hnext⟩ := hp
    refine erases_andThen (step_erases ?_ depth _ _) fun a w hw => ihNext hnext depth a hw
    exact erases_map (erases_takeConsumed (ihBody hbody (depth + 1) .absent h)) _

theorem run_erases {p : Program} (hp : p.Infallible) (debug : Bool) (mode inner : Mode)
    (depth : Nat) (last : Value) (h : v.Anchored) :
    (p.run debug inner depth last v).Erases (p.runBy debug siblingStep mode depth last v) := by
  rw [← runBy_ownStep]
  exact runBy_erases (fun a ha depth soft last w hw =>
    siblingStep_erases ha mode inner depth soft last hw) hp debug depth last h

end Program

/-! ## Entry points -/

theorem Event.upToBroken_of_ok {events : List Event}
    (h : ∀ s ∈ steps events, ∃ a, s.result = .ok a) : upToBroken events = (events, none) := by
  induction events with
  | nil => rfl
  | cons e rest ih =>
    have later := ih fun s hs => h s (by
      rw [← List.singleton_append, steps_append]
      exact List.mem_append_right _ hs)
    have whole : e.broken? = none := by
      cases e with
      | line text => rfl
      | step s =>
        obtain ⟨a, ok⟩ := h s (by
          rw [← List.singleton_append, steps_append, steps_step]
          exact List.mem_append_left _ (List.mem_singleton_self s))
        cases s
        cases ok
        rfl
    rw [upToBroken, whole, later]

/-- Runs the siblings of a program's steps, at the entry point that may leave input. -/
def Entry.runSiblings (debug : Bool) (mode : Mode) (depth : Nat) (p : Program) : Read Value :=
  Read.map (fun (a, rest) => .list [a, .view rest])
    (Read.readPartial debug (p.runBy debug Program.siblingStep mode depth .absent))

/-- The program of an infallible reader never breaks, whatever lengths and patterns it is given.
Under any error mode the siblings of its steps, each failure turned into what its step yields if it
finds nothing, yield the same values, leave the same input after each step, and leave the same
rest. -/
theorem Entry.infallible_erases (unstray : v.stray = none) {p : Program} (hp : p.Infallible)
    (debug : Bool) (mode : Mode) (depth : Nat) :
    let o := Entry.infallible.run debug mode depth p v
    let o' := Entry.runSiblings debug mode depth p v
    Event.upToBroken o.events = (o.events, none) ∧
    (∃ a, o.result = .ok (.list [a, .view o.rest])) ∧ o'.result = o.result ∧ o'.rest = o.rest ∧
    List.Forall₂ Step.Erases (Event.steps o.events) (Event.steps o'.events) := by
  intro o o'
  have run := Program.run_erases hp debug mode .infallible depth .absent
    (View.anchored_of_unstray unstray)
  obtain ⟨a, ok, ok'⟩ := run.result
  have value : o.result = .ok (.list [a, .view o.rest]) := by
    change Except.map _ (p.run debug .infallible depth .absent v).result = _
    rw [ok]
    rfl
  have value' : o'.result = .ok (.list [a, .view o.rest]) := by
    change Except.map _ (Except.map _ (scope v _
      (p.runBy debug Program.siblingStep mode depth .absent v).result)) = _
    rw [ok', show o.rest = (p.run debug .infallible depth .absent v).rest from rfl, ← run.rest]
    rfl
  have steps : Event.steps o'.events =
      Event.steps (p.runBy debug Program.siblingStep mode depth .absent v).events := by
    change Event.steps (_ ++ Read.failureLines _ _ _) = _
    rw [Event.steps_append, Read.steps_failureLines, List.append_nil]
    rfl
  refine ⟨Event.upToBroken_of_ok fun s hs => ?_, ⟨a, value⟩, value'.trans value.symm, run.rest,
    steps ▸ run.steps⟩
  exact Step.Erases.succeeds run.steps s hs

/-- A cut at a number that has no value, inside a scope, and a length that is half a byte. -/
theorem Entry.infallible_erases_stray :
    let p : Program :=
      .within .takeConsumed false
        (.act (.takeWhile (.custom (fun _ => none) fun _ => some .nan)) false
          (.act .peekU8Opt false .done))
        (.act (.skipOpt (.given (.finite (1 / 2)))) false .done)
    let v := View.ofSource (.ofBytes 0 [1, 2, 3]) .bytes
    v.stray = none ∧ p.Infallible ∧ (Entry.runSiblings true .full 0 p v).result =
      (Entry.infallible.run true .full 0 p v).result := by
  intro p v
  have infallible : p.Infallible := ⟨rfl, ⟨trivial, trivial, trivial⟩, trivial, trivial⟩
  exact ⟨rfl, infallible, (Entry.infallible_erases rfl infallible true .full 0).2.2.1⟩

end Untrusted
