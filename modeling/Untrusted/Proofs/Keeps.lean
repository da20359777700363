import Mathlib
import Untrusted.Proofs.Reader
import Untrusted.Proofs.View.Split

/-!
# Reads stay inside the view they start from

What a read yields, where it leaves the reader, and where each of its steps starts and ends are
parts of one view. A reader never goes back before where a step started.
-/

namespace Untrusted

/-! ## The views that a value holds -/

namespace Value

inductive Holds : Value → View → Prop where
  | view (v : View) : Holds (.view v) v
  | item {values : List Value} {a : Value} {v : View} : a ∈ values → Holds a v →
      Holds (.list values) v
  | field {fields : List (String × Value)} {name : String} {a : Value} {v : View} :
      (name, a) ∈ fields → Holds a v → Holds (.record fields) v

/-- Each view that the value holds is a part of `e`. -/
def In (e : View) (a : Value) : Prop := ∀ u, a.Holds u → u.PartOf e

variable {e u : View}

theorem In.trans {a : Value} (h : a.In u) (hu : u.PartOf e) : a.In e := by
  intro w hw
  exact (h w hw).trans hu

@[simp]
theorem in_absent : absent.In e := by rintro u ⟨⟩

@[simp]
theorem in_bool (b : Bool) : (bool b).In e := by rintro u ⟨⟩

@[simp]
theorem in_number (n : Number) : (number n).In e := by rintro u ⟨⟩

@[simp]
theorem in_text (s : String) : (text s).In e := by rintro u ⟨⟩

@[simp]
theorem in_array (bytes : List UInt8) : (array bytes).In e := by rintro u ⟨⟩

@[simp]
theorem in_span (s : Span) : (span s).In e := by rintro u ⟨⟩

@[simp]
theorem in_view : (view u).In e ↔ u.PartOf e := by
  constructor
  · intro h
    exact h u (.view u)
  · rintro h _ ⟨⟩
    exact h

@[simp]
theorem in_list {values : List Value} : (list values).In e ↔ ∀ a ∈ values, a.In e := by
  constructor
  · intro h a ha u hu
    exact h u (.item ha hu)
  · rintro h u (_ | ⟨ha, hu⟩)
    exact h _ ha u hu

@[simp]
theorem in_ofToken (t : Token) : (ofToken t).In e := by
  cases t with
  | byte b => exact in_number _
  | char c => exact in_text _

theorem in_ofReading (r : Reading) : (ofReading r).In e := by
  cases r with
  | int i => exact in_number _
  | wide i => rintro u ⟨⟩
  | float bits => rintro u ⟨⟩

theorem in_ofOption {α : Type} {f : α → Value} {o : Option α} (h : ∀ a, o = some a → (f a).In e) :
    (ofOption f o).In e := by
  cases o with
  | none => exact in_absent
  | some a => exact h a rfl

theorem in_orAbsent {r : Except Failure Value} (h : ∀ a, r = .ok a → a.In e) :
    (orAbsent r).In e := by
  cases r with
  | ok a => exact h a rfl
  | error _ => exact in_absent

end Value

/-! ## Reads -/

/-- A step started inside `e`, yielded what is inside it, and did not go back. -/
structure Step.In (e : View) (s : Step) : Prop where
  before : s.before.PartOf e
  after : s.after.TailOf s.before
  value : ∀ a, s.result = .ok a → a.In e

/-- A read from `v` that yielded a good value, if any, and whose steps are inside `e`. -/
structure Outcome.In {α : Type} (good : α → Prop) (e v : View) (o : Outcome α) : Prop where
  value : ∀ a, o.result = .ok a → good a
  rest : o.rest.TailOf v
  steps : ∀ s ∈ Event.steps o.events, s.In e

def Read.Keeps {α : Type} (k : Kind) (e : View) (good : α → Prop) (p : Read α) : Prop :=
  ∀ v, v.PartOf e → v.kind = k → (p v).In good e v

section

variable {α β : Type} {e v : View} {good : α → Prop} {good' : β → Prop} {o : Outcome α}

theorem Outcome.in_mk {r : Except Failure α} {rest : View} (hr : ∀ a, r = .ok a → good a)
    (hrest : rest.TailOf v) : Outcome.In good e v ⟨r, rest, []⟩ :=
  ⟨hr, hrest, by simp⟩

theorem Outcome.In.withResult (h : o.In good e v) {r : Except Failure β}
    (hr : ∀ b, r = .ok b → good' b) : ({ o with result := r } : Outcome β).In good' e v :=
  ⟨hr, h.rest, h.steps⟩

theorem Outcome.In.withRest (h : o.In good e v) {rest : View} (hrest : rest.TailOf v) :
    { o with rest }.In good e v :=
  ⟨h.value, hrest, h.steps⟩

theorem Outcome.In.restoring (h : o.In good e v) (sound : v.Sound) :
    (o.restoring v).In good e v := by
  unfold Outcome.restoring
  split
  · exact h
  · exact h.withRest sound.tailOf_self

theorem Outcome.In.withLines (h : o.In good e v) {events : List Event}
    (none : Event.steps events = []) : { o with events := o.events ++ events }.In good e v := by
  refine ⟨h.value, h.rest, ?_⟩
  simp only [Event.steps_append, none, List.append_nil]
  exact h.steps

theorem Outcome.In.map (h : o.In good e v) {f : α → β} (hf : ∀ a, good a → good' (f a)) :
    (o.map f).In good' e v := by
  apply h.withResult
  intro b hb
  obtain ⟨a, result, rfl⟩ := exists_ok_of_map_eq_ok hb
  exact hf a (h.value a result)

end

namespace Read

variable {α β : Type} {k : Kind} {e : View} {good : α → Prop} {good' : β → Prop} {p : Read α}

theorem keeps_map (h : p.Keeps k e good) {f : α → β} (hf : ∀ a, good a → good' (f a)) :
    (map f p).Keeps k e good' := by
  intro v hv hk
  exact (h v hv hk).map hf

theorem keeps_ofCut {cut : View → Except Failure (α × View)}
    (h : ∀ v, v.PartOf e → v.kind = k → ∀ parts, cut v = .ok parts →
      good parts.1 ∧ parts.2.TailOf v) : (ofCut cut).Keeps k e good := by
  intro v hv hk
  unfold ofCut
  split
  · rename_i a tail done
    obtain ⟨ha, hrest⟩ := h v hv hk _ done
    exact Outcome.in_mk (fun _ same => by cases same; exact ha) hrest
  · exact Outcome.in_mk (by simp) hv.sound.tailOf_self

theorem keeps_ofCut_parts {cut : View → Except Failure (View × View)}
    (h : ∀ v : View, v.Sound → v.kind = k → ∀ parts, cut v = .ok parts → v.Cut parts) :
    (ofCut cut).Keeps k e (·.PartOf e) := by
  apply keeps_ofCut
  intro v hv hk parts done
  have parted := h v hv.sound hk parts done
  exact ⟨parted.head.trans hv, parted.tail⟩

theorem keeps_ofParts {cut : View → View × View}
    (h : ∀ v : View, v.Sound → v.kind = k → v.Cut (cut v)) :
    (ofParts cut).Keeps k e (·.PartOf e) := by
  apply keeps_ofCut_parts
  intro v sound hk parts done
  cases done
  exact h v sound hk

theorem keeps_ofParts? {cut : View → Option (View × View)}
    (h : ∀ v, v.Sound → v.kind = k → ∀ parts, cut v = some parts → v.Cut parts) :
    (ofParts? cut).Keeps k e (fun head => ∀ u, head = some u → u.PartOf e) := by
  apply keeps_ofCut
  intro v hv hk parts done
  split at done
  · rename_i head tail found
    cases done
    have parted := h v hv.sound hk _ found
    exact ⟨fun u same => by cases same; exact parted.head.trans hv, parted.tail⟩
  · cases done
    exact ⟨by simp, hv.sound.tailOf_self⟩

theorem keeps_look {f : View → Except Failure α}
    (h : ∀ v, v.PartOf e → ∀ a, f v = .ok a → good a) : (look f).Keeps k e good := by
  intro v hv hk
  exact Outcome.in_mk (h v hv) hv.sound.tailOf_self

/-! ## Sequences -/

theorem keeps_pure {a : α} (h : good a) : (pure a).Keeps k e good := by
  intro v hv hk
  exact Outcome.in_mk (fun _ same => by cases same; exact h) hv.sound.tailOf_self

theorem keeps_andThen {next : α → Read β} (h : p.Keeps k e good)
    (hnext : ∀ a, good a → (next a).Keeps k e good') : (andThen p next).Keeps k e good' := by
  intro v hv hk
  have first := h v hv hk
  cases result : (p v).result with
  | error _ =>
    rw [andThen_error result]
    exact first.withResult (by simp)
  | ok a =>
    have second := hnext a (first.value a result) (p v).rest (first.rest.partOf.trans hv)
      (first.rest.kind.trans hk)
    rw [andThen_ok result]
    refine ⟨second.value, second.rest.trans first.rest, fun s hs => ?_⟩
    rw [Event.steps_append, List.mem_append] at hs
    rcases hs with earlier | later
    · exact first.steps s earlier
    · exact second.steps s later

theorem keeps_unfailing {p : Read Value} (h : p.Keeps k e (Value.In e)) :
    (unfailing p).Keeps k e (Value.In e) := by
  intro v hv hk
  have inner := h v hv hk
  apply inner.withResult
  intro a same
  cases same
  exact Value.in_orAbsent inner.value

theorem keeps_recorded {p : Read Value} (h : p.Keeps k e (Value.In e)) (depth : Nat)
    (name : String) : (recorded depth name p).Keeps k e (Value.In e) := by
  intro v hv hk
  have inner := h v hv hk
  refine ⟨inner.value, inner.rest, fun s hs => ?_⟩
  rw [show (recorded depth name p v).events = (p v).events ++
    [.step ⟨depth, name, v, (p v).rest, (p v).result⟩] from rfl] at hs
  rw [Event.steps_append, Event.steps_step, List.mem_append, List.mem_singleton] at hs
  rcases hs with earlier | rfl
  · exact inner.steps s earlier
  · exact ⟨hv, inner.rest, inner.value⟩

/-! ## Scopes -/

theorem keeps_context (h : p.Keeps k e good) (f : Frame) : (context f p).Keeps k e good := by
  intro v hv hk
  have inner := h v hv hk
  refine inner.withResult fun a same => inner.value a ?_
  unfold scope at same
  split at same
  · rename_i found
    rw [found]
    exact same
  · contradiction

theorem keeps_peekContext (h : p.Keeps k e good) (f : Frame) :
    (peekContext f p).Keeps k e good := by
  intro v hv hk
  exact (keeps_context h f v hv hk).withRest hv.sound.tailOf_self

theorem keeps_takeConsumed {p : Read Value} (h : p.Keeps k e (Value.In e)) :
    (takeConsumed p).Keeps k e
      (fun found => (Value.orAbsent found.1).In e ∧ found.2.PartOf e) := by
  intro v hv hk
  have inner := h v hv hk
  apply inner.withResult
  intro found same
  cases same
  exact ⟨Value.in_orAbsent inner.value, (hv.sound.consumedHead_partOf inner.rest).trans hv⟩

theorem keeps_tryTakeConsumed (h : p.Keeps k e good) :
    (tryTakeConsumed p).Keeps k e (fun found => good found.1 ∧ found.2.PartOf e) := by
  intro v hv hk
  have inner := h v hv hk
  refine Outcome.In.restoring (inner.withResult fun found same => ?_) hv.sound
  obtain ⟨a, result, rfl⟩ := exists_ok_of_map_eq_ok same
  exact ⟨inner.value a result, (hv.sound.consumedHead_partOf inner.rest).trans hv⟩

theorem keeps_recover (h : p.Keeps k e good) :
    (recover p).Keeps k e (fun found => ∀ a, found = some a → good a) := by
  intro v hv hk
  have inner := h v hv hk
  cases result : (p v).result with
  | ok a =>
    rw [recover_ok result]
    apply inner.withResult
    rintro _ ⟨⟩ _ ⟨⟩
    exact inner.value a result
  | error _ =>
    rw [recover_error result]
    refine (inner.withResult ?_).withRest hv.sound.tailOf_self
    rintro _ ⟨⟩ _ ⟨⟩

theorem keeps_recoverIf (h : p.Keeps k e good) (accepts : Failure → Bool) :
    (recoverIf accepts p).Keeps k e (fun found => ∀ a, found = some a → good a) := by
  intro v hv hk
  have inner := h v hv hk
  cases result : (p v).result with
  | ok a =>
    rw [recoverIf_ok result]
    apply inner.withResult
    rintro _ ⟨⟩ _ ⟨⟩
    exact inner.value a result
  | error failure =>
    cases accepted : accepts failure with
    | true =>
      rw [recoverIf_accepted result accepted]
      refine (inner.withResult ?_).withRest hv.sound.tailOf_self
      rintro _ ⟨⟩ _ ⟨⟩
    | false =>
      rw [recoverIf_refused result accepted]
      exact (inner.withResult (by simp)).withRest hv.sound.tailOf_self

theorem keeps_errorScope (h : p.Keeps k e good) : (errorScope p).Keeps k e good := by
  intro v hv hk
  exact (h v hv hk).restoring hv.sound

theorem keeps_expect {p : Read (Option α)}
    (h : p.Keeps k e (fun found => ∀ a, found = some a → good a)) (mode : Mode)
    (expected : String) (op : Operation) : (expect mode expected op p).Keeps k e good := by
  intro v hv hk
  have inner := h v hv hk
  refine Outcome.In.restoring (inner.withResult fun a same => ?_) hv.sound
  split at same
  · contradiction
  · rename_i result
    cases same
    exact inner.value _ result _ rfl
  · contradiction

theorem keeps_expectErased (h : p.Keeps k e good) (mode : Mode) (expected : String)
    (op : Operation) : (expectErased mode expected op p).Keeps k e good := by
  intro v hv hk
  have inner := h v hv hk
  refine Outcome.In.restoring (inner.withResult fun a same => ?_) hv.sound
  split at same
  · rename_i result
    cases same
    exact inner.value _ result
  · contradiction

/-! ## Entry points -/

theorem keeps_readAll (h : p.Keeps k e good) (mode : Mode) (debug : Bool) :
    (readAll mode debug p).Keeps k e good := by
  intro v hv hk
  have inner := keeps_context h (.ofOperation .readAll) v hv hk
  refine Outcome.In.withLines (inner.withResult fun a same => ?_) (steps_failureLines _ _ _)
  split at same
  · contradiction
  · rename_i result
    split at same
    · cases same
      exact inner.value _ result
    · contradiction

theorem keeps_readPartial (h : p.Keeps k e good) (debug : Bool) :
    (readPartial debug p).Keeps k e (fun found => good found.1 ∧ found.2.PartOf e) := by
  intro v hv hk
  have inner := keeps_context h (.ofOperation .readPartial) v hv hk
  refine Outcome.In.withLines (inner.withResult fun found same => ?_) (steps_failureLines _ _ _)
  obtain ⟨a, result, rfl⟩ := exists_ok_of_map_eq_ok same
  exact ⟨inner.value a result, inner.rest.partOf.trans hv⟩

end Read
end Untrusted
