import Mathlib
import Untrusted.Program

/-!
# How reads follow each other

Equations for the scopes of a reader by what came of the read inside them, and the steps that a
sequence of reads records.
-/

namespace Untrusted

/-! ## Recorded steps -/

namespace Event

@[simp]
theorem steps_nil : steps [] = [] := rfl

@[simp]
theorem steps_append (a b : List Event) : steps (a ++ b) = steps a ++ steps b := by
  simp [steps, List.filterMap_append]

@[simp]
theorem steps_step (s : Step) : steps [.step s] = [s] := rfl

@[simp]
theorem steps_line (text : String) : steps [.line text] = [] := rfl

end Event

@[simp]
theorem Read.steps_failureLines {α : Type} (debug : Bool) (op : Operation) (r : Except Failure α) :
    Event.steps (Read.failureLines debug op r) = [] := by
  unfold Read.failureLines
  split
  · rfl
  · rfl
  · cases debug <;> rfl

theorem exists_ok_of_map_eq_ok {α β : Type} {f : α → β} {r : Except Failure α} {b : β}
    (h : r.map f = .ok b) : ∃ a, r = .ok a ∧ b = f a := by
  cases r with
  | error _ => contradiction
  | ok a => exact ⟨a, rfl, (Except.ok.inj h).symm⟩

namespace Read

variable {α β : Type} {p : Read α} {next : α → Read β} {v : View}

theorem ofCut_ok {cut : View → Except Failure (α × View)} {parts : α × View}
    (h : cut v = .ok parts) : ofCut cut v = ⟨.ok parts.1, parts.2, []⟩ := by
  unfold ofCut
  rw [h]

theorem ofCut_error {cut : View → Except Failure (α × View)} {e : Failure}
    (h : cut v = .error e) : ofCut cut v = ⟨.error e, v, []⟩ := by
  unfold ofCut
  rw [h]

theorem ofParts?_some {cut : View → Option (View × View)} {parts : View × View}
    (h : cut v = some parts) : ofParts? cut v = ⟨.ok (some parts.1), parts.2, []⟩ := by
  simp [ofParts?, ofCut, h]

theorem ofParts?_none {cut : View → Option (View × View)} (h : cut v = none) :
    ofParts? cut v = ⟨.ok none, v, []⟩ := by
  simp [ofParts?, ofCut, h]

theorem result_ofCut (cut : View → Except Failure (α × View)) (v : View) :
    (ofCut cut v).result = (cut v).map Prod.fst := by
  unfold ofCut
  cases cut v <;> rfl

/-! ## Sequences -/

theorem andThen_ok {a : α} (h : (p v).result = .ok a) :
    andThen p next v =
      { next a (p v).rest with events := (p v).events ++ (next a (p v).rest).events } := by
  simp [andThen, h]

theorem andThen_error {e : Failure} (h : (p v).result = .error e) :
    andThen p next v = ⟨.error e, (p v).rest, (p v).events⟩ := by
  simp [andThen, h]

theorem restoring_ok {o : Outcome α} {a : α} (h : o.result = .ok a) : o.restoring v = o := by
  simp [Outcome.restoring, h]

theorem restoring_error {o : Outcome α} {e : Failure} (h : o.result = .error e) :
    o.restoring v = { o with rest := v } := by
  simp [Outcome.restoring, h]

theorem recover_ok {a : α} (h : (p v).result = .ok a) :
    recover p v = { p v with result := .ok (some a) } := by
  simp [recover, h]

theorem recover_error {e : Failure} (h : (p v).result = .error e) :
    recover p v = { p v with result := .ok none, rest := v } := by
  simp [recover, h]

theorem recoverIf_ok {accepts : Failure → Bool} {a : α} (h : (p v).result = .ok a) :
    recoverIf accepts p v = { p v with result := .ok (some a) } := by
  simp [recoverIf, h]

theorem recoverIf_accepted {accepts : Failure → Bool} {e : Failure} (h : (p v).result = .error e)
    (ha : accepts e = true) :
    recoverIf accepts p v = { p v with result := .ok none, rest := v } := by
  simp [recoverIf, h, ha]

theorem recoverIf_refused {accepts : Failure → Bool} {e : Failure} (h : (p v).result = .error e)
    (ha : accepts e = false) : recoverIf accepts p v =
      { p v with result := scope v (.ofOperation .recoverIf) (.error e), rest := v } := by
  simp [recoverIf, h, ha, scope]

theorem tryTakeConsumed_ok {a : α} (h : (p v).result = .ok a) : tryTakeConsumed p v =
    { p v with result := .ok (a, v.consumedHead (p v).rest) } := by
  simp [tryTakeConsumed, h, Except.map, Outcome.restoring]

theorem tryTakeConsumed_error {e : Failure} (h : (p v).result = .error e) :
    tryTakeConsumed p v = { p v with result := .error e, rest := v } := by
  simp [tryTakeConsumed, h, Except.map, Outcome.restoring]

variable {mode : Mode} {expected : String} {op : Operation}

theorem expect_some {p : Read (Option α)} {a : α} (h : (p v).result = .ok (some a)) :
    expect mode expected op p v = { p v with result := .ok a } := by
  simp [expect, h, Outcome.restoring]

theorem expect_none {p : Read (Option α)} (h : (p v).result = .ok none) :
    expect mode expected op p v = { p v with
      result := .error (mode.raise
        (v.invalidCause op expected (v.consumedHead (p v).rest).span none))
      rest := v } := by
  simp [expect, h, Outcome.restoring]

theorem expect_error {p : Read (Option α)} {e : Failure} (h : (p v).result = .error e) :
    expect mode expected op p v = { p v with result := .error e, rest := v } := by
  simp [expect, h, Outcome.restoring]

theorem expectErased_ok {a : α} (h : (p v).result = .ok a) :
    expectErased mode expected op p v = { p v with result := .ok a } := by
  simp [expectErased, h, Outcome.restoring]

theorem expectErased_error {e : Failure} (h : (p v).result = .error e) :
    expectErased mode expected op p v = { p v with
      result := .error (mode.raise
        (v.invalidCause op expected (v.consumedHead (p v).rest).span e.requirement))
      rest := v } := by
  simp [expectErased, h, Outcome.restoring]

theorem readAll_ok {debug : Bool} {a : α}
    (h : (context (.ofOperation .readAll) p v).result = .ok a) :
    (readAll mode debug p v).result =
      if (p v).rest.isEmpty then .ok a else .error (mode.raise (trailingCause v (p v).rest)) := by
  unfold readAll
  simp only [h]
  rfl

theorem readAll_error {debug : Bool} {e : Failure}
    (h : (context (.ofOperation .readAll) p v).result = .error e) :
    (readAll mode debug p v).result = .error e := by
  simp [readAll, h]

end Read

/-! ## Values made of others -/

namespace Scope

theorem eq_of_present {a b : Value} (h : present a = some b) : b = a := by
  unfold present at h
  split at h
  · contradiction
  · exact (Option.some.inj h).symm

theorem eq_of_confirmed {a b : Value} (h : confirmed a = some b) : b = .absent := by
  unfold confirmed at h
  split at h
  · exact (Option.some.inj h).symm
  · contradiction

end Scope

/-! ## Steps of a program -/

namespace Program

theorem rest_step (depth : Nat) (name : String) (soft : Bool) (p : Read Value) (v : View) :
    (step depth name soft p v).rest = (p v).rest := by
  cases soft <;> rfl

theorem events_step (depth : Nat) (name : String) (soft : Bool) (p : Read Value) (v : View) :
    (step depth name soft p v).events =
      (p v).events ++ [.step ⟨depth, name, v, (p v).rest, (p v).result⟩] := by
  cases soft <;> rfl

end Program
end Untrusted
