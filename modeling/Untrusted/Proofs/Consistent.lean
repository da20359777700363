import Mathlib
import Untrusted.Proofs.Exact
import Untrusted.Proofs.Final
import Untrusted.Proofs.Session

/-!
# When a cause contradicts itself

A cause should say either that no more input helps or how much of it does. All causes do but one: a
text that is too short is measured in bytes against a number of chars, and may be found to have
enough of them.
-/

namespace Untrusted

/-! ## Requirements of lengths -/

namespace Number

theorem roundMagnitude_nonneg {n d : Nat} {m : Rat} (h : roundMagnitude n d = some m) : 0 ≤ m := by
  unfold roundMagnitude at h
  simp only [Option.ite_none_right_eq_some, Option.some.injEq] at h
  obtain ⟨-, rfl⟩ := h
  split
  · exact Nat.cast_nonneg _
  · rw [Rat.mkRat_eq_div]
    positivity

theorem greatest_zero_of_le {x : Number} (h : x.le 0 = true) : greatest 0 x = 0 := by
  have zero : (0 : Number) = .finite 0 := rfl
  rw [zero] at h ⊢
  cases x with
  | nan => contradiction
  | infinite negative =>
    cases negative with
    | false => contradiction
    | true => rfl
  | finite q =>
    rw [le_finite, decide_eq_true_eq] at h
    unfold greatest
    simp only [reduceCtorEq, or_self, if_false, le_finite, decide_eq_true_eq]
    split
    · rename_i nonneg
      rw [le_antisymm h nonneg]
    · rfl

theorem le_zero_round {q : Rat} (h : q ≤ 0) : (round q).le 0 = true := by
  have zero : (0 : Number) = .finite 0 := rfl
  unfold round
  rw [zero]
  split
  · simpa [le_finite] using h
  · rename_i far
    have negative : q.num < 0 := by
      by_contra nonneg
      obtain rfl : q = 0 := le_antisymm h (Rat.num_nonneg.1 (Int.not_lt.1 nonneg))
      exact far (by decide)
    split
    · rename_i m found
      simpa [le_finite, negative] using roundMagnitude_nonneg found
    · simp [negative, le]

end Number

namespace Retry

theorem ofHadAndNeeded?_of_le {had needed : Nat} (h : needed ≤ had) :
    ofHadAndNeeded? had needed = none := by
  have difference : (needed : Rat) + -(had : Rat) ≤ 0 := by
    have le : (needed : Rat) ≤ had := Nat.cast_le.2 h
    linarith
  have below : ((Number.ofNat needed).sub (Number.ofNat had)).le 0 = true :=
    Number.le_zero_round difference
  rw [ofHadAndNeeded?, Number.greatest_zero_of_le below]
  exact create?_ofNat 0

end Retry

/-! ## Causes -/

namespace Cause

/-- No more input helps if and only if there is no requirement for more. -/
def Consistent (c : Cause) : Prop := c.isFatal = true ↔ c.requirement = none

/-- The lengths that it expects are ones that binary64 can hold. -/
def Held (c : Cause) : Prop :=
  match c.expectation with
  | .value expected => expected.size ≤ Number.greatestWhole
  | .length least _ => least.InRange
  | .valid _ => True

variable {c : Cause}

theorem consistent_of_isFatal (h : c.isFatal = true) : c.Consistent := by
  simp [Consistent, h, requirement_of_isFatal h]

theorem Exact.consistent {small : Prop} {P : List UInt8 → Prop} (h : c.Exact small P) :
    c.Consistent := by
  cases h with
  | final fatal _ => exact consistent_of_isFatal fatal
  | waits required _ _ => simp [Consistent, required, isFatal_of_requirement required]

end Cause

namespace View

variable {v : View} {c : Cause}

theorem consistent_of_settled (full : v.bound = .fullyBounded) (h : c.input = v) :
    c.Consistent := by
  apply Cause.consistent_of_isFatal
  simp [Cause.isFatal, isBound, h, full]

theorem consistent_invalidCause (v : View) (op : Operation) (expected : String) (span : Span)
    (retry : Option Retry) : (v.invalidCause op expected span retry).Consistent := by
  rw [Cause.Consistent, requirement_invalidCause]
  cases retry <;> simp [invalidCause, Cause.isFatal, isBound]

theorem Sound.consistent_lengthCause (h : v.Sound) {n : Number} (hn : n.InRange)
    (short : ∀ i, n.toNat? = some i → v.size < i) (op : Operation) :
    (v.lengthCause n op).Consistent := by
  by_cases full : v.bound = .fullyBounded
  · refine consistent_of_settled full ?_
    unfold lengthCause
    split <;> rfl
  · exact (h.lengthCause_exact full hn short).consistent

theorem Sound.not_consistent_lengthCause (h : v.Sound) (unsettled : v.bound ≠ .fullyBounded)
    {n : Number} {i : Nat} (length : n.toNat? = some i) (enough : i ≤ v.size) (op : Operation) :
    ¬ (v.lengthCause n op).Consistent := by
  have none : (v.lengthCause n op).requirement = none := by
    rw [h.requirement_lengthCause, length, Option.bind_some, if_neg unsettled,
      Retry.ofHadAndNeeded?_of_le enough]
  have open' : (v.lengthCause n op).isFatal = false := by
    simp [lengthCause, length, Cause.isFatal, isBound, unsettled]
  simp [Cause.Consistent, none, open']

theorem Sound.exists_splitFirst? (h : v.Sound) (filled : 0 < v.size) :
    ∃ first, v.splitFirst? = some first := by
  have whole := h.whole
  have length := h.length_bytes
  have zero : (0 : Number) = Number.ofNat 0 := rfl
  have entry : ∃ t, v.firstEntry? = some t := by
    simp only [ firstEntry?, h.unstray, ahead_eq]
    cases kind : v.kind with
    | bytes =>
      obtain ⟨b, rest, bytes⟩ := List.exists_cons_of_length_pos (l := v.bytes) (by omega)
      exact ⟨_, by rw [bytes]; rfl⟩
    | text =>
      rw [kind] at whole
      obtain ⟨cs, bytes⟩ := Utf8.exists_encode_of_isValid whole
      cases cs with
      | nil =>
        rw [bytes] at length
        simp [Utf8.encode] at length
        omega
      | cons c cs =>
        rw [bytes, Utf8.encode_cons]
        simp [Kind.token?, Utf8.decode_take, Utf8.decode_encodeChar_append]
  obtain ⟨t, found⟩ := entry
  refine ⟨(t.1, (v.cut t.2).2), ?_⟩
  simp [splitFirst?, h.extent_eq, zero, Number.lt_ofNat, filled, found]

/-- Fewer chars than were asked for, but as many bytes. -/
def Miscounts (v : View) (c : Cause) : Prop :=
  v.kind = .text ∧ v.bound ≠ .fullyBounded ∧ ∃ n op i, c = v.lengthCause n op ∧
    n.toNat? = some i ∧ v.splitAt? n = none ∧ i ≤ v.size

theorem held_lengthCause {n : Number} {op : Operation} (h : (v.lengthCause n op).Held) :
    n.InRange := by
  intro i length
  simp only [lengthCause, length, Cause.Held] at h
  exact h i (Number.toNat?_ofNat i)

/-- A cause that an operation finds in a view says either that no more input helps or how much of it
does, unless it counts the chars of a text in bytes. -/
theorem Raises.consistent_iff (h : v.Raises c) (sound : v.Sound) (held : c.Held) :
    c.Consistent ↔ ¬ v.Miscounts c := by
  have one : Number.toNat? 1 = some 1 := Number.toNat?_ofNat 1
  constructor
  · rintro consistent ⟨-, unsettled, n, op, i, rfl, length, -, enough⟩
    exact sound.not_consistent_lengthCause unsettled length enough op consistent
  · intro counts
    cases h with
    | invalid op expected span retry => exact consistent_invalidCause v op expected span retry
    | @tokens n op missing =>
      by_cases full : v.bound = .fullyBounded
      · refine consistent_of_settled full ?_
        exact (Raises.tokens op missing).input_eq
      · refine sound.consistent_lengthCause (held_lengthCause held) (fun i length => ?_) op
        by_contra enough
        -- As many bytes as were asked for can be cut off, but not always as many chars.
        cases kind : v.kind with
        | bytes =>
          rw [sound.splitAt?_bytes kind, length, Option.bind_some,
            if_pos (Nat.not_lt.1 enough)] at missing
          contradiction
        | text =>
          exact counts ⟨kind, full, n, op, i, rfl, length, missing, Nat.not_lt.1 enough⟩
    | @bytes n op short =>
      refine sound.consistent_lengthCause (held_lengthCause held) (fun i length => ?_) op
      rw [sound.extent_eq, Number.eq_ofNat_of_toNat? length, Number.lt_ofNat] at short
      exact of_decide_eq_true short
    | first op missing =>
      refine sound.consistent_lengthCause (held_lengthCause held) (fun i length => ?_) op
      by_contra filled
      rw [one] at length
      cases length
      obtain ⟨first, found⟩ := sound.exists_splitFirst? (by omega)
      rw [found] at missing
      contradiction
    | @differs literal op other =>
      by_cases full : v.bound = .fullyBounded
      · exact consistent_of_settled full rfl
      · refine (sound.prefixCause_exact full held (fun starts => ?_) op).consistent
        rw [hasPrefix, List.isPrefixOf_iff_prefix.2 starts] at other
        contradiction
    | truncated op found =>
      by_cases full : v.bound = .fullyBounded
      · exact consistent_of_settled full rfl
      · exact (sound.truncated_exact full found op).consistent
    | empty empty =>
      have short : (v.lengthCause 1 .intoNonEmpty).Consistent := by
        refine sound.consistent_lengthCause held (fun i length => ?_) _
        rw [one] at length
        cases length
        simp only [isEmpty, sound.unstray, beq_iff_eq] at empty
        omega
      simp only [lengthCause, one] at short
      exact short
    | trailing rest =>
      exact Cause.consistent_of_isFatal (by simp [Read.trailingCause, Cause.isFatal])

/-- A text of one char is cut after two, as many as it has bytes. More input could help, but how
much is not said, so a failure that keeps the requirement alone is fatal, and a scope that recovers
from failures that can be retried recovers from the one and not from the other. -/
theorem splitAt_miscounts :
    let v := View.ofSource (.ofBytes 0 [0xc3, 0xa9]) .text
    let c := v.lengthCause 2 .splitAt
    let recovers (mode : Mode) : Except Failure Value :=
      ((Scope.recoverIf Failure.isRetryable).run mode false .absent
        (fun m => (Action.take (.given 2)).run m .absent) v).result
    v.Sound ∧ v.splitAt .root 2 .splitAt = .error (Mode.root.raise c) ∧
    (Mode.root.raise c).isFatal = false ∧ (Mode.root.raise c).requirement = none ∧
    (Mode.invalid.raise c).isFatal = true ∧
    recovers .root = .ok .absent ∧ ∃ e, recovers .invalid = .error e := by
  intro v c recovers
  have sound : v.Sound := ofBytes_sound 0 (Utf8.isValid_encode ['é'])
  refine ⟨sound, rfl, rfl, ?_, ?_, ?_, .invalid none, ?_⟩
  · cbv
  · cbv
  · simp only [recovers]
    cbv
  · simp only [recovers]
    cbv

end View

/-! ## Failures -/

namespace Failure

variable {own : Cause → Prop} {v : View} {c : Cause} {e : Failure}

def Consistent (e : Failure) : Prop := e.isFatal = true ↔ e.requirement = none

theorem Of.consistent_iff (h : e.Of c) : e.Consistent ↔ ∀ r, e = .report r → c.Consistent := by
  cases e with
  | report r =>
    unfold Of at h
    subst h
    simp [Consistent, Cause.Consistent, isFatal, requirement]
  | _ => simp [Consistent, isFatal, requirement]

/-- Of a cause of the caller's own, or of one that was found in a sound view. Such a failure does
not contradict itself, unless it reports chars that were counted in bytes. -/
def Accountable (own : Cause → Prop) (e : Failure) : Prop :=
  ∃ c, e.Of c ∧ (own c ∨ ∃ u : View, u.Sound ∧ u.Raises c ∧
    (c.Held → (e.Consistent ↔ ∀ r, e = .report r → ¬ u.Miscounts c)))

theorem Of.accountable (h : e.Of c) (sound : v.Sound) (raises : v.Raises c) :
    e.Accountable own := by
  refine ⟨c, h, .inr ⟨v, sound, raises, fun held => ?_⟩⟩
  rw [h.consistent_iff, raises.consistent_iff sound held]

theorem Accountable.leave (h : e.Accountable own) (f : Frame) (v : View) :
    (e.leave f v).Accountable own := by
  obtain ⟨c, of, brought | ⟨u, sound, raises, -⟩⟩ := h
  · exact ⟨c, of.leave f v, .inl brought⟩
  · exact (of.leave f v).accountable sound raises

end Failure

variable {own : Cause → Prop} {given : View → Prop} {k : Kind} {v e : View}

theorem View.Fails.accountable {α : Type} {r : Except Failure α} (h : v.Fails own r)
    (sound : v.Sound) : ∀ f, r = .error f → f.Accountable own := by
  intro f failed
  obtain ⟨c, of, brought | raises⟩ := h f failed
  · exact ⟨c, of, .inl brought⟩
  · exact of.accountable sound raises

/-! ## Reads -/

def Read.Accounts {α : Type} (own : Cause → Prop) (k : Kind) (e : View) (p : Read α) : Prop :=
  ∀ v f, v.PartOf e → v.kind = k → (p v).result = .error f → f.Accountable own

namespace Read

variable {α β : Type} {good : α → Prop} {p : Read α}

theorem accounts_map (h : p.Accounts own k e) (f : α → β) : (map f p).Accounts own k e := by
  intro v f' hv hk failed
  cases result : (p v).result with
  | error e' =>
    simp only [map, Outcome.map, result, Except.map] at failed
    cases failed
    exact h v _ hv hk result
  | ok a => simp [map, Outcome.map, result, Except.map] at failed

theorem accounts_pure {a : α} : (pure a).Accounts own k e := by
  intro v f hv hk failed
  contradiction

theorem accounts_andThen {next : α → Read β} (h : p.Accounts own k e) (kept : p.Keeps k e good)
    (hnext : ∀ a, good a → (next a).Accounts own k e) : (andThen p next).Accounts own k e := by
  intro v f hv hk failed
  have first := kept v hv hk
  cases result : (p v).result with
  | error e' =>
    rw [andThen_error result] at failed
    cases failed
    exact h v _ hv hk result
  | ok a =>
    rw [andThen_ok result] at failed
    exact hnext a (first.value a result) (p v).rest f (first.rest.partOf.trans hv)
      (first.rest.kind.trans hk) failed

theorem accounts_unfailing {p : Read Value} : (unfailing p).Accounts own k e := by
  intro v f hv hk failed
  contradiction

theorem accounts_context (h : p.Accounts own k e) (f : Frame) :
    (context f p).Accounts own k e := by
  intro v f' hv hk failed
  cases result : (p v).result with
  | ok a => simp [context, scope, result] at failed
  | error e' =>
    simp only [context, scope, result] at failed
    cases failed
    exact (h v e' hv hk result).leave f v

theorem accounts_tryTakeConsumed (h : p.Accounts own k e) :
    (tryTakeConsumed p).Accounts own k e := by
  intro v f hv hk failed
  cases result : (p v).result with
  | ok a => simp [tryTakeConsumed_ok result] at failed
  | error e' =>
    simp only [tryTakeConsumed_error result] at failed
    cases failed
    exact h v _ hv hk result

theorem accounts_recoverIf (h : p.Accounts own k e) (accepts : Failure → Bool) :
    (recoverIf accepts p).Accounts own k e := by
  intro v f hv hk failed
  cases result : (p v).result with
  | ok a => simp [recoverIf_ok result] at failed
  | error e' =>
    cases accepted : accepts e' with
    | true => simp [recoverIf_accepted result accepted] at failed
    | false =>
      simp only [recoverIf_refused result accepted] at failed
      cases failed
      exact (h v e' hv hk result).leave (.ofOperation .recoverIf) v

theorem accounts_errorScope (h : p.Accounts own k e) : (errorScope p).Accounts own k e := by
  intro v f hv hk failed
  cases result : (p v).result with
  | ok a => simp [errorScope, restoring_ok result, result] at failed
  | error e' =>
    simp only [errorScope, restoring_error result, result] at failed
    cases failed
    exact h v _ hv hk result

theorem accounts_expect {p : Read (Option α)} (h : p.Accounts own k e) (mode : Mode)
    (expected : String) (op : Operation) : (expect mode expected op p).Accounts own k e := by
  intro v f hv hk failed
  cases result : (p v).result with
  | error e' =>
    simp only [expect_error result] at failed
    cases failed
    exact h v _ hv hk result
  | ok found =>
    cases found with
    | some a => simp [expect_some result] at failed
    | none =>
      simp only [expect_none result] at failed
      cases failed
      exact (Failure.of_raise mode _).accountable hv.sound (.invalid op _ _ _)

theorem accounts_expectErased (mode : Mode) (expected : String) (op : Operation) :
    (expectErased mode expected op p).Accounts own k e := by
  intro v f hv hk failed
  cases result : (p v).result with
  | ok a => simp [expectErased_ok result] at failed
  | error e' =>
    simp only [expectErased_error result] at failed
    cases failed
    exact (Failure.of_raise mode _).accountable hv.sound (.invalid op _ _ _)

theorem accounts_readAll (h : p.Accounts own k e) (mode : Mode) (debug : Bool) :
    (readAll mode debug p).Accounts own k e := by
  intro v f hv hk failed
  cases result : (context (.ofOperation .readAll) p v).result with
  | error e' =>
    rw [readAll_error result] at failed
    cases failed
    exact accounts_context h _ v _ hv hk result
  | ok a =>
    rw [readAll_ok result] at failed
    split at failed
    · contradiction
    · cases failed
      exact (Failure.of_raise mode _).accountable hv.sound (.trailing _)

theorem accounts_readPartial (h : p.Accounts own k e) (debug : Bool) :
    (readPartial debug p).Accounts own k e := by
  intro v f hv hk failed
  cases result : (context (.ofOperation .readPartial) p v).result with
  | ok a => simp [readPartial, result, Except.map] at failed
  | error e' =>
    simp only [readPartial, result, Except.map] at failed
    cases failed
    exact accounts_context h _ v _ hv hk result

end Read

open Read

/-! ## Steps -/

theorem Action.run_accounts {a : Action} (uses : a.Uses own) (mode : Mode) (last : Value) :
    (a.run mode last).Accounts own k e := by
  intro v f hv hk failed
  exact (a.run_fails uses mode last v).accountable hv.sound f failed

namespace Part

theorem take_accounts (part : Part) (mode : Mode) (last : Value) :
    (part.take mode last).Accounts own k e := by
  intro v f hv hk failed
  unfold take at failed
  split at failed
  · rename_i short
    cases failed
    exact (part.fails_split mode last v).accountable hv.sound _ short
  · rename_i head rest cut
    obtain ⟨parted, -⟩ := split_parts hv.sound cut
    have head' : (if part.bound then head.intoBound else head).Sound := by
      split
      · exact parted.head.intoBound.sound
      · exact parted.head.sound
    simp only [convert] at failed
    split at failed
    · contradiction
    · contradiction
    · exact (View.fails_intoText mode _).accountable head' f failed

theorem read_accounts (part : Part) {body : Read Value}
    (h : body.Accounts own (part.kind.getD k) e) (mode : Mode) (debug : Bool) (last : Value) :
    (part.read mode debug last body).Accounts own k e := by
  intro v f hv hk failed
  have taken := part.take_keeps mode last v hv hk
  unfold read at failed
  simp only at failed
  split at failed
  · rename_i short
    cases failed
    exact part.take_accounts mode last v _ hv hk short
  · rename_i u found
    obtain ⟨inside, kind⟩ := taken.value u found
    have inner : (part.within mode debug body).Accounts own (part.kind.getD k) e := by
      unfold within
      split
      · exact accounts_readAll h mode debug
      · exact accounts_map (accounts_readPartial h debug) _
    exact inner u f inside kind failed

end Part

theorem Scope.run_accounts (scope : Scope) {body : Mode → Read Value}
    (h : ∀ m, (body m).Accounts own (scope.bodyKind k) e) (mode : Mode) (debug : Bool)
    (last : Value) : (scope.run mode debug last body).Accounts own k e := by
  cases scope with
  | context f => exact accounts_context (h mode) f
  | peekContext f =>
    intro v f' hv hk failed
    exact accounts_context (h mode) f v f' hv hk failed
  | takeConsumed =>
    intro v f hv hk failed
    contradiction
  | tryTakeConsumed => exact accounts_map (accounts_tryTakeConsumed (h mode)) _
  | recover =>
    intro v f hv hk failed
    cases result : (body mode v).result with
    | ok a => simp [run, map, Outcome.map, recover_ok result, Except.map] at failed
    | error f => simp [run, map, Outcome.map, recover_error result, Except.map] at failed
  | recoverIf accepts => exact accounts_map (accounts_recoverIf (h mode) accepts) _
  | errorScope m => exact accounts_errorScope (h m)
  | verify expected | expect expected =>
    exact accounts_expect (accounts_map accounts_unfailing _) mode expected _
  | tryVerify expected | tryExpect expected =>
    exact accounts_expect (accounts_map (h mode) _) mode expected _
  | tryExpectErased expected => exact accounts_expectErased mode expected _
  | sub part => exact part.read_accounts (h mode) mode debug last
  | bypass => exact h .infallible

/-! ## Programs -/

namespace Program

theorem rounds_accounts {body : Read Value} (h : body.Accounts own k e)
    (kept : body.Keeps k e (Value.In e)) (most : Nat) : (rounds body most).Accounts own k e := by
  induction most with
  | zero => exact accounts_pure
  | succ most ih =>
    intro v f hv hk failed
    unfold rounds at failed
    split at failed
    · exact accounts_pure v f hv hk failed
    · exact accounts_andThen h kept (fun a _ => accounts_map ih _) v f hv hk failed

theorem step_accounts {p : Read Value} (h : p.Accounts own k e) (depth : Nat) (name : String)
    (soft : Bool) : (step depth name soft p).Accounts own k e := by
  unfold step
  split
  · exact accounts_unfailing
  · exact h

theorem run_accounts {p : Program} (hp : p.Admissible k) (uses : p.Uses own given) (debug : Bool)
    (mode : Mode) (depth : Nat) {last : Value} (hl : last.In e) :
    (p.run debug mode depth last).Accounts own k e := by
  -- By induction on the program: each step starts at what the one before it left, which is a part
  -- of `e` too.
  induction p generalizing k mode depth last with
  | done => exact accounts_pure
  | finish a => exact accounts_pure
  | choose next ih => exact ih last (hp last) (uses last) mode depth hl
  | «repeat» most body next ihBody ihNext =>
    have kept := body.run_keeps hp.1 debug mode (depth + 1) (Value.in_absent (e := e))
    have inner := ihBody hp.1 uses.1 mode (depth + 1) (Value.in_absent (e := e))
    refine accounts_andThen (rounds_accounts inner kept most) (rounds_keeps kept most) ?_
    intro values hvalues
    exact ihNext hp.2 uses.2 mode depth (Value.in_list.2 hvalues)
  | act action soft next ih =>
    refine accounts_andThen (step_accounts (action.run_accounts uses.1 mode last) _ _ _)
      (step_keeps (action.run_keeps hp.1 mode last) _ _ _) ?_
    intro a ha
    exact ih hp.2 uses.2.2 mode depth ha
  | within scope soft body next ihBody ihNext =>
    have kept (m : Mode) := body.run_keeps hp.1 debug m (depth + 1) (Value.in_absent (e := e))
    have inner (m : Mode) := ihBody hp.1 uses.1 m (depth + 1) (Value.in_absent (e := e))
    refine accounts_andThen (step_accounts (scope.run_accounts inner mode debug last) _ _ _)
      (step_keeps (scope.run_keeps kept mode debug last) _ _ _) ?_
    intro a ha
    exact ihNext hp.2 uses.2 mode depth ha

end Program

theorem Entry.run_accounts {p : Program} (hp : p.Admissible k) (uses : p.Uses own given)
    (entry : Entry) (debug : Bool) (mode : Mode) (depth : Nat) :
    (entry.run debug mode depth p).Accounts own k e := by
  have body (m : Mode) := p.run_accounts hp uses debug m depth (Value.in_absent (e := e))
  cases entry with
  | all => exact accounts_readAll (body mode) mode debug
  | part => exact accounts_map (accounts_readPartial (body mode) debug) _
  | infallible =>
    intro v f hv hk failed
    apply body .infallible v f hv hk
    cases result : (p.start debug .infallible depth v).result with
    | ok a => simp [run, Outcome.map, result, Except.map] at failed
    | error f' =>
      simp only [run, Outcome.map, result, Except.map] at failed
      cases failed
      exact result

/-! ## Inquiries -/

theorem Inquiry.ask_accounts {i : Inquiry} (sound : v.Sound) (hi : i.Admissible v.kind)
    (uses : i.Uses own given) {debug : Bool} {mode : Mode} {f : Failure}
    (failed : (i.ask debug mode v).1 = .result (.error f)) : f.Accountable own := by
  have self := sound.partOf_self
  have found {α : Type} {r : Except Failure α} {g : α → Value} (h : v.Fails own r)
      (failed : Reply.result (r.map g) = .result (.error f)) : f.Accountable own :=
    (h.map g).accountable sound f (Reply.result.inj failed)
  have withRest {α : Type} {p : Read α} {g : α → List Value} (h : p.Accounts own v.kind v)
      (failed : (withRest g (p v)).1 = .result (.error f)) : f.Accountable own := by
    apply h v f self rfl
    cases result : (p v).result with
    | ok a => simp [Inquiry.withRest, result, Except.map] at failed
    | error f' => simpa [Inquiry.withRest, result, Except.map] using failed
  have start {body : Program} (hb : body.Admissible v.kind) (used : body.Uses own given)
      (m : Mode) : (body.start debug m depth).Accounts own v.kind v :=
    body.run_accounts hb used debug m depth Value.in_absent
  cases i with
  | intoText op =>
    simp only [ask] at failed
    split at failed
    · contradiction
    · exact found (View.fails_intoText mode op) failed
  | intoNonEmpty => exact found (View.fails_intoNonEmpty mode) failed
  | splitAt n op => exact found (View.fails_splitAt mode op n) failed
  | splitAtByte n op => exact found (View.fails_splitAtByte mode op n) failed
  | splitFirst op => exact found (View.fails_splitFirst mode op) failed
  | splitPrefix literal op => exact found (View.fails_splitPrefix mode op literal) failed
  | splitUntil p op => exact found (View.fails_splitUntil mode op p) failed
  | splitUntilConsume p op => exact found (View.fails_splitUntilConsume mode op p) failed
  | splitStrWhile accepts op =>
    exact found (View.fails_trySplitStrWhile mode op (Action.uses_sure own accepts)) failed
  | trySplitWhile check op => exact found (View.fails_trySplitWhile mode op uses) failed
  | trySplitStrWhile check op => exact found (View.fails_trySplitStrWhile mode op uses) failed
  | trySplitExternal expected op parser =>
    exact found (View.fails_splitForeign mode op parser expected) failed
  | intoExternal expected parser =>
    have fails : v.Fails own (v.intoForeign mode parser expected) :=
      View.fails_intoForeign mode parser expected
    exact fails.accountable sound f (Reply.result.inj failed)
  | trySplitConsumed body =>
    exact withRest (accounts_tryTakeConsumed (start hi uses mode)) failed
  | splitExpect expected op body =>
    exact withRest (accounts_expect (accounts_map accounts_unfailing _) mode expected op) failed
  | trySplitExpect expected op body =>
    exact withRest (accounts_expect (accounts_map (start hi uses mode) _) mode expected op) failed
  | trySplitExpectErased expected op body =>
    exact withRest (accounts_expectErased mode expected op) failed
  | enter entry body =>
    have run := Entry.run_accounts hi uses entry debug mode depth v f self rfl
    cases entry with
    | all | part => exact run (Reply.result.inj failed)
    | infallible =>
      simp only [ask] at failed
      split at failed
      · contradiction
      · rename_i result
        cases failed
        exact run result
  | _ => contradiction

/-- Every failure that a step, a program or an inquiry comes to over a sound view is fatal if and
only if it has no requirement, but for reports of chars that were counted in bytes. Where the caller
brought the cause along, nothing is said. -/
theorem View.Sound.failures_accountable (sound : v.Sound) (own : Cause → Prop)
    (given : View → Prop) (debug : Bool) (mode : Mode) :
    (∀ (a : Action) (last : Value) (f : Failure), a.Uses own →
      (a.run mode last v).result = .error f → f.Accountable own) ∧
    (∀ (entry : Entry) (p : Program) (depth : Nat) (f : Failure), p.Admissible v.kind →
      p.Uses own given → (entry.run debug mode depth p v).result = .error f →
      f.Accountable own) ∧
    ∀ (i : Inquiry) (f : Failure), i.Admissible v.kind → i.Uses own given →
      (i.ask debug mode v).1 = .result (.error f) → f.Accountable own := by
  have self := sound.partOf_self
  refine ⟨fun a last f uses failed => ?_, fun entry p depth f hp uses failed => ?_,
    fun i f hi uses failed => ?_⟩
  · exact Action.run_accounts uses mode last v f self rfl failed
  · exact Entry.run_accounts hp uses entry debug mode depth v f self rfl failed
  · exact Inquiry.ask_accounts sound hi uses failed

/-- Three chars of a text that has one, of two bytes. -/
theorem View.Sound.failures_accountable_chars :
    let v := View.ofSource (.ofBytes 0 [0xc3, 0xa9]) .text
    let a : Action := .take (.given 3)
    let p : Program := .act a false .done
    v.Sound ∧ a.Uses (fun _ => False) ∧ p.Admissible v.kind ∧
    p.Uses (fun _ => False) (fun _ => False) ∧
    (∃ f, (a.run .root .absent v).result = .error f ∧ f.Accountable fun _ => False) ∧
    ∃ f, (Entry.all.run false .root 0 p v).result = .error f ∧ f.Accountable fun _ => False := by
  intro v a p
  have sound : v.Sound := View.ofBytes_sound 0 (Utf8.isValid_encode ['é'])
  have admissible : p.Admissible v.kind := ⟨trivial, trivial⟩
  have uses : p.Uses (fun _ => False) (fun _ => False) := ⟨trivial, trivial, trivial⟩
  have accounts := sound.failures_accountable (fun _ => False) (fun _ => False) false .root
  exact ⟨sound, trivial, admissible, uses, ⟨_, rfl, accounts.1 a .absent _ trivial rfl⟩,
    _, rfl, accounts.2.1 .all p 0 _ admissible uses rfl⟩

end Untrusted
