import Mathlib
import Untrusted.Proofs.Follows
import Untrusted.Proofs.Utf8.Faults

/-!
# Requirements are exact

A read of bytes that failed tells exactly what further bytes can do: without a requirement none of
them make it succeed, and otherwise the requirement is the least number of bytes that do.
-/

namespace Untrusted

/-! ## What a failure tells -/

structure View.ContinuedBy (v : View) (q : List UInt8) (w : View) : Prop where
  sound : w.Sound
  kind : w.kind = .bytes
  bytes : w.bytes = v.bytes ++ q

theorem View.exists_continuedBy (v : View) (q : List UInt8) : ∃ w, v.ContinuedBy q w := by
  refine ⟨.ofSource (.ofBytes 0 (v.bytes ++ q)) .bytes, ofBytes_sound 0 trivial, rfl, ?_⟩
  exact bytes_ofBytes 0 _ _

/-- A failure of the call is fatal if and only if no further bytes make the call succeed, and
otherwise its requirement is the least number of them that do, if the lengths are small. -/
def RetryExact {α : Type} (small : Prop) (call : View → Except Failure α) (v : View) : Prop :=
  ∀ e, call v = .error e →
    (e.isFatal = true ↔ ∀ q w, v.ContinuedBy q w → ∃ f, call w = .error f) ∧
    (e.isFatal = false → ∃ r, e.requirement = some r ∧ (small →
      IsLeast {k | ∃ q w a, q.length = k ∧ v.ContinuedBy q w ∧ call w = .ok a} r.count))

def Mode.TellsRetry (mode : Mode) : Prop := mode = .root ∨ mode = .full ∨ mode = .invalid

/-- A cause tells exactly which further bytes can satisfy `P`. -/
inductive Cause.Exact (small : Prop) (P : List UInt8 → Prop) (c : Cause) : Prop where
  | final : c.isFatal = true → (∀ q, ¬ P q) → Exact small P c
  | waits {r : Retry} {n : Nat} : c.requirement = some r →
      IsLeast {k | ∃ q, q.length = k ∧ P q} n → (small → r.count = n) → Exact small P c

namespace Cause

variable {c : Cause} {small : Prop} {P : List UInt8 → Prop}

theorem requirement_of_isFatal (h : c.isFatal = true) : c.requirement = none := by
  simp [requirement, h]

theorem isFatal_of_requirement {r : Retry} (h : c.requirement = some r) : c.isFatal = false := by
  by_contra fatal
  rw [requirement_of_isFatal (by simpa using fatal)] at h
  contradiction

theorem Exact.raise (h : c.Exact small P) {mode : Mode} (tells : mode.TellsRetry) :
    ((mode.raise c).isFatal = true ↔ ∀ q, ¬ P q) ∧
    ((mode.raise c).isFatal = false → ∃ r, (mode.raise c).requirement = some r ∧ (small →
      IsLeast {k | ∃ q, q.length = k ∧ P q} r.count)) := by
  have same : (mode.raise c).requirement = c.requirement := by
    rcases tells with rfl | rfl | rfl <;> rfl
  cases h with
  | final fatal never =>
    have raised : (mode.raise c).isFatal = true := by
      rcases tells with rfl | rfl | rfl
      · exact fatal
      · exact fatal
      · simp [Mode.raise, Failure.isFatal, requirement_of_isFatal fatal]
    rw [raised]
    exact ⟨by simpa using never, by simp⟩
  | waits required least exact =>
    have raised : (mode.raise c).isFatal = false := by
      rcases tells with rfl | rfl | rfl
      · exact isFatal_of_requirement required
      · exact isFatal_of_requirement required
      · simp [Mode.raise, Failure.isFatal, required]
    obtain ⟨q, -, found⟩ := least.1
    rw [raised, same, required]
    refine ⟨by simpa using ⟨q, found⟩, fun _ => ⟨_, rfl, fun hs => ?_⟩⟩
    rw [exact hs]
    exact least

end Cause

section

variable {α β : Type} {small : Prop} {v : View} {mode : Mode}

theorem retryExact_of {call : View → Except Failure α} (P : List UInt8 → Prop)
    (tells : mode.TellsRetry)
    (succeeds : ∀ w : View, w.Sound → w.kind = .bytes → ((∃ a, call w = .ok a) ↔ P w.bytes))
    (fails : ∀ e, call v = .error e → ∃ c, e = mode.raise c ∧
      c.Exact small fun q => P (v.bytes ++ q)) : RetryExact small call v := by
  intro e failed
  obtain ⟨c, rfl, exact⟩ := fails e failed
  obtain ⟨final, waits⟩ := exact.raise tells
  have holds {q : List UInt8} {w : View} (h : v.ContinuedBy q w) :
      (∃ a, call w = .ok a) ↔ P (v.bytes ++ q) := by
    rw [succeeds w h.sound h.kind, h.bytes]
  constructor
  · rw [final]
    constructor
    · intro never q w h
      cases result : call w with
      | error f => exact ⟨f, rfl⟩
      | ok a => exact absurd ((holds h).1 ⟨a, result⟩) (never q)
    · intro always q found
      obtain ⟨w, h⟩ := v.exists_continuedBy q
      obtain ⟨a, done⟩ := (holds h).2 found
      obtain ⟨f, failed⟩ := always q w h
      rw [done] at failed
      contradiction
  · intro retryable
    obtain ⟨r, required, least⟩ := waits retryable
    refine ⟨r, required, fun hs => ⟨?_, ?_⟩⟩
    · obtain ⟨q, length, found⟩ := (least hs).1
      obtain ⟨w, h⟩ := v.exists_continuedBy q
      obtain ⟨a, done⟩ := (holds h).2 found
      exact ⟨q, w, a, length, h, done⟩
    · rintro k ⟨q, w, a, length, h, done⟩
      exact (least hs).2 ⟨q, length, (holds h).1 ⟨a, done⟩⟩

theorem RetryExact.mono {call : View → Except Failure α} {small' : Prop}
    (h : RetryExact small call v) (hs : small' → small) : RetryExact small' call v := by
  intro e failed
  obtain ⟨final, waits⟩ := h e failed
  refine ⟨final, fun retryable => ?_⟩
  obtain ⟨r, required, least⟩ := waits retryable
  exact ⟨r, required, fun hs' => least (hs hs')⟩

theorem RetryExact.map {call : View → Except Failure α} (h : RetryExact small call v)
    (f : View → α → β) : RetryExact small (fun w => (call w).map (f w)) v := by
  have error {w : View} {e : Failure} : (call w).map (f w) = .error e ↔ call w = .error e := by
    cases call w <;> simp [Except.map]
  have ok {w : View} : (∃ b, (call w).map (f w) = .ok b) ↔ ∃ a, call w = .ok a := by
    cases call w <;> simp [Except.map]
  intro e failed
  obtain ⟨final, waits⟩ := h e (error.1 failed)
  simp only [error]
  refine ⟨final, fun retryable => ?_⟩
  simpa only [exists_and_left, ok] using waits retryable

theorem RetryExact.ofCut {cut : View → Except Failure (α × View)} (h : RetryExact small cut v)
    (f : α → β) : RetryExact small (fun w => (Read.map f (Read.ofCut cut) w).result) v := by
  have same : (fun w => (Read.map f (Read.ofCut cut) w).result) =
      fun w => (cut w).map fun parts => f parts.1 := by
    funext w
    rw [Read.map, Outcome.map, Read.result_ofCut]
    cases cut w <;> rfl
  rw [same]
  exact h.map fun _ parts => f parts.1

end

/-! ## Cuts -/

namespace View

variable {v : View} {mode : Mode} {op : Operation}

theorem Sound.lengthCause_exact (h : v.Sound) (unsettled : v.bound ≠ .fullyBounded) {n : Number}
    (hn : n.InRange) (short : ∀ i, n.toNat? = some i → v.size < i) :
    (v.lengthCause n op).Exact (∀ i, n.toNat? = some i → i ≤ Number.wholeLimit)
      fun q => ∃ i, n.toNat? = some i ∧ i ≤ (v.bytes ++ q).length := by
  have length := h.length_bytes
  cases needed : n.toNat? with
  | none =>
    refine .final ?_ (by simp)
    simp [lengthCause, needed, invalidCause, Cause.isFatal]
  | some i =>
    have missing := short i needed
    obtain ⟨r, some, count⟩ := Retry.exists_ofHadAndNeeded? missing (hn i needed)
    refine .waits (n := i - v.size) (r := r) ?_ ⟨?_, ?_⟩ fun small => count (small i rfl)
    · rw [h.requirement_lengthCause, needed, Option.bind_some, if_neg unsettled, some]
    · refine ⟨.replicate (i - v.size) 0, List.length_replicate, i, rfl, ?_⟩
      rw [List.length_append, List.length_replicate]
      omega
    · rintro k ⟨q, rfl, j, same, enough⟩
      cases same
      rw [List.length_append] at enough
      omega

theorem Sound.splitAt_exact (h : v.Sound) (kind : v.kind = .bytes)
    (unsettled : v.bound ≠ .fullyBounded) (tells : mode.TellsRetry) {n : Number}
    (hn : n.InRange) : RetryExact (∀ i, n.toNat? = some i → i ≤ Number.wholeLimit)
      (fun w => w.splitAt mode n op) v := by
  refine retryExact_of (fun l => ∃ i, n.toNat? = some i ∧ i ≤ l.length) tells ?_ ?_
  · intro w hw kind
    rw [splitAt_eq, hw.splitAt?_bytes kind, hw.length_bytes]
    cases n.toNat? with
    | none => simp
    | some i => by_cases le : i ≤ w.size <;> simp [le]
  · intro e failed
    rw [splitAt_eq] at failed
    cases cut : v.splitAt? n with
    | some parts => simp [cut] at failed
    | none =>
      rw [cut] at failed
      cases failed
      refine ⟨_, rfl, h.lengthCause_exact unsettled hn fun i needed => ?_⟩
      by_contra there
      rw [h.splitAt?_bytes kind, needed, Option.bind_some, if_pos (Nat.not_lt.1 there)] at cut
      contradiction

theorem Sound.splitFirst_exact (h : v.Sound) (kind : v.kind = .bytes)
    (unsettled : v.bound ≠ .fullyBounded) (tells : mode.TellsRetry) :
    RetryExact True (fun w => w.splitFirst mode op) v := by
  have one {i : Nat} : Number.toNat? 1 = some i ↔ i = 1 := by
    rw [show (1 : Number) = Number.ofNat 1 from rfl, Number.toNat?_ofNat,
      Option.some.injEq, eq_comm]
  have inRange : Number.InRange 1 := by
    intro i needed
    rw [one.1 needed]
    exact Number.le_greatestWhole (by decide)
  have counted : RetryExact (∀ i, Number.toNat? 1 = some i → i ≤ Number.wholeLimit)
      (fun w => w.splitFirst mode op) v := by
    refine retryExact_of (fun l => ∃ i, Number.toNat? 1 = some i ∧ i ≤ l.length) tells ?_ ?_
    · intro w hw kind
      rw [splitFirst_eq, hw.splitFirst?_bytes kind]
      cases w.bytes <;> simp [one]
    · intro e failed
      rw [splitFirst_eq] at failed
      cases cut : v.splitFirst? with
      | some first => simp [cut] at failed
      | none =>
        rw [cut] at failed
        cases failed
        refine ⟨_, rfl, h.lengthCause_exact unsettled inRange fun i needed => ?_⟩
        rw [h.splitFirst?_bytes kind, Option.map_eq_none_iff, List.head?_eq_none_iff] at cut
        rw [one.1 needed, ← h.length_bytes, cut]
        decide
  refine counted.mono fun _ i needed => ?_
  rw [one.1 needed]
  decide

theorem Sound.isFatal_prefixCause (h : v.Sound) (unsettled : v.bound ≠ .fullyBounded)
    (literal : List UInt8) (op : Operation) : (v.prefixCause literal op).isFatal =
      !(v.bytes.take literal.length).isPrefixOf literal := by
  have found := h.bytesOf?_start (Nat.min_le_right literal.length v.size)
  have taken : v.bytes.take (min literal.length v.size) = v.bytes.take literal.length := by
    rw [← h.length_bytes, ← List.take_take, List.take_length]
  rw [taken] at found
  simp [prefixCause, h.extent_eq, Number.least_ofNat, Cause.isFatal, Cause.mayBecome, Cause.span,
    found, bytes_ofLiteral, isBound, unsettled]

theorem Sound.prefixCause_exact (h : v.Sound) (unsettled : v.bound ≠ .fullyBounded)
    {literal : List UInt8} (hl : literal.length ≤ Number.greatestWhole)
    (differs : ¬ literal <+: v.bytes) (op : Operation) :
    (v.prefixCause literal op).Exact (literal.length ≤ Number.wholeLimit)
      fun q => literal <+: v.bytes ++ q := by
  have length := h.length_bytes
  by_cases starts : v.bytes.take literal.length <+: literal
  · have short := length_lt_of_take_prefix differs starts
    rw [List.take_of_length_le (Nat.le_of_lt short)] at starts
    obtain ⟨owed, same⟩ := starts
    have shorter : v.size < literal.length := by omega
    obtain ⟨r, some, count⟩ := Retry.exists_ofHadAndNeeded? shorter hl
    refine .waits (n := literal.length - v.size) (r := r) ?_ ⟨⟨owed, ?_, ?_⟩, ?_⟩ count
    · rw [h.requirement_prefixCause, if_neg, Nat.min_eq_right (by omega), some]
      rw [List.take_of_length_le (Nat.le_of_lt short)]
      simpa [unsettled] using ⟨owed, same⟩
    · rw [← same, List.length_append]
      omega
    · rw [same]
    · rintro k ⟨q, rfl, found⟩
      have enough := found.length_le
      rw [List.length_append] at enough
      omega
  · refine .final ?_ fun q found => starts (take_prefix_of_prefix_append found)
    rw [h.isFatal_prefixCause unsettled, Bool.not_eq_true', ← Bool.not_eq_true]
    exact mt List.isPrefixOf_iff_prefix.1 starts

theorem Sound.splitPrefix_exact (h : v.Sound) (unsettled : v.bound ≠ .fullyBounded)
    (tells : mode.TellsRetry) {literal : List UInt8}
    (hl : literal.length ≤ Number.greatestWhole) :
    RetryExact (literal.length ≤ Number.wholeLimit) (fun w => w.splitPrefix mode literal op) v := by
  refine retryExact_of (fun l => literal <+: l) tells ?_ ?_
  · intro w hw kind
    rw [splitPrefix_eq, splitPrefix?, hasPrefix]
    by_cases starts : literal <+: w.bytes
    · simp [starts]
    · simp [starts]
  · intro e failed
    rw [splitPrefix_eq, splitPrefix?, hasPrefix] at failed
    by_cases starts : literal <+: v.bytes
    · simp [starts] at failed
    · rw [if_neg (by simpa using starts)] at failed
      cases failed
      exact ⟨_, rfl, h.prefixCause_exact unsettled hl starts op⟩

/-! ## Text -/

theorem isFatal_invalidCause_none (v : View) (op : Operation) (expected : String) (span : Span) :
    (v.invalidCause op expected span none).isFatal = true := by
  simp [invalidCause, Cause.isFatal]

theorem le_greatestWhole_of_le_maxLength {n : Nat} (h : n ≤ Utf8.maxLength) :
    n ≤ Number.greatestWhole ∧ n ≤ Number.wholeLimit := by
  unfold Utf8.maxLength at h
  exact ⟨Number.le_greatestWhole (by omega), by rw [Number.wholeLimit_eq]; omega⟩

theorem strWhile_exact (unsettled : v.bound ≠ .fullyBounded) (tells : mode.TellsRetry)
    (accepts : Nat → Bool) :
    RetryExact True (fun w => w.trySplitStrWhile mode (Action.sure accepts) op) v := by
  refine retryExact_of
    (fun l => ¬ Utf8.Faulty (fun c => !(Action.sure accepts).passes c.toNat) l) tells ?_ ?_
  · intro w hw kind
    unfold trySplitStrWhile Utf8.Faulty
    split
    · rename_i scanned
      simp [scanned]
    · rename_i scanned
      simp [scanned, Check.stopped, Action.sure]
    · rename_i scanned
      simp [scanned]
    · rename_i scanned
      simp [scanned]
  · intro e failed
    unfold trySplitStrWhile at failed
    split at failed
    · contradiction
    · contradiction
    · rename_i start length scanned
      cases failed
      refine ⟨_, rfl, .final (isFatal_invalidCause_none _ _ _ _) fun q fine => fine ?_⟩
      exact Utf8.faulty_append_of_invalid scanned q
    · rename_i start expected available scanned
      cases failed
      obtain ⟨-, short, most⟩ := Utf8.incomplete_bounds scanned
      obtain ⟨held, small⟩ := le_greatestWhole_of_le_maxLength most
      obtain ⟨r, some, count⟩ := Retry.exists_ofHadAndNeeded? short held
      refine ⟨_, rfl, .waits (r := r) ?_ (Utf8.isLeast_of_incomplete scanned) fun _ => count small⟩
      rw [codePointCause, requirement_invalidCause, if_neg unsettled, some]

theorem Sound.truncated_exact (h : v.Sound) (unsettled : v.bound ≠ .fullyBounded)
    {start expected available : Nat}
    (found : Utf8.problem? v.bytes = some (start, .incomplete expected available))
    (op : Operation) : Cause.Exact True (fun q => ¬ Utf8.Faulty (fun _ => false) (v.bytes ++ q))
      ⟨.length expected none,
        ⟨op, "utf-8 code point", .within v.source (v.position start) v.stop⟩, v⟩ := by
  have inside := h.inside
  have scanned := Utf8.problem?_eq_some_iff.1 found
  obtain ⟨atEnd, short, most⟩ := Utf8.incomplete_bounds scanned
  obtain ⟨held, small⟩ := le_greatestWhole_of_le_maxLength most
  obtain ⟨r, some, count⟩ := Retry.exists_ofHadAndNeeded? short held
  rw [h.length_bytes] at atEnd
  have length : (Span.within v.source (v.position start) v.stop).length =
      Number.ofNat available := by
    simp only [View.stop, position, h.unstray, h.extent_eq, Number.shift_ofNat]
    rw [Span.within_ofNat _ (by omega) (by omega), Span.length, Number.distance_ofNat (by omega)]
    congr 1
    omega
  refine .waits (r := r) ?_ (Utf8.isLeast_of_incomplete scanned) fun _ => count small
  simp [Cause.requirement, Cause.isFatal, Cause.span, length, isBound, unsettled, some]

theorem Sound.intoText_exact (h : v.Sound) (kind : v.kind = .bytes)
    (unsettled : v.bound ≠ .fullyBounded) (tells : mode.TellsRetry) :
    RetryExact True (fun w => w.intoText mode op) v := by
  refine retryExact_of (fun l => ¬ Utf8.Faulty (fun _ => false) l) tells ?_ ?_
  · intro w hw kind
    simp only [Utf8.faulty_never_iff, not_not]
    unfold intoText
    rw [kind]
    simp only
    split
    · rename_i none
      simp [none]
    · rename_i found
      simp [found]
    · rename_i found
      simp [found]
  · intro e failed
    unfold intoText at failed
    rw [kind] at failed
    simp only at failed
    split at failed
    · contradiction
    · rename_i start length found
      cases failed
      refine ⟨_, rfl, .final (isFatal_invalidCause_none _ _ _ _) fun q fine => fine ?_⟩
      exact Utf8.faulty_append_of_invalid (Utf8.problem?_eq_some_iff.1 found) q
    · rename_i found
      cases failed
      exact ⟨_, rfl, h.truncated_exact unsettled found op⟩

end View

/-! ## Steps -/

namespace Action

/-- The steps that read a number of bytes, a literal or a text. -/
def Measured : Action → Prop
  | .take _ | .skip _ | .peek _ | .takeArray _ => True
  | .readU8 | .peekU8 | .readNum _ _ => True
  | .consume _ => True
  | .takeStrWhile _ | .skipStrWhile _ | .takeRemainingStr => True
  | _ => False

/-- The length or the literal that the step is given, if any, is of at most `limit` bytes. -/
def NeedsAtMost (limit : Nat) (last : Value) : Action → Prop
  | .take n | .skip n | .peek n | .takeArray n =>
    ∀ i, (n.toNumber last).toNat? = some i → i ≤ limit
  | .consume literal => literal.length ≤ limit
  | _ => True

theorem run_exact {v : View} (sound : v.Sound) (kind : v.kind = .bytes)
    (unsettled : v.bound ≠ .fullyBounded) {mode : Mode} (tells : mode.TellsRetry) (last : Value)
    {a : Action} (measured : a.Measured) (held : a.NeedsAtMost Number.greatestWhole last) :
    RetryExact (a.NeedsAtMost Number.wholeLimit last) (fun w => (a.run mode last w).result) v := by
  cases a with
  | take n | skip n | takeArray n =>
    exact (sound.splitAt_exact kind unsettled tells held).ofCut _
  | peek n =>
    exact (sound.splitAt_exact kind unsettled tells held).map fun _ parts => Value.view parts.1
  | readU8 => exact (sound.splitFirst_exact kind unsettled tells).ofCut _
  | peekU8 =>
    exact (sound.splitFirst_exact kind unsettled tells).map fun _ first => Value.ofToken first.1
  | readNum number endian =>
    -- No number is wider than eight bytes, so its width is always small.
    have width {i : Nat} (needed : Number.toNat? number.width = some i) : i ≤ 8 := by
      rw [Number.toNat?_ofNat] at needed
      cases needed
      cases number <;> decide
    have inRange : Number.InRange number.width := fun i needed =>
      Number.le_greatestWhole (Nat.le_trans (width needed) (by decide))
    refine ((sound.splitAt_exact kind unsettled tells inRange).ofCut _).mono fun _ i needed => ?_
    exact Nat.le_trans (width needed) (by decide)
  | consume literal => exact (sound.splitPrefix_exact unsettled tells held).ofCut _
  | takeStrWhile accepts | skipStrWhile accepts =>
    exact (View.strWhile_exact unsettled tells accepts).ofCut _
  | takeRemainingStr =>
    exact ((sound.intoText_exact kind unsettled tells).map fun w text => (text, w.endView)).ofCut _
  | _ => contradiction

end Action

namespace View

/-- Over bytes whose end may move, each failure of a step that reads a number of bytes, a literal or
a text, and of a conversion into text, tells exactly what further bytes can do. The lengths that the
step is given are ones that binary64 can hold, and requirements are exact up to 2 ^ 53 bytes. -/
theorem Sound.retries_exact {v : View} (sound : v.Sound) (kind : v.kind = .bytes)
    (unsettled : v.bound ≠ .fullyBounded) {mode : Mode} (tells : mode.TellsRetry) (last : Value) :
    (∀ a : Action, a.Measured → a.NeedsAtMost Number.greatestWhole last →
      RetryExact (a.NeedsAtMost Number.wholeLimit last) (fun w => (a.run mode last w).result) v) ∧
    ∀ op, RetryExact True (fun w => w.intoText mode op) v :=
  ⟨fun _ measured held => Action.run_exact sound kind unsettled tells last measured held,
    fun _ => sound.intoText_exact kind unsettled tells⟩

/-- Two bytes of a char of three. -/
theorem Sound.retries_exact_truncated :
    let v := View.ofSource (.ofBytes 0 [0x68, 0xe2, 0x82]) .bytes
    let a : Action := .takeStrWhile fun c => c != 0x20
    v.Sound ∧ v.kind = .bytes ∧ v.bound ≠ .fullyBounded ∧ Mode.TellsRetry .full ∧
    (∃ e, (a.run .full .absent v).result = .error e ∧ e.isFatal = false) ∧
    RetryExact True (fun w => (a.run .full .absent w).result) v ∧
    RetryExact True (fun w => w.intoText .full .intoText) v := by
  intro v a
  have sound : v.Sound := ofBytes_sound 0 trivial
  have unsettled : v.bound ≠ .fullyBounded := by decide
  have tells : Mode.TellsRetry .full := .inr (.inl rfl)
  have exact := sound.retries_exact rfl unsettled tells .absent
  have scanned : Utf8.scanTo (fun c => !(Action.sure fun c => c != 0x20).passes c.toNat) 0
      v.bytes = (1, some (.error (.incomplete 3 2))) := by
    cbv
  have waits : ∃ e, (a.run .full .absent v).result = .error e ∧ e.isFatal = false := by
    simp only [a, Action.run, Read.map, Outcome.map, Read.result_ofCut, trySplitStrWhile, scanned]
    refine ⟨_, rfl, ?_⟩
    cbv
  exact ⟨sound, rfl, unsettled, tells, waits, exact.1 a trivial trivial, exact.2 .intoText⟩

end View
end Untrusted
