import Mathlib
import Untrusted.Proofs.Ahead.Search
import Untrusted.Proofs.Keeps

/-!
# Reads before and after more bytes arrive

A read that succeeded does so again once more bytes follow, and unless it stands at an undetermined
end it yields the same and stands at the same place. A read that failed without a requirement fails
again, and so does one to which fewer bytes arrived than it required.
-/

namespace Untrusted

/-! ## Values -/

namespace Value

/-- The same value, but that the views it holds are alike only if `x` holds. -/
inductive Like (x : Prop) : Value → Value → Prop where
  | same (a : Value) : Like x a a
  | view {u u' : View} : u.Like x u' → Like x (.view u) (.view u')
  | pair {a a' b b' : Value} : Like x a a' → Like x b b' → Like x (.list [a, b]) (.list [a', b'])

variable {x y : Prop} {a a' : Value}

theorem Like.mono (h : a.Like x a') (hy : y → x) : a.Like y a' := by
  induction h with
  | same a => exact .same a
  | view hu => exact .view fun hy' => hu (hy hy')
  | pair _ _ first second => exact .pair first second

theorem Like.toNumber_eq (h : a.Like x a') : a'.toNumber = a.toNumber := by
  cases h <;> rfl

theorem Like.confirms_eq (h : a.Like x a') : a'.confirms = a.confirms := by
  cases h <;> rfl

theorem Like.isAbsent_eq (h : a.Like x a') : a'.isAbsent = a.isAbsent := by
  cases h <;> rfl

/-- What a step may yield to the next one. A length among it is one that binary64 holds. -/
structure Steady (x : Prop) (a a' : Value) : Prop where
  like : a.Like x a'
  inRange : a.toNumber.InRange

theorem steady_antitone : Antitone Steady := by
  intro y x hy a a' h
  exact ⟨h.like.mono hy, h.inRange⟩

theorem Like.steady (h : a.Like x a') (hn : a.toNumber = .nan) : a.Steady x a' := by
  refine ⟨h, ?_⟩
  rw [hn]
  exact Number.inRange_nan

theorem steady_absent : absent.Steady x absent := (Like.same absent).steady rfl

end Value

/-! ## Failures -/

namespace FailsAhead

variable {α β γ δ : Type} {more : Nat} {v u u' : View} {r : Except Failure α}
  {r' : Except Failure β}

theorem of_ok {a : α} (r' : Except Failure β) : FailsAhead more v (.ok a) r' := by
  intro f failed
  contradiction

theorem of_final {c c' : Cause} (hc : c.requirement = none) (hc' : c'.requirement = none) :
    FailsAhead more v (.error (Mode.invalid.raise c) : Except Failure α)
      (.error (Mode.invalid.raise c') : Except Failure β) := by
  rintro _ ⟨⟩
  refine ⟨none, congrArg Failure.invalid hc, fun _ => rfl, fun _ => ?_, fun n some => ?_⟩
  · rw [Mode.raise, hc']
  · contradiction

theorem again {e : Failure} (h : FailsAhead more v (.error e : Except Failure α) r')
    {s' : Except Failure δ} (final : r' = .error (.invalid none) → s' = .error (.invalid none))
    (kept : ∀ f, r' = .error f → ∃ f', s' = .error f') :
    FailsAhead more v (.error e : Except Failure γ) s' := by
  rintro _ ⟨⟩
  obtain ⟨retry, bare, settled, none, lacking⟩ := h e rfl
  refine ⟨retry, bare, settled, fun hn => final (none hn), fun n some few => ?_⟩
  obtain ⟨f, failed⟩ := lacking n some few
  exact kept f failed

theorem map (h : FailsAhead more v r r') (f : α → γ) (f' : β → δ) :
    FailsAhead more v (r.map f) (r'.map f') := by
  cases r with
  | ok a => exact of_ok _
  | error e =>
    apply h.again
    · intro failed
      rw [failed]
      rfl
    · intro e' failed
      rw [failed]
      exact ⟨e', rfl⟩

theorem scope (h : FailsAhead more v r r') (f : Frame) :
    FailsAhead more v (scope u f r) (Untrusted.scope u' f r') := by
  cases r with
  | ok a => exact of_ok _
  | error e =>
    obtain ⟨retry, rfl, -⟩ := h e rfl
    apply h.again
    · intro failed
      rw [failed]
      rfl
    · intro e' failed
      rw [failed]
      exact ⟨_, rfl⟩

end FailsAhead

/-! ## Reads -/

/-- What came of a read of `v`, and what comes of it when more bytes arrived. -/
structure Outcome.Follows {α : Type} (like : Prop → α → α → Prop) (x : Prop) (more : Nat) (v : View)
    (o o' : Outcome α) : Prop where
  ok : ∀ a, o.result = .ok a → ∃ a', o'.result = .ok a' ∧
    like (x ∧ o.rest.bound ≠ .unbounded) a a' ∧
    o.rest.Ahead (x ∧ o.rest.bound ≠ .unbounded) more o'.rest ∧
    (v.bound ≠ .startBounded → o.rest.bound = v.bound)
  fails : FailsAhead more v o.result o'.result

/-- Reads that go alike from views of which one is ahead of the other. -/
def Read.Streams {α : Type} (like : Prop → α → α → Prop) (x : Prop) (p p' : Read α) : Prop :=
  ∀ more v w, v.Ahead x more w → (p v).Follows like x more v (p' w)

variable {α β : Type} {like : Prop → α → α → Prop} {like' : Prop → β → β → Prop} {x y : Prop}
  {more : Nat} {v w : View}

namespace Outcome.Follows

variable {o o' : Outcome α}

theorem withResult (h : o.Follows like x more v o') {r r' : Except Failure β}
    (ok : ∀ b, r = .ok b → ∃ a, o.result = .ok a ∧ ∀ y a', like y a a' → o'.result = .ok a' →
      ∃ b', r' = .ok b' ∧ like' y b b')
    (fails : FailsAhead more v r r') :
    ({ o with result := r } : Outcome β).Follows like' x more v { o' with result := r' } := by
  refine ⟨fun b hb => ?_, fails⟩
  obtain ⟨a, result, again⟩ := ok b hb
  obtain ⟨a', result', alike, ahead⟩ := h.ok a result
  obtain ⟨b', hb', alike'⟩ := again _ a' alike result'
  exact ⟨b', hb', alike', ahead⟩

theorem withEvents (h : o.Follows like x more v o') (events events' : List Event) :
    { o with events }.Follows like x more v { o' with events := events' } :=
  ⟨h.ok, h.fails⟩

theorem map (h : o.Follows like x more v o') {f : α → β}
    (hf : ∀ y a a', like y a a' → like' y (f a) (f a')) :
    (o.map f).Follows like' x more v (o'.map f) := by
  refine h.withResult (fun b hb => ?_) (h.fails.map f f)
  obtain ⟨a, result, rfl⟩ := exists_ok_of_map_eq_ok hb
  refine ⟨a, result, fun y a' alike result' => ⟨f a', ?_, hf y a a' alike⟩⟩
  rw [result']
  rfl

theorem failed (h : o.Follows like x more v o') {e : Failure} (result : o.result = .error e)
    {s s' : Outcome β} (hs : s.result = .error e)
    (hs' : ∀ f, o'.result = .error f → s'.result = .error f) : s.Follows like' x more v s' := by
  have fails := h.fails
  rw [result] at fails
  refine ⟨fun b hb => ?_, ?_⟩
  · rw [hs] at hb
    contradiction
  · rw [hs]
    exact fails.again (hs' _) fun f again => ⟨f, hs' f again⟩

end Outcome.Follows

/-! ## Cuts -/

def View.Matches (x : Prop) (u u' : View) : Prop := u.Like x u' ∧ u'.bytes = u.bytes

theorem View.matches_antitone : Antitone View.Matches := by
  intro y x hy u u' h
  exact ⟨fun hy' => h.1 (hy hy'), h.2⟩

theorem CutsAhead.settled {r r' : Except Failure (View × View)}
    (h : CutsAhead (View.SettledAhead more) x more v r r') :
    CutsAhead View.Matches x more v r r' := by
  refine ⟨fun parts cut => ?_, h.fails⟩
  obtain ⟨parts', cut', head, rest⟩ := h.cut parts cut
  exact ⟨parts', cut', ⟨head.toLike, head.2.bytes_eq head.1⟩, rest⟩

namespace Read

theorem streams_ofCut (anti : Antitone like) {cut : View → Except Failure (α × View)}
    (h : ∀ more v w, v.Ahead x more w → CutsAhead like x more v (cut v) (cut w)) :
    (ofCut cut).Streams like x (ofCut cut) := by
  intro more v w hv
  have cuts := h more v w hv
  constructor
  · intro a ha
    rw [result_ofCut] at ha
    obtain ⟨parts, done, rfl⟩ := exists_ok_of_map_eq_ok ha
    obtain ⟨parts', done', alike, ahead, bound⟩ := cuts.cut parts done
    rw [ofCut_ok done, ofCut_ok done']
    exact ⟨parts'.1, rfl, anti And.left _ _ alike, ahead.mono And.left, fun _ => bound⟩
  · rw [result_ofCut, result_ofCut]
    exact cuts.fails.map _ _

theorem streams_look (anti : Antitone like') {cut : View → Except Failure (α × View)}
    (h : ∀ more v w, v.Ahead x more w → CutsAhead like x more v (cut v) (cut w)) {f : α → β}
    (hf : ∀ a a', like x a a' → like' x (f a) (f a')) :
    (look fun v => (cut v).map fun parts => f parts.1).Streams like' x
      (look fun v => (cut v).map fun parts => f parts.1) := by
  intro more v w hv
  have cuts := h more v w hv
  constructor
  · intro b hb
    obtain ⟨parts, done, rfl⟩ := exists_ok_of_map_eq_ok hb
    obtain ⟨parts', done', alike, -⟩ := cuts.cut parts done
    refine ⟨f parts'.1, ?_, anti And.left _ _ (hf _ _ alike), hv.mono And.left, fun _ => rfl⟩
    simp only [look, done']
    rfl
  · exact cuts.fails.map _ _

theorem streams_skipWhile {p : Pattern} (hp : p.Bytewise) {b : β} (hb : ∀ y, like' y b b) :
    (map (fun _ => b) (ofParts fun v => v.splitWhile p)).Streams like' x
      (map (fun _ => b) (ofParts fun v => v.splitWhile p)) := by
  intro more v w hv
  refine ⟨fun a ha => ?_, FailsAhead.of_ok _⟩
  cases ha
  exact ⟨b, rfl, hb _, hv.splitWhile hp, hv.left.splitWhile_bound hv.leftKind hp⟩

/-! ## Sequences -/

variable {p p' : Read α}

theorem streams_pure (anti : Antitone like) {a a' : α} (h : like x a a') :
    (pure a).Streams like x (pure a') := by
  intro more v w hv
  refine ⟨?_, FailsAhead.of_ok _⟩
  rintro _ ⟨⟩
  exact ⟨a', rfl, anti And.left _ _ h, hv.mono And.left, fun _ => rfl⟩

theorem streams_map (h : p.Streams like x p') {f : α → β}
    (hf : ∀ y a a', like y a a' → like' y (f a) (f a')) :
    (map f p).Streams like' x (map f p') := by
  intro more v w hv
  exact (h more v w hv).map hf

theorem streams_recorded {p p' : Read Value} {like : Prop → Value → Value → Prop}
    (h : p.Streams like x p') (depth : Nat) (name : String) :
    (recorded depth name p).Streams like x (recorded depth name p') := by
  intro more v w hv
  exact (h more v w hv).withEvents _ _

/-- Past an undetermined end the second read only has to yield something. It cannot get back from
there, so if the whole ends elsewhere, then so did the first read. -/
theorem streams_andThen {next next' : α → Read β} (h : p.Streams like x p')
    (hnext : ∀ y a a', like y a a' → (next a).Streams like' y (next' a')) (anti : Antitone like') :
    (andThen p next).Streams like' x (andThen p' next') := by
  intro more v w hv
  have first := h more v w hv
  cases result : (p v).result with
  | error e =>
    refine first.failed result ?_ fun f failed => ?_
    · rw [andThen_error result]
    · rw [andThen_error failed]
  | ok a =>
    obtain ⟨a', result', alike, ahead, bound⟩ := first.ok a result
    have second := hnext _ a a' alike more _ _ ahead
    rw [andThen_ok result, andThen_ok result']
    constructor
    · intro b hb
      obtain ⟨b', hb', alike', ahead', bound'⟩ := second.ok b hb
      -- The second read does not move the end, so it is undetermined if it was before.
      have settled : (next a (p v).rest).rest.bound ≠ .unbounded →
          (p v).rest.bound ≠ .unbounded := by
        intro determined undetermined
        rw [bound' (by rw [undetermined]; decide)] at determined
        exact determined undetermined
      have weaker (h : x ∧ (next a (p v).rest).rest.bound ≠ .unbounded) :
          (x ∧ (p v).rest.bound ≠ .unbounded) ∧ (next a (p v).rest).rest.bound ≠ .unbounded :=
        ⟨⟨h.1, settled h.2⟩, h.2⟩
      refine ⟨b', hb', anti weaker _ _ alike', ahead'.mono weaker, fun hb => ?_⟩
      have held := bound hb
      rw [← held] at hb
      exact (bound' hb).trans held
    · -- The second read fails as it does from where the first one ended.
      intro f failed
      obtain ⟨retry, bare, full, rest⟩ := second.fails f failed
      refine ⟨retry, bare, fun hb => full ?_, rest⟩
      rw [bound (by rw [hb]; decide), hb]

/-! ## Scopes -/

theorem streams_context (h : p.Streams like x p') (f : Frame) :
    (context f p).Streams like x (context f p') := by
  intro more v w hv
  have inner := h more v w hv
  have kept (o : Outcome α) (u : View) (a : α) : scope u f o.result = .ok a ↔ o.result = .ok a := by
    unfold scope
    cases o.result <;> simp
  refine inner.withResult (fun a ha => ?_) (inner.fails.scope f)
  refine ⟨a, (kept _ _ _).1 ha, fun y a' alike result' => ⟨a', (kept _ _ _).2 result', alike⟩⟩

/-- A value that is missing stays missing. -/
theorem streams_expect {p p' : Read (Option α)} (h : p.Streams (fun y => Option.Rel (like y)) x p')
    (expected : String) (op : Operation) :
    (expect .invalid expected op p).Streams like x (expect .invalid expected op p') := by
  intro more v w hv
  have inner := h more v w hv
  cases result : (p v).result with
  | error e =>
    refine inner.failed result ?_ fun f failed => ?_
    · rw [expect_error result]
    · rw [expect_error failed]
  | ok found =>
    obtain ⟨found', result', alike, rest⟩ := inner.ok found result
    cases alike with
    | some same =>
      rw [expect_some result, expect_some result']
      refine ⟨?_, FailsAhead.of_ok _⟩
      rintro _ ⟨⟩
      exact ⟨_, rfl, same, rest⟩
    | none =>
      rw [expect_none result, expect_none result']
      refine ⟨by simp, FailsAhead.of_final ?_ ?_⟩
      · rw [View.requirement_invalidCause, ite_self]
      · rw [View.requirement_invalidCause, ite_self]

theorem streams_expectErased (h : p.Streams like x p') (expected : String) (op : Operation) :
    (expectErased .invalid expected op p).Streams like x
      (expectErased .invalid expected op p') := by
  intro more v w hv
  have inner := h more v w hv
  cases result : (p v).result with
  | error e =>
    have fails := inner.fails
    rw [result] at fails
    obtain ⟨retry, rfl, settled, -⟩ := fails e rfl
    have same : (if v.bound = .fullyBounded then none else retry) = retry := by
      split
      · rename_i full
        exact (settled full).symm
      · rfl
    rw [expectErased_error result]
    simp only [Mode.raise, View.requirement_invalidCause, Failure.requirement, same]
    refine ⟨by simp, fails.again (fun failed => ?_) fun f failed => ?_⟩
    · rw [expectErased_error failed]
      simp only [Mode.raise, View.requirement_invalidCause, Failure.requirement, ite_self]
    · rw [expectErased_error failed]
      exact ⟨_, rfl⟩
  | ok a =>
    obtain ⟨a', result', follows⟩ := inner.ok a result
    rw [expectErased_ok result, expectErased_ok result']
    refine ⟨?_, FailsAhead.of_ok _⟩
    rintro _ ⟨⟩
    exact ⟨a', rfl, follows⟩

theorem consumedHead_like (hv : v.Ahead x more w) {rest rest' : View}
    (tail : rest.TailOf v) (tail' : rest'.TailOf w) (ahead : rest.Ahead x more rest')
    (determined : x → rest.bound ≠ .unbounded) :
    (v.consumedHead rest).Like x (w.consumedHead rest') := by
  intro hx
  have start := tail.start
  have stop := tail.stop
  have start' := tail'.start
  have stop' := tail'.stop
  have aligned := hv.aligned hx
  have aligned' := ahead.aligned hx
  have size : w.size - rest'.size = v.size - rest.size := by omega
  have bound' : rest'.bound ≠ .unbounded := by
    rw [ahead.kept (determined hx)]
    exact determined hx
  obtain ⟨less, -⟩ := hv.size_eq
  rw [hv.left.consumedHead_eq tail, hv.right.consumedHead_eq tail', if_neg (determined hx),
    if_neg bound', size]
  refine ⟨aligned, rfl, rfl, hv.leftKind.trans hv.rightKind.symm, ?_⟩
  have head := View.bytes_resize (v := v) (n := v.size - rest.size) (by omega) .fullyBounded
  have head' := View.bytes_resize (v := w) (n := v.size - rest.size) (by omega) .fullyBounded
  rw [head, head', hv.take_bytes (by omega)]

theorem streams_tryTakeConsumed (h : p.Streams like x p')
    (tails : ∀ u : View, u.Sound → u.kind = .bytes → (p u).rest.TailOf u)
    (tails' : ∀ u : View, u.Sound → u.kind = .bytes → (p' u).rest.TailOf u) :
    (tryTakeConsumed p).Streams (fun y a a' => like y a.1 a'.1 ∧ a.2.Like y a'.2) x
      (tryTakeConsumed p') := by
  intro more v w hv
  have inner := h more v w hv
  cases result : (p v).result with
  | error e =>
    refine inner.failed result ?_ fun f failed => ?_
    · rw [tryTakeConsumed_error result]
    · rw [tryTakeConsumed_error failed]
  | ok a =>
    obtain ⟨a', result', alike, ahead, bound⟩ := inner.ok a result
    rw [tryTakeConsumed_ok result, tryTakeConsumed_ok result']
    refine ⟨?_, FailsAhead.of_ok _⟩
    rintro _ ⟨⟩
    refine ⟨_, rfl, ⟨alike, ?_⟩, ahead, bound⟩
    exact consumedHead_like (hv.mono And.left) (tails v hv.left hv.leftKind)
      (tails' w hv.right hv.rightKind) ahead And.right

/-! ## Entry points -/

theorem requirement_trailingCause (v rest : View) : (trailingCause v rest).requirement = none := by
  simp [trailingCause, Cause.requirement, Cause.isFatal]

theorem streams_readAll (h : p.Streams like x p') (debug : Bool) (hv : v.Ahead x more w)
    (full : v.bound = .fullyBounded) :
    (readAll .invalid debug p v).Follows like x more v (readAll .invalid debug p' w) := by
  have inner := streams_context h (.ofOperation .readAll) more v w hv
  cases result : (context (.ofOperation .readAll) p v).result with
  | error e =>
    refine inner.failed result ?_ fun f failed => ?_
    · rw [readAll_error result]
    · rw [readAll_error failed]
  | ok a =>
    obtain ⟨a', result', alike, ahead, bound⟩ := inner.ok a result
    have full' : (p v).rest.bound = .fullyBounded := (bound (by rw [full]; decide)).trans full
    obtain ⟨-, -, size⟩ := ahead.size_eq
    have empty : (p' w).rest.isEmpty = (p v).rest.isEmpty := by
      have same : (p' w).rest.size = (p v).rest.size := size full'
      have unstray : (p v).rest.stray = none := ahead.left.unstray
      have unstray' : (p' w).rest.stray = none := ahead.right.unstray
      simp only [View.isEmpty, unstray, unstray', same]
    constructor
    · intro b hb
      rw [readAll_ok result] at hb
      rw [readAll_ok result', empty]
      split at hb
      · rename_i nothing
        cases hb
        exact ⟨a', if_pos nothing, alike, ahead, bound⟩
      · contradiction
    · rw [readAll_ok result, readAll_ok result', empty]
      split
      · exact FailsAhead.of_ok _
      · exact FailsAhead.of_final (requirement_trailingCause _ _) (requirement_trailingCause _ _)

theorem streams_readPartial (h : p.Streams like x p') (debug : Bool) (hv : v.Ahead x more w)
    (full : v.bound = .fullyBounded) :
    (readPartial debug p v).Follows (fun y a a' => like y a.1 a'.1 ∧ a.2.Like y a'.2) x more v
      (readPartial debug p' w) := by
  have inner := streams_context h (.ofOperation .readPartial) more v w hv
  refine ⟨fun found same => ?_, inner.fails.map _ _⟩
  obtain ⟨a, result, rfl⟩ := exists_ok_of_map_eq_ok same
  obtain ⟨a', result', alike, ahead, bound⟩ := inner.ok a result
  have full' := (bound (by rw [full]; decide)).trans full
  refine ⟨(a', (p' w).rest), ?_, ⟨alike, ahead.toLike full'⟩, ahead, bound⟩
  simp only [readPartial, result']
  rfl

end Read
end Untrusted
