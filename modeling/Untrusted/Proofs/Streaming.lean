import Mathlib
import Untrusted.Proofs.Containment
import Untrusted.Proofs.FixedWidth
import Untrusted.Proofs.Follows

/-!
# Requirements hold for whole programs

A program over bytes of which more may follow is run on some of them and then, from the start, on
more. What it yielded stays as it was unless it ran into the end of what was there, a final failure
stays final, and no fewer bytes than a failure required are enough.
-/

namespace Untrusted

/-! ## Programs that wait for input -/

def Length.InRange : Length → Prop
  | .given n => n.InRange
  | .last => True

/-- The steps that fail, if at all, for too little input or for what is there. -/
def Action.Streaming : Action → Prop
  | .peek n => n.InRange
  | .take n => n.InRange
  | .skip n => n.InRange
  | .takeArray n => n.InRange
  | .skipWhile p => p.Bytewise
  | .takeUntil p => p.Sought
  | .takeUntilConsume p => p.Sought
  | .skipUntil p => p.Sought
  | .skipUntilConsume p => p.Sought
  | .consume literal => literal.length ≤ Number.wholeLimit
  | .readU8 => True
  | .peekU8 => True
  | .readNum _ _ => True
  | _ => False

/-- The scopes that a failure inside them leaves, with sub-parses of as many bytes as are asked
for. -/
def Scope.Streaming : Scope → Prop
  | .context _ => True
  | .tryTakeConsumed => True
  | .tryVerify _ => True
  | .tryExpect _ => True
  | .tryExpectErased _ => True
  | .sub part => (∃ n, part.length = some n ∧ n.InRange) ∧ part.kind ≠ some .text
  | _ => False

/-- Every failure of a step ends the program, and no choice depends on what a view holds. -/
def Program.Streaming : Program → Prop
  | .done => True
  | .finish a => a.toNumber.InRange ∧ ∀ v, ¬ a.Holds v
  | .choose next =>
    (∀ a a', a.Like False a' → next a' = next a) ∧ ∀ a, (next a).Streaming
  | .repeat _ _ _ => False
  | .act action soft next => soft = false ∧ action.Streaming ∧ next.Streaming
  | .within scope soft body next =>
    soft = false ∧ scope.Streaming ∧ body.Streaming ∧ next.Streaming

theorem Pattern.Bytewise.admissible {p : Pattern} (hp : p.Bytewise) : p.Admissible .bytes := by
  cases p with
  | byte value => exact fun text => by contradiction
  | byteWhere accepts => rfl
  | literal _ | charWhere _ | regex _ | custom _ _ => exact hp.elim

theorem Action.Streaming.admissible {a : Action} (ha : a.Streaming) : a.Admissible .bytes := by
  cases a with
  | skipWhile p => exact Pattern.Bytewise.admissible ha
  | takeWhile p | tryExpectExternal expected parser => exact ha.elim
  | _ => trivial

theorem Scope.Streaming.bodyKind {s : Scope} (hs : s.Streaming) : s.bodyKind .bytes = .bytes := by
  cases s with
  | sub part =>
    cases hk : part.kind with
    | none => simp [Scope.bodyKind, hk]
    | some k =>
      cases k with
      | bytes => simp [Scope.bodyKind, hk]
      | text => exact absurd hk hs.2
  | _ => rfl

theorem Program.Streaming.admissible {p : Program} (hp : p.Streaming) : p.Admissible .bytes := by
  induction p with
  | done => trivial
  | finish a => exact hp.2
  | choose next ih => exact fun a => ih a (hp.2 a)
  | «repeat» most body next ihBody ihNext => exact hp.elim
  | act action soft next ih => exact ⟨hp.2.1.admissible, ih hp.2.2⟩
  | within scope soft body next ihBody ihNext =>
    refine ⟨?_, ihNext hp.2.2.2⟩
    rw [hp.2.1.bodyKind]
    exact ihBody hp.2.2.1

/-! ## Lengths that steps yield -/

theorem Length.InRange.toNumber {n : Length} (hn : n.InRange) {last : Value}
    (hl : last.toNumber.InRange) : (n.toNumber last).InRange := by
  cases n with
  | given n => exact hn
  | last => exact hl

theorem Number.inRange_ofNat {m : Nat} (h : m ≤ 2 ^ 65) : (Number.ofNat m).InRange := by
  intro i hi
  rw [Number.toNat?_ofNat] at hi
  cases hi
  exact Number.le_greatestWhole h

namespace FixedWidth

theorem signed_le (bits n : Nat) : signed bits n ≤ n := by
  unfold signed
  split
  · exact Int.le_refl _
  · exact Int.sub_le_self _ (Int.natCast_nonneg _)

theorem natAbs_signed_le {n : Nat} (h : n < 2 ^ 64) : (signed 64 n).natAbs ≤ 2 ^ 64 := by
  unfold signed
  rw [Nat.one_shiftLeft, Nat.one_shiftLeft]
  split <;> omega

theorem inRange_interpret (kind : NumericKind) {n : Nat} (h : n < 2 ^ 64) :
    (Value.ofReading (interpret kind n)).toNumber.InRange := by
  have int {i : Int} (hi : i ≤ n) : (Number.ofInt i).InRange := Number.inRange_ofInt (by omega)
  cases kind with
  | u64 => exact Number.inRange_round_int (by omega)
  | i64 => exact Number.inRange_round_int (natAbs_signed_le h)
  | f32 => exact Number.inRange_ofBits _
  | f64 => exact Number.inRange_ofBits _
  | u8 | u16 | u32 => exact int (Int.le_refl _)
  | i8 | i16 | i32 => exact int (signed_le _ _)

end FixedWidth

namespace Value

theorem inRange_ofToken (t : Token) : (ofToken t).toNumber.InRange := by
  cases t with
  | byte b => exact Number.inRange_ofNat (by have := b.toNat_lt; omega)
  | char c => exact Number.inRange_nan

end Value

theorem Action.inRange_readNumber (kind : NumericKind) (endian : Endian) (v : View) :
    (readNumber kind endian v).toNumber.InRange := by
  unfold readNumber FixedWidth.decode?
  split
  · exact Number.inRange_nan
  · refine FixedWidth.inRange_interpret kind ?_
    have bound := FixedWidth.ofBytes_lt endian (v.bytes.take kind.width)
    have width : (v.bytes.take kind.width).length ≤ 8 := by
      rw [List.length_take]
      cases kind <;> simp only [NumericKind.width] <;> omega
    calc FixedWidth.ofBytes endian (v.bytes.take kind.width)
        < 256 ^ (v.bytes.take kind.width).length := bound
      _ ≤ 256 ^ 8 := Nat.pow_le_pow_right (by decide) width

/-! ## Steps that run no program -/

open Read

variable {x : Prop} {last last' : Value}

theorem Length.toNumber_congr (n : Length) (h : last'.toNumber = last.toNumber) :
    n.toNumber last' = n.toNumber last := by
  cases n with
  | given n => rfl
  | last => exact h

theorem Action.run_congr (a : Action) (mode : Mode) (h : last'.toNumber = last.toNumber) :
    a.run mode last' = a.run mode last := by
  cases a <;> simp only [run, Length.toNumber_congr _ h]

theorem Action.run_streams {a : Action} (ha : a.Streaming) (hl : last.toNumber.InRange) :
    (a.run .invalid last).Streams Value.Steady x (a.run .invalid last) := by
  have anti := Value.steady_antitone
  have splitAt {n : Number} (hn : n.InRange) (op : Operation) (more : Nat) (v w : View)
      (hv : v.Ahead x more w) :
      CutsAhead View.Matches x more v (v.splitAt .invalid n op) (w.splitAt .invalid n op) :=
    (hv.splitAt hn op).settled
  have cuts {cut : View → Except Failure (View × View)}
      (h : ∀ more v w, v.Ahead x more w → CutsAhead View.Matches x more v (cut v) (cut w)) :
      (ofCut cut).Streams View.Matches x (ofCut cut) :=
    streams_ofCut View.matches_antitone h
  have view (y : Prop) (u u' : View) (h : View.Matches y u u') :
      (Value.view u).Steady y (.view u') :=
    (Value.Like.view h.1).steady rfl
  have nothing (y : Prop) (u u' : View) (_ : View.Matches y u u') :
      Value.Steady y (Action.nothing u) (Action.nothing u') :=
    Value.steady_absent
  have token (y : Prop) (t t' : Token) (h : t = t') : (Value.ofToken t).Steady y (.ofToken t') := by
    subst h
    exact ⟨.same _, Value.inRange_ofToken t⟩
  cases a with
  | peek n => exact streams_look anti (splitAt (ha.toNumber hl) _) (view x)
  | take n => exact streams_map (cuts (splitAt (ha.toNumber hl) _)) view
  | skip n => exact streams_map (cuts (splitAt (ha.toNumber hl) _)) nothing
  | takeArray n =>
    refine streams_map (cuts (splitAt (ha.toNumber hl) _)) fun y u u' h => ?_
    rw [h.2]
    exact (Value.Like.same _).steady rfl
  | skipWhile p => exact streams_skipWhile ha fun _ => Value.steady_absent
  | takeUntil p => exact streams_map (cuts fun more v w hv => (hv.splitUntil ha _).settled) view
  | takeUntilConsume p =>
    exact streams_map (cuts fun more v w hv => (hv.splitUntilConsume ha _).settled) view
  | skipUntil p => exact streams_map (cuts fun more v w hv => (hv.splitUntil ha _).settled) nothing
  | skipUntilConsume p =>
    exact streams_map (cuts fun more v w hv => (hv.splitUntilConsume ha _).settled) nothing
  | consume literal =>
    exact streams_map (cuts fun more v w hv => (hv.splitPrefix ha _).settled) nothing
  | readU8 =>
    refine streams_map (streams_ofCut ?_ fun more v w hv => hv.splitFirst _) token
    exact fun _ _ _ _ _ => id
  | peekU8 => exact streams_look anti (fun more v w hv => hv.splitFirst _) (token x)
  | readNum kind endian =>
    have width : (Number.ofNat kind.width).InRange :=
      Number.inRange_ofNat (by cases kind <;> decide)
    refine streams_map (cuts (splitAt width _)) fun y u u' h => ?_
    refine ⟨?_, Action.inRange_readNumber kind endian u⟩
    rw [Action.readNumber, Action.readNumber, h.2]
    exact .same _
  | _ => exact ha.elim

/-! ## Steps that run a program -/

namespace Part

variable {part : Part} {mode : Mode} {debug : Bool} {body : Read Value} {v head tail u : View}

theorem read_congr (part : Part) (mode : Mode) (debug : Bool) (body : Read Value)
    (h : last'.toNumber = last.toNumber) :
    part.read mode debug last' body = part.read mode debug last body := by
  have split : part.split mode last' = part.split mode last := by
    funext v
    unfold Part.split
    cases part.length with
    | some n => simp only [n.toNumber_congr h]
    | none => rfl
  have take : part.take mode last' = part.take mode last := by
    unfold Part.take
    rw [split]
  unfold read
  rw [take]

theorem read_error {e : Failure} (h : part.split mode last v = .error e) :
    part.read mode debug last body v = ⟨.error e, v, []⟩ := by
  simp [read, take, h]

theorem read_ok (h : part.split mode last v = .ok (head, tail))
    (made : part.convert mode head = .ok u) :
    part.read mode debug last body v = { part.within mode debug body u with rest := tail } := by
  simp [read, take, h, made]

theorem convert_settled (text : part.kind ≠ some .text) (full : head.bound = .fullyBounded)
    (bytes : head.kind = .bytes) : part.convert mode head = .ok head := by
  obtain ⟨source, offset, size, bound, kind, stray⟩ := head
  obtain rfl : bound = .fullyBounded := full
  obtain rfl : kind = .bytes := bytes
  unfold convert
  cases hk : part.kind with
  | none => simp [View.intoBound]
  | some k =>
    cases k with
    | bytes => simp [View.intoBound, View.intoBytes]
    | text => exact absurd hk text

theorem within_streams (part : Part) (h : body.Streams Value.Steady x body) (debug : Bool)
    {more : Nat} {w : View} (hv : v.Ahead x more w) (full : v.bound = .fullyBounded) :
    (part.within .invalid debug body v).Follows Value.Steady x more v
      (part.within .invalid debug body w) := by
  unfold within
  split
  · exact streams_readAll h debug hv full
  · refine (streams_readPartial h debug hv full).map fun y a a' alike => ?_
    exact (Value.Like.pair alike.1.like (.view alike.2)).steady rfl

theorem read_streams {n : Length} (length : part.length = some n)
    (hn : (n.toNumber last).InRange) (text : part.kind ≠ some .text)
    (h : body.Streams Value.Steady x body) (debug : Bool) :
    (part.read .invalid debug last body).Streams Value.Steady x
      (part.read .invalid debug last body) := by
  intro more v w hv
  have cuts := hv.splitAt hn .take
  have split (u : View) :
      part.split .invalid last u = u.splitAt .invalid (n.toNumber last) .take := by
    unfold Part.split
    rw [length]
  rw [← split, ← split] at cuts
  cases cut : part.split .invalid last v with
  | error e =>
    have fails := cuts.fails
    rw [cut] at fails
    rw [read_error cut]
    refine ⟨by simp, fails.again (fun failed => ?_) fun f failed => ?_⟩
    · rw [read_error failed]
    · rw [read_error failed]
      exact ⟨f, rfl⟩
  | ok parts =>
    obtain ⟨parts', cut', ⟨full, head⟩, tail, bound⟩ := cuts.cut parts cut
    have full' := head.bound_iff.2 full
    rw [read_ok cut (convert_settled text full head.leftKind),
      read_ok cut' (convert_settled text full' head.rightKind)]
    have inner := part.within_streams h debug head full
    constructor
    · -- Where the sub-parse left off does not matter: it was in settled bytes.
      intro a ha
      obtain ⟨a', ha', alike, -, bound'⟩ := inner.ok a ha
      have settled := (bound' (by rw [full]; decide)).trans full
      refine ⟨a', ha', Value.steady_antitone (fun hx => ?_) _ _ alike, tail.mono And.left,
        fun _ => bound⟩
      exact ⟨hx.1, by rw [settled]; decide⟩
    · -- A failure in settled bytes is final, also for the view they were taken from.
      intro f failed
      obtain ⟨retry, bare, final, rest⟩ := inner.fails f failed
      exact ⟨retry, bare, fun _ => final full, rest⟩

end Part

namespace Scope

theorem run_congr (s : Scope) (mode : Mode) (debug : Bool) (body : Mode → Read Value)
    (h : last'.toNumber = last.toNumber) :
    s.run mode debug last' body = s.run mode debug last body := by
  cases s with
  | sub part => exact part.read_congr mode debug (body mode) h
  | _ => rfl

theorem confirmed_streams {a a' : Value} (h : a.Steady x a') :
    Option.Rel (Value.Steady x) (confirmed a) (confirmed a') := by
  unfold confirmed
  rw [h.like.confirms_eq]
  split
  · exact .some Value.steady_absent
  · exact .none

theorem present_streams {a a' : Value} (h : a.Steady x a') :
    Option.Rel (Value.Steady x) (present a) (present a') := by
  unfold present
  rw [h.like.isAbsent_eq]
  split
  · exact .none
  · exact .some h

theorem run_streams {s : Scope} (hs : s.Streaming) {body : Mode → Read Value}
    (h : (body .invalid).Streams Value.Steady x (body .invalid))
    (tails : ∀ v : View, v.Sound → v.kind = .bytes → (body .invalid v).rest.TailOf v)
    (debug : Bool) (hl : last.toNumber.InRange) :
    (s.run .invalid debug last body).Streams Value.Steady x (s.run .invalid debug last body) := by
  cases s with
  | context f => exact streams_context h f
  | tryTakeConsumed =>
    refine streams_map (streams_tryTakeConsumed h tails tails) fun y a a' alike => ?_
    exact (Value.Like.pair alike.1.like (.view alike.2)).steady rfl
  | tryVerify expected =>
    exact streams_expect (streams_map h fun y a a' => confirmed_streams) expected _
  | tryExpect expected =>
    exact streams_expect (streams_map h fun y a a' => present_streams) expected _
  | tryExpectErased expected => exact streams_expectErased h expected _
  | sub part =>
    obtain ⟨⟨n, length, hn⟩, text⟩ := hs
    exact part.read_streams length (hn.toNumber hl) text h debug
  | _ => exact hs.elim

end Scope

/-! ## Programs -/

namespace Program

theorem run_tail {p : Program} (hp : p.Streaming) (debug : Bool) (depth : Nat) {v : View}
    (hv : v.Sound) (kind : v.kind = .bytes) :
    (p.run debug .invalid depth .absent v).rest.TailOf v :=
  (p.run_keeps hp.admissible debug .invalid depth Value.in_absent v hv.partOf_self kind).rest

theorem run_streams {p : Program} (hp : p.Streaming) (debug : Bool) (depth : Nat)
    (h : last.Steady x last') :
    (p.run debug .invalid depth last).Streams Value.Steady x
      (p.run debug .invalid depth last') := by
  have anti := Value.steady_antitone
  -- By induction on the program: what one step yielded to the next one in both runs is alike, and
  -- gives the same length even where the views in it differ.
  induction p generalizing depth x last last' with
  | done => exact streams_pure anti h
  | finish a => exact streams_pure anti ⟨.same a, hp.1⟩
  | choose next ih =>
    unfold run
    rw [hp.1 last last' (h.like.mono False.elim)]
    exact ih last (hp.2 last) depth h
  | «repeat» most body next ihBody ihNext => exact hp.elim
  | act action soft next ih =>
    obtain ⟨rfl, ha, hn⟩ := hp
    unfold run
    rw [action.run_congr .invalid h.like.toNumber_eq]
    refine streams_andThen (streams_recorded (action.run_streams ha h.inRange) _ _) ?_ anti
    intro y a a' alike
    exact ih hn depth alike
  | within scope soft body next ihBody ihNext =>
    obtain ⟨rfl, hs, hb, hn⟩ := hp
    let inner (m : Mode) : Read Value := body.run debug m (depth + 1) .absent
    have alike : (inner .invalid).Streams Value.Steady x (inner .invalid) :=
      ihBody hb (depth + 1) Value.steady_absent
    have tails (v : View) (hv : v.Sound) (kind : v.kind = .bytes) :
        (inner .invalid v).rest.TailOf v :=
      body.run_tail hb debug (depth + 1) hv kind
    have outer := scope.run_streams hs alike tails debug h.inRange
    simp only [run, scope.run_congr .invalid debug _ h.like.toNumber_eq]
    refine streams_andThen (streams_recorded outer _ _) ?_ anti
    intro y a a' alike
    exact ihNext hn depth alike

def outcome (debug : Bool) (depth : Nat) (p : Program) (v : View) :
    Except Failure (Value × View) :=
  (readPartial debug (p.start debug .invalid depth) v).result

end Program

/-- Bytes of which more may follow, before and after `q` followed. -/
structure View.Extends (q : List UInt8) (v w : View) : Prop where
  left : v.Sound
  right : w.Sound
  leftKind : v.kind = .bytes
  rightKind : w.kind = .bytes
  leftBound : v.bound = .startBounded
  rightBound : w.bound = .startBounded
  offset : w.offset = v.offset
  bytes : w.bytes = v.bytes ++ q

theorem View.Extends.ahead {q : List UInt8} {v w : View} (h : v.Extends q w)
    (small : w.size ≤ Number.wholeLimit) : v.Ahead True q.length w := by
  have leftBound := h.leftBound
  refine ⟨h.left, h.right, h.leftKind, h.rightKind, small, fun _ => h.offset.symm,
    ⟨q, h.bytes, Nat.le_refl _, ?_⟩, ?_, ?_⟩
  · intro full
    rw [leftBound] at full
    contradiction
  · intro _
    rw [leftBound, h.rightBound]
  · intro undetermined
    rw [leftBound] at undetermined
    contradiction

/-- A program that yields a value, and leaves a rest that is not at an undetermined end, yields the
same value and leaves off at the same place whatever bytes follow. If it fails without a
requirement, it always will, and if it fails with one, no fewer bytes than that are enough. -/
theorem Program.outcome_extends {p : Program} (hp : p.Streaming) {q : List UInt8} {v w : View}
    (h : v.Extends q w) (small : w.size ≤ Number.wholeLimit) (debug : Bool) (depth : Nat) :
    (∀ a rest, p.outcome debug depth v = .ok (a, rest) → rest.bound ≠ .unbounded →
      ∃ a' rest', p.outcome debug depth w = .ok (a', rest') ∧ a.Like True a' ∧
        w.size - rest'.size = v.size - rest.size) ∧
    (p.outcome debug depth v = .error (.invalid none) →
      p.outcome debug depth w = .error (.invalid none)) ∧
    ∀ n, p.outcome debug depth v = .error (.invalid (some n)) → q.length < n.count →
      ∃ f, p.outcome debug depth w = .error f := by
  have ahead := h.ahead small
  have tail := p.run_tail hp debug depth h.left h.leftKind
  have tail' := p.run_tail hp debug depth h.right h.rightKind
  have runs := streams_context (p.run_streams hp debug depth (Value.steady_absent (x := True)))
    (.ofOperation .readPartial) _ v w ahead
  have fails : FailsAhead q.length v (p.outcome debug depth v) (p.outcome debug depth w) :=
    runs.fails.map _ _
  refine ⟨fun a rest result determined => ?_, fun final => ?_, fun n waits few => ?_⟩
  · obtain ⟨b, done, same⟩ := exists_ok_of_map_eq_ok result
    cases same
    obtain ⟨a', done', alike, ahead', -⟩ := runs.ok a done
    refine ⟨a', (p.run debug .invalid depth .absent w).rest, ?_, ?_, ?_⟩
    · exact congrArg (Except.map fun a => (a, (p.run debug .invalid depth .absent w).rest)) done'
    · exact alike.like.mono fun _ => ⟨trivial, determined⟩
    · have aligned : (p.run debug .invalid depth .absent v).rest.offset =
          (p.run debug .invalid depth .absent w).rest.offset :=
        ahead'.aligned ⟨trivial, determined⟩
      have offset := h.offset
      have stop := tail.stop
      have stop' := tail'.stop
      have start := tail.start
      have consumed : (p.run debug .invalid depth .absent w).rest.size ≤ w.size := tail'.size_le
      show w.size - (p.run debug .invalid depth .absent w).rest.size =
        v.size - (p.run debug .invalid depth .absent v).rest.size
      omega
  · obtain ⟨retry, bare, -, again, -⟩ := fails _ final
    cases bare
    exact again rfl
  · obtain ⟨retry, bare, -, -, lacking⟩ := fails _ waits
    cases bare
    exact lacking n rfl few

/-- A frame with its length before it, and a literal of which nothing has arrived yet. -/
theorem Program.outcome_extends_frame :
    let p : Program :=
      .act .readU8 false
        (.within (.sub ⟨some .last, true, none, false⟩) false
          (.within .tryTakeConsumed false (.act (.takeUntil (.byte 7)) false .done) .done)
          (.act (.consume [9, 9]) false .done))
    let v := View.ofSource (.ofBytes 0 [2, 5, 7]) .bytes
    let w := View.ofSource (.ofBytes 1 [2, 5, 7, 9]) .bytes
    p.Streaming ∧ v.Extends [9] w ∧ w.size ≤ Number.wholeLimit ∧
      p.outcome true 0 v = .error (.invalid (some ⟨2, Nat.two_pos⟩)) ∧
      ∃ f, p.outcome true 0 w = .error f := by
  intro p v w
  have streaming : p.Streaming := by
    refine ⟨rfl, trivial, rfl, ⟨⟨.last, rfl, trivial⟩, nofun⟩, ?_, rfl, ?_, trivial⟩
    · exact ⟨rfl, trivial, ⟨rfl, trivial, trivial⟩, trivial⟩
    · show 2 ≤ Number.wholeLimit
      decide
  have extends' : v.Extends [9] w :=
    ⟨View.ofBytes_sound 0 trivial, View.ofBytes_sound 1 trivial, rfl, rfl, rfl, rfl, rfl, rfl⟩
  have small : w.size ≤ Number.wholeLimit := by decide
  have waits : p.outcome true 0 v = .error (.invalid (some ⟨2, Nat.two_pos⟩)) := by cbv
  have sound := Program.outcome_extends streaming extends' small true 0
  exact ⟨streaming, extends', small, waits, sound.2.2 _ waits (by decide)⟩

end Untrusted
