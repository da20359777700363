import Mathlib
import Untrusted.Proofs.Relocation

/-!
# Programs depend only on the bytes in view

A program does the same over a view inside a larger buffer as over a copy of the bytes in view,
whatever stands before and after them: its values, its steps and its failures are the same but for
positions, which are a constant number of places later.
-/

namespace Untrusted

open View (Copied)

variable {w : View} {key : Nat} {k : Kind} {mode : Mode}

/-! ## Programs that ask for no positions -/

/-- A foreign parser that makes the same of a range of the copy as of that of `w`. -/
def Foreign.Oblivious (w : View) (key : Nat) (k : Kind) (parser : Foreign (Value × Number)) :
    Prop :=
  ∀ u, w.Copied key u → u.kind = k →
    parser (w.moved u) = (parser u).map (Prod.map (Value.moved w) id)

def Action.Oblivious (w : View) (key : Nat) (k : Kind) : Action → Prop
  | .tryExpectExternal _ parser => parser.Oblivious w key k
  | _ => True

def Scope.Oblivious (w : View) (key : Nat) : Scope → Prop
  | .recoverIf accepts => ∀ e : Failure, e.Copied w key → accepts (e.moved w) = accepts e
  | _ => True

/-- What the caller brings along, be it a value, a choice of what comes next, a parser or a test of
failures, has nothing to do with positions. -/
def Program.Oblivious (w : View) (key : Nat) (k : Kind) : Program → Prop
  | .done => True
  | .finish a => a.moved w = a
  | .choose next => ∀ a, next (a.moved w) = next a ∧ (next a).Oblivious w key k
  | .repeat _ body next => body.Oblivious w key k ∧ next.Oblivious w key k
  | .act action _ next => action.Oblivious w key k ∧ next.Oblivious w key k
  | .within scope _ body next =>
    scope.Oblivious w key ∧ body.Oblivious w key (scope.bodyKind k) ∧ next.Oblivious w key k

open Read

/-! ## Steps that run no program -/

theorem Length.toNumber_moved (n : Length) (last : Value) :
    n.toNumber (last.moved w) = n.toNumber last := by
  cases n with
  | given n => rfl
  | last => exact Value.toNumber_moved last

theorem Action.run_moved_last (a : Action) (last : Value) :
    a.run mode (last.moved w) = a.run mode last := by
  cases a <;> simp only [run, Length.toNumber_moved]

theorem View.Copied.splitForeign_moved {u : View} (hw : w.Sound) (hu : w.Copied key u)
    {parser : Foreign (Value × Number)} (native : parser.Native u.kind)
    (oblivious : parser.Oblivious w key u.kind) (mode : Mode) (expected : String)
    (op : Operation) :
    (w.moved u).splitForeign mode parser expected op =
      movedResult w (Prod.map (Value.moved w) w.moved)
        (u.splitForeign mode parser expected op) := by
  obtain ⟨placeless, counted⟩ := native u hu.sound rfl
  unfold splitForeign
  rw [oblivious u hu rfl]
  cases parsed : parser u with
  | error f =>
    have located := hu.sound.located_all op expected f.retry
    have moved : (w.moved u).invalidCause op expected (w.moved u).span f.retry =
        (u.invalidCause op expected u.span f.retry).moved w := by
      rw [hu.span_moved hw]
      rfl
    simp only [Except.map, foreignFailure, placeless f parsed, Option.getD_none, moved,
      located.raise_moved hw hu, Failure.foldl_push_moved]
    rfl
  | ok parts =>
    obtain ⟨a, n⟩ := parts
    obtain ⟨i, rfl⟩ := counted a n parsed
    change ((w.moved u).splitAtByte mode i op).map (fun parts => (a.moved w, parts.2)) =
      movedResult w _ ((u.splitAtByte mode i op).map fun parts => (a, parts.2))
    rw [hu.splitAtByte_moved hw]
    exact movedResult_map fun _ _ => rfl

namespace Action

theorem viewOrAbsent_moved (part : Option View) :
    viewOrAbsent (part.map w.moved) = (viewOrAbsent part).moved w :=
  Value.moved_ofOption (fun u => (Value.moved_view u).symm) part

theorem wasFound_moved (part : Option View) :
    wasFound (part.map w.moved) = (wasFound part).moved w := by
  simp [wasFound]

theorem readNumber_moved {head : View} (same : (w.moved head).bytes = head.bytes)
    (kind : NumericKind) (endian : Endian) :
    readNumber kind endian (w.moved head) = (readNumber kind endian head).moved w := by
  unfold readNumber
  rw [same]
  cases FixedWidth.decode? kind endian head.bytes with
  | none => exact Value.moved_absent.symm
  | some r => exact (Value.moved_ofReading r).symm

end Action

theorem View.Copied.splitAt_bytes {u head : View} {n : Number} {op : Operation} (hw : w.Sound)
    (hu : w.Copied key u) (cut : (ofCut (fun v => v.splitAt mode n op) u).result = .ok head) :
    (w.moved head).bytes = head.bytes := by
  rw [result_ofCut] at cut
  obtain ⟨parts, done, rfl⟩ := exists_ok_of_map_eq_ok cut
  exact (hu.of_partOf (hu.sound.splitAt_parts done).1.head).bytes_moved hw

theorem Action.run_moves {a : Action} (hw : w.Sound) (native : a.Native k)
    (oblivious : a.Oblivious w key k) (mode : Mode) (last : Value) :
    (a.run mode last).Moves w key k (Value.moved w) (a.run mode last) := by
  -- Most steps differ only in what they make of the parts of one of these cuts.
  have splitAt (n : Number) (op : Operation) :
      (ofCut fun v => v.splitAt mode n op).Moves w key k w.moved
        (ofCut fun v => v.splitAt mode n op) :=
    moves_ofCut fun u hu _ => hu.splitAt_moved hw mode op n
  have splitFirst (op : Operation) :
      (ofCut fun v => v.splitFirst mode op).Moves w key k id
        (ofCut fun v => v.splitFirst mode op) :=
    moves_ofCut fun u hu _ => hu.splitFirst_moved hw mode op
  have untilMatch (p : Pattern) (op : Operation) :
      (ofCut fun v => v.splitUntil mode p op).Moves w key k w.moved
        (ofCut fun v => v.splitUntil mode p op) :=
    moves_ofCut fun u hu _ => hu.splitUntil_moved hw mode op p
  have pastMatch (p : Pattern) (op : Operation) :
      (ofCut fun v => v.splitUntilConsume mode p op).Moves w key k w.moved
        (ofCut fun v => v.splitUntilConsume mode p op) :=
    moves_ofCut fun u hu _ => hu.splitUntilConsume_moved hw mode op p
  have whileChecked {check : View.Check} (sure : check.Uses fun _ => False) (op : Operation) :
      (ofCut fun v => v.trySplitWhile mode check op).Moves w key k w.moved
        (ofCut fun v => v.trySplitWhile mode check op) :=
    moves_ofCut fun u hu _ => hu.trySplitWhile_moved hw mode op sure
  have strWhile {check : View.Check} (sure : check.Uses fun _ => False) (op : Operation) :
      (ofCut fun v => v.trySplitStrWhile mode check op).Moves w key k w.moved
        (ofCut fun v => v.trySplitStrWhile mode check op) :=
    moves_ofCut fun u hu _ => hu.trySplitStrWhile_moved hw mode op sure
  have view (u : View) : Value.view (w.moved u) = Value.moved w (.view u) :=
    (Value.moved_view u).symm
  have token (t : Token) : Value.ofToken t = Value.moved w (.ofToken t) :=
    (Value.moved_ofToken t).symm
  have nothing {α : Type} (a : α) : Value.absent = Value.moved w (Action.nothing a) :=
    Value.moved_absent.symm
  cases a with
  | peek n =>
    refine moves_look fun u hu _ => ?_
    rw [hu.splitAt_moved hw]
    exact movedResult_map fun parts _ => view parts.1
  | peekOpt n =>
    refine moves_look fun u hu _ => ?_
    rw [hu.splitAt?_moved hw]
    refine congrArg Except.ok ?_
    simpa [View.movedParts, Function.comp_def] using
      viewOrAbsent_moved ((u.splitAt? (n.toNumber last)).map Prod.fst)
  | peekRemaining => exact moves_look fun u _ _ => congrArg Except.ok (view u)
  | peekEq literal =>
    refine moves_look fun u hu _ => congrArg Except.ok ?_
    simp [View.hasPrefix, hu.bytes_moved hw]
  | atEnd => exact moves_look fun u _ _ => congrArg Except.ok (Value.moved_bool _).symm
  | remainingBytes => exact moves_look fun u _ _ => congrArg Except.ok (Value.moved_number _).symm
  | peekU8 | peekChar =>
    refine moves_look fun u hu _ => ?_
    rw [hu.splitFirst_moved hw]
    exact movedResult_map fun parts _ => token parts.1
  | peekU8Opt | peekCharOpt =>
    refine moves_look fun u hu _ => congrArg Except.ok ?_
    have same : (w.moved u).first? = u.first? := by
      rw [View.first?, View.first?, hu.firstEntry?_moved hw]
    rw [same]
    cases u.first? with
    | none => exact Value.moved_absent.symm
    | some t => exact token t
  | take => exact moves_map (splitAt _ _) view
  | skip => exact moves_map (splitAt _ _) nothing
  | takeArray =>
    refine moves_map_of_ok (splitAt _ _) fun u hu _ head cut => ?_
    rw [hu.splitAt_bytes hw cut, Value.moved_array]
  | readNum kind endian =>
    refine moves_map_of_ok (splitAt _ _) fun u hu _ head cut => ?_
    exact readNumber_moved (hu.splitAt_bytes hw cut) kind endian
  | takeOpt =>
    exact moves_map (moves_ofParts? fun u hu _ => hu.splitAt?_moved hw _) viewOrAbsent_moved
  | skipOpt =>
    exact moves_map (moves_ofParts? fun u hu _ => hu.splitAt?_moved hw _) wasFound_moved
  | takeWhile p =>
    exact moves_map (moves_ofParts fun u hu hk => hu.splitWhile_moved hw (hk ▸ native.respects))
      view
  | skipWhile p =>
    exact moves_map (moves_ofParts fun u hu hk => hu.splitWhile_moved hw (hk ▸ native.respects))
      nothing
  | takeUntil => exact moves_map (untilMatch _ _) view
  | skipUntil => exact moves_map (untilMatch _ _) nothing
  | takeUntilConsume => exact moves_map (pastMatch _ _) view
  | skipUntilConsume => exact moves_map (pastMatch _ _) nothing
  | takeUntilOpt =>
    exact moves_map (moves_ofParts? fun u hu _ => hu.splitUntil?_moved hw _) viewOrAbsent_moved
  | skipUntilOpt =>
    exact moves_map (moves_ofParts? fun u hu _ => hu.splitUntil?_moved hw _) wasFound_moved
  | takeUntilConsumeOpt =>
    exact moves_map (moves_ofParts? fun u hu _ => hu.splitUntilConsume?_moved hw _)
      viewOrAbsent_moved
  | skipUntilConsumeOpt =>
    exact moves_map (moves_ofParts? fun u hu _ => hu.splitUntilConsume?_moved hw _) wasFound_moved
  | consume literal =>
    exact moves_map (moves_ofCut fun u hu _ => hu.splitPrefix_moved hw mode _ literal) nothing
  | consumeOpt literal =>
    exact moves_map (moves_ofParts? fun u hu _ => hu.splitPrefix?_moved hw literal) wasFound_moved
  | takeRemaining =>
    refine moves_map (moves_ofParts fun u hu _ => ?_) view
    exact congrArg (Prod.mk (w.moved u)) (hu.endView_moved hw)
  | readU8 | readChar => exact moves_map (splitFirst _) token
  | takeRemainingStr =>
    refine moves_map (moves_ofCut fun u hu _ => ?_) view
    rw [hu.intoText_moved hw, hu.endView_moved hw]
    exact movedResult_map fun _ _ => rfl
  | takeStrWhile => exact moves_map (strWhile (Action.uses_sure _ _) _) view
  | skipStrWhile => exact moves_map (strWhile (Action.uses_sure _ _) _) nothing
  | tryTakeStrWhile => exact moves_map (strWhile native _) view
  | trySkipStrWhile => exact moves_map (strWhile native _) nothing
  | tryTakeWhile => exact moves_map (whileChecked native _) view
  | trySkipWhile => exact moves_map (whileChecked native _) nothing
  | tryExpectExternal expected parser =>
    exact moves_ofCut fun u hu hk =>
      hu.splitForeign_moved hw (hk ▸ native) (hk ▸ oblivious) mode expected _
  | fail => exact native.elim

/-! ## Steps that run a program -/

namespace Part

theorem split_moved {u : View} (hw : w.Sound) (hu : w.Copied key u) (part : Part) (last : Value) :
    part.split mode last (w.moved u) = movedResult w w.movedParts (part.split mode last u) := by
  unfold split
  cases part.length with
  | some n => exact hu.splitAt_moved hw mode _ _
  | none => exact congrArg (fun v => Except.ok (w.moved u, v)) (hu.endView_moved hw)

theorem convert_moved {head : View} (hw : w.Sound) (hu : w.Copied key head) (part : Part) :
    part.convert mode (w.moved head) = movedResult w w.moved (part.convert mode head) := by
  have settled : w.Copied key (if part.bound then head.intoBound else head) := by
    split
    · exact hu.of_partOf hu.sound.partOf_self.intoBound
    · exact hu
  have same : (if part.bound then (w.moved head).intoBound else w.moved head) =
      w.moved (if part.bound then head.intoBound else head) := by
    split <;> rfl
  unfold convert
  rw [same]
  cases part.kind with
  | none => rfl
  | some k =>
    cases k with
    | bytes => rfl
    | text => exact settled.intoText_moved hw mode _

theorem take_moves (hw : w.Sound) (part : Part) (last : Value) :
    (part.take mode last).Moves w key k w.moved (part.take mode last) := by
  intro u hu hk
  unfold take
  rw [split_moved hw hu]
  cases cut : part.split mode last u with
  | error e => exact Outcome.moves_mk rfl
  | ok parts =>
    have head := hu.of_partOf (split_parts hu.sound cut).1.head
    exact Outcome.moves_mk (convert_moved hw head part)

theorem read_moved_last (part : Part) (debug : Bool) (last : Value) (body : Read Value) :
    part.read mode debug (last.moved w) body = part.read mode debug last body := by
  have split : part.split mode (last.moved w) = part.split mode last := by
    unfold split
    simp only [Length.toNumber_moved]
  unfold read take
  rw [split]

section

variable {body : Read Value}

theorem within_moves (hw : w.Sound) (part : Part) (reach : body.Reaches mode k)
    (h : body.Moves w key k (Value.moved w) body) (debug : Bool) :
    (part.within mode debug body).Moves w key k (Value.moved w) (part.within mode debug body) := by
  unfold within
  split
  · exact moves_readAll hw reach h debug
  · refine moves_map (moves_readPartial hw reach h debug) fun (a, rest) => ?_
    simp

theorem read_moves (hw : w.Sound) (part : Part) (reach : body.Reaches mode (part.kind.getD k))
    (h : body.Moves w key (part.kind.getD k) (Value.moved w) body) (debug : Bool) (last : Value) :
    (part.read mode debug last body).Moves w key k (Value.moved w)
      (part.read mode debug last body) := by
  intro u hu hk
  have taken : (part.take mode last u).Moves w key w.moved (part.take mode last (w.moved u)) :=
    take_moves hw part last u hu hk
  cases result : (part.take mode last u).result with
  | error e =>
    simp only [read, result, taken.error result, taken.rest]
    exact Outcome.moves_mk rfl
  | ok v =>
    have kept := part.take_keeps mode last u hu.sound.partOf_self hk
    obtain ⟨inside, kind⟩ := kept.value v result
    have inner := within_moves hw part reach h debug v (hu.of_partOf inside) kind
    simp only [read, result, taken.ok result, taken.rest]
    exact inner.withRest _

end

end Part

namespace Scope

theorem confirmed_moved (a : Value) :
    confirmed (a.moved w) = (confirmed a).map (Value.moved w) := by
  unfold confirmed
  rw [Value.confirms_moved]
  split <;> simp

theorem present_moved (a : Value) : present (a.moved w) = (present a).map (Value.moved w) := by
  unfold present
  rw [Value.isAbsent_moved]
  split <;> rfl

theorem run_moved_last (scope : Scope) (debug : Bool) (last : Value) (body : Mode → Read Value) :
    scope.run mode debug (last.moved w) body = scope.run mode debug last body := by
  cases scope with
  | sub part => exact part.read_moved_last debug last _
  | _ => rfl

theorem run_moves {scope : Scope} (hw : w.Sound) (oblivious : scope.Oblivious w key)
    {body : Mode → Read Value} (reach : ∀ m, (body m).Reaches m (scope.bodyKind k))
    (h : ∀ m, (body m).Moves w key (scope.bodyKind k) (Value.moved w) (body m)) (mode : Mode)
    (debug : Bool) (last : Value) :
    (scope.run mode debug last body).Moves w key k (Value.moved w)
      (scope.run mode debug last body) := by
  have found (a : Option Value) :
      Value.ofOption id (a.map (Value.moved w)) = Value.moved w (.ofOption id a) :=
    Value.moved_ofOption (f := id) (g := Value.moved w) (fun _ => rfl) a
  have sure : (unfailing (body mode)).Reaches mode (scope.bodyKind k) :=
    reaches_unfailing (reach mode)
  cases scope with
  | context frame => exact moves_context hw (reach mode) (h mode) frame
  | peekContext frame => exact moves_peekContext hw (reach mode) (h mode) frame
  | takeConsumed =>
    refine moves_map (moves_takeConsumed hw (reach mode) (h mode)) fun (r, head) => ?_
    simp [Value.moved_orAbsent]
  | tryTakeConsumed =>
    refine moves_map (moves_tryTakeConsumed hw (reach mode) (h mode)) fun (a, head) => ?_
    simp
  | recover => exact moves_map (moves_recover (h mode)) found
  | recoverIf accepts =>
    exact moves_map (moves_recoverIf hw (reach mode) (h mode) oblivious) found
  | errorScope inner => exact moves_errorScope (h inner)
  | verify expected =>
    exact moves_expect hw (reaches_map sure _)
      (moves_map (moves_unfailing (h mode)) confirmed_moved) expected _
  | tryVerify expected =>
    exact moves_expect hw (reaches_map (reach mode) _)
      (moves_map (h mode) confirmed_moved) expected _
  | expect expected =>
    exact moves_expect hw (reaches_map sure _)
      (moves_map (moves_unfailing (h mode)) present_moved) expected _
  | tryExpect expected =>
    exact moves_expect hw (reaches_map (reach mode) _) (moves_map (h mode) present_moved) expected _
  | tryExpectErased expected =>
    exact moves_expectErased hw (reach .invalid) (h .invalid) mode expected _
  | sub part => exact part.read_moves hw (reach mode) (h mode) debug last
  | bypass => exact h .infallible

end Scope

/-! ## Programs -/

namespace Program

theorem rounds_moves {body : Read Value} (reach : body.Reaches mode k)
    (h : body.Moves w key k (Value.moved w) body) (most : Nat) :
    (rounds body most).Moves w key k (List.map (Value.moved w)) (rounds body most) := by
  induction most with
  | zero => exact moves_pure _ []
  | succ most ih =>
    have round : (andThen body fun a => map (a :: ·) (rounds body most)).Moves w key k
        (List.map (Value.moved w)) (andThen body fun a => map (a :: ·) (rounds body most)) :=
      moves_andThen reach h fun a => moves_map ih fun values => rfl
    intro u hu hk
    have empty : (w.moved u).isEmpty = u.isEmpty := rfl
    unfold rounds
    rw [empty]
    split
    · exact moves_pure _ [] u hu hk
    · exact round u hu hk

theorem step_moves {p q : Read Value} (reach : p.Reaches mode k)
    (h : p.Moves w key k (Value.moved w) q) (depth : Nat) (name : String) (soft : Bool) :
    (step depth name soft p).Moves w key k (Value.moved w) (step depth name soft q) := by
  unfold step
  split
  · exact moves_unfailing (moves_recorded reach h depth name)
  · exact moves_recorded reach h depth name

theorem run_moves {p : Program} (hw : w.Sound) (native : p.Native k)
    (oblivious : p.Oblivious w key k) (debug : Bool) (mode : Mode) (depth : Nat) (last : Value) :
    (p.run debug mode depth last).Moves w key k (Value.moved w)
      (p.run debug mode depth (last.moved w)) := by
  -- By induction on the program: both runs go on from the same range, with values that differ in
  -- positions only.
  induction p generalizing k mode depth last with
  | done => exact moves_pure _ last
  | finish a =>
    have still : a.moved w = a := oblivious
    have same : (Read.pure a).Moves w key k (Value.moved w) (Read.pure (a.moved w)) :=
      moves_pure _ a
    rwa [still] at same
  | choose next ih =>
    unfold run
    rw [(oblivious last).1]
    exact ih last (native last) (oblivious last).2 mode depth last
  | «repeat» most body next ihBody ihNext =>
    have reach := body.run_reaches native.1 debug mode (depth + 1) .absent
    have inner := ihBody native.1 oblivious.1 mode (depth + 1) .absent
    rw [Value.moved_absent] at inner
    refine moves_andThen (rounds_reaches reach most) (rounds_moves reach inner most) ?_
    intro values
    have later := ihNext native.2 oblivious.2 mode depth (.list values)
    rwa [Value.moved_list] at later
  | act action soft next ih =>
    have reach : (action.run mode last).Reaches mode k := action.run_reaches native.1 last
    have taken := action.run_moves hw native.1 oblivious.1 mode last
    unfold run
    rw [Action.run_moved_last]
    exact moves_andThen (step_reaches reach _ _ _) (step_moves reach taken _ _ _)
      fun a => ih native.2 oblivious.2 mode depth a
  | within scope soft body next ihBody ihNext =>
    obtain ⟨checked, hbody, hnext⟩ := native
    obtain ⟨hscope, sameBody, sameNext⟩ := oblivious
    have inner (m : Mode) := body.run_reaches hbody debug m (depth + 1) .absent
    have moves (m : Mode) : (body.run debug m (depth + 1) .absent).Moves w key (scope.bodyKind k)
        (Value.moved w) (body.run debug m (depth + 1) .absent) := by
      simpa using ihBody hbody sameBody m (depth + 1) .absent
    have ran := scope.run_moves hw hscope inner moves mode debug last
    obtain ⟨_, reach⟩ := scope.exists_reaches checked inner mode debug last
    unfold run
    dsimp only
    rw [Scope.run_moved_last]
    exact moves_andThen (step_reaches reach _ _ _) (step_moves reach ran _ _ _)
      fun a => ihNext hnext sameNext mode depth a

end Program

/-! ## Entry points -/

theorem Entry.run_moves (hw : w.Sound) {p : Program} (native : p.Native k)
    (oblivious : p.Oblivious w key k) (entry : Entry) (debug : Bool) (mode : Mode) (depth : Nat) :
    (entry.run debug mode depth p).Moves w key k (Value.moved w)
      (entry.run debug mode depth p) := by
  have reach (m : Mode) := p.run_reaches native debug m depth .absent
  have body (m : Mode) : (p.start debug m depth).Moves w key k (Value.moved w)
      (p.start debug m depth) := by
    have ran := p.run_moves hw native oblivious debug m depth .absent
    rwa [Value.moved_absent] at ran
  cases entry with
  | all => exact moves_readAll hw (reach mode) (body mode) debug
  | part =>
    refine moves_map (moves_readPartial hw (reach mode) (body mode) debug) fun (a, rest) => ?_
    simp
  | infallible =>
    intro u hu hk
    have inner := body .infallible u hu hk
    refine inner.withResult ?_
    rw [inner.result, inner.rest]
    exact movedResult_map fun a _ => by simp

/-- The same tokens under the same bound, a constant number of positions later. -/
structure View.Alike (w u v : View) : Prop where
  bytes : v.bytes = u.bytes
  kind : v.kind = u.kind
  bound : v.bound = u.bound
  span : v.span = u.span.moved w

/-- The same cause and scopes, a constant number of positions later. -/
structure Report.Alike (w : View) (r r' : Report) : Prop where
  description : r'.description = r.description
  requirement : r'.cause.requirement = r.cause.requirement
  isFatal : r'.cause.isFatal = r.cause.isFatal
  expectation : r'.cause.expectation = r.cause.expectation
  root : r'.cause.root.frame = r.cause.root.frame
  frames : r'.backtrace.frames = r.backtrace.frames
  span : r'.span = r.span.moved w
  read : w.Alike r.cause.input r'.cause.input
  input : w.Alike r.input r'.input

structure Failure.Alike (w : View) (e e' : Failure) : Prop where
  text : e'.text = e.text
  requirement : e'.requirement = e.requirement
  isFatal : e'.isFatal = e.isFatal
  report : ∀ r, e = .report r → ∃ r', e' = .report r' ∧ r.Alike w r'

/-- A view in the value, in the value of a step, at either end of a step, or left in the end. -/
inductive Outcome.Shows (o : Outcome Value) (u : View) : Prop where
  | value {a : Value} : o.result = .ok a → a.Holds u → Shows o u
  | rest : o.rest = u → Shows o u
  | before {s : Step} : s ∈ Event.steps o.events → s.before = u → Shows o u
  | after {s : Step} : s ∈ Event.steps o.events → s.after = u → Shows o u
  | step {s : Step} {a : Value} : s ∈ Event.steps o.events → s.result = .ok a → a.Holds u →
      Shows o u

inductive Outcome.Fails (o : Outcome Value) (e : Failure) : Prop where
  | result : o.result = .error e → Fails o e
  | step {s : Step} : s ∈ Event.steps o.events → s.result = .error e → Fails o e

/-- The second outcome is the first one with its positions moved, and nothing but positions tells
the two apart. -/
structure Outcome.Alike (w : View) (o o' : Outcome Value) : Prop where
  moved : o' = o.moved w (Value.moved w)
  views : ∀ u, o.Shows u → w.Alike u (w.moved u)
  failures : ∀ e, o.Fails e → e.Alike w (e.moved w)

theorem View.Copied.alike {u : View} (hw : w.Sound) (hu : w.Copied key u) :
    w.Alike u (w.moved u) :=
  ⟨hu.bytes_moved hw, rfl, rfl, hu.span_moved hw⟩

theorem Failure.Copied.alike {e : Failure} (h : e.Copied w key) (hw : w.Sound) :
    e.Alike w (e.moved w) := by
  have requirement := h.requirement_moved hw
  have isFatal := h.isFatal_moved hw
  cases e with
  | report r =>
    obtain ⟨place, read, input⟩ := h r rfl
    have description := place.description_moved hw read
    refine ⟨?_, requirement, isFatal, ?_⟩
    · unfold Failure.text Failure.moved Report.message Report.description
      exact congrArg (fun text => "Expected: " ++ (_ ++ text)) description
    · rintro _ ⟨⟩
      exact ⟨_, rfl, description, requirement, isFatal, rfl, rfl, rfl, rfl, read.alike hw,
        input.alike hw⟩
  | _ => exact ⟨rfl, requirement, isFatal, by simp⟩

end Untrusted
