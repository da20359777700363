import Mathlib
import Untrusted.Proofs.Calls
import Untrusted.Proofs.Containment
import Untrusted.Proofs.View.Pieces

/-!
# Taking loses nothing

A program of steps that take from the start of an input, and of scopes that give back what the
program inside them took, returns its input in pieces: what its calls return and drop, in their
order, and the rest.
-/

namespace Untrusted

/-! ## Programs that take -/

/-- The steps that take, with patterns of the library and literals for inputs of the kind. -/
def Action.Taking (k : Kind) : Action → Prop
  | .take _ => True
  | .takeOpt _ => True
  | .takeWhile p => p.Library ∧ p.Admissible k
  | .tryTakeWhile _ => True
  | .takeUntil p => p.Library ∧ p.Admissible k
  | .takeUntilOpt p => p.Library ∧ p.Admissible k
  | .takeUntilConsume p => p.Library ∧ p.Admissible k
  | .takeUntilConsumeOpt p => p.Library ∧ p.Admissible k
  | .takeStrWhile _ => True
  | .consume literal => k.Whole literal
  | .consumeOpt literal => k.Whole literal
  | .takeRemaining => True
  | _ => False

def Scope.Taking : Scope → Prop
  | .takeConsumed => True
  | .tryTakeConsumed => True
  | _ => False

def Program.Taking (k : Kind) : Program → Prop
  | .done => True
  | .finish _ => True
  | .choose next => ∀ a, (next a).Taking k
  | .repeat _ body next => body.Taking k ∧ next.Taking k
  | .act action _ next => action.Taking k ∧ next.Taking k
  | .within scope _ body next => scope.Taking ∧ body.Taking k ∧ next.Taking k

/-! ## What a call returns and what it drops -/

def Value.parts : Value → List Piece
  | .view u => [u.piece]
  | .list [_, .view u] => [u.piece]
  | _ => []

def Value.returned : Except Failure Value → List Piece
  | .ok a => a.parts
  | .error _ => []

/-- What a call at `v` goes past and does not return: a match, or a literal. -/
def Callee.dropped (v : View) : Callee → List Piece
  | .act (.takeUntilConsume p) => v.matched p
  | .act (.takeUntilConsumeOpt p) => v.matched p
  | .act (.consume literal) => v.leading literal
  | .act (.consumeOpt literal) => v.leading literal
  | _ => []

def Call.pieces (c : Call) : List Piece :=
  Value.returned c.outcome.result ++ c.callee.dropped c.before

/-! ## Steps that take -/

section

variable {v : View} {dropped : List Piece} {mode : Mode}

open Read

theorem View.Splits.tiles_ofCut {cut : View → Except Failure (View × View)}
    (h : v.Splits (cut v).toOption dropped) :
    v.Tiles (ofCut cut v).rest
      (Value.returned ((ofCut cut v).result.map .view) ++ dropped) := by
  cases found : cut v with
  | error e =>
    rw [found] at h
    rcases h with ⟨-, rfl⟩ | ⟨parts, same, -⟩
    · rw [ofCut_error found]
      exact v.tiles_nil
    · contradiction
  | ok parts =>
    rw [found] at h
    rcases h with ⟨same, -⟩ | ⟨_, ⟨⟩, tiles⟩
    · contradiction
    · rw [ofCut_ok found]
      exact tiles

theorem View.Splits.tiles_ofParts? {cut : View → Option (View × View)}
    (h : v.Splits (cut v) dropped) :
    v.Tiles (ofParts? cut v).rest
      (Value.returned ((ofParts? cut v).result.map Action.viewOrAbsent) ++ dropped) := by
  rcases h with ⟨missing, rfl⟩ | ⟨parts, found, tiles⟩
  · rw [ofParts?_none missing]
    exact v.tiles_nil
  · rw [ofParts?_some found]
    exact tiles

theorem View.Sound.tiles_consume (h : v.Sound) (literal : List UInt8) (op : Operation) :
    let o := ofCut (fun v => v.splitPrefix mode literal op) v
    v.Tiles o.rest (Value.returned (o.result.map Action.nothing) ++ v.leading literal) := by
  intro o
  have option := v.toOption_splitPrefix mode op literal
  cases cut : v.splitPrefix mode literal op with
  | error e =>
    rw [show o = _ from ofCut_error cut]
    rcases h.leading_cases literal with ⟨-, none⟩ | ⟨parts, found, -⟩
    · rw [none]
      exact v.tiles_nil
    · rw [cut, found] at option
      contradiction
  | ok parts =>
    rw [show o = _ from ofCut_ok cut]
    rw [cut] at option
    rcases h.leading_cases literal with ⟨missing, -⟩ | ⟨_, found, tiles⟩
    · rw [missing] at option
      contradiction
    · rw [found] at option
      cases option
      exact tiles

theorem View.Sound.tiles_consumeOpt (h : v.Sound) (literal : List UInt8) :
    let o := ofParts? (fun v => v.splitPrefix? literal) v
    v.Tiles o.rest (Value.returned (o.result.map Action.wasFound) ++ v.leading literal) := by
  intro o
  rcases h.leading_cases literal with ⟨missing, none⟩ | ⟨parts, found, tiles⟩
  · rw [show o = _ from ofParts?_none missing, none]
    exact v.tiles_nil
  · rw [show o = _ from ofParts?_some found]
    exact tiles

theorem Action.run_tiles {k : Kind} {a : Action} (ha : a.Taking k) (h : v.Sound) (hk : v.kind = k)
    (small : v.size ≤ Number.wholeLimit) (last : Value) :
    v.Tiles (a.run mode last v).rest
      (Value.returned (a.run mode last v).result ++ (Callee.act a).dropped v) := by
  subst hk
  cases a with
  | take n =>
    exact View.Splits.tiles_ofCut ((v.toOption_splitAt mode .take _).symm ▸ h.splits_splitAt _)
  | takeOpt n => exact View.Splits.tiles_ofParts? (h.splits_splitAt _)
  | takeWhile p => exact View.Splits.tiles_ofCut (h.splits_splitWhile ha.2.respects)
  | tryTakeWhile check => exact View.Splits.tiles_ofCut (h.splits_trySplitWhile mode check _)
  | takeUntil p =>
    exact View.Splits.tiles_ofCut ((v.toOption_splitUntil mode .takeUntil p).symm ▸
      h.splits_splitUntil p)
  | takeUntilOpt p => exact View.Splits.tiles_ofParts? (h.splits_splitUntil p)
  | takeUntilConsume p =>
    exact View.Splits.tiles_ofCut ((v.toOption_splitUntilConsume mode .takeUntilConsume p).symm ▸
      h.splits_splitUntilConsume small ha.1 ha.2)
  | takeUntilConsumeOpt p =>
    exact View.Splits.tiles_ofParts? (h.splits_splitUntilConsume small ha.1 ha.2)
  | takeStrWhile accepts => exact View.Splits.tiles_ofCut (h.splits_trySplitStrWhile mode _ _)
  | consume literal => exact h.tiles_consume literal .consume
  | consumeOpt literal => exact h.tiles_consumeOpt literal
  | takeRemaining =>
    exact View.Splits.tiles_ofCut (.of_ok fun parts same => by cases same; exact h.tiles_exhausted)
  | _ => exact ha.elim

theorem Action.Taking.admissible {k : Kind} {a : Action} (h : a.Taking k) : a.Admissible k := by
  cases a with
  | takeWhile p => exact h.2
  | consume literal | consumeOpt literal => exact h
  | skipWhile p | tryExpectExternal _ _ => exact h.elim
  | _ => trivial

end

/-! ## Scopes -/

/-- The head covers what the program takes from `v`, and is open exactly if the program stops at an
undetermined end. -/
structure View.HeadCovers (debug : Bool) (mode : Mode) (depth : Nat) (body : Program)
    (v head : View) : Prop where
  source : head.source = v.source
  start : head.offset = v.offset
  bytes : head.bytes =
    Piece.joined ((body.calls debug mode depth .absent v).flatMap Call.pieces)
  open_iff : head.bound ≠ .fullyBounded ↔
    (body.run debug mode depth .absent v).rest.bound = .unbounded

def Callee.Taking (k : Kind) : Callee → Prop
  | .act action => action.Taking k
  | .within scope body => scope.Taking ∧ body.Taking k

/-- A call inside `v` returns and drops what it goes past. What a scope returns is what its program
took. -/
structure Call.Takes (debug : Bool) (mode : Mode) (v : View) (c : Call) : Prop where
  callee : c.callee.Taking v.kind
  before : c.before.TailOf v
  after : c.outcome.rest.TailOf c.before
  tiles : c.before.Tiles c.outcome.rest c.pieces
  head : ∀ scope body, c.callee = .within scope body → ∀ a, c.outcome.result = .ok a →
    ∃ value head, a = .list [value, .view head] ∧
      c.before.HeadCovers debug mode (c.depth + 1) body head

/-- A read from `v` whose calls take. -/
structure Outcome.Takes {α : Type} (debug : Bool) (mode : Mode) (v : View) (o : Outcome α)
    (calls : List Call) : Prop where
  after : o.rest.TailOf v
  tiles : v.Tiles o.rest (calls.flatMap Call.pieces)
  calls : ∀ c ∈ calls, c.Takes debug mode v

variable {debug : Bool} {mode : Mode} {v w : View}

theorem Call.Takes.trans {c : Call} (h : c.Takes debug mode w) (hw : w.TailOf v) :
    c.Takes debug mode v :=
  ⟨hw.kind ▸ h.callee, h.before.trans hw, h.after, h.tiles, h.head⟩

theorem View.Sound.covers_consumedHead (h : v.Sound) {depth : Nat} {body : Program}
    (inner : (body.run debug mode depth .absent v).Takes debug mode v
      (body.calls debug mode depth .absent v)) :
    v.HeadCovers debug mode depth body
      (v.consumedHead (body.run debug mode depth .absent v).rest) := by
  have whole := h.tiles_consumedHead inner.after
  refine ⟨?_, ?_, ?_, ?_⟩
  · rw [h.consumedHead_eq inner.after]
  · rw [h.consumedHead_eq inner.after]
  · rw [← whole.joined_eq inner.tiles, Piece.joined_cons, Piece.joined_nil, List.append_nil]
    rfl
  · rw [h.consumedHead_eq inner.after]
    split
    · rename_i open'
      rw [open']
      cases v.bound <;> simp [Bound.openEnd]
    · rename_i closed
      simpa using closed

theorem Scope.run_takes {scope : Scope} (hs : scope.Taking) {body : Program} (h : v.Sound)
    {depth : Nat} (last : Value)
    (inner : (body.run debug mode (depth + 1) .absent v).Takes debug mode v
      (body.calls debug mode (depth + 1) .absent v)) :
    let o := (Callee.within scope body).run debug mode depth last v
    o.rest.TailOf v ∧ v.Tiles o.rest (Value.returned o.result) ∧
      ∀ a, o.result = .ok a → ∃ value head, a = .list [value, .view head] ∧
        v.HeadCovers debug mode (depth + 1) body head := by
  intro o
  have covers := h.covers_consumedHead inner
  have tiles := h.tiles_consumedHead inner.after
  cases scope with
  | takeConsumed =>
    refine ⟨inner.after, tiles, ?_⟩
    rintro _ ⟨⟩
    exact ⟨_, _, rfl, covers⟩
  | tryTakeConsumed =>
    cases result : (body.run debug mode (depth + 1) .absent v).result with
    | error e =>
      have stays : o = ⟨.error e, v, _⟩ :=
        congrArg (Outcome.map _) (Read.tryTakeConsumed_error result)
      rw [stays]
      refine ⟨h.tailOf_self, v.tiles_nil, ?_⟩
      rintro _ ⟨⟩
    | ok a =>
      have goes : o = ⟨.ok (.list [a, .view _]), _, _⟩ :=
        congrArg (Outcome.map _) (Read.tryTakeConsumed_ok result)
      rw [goes]
      refine ⟨inner.after, tiles, ?_⟩
      rintro _ ⟨⟩
      exact ⟨_, _, rfl, covers⟩
  | _ => exact hs.elim

/-! ## Programs -/

namespace Program

theorem takes_nil (h : v.Sound) {α : Type} (a : α) :
    (Read.pure a v).Takes debug mode v [] :=
  ⟨h.tailOf_self, v.tiles_nil, by simp⟩

theorem takes_andThen {α β : Type} {p : Read α} {first : View → List Call}
    (h : (p v).Takes debug mode v (first v)) {next : α → Read β} {later : α → View → List Call}
    (hnext : ∀ a w, w.TailOf v → (next a w).Takes debug mode w (later a w)) :
    (Read.andThen p next v).Takes debug mode v (callsThen first p later v) := by
  unfold callsThen
  cases result : (p v).result with
  | error e =>
    rw [Read.andThen_error result, List.append_nil]
    exact ⟨h.after, h.tiles, h.calls⟩
  | ok a =>
    rw [Read.andThen_ok result]
    have second := hnext a _ h.after
    refine ⟨second.after.trans h.after, ?_, fun c hc => ?_⟩
    · rw [List.flatMap_append]
      exact h.tiles.append second.tiles
    · rcases List.mem_append.1 hc with earlier | after
      · exact h.calls c earlier
      · exact (second.calls c after).trans h.after

theorem takes_step {depth : Nat} {last : Value} {callee : Callee} {soft : Bool}
    (h : Call.Takes debug mode v ⟨callee, depth, v, callee.run debug mode depth last v⟩) :
    (step depth callee.name soft (callee.run debug mode depth last) v).Takes debug mode v
      (callOf debug mode depth last callee v) := by
  have rest := rest_step depth callee.name soft (callee.run debug mode depth last) v
  refine ⟨rest ▸ h.after, ?_, by simpa [callOf] using h⟩
  rw [rest, callOf, List.flatMap_singleton]
  exact h.tiles

theorem takes_rounds {body : Read Value} {calls : View → List Call} {k : Kind}
    (h : ∀ w : View, w.Sound → w.kind = k → w.size ≤ Number.wholeLimit →
      (body w).Takes debug mode w (calls w)) (most : Nat) (sound : v.Sound) (hk : v.kind = k)
    (small : v.size ≤ Number.wholeLimit) :
    (rounds body most v).Takes debug mode v (roundCalls calls body most v) := by
  induction most generalizing v with
  | zero => exact takes_nil sound _
  | succ most ih =>
    unfold rounds roundCalls
    split
    · exact takes_nil sound _
    · refine takes_andThen (h v sound hk small) fun a w hw => ?_
      have later := ih hw.sound (hw.kind.trans hk) (hw.size_le.trans small)
      exact ⟨later.after, later.tiles, later.calls⟩

theorem run_takes {k : Kind} {p : Program} (hp : p.Taking k) (sound : v.Sound) (hk : v.kind = k)
    (small : v.size ≤ Number.wholeLimit) (depth : Nat) (last : Value) :
    (p.run debug mode depth last v).Takes debug mode v (p.calls debug mode depth last v) := by
  -- By induction on the program: each call goes on from what the one before it left.
  induction p generalizing depth last v with
  | done => exact takes_nil sound _
  | finish a => exact takes_nil sound _
  | choose next ih => exact ih last (hp last) sound hk small depth last
  | «repeat» most body next ihBody ihNext =>
    refine takes_andThen (takes_rounds (fun w hw hk small => ?_) most sound hk small)
      fun values w hw => ?_
    · exact ihBody hp.1 hw hk small _ _
    · exact ihNext hp.2 hw.sound (hw.kind.trans hk) (hw.size_le.trans small) depth _
  | act action soft next ih =>
    let callee := Callee.act action
    have call : Call.Takes debug mode v ⟨callee, depth, v, callee.run debug mode depth last v⟩ := by
      have kept := action.run_keeps hp.1.admissible mode last v sound.partOf_self hk
      refine ⟨hk ▸ hp.1, sound.tailOf_self, kept.rest, ?_, fun _ _ same => by cases same⟩
      exact Action.run_tiles hp.1 sound hk small last
    exact takes_andThen (takes_step call) fun a w hw =>
      ih hp.2 hw.sound (hw.kind.trans hk) (hw.size_le.trans small) depth a
  | within scope soft body next ihBody ihNext =>
    obtain ⟨taking, inside, after⟩ := hp
    let callee := Callee.within scope body
    have call : Call.Takes debug mode v ⟨callee, depth, v, callee.run debug mode depth last v⟩ := by
      have inner := ihBody inside sound hk small (depth + 1) .absent
      obtain ⟨tail, tiles, head⟩ := Scope.run_takes taking sound last inner
      refine ⟨hk ▸ ⟨taking, inside⟩, sound.tailOf_self, tail, ?_, ?_⟩
      · change v.Tiles _ (Value.returned _ ++ [])
        rw [List.append_nil]
        exact tiles
      · rintro _ _ ⟨⟩
        exact head
    exact takes_andThen (takes_step call) fun a w hw =>
      ihNext after hw.sound (hw.kind.trans hk) (hw.size_le.trans small) depth a

/-- The levels of a run from `v` whose steps are `depth` deep: that of the program, and for each
call of a scope that takes, on one of them, that of the program inside. -/
inductive Level (debug : Bool) (mode : Mode) (p : Program) (depth : Nat) (v : View) :
    Program → Nat → View → Prop where
  | top : Level debug mode p depth v p depth v
  | within {q : Program} {d : Nat} {u : View} {c : Call} {scope : Scope} {body : Program} :
      Level debug mode p depth v q d u → c ∈ q.calls debug mode d .absent u → scope.Taking →
      c.callee = .within scope body → Level debug mode p depth v body (c.depth + 1) c.before

theorem Level.takes {p q : Program} {depth d : Nat} {u : View}
    (level : p.Level debug mode depth v q d u) (hp : p.Taking v.kind) (sound : v.Sound)
    (small : v.size ≤ Number.wholeLimit) :
    q.Taking u.kind ∧ u.TailOf v ∧
      (q.run debug mode d .absent u).Takes debug mode u (q.calls debug mode d .absent u) := by
  induction level with
  | top => exact ⟨hp, sound.tailOf_self, run_takes hp sound rfl small depth .absent⟩
  | within _ hc _ callee ih =>
    obtain ⟨-, tail, takes⟩ := ih
    have call := takes.calls _ hc
    have before := call.before.trans tail
    have inside := call.callee
    rw [callee] at inside
    refine ⟨call.before.kind ▸ inside.2, before, ?_⟩
    exact run_takes inside.2 before.sound call.before.kind
      (before.size_le.trans small) _ .absent

end Program

/-! ## Entry points -/

theorem Entry.gives_rest (entry : Entry) (debug : Bool) (mode : Mode) (depth : Nat) (p : Program)
    {v : View} {a : Value} (h : (entry.run debug mode depth p v).result = .ok a) :
    if entry = .all then (entry.run debug mode depth p v).rest.isEmpty = true
    else ∃ b, a = .list [b, .view (entry.run debug mode depth p v).rest] := by
  cases entry with
  | all =>
    rw [if_pos rfl]
    cases inner : (Read.context (.ofOperation .readAll) (p.start debug mode depth) v).result with
    | error e =>
      rw [run, Read.readAll_error inner] at h
      contradiction
    | ok b =>
      rw [run, Read.readAll_ok inner] at h
      split at h
      · assumption
      · contradiction
  | part =>
    rw [if_neg (by simp)]
    obtain ⟨found, read, rfl⟩ := exists_ok_of_map_eq_ok h
    obtain ⟨b, -, rfl⟩ := exists_ok_of_map_eq_ok read
    exact ⟨b, rfl⟩
  | infallible =>
    rw [if_neg (by simp)]
    obtain ⟨b, -, rfl⟩ := exists_ok_of_map_eq_ok h
    exact ⟨b, rfl⟩

/-- On each level of a program that takes, what its calls return and drop tiles the input from where
the first call starts to where the last one ends, and each head that a scope returns covers what the
program inside it took. On the top level the pieces and the rest are the input. No input is so long
that the sum of two positions in it is rounded. -/
theorem Entry.run_lossless {v : View} (sound : v.Sound) (small : v.size ≤ Number.wholeLimit)
    {p : Program} (hp : p.Taking v.kind) (entry : Entry) (debug : Bool) (mode : Mode)
    (depth : Nat) :
    (∀ q d u, p.Level debug (entry.inner mode) depth v q d u →
      (q.run debug (entry.inner mode) d .absent u).Takes debug (entry.inner mode) u
        (q.calls debug (entry.inner mode) d .absent u) ∧
      Event.steps (q.run debug (entry.inner mode) d .absent u).events =
        (q.calls debug (entry.inner mode) d .absent u).flatMap Call.steps) ∧
    Event.steps (entry.run debug mode depth p v).events =
      (p.calls debug (entry.inner mode) depth .absent v).flatMap Call.steps ∧
    Piece.joined ((p.calls debug (entry.inner mode) depth .absent v).flatMap Call.pieces) ++
      (entry.run debug mode depth p v).rest.bytes = v.bytes ∧
    ∀ a, (entry.run debug mode depth p v).result = .ok a →
      if entry = .all then (entry.run debug mode depth p v).rest.isEmpty = true
      else ∃ b, a = .list [b, .view (entry.run debug mode depth p v).rest] := by
  refine ⟨fun q d u level => ⟨(level.takes hp sound small).2.2, q.steps_run d .absent u⟩, ?_, ?_,
    fun a result => entry.gives_rest debug mode depth p result⟩
  · rw [entry.steps_run]
    exact p.steps_run depth .absent v
  · rw [entry.rest_run]
    exact (Program.run_takes hp sound rfl small depth .absent).tiles.bytes

/-- A field up to a match of two bytes and what follows it, as a scope inside a program that takes
the rest. -/
theorem Entry.run_lossless_field :
    let field : Program :=
      .act (.takeUntilConsume (.literal [0x3a, 0x3a])) false
        (.act (.takeWhile (.byte 0x63)) false .done)
    let p : Program := .within .tryTakeConsumed false field (.act .takeRemaining false .done)
    let v := View.ofSource (.ofBytes 0 [0x61, 0x3a, 0x3a, 0x63, 0x64]) .bytes
    v.Sound ∧ v.size ≤ Number.wholeLimit ∧ p.Taking v.kind ∧
      p.Level true .full 0 v field 1 v ∧
      v.Tiles (field.run true .full 1 .absent v).rest
        ((field.calls true .full 1 .absent v).flatMap Call.pieces) ∧
      Piece.joined ((p.calls true .full 0 .absent v).flatMap Call.pieces) ++
        (Entry.part.run true .full 0 p v).rest.bytes = v.bytes := by
  intro field p v
  have sound : v.Sound := View.ofBytes_sound 0 trivial
  have small : v.size ≤ Number.wholeLimit := by decide
  have taking : p.Taking v.kind :=
    ⟨trivial, ⟨⟨trivial, trivial⟩, ⟨trivial, by rintro ⟨⟩⟩, trivial⟩, trivial, trivial⟩
  have level : p.Level true .full 0 v field 1 v := by
    let callee := Callee.within .tryTakeConsumed field
    have made : ⟨callee, 0, v, callee.run true .full 0 .absent v⟩ ∈
        p.calls true .full 0 .absent v :=
      List.mem_append_left _ (List.mem_singleton_self _)
    exact .within .top made (show Scope.tryTakeConsumed.Taking from trivial) rfl
  obtain ⟨levels, -, whole, -⟩ := Entry.run_lossless sound small taking .part true .full 0
  exact ⟨sound, small, taking, level, (levels field 1 v level).1.tiles, whole⟩

end Untrusted
