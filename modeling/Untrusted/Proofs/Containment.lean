import Mathlib
import Untrusted.Proofs.Keeps

/-!
# Programs stay inside the view they are entered at

Every view that a program obtains, however its steps are nested and whatever numbers they are given,
is a part of the one it was entered at.
-/

namespace Untrusted

/-! ## Programs for a kind of view -/

/-- The steps whose patterns, literals and foreign parsers are made for views of the kind. What a
foreign parser yields holds no view but parts of the one it was handed. -/
def Action.Admissible (k : Kind) : Action → Prop
  | .takeWhile p => p.Admissible k
  | .skipWhile p => p.Admissible k
  | .consume literal => k.Whole literal
  | .consumeOpt literal => k.Whole literal
  | .tryExpectExternal _ parser =>
    ∀ v a n, v.Sound → v.kind = k → parser v = .ok (a, n) → a.In v
  | _ => True

def Scope.bodyKind (k : Kind) : Scope → Kind
  | .sub part => part.kind.getD k
  | _ => k

/-- Each step is made for the kind of view that it reads, and the values that the program brings
along hold no view. -/
def Program.Admissible (k : Kind) : Program → Prop
  | .done => True
  | .finish a => ∀ v, ¬ a.Holds v
  | .choose next => ∀ a, (next a).Admissible k
  | .repeat _ body next => body.Admissible k ∧ next.Admissible k
  | .act action _ next => action.Admissible k ∧ next.Admissible k
  | .within scope _ body next => body.Admissible (scope.bodyKind k) ∧ next.Admissible k

variable {k : Kind} {e : View}

open Read

/-! ## Steps that run no program -/

theorem Action.run_keeps {a : Action} (ha : a.Admissible k) (mode : Mode) (last : Value) :
    (a.run mode last).Keeps k e (Value.In e) := by
  -- Most steps differ only in what they make of the parts of one of these cuts.
  have splitAt (n : Number) (op : Operation) :
      (ofCut fun v => v.splitAt mode n op).Keeps k e (·.PartOf e) :=
    keeps_ofCut_parts fun v sound _ parts cut => (sound.splitAt_parts cut).1
  have splitFirst (op : Operation) :
      (ofCut fun v => v.splitFirst mode op).Keeps k e fun _ => True :=
    keeps_ofCut fun v hv _ parts cut => ⟨trivial, hv.sound.splitFirst_tail cut⟩
  have untilMatch (p : Pattern) (op : Operation) :
      (ofCut fun v => v.splitUntil mode p op).Keeps k e (·.PartOf e) :=
    keeps_ofCut_parts fun v sound _ parts cut => sound.splitUntil_parts cut
  have pastMatch (p : Pattern) (op : Operation) :
      (ofCut fun v => v.splitUntilConsume mode p op).Keeps k e (·.PartOf e) :=
    keeps_ofCut_parts fun v sound _ parts cut => sound.splitUntilConsume_parts cut
  have whileChecked (check : View.Check) (op : Operation) :
      (ofCut fun v => v.trySplitWhile mode check op).Keeps k e (·.PartOf e) :=
    keeps_ofCut_parts fun v sound _ parts cut => sound.trySplitWhile_parts cut
  have strWhile (check : View.Check) (op : Operation) :
      (ofCut fun v => v.trySplitStrWhile mode check op).Keeps k e (·.PartOf e) :=
    keeps_ofCut_parts fun v sound _ parts cut => sound.trySplitStrWhile_parts cut
  have found {head : Option View} (h : ∀ u, head = some u → u.PartOf e) :
      (viewOrAbsent head).In e :=
    Value.in_ofOption fun u same => Value.in_view.2 (h u same)
  cases a with
  | peek n =>
    apply keeps_look
    intro v hv a same
    obtain ⟨parts, cut, rfl⟩ := exists_ok_of_map_eq_ok same
    exact Value.in_view.2 ((hv.sound.splitAt_parts cut).1.head.trans hv)
  | peekOpt n =>
    apply keeps_look
    intro v hv a same
    cases same
    apply found
    intro u same
    obtain ⟨parts, cut, rfl⟩ := Option.map_eq_some_iff.1 same
    exact (hv.sound.splitAt?_parts cut).1.head.trans hv
  | peekRemaining =>
    apply keeps_look
    intro v hv a same
    cases same
    exact Value.in_view.2 hv
  | peekEq | atEnd | remainingBytes =>
    apply keeps_look
    intro v hv a same
    cases same
    simp
  | peekU8Opt | peekCharOpt =>
    apply keeps_look
    intro v hv a same
    cases same
    exact Value.in_ofOption fun t _ => Value.in_ofToken t
  | peekU8 | peekChar =>
    apply keeps_look
    intro v hv a same
    obtain ⟨first, -, rfl⟩ := exists_ok_of_map_eq_ok same
    exact Value.in_ofToken _
  | take n => exact keeps_map (splitAt _ _) fun u hu => Value.in_view.2 hu
  | skip n => exact keeps_map (splitAt _ _) fun _ _ => Value.in_absent
  | takeArray n => exact keeps_map (splitAt _ _) fun _ _ => Value.in_array _
  | readNum kind endian =>
    refine keeps_map (splitAt _ _) fun _ _ => ?_
    exact Value.in_ofOption fun r _ => Value.in_ofReading r
  | takeOpt n =>
    refine keeps_map (keeps_ofParts? fun v sound _ parts cut => ?_) fun _ => found
    exact (sound.splitAt?_parts cut).1
  | skipOpt n =>
    refine keeps_map (keeps_ofParts? fun v sound _ parts cut => ?_) fun _ _ => Value.in_bool _
    exact (sound.splitAt?_parts cut).1
  | takeWhile p =>
    refine keeps_map (keeps_ofParts fun v sound hk => ?_) fun u hu => Value.in_view.2 hu
    exact sound.splitWhile_parts (hk ▸ ha.respects)
  | skipWhile p =>
    refine keeps_map (keeps_ofParts fun v sound hk => ?_) fun _ _ => Value.in_absent
    exact sound.splitWhile_parts (hk ▸ ha.respects)
  | takeUntil p => exact keeps_map (untilMatch p _) fun u hu => Value.in_view.2 hu
  | skipUntil p => exact keeps_map (untilMatch p _) fun _ _ => Value.in_absent
  | takeUntilConsume p => exact keeps_map (pastMatch p _) fun u hu => Value.in_view.2 hu
  | skipUntilConsume p => exact keeps_map (pastMatch p _) fun _ _ => Value.in_absent
  | takeUntilOpt p =>
    exact keeps_map (keeps_ofParts? fun v sound _ parts cut => sound.splitUntil?_parts cut)
      fun _ => found
  | skipUntilOpt p =>
    exact keeps_map (keeps_ofParts? fun v sound _ parts cut => sound.splitUntil?_parts cut)
      fun _ _ => Value.in_bool _
  | takeUntilConsumeOpt p =>
    exact keeps_map (keeps_ofParts? fun v sound _ parts cut => sound.splitUntilConsume?_parts cut)
      fun _ => found
  | skipUntilConsumeOpt p =>
    exact keeps_map (keeps_ofParts? fun v sound _ parts cut => sound.splitUntilConsume?_parts cut)
      fun _ _ => Value.in_bool _
  | consume literal =>
    refine keeps_map (keeps_ofCut_parts fun v sound hk parts cut => ?_) fun _ _ => Value.in_absent
    exact sound.splitPrefix_parts (hk ▸ ha) cut
  | consumeOpt literal =>
    refine keeps_map (keeps_ofParts? fun v sound hk parts cut => ?_) fun _ _ => Value.in_bool _
    exact sound.splitPrefix?_parts (hk ▸ ha) cut
  | takeRemaining =>
    exact keeps_map (keeps_ofParts fun v sound _ => sound.exhausted_parts)
      fun u hu => Value.in_view.2 hu
  | readU8 | readChar => exact keeps_map (splitFirst _) fun t _ => Value.in_ofToken t
  | takeRemainingStr =>
    refine keeps_map (keeps_ofCut_parts fun v sound hk parts cut => ?_)
      fun u hu => Value.in_view.2 hu
    obtain ⟨text, made, rfl⟩ := exists_ok_of_map_eq_ok cut
    exact ⟨(sound.partOf_self.intoText made).1, sound.endView_tailOf⟩
  | takeStrWhile accepts => exact keeps_map (strWhile _ _) fun u hu => Value.in_view.2 hu
  | skipStrWhile accepts => exact keeps_map (strWhile _ _) fun _ _ => Value.in_absent
  | tryTakeStrWhile check => exact keeps_map (strWhile _ _) fun u hu => Value.in_view.2 hu
  | trySkipStrWhile check => exact keeps_map (strWhile _ _) fun _ _ => Value.in_absent
  | tryTakeWhile check => exact keeps_map (whileChecked _ _) fun u hu => Value.in_view.2 hu
  | trySkipWhile check => exact keeps_map (whileChecked _ _) fun _ _ => Value.in_absent
  | tryExpectExternal expected parser =>
    apply keeps_ofCut
    intro v hv hk read cut
    obtain ⟨⟨n, parsed⟩, tail⟩ := hv.sound.splitForeign_tail cut
    exact ⟨(ha v read.1 n hv.sound hk parsed).trans hv, tail⟩
  | fail cause => exact keeps_look fun v hv a same => by contradiction

/-! ## Steps that run a program -/

namespace Part

theorem split_parts {v : View} (sound : v.Sound) {part : Part} {mode : Mode} {last : Value}
    {parts : View × View} (cut : part.split mode last v = .ok parts) :
    v.Cut parts ∧ parts.1.kind = v.kind := by
  unfold split at cut
  split at cut
  · exact sound.splitAt_parts cut
  · cases cut
    exact ⟨sound.exhausted_parts, rfl⟩

theorem convert_partOf {v head u : View} (h : head.PartOf v) {part : Part} {mode : Mode}
    (made : part.convert mode head = .ok u) :
    u.PartOf v ∧ u.kind = part.kind.getD head.kind := by
  have settled : (if part.bound then head.intoBound else head).PartOf v := by
    split
    · exact h.intoBound
    · exact h
  have kind : (if part.bound then head.intoBound else head).kind = head.kind := by
    split <;> rfl
  unfold convert at made
  cases hk : part.kind with
  | none =>
    simp only [hk] at made
    cases made
    exact ⟨settled, kind⟩
  | some k =>
    cases k with
    | bytes =>
      simp only [hk] at made
      cases made
      exact ⟨settled.intoBytes, rfl⟩
    | text =>
      simp only [hk] at made
      exact settled.intoText made

theorem take_keeps (part : Part) (mode : Mode) (last : Value) :
    (part.take mode last).Keeps k e fun u => u.PartOf e ∧ u.kind = part.kind.getD k := by
  intro v hv hk
  unfold take
  split
  · exact Outcome.in_mk (by simp) hv.sound.tailOf_self
  · rename_i head tail cut
    obtain ⟨parted, kind⟩ := split_parts hv.sound cut
    refine Outcome.in_mk (fun u made => ?_) parted.tail
    obtain ⟨inside, made⟩ := convert_partOf (parted.head.trans hv) made
    refine ⟨inside, ?_⟩
    rw [made, kind, hk]

theorem within_keeps (part : Part) {body : Read Value} (h : body.Keeps k e (Value.In e))
    (mode : Mode) (debug : Bool) : (part.within mode debug body).Keeps k e (Value.In e) := by
  unfold within
  split
  · exact keeps_readAll h mode debug
  · refine keeps_map (keeps_readPartial h debug) fun found good => ?_
    simpa using good

theorem read_keeps (part : Part) {body : Read Value}
    (h : body.Keeps (part.kind.getD k) e (Value.In e)) (mode : Mode) (debug : Bool)
    (last : Value) : (part.read mode debug last body).Keeps k e (Value.In e) := by
  intro v hv hk
  have taken := part.take_keeps mode last v hv hk
  unfold read
  simp only
  split
  · exact Outcome.in_mk (by simp) taken.rest
  · rename_i u found
    obtain ⟨inside, kind⟩ := taken.value u found
    have inner := part.within_keeps h mode debug u inside kind
    exact ⟨inner.value, taken.rest, inner.steps⟩

end Part

theorem Scope.run_keeps (scope : Scope) {body : Mode → Read Value}
    (h : ∀ m, (body m).Keeps (scope.bodyKind k) e (Value.In e)) (mode : Mode) (debug : Bool)
    (last : Value) : (scope.run mode debug last body).Keeps k e (Value.In e) := by
  have all {a : Option Value} (good : ∀ b, a = some b → b.In e) : (Value.ofOption id a).In e :=
    Value.in_ofOption good
  have kept {p : Read Value} (hp : p.Keeps k e (Value.In e)) {f : Value → Option Value}
      (hf : ∀ a b, a.In e → f a = some b → b.In e) :
      (map f p).Keeps k e fun found => ∀ b, found = some b → b.In e :=
    keeps_map hp fun a good b same => hf a b good same
  have confirmed (a b : Value) (_ : a.In e) (same : Scope.confirmed a = some b) : b.In e :=
    eq_of_confirmed same ▸ Value.in_absent
  have present (a b : Value) (good : a.In e) (same : Scope.present a = some b) : b.In e :=
    eq_of_present same ▸ good
  cases scope with
  | context f => exact keeps_context (h mode) f
  | peekContext f => exact keeps_peekContext (h mode) f
  | takeConsumed =>
    refine keeps_map (keeps_takeConsumed (h mode)) fun found good => ?_
    simpa using good
  | tryTakeConsumed =>
    refine keeps_map (keeps_tryTakeConsumed (h mode)) fun found good => ?_
    simpa using good
  | recover => exact keeps_map (keeps_recover (h mode)) fun _ => all
  | recoverIf accepts => exact keeps_map (keeps_recoverIf (h mode) accepts) fun _ => all
  | errorScope inner => exact keeps_errorScope (h inner)
  | verify expected =>
    exact keeps_expect (kept (keeps_unfailing (h mode)) confirmed) mode expected _
  | tryVerify expected => exact keeps_expect (kept (h mode) confirmed) mode expected _
  | expect expected =>
    exact keeps_expect (kept (keeps_unfailing (h mode)) present) mode expected _
  | tryExpect expected => exact keeps_expect (kept (h mode) present) mode expected _
  | tryExpectErased expected => exact keeps_expectErased (h .invalid) mode expected _
  | sub part => exact part.read_keeps (h mode) mode debug last
  | bypass => exact h .infallible

/-! ## Programs -/

namespace Program

theorem rounds_keeps {body : Read Value} (h : body.Keeps k e (Value.In e)) (most : Nat) :
    (rounds body most).Keeps k e fun values => ∀ a ∈ values, a.In e := by
  induction most with
  | zero => exact keeps_pure (by simp)
  | succ most ih =>
    intro v hv hk
    unfold rounds
    split
    · exact keeps_pure (by simp) v hv hk
    · refine keeps_andThen h (fun a ha => keeps_map ih fun values hvalues => ?_) v hv hk
      simpa using ⟨ha, hvalues⟩

theorem step_keeps {p : Read Value} (h : p.Keeps k e (Value.In e)) (depth : Nat) (name : String)
    (soft : Bool) : (step depth name soft p).Keeps k e (Value.In e) := by
  unfold step
  split
  · exact keeps_unfailing (keeps_recorded h depth name)
  · exact keeps_recorded h depth name

theorem run_keeps {p : Program} (hp : p.Admissible k) (debug : Bool) (mode : Mode) (depth : Nat)
    {last : Value} (hl : last.In e) : (p.run debug mode depth last).Keeps k e (Value.In e) := by
  -- By induction on the program: each step goes on from what the one before it left, with a value
  -- that holds only parts of `e`.
  induction p generalizing k mode depth last with
  | done => exact keeps_pure hl
  | finish a => exact keeps_pure fun u hu => absurd hu (hp u)
  | choose next ih => exact ih last (hp last) mode depth hl
  | «repeat» most body next ihBody ihNext =>
    refine keeps_andThen (rounds_keeps (ihBody hp.1 mode _ Value.in_absent) most) ?_
    intro values hvalues
    exact ihNext hp.2 mode depth (Value.in_list.2 hvalues)
  | act action soft next ih =>
    refine keeps_andThen (step_keeps (action.run_keeps hp.1 mode last) _ _ _) ?_
    intro a ha
    exact ih hp.2 mode depth ha
  | within scope soft body next ihBody ihNext =>
    have inner (m : Mode) := ihBody hp.1 m (depth + 1) (Value.in_absent (e := e))
    refine keeps_andThen (step_keeps (scope.run_keeps inner mode debug last) _ _ _) ?_
    intro a ha
    exact ihNext hp.2 mode depth ha

end Program

/-! ## Entry points -/

theorem Entry.run_keeps {p : Program} (hp : p.Admissible k) (entry : Entry) (debug : Bool)
    (mode : Mode) (depth : Nat) : (entry.run debug mode depth p).Keeps k e (Value.In e) := by
  have body (m : Mode) := p.run_keeps hp debug m depth (Value.in_absent (e := e))
  intro v hv hk
  cases entry with
  | all => exact keeps_readAll (body mode) mode debug v hv hk
  | part =>
    refine (keeps_readPartial (body mode) debug v hv hk).map fun found good => ?_
    simpa using good
  | infallible =>
    have inner := body .infallible v hv hk
    apply inner.map
    intro a good
    simpa using ⟨good, inner.rest.partOf.trans hv⟩

/-- Every view that a program obtains from a sound one is a part of it: its values and the heads it
consumed, where each step at each depth starts and ends, and the rest. After each step, failed or
not, the reader stands at a tail of where the step started. -/
theorem Entry.run_views {v : View} (sound : v.Sound) {p : Program} (hp : p.Admissible v.kind)
    (entry : Entry) (debug : Bool) (mode : Mode) (depth : Nat) :
    (∀ a u, (entry.run debug mode depth p v).result = .ok a → a.Holds u → u.PartOf v) ∧
    (entry.run debug mode depth p v).rest.TailOf v ∧
    ∀ s ∈ Event.steps (entry.run debug mode depth p v).events,
      s.before.PartOf v ∧ s.after.PartOf v ∧ s.after.TailOf s.before ∧
      s.after.extent.le s.before.extent = true ∧
      ∀ a u, s.result = .ok a → a.Holds u → u.PartOf v := by
  have kept := Entry.run_keeps hp entry debug mode depth v sound.partOf_self rfl
  refine ⟨fun a u result => kept.value a result u, kept.rest, fun s hs => ?_⟩
  have inside := kept.steps s hs
  refine ⟨inside.before, inside.after.partOf.trans inside.before, inside.after, ?_,
    fun a u result => inside.value a result u⟩
  rw [inside.after.sound.extent_eq, inside.before.sound.extent_eq, Number.le_ofNat]
  exact decide_eq_true inside.after.size_le

/-- A part read as text, a pattern that finds what is not there, and a foreign parser that reads
half a byte. -/
theorem Entry.run_views_nested :
    let p : Program :=
      .within (.sub ⟨some (.given 3), true, some .text, false⟩) true
        (.act (.takeUntilOpt (.custom (fun _ => some (.nan, .infinite true)) fun _ => none)) false
          (.act (.takeWhile (.charWhere fun c => c == 'n')) false .done))
        (.within .takeConsumed false
          (.act (.tryExpectExternal "half" fun _ => .ok (.absent, .finite (1 / 2))) false .done)
          .done)
    let v := View.ofSource (.ofBytes 0 [0x6e, 0xc3, 0xa9, 0xff]) .bytes
    v.Sound ∧ p.Admissible v.kind ∧ (Entry.part.run true .full 0 p v).rest.TailOf v := by
  intro p v
  have sound : v.Sound := View.ofBytes_sound 0 trivial
  have admissible : p.Admissible v.kind := by
    refine ⟨⟨trivial, rfl, trivial⟩, ⟨?_, trivial⟩, trivial⟩
    rintro v a n - - ⟨⟩
    exact Value.in_absent
  exact ⟨sound, admissible, (run_views sound admissible .part true .full 0).2.1⟩

end Untrusted
