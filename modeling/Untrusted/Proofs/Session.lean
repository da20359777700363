import Mathlib
import Untrusted.Inquiry
import Untrusted.Proofs.Containment

/-!
# Text is always valid UTF-8

A session asks inquiries of the views that it has come by so far, programs among them. All it comes
by are parts of the view it started with, so each text is made of whole chars.
-/

namespace Untrusted

namespace Inquiry

/-- The inquiries whose patterns, literals, programs and foreign parsers are made for views of the
kind. -/
def Admissible (k : Kind) : Inquiry → Prop
  | splitWhile p => p.Admissible k
  | splitPrefixOpt literal => k.Whole literal
  | splitPrefix literal _ => k.Whole literal
  | splitConsumed body => body.Admissible k
  | trySplitConsumed body => body.Admissible k
  | splitExpect _ _ body => body.Admissible k
  | trySplitExpect _ _ body => body.Admissible k
  | trySplitExpectErased _ _ body => body.Admissible k
  | trySplitExternal _ _ parser => ∀ v a n, v.Sound → v.kind = k → parser v = .ok (a, n) → a.In v
  | intoExternal _ parser => ∀ v a, v.Sound → v.kind = k → parser v = .ok a → a.In v
  | enter _ body => body.Admissible k
  | _ => True

/-! ## Answers -/

variable {v : View}

/-- What an answer gives, and each of the steps on the way to it, is inside the view. -/
structure Inside (v : View) (answer : Reply × List Event) : Prop where
  value : ∀ a, answer.1.value? = some a → a.In v
  steps : ∀ s ∈ Event.steps answer.2, s.In v

theorem inside_value {a : Value} (h : a.In v) : Inside v (.value a, []) := by
  refine ⟨?_, by simp⟩
  rintro _ ⟨⟩
  exact h

theorem inside_result {r : Except Failure Value} {events : List Event}
    (h : ∀ a, r = .ok a → a.In v) (hs : ∀ s ∈ Event.steps events, s.In v) :
    Inside v (.result r, events) := by
  refine ⟨fun a same => h a ?_, hs⟩
  cases r with
  | error _ => contradiction
  | ok b =>
    cases same
    rfl

theorem inside_map {α : Type} {r : Except Failure α} {f : α → Value}
    (h : ∀ a, r = .ok a → (f a).In v) : Inside v (.result (r.map f), []) := by
  refine inside_result (fun b same => ?_) (by simp)
  obtain ⟨a, found, rfl⟩ := exists_ok_of_map_eq_ok same
  exact h a found

theorem in_pair {parts : View × View} (h : v.Cut parts) : (pair parts).In v := by
  simpa [pair] using ⟨h.head, h.tail.partOf⟩

theorem inside_withRest {α : Type} {good : α → Prop} {o : Outcome α} {f : α → List Value}
    (h : o.In good v v) (hf : ∀ a, good a → ∀ b ∈ f a, b.In v) : Inside v (withRest f o) := by
  refine inside_result (fun b same => ?_) h.steps
  obtain ⟨a, found, rfl⟩ := exists_ok_of_map_eq_ok same
  simp only [Value.in_list, List.mem_append, List.mem_singleton]
  rintro b (earlier | rfl)
  · exact hf a (h.value a found) b earlier
  · exact Value.in_view.2 h.rest.partOf

theorem ask_inside (sound : v.Sound) {i : Inquiry} (hi : i.Admissible v.kind) (debug : Bool)
    (mode : Mode) : Inside v (i.ask debug mode v) := by
  have self := sound.partOf_self
  have start {body : Program} (hb : body.Admissible v.kind) (m : Mode) :
      ((body.start debug m depth) v).In (Value.In v) v v :=
    body.run_keeps hb debug m depth Value.in_absent v self rfl
  have keeps {body : Program} (hb : body.Admissible v.kind) (m : Mode) :
      (body.start debug m depth).Keeps v.kind v (Value.In v) :=
    body.run_keeps hb debug m depth Value.in_absent
  have present {p : Read Value} (hp : p.Keeps v.kind v (Value.In v)) :
      (Read.map Scope.present p).Keeps v.kind v fun found => ∀ b, found = some b → b.In v := by
    exact Read.keeps_map hp fun a good b same => Scope.eq_of_present same ▸ good
  have single {a : Value} (good : a.In v) : ∀ b ∈ [a], b.In v := by simpa using good
  cases i with
  | kind | length | byteLength | bound | isEmpty | isBound | span | asBytes | asString | toText
  | equals | hasPrefix => exact inside_value (by simp)
  | first | last | nth =>
    exact inside_value (Value.in_ofOption fun t _ => Value.in_ofToken t)
  | tokens =>
    refine inside_value (Value.in_list.2 fun a ha => ?_)
    obtain ⟨t, -, rfl⟩ := List.mem_map.1 ha
    exact Value.in_ofToken t
  | clone => exact inside_value (Value.in_view.2 self)
  | endView => exact inside_value (Value.in_view.2 sound.endView_tailOf.partOf)
  | intoBound => exact inside_value (Value.in_view.2 self.intoBound)
  | intoBytes => exact inside_value (Value.in_view.2 self.intoBytes)
  | intoText op =>
    simp only [ask]
    split
    · exact inside_value (Value.in_view.2 self)
    · exact inside_map fun text made => Value.in_view.2 (self.intoText made).1
  | intoNonEmpty =>
    exact inside_map fun u made => Value.in_view.2 (View.eq_of_intoNonEmpty made ▸ self)
  | splitAtOpt n =>
    exact inside_value (Value.in_ofOption fun parts cut => in_pair (sound.splitAt?_parts cut).1)
  | splitAt n op => exact inside_map fun parts cut => in_pair (sound.splitAt_parts cut).1
  | splitAtByteOpt n =>
    exact inside_value (Value.in_ofOption fun parts cut => in_pair (sound.splitAtByte?_parts cut))
  | splitAtByte n op => exact inside_map fun parts cut => in_pair (sound.splitAtByte_parts cut)
  | splitFirst op =>
    apply inside_map
    intro first cut
    simpa using (sound.splitFirst_tail cut).partOf
  | splitPrefixOpt literal =>
    exact inside_value (Value.in_ofOption fun parts cut =>
      in_pair (sound.splitPrefix?_parts hi cut))
  | splitPrefix literal op =>
    exact inside_map fun parts cut => in_pair (sound.splitPrefix_parts hi cut)
  | splitWhile p =>
    have respects := Pattern.Admissible.respects hi
    exact inside_value (in_pair (sound.splitWhile_parts respects))
  | splitUntilOpt p =>
    exact inside_value (Value.in_ofOption fun parts cut => in_pair (sound.splitUntil?_parts cut))
  | splitUntil p op => exact inside_map fun parts cut => in_pair (sound.splitUntil_parts cut)
  | splitUntilConsumeOpt p =>
    exact inside_value (Value.in_ofOption fun parts cut =>
      in_pair (sound.splitUntilConsume?_parts cut))
  | splitUntilConsume p op =>
    exact inside_map fun parts cut => in_pair (sound.splitUntilConsume_parts cut)
  | splitStrWhile | trySplitStrWhile =>
    exact inside_map fun parts cut => in_pair (sound.trySplitStrWhile_parts cut)
  | trySplitWhile check op =>
    exact inside_map fun parts cut => in_pair (sound.trySplitWhile_parts cut)
  | splitConsumed body =>
    have inner := start hi mode
    refine ⟨?_, inner.steps⟩
    rintro _ ⟨⟩
    simpa using ⟨Value.in_orAbsent inner.value, sound.consumedHead_partOf inner.rest,
      inner.rest.partOf⟩
  | trySplitConsumed body =>
    refine inside_withRest (Read.keeps_tryTakeConsumed (keeps hi mode) v self rfl) ?_
    rintro ⟨a, head⟩ good
    simpa using good
  | splitExpect expected op body =>
    have inner := present (Read.keeps_unfailing (keeps hi mode))
    exact inside_withRest (Read.keeps_expect inner mode expected op v self rfl) fun _ => single
  | trySplitExpect expected op body =>
    have inner := present (keeps hi mode)
    exact inside_withRest (Read.keeps_expect inner mode expected op v self rfl) fun _ => single
  | trySplitExpectErased expected op body =>
    have inner := keeps hi .invalid
    have read := Read.keeps_expectErased inner mode expected op
    exact inside_withRest (read v self rfl) fun _ => single
  | trySplitExternal expected op parser =>
    apply inside_map
    intro read cut
    obtain ⟨⟨n, parsed⟩, tail⟩ := sound.splitForeign_tail cut
    simpa using ⟨hi v read.1 n sound rfl parsed, tail.partOf⟩
  | intoExternal expected parser =>
    refine inside_result (fun a same => ?_) (by simp)
    exact hi v a sound rfl (View.eq_ok_of_intoForeign same)
  | enter entry body =>
    have inner := Entry.run_keeps hi entry debug mode depth v self rfl
    cases entry with
    | all | part => exact inside_result inner.value inner.steps
    | infallible =>
      simp only [ask]
      split
      · rename_i a found
        refine ⟨?_, inner.steps⟩
        rintro _ ⟨⟩
        exact inner.value _ found
      · exact ⟨by simp [Reply.value?], inner.steps⟩

/-! ## Sessions -/

/-- The views that a session comes by: what answers hold, and where the steps of its programs stood
and what they yielded. -/
inductive Reached (v : View) : View → Prop where
  | entry : Reached v v
  | reply {u w : View} {i : Inquiry} {debug : Bool} {mode : Mode} {a : Value} : Reached v u →
      i.Admissible u.kind → (i.ask debug mode u).1.value? = some a → a.Holds w → Reached v w
  | before {u : View} {i : Inquiry} {debug : Bool} {mode : Mode} {s : Step} : Reached v u →
      i.Admissible u.kind → s ∈ Event.steps (i.ask debug mode u).2 → Reached v s.before
  | after {u : View} {i : Inquiry} {debug : Bool} {mode : Mode} {s : Step} : Reached v u →
      i.Admissible u.kind → s ∈ Event.steps (i.ask debug mode u).2 → Reached v s.after
  | yielded {u w : View} {i : Inquiry} {debug : Bool} {mode : Mode} {s : Step} {a : Value} :
      Reached v u → i.Admissible u.kind → s ∈ Event.steps (i.ask debug mode u).2 →
      s.result = .ok a → a.Holds w → Reached v w

theorem Reached.partOf {w : View} (sound : v.Sound) (h : Reached v w) : w.PartOf v := by
  -- By induction on how the session came by the view: every answer is inside the view asked.
  induction h with
  | entry => exact sound.partOf_self
  | reply _ hi given holds ih =>
    exact ((ask_inside ih.sound hi _ _).value _ given _ holds).trans ih
  | before _ hi step ih => exact ((ask_inside ih.sound hi _ _).steps _ step).before.trans ih
  | after _ hi step ih =>
    have inside := (ask_inside ih.sound hi _ _).steps _ step
    exact (inside.after.partOf.trans inside.before).trans ih
  | yielded _ hi step result holds ih =>
    exact (((ask_inside ih.sound hi _ _).steps _ step).value _ result _ holds).trans ih

/-- What callers start from: a string, whose lone surrogates are replaced as it is encoded, or
bytes, which may be any. -/
inductive Given : View → Prop where
  | string (id : Nat) (us : List Nat) : Given (.ofSource (.ofBytes id (Utf8.encodeUnits us)) .text)
  | bytes {v : View} : v.Sound → v.kind = .bytes → Given v

theorem Given.sound (h : Given v) : v.Sound := by
  cases h with
  | string id us => exact View.ofBytes_sound id (Utf8.isValid_encode _)
  | bytes sound => exact sound

/-- Each text that a session comes by is valid UTF-8, whatever it asks of a string or of bytes. -/
theorem reached_text_valid {w : View} (given : Given v) (h : Reached v w) (text : w.kind = .text) :
    Utf8.problem? w.bytes = none := by
  have whole := (h.partOf given.sound).sound.whole
  rw [text] at whole
  exact (Utf8.problem?_eq_none_iff _).2 whole

/-- The text before a broken char, taken from bytes by a program. -/
theorem reached_text_valid_prefix :
    let v := View.ofSource (.ofBytes 0 [0x68, 0xc3, 0xa9, 0x20]) .bytes
    let w : View := { v with size := 3, bound := .fullyBounded, kind := .text }
    Given v ∧ Reached v w ∧ w.kind = .text ∧ Utf8.problem? w.bytes = none := by
  intro v w
  have given : Given v := .bytes (View.ofBytes_sound 0 trivial) rfl
  let asked : Inquiry := .splitStrWhile (fun c => c != 0x20) .takeStrWhile
  have scanned : Utf8.scanTo (fun c => !(Action.sure (fun c => c != 0x20)).passes c.toNat) 0
      v.bytes = (3, some (.ok (' ', 1))) := by
    cbv
  have answer : (asked.ask true .full v).1.value? =
      some (.list [.view w, .view { v with offset := 3, size := 1 }]) := by
    simp only [asked, ask, View.trySplitStrWhile, scanned]
    rfl
  have reached : Reached v w :=
    .reply (i := asked) .entry trivial answer (.item (List.mem_cons_self ..) (.view w))
  exact ⟨given, reached, rfl, reached_text_valid given reached rfl⟩

end Inquiry
end Untrusted
