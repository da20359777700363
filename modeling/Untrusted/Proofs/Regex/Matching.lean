import Mathlib
import Untrusted.Proofs.Pattern.Matches

/-!
# Where matching goes

Each part of an expression goes on from a place of the text that it reached, and only in the
direction in which it is matched. Over code points such a place is between two of them: a character
is read whole, also where what a group matched is written again.
-/

namespace Untrusted.Regex

/-- A place in the text or its end, which over code points is between two of them. -/
structure Place (unicode : Bool) (text : Array Nat) (i : Nat) : Prop where
  le : i ≤ text.size
  uncut : unicode = true → splitsPair text i = false

def Direction.Leads : Direction → Nat → Nat → Prop
  | .rightward, i, j => i ≤ j
  | .leftward, i, j => j ≤ i

/-- Matching can come from `s` to `t`. -/
structure Reaches (unicode : Bool) (text : Array Nat) (d : Direction) (s t : Progress) : Prop where
  place : Place unicode text t.position
  leads : d.Leads s.position t.position

def Advances (unicode : Bool) (text : Array Nat) (d : Direction)
    (matcher : Progress → Continuation → Option Progress) : Prop :=
  ∀ s k t, Place unicode text s.position → matcher s k = some t →
    ∃ s', Reaches unicode text d s s' ∧ k s' = some t

variable {f : Flags} {unicode : Bool} {text : Array Nat} {d : Direction} {s t : Progress}
  {k : Continuation} {i j n : Nat}

/-! ## Pairs -/

theorem splitsPair_eq_true_iff : splitsPair text i = true ↔ ∃ j u v, i = j + 1 ∧
    text[j]? = some u ∧ text[j + 1]? = some v ∧ Utf8.isHighSurrogate u = true ∧
    Utf8.isLowSurrogate v = true := by
  unfold splitsPair
  constructor
  · intro cut
    split at cut
    · rename_i u v first second
      simp only [Bool.and_eq_true, decide_eq_true_eq] at cut
      obtain ⟨⟨positive, high⟩, low⟩ := cut
      have place : i - 1 + 1 = i := Nat.succ_pred_eq_of_pos positive
      exact ⟨i - 1, u, v, place.symm, first, by rwa [place], high, low⟩
    · contradiction
  · rintro ⟨j, u, v, rfl, first, second, high, low⟩
    rw [Nat.add_sub_cancel, first, second]
    simp [high, low]

theorem splitsPair_eq_false_of_not_high {u : Nat} (at' : text[i]? = some u)
    (h : Utf8.isHighSurrogate u = false) : splitsPair text (i + 1) = false := by
  rw [Bool.eq_false_iff, ne_eq, splitsPair_eq_true_iff]
  rintro ⟨j, u', v, same, first, -, high, -⟩
  obtain rfl := Nat.succ.inj same
  rw [at', Option.some.injEq] at first
  rw [first, high] at h
  contradiction

theorem splitsPair_eq_false_of_not_low
    (h : ∀ v, text[i]? = some v → Utf8.isLowSurrogate v = false) : splitsPair text i = false := by
  rw [Bool.eq_false_iff, ne_eq, splitsPair_eq_true_iff]
  rintro ⟨j, u, v, rfl, -, second, -, low⟩
  rw [h v second] at low
  contradiction

theorem splitsPair_eq_false_of_not_pair {u v : Nat} (first : text[i]? = some u)
    (second : text[i + 1]? = some v)
    (h : ¬ (Utf8.isHighSurrogate u = true ∧ Utf8.isLowSurrogate v = true)) :
    splitsPair text (i + 1) = false := by
  rw [Bool.eq_false_iff, ne_eq, splitsPair_eq_true_iff]
  rintro ⟨j, u', v', same, first', second', high, low⟩
  obtain rfl := Nat.succ.inj same
  rw [first, Option.some.injEq] at first'
  rw [second, Option.some.injEq] at second'
  exact h ⟨first' ▸ high, second' ▸ low⟩

theorem isLowSurrogate_of_high {u : Nat} (h : Utf8.isHighSurrogate u = true) :
    Utf8.isLowSurrogate u = false := by
  simp only [Utf8.isHighSurrogate, Utf8.isLowSurrogate, Bool.and_eq_true, Bool.and_eq_false_iff,
    decide_eq_true_eq, decide_eq_false_iff_not] at h ⊢
  omega

theorem isHighSurrogate_of_low {u : Nat} (h : Utf8.isLowSurrogate u = true) :
    Utf8.isHighSurrogate u = false := by
  rw [Bool.eq_false_iff]
  intro high
  rw [isLowSurrogate_of_high high] at h
  contradiction

/-! ## Directions -/

namespace Direction.Leads

theorem refl (d : Direction) (i : Nat) : d.Leads i i := by
  cases d with
  | rightward => exact Nat.le_refl i
  | leftward => exact Nat.le_refl i

theorem trans (hij : d.Leads i j) (hjn : d.Leads j n) : d.Leads i n := by
  cases d with
  | rightward => exact Nat.le_trans hij hjn
  | leftward => exact Nat.le_trans hjn hij

end Direction.Leads

theorem Reaches.trans {u : Progress} (hst : Reaches unicode text d s t)
    (htu : Reaches unicode text d t u) : Reaches unicode text d s u :=
  ⟨htu.place, hst.leads.trans htu.leads⟩

/-! ## Single characters -/

theorem charAt?_next {c : Nat} (h : charAt? unicode text i = some (c, n)) :
    Place unicode text n ∧ i < n ∧ ∀ j, i < j → Place unicode text j → n ≤ j := by
  unfold charAt? at h
  split at h
  · contradiction
  · rename_i u first
    obtain ⟨inside, -⟩ := Array.getElem?_eq_some_iff.1 first
    split at h
    · rename_i v second
      obtain ⟨inside', -⟩ := Array.getElem?_eq_some_iff.1 second
      split at h
      · rename_i pair
        simp only [Bool.and_eq_true] at pair
        obtain ⟨-, rfl⟩ := Prod.mk.inj (Option.some.inj h)
        have low := isHighSurrogate_of_low pair.2
        refine ⟨⟨inside', fun _ => splitsPair_eq_false_of_not_high second low⟩, by omega, ?_⟩
        -- The only position that is left out is between the halves of the pair.
        intro j after place
        by_contra before
        obtain rfl : j = i + 1 := by omega
        have cut := splitsPair_eq_true_iff.2 ⟨i, u, v, rfl, first, second, pair.1.2, pair.2⟩
        rw [place.uncut pair.1.1] at cut
        contradiction
      · rename_i alone
        obtain ⟨-, rfl⟩ := Prod.mk.inj (Option.some.inj h)
        refine ⟨⟨inside, fun points => ?_⟩, Nat.lt_succ_self i, fun j after _ => after⟩
        refine splitsPair_eq_false_of_not_pair first second fun pair => ?_
        simp [points, pair] at alone
    · rename_i last
      obtain ⟨-, rfl⟩ := Prod.mk.inj (Option.some.inj h)
      refine ⟨⟨inside, fun _ => ?_⟩, Nat.lt_succ_self i, fun j after _ => after⟩
      exact splitsPair_eq_false_of_not_low fun v found => by simp [last] at found

theorem le_of_charAt?_eq_none (h : charAt? unicode text i = none) : text.size ≤ i := by
  unfold charAt? at h
  split at h
  · rename_i missing
    exact Array.getElem?_eq_none_iff.1 missing
  · split at h
    · split at h <;> contradiction
    · contradiction

theorem splitsPair_zero (text : Array Nat) : splitsPair text 0 = false := by
  rw [Bool.eq_false_iff, ne_eq, splitsPair_eq_true_iff]
  rintro ⟨j, u, v, zero, -⟩
  contradiction

theorem charBefore?_place {c : Nat} (h : charBefore? unicode text i = some (c, n)) :
    Place unicode text n ∧ n < i := by
  rcases i with _ | _ | i
  · contradiction
  · obtain ⟨u, -, same⟩ := Option.map_eq_some_iff.1 h
    obtain ⟨-, rfl⟩ := Prod.mk.inj same
    exact ⟨⟨Nat.zero_le _, fun _ => splitsPair_zero text⟩, Nat.zero_lt_one⟩
  · simp only [charBefore?] at h
    split at h
    · rename_i u v first second
      obtain ⟨inside, -⟩ := Array.getElem?_eq_some_iff.1 second
      split at h
      · rename_i pair
        simp only [Bool.and_eq_true] at pair
        obtain ⟨-, rfl⟩ := Prod.mk.inj (Option.some.inj h)
        refine ⟨⟨by omega, fun _ => ?_⟩, by omega⟩
        refine splitsPair_eq_false_of_not_low fun w found => ?_
        rw [first, Option.some.injEq] at found
        rw [← found]
        exact isLowSurrogate_of_high pair.1.2
      · rename_i alone
        obtain ⟨-, rfl⟩ := Prod.mk.inj (Option.some.inj h)
        refine ⟨⟨inside.le, fun points => ?_⟩, by omega⟩
        refine splitsPair_eq_false_of_not_pair first second fun pair => ?_
        simp [points, pair] at alone
    · contradiction

theorem charToward?_place {c : Nat} (h : charToward? unicode text d i = some (c, n)) :
    Place unicode text n ∧ d.Leads i n := by
  cases d with
  | rightward =>
    obtain ⟨next, later, -⟩ := charAt?_next h
    exact ⟨next, later.le⟩
  | leftward =>
    obtain ⟨next, before⟩ := charBefore?_place h
    exact ⟨next, before.le⟩

theorem advances_step (accepts : Nat → Bool) :
    Advances unicode text d (step unicode text d accepts) := by
  intro s k t place run
  unfold step at run
  split at run
  · rename_i c next found
    obtain ⟨after, leads⟩ := charToward?_place found
    split at run
    · exact ⟨_, ⟨after, leads⟩, run⟩
    · contradiction
  · contradiction

/-! ## What a group matched, again -/

theorem echo?_place {last fuel : Nat} (place : Place f.unicode text j)
    (h : echo? f text d last fuel i j = some n) : Place f.unicode text n ∧ d.Leads j n := by
  induction fuel generalizing i j with
  | zero => contradiction
  | succ fuel ih =>
    rw [echo?] at h
    split at h
    · obtain rfl := Option.some.inj h
      exact ⟨place, .refl d _⟩
    · split at h
      · rename_i a i' b j' first second
        split at h
        · obtain ⟨next, leads⟩ := charToward?_place second
          obtain ⟨ends, later⟩ := ih next h
          exact ⟨ends, leads.trans later⟩
        · contradiction
      · contradiction

theorem advances_again (i j : Nat) :
    Advances f.unicode text d fun s k => again f text d s i j k := by
  intro s k t place run
  obtain ⟨n, found, run⟩ := Option.bind_eq_some_iff.1 run
  obtain ⟨after, leads⟩ : Place f.unicode text n ∧ d.Leads s.position n := by
    cases d with
    | rightward => exact echo?_place place found
    | leftward => exact echo?_place place found
  exact ⟨_, ⟨after, leads⟩, run⟩

/-! ## Repetitions -/

theorem Advances.andThen {first second : Progress → Continuation → Option Progress}
    (h : Advances unicode text d first) (h' : Advances unicode text d second) :
    Advances unicode text d fun s k => first s fun s' => second s' k := by
  intro s k t place run
  obtain ⟨s₁, reached, run⟩ := h s _ t place run
  obtain ⟨s₂, later, run⟩ := h' s₁ k t reached.place run
  exact ⟨s₂, reached.trans later, run⟩

theorem of_orElse_eq_some {a b : Option Progress} (h : (a <|> b) = some t) :
    a = some t ∨ b = some t := by
  cases a with
  | none => exact .inr h
  | some _ => exact .inl h

theorem advances_rounds {round : Progress → Continuation → Option Progress}
    (h : Advances unicode text d round) (greedy : Bool) (fuel least : Nat) (most : Option Nat) :
    Advances unicode text d fun s k => rounds round greedy k fuel least most s := by
  intro s k t place run
  have stays : Reaches unicode text d s s := ⟨place, .refl d _⟩
  -- By induction on the rounds that are left: what follows a round goes on from where it came to.
  induction fuel generalizing least most s with
  | zero =>
    simp only [rounds] at run
    split at run
    · exact ⟨s, stays, run⟩
    · contradiction
  | succ fuel ih =>
    have more (run : (round s fun s' => if least = 0 ∧ s'.position = s.position then none
        else rounds round greedy k fuel (least - 1) (most.map (· - 1)) s') = some t) :
        ∃ s', Reaches unicode text d s s' ∧ k s' = some t := by
      obtain ⟨s', reached, run⟩ := h s _ t place run
      split at run
      · contradiction
      · obtain ⟨s'', later, last⟩ := ih _ _ s' reached.place run ⟨reached.place, .refl d _⟩
        exact ⟨s'', reached.trans later, last⟩
    simp only [rounds] at run
    split at run
    · exact ⟨s, stays, run⟩
    · split at run
      · exact more run
      · split at run
        · rcases of_orElse_eq_some run with run | run
          · exact more run
          · exact ⟨s, stays, run⟩
        · rcases of_orElse_eq_some run with run | run
          · exact ⟨s, stays, run⟩
          · exact more run

/-! ## Parts of an expression -/

theorem advances_around (negated : Bool) (inside : Progress → Option Progress) :
    Advances unicode text d fun s k => Node.run.around negated s k (inside s) := by
  intro s k t place run
  simp only [Node.run.around] at run
  split at run
  · rename_i found _
    split at run
    · contradiction
    · exact ⟨{ s with groups := found.groups }, ⟨place, .refl d _⟩, run⟩
  · split at run
    · exact ⟨s, ⟨place, .refl d _⟩, run⟩
    · contradiction

theorem advances_of_test (test : Progress → Bool) :
    Advances unicode text d fun s k => if test s then k s else none := by
  intro s k t place run
  dsimp only at run
  split at run
  · exact ⟨s, ⟨place, .refl d _⟩, run⟩
  · contradiction

/-- What every part of an expression does, by induction on it. -/
theorem Node.advances (n : Node) (d : Direction) :
    Advances f.unicode text d fun s k => n.run f text d s k := by
  induction n generalizing d with
  | empty => exact fun s k t place run => ⟨s, ⟨place, .refl d _⟩, run⟩
  | char c => exact advances_step _
  | any => exact advances_step _
  | oneOf negated items => exact advances_step _
  | seq a b iha ihb =>
    cases d with
    | rightward => exact (iha .rightward).andThen (ihb .rightward)
    | leftward => exact (ihb .leftward).andThen (iha .leftward)
  | alt a b iha ihb =>
    intro s k t place run
    rcases of_orElse_eq_some run with run | run
    · exact iha d s k t place run
    · exact ihb d s k t place run
  | group index body ih =>
    intro s k t place run
    obtain ⟨s', reached, run⟩ := ih d s _ t place run
    exact ⟨s'.setGroup index _ _, ⟨reached.place, reached.leads⟩, run⟩
  | backreference index =>
    intro s k t place run
    simp only [Node.run] at run
    split at run
    · exact advances_again _ _ s k t place run
    · exact ⟨s, ⟨place, .refl d _⟩, run⟩
  | repetition body least most greedy ih =>
    refine advances_rounds (fun s k t place run => ?_) greedy _ least most
    obtain ⟨s', reached, run⟩ := ih d (s.clear body.groups) k t place run
    exact ⟨s', ⟨reached.place, reached.leads⟩, run⟩
  | lineStart => exact advances_of_test fun s => atLineStart f text s.position
  | lineEnd => exact advances_of_test fun s => atLineEnd f text s.position
  | wordBoundary negated =>
    exact advances_of_test fun s => atWordBoundary f text s.position != negated
  | lookahead negated body ih =>
    exact advances_around negated fun s => body.run f text .rightward s some
  | lookbehind negated body ih =>
    exact advances_around negated fun s => body.run f text .leftward s some

theorem place_of_matchAt? {r : Regex}
    (place : Place r.flags.unicode text i) (h : r.matchAt? text i = some j) :
    Place r.flags.unicode text j ∧ i ≤ j := by
  obtain ⟨t, run, rfl⟩ := Option.map_eq_some_iff.1 h
  obtain ⟨s, reached, same⟩ := r.node.advances .rightward _ _ _ place run
  obtain rfl := Option.some.inj same
  exact ⟨reached.place, reached.leads⟩

end Untrusted.Regex
