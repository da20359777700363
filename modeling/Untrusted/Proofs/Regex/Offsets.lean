import Mathlib
import Untrusted.Proofs.Decoding
import Untrusted.Proofs.Regex.Matching

/-!
# Offsets of matches

An expression is searched for in the units of a text, and what it matched is given by offsets into
the bytes. The search and the chain of matches are told here as relations, without a bound on their
rounds, and the offsets by the text that the bytes around them hold.
-/

namespace Untrusted

namespace Regex

/-! ## The search -/

/-- There is a match from `i` on, which over code points is between two of them. -/
def Starts (r : Regex) (text : Array Nat) (i : Nat) : Prop :=
  Place r.flags.unicode text i ∧ (r.matchAt? text i).isSome

/-- The match that starts first, but not before `i`. -/
structure First (r : Regex) (text : Array Nat) (i start stop : Nat) : Prop where
  least : IsLeast {j | i ≤ j ∧ r.Starts text j} start
  ends : r.matchAt? text start = some stop

/-- What a search from `i` on comes to: the first match or, where that starts or ends inside a pair,
what a search comes to that goes on one unit after its start. -/
inductive Search (r : Regex) (text : Array Nat) : Nat → Option (Nat × Nat) → Prop where
  | nowhere {i : Nat} : (∀ j, i ≤ j → ¬ r.Starts text j) → Search r text i none
  | whole {i start stop : Nat} : First r text i start stop → splitsPair text start = false →
      splitsPair text stop = false → Search r text i (some (start, stop))
  | passed {i start stop : Nat} {found : Option (Nat × Nat)} : First r text i start stop →
      splitsPair text start = true ∨ splitsPair text stop = true →
      Search r text (start + 1) found → Search r text i found

/-! ## The chain -/

/-- Matches lead from `i` to `j`, each from where the last one ended. None is empty or ends inside a
pair. -/
inductive Chain (r : Regex) (text : Array Nat) : Nat → Nat → Prop where
  | done (i : Nat) : Chain r text i i
  | next {i stop j : Nat} : r.matchAt? text i = some stop → stop ≠ i →
      splitsPair text stop = false → Chain r text stop j → Chain r text i j

/-- The match from `i` on is missing, empty or ends inside a pair. -/
def Breaks (r : Regex) (text : Array Nat) (i : Nat) : Prop :=
  ∀ stop, r.matchAt? text i = some stop → stop = i ∨ splitsPair text stop = true

variable {r : Regex} {text : Array Nat} {fuel i j start stop : Nat}

/-! ## One result -/

theorem First.unique {start' stop' : Nat} (h : First r text i start stop)
    (h' : First r text i start' stop') : start = start' ∧ stop = stop' := by
  obtain rfl := h.least.unique h'.least
  exact ⟨rfl, Option.some.inj (h.ends.symm.trans h'.ends)⟩

theorem First.not_nowhere (h : First r text i start stop) :
    ¬ ∀ j, i ≤ j → ¬ r.Starts text j :=
  fun nowhere => nowhere start h.least.1.1 h.least.1.2

theorem Search.unique {a b : Option (Nat × Nat)} (ha : Search r text i a)
    (hb : Search r text i b) : a = b := by
  induction ha with
  | nowhere nowhere =>
    cases hb with
    | nowhere => rfl
    | whole first => exact absurd nowhere first.not_nowhere
    | passed first => exact absurd nowhere first.not_nowhere
  | whole first starts ends =>
    cases hb with
    | nowhere nowhere => exact absurd nowhere first.not_nowhere
    | whole first' =>
      obtain ⟨rfl, rfl⟩ := first.unique first'
      rfl
    | passed first' cut =>
      obtain ⟨rfl, rfl⟩ := first.unique first'
      simp [starts, ends] at cut
  | passed first cut later ih =>
    cases hb with
    | nowhere nowhere => exact absurd nowhere first.not_nowhere
    | whole first' starts ends =>
      obtain ⟨rfl, rfl⟩ := first.unique first'
      simp [starts, ends] at cut
    | passed first' cut' later' =>
      obtain ⟨rfl, rfl⟩ := first.unique first'
      exact ih later'

theorem Chain.unique {j' : Nat} (h : Chain r text i j) (broken : Breaks r text j)
    (h' : Chain r text i j') (broken' : Breaks r text j') : j = j' := by
  induction h with
  | done i =>
    cases h' with
    | done => rfl
    | next found filled whole later =>
      rcases broken _ found with empty | cut
      · exact absurd empty filled
      · rw [whole] at cut
        contradiction
  | next found filled whole later ih =>
    cases h' with
    | done =>
      rcases broken' _ found with empty | cut
      · exact absurd empty filled
      · rw [whole] at cut
        contradiction
    | next found' filled' whole' later' =>
      obtain rfl := Option.some.inj (found.symm.trans found')
      exact ih broken later'

/-! ## The loops -/

/-- There is no place between a position and the next one. -/
theorem nextPosition_spec (le : i ≤ text.size) :
    i < r.nextPosition text i ∧
      (r.nextPosition text i ≤ text.size → Place r.flags.unicode text (r.nextPosition text i)) ∧
      ∀ j, i < j → Place r.flags.unicode text j → r.nextPosition text i ≤ j := by
  unfold nextPosition
  cases read : charAt? r.flags.unicode text i with
  | none =>
    have last := le_of_charAt?_eq_none read
    dsimp only
    exact ⟨Nat.lt_succ_self i, fun inside => by omega, fun j after _ => after⟩
  | some found =>
    obtain ⟨place, less, next⟩ := charAt?_next read
    exact ⟨less, fun _ => place, next⟩

theorem not_starts_of_lt (less : text.size < i) (le : i ≤ j) : ¬ r.Starts text j := by
  rintro ⟨place, -⟩
  have inside := place.le
  omega

theorem searchFrom_spec (enters : i ≤ text.size → Place r.flags.unicode text i)
    (enough : text.size < i + fuel) :
    (∀ start stop, r.searchFrom text fuel i = some (start, stop) → First r text i start stop) ∧
      (r.searchFrom text fuel i = none → ∀ j, i ≤ j → ¬ r.Starts text j) := by
  -- By induction on the rounds that are left, which are enough to come to the end of the text.
  induction fuel generalizing i with
  | zero =>
    refine ⟨fun start stop h => ?_, fun _ j later => not_starts_of_lt enough later⟩
    simp [searchFrom] at h
  | succ fuel ih =>
    rw [searchFrom]
    split
    · rename_i less
      exact ⟨fun start stop h => by contradiction, fun _ j later => not_starts_of_lt less later⟩
    · rename_i inside
      have le := Nat.not_lt.1 inside
      split
      · rename_i stop found
        have starts : r.Starts text i := ⟨enters le, by rw [found]; rfl⟩
        refine ⟨fun start stop h => ?_, fun h => by contradiction⟩
        cases h
        exact ⟨⟨⟨Nat.le_refl i, starts⟩, fun j later => later.1⟩, found⟩
      · rename_i missing
        obtain ⟨less, place, skips⟩ := nextPosition_spec (r := r) le
        have only (j : Nat) (later : i ≤ j) (starts : r.Starts text j) :
            r.nextPosition text i ≤ j := by
          refine skips j (Nat.lt_of_le_of_ne later ?_) starts.1
          rintro rfl
          have some' := starts.2
          rw [missing] at some'
          contradiction
        obtain ⟨finds, fails⟩ := ih place (by omega)
        refine ⟨fun start stop h => ?_, fun h j later starts => ?_⟩
        · obtain ⟨⟨⟨after, starts⟩, least⟩, ends⟩ := finds start stop h
          refine ⟨⟨⟨by omega, starts⟩, fun j later => ?_⟩, ends⟩
          exact least ⟨only j later.1 later.2, later.2⟩
        · exact fails h j (only j later starts) starts

theorem wholeMatch?_search
    (enters : i ≤ text.size → Place r.flags.unicode text i) (enough : text.size < i + fuel) :
    Search r text i (r.wholeMatch? text fuel i) := by
  induction fuel generalizing i with
  | zero => exact .nowhere fun j later => not_starts_of_lt enough later
  | succ fuel ih =>
    have enough' : text.size < i + (text.size + 1 - i) := by omega
    obtain ⟨finds, fails⟩ := searchFrom_spec enters enough'
    rw [wholeMatch?]
    split
    · rename_i missing
      exact .nowhere (fails missing)
    · rename_i start stop found
      have first := finds start stop found
      obtain ⟨after, place, -⟩ := first.least.1
      split
      · -- Only over units is a match passed over: over code points it is between two of them.
        rename_i cut
        rw [Bool.or_eq_true] at cut
        have units : r.flags.unicode = false := by
          rw [Bool.eq_false_iff]
          intro points
          have ends := (place_of_matchAt? place first.ends).1
          rw [place.uncut points, ends.uncut points] at cut
          simp at cut
        refine .passed first cut (ih (fun le => ⟨le, fun points => ?_⟩) (by omega))
        rw [units] at points
        contradiction
      · rename_i whole
        simp only [Bool.or_eq_true, not_or, Bool.not_eq_true] at whole
        exact .whole first whole.1 whole.2

theorem breaks_size : Breaks r text text.size := by
  intro stop found
  have last : Place r.flags.unicode text text.size := by
    refine ⟨Nat.le_refl _, fun _ => splitsPair_eq_false_of_not_low fun v at' => ?_⟩
    simp at at'
  obtain ⟨place, le⟩ := place_of_matchAt? last found
  exact .inl (Nat.le_antisymm place.le le)

theorem chainEnd?_spec (place : Place r.flags.unicode text i) (enough : text.size < i + fuel) :
    (r.chainEnd? text fuel i = none → Chain r text i text.size) ∧
      ∀ j, r.chainEnd? text fuel i = some j →
        Chain r text i j ∧ j < text.size ∧ Breaks r text j := by
  -- By induction on the rounds: each match of the chain brings it further.
  induction fuel generalizing i with
  | zero =>
    have le := place.le
    omega
  | succ fuel ih =>
    rw [chainEnd?]
    split
    · rename_i atEnd
      obtain rfl := Nat.le_antisymm place.le atEnd
      exact ⟨fun _ => .done _, fun j h => by contradiction⟩
    · rename_i inside
      have less := Nat.not_le.1 inside
      split
      · rename_i stop found
        split
        · rename_i broken
          refine ⟨fun h => by contradiction, fun j h => ?_⟩
          obtain rfl := Option.some.inj h
          refine ⟨.done i, less, fun stop' found' => ?_⟩
          rwa [← Option.some.inj (found.symm.trans found')]
        · rename_i goes
          simp only [not_or, Bool.not_eq_true] at goes
          obtain ⟨next, le⟩ := place_of_matchAt? place found
          have further : i < stop := Nat.lt_of_le_of_ne le (Ne.symm goes.1)
          obtain ⟨covers, breaks⟩ := ih next (by omega)
          refine ⟨fun h => .next found goes.1 goes.2 (covers h), fun j h => ?_⟩
          obtain ⟨chain, rest⟩ := breaks j h
          exact ⟨.next found goes.1 goes.2 chain, rest⟩
      · rename_i missing
        refine ⟨fun h => by contradiction, fun j h => ?_⟩
        obtain rfl := Option.some.inj h
        refine ⟨.done i, less, fun stop found => ?_⟩
        rw [missing] at found
        contradiction

theorem Chain.uncut (h : Chain r text i j) (first : splitsPair text i = false) :
    splitsPair text j = false := by
  induction h with
  | done => exact first
  | next found filled whole later ih => exact ih whole

theorem exists_chain : ∃ j, Chain r text 0 j ∧ Breaks r text j ∧ j ≤ text.size ∧
    r.chainEnd? text (text.size + 1) 0 = if j = text.size then none else some j := by
  have start : Place r.flags.unicode text 0 := ⟨Nat.zero_le _, fun _ => splitsPair_zero text⟩
  have enough : text.size < 0 + (text.size + 1) := by omega
  obtain ⟨covers, breaks⟩ := chainEnd?_spec start enough
  cases ends : r.chainEnd? text (text.size + 1) 0 with
  | none => exact ⟨text.size, covers ends, breaks_size, Nat.le_refl _, by rw [if_pos rfl]⟩
  | some j =>
    obtain ⟨chain, less, broken⟩ := breaks j ends
    exact ⟨j, chain, broken, less.le, by rw [if_neg less.ne]⟩

/-! ## Offsets -/

theorem Search.exists_first {found : Option (Nat × Nat)} (h : Search r text i found)
    (same : found = some (start, stop)) : ∃ j, First r text j start stop ∧
      splitsPair text start = false ∧ splitsPair text stop = false := by
  induction h with
  | nowhere => contradiction
  | whole first starts ends =>
    cases same
    exact ⟨_, first, starts, ends⟩
  | passed first cut later ih => exact ih same

/-- Places between chars are counted for the bytes of the chars before them, and what lies between
two of them for its own. -/
theorem byteCount_decodes {cs : List Char} (le : start ≤ (Utf8.units cs).length)
    (first : splitsPair (Utf8.units cs).toArray start = false)
    (last : splitsPair (Utf8.units cs).toArray stop = false) :
    ∃ pre inner post, cs = pre ++ (inner ++ post) ∧
      byteCount (Utf8.units cs).toArray 0 start = (Utf8.encode pre).length ∧
      byteCount (Utf8.units cs).toArray start stop = (Utf8.encode inner).length ∧
      Utf8.units pre = (Utf8.units cs).take start ∧
      Utf8.units inner = ((Utf8.units cs).drop start).take (stop - start) := by
  rw [splitsPair_eq] at first last
  obtain ⟨pre, inner, post, split, before, counted⟩ :=
    Utf8.exists_parts_of_not_splitsPair le first last
  refine ⟨pre, inner, post, split, ?_, ?_, before.symm, counted.symm⟩
  · rw [byteCount_toArray, before, Utf8.unitsByteLength_units]
  · rw [byteCount_toArray_extract, counted, Utf8.unitsByteLength_units]

theorem wholeMatch?_units (r : Regex) (cs : List Char) :
    let text := (Utf8.units cs).toArray
    Search r text 0 (r.wholeMatch? text (text.size + 1) 0) :=
  wholeMatch?_search (fun _ => ⟨Nat.zero_le _, fun _ => splitsPair_zero _⟩) (by omega)

variable {cs : List Char}

theorem find?_encode (r : Regex) (cs : List Char) {found : Option (Nat × Nat)}
    (h : Search r (Utf8.units cs).toArray 0 found) : r.find? (Utf8.encode cs) =
      found.map fun place => (byteCount (Utf8.units cs).toArray 0 place.1,
        byteCount (Utf8.units cs).toArray place.1 place.2) := by
  rw [find?, Utf8.repaired_eq_chars (Utf8.isValid_encode cs), Utf8.chars_encode,
    (wholeMatch?_units r cs).unique h]

/-- What a search comes to is found at the offset of its text. -/
theorem find?_of_search (h : Search r (Utf8.units cs).toArray 0 (some (start, stop))) :
    ∃ pre inner post, cs = pre ++ (inner ++ post) ∧ start ≤ stop ∧ stop ≤ (Utf8.units cs).length ∧
      r.find? (Utf8.encode cs) = some ((Utf8.encode pre).length, (Utf8.encode inner).length) ∧
      Utf8.units pre = (Utf8.units cs).take start ∧
      Utf8.units inner = ((Utf8.units cs).drop start).take (stop - start) := by
  obtain ⟨i, first, starts, ends⟩ := h.exists_first rfl
  obtain ⟨place, le⟩ := place_of_matchAt? first.least.1.2.1 first.ends
  have inside := first.least.1.2.1.le.trans_eq List.size_toArray
  obtain ⟨pre, inner, post, split, before, counted, text, matched⟩ :=
    byteCount_decodes inside starts ends
  refine ⟨pre, inner, post, split, le, place.le.trans_eq List.size_toArray, ?_, text, matched⟩
  rw [find?_encode r cs h, Option.map_some, before, counted]

/-- Where a chain ends, the bytes of its text are rejected after, unless nothing is left. -/
theorem reject?_of_chain (chain : Chain r (Utf8.units cs).toArray 0 j)
    (broken : Breaks r (Utf8.units cs).toArray j) :
    ∃ pre post, cs = pre ++ post ∧ j ≤ (Utf8.units cs).length ∧
      r.reject? (Utf8.encode cs) =
        (if j = (Utf8.units cs).length then none else some (Utf8.encode pre).length) ∧
      Utf8.units pre = (Utf8.units cs).take j := by
  obtain ⟨j', chain', broken', le, ends⟩ := exists_chain (r := r)
  obtain rfl := chain.unique broken chain' broken'
  have uncut := chain.uncut (splitsPair_zero _)
  rw [List.size_toArray] at le ends
  obtain ⟨pre, inner, post, split, before, -, text, -⟩ := byteCount_decodes le uncut uncut
  refine ⟨pre, inner ++ post, split, le, ?_, text⟩
  rw [reject?, Utf8.repaired_eq_chars (Utf8.isValid_encode cs), Utf8.chars_encode]
  simp only [List.size_toArray, ends]
  split
  · rfl
  · rw [Option.map_some, before]

end Regex

/-- The offsets of an expression over a text are those of the text that it matches. A search comes
to one result: it takes the first match and, while that starts or ends inside a surrogate pair, the
first from one unit after its start. Nothing is found if there is no other match; else the bytes
before the offset hold the text before the match, and as many as the length those of the match. The
chain of matches from the start has one end, where the next is missing, empty or ends inside a pair,
and the bytes of the chain are rejected after unless they are all. -/
theorem regex_offsets_map_back (r : Regex) {bytes : List UInt8}
    (valid : Utf8.isValid bytes = true) :
    let us := Utf8.units (Utf8.chars bytes)
    (∃! found, r.Search us.toArray 0 found) ∧
    ((Pattern.regex r).find? bytes = none ↔ r.Search us.toArray 0 none) ∧
    (∀ start stop, r.Search us.toArray 0 (some (start, stop)) →
      start ≤ stop ∧ stop ≤ us.length ∧ ∃ i n : Nat,
        (Pattern.regex r).find? bytes = some (Number.ofNat i, Number.ofNat n) ∧
        Utf8.Boundary bytes i ∧ Utf8.Boundary bytes (i + n) ∧
        Utf8.units (Utf8.chars (bytes.take i)) = us.take start ∧
        Utf8.units (Utf8.chars ((bytes.drop i).take n)) = (us.drop start).take (stop - start)) ∧
    (∃! j, r.Chain us.toArray 0 j ∧ r.Breaks us.toArray j) ∧
    ∀ j, r.Chain us.toArray 0 j → r.Breaks us.toArray j →
      ((Pattern.regex r).reject? bytes = none ↔ j = us.length) ∧
      (j ≠ us.length → ∃ n : Nat, (Pattern.regex r).reject? bytes = some (Number.ofNat n) ∧
        Utf8.Boundary bytes n ∧ Utf8.units (Utf8.chars (bytes.take n)) = us.take j) := by
  obtain ⟨cs, rfl⟩ := Utf8.exists_encode_of_isValid valid
  rw [Utf8.chars_encode]
  intro us
  have search := Regex.wholeMatch?_units r cs
  refine ⟨⟨_, search, fun found h => h.unique search⟩, ?_, ?_, ?_, ?_⟩
  · rw [Pattern.find?, Option.map_eq_none_iff, Regex.find?_encode r cs search,
      Option.map_eq_none_iff]
    constructor
    · intro missing
      rwa [← missing]
    · exact fun h => search.unique h
  · intro start stop h
    obtain ⟨pre, inner, post, split, le, inside, found, before, matched⟩ :=
      Regex.find?_of_search h
    obtain ⟨starts, ends⟩ := Regex.find?_boundaries valid found
    refine ⟨le, inside, _, _, ?_, starts, ends, ?_, ?_⟩
    · rw [Pattern.find?, found]
      rfl
    · rw [split, Utf8.encode_append, List.take_left, Utf8.chars_encode]
      exact before
    · rw [split, Utf8.encode_append, Utf8.encode_append, List.drop_left, List.take_left,
        Utf8.chars_encode]
      exact matched
  · obtain ⟨j, chain, broken, -⟩ := Regex.exists_chain (r := r)
    exact ⟨j, ⟨chain, broken⟩, fun j' h => h.1.unique h.2 chain broken⟩
  · intro j chain broken
    obtain ⟨pre, post, split, le, rejects, before⟩ := Regex.reject?_of_chain chain broken
    refine ⟨?_, fun left => ?_⟩
    · rw [Pattern.reject?, Option.map_eq_none_iff, rejects]
      simp [us]
    · rw [if_neg left] at rejects
      refine ⟨_, ?_, Regex.reject?_boundary valid rejects, ?_⟩
      · rw [Pattern.reject?, rejects]
        rfl
      · rw [split, Utf8.encode_append, List.take_left, Utf8.chars_encode]
        exact before

/-- Over units the first match starts inside the pair. It is passed over, and the next is found. -/
theorem regex_offsets_map_back_pair :
    let r : Regex := ⟨.seq .any (.char 0x62), ⟨false, false, false, false⟩⟩
    let bytes := Utf8.encode ['😀', 'b', 'c', 'b']
    Utf8.isValid bytes = true ∧ (∃ i n : Nat,
      (Pattern.regex r).find? bytes = some (Number.ofNat i, Number.ofNat n) ∧
      Utf8.units (Utf8.chars (bytes.take i)) = Utf8.units ['😀', 'b'] ∧
      Utf8.units (Utf8.chars ((bytes.drop i).take n)) = Utf8.units ['c', 'b']) ∧
    (Pattern.regex r).reject? bytes ≠ none := by
  intro r bytes
  have valid : Utf8.isValid bytes = true := Utf8.isValid_encode _
  obtain ⟨-, -, finds, -, rejects⟩ := regex_offsets_map_back r valid
  rw [Utf8.chars_encode] at finds rejects
  have search := Regex.wholeMatch?_units r ['😀', 'b', 'c', 'b']
  have found : r.wholeMatch? (Utf8.units ['😀', 'b', 'c', 'b']).toArray 6 0 = some (3, 5) := by
    decide +kernel
  obtain ⟨-, -, i, n, at', -, -, before, matched⟩ := finds 3 5 (found ▸ search)
  refine ⟨valid, ⟨i, n, at', before, matched⟩, ?_⟩
  have missing : r.matchAt? (Utf8.units ['😀', 'b', 'c', 'b']).toArray 0 = none := by
    decide +kernel
  have broken : r.Breaks (Utf8.units ['😀', 'b', 'c', 'b']).toArray 0 := by
    intro stop matches'
    rw [missing] at matches'
    contradiction
  rw [ne_eq, (rejects 0 (.done 0) broken).1]
  decide

end Untrusted
