import Mathlib
import Untrusted.Settings.Environment
import Untrusted.Settings.Record

/-!
# Names of variables

A path of camel-case names is spelled in capitals, with an underscore before each capital letter and
two between names. The name of a variable that is spelled so stands for its path again. No name of a
variable stands for a path with the name of the parent in it.
-/

namespace Untrusted.Settings

/-! ## Characters -/

theorem toLower_eq (c : Char) :
    c.toLower = Char.ofNat (if 0x41 ≤ c.toNat ∧ c.toNat ≤ 0x5a then c.toNat + 32 else c.toNat) := by
  have upper : c.isUpper ↔ 0x41 ≤ c.toNat ∧ c.toNat ≤ 0x5a := by
    simp [Char.isUpper, UInt32.le_iff_toNat_le]
  by_cases h : c.isUpper
  · rw [if_pos (upper.1 h), Char.toLower_eq_of_isUpper h]
  · rw [if_neg (mt upper.2 h), Char.toLower_eq_of_not_isUpper h, Char.ofNat_toNat]

theorem isAlphanum_toUpper {c : Char} (h : c.isAlphanum) : c.toUpper.isAlphanum := by
  by_cases lower : c.isLower
  · simp [Char.isAlphanum, Char.isAlpha, lower]
  · rwa [Char.toUpper_eq_of_not_isLower lower]

theorem toNat_lt_of_isAlphanum {c : Char} (h : c.isAlphanum) : c.toNat < 0x80 := by
  have point : c.toNat = c.val.toNat := rfl
  simp [Char.isAlphanum, Char.isAlpha, Char.isUpper, Char.isLower, Char.isDigit,
    UInt32.le_iff_toNat_le] at h
  omega

theorem point_of_lt {c : Nat} (small : c < 0x80) :
    Text.Lowercase.point c = if 0x41 ≤ c ∧ c ≤ 0x5a then c + 32 else c := by
  have ranges : Text.Lowercase.ranges = (0x41, 0x5a, 1, 32) :: Text.Lowercase.ranges.tail := rfl
  have later : ∀ range ∈ Text.Lowercase.ranges.tail, 0x80 ≤ range.1 := by decide +kernel
  unfold Text.Lowercase.point
  dsimp only
  split
  · rename_i first last step distance found
    have holds := List.find?_some found
    have member := List.mem_of_find?_eq_some found
    simp only [Bool.and_eq_true, decide_eq_true_eq] at holds
    rw [ranges] at member
    rcases List.mem_cons.1 member with same | other
    · obtain ⟨rfl, rfl, rfl, rfl⟩ : first = 0x41 ∧ last = 0x5a ∧ step = 1 ∧ distance = 32 := by
        simpa using same
      rw [if_pos holds.1]
      omega
    · have far : 0x80 ≤ first := later _ other
      omega
  · rename_i none
    have missed := List.find?_eq_none.1 none (0x41, 0x5a, 1, 32) (by rw [ranges]; simp)
    simp only [Nat.mod_one, beq_self_eq_true, Bool.and_true, Bool.and_eq_true,
      decide_eq_true_eq] at missed
    rw [if_neg missed]

theorem point_ascii {c : Char} (small : c.toNat < 0x80) :
    Char.ofNat (Text.Lowercase.point c.toNat) = c.toLower := by
  rw [point_of_lt small, toLower_eq]

theorem pointsFrom_ascii (before : List Nat) {cs : List Char} (small : ∀ c ∈ cs, c.toNat < 0x80) :
    (Text.Lowercase.pointsFrom before (cs.map Char.toNat)).map Char.ofNat =
      cs.map Char.toLower := by
  induction cs generalizing before with
  | nil => rfl
  | cons c cs ih =>
    have first := small c List.mem_cons_self
    have sigma : c.toNat ≠ 0x3a3 := by omega
    have dotted : c.toNat ≠ 0x130 := by omega
    rw [List.map_cons, Text.Lowercase.pointsFrom, if_neg sigma, if_neg dotted, List.map_append,
      ih _ fun d hd => small d (List.mem_cons_of_mem c hd)]
    simp [point_ascii first]

theorem lowercase_ascii {cs : List Char} (small : ∀ c ∈ cs, c.toNat < 0x80) :
    Text.Lowercase.text (String.ofList cs) = String.ofList (cs.map Char.toLower) := by
  rw [Text.Lowercase.text, String.toList_ofList, pointsFrom_ascii [] small]

/-! ## Spelling a name -/

/-- A small letter and then letters and digits. So a name is a word in small letters and digits, and
then words that each start with a capital letter. -/
def isCamelCase : List Char → Bool
  | [] => false
  | c :: cs => c.isLower && cs.all Char.isAlphanum

/-- A name in capitals, with an underscore before what were capitals. -/
def spelled (name : List Char) : List Char :=
  name.flatMap fun c => if c.isUpper then ['_', c] else [c.toUpper]

def lowered (name : List Char) : List Char :=
  name.flatMap fun c => if c.isUpper then ['_', c.toLower] else [c]

theorem isAlphanum_of_isCamelCase {name : List Char} (h : isCamelCase name) :
    ∀ c ∈ name, c.isAlphanum := by
  cases name with
  | nil => simp
  | cons c cs =>
    simp only [isCamelCase, Bool.and_eq_true, List.all_eq_true] at h
    simp only [List.forall_mem_cons]
    refine ⟨?_, h.2⟩
    simp [Char.isAlphanum, Char.isAlpha, h.1]

theorem ne_of_isAlphanum {c d : Char} (h : c.isAlphanum) (other : d.isAlphanum = false) :
    c ≠ d := by
  rintro rfl
  simp [h] at other

theorem isAlphanum_of_isWordStart {c : Char} (h : isWordStart c) : c.isAlphanum := by
  simp only [isWordStart, Bool.or_eq_true] at h
  simp only [Char.isAlphanum, Char.isAlpha, Bool.or_eq_true]
  exact h.imp_left .inr

section Capital

variable {c : Char} (h : c.isUpper)

include h

theorem isWordStart_toLower : isWordStart c.toLower := by
  simp [isWordStart, Char.isAlpha, h]

theorem toUpper_toLower : c.toLower.toUpper = c := by
  rw [Char.toUpper_toLower_eq_toUpper,
    Char.toUpper_eq_of_not_isLower (Char.not_isLower_of_isUpper h)]

theorem toLower_ne_underscore : c.toLower ≠ '_' :=
  ne_of_isAlphanum (isAlphanum_of_isWordStart (isWordStart_toLower h)) rfl

end Capital

theorem lowered_cons (c : Char) (cs : List Char) :
    lowered (c :: cs) = (if c.isUpper then ['_', c.toLower] else [c]) ++ lowered cs := rfl

theorem spelled_cons (c : Char) (cs : List Char) :
    spelled (c :: cs) = (if c.isUpper then ['_', c] else [c.toUpper]) ++ spelled cs := rfl

theorem map_toLower_spelled (name : List Char) :
    (spelled name).map Char.toLower = lowered name := by
  induction name with
  | nil => rfl
  | cons c cs ih =>
    rw [spelled_cons, lowered_cons, List.map_append, ih]
    by_cases upper : c.isUpper
    · simp only [upper, if_true, List.map_cons, List.map_nil]
      rfl
    · simp [upper, Char.toLower_eq_of_not_isUpper upper]

theorem joinWords_cons {c : Char} (other : c ≠ '_') (rest : List Char) :
    joinWords (c :: rest) = c :: joinWords rest := by
  rw [joinWords]
  simp [other]

section Name

variable {name : List Char} (camel : ∀ c ∈ name, c.isAlphanum)

include camel

theorem toNat_lt_of_mem_spelled : ∀ c ∈ spelled name, c.toNat < 0x80 := by
  intro c hc
  obtain ⟨d, hd, place⟩ := List.mem_flatMap.1 hc
  split at place
  · rcases List.mem_cons.1 place with rfl | last
    · decide
    · rw [List.mem_singleton.1 last]
      exact toNat_lt_of_isAlphanum (camel d hd)
  · rw [List.mem_singleton.1 place]
    exact toNat_lt_of_isAlphanum (isAlphanum_toUpper (camel d hd))

theorem joinWords_lowered : joinWords (lowered name) = name := by
  induction name with
  | nil => rfl
  | cons c cs ih =>
    obtain ⟨first, rest⟩ := List.forall_mem_cons.1 camel
    rw [lowered_cons]
    by_cases upper : c.isUpper
    · simp [upper, joinWords, isWordStart_toLower upper, toUpper_toLower upper, ih rest]
    · have other : c ≠ '_' := ne_of_isAlphanum first rfl
      simp [upper, joinWords_cons other, ih rest]

end Name

/-! ## Splitting at pairs of underscores -/

def glue (cs : List Char) : List (List Char) → List (List Char)
  | [] => [cs]
  | part :: parts => (cs ++ part) :: parts

theorem glue_glue (a b : List Char) (parts : List (List Char)) :
    glue a (glue b parts) = glue (a ++ b) parts := by
  cases parts <;> simp [glue]

theorem glue_nil {parts : List (List Char)} (some : parts ≠ []) : glue [] parts = parts := by
  cases parts with
  | nil => exact absurd rfl some
  | cons => rfl

theorem splitNesting_cons {c : Char} (other : c ≠ '_') (rest : List Char) :
    splitNesting (c :: rest) = glue [c] (splitNesting rest) := by
  rw [splitNesting]
  · cases splitNesting rest <;> rfl
  · simp [other]

theorem splitNesting_single {c : Char} (other : c ≠ '_') (rest : List Char) :
    splitNesting ('_' :: c :: rest) = glue ['_', c] (splitNesting rest) := by
  rw [splitNesting, splitNesting_cons other]
  · cases splitNesting rest <;> rfl
  · simp [other]

theorem splitNesting_ne_nil (cs : List Char) : splitNesting cs ≠ [] := by
  unfold splitNesting
  split
  · simp
  · simp
  · split <;> simp

theorem splitNesting_lowered_append {name : List Char} (camel : ∀ c ∈ name, c.isAlphanum)
    (rest : List Char) :
    splitNesting (lowered name ++ rest) = glue (lowered name) (splitNesting rest) := by
  induction name with
  | nil => exact (glue_nil (splitNesting_ne_nil rest)).symm
  | cons c cs ih =>
    obtain ⟨first, others⟩ := List.forall_mem_cons.1 camel
    rw [lowered_cons, List.append_assoc, ← glue_glue, ← ih others]
    by_cases upper : c.isUpper
    · simp [upper, splitNesting_single (toLower_ne_underscore upper)]
    · simp [upper, splitNesting_cons (ne_of_isAlphanum first rfl : c ≠ '_')]

theorem splitNesting_intercalate {names : List (List Char)} (some : names ≠ [])
    (camel : ∀ name ∈ names, ∀ c ∈ name, c.isAlphanum) :
    splitNesting (['_', '_'].intercalate (names.map lowered)) = names.map lowered := by
  induction names with
  | nil => exact absurd rfl some
  | cons name names ih =>
    obtain ⟨first, others⟩ := List.forall_mem_cons.1 camel
    cases names with
    | nil =>
      have alone := splitNesting_lowered_append first []
      simpa [splitNesting, glue] using alone
    | cons next names =>
      have later := ih (by simp) others
      rw [List.map_cons] at later ⊢
      rw [List.map_cons, List.intercalate_cons_cons, List.append_assoc,
        splitNesting_lowered_append first, List.cons_append, List.cons_append, List.nil_append,
        splitNesting, later]
      simp [glue]

/-! ## Joined names -/

theorem forall_mem_intercalate {P : Char → Prop} {separator : List Char} {parts : List (List Char)}
    (between : ∀ c ∈ separator, P c) (inside : ∀ part ∈ parts, ∀ c ∈ part, P c) :
    ∀ c ∈ separator.intercalate parts, P c := by
  induction parts with
  | nil => simp
  | cons part parts ih =>
    obtain ⟨first, others⟩ := List.forall_mem_cons.1 inside
    cases parts with
    | nil => simpa using first
    | cons next parts =>
      simp only [List.intercalate_cons_cons, List.forall_mem_append]
      exact ⟨⟨first, between⟩, ih others⟩

theorem map_intercalate (f : Char → Char) (separator : List Char) (parts : List (List Char)) :
    (separator.intercalate parts).map f =
      (separator.map f).intercalate (parts.map (List.map f)) := by
  induction parts with
  | nil => rfl
  | cons part parts ih =>
    cases parts with
    | nil => simp
    | cons next parts =>
      rw [List.intercalate_cons_cons, List.map_append, List.map_append, ih]
      simp [List.intercalate_cons_cons]

/-! ## Paths and their variables -/

/-- A path of names in camel case. -/
structure CamelPath where
  names : List String
  names_ne_nil : names ≠ []
  camel : ∀ name ∈ names, isCamelCase name.toList

namespace CamelPath

def dotted (p : CamelPath) : String := ".".intercalate p.names

def bareName (p : CamelPath) : String :=
  "__".intercalate (p.names.map fun name => String.ofList (spelled name.toList))

/-- The name of the path's variable. -/
def variableName (p : CamelPath) : String := marker ++ p.bareName

variable (p : CamelPath)

theorem isAlphanum : ∀ name ∈ p.names.map String.toList, ∀ c ∈ name, c.isAlphanum := by
  simp only [List.forall_mem_map]
  exact fun name hn => isAlphanum_of_isCamelCase (p.camel name hn)

theorem toList_bareName :
    p.bareName.toList = ['_', '_'].intercalate ((p.names.map String.toList).map spelled) := by
  rw [bareName, String.toList_intercalate, List.map_map, List.map_map]
  congr 1
  simp [Function.comp_def]

theorem text_bareName :
    (Text.Lowercase.text p.bareName).toList =
      ['_', '_'].intercalate ((p.names.map String.toList).map lowered) := by
  have small : ∀ c ∈ p.bareName.toList, c.toNat < 0x80 := by
    rw [toList_bareName]
    refine forall_mem_intercalate (by simp) ?_
    simp only [List.forall_mem_map]
    exact fun name hn =>
      toNat_lt_of_mem_spelled (isAlphanum_of_isCamelCase (p.camel name hn))
  have spelling : String.ofList p.bareName.toList = p.bareName := String.ofList_toList
  rw [← spelling, lowercase_ascii small, String.toList_ofList, toList_bareName,
    map_intercalate, List.map_map]
  congr 1
  exact List.map_congr_left fun name _ => map_toLower_spelled name

theorem nameSegments_bareName : nameSegments p.bareName = p.names := by
  have some : p.names.map String.toList ≠ [] := by simpa using p.names_ne_nil
  rw [nameSegments, text_bareName, splitNesting_intercalate some p.isAlphanum, List.map_map,
    List.map_map]
  refine (List.map_congr_left fun name hn => ?_).trans (List.map_id _)
  have camel := isAlphanum_of_isCamelCase (p.camel name hn)
  simp [joinWords_lowered camel]

theorem pathOfName_bareName : pathOfName p.bareName = p.dotted := by
  rw [pathOfName, nameSegments_bareName, dotted]

theorem segments_dotted : segments p.dotted = p.names := by
  have undotted : ∀ name ∈ p.names.map String.toList, '.' ∉ name :=
    fun name hn dot => absurd (p.isAlphanum name hn '.' dot) (by decide)
  have split := List.splitOn_intercalate '.' undotted (by simpa using p.names_ne_nil)
  rw [segments, dotted, String.toList_intercalate]
  exact (congrArg _ split).trans (by simp)

end CamelPath

theorem settingName?_marker (name : String) : settingName? (marker ++ name) = some name := by
  have starts : marker.toList.isPrefixOf (marker ++ name).toList := by simp
  have length : marker.length = marker.toList.length := String.length_toList.symm
  rw [settingName?, if_pos starts, String.toList_append, length, List.drop_left,
    String.ofList_toList]

/-! ## The parent's name -/

def Unpaired (cs : List Char) : Prop := ¬ ['_', '_'] <:+: cs

theorem unpaired_nil : Unpaired [] := by simp [Unpaired]

theorem unpaired_underscore : Unpaired ['_'] := by
  unfold Unpaired
  decide

theorem Unpaired.cons {c : Char} (other : c ≠ '_') {cs : List Char} (h : Unpaired cs) :
    Unpaired (c :: cs) := by
  unfold Unpaired at h ⊢
  rw [List.infix_cons_iff, List.cons_prefix_cons]
  rintro (⟨same, -⟩ | later)
  · exact other same.symm
  · exact h later

theorem Unpaired.single {c : Char} (other : c ≠ '_') {cs : List Char} (h : Unpaired cs) :
    Unpaired ('_' :: c :: cs) := by
  have rest := h.cons other
  unfold Unpaired at rest ⊢
  rw [List.infix_cons_iff, List.cons_prefix_cons, List.cons_prefix_cons]
  rintro (⟨-, same, -⟩ | later)
  · exact other same.symm
  · exact rest later

theorem Unpaired.of_infix {part cs : List Char} (h : Unpaired cs) (inside : part <:+: cs) :
    Unpaired part :=
  fun pair => h (pair.trans inside)

theorem unpaired_glue {cs : List Char} {parts : List (List Char)}
    (first : ∀ part, Unpaired part → Unpaired (cs ++ part)) (h : ∀ part ∈ parts, Unpaired part) :
    ∀ part ∈ glue cs parts, Unpaired part := by
  cases parts with
  | nil => simpa [glue] using first [] unpaired_nil
  | cons part parts =>
    obtain ⟨one, others⟩ := List.forall_mem_cons.1 h
    exact List.forall_mem_cons.2 ⟨first part one, others⟩

theorem unpaired_splitNesting (cs : List Char) : ∀ part ∈ splitNesting cs, Unpaired part := by
  induction h : cs.length using Nat.strong_induction_on generalizing cs with
  | _ n ih =>
    subst h
    cases cs with
    | nil => simpa [splitNesting] using unpaired_nil
    | cons c rest =>
      by_cases underscore : c = '_'
      · subst underscore
        cases rest with
        | nil => simpa [splitNesting] using unpaired_underscore
        | cons d rest =>
          have shorter := ih rest.length (by simp) rest rfl
          by_cases pair : d = '_'
          · subst pair
            rw [splitNesting, List.forall_mem_cons]
            exact ⟨unpaired_nil, shorter⟩
          · rw [splitNesting_single pair]
            exact unpaired_glue (fun _ => Unpaired.single pair) shorter
      · rw [splitNesting_cons underscore]
        exact unpaired_glue (fun _ => Unpaired.cons underscore)
          (ih rest.length (by simp) rest rfl)

theorem toUpper_ne_underscore {c : Char} (h : isWordStart c) : c.toUpper ≠ '_' :=
  ne_of_isAlphanum (isAlphanum_toUpper (isAlphanum_of_isWordStart h)) rfl

theorem unpaired_joinWords {cs : List Char} (h : Unpaired cs) : Unpaired (joinWords cs) := by
  fun_induction joinWords cs with
  | case1 => exact h
  | case2 c rest start ih =>
    have shorter : rest <:+: '_' :: c :: rest := ⟨['_', c], [], by simp⟩
    exact (ih (h.of_infix shorter)).cons (toUpper_ne_underscore start)
  | case3 c rest start ih =>
    have other : c ≠ '_' := fun same => h ⟨[], rest, by simp [same]⟩
    have joined := ih (h.of_infix (List.suffix_cons '_' (c :: rest)).isInfix)
    rw [joinWords_cons other] at joined ⊢
    exact (joined.of_infix (List.suffix_cons c _).isInfix).single other
  | case4 c rest pair ih =>
    have joined := ih (h.of_infix (List.suffix_cons c rest).isInfix)
    by_cases underscore : c = '_'
    · cases rest with
      | nil => exact underscore ▸ unpaired_underscore
      | cons d rest => exact absurd rfl (pair d rest underscore)
    · exact joined.cons underscore

theorem unpaired_dotted {a b : List Char} (ha : Unpaired a) (hb : Unpaired b) :
    Unpaired (a ++ '.' :: b) := by
  induction a with
  | nil => exact hb.cons (by decide)
  | cons c a ih =>
    have joined := ih (ha.of_infix (List.suffix_cons c a).isInfix)
    by_cases underscore : c = '_'
    · subst underscore
      cases a with
      | nil => exact Unpaired.single (by decide) hb
      | cons d a =>
        have other : d ≠ '_' := fun same => ha ⟨[], a, by simp [same]⟩
        exact (joined.of_infix (List.suffix_cons d _).isInfix).single other
    · exact joined.cons underscore

theorem unpaired_intercalate {parts : List (List Char)} (h : ∀ part ∈ parts, Unpaired part) :
    Unpaired (['.'].intercalate parts) := by
  induction parts with
  | nil => exact unpaired_nil
  | cons part parts ih =>
    obtain ⟨first, others⟩ := List.forall_mem_cons.1 h
    cases parts with
    | nil => simpa using first
    | cons next parts =>
      rw [List.intercalate_cons_cons, List.append_assoc]
      exact unpaired_dotted first (ih others)

theorem infix_intercalate {separator part : List Char} {parts : List (List Char)}
    (h : part ∈ parts) : part <:+: separator.intercalate parts := by
  induction parts with
  | nil => simp at h
  | cons first parts ih =>
    cases parts with
    | nil =>
      obtain rfl : part = first := by simpa using h
      simp
    | cons next parts =>
      rw [List.intercalate_cons_cons]
      rcases List.mem_cons.1 h with rfl | later
      · exact ⟨[], separator ++ separator.intercalate (next :: parts), by simp⟩
      · exact (ih later).trans (List.suffix_append _ _).isInfix

/-- No name of a variable stands for a path through the parent's name, which has two underscores in
a row. -/
theorem parentName_not_mem_segments (name : String) :
    Setting.parentName ∉ segments (pathOfName name) := by
  have unpaired : Unpaired (pathOfName name).toList := by
    rw [pathOfName, String.toList_intercalate, nameSegments, List.map_map]
    refine unpaired_intercalate ?_
    simp only [List.forall_mem_map, Function.comp_apply, String.toList_ofList]
    exact fun part hp => unpaired_joinWords (unpaired_splitNesting _ part hp)
  intro found
  obtain ⟨segment, hs, named⟩ := List.mem_map.1 found
  have inside : segment <:+: ['.'].intercalate ((pathOfName name).toList.splitOn '.') :=
    infix_intercalate hs
  rw [List.intercalate_splitOn] at inside
  have parent : segment = Setting.parentName.toList := by rw [← named, String.toList_ofList]
  exact unpaired.of_infix inside ⟨[], "proto__".toList, parent ▸ rfl⟩

end Untrusted.Settings
