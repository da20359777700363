import Mathlib
import Untrusted.Proofs.Settings.Layers
import Untrusted.Proofs.Settings.Names

/-!
# Settings that variables give

A variable that names a path decides what is at it, whatever the settings file holds, unless a later
variable names this path, one on its way or one below it. So variables for paths of which none is on
the way to another give their settings in any order.
-/

namespace Untrusted.Settings

open Setting (parentName)

variable {own l : List (String × Setting)} {name : String} {path place : List String}
  {s t parent : Setting} {fields : Fields} {value : Json}

/-! ## Own settings -/

/-- What is at the end of a path of names that records have of their own. -/
def ownAt? : Setting → List String → Option Setting
  | s, [] => some s
  | .record own _, name :: rest => (Named.get? own name).bind fun inner => ownAt? inner rest
  | _, _ :: _ => none

theorem ownAt?_nil (s : Setting) : ownAt? s [] = some s := by
  cases s <;> rfl

theorem ownAt?_record (own : List (String × Setting)) (parent : Setting) (name : String)
    (rest : List String) :
    ownAt? (.record own parent) (name :: rest) =
      (Named.get? own name).bind fun inner => ownAt? inner rest := rfl

theorem exists_record_of_ownAt? {rest : List String} (h : ownAt? s (name :: rest) = some t) :
    ∃ own parent inner, s = .record own parent ∧ Named.get? own name = some inner ∧
      ownAt? inner rest = some t := by
  cases s with
  | record own parent =>
    obtain ⟨inner, shown, deeper⟩ := Option.bind_eq_some_iff.1 h
    exact ⟨own, parent, inner, rfl, shown, deeper⟩
  | _ => simp [ownAt?] at h

theorem get?_of_own (shown : Named.get? own name = some s) :
    (Setting.record own parent).get? name = some s := by
  simp [Setting.get?, Setting.isRecord, Setting.shown?, shown]

theorem settingAt?_of_ownAt? (h : ownAt? s path = some t) : settingAt? s path = some t := by
  induction path generalizing s with
  | nil => rwa [ownAt?_nil] at h
  | cons name rest ih =>
    obtain ⟨own, parent, inner, rfl, shown, deeper⟩ := exists_record_of_ownAt? h
    rw [settingAt?, get?_of_own shown, Option.bind_some]
    exact ih deeper

/-! ## Values put at paths -/

/-- Neither path is on the way to the other. -/
def Apart (a b : List String) : Prop := ¬ a <+: b ∧ ¬ b <+: a
  deriving Decidable

theorem Apart.symm {a b : List String} (h : Apart a b) : Apart b a := ⟨h.2, h.1⟩

theorem Apart.tail {a b : List String} (h : Apart (name :: a) (name :: b)) : Apart a b := by
  simpa [Apart, List.cons_prefix_cons] using h

theorem Apart.ne_nil {a b : List String} (h : Apart a b) : a ≠ [] ∧ b ≠ [] :=
  ⟨fun empty => h.1 (empty ▸ List.nil_prefix), fun empty => h.2 (empty ▸ List.nil_prefix)⟩

theorem ownAt?_putAt_self (hv : IsValue value) (nonempty : path ≠ []) (fields : Fields)
    (parent : Setting) :
    ownAt? (.record (Setting.ofFields (putAt fields path value)) parent) path =
      some (.leaf value) := by
  induction path generalizing fields parent with
  | nil => exact absurd rfl nonempty
  | cons name rest ih =>
    cases rest with
    | nil =>
      rw [putAt, ofFields_put, ofJson_value hv, ownAt?_record, Named.get?_put_self]
      rfl
    | cons next rest =>
      rw [putAt, ofFields_put, ownAt?_record, Named.get?_put_self, Setting.ofJson, Option.bind_some]
      · exact ih (by simp) _ _
      · simp

theorem ownAt?_putAt_of_apart (apart : Apart place path)
    (h : ownAt? (.record (Setting.ofFields fields) parent) path = some t) :
    ownAt? (.record (Setting.ofFields (putAt fields place value)) parent) path = some t := by
  induction place generalizing fields parent path with
  | nil => exact absurd rfl apart.ne_nil.1
  | cons name rest ih =>
    obtain ⟨n, deeper, rfl⟩ := List.exists_cons_of_ne_nil apart.ne_nil.2
    by_cases same : name = n
    · subst same
      have later := apart.tail
      obtain ⟨next, rest, rfl⟩ := List.exists_cons_of_ne_nil later.ne_nil.1
      obtain ⟨n, deeper, rfl⟩ := List.exists_cons_of_ne_nil later.ne_nil.2
      rw [ownAt?_record, get?_ofFields] at h
      obtain ⟨inner, shown, found⟩ := Option.bind_eq_some_iff.1 h
      obtain ⟨j, held, rfl⟩ := Option.map_eq_some_iff.1 shown
      -- What goes on below the name is an object.
      cases j with
      | object f =>
        rw [Setting.ofJson] at found
        rw [putAt, held, ofFields_put, ownAt?_record, Named.get?_put_self, Setting.ofJson,
          Option.bind_some]
        · exact ih later found
        · simp
      | _ => simp [Setting.ofJson, ownAt?] at found
    · have kept : ∀ s, Named.get? (Named.put (Setting.ofFields fields) name s) n =
          Named.get? (Setting.ofFields fields) n := fun s => Named.get?_put_of_ne _ s same
      rw [ownAt?_record] at h ⊢
      cases rest <;> rw [putAt, ofFields_put, kept, h]
      simp

/-! ## Values merged into settings -/

theorem exists_mergeAll_own (distinct : (l.map Prod.fst).Nodup)
    (named : ∀ x ∈ l, x.1 ≠ parentName) (own : List (String × Setting)) (parent : Setting) :
    ∃ all, mergeAll (.record own parent) l = .record all parent ∧
      (∀ x ∈ l, ∃ old, Named.get? all x.1 = some (merged old x.2)) ∧
      ∀ name, (∀ x ∈ l, x.1 ≠ name) → Named.get? all name = Named.get? own name := by
  induction l generalizing own with
  | nil => exact ⟨own, by rw [mergeAll], by simp, by simp⟩
  | cons x l ih =>
    rw [List.map_cons, List.nodup_cons] at distinct
    obtain ⟨first, others⟩ := List.forall_mem_cons.1 named
    set old := (Setting.record own parent).get? x.1
    have put := @Setting.put_of_ne_parentName own _ first parent (merged old x.2)
    obtain ⟨all, eq, gives, keeps⟩ := ih distinct.2 others (Named.put own x.1 (merged old x.2))
    refine ⟨all, by rw [mergeAll, put, eq], List.forall_mem_cons.2 ⟨⟨old, ?_⟩, gives⟩, ?_⟩
    · have last : ∀ y ∈ l, y.1 ≠ x.1 := fun y hy same =>
        distinct.1 (List.mem_map.2 ⟨y, hy, same⟩)
      rw [keeps x.1 last, Named.get?_put_self]
    · intro name other
      obtain ⟨head, tail⟩ := List.forall_mem_cons.1 other
      rw [keeps name tail, Named.get?_put_of_ne own _ head]

theorem exists_fresh (t : Setting) : ∃ own, t.fresh = .record own .common := by
  cases t <;> exact ⟨_, rfl⟩

theorem ownAt?_merged (hs : s.NamedBy (· ≠ parentName))
    (h : ownAt? s path = some (.leaf value)) (old : Option Setting) :
    ownAt? (merged old s) path = some (.leaf value) := by
  induction path generalizing s old with
  | nil =>
    obtain rfl : s = .leaf value := by simpa [ownAt?_nil] using h
    rwa [merged_leaf]
  | cons name rest ih =>
    obtain ⟨own, parent, inner, rfl, shown, deeper⟩ := exists_record_of_ownAt? h
    have replaced : merged old (.record own parent) = .record own parent ∨
        ∃ t, merged old (.record own parent) = mergeAll (Setting.fresh t) own := by
      cases old with
      | none => exact .inl (merged_none _)
      | some t =>
        by_cases record : t.isRecord = true
        · exact .inr ⟨t, merged_of_isRecord record own parent⟩
        · exact .inl (merged_of_not_isRecord record _)
    rcases replaced with same | ⟨t, into⟩
    · rwa [same]
    · cases hs with
      | record distinct named inners =>
        have member := Named.mem_of_get? shown
        obtain ⟨first, eq⟩ := exists_fresh t
        obtain ⟨all, merged_eq, gives, -⟩ := exists_mergeAll_own distinct named first .common
        obtain ⟨before, given⟩ := gives _ member
        rw [into, eq, merged_eq, ownAt?_record, given, Option.bind_some]
        exact ih (inners _ member) deeper before

theorem ownAt?_merge (hl : (Setting.record l .common).NamedBy (· ≠ parentName))
    (h : ownAt? (.record l .common) path = some (.leaf value)) (lower : Setting) :
    ownAt? (merge lower l) path = some (.leaf value) := by
  obtain ⟨own, eq⟩ := exists_fresh lower
  have into : merge lower l = merged (some (.record own .common)) (.record l .common) := by
    rw [merge, eq, merged_of_isRecord rfl, Setting.fresh]
  rw [into]
  exact ownAt?_merged hl h _

/-! ## Values that the program sets -/

/-- Whether fields, once set, say what is at a path: they have something at its end, or no object
on the way. -/
def overrides : Fields → List String → Bool
  | _, [] => true
  | fields, name :: rest => fields.any fun (n, j) => n == name &&
      match j with
      | .object f => overrides f rest
      | _ => true

theorem exists_object_of_not_overrides {j : Json} {rest : List String}
    (kept : overrides ((name, j) :: fields) (name :: rest) = false) :
    ∃ f, j = .object f ∧ overrides f rest = false := by
  cases j <;> simp_all [overrides]

theorem not_overrides_of_cons {x : String × Json} (nonempty : path ≠ [])
    (kept : overrides (x :: fields) path = false) : overrides fields path = false := by
  obtain ⟨name, rest, rfl⟩ := List.exists_cons_of_ne_nil nonempty
  simp only [overrides, List.any_cons, Bool.or_eq_false_iff] at kept ⊢
  exact kept.2

theorem ownAt?_put_self {rest : List String} (free : name ≠ parentName)
    (h : ownAt? s rest = some t) : ∃ all above,
      (Setting.record own parent).put name s = .record all above ∧
        ownAt? (.record all above) (name :: rest) = some t :=
  ⟨_, _, Setting.put_of_ne_parentName free parent s, by
    rwa [ownAt?_record, Named.get?_put_self, Option.bind_some]⟩

theorem ownAt?_put_of_ne {n : String} {rest : List String} (other : n ≠ name) (s : Setting)
    (h : ownAt? (.record own parent) (name :: rest) = some t) : ∃ all above,
      (Setting.record own parent).put n s = .record all above ∧
        ownAt? (.record all above) (name :: rest) = some t := by
  by_cases changes : n = parentName ∧ (Setting.record own parent).showsParent
  · exact ⟨own, if s.isParent then s else parent, by rw [Setting.put, if_pos changes], h⟩
  · refine ⟨Named.put own n s, parent, by rw [Setting.put, if_neg changes], ?_⟩
    rwa [ownAt?_record, Named.get?_put_of_ne own s other, ← ownAt?_record own parent]

theorem ownAt?_mergeAll (named : parentName ∉ path) (kept : overrides fields path = false)
    (h : ownAt? (.record own parent) path = some (.leaf value)) :
    ∃ all above, mergeAll (.record own parent) (Setting.ofFields fields) = .record all above ∧
      ownAt? (.record all above) path = some (.leaf value) := by
  induction path generalizing own parent fields with
  | nil => simp [overrides] at kept
  | cons name rest below =>
    have free : name ≠ parentName := fun same => named (same ▸ List.mem_cons_self)
    have deeper : parentName ∉ rest := fun later => named (List.mem_cons_of_mem name later)
    induction fields generalizing own parent with
    | nil => exact ⟨own, parent, by rw [Setting.ofFields, mergeAll], h⟩
    | cons x fields ih =>
      obtain ⟨n, j⟩ := x
      rw [Setting.ofFields, mergeAll]
      set old := (Setting.record own parent).get? n
      obtain ⟨all, above, put, held⟩ : ∃ all above,
          (Setting.record own parent).put n (merged old (.ofJson j)) = .record all above ∧
            ownAt? (.record all above) (name :: rest) = some (.leaf value) := by
        by_cases same : n = name
        · subst same
          refine ownAt?_put_self free ?_
          obtain ⟨f, rfl, inside⟩ := exists_object_of_not_overrides kept
          obtain ⟨inner, shown, found⟩ := Option.bind_eq_some_iff.1 h
          -- The object does not end the path, so a record is below the name, and the two merge.
          cases rest with
          | nil => simp [overrides] at inside
          | cons next rest =>
            obtain ⟨first, p, -, rfl, -⟩ := exists_record_of_ownAt? found
            have shows : old = some (.record first p) := get?_of_own shown
            have alone : ownAt? (.record first .common) (next :: rest) = some (.leaf value) := found
            obtain ⟨all, above, into, held⟩ := below deeper inside alone
            rwa [shows, Setting.ofJson, merged_of_isRecord rfl, Setting.fresh, into]
        · exact ownAt?_put_of_ne same _ h
      rw [put]
      exact ih (not_overrides_of_cons (by simp) kept) held

theorem ownAt?_foldl_set {settings : Settings} {calls : List Fields} (named : parentName ∉ path)
    (kept : ∀ values ∈ calls, overrides values path = false)
    (h : ownAt? settings.tree path = some (.leaf value)) :
    ownAt? (calls.foldl set settings).tree path = some (.leaf value) := by
  induction calls generalizing settings with
  | nil => exact h
  | cons values calls ih =>
    obtain ⟨first, others⟩ := List.forall_mem_cons.1 kept
    refine ih others ?_
    cases path with
    | nil => simp [overrides] at first
    | cons name rest =>
      obtain ⟨own, above, -, eq, -⟩ := exists_record_of_ownAt? h
      rw [eq] at h
      have alone : ownAt? (.record own .common) (name :: rest) = some (.leaf value) := h
      obtain ⟨all, above, into, held⟩ := ownAt?_mergeAll named first alone
      rwa [set, eq, merge, Setting.fresh, into]

/-! ## Variables -/

variable {env before after : Environment} {x : String × String}

theorem segments_ne_nil (path : String) : segments path ≠ [] := by
  simp [segments, List.splitOn_ne_nil]

def pathOf? (x : String × String) : Option (List String) :=
  (settingName? x.1).map fun rest => segments (pathOfName rest)

theorem namedBy_variables (env : Environment) :
    (Setting.record (Setting.ofFields (ofEnvironment env)) .common).NamedBy (· ≠ parentName) :=
  namedBy_ofEnvironment fun _ _ rest _ _ hn same =>
    parentName_not_mem_segments rest (same ▸ hn)

theorem ownAt?_ofEnvironment (here : pathOf? x = some path)
    (later : ∀ y ∈ after, ∀ place ∈ pathOf? y, Apart place path) :
    ownAt? (.record (Setting.ofFields (ofEnvironment (before ++ x :: after))) .common) path =
      some (.leaf (valueOfText x.2)) := by
  induction after using List.reverseRecOn with
  | nil =>
    obtain ⟨rest, named, rfl⟩ := Option.map_eq_some_iff.1 here
    rw [ofEnvironment_append_setting before named]
    exact ownAt?_putAt_self (isValue_valueOfText x.2) (segments_ne_nil _) _ _
  | append_singleton after y ih =>
    have shorter := ih fun z hz => later z (List.mem_append_left _ hz)
    have last : before ++ x :: (after ++ [y]) = (before ++ x :: after) ++ [y] := by simp
    rw [last]
    cases named : settingName? y.1 with
    | none => rwa [ofEnvironment_append_other _ named]
    | some rest =>
      rw [ofEnvironment_append_setting _ named]
      refine ownAt?_putAt_of_apart (later y (by simp) _ ?_) shorter
      simp [pathOf?, named]

theorem ownAt?_merge_ofEnvironment (here : pathOf? x = some path)
    (later : ∀ y ∈ after, ∀ place ∈ pathOf? y, Apart place path) (lower : Setting) :
    ownAt? (merge lower (Setting.ofFields (ofEnvironment (before ++ x :: after)))) path =
      some (.leaf (valueOfText x.2)) :=
  ownAt?_merge (namedBy_variables _) (ownAt?_ofEnvironment here later) lower

theorem ownAt?_load (here : pathOf? x = some path)
    (later : ∀ y ∈ after, ∀ place ∈ pathOf? y, Apart place path) (found : Found) :
    ownAt? (load found (before ++ x :: after)).tree path = some (.leaf (valueOfText x.2)) := by
  rw [tree_load, ← List.singleton_append, stack_append]
  exact ownAt?_merge_ofEnvironment here later _

theorem ownAt?_settings (here : pathOf? x = some path)
    (later : ∀ y ∈ after, ∀ place ∈ pathOf? y, Apart place path) {calls : List Fields}
    (kept : ∀ values ∈ calls, overrides values path = false) (explorer : Explorer)
    (start : Option String) :
    ownAt? (calls.foldl Configuration.set
      ⟨explorer, start, before ++ x :: after, none⟩).settings.tree path =
        some (.leaf (valueOfText x.2)) := by
  obtain ⟨rest, -, names⟩ := Option.map_eq_some_iff.1 here
  have named : parentName ∉ path := names ▸ parentName_not_mem_segments rest
  rw [settings_foldl_set]
  exact ownAt?_foldl_set named kept (ownAt?_load here later (explore explorer start))

theorem get?_of_ownAt? {settings : Settings} {path : String}
    (h : ownAt? settings.tree (segments path) = some (.leaf value)) :
    settings.get? path = some value := by
  rw [get?, setting?, settingAt?_of_ownAt? h]
  rfl

/-! ## Variables of camel-case paths -/

theorem pathOf?_variableName (p : CamelPath) (text : String) :
    pathOf? (p.variableName, text) = some p.names := by
  rw [pathOf?, CamelPath.variableName, settingName?_marker, Option.map_some,
    p.pathOfName_bareName, p.segments_dotted]

/-- Texts for camel-case paths, of which none is on the way to another. -/
structure Assignment where
  entries : List (CamelPath × String)
  apart : entries.Pairwise fun a b => Apart a.1.names b.1.names

def Assignment.environment (assigned : Assignment) : Environment :=
  assigned.entries.map fun (path, text) => (path.variableName, text)

def isSetting (x : String × String) : Bool := (settingName? x.1).isSome

theorem isSetting_of_pathOf? (h : path ∈ pathOf? x) : isSetting x := by
  obtain ⟨rest, named, -⟩ := Option.map_eq_some_iff.1 h
  rw [isSetting, named]
  rfl

theorem Assignment.pairwise_apart (assigned : Assignment)
    (listed : (env.filter isSetting).Perm assigned.environment) :
    env.Pairwise fun x y => ∀ a ∈ pathOf? x, ∀ b ∈ pathOf? y, Apart a b := by
  have apart : assigned.environment.Pairwise fun x y =>
      ∀ a ∈ pathOf? x, ∀ b ∈ pathOf? y, Apart a b := by
    rw [environment, List.pairwise_map]
    refine assigned.apart.imp fun {x y} h a ha b hb => ?_
    rw [pathOf?_variableName, Option.mem_some_iff] at ha hb
    exact ha ▸ hb ▸ h
  rw [← listed.pairwise_iff fun h a ha b hb => (h b hb a ha).symm, List.pairwise_filter] at apart
  refine apart.imp fun {x y} h a ha b hb => ?_
  exact h (isSetting_of_pathOf? ha) (isSetting_of_pathOf? hb) a ha b hb

/-- The variables of an assignment, listed in any order among variables that are no settings: each
name stands for its path, and once settings are loaded there is the value of the variable's text,
whatever settings file is found and whatever the layers are that the environment is merged into. -/
theorem camel_paths_addressed (assigned : Assignment) (env : Environment)
    (listed : (env.filter isSetting).Perm assigned.environment) :
    ∀ path text, (path, text) ∈ assigned.entries →
      pathOfName path.bareName = path.dotted ∧
      (∀ explorer start, (⟨explorer, start, env, none⟩ : Configuration).settings.get? path.dotted =
        some (valueOfText text)) ∧
      ∀ lower, settingAt? (merge lower (Setting.ofFields (ofEnvironment env))) path.names =
        some (.leaf (valueOfText text)) := by
  intro path text entry
  have here : pathOf? (path.variableName, text) = some path.names := pathOf?_variableName path text
  have member : (path.variableName, text) ∈ env := by
    have given : (path.variableName, text) ∈ assigned.environment :=
      List.mem_map.2 ⟨(path, text), entry, rfl⟩
    exact List.mem_of_mem_filter (listed.mem_iff.2 given)
  have apart := assigned.pairwise_apart listed
  obtain ⟨before, after, rfl⟩ := List.append_of_mem member
  have later : ∀ y ∈ after, ∀ place ∈ pathOf? y, Apart place path.names := by
    intro y hy place hp
    have each := (List.pairwise_cons.1 (List.pairwise_append.1 apart).2.1).1 y hy
    exact (each _ here _ hp).symm
  refine ⟨path.pathOfName_bareName, fun explorer start => get?_of_ownAt? ?_, fun lower => ?_⟩
  · rw [path.segments_dotted]
    exact ownAt?_load here later (explore explorer start)
  · exact settingAt?_of_ownAt? (ownAt?_merge_ofEnvironment here later lower)

def maxElementsPath : CamelPath := ⟨["display", "maxElements"], by decide, by decide +kernel⟩

/-- Among others, a path of a built-in name. -/
theorem camel_paths_addressed_reversed :
    let assigned : Assignment := ⟨
      [(maxElementsPath, "20"), (⟨["constructor"], by decide, by decide +kernel⟩, "x"),
        (⟨["aB", "cD"], by decide, by decide +kernel⟩, "false")], by decide +kernel⟩
    let env := [("CAUTION_A_B__C_D", "false"), ("PATH", "/bin"), ("CAUTION_CONSTRUCTOR", "x"),
      ("CAUTION_DISPLAY__MAX_ELEMENTS", "20")]
    (env.filter isSetting).Perm assigned.environment ∧
      ∀ explorer start, (⟨explorer, start, env, none⟩ : Configuration).settings.get?
        "display.maxElements" = some (.number 20) := by
  intro assigned env
  have listed : (env.filter isSetting).Perm assigned.environment := by decide +kernel
  have entry : (maxElementsPath, "20") ∈ assigned.entries := List.mem_cons_self
  have value : valueOfText "20" = .number 20 := by cbv
  refine ⟨listed, fun explorer start => ?_⟩
  rw [← value]
  exact (camel_paths_addressed assigned env listed _ _ entry).2.1 explorer start

end Untrusted.Settings
