import Mathlib
import Untrusted.Proofs.Settings.Merge
import Untrusted.Settings

/-!
# The layers of settings

What is at a path is decided by the highest layer that holds a value there or on the way there. So
the same values can be set again without effect, and a value changes only the paths on its way and
below it.
-/

namespace Untrusted

namespace Settings

open Setting (Ordinary Plain)

/-! ## Layers over each other -/

/-- Merges layers into a record, the lowest first. -/
def stack (base : Setting) (layers : List (List (String × Setting))) : Setting :=
  layers.foldl merge base

theorem stack_nil (base : Setting) : stack base [] = base := rfl

theorem stack_append (base : Setting) (lower higher : List (List (String × Setting))) :
    stack base (lower ++ higher) = stack (stack base lower) higher := by
  simp [stack]

theorem stack_append_singleton (base : Setting) (layers : List (List (String × Setting)))
    (l : List (String × Setting)) : stack base (layers ++ [l]) = merge (stack base layers) l := by
  simp [stack]

variable {base : Setting} {layers : List (List (String × Setting))} {path : List String}

section Stack

variable (hb : base.Plain) (record : base.isRecord = true)
  (hl : ∀ l ∈ layers, (Setting.record l .common).Plain)

include hb record hl

theorem plain_stack : (stack base layers).Plain ∧ (stack base layers).isRecord = true := by
  induction layers using List.reverseRecOn with
  | nil => exact ⟨hb, record⟩
  | append_singleton layers l ih =>
    obtain ⟨plain, isRecord⟩ := ih fun k hk => hl k (List.mem_append_left [l] hk)
    have last := hl l (by simp)
    rw [stack_append_singleton]
    exact ⟨plain_merge plain isRecord last, isRecord_merge plain isRecord last⟩

/-- What is no record at a path is what the highest layer says that has anything to say of it. -/
theorem settingAt?_stack (ordinary : ∀ n ∈ path, Ordinary n)
    (value : ∀ s, settingAt? (stack base layers) path = some s → s.isRecord = false) :
    settingAt? (stack base layers) path =
      ((base :: layers.map fun l => .record l .common).reverse.findSome? fun s =>
        verdict? s path).join.map .leaf := by
  induction layers using List.reverseRecOn with
  | nil =>
    rcases (overlaid_self hb ordinary).decided_or_kept value with ⟨v, said, eq⟩ | ⟨silent, eq⟩
    · simpa [stack_nil, said] using eq
    · simpa [stack_nil, silent] using eq
  | append_singleton layers l ih =>
    have lower : ∀ k ∈ layers, (Setting.record k .common).Plain :=
      fun k hk => hl k (List.mem_append_left [l] hk)
    obtain ⟨plain, isRecord⟩ := plain_stack hb record lower
    rw [stack_append_singleton] at value ⊢
    rcases (overlaid_merge plain isRecord (hl l (by simp)) ordinary).decided_or_kept value with
      ⟨v, said, eq⟩ | ⟨silent, eq⟩
    · simpa [said] using eq
    · rw [eq] at value ⊢
      simpa [silent] using ih lower value

end Stack

/-! ## Layers from fields -/

variable {fields : Fields} {name : String} {value : Json}

theorem ofFields_put (fields : Fields) (name : String) (value : Json) :
    Setting.ofFields (Named.put fields name value) =
      Named.put (Setting.ofFields fields) name (.ofJson value) := by
  induction fields with
  | nil => simp [Named.put, Setting.ofFields]
  | cons f rest ih =>
    obtain ⟨n, j⟩ := f
    by_cases same : n = name <;> simp [Named.put, Setting.ofFields, same, ih]

theorem get?_ofFields (fields : Fields) (name : String) :
    Named.get? (Setting.ofFields fields) name = (fields.get? name).map .ofJson := by
  induction fields with
  | nil => simp [Named.get?, Setting.ofFields]
  | cons f rest ih =>
    rw [Setting.ofFields, Named.get?_cons, Named.get?_cons, ih]
    split_ifs <;> rfl

def IsValue (value : Json) : Prop := ∀ fields, value ≠ .object fields

theorem ofJson_value (h : IsValue value) : Setting.ofJson value = .leaf value := by
  cases value with
  | object fields => exact absurd rfl (h fields)
  | _ => simp only [Setting.ofJson]

theorem isValue_valueOfText (text : String) : IsValue (valueOfText text) := by
  intro fields
  unfold valueOfText
  dsimp only
  split_ifs <;> simp

section NamedBy

variable {P : String → Prop}

theorem namedBy_nil : (Setting.record [] .common).NamedBy P :=
  .record (by simp) (by simp) (by simp)

theorem namedBy_putAt (hf : (Setting.record (Setting.ofFields fields) .common).NamedBy P)
    (h : IsValue value) (named : ∀ n ∈ path, P n) :
    (Setting.record (Setting.ofFields (putAt fields path value)) .common).NamedBy P := by
  induction path generalizing fields with
  | nil => simpa only [putAt] using hf
  | cons name rest ih =>
    obtain ⟨free, deeper⟩ := List.forall_mem_cons.1 named
    cases rest with
    | nil =>
      rw [putAt, ofFields_put, ofJson_value h]
      exact hf.put free .leaf
    | cons next rest =>
      rw [putAt, ofFields_put, Setting.ofJson]
      · refine hf.put free (ih ?_ deeper)
        split
        · rename_i inner shown
          have held : (Setting.ofJson (.object inner)).NamedBy P :=
            hf.of_get? (by rw [get?_ofFields, shown, Option.map_some])
          rwa [Setting.ofJson] at held
        · exact namedBy_nil
      · simp

theorem ofEnvironment_append_setting (env : Environment) {x : String × String} {rest : String}
    (h : settingName? x.1 = some rest) :
    ofEnvironment (env ++ [x]) =
      putAt (ofEnvironment env) (segments (pathOfName rest)) (valueOfText x.2) := by
  simp [ofEnvironment, h]

theorem ofEnvironment_append_other (env : Environment) {x : String × String}
    (h : settingName? x.1 = none) : ofEnvironment (env ++ [x]) = ofEnvironment env := by
  simp [ofEnvironment, h]

theorem namedBy_ofEnvironment {env : Environment}
    (named : ∀ x ∈ env, ∀ rest, settingName? x.1 = some rest →
      ∀ n ∈ segments (pathOfName rest), P n) :
    (Setting.record (Setting.ofFields (ofEnvironment env)) .common).NamedBy P := by
  induction env using List.reverseRecOn with
  | nil => exact namedBy_nil
  | append_singleton env x ih =>
    have before := ih fun y hy => named y (List.mem_append_left _ hy)
    cases setting : settingName? x.1 with
    | none => rwa [ofEnvironment_append_other env setting]
    | some rest =>
      rw [ofEnvironment_append_setting env setting]
      exact namedBy_putAt before (isValue_valueOfText x.2) (named x (by simp) rest setting)

end NamedBy

theorem plain_putAt (hf : (Setting.record (Setting.ofFields fields) .common).Plain)
    (h : IsValue value) (ordinary : ∀ n ∈ path, Ordinary n) :
    (Setting.record (Setting.ofFields (putAt fields path value)) .common).Plain := by
  rw [Setting.plain_iff_namedBy] at hf ⊢
  exact namedBy_putAt hf h ordinary

theorem plain_ofEnvironment {env : Environment}
    (ordinary : ∀ x ∈ env, ∀ rest, settingName? x.1 = some rest →
      ∀ n ∈ segments (pathOfName rest), Ordinary n) :
    (Setting.record (Setting.ofFields (ofEnvironment env)) .common).Plain :=
  Setting.plain_iff_namedBy.2 (namedBy_ofEnvironment ordinary)

/-! ## A value by itself -/

theorem silent_putAt {place : List String} (value : Json) (below : ¬ place <+: path)
    (above : ¬ path <+: place) (ordinary : ∀ n ∈ path, Ordinary n) :
    verdict? (.record (Setting.ofFields (putAt [] place value)) .common) path = none ∧
      settingAt? (.record (Setting.ofFields (putAt [] place value)) .common) path = none := by
  induction place generalizing path with
  | nil => exact absurd List.nil_prefix below
  | cons name rest ih =>
    cases path with
    | nil => exact absurd List.nil_prefix above
    | cons n path =>
      rw [List.cons_prefix_cons, not_and] at below above
      rw [verdict?_record, settingAt?, Setting.get?_record (ordinary n List.mem_cons_self),
        get?_ofFields]
      by_cases same : name = n
      · cases rest with
        | nil => exact absurd List.nil_prefix (below same)
        | cons next rest =>
          have inner := ih (below same) (above same.symm)
            fun n hn => ordinary n (List.mem_cons_of_mem _ hn)
          simpa [putAt, Named.put, Named.get?, same, Setting.ofJson] using inner
      · cases rest <;> simp [putAt, Named.put, Named.get?, same]

/-! ## The layers of a configuration -/

/-- The settings of a search: those of the file, if it holds a record that is not empty. -/
def fileSettings : Found → List (String × Setting)
  | .file _ (.record own _) false => own
  | _ => []

def layersOf (file : List (String × Setting)) (env : Environment) (calls : List Fields) :
    List Setting :=
  .ofJson (.object defaults) :: .record file .common ::
    .record (Setting.ofFields (ofEnvironment env)) .common ::
    calls.map fun values => .ofJson (.object values)

theorem plain_defaults : (Setting.ofJson (.object defaults)).Plain := by
  simp only [defaults, Setting.ofJson, Setting.ofFields]
  refine .record (by decide) (by decide) ?_
  simp only [List.forall_mem_cons, List.not_mem_nil, false_imp_iff, implies_true, and_true]
  refine ⟨.leaf, .leaf, .record (by decide) (by decide) ?_⟩
  simp only [List.forall_mem_cons, List.not_mem_nil, false_imp_iff, implies_true, and_true]
  exact ⟨.leaf, .leaf, .leaf, .leaf⟩

theorem tree_load (found : Found) (env : Environment) :
    (load found env).tree = stack (.ofJson (.object defaults))
      [fileSettings found, Setting.ofFields (ofEnvironment env)] := by
  cases found with
  | nothing | failed => rfl
  | file path settings isEmpty =>
    cases isEmpty <;> cases settings <;> rfl

theorem tree_foldl_set (s : Settings) (calls : List Fields) :
    (calls.foldl set s).tree = stack s.tree (calls.map Setting.ofFields) := by
  induction calls generalizing s with
  | nil => rfl
  | cons values calls ih => exact ih (s.set values)

theorem settings_foldl_set (c : Configuration) (calls : List Fields) :
    (calls.foldl Configuration.set c).settings = calls.foldl set c.settings := by
  induction calls generalizing c with
  | nil => rfl
  | cons values calls ih => exact ih (c.set values)

theorem bind_value?_leaf (v : Option Json) :
    ((v.map Setting.leaf).bind Setting.value?) = v := by
  cases v <;> rfl

/-- The records that are merged over the defaults, the lowest first. -/
def overDefaults (file : List (String × Setting)) (env : Environment) (calls : List Fields) :
    List (List (String × Setting)) :=
  [file, Setting.ofFields (ofEnvironment env)] ++ calls.map Setting.ofFields

theorem tree_settings (explorer : Explorer) (start : Option String) (env : Environment)
    (calls : List Fields) :
    (calls.foldl Configuration.set ⟨explorer, start, env, none⟩).settings.tree =
      stack (.ofJson (.object defaults))
        (overDefaults (fileSettings (explore explorer start)) env calls) := by
  rw [settings_foldl_set, tree_foldl_set, overDefaults, stack_append, ← tree_load]
  rfl

theorem layersOf_eq (file : List (String × Setting)) (env : Environment) (calls : List Fields) :
    layersOf file env calls = .ofJson (.object defaults) ::
      (overDefaults file env calls).map fun l => .record l .common := by
  simp [layersOf, overDefaults, Setting.ofJson]

/-- The settings file, the variables and what the program sets have ordinary names, each of which
occurs once in a record. -/
structure PlainLayers (file : List (String × Setting)) (env : Environment) (calls : List Fields) :
    Prop where
  file : (Setting.record file .common).Plain
  environment : ∀ x ∈ env, ∀ rest, settingName? x.1 = some rest →
    ∀ n ∈ segments (pathOfName rest), Ordinary n
  values : ∀ values ∈ calls, (Setting.ofJson (.object values)).Plain

section Layers

variable {explorer : Explorer} {start : Option String} {file : List (String × Setting)}
  {env : Environment} {calls : List Fields}

theorem PlainLayers.plain (h : PlainLayers file env calls) :
    ∀ l ∈ overDefaults file env calls, (Setting.record l .common).Plain := by
  intro l hl
  rw [overDefaults, List.mem_append, List.mem_map] at hl
  rcases hl with lower | ⟨values, set, rfl⟩
  · simp only [List.mem_cons, List.not_mem_nil, or_false] at lower
    rcases lower with rfl | rfl
    · exact h.file
    · exact plain_ofEnvironment h.environment
  · have plain := h.values values set
    rwa [Setting.ofJson] at plain

theorem PlainLayers.plain_tree
    (h : PlainLayers (fileSettings (explore explorer start)) env calls) :
    (calls.foldl Configuration.set ⟨explorer, start, env, none⟩).settings.tree.Plain ∧
      (calls.foldl Configuration.set ⟨explorer, start, env, none⟩).settings.tree.isRecord =
        true := by
  rw [tree_settings]
  exact plain_stack plain_defaults (by simp [Setting.ofJson, Setting.isRecord]) h.plain

theorem PlainLayers.get?_eq (h : PlainLayers (fileSettings (explore explorer start)) env calls)
    {path : String} (ordinary : ∀ n ∈ segments path, Ordinary n)
    (value : ∀ s, (calls.foldl Configuration.set
      ⟨explorer, start, env, none⟩).settings.setting? path = some s → s.isRecord = false) :
    (calls.foldl Configuration.set ⟨explorer, start, env, none⟩).settings.get? path =
      ((layersOf (fileSettings (explore explorer start)) env calls).reverse.findSome? fun s =>
        verdict? s (segments path)).join := by
  unfold setting? at value
  rw [get?, setting?]
  rw [tree_settings] at value ⊢
  rw [settingAt?_stack plain_defaults (by simp [Setting.ofJson, Setting.isRecord]) h.plain ordinary
    value, ← layersOf_eq]
  exact bind_value?_leaf _

theorem findSome?_eq_none {layers : List Setting} {path : List String}
    (silent : ∀ l ∈ layers, ∀ w, ¬ Decides l path w) :
    layers.reverse.findSome? (fun s => verdict? s path) = none := by
  rw [List.findSome?_eq_none_iff]
  intro l hl
  rw [Option.eq_none_iff_forall_not_mem]
  intro w said
  exact silent l (List.mem_reverse.1 hl) w ((verdict?_eq_some_iff l path w).1 said)

theorem findSome?_eq_some {lower higher : List Setting} {layer : Setting} {v : Option Json}
    {path : List String} (decides : Decides layer path v)
    (silent : ∀ l ∈ higher, ∀ w, ¬ Decides l path w) :
    (lower ++ layer :: higher).reverse.findSome? (fun s => verdict? s path) = some v := by
  have said := (verdict?_eq_some_iff layer path v).2 decides
  simp [List.findSome?_append, findSome?_eq_none silent, said]

end Layers

/-- Over all layers, from the defaults through whatever record a search for the settings file finds
and the environment to what the program sets one after the other, the highest that holds a value at
a path or on the way to it decides what is there, unless that is a record. Setting the same again
changes nothing, and setting a value changes no path but those on its way and below it. -/
theorem highest_layer_decides {explorer : Explorer} {start : Option String} {env : Environment}
    {calls : List Fields}
    (plain : PlainLayers (fileSettings (explore explorer start)) env calls) :
    let layers := layersOf (fileSettings (explore explorer start)) env calls
    let settled := (calls.foldl Configuration.set ⟨explorer, start, env, none⟩).settings
    (∀ path : String, (∀ n ∈ segments path, Ordinary n) →
      (∀ s, settled.setting? path = some s → s.isRecord = false) →
      (∀ lower layer higher value, layers = lower ++ layer :: higher →
        Decides layer (segments path) value →
        (∀ l ∈ higher, ∀ w, ¬ Decides l (segments path) w) → settled.get? path = value) ∧
      ((∀ l ∈ layers, ∀ w, ¬ Decides l (segments path) w) → settled.get? path = none)) ∧
    (∀ values : Fields, (Setting.ofJson (.object values)).Plain →
      (settled.set values).set values = settled.set values) ∧
    ∀ (place : List String) (value : Json) (path : String), IsValue value →
      (∀ n ∈ place, Ordinary n) → (∀ n ∈ segments path, Ordinary n) →
      ¬ place <+: segments path → ¬ segments path <+: place →
      (settled.set (putAt [] place value)).setting? path = settled.setting? path := by
  intro layers settled
  obtain ⟨tree, record⟩ : settled.tree.Plain ∧ settled.tree.isRecord = true := plain.plain_tree
  refine ⟨fun path ordinary value => ?_, fun values hv => ?_,
    fun place value path hv hplace hpath below above => ?_⟩
  · rw [plain.get?_eq ordinary value]
    constructor
    · intro lower layer higher v split decides silent
      have eq : layersOf _ env calls = lower ++ layer :: higher := split
      rw [eq, findSome?_eq_some decides silent, Option.join_some]
    · intro silent
      rw [findSome?_eq_none silent, Option.join_none]
  · rw [Setting.ofJson] at hv
    simp only [set, merge_twice tree record hv]
  · have empty : (Setting.record (Setting.ofFields []) .common).Plain :=
      Setting.plain_iff_namedBy.2 namedBy_nil
    have single := plain_putAt empty hv hplace
    obtain ⟨silent, absent⟩ := silent_putAt value below above hpath
    exact (overlaid_merge tree record single hpath).eq_below silent absent

/-- A package file whose settings hold a null, in the directory that the search starts from. -/
def packageExplorer : Explorer := fun _ places start =>
  match start with
  | some directory =>
    if places.contains "package.json" then
      .file (directory ++ "/package.json") (.record [("debug", .leaf .null)] .common) false
    else .nothing
  | none => .nothing

/-- A variable below a null of the settings file puts a record in its place. -/
theorem highest_layer_decides_variable :
    let env := [("CAUTION_DEBUG__DEPTH", "1")]
    let calls := [[("display", .string "plain")]]
    let file := fileSettings (explore packageExplorer (some "here"))
    file = [("debug", .leaf .null)] ∧ PlainLayers file env calls ∧
      (calls.foldl Configuration.set ⟨packageExplorer, some "here", env, none⟩).settings.get?
        "debug.depth" = some (.bool true) := by
  intro env calls file
  have held : fileSettings (explore packageExplorer (some "here")) = [("debug", .leaf .null)] :=
    rfl
  have path : segments "debug.depth" = ["debug", "depth"] := by decide +kernel
  have vars : ofEnvironment env = [("debug", .object [("depth", .bool true)])] := by cbv
  have plain : PlainLayers file env calls := by
    refine ⟨?_, ?_, ?_⟩
    · change (Setting.record [("debug", .leaf .null)] .common).Plain
      exact .record (by decide) (by decide) (by simpa using .leaf)
    · intro x hx rest named
      obtain rfl : x = ("CAUTION_DEBUG__DEPTH", "1") := by simpa [env] using hx
      have name : settingName? "CAUTION_DEBUG__DEPTH" = some "DEBUG__DEPTH" := by decide +kernel
      obtain rfl : "DEBUG__DEPTH" = rest := by simpa [name] using named
      decide +kernel
    · simp only [calls, List.mem_singleton, forall_eq, Setting.ofJson, Setting.ofFields]
      exact .record (by decide) (by decide) (by simpa using .leaf)
  refine ⟨held, plain, ((highest_layer_decides plain).1 "debug.depth" ?_ ?_).1
    [.ofJson (.object defaults), .record file .common]
    (.record (Setting.ofFields (ofEnvironment env)) .common)
    [.ofJson (.object [("display", .string "plain")])] _ rfl ?_ ?_⟩
  · rw [path]
    decide
  · rw [setting?, tree_settings, overDefaults, held, vars, path]
    intro s shown
    obtain rfl : .leaf (.bool true) = s := Option.some.inj shown
    rfl
  · rw [path, vars]
    exact ⟨["debug", "depth"], [], .bool true, rfl, rfl, rfl⟩
  · simp only [List.mem_singleton, forall_eq, ← verdict?_eq_some_iff, path]
    intro w said
    have silent : verdict? (.ofJson (.object [("display", .string "plain")])) ["debug", "depth"] =
        none := rfl
    simp [silent] at said

end Settings
end Untrusted
