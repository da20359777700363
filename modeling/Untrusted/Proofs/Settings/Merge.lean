import Mathlib
import Untrusted.Settings.Tree

/-!
# What merging does to a path

Where the record that is merged in holds a value, on the way to a path or at its end, that value
decides. Where it has a record there is one, and everything else stays as it was.
-/

namespace Untrusted

/-! ## Lists with names -/

namespace Named

variable {α β : Type} {l : Named α} {name : String} {a : α} {x : String × α}

theorem mem_of_get? (h : l.get? name = some a) : (name, a) ∈ l := by
  unfold get? at h
  obtain ⟨⟨n, b⟩, found, rfl⟩ := Option.map_eq_some_iff.1 h
  obtain rfl : n = name := by simpa using List.find?_some found
  exact List.mem_of_find?_eq_some found

theorem get?_cons (l : Named α) (x : String × α) (name : String) :
    Named.get? (x :: l) name = if x.1 = name then some x.2 else l.get? name := by
  unfold get?
  by_cases h : x.1 = name <;> simp [h]

theorem get?_of_mem (distinct : (l.map Prod.fst).Nodup) (h : x ∈ l) : l.get? x.1 = some x.2 := by
  induction l with
  | nil => simp at h
  | cons y l ih =>
    rw [List.map_cons, List.nodup_cons] at distinct
    rw [get?_cons]
    rcases List.mem_cons.1 h with rfl | later
    · rw [if_pos rfl]
    · have other : y.1 ≠ x.1 := fun same =>
        distinct.1 (same ▸ List.mem_map_of_mem later)
      rw [if_neg other, ih distinct.2 later]

theorem get?_eq_none (h : ∀ x ∈ l, x.1 ≠ name) : l.get? name = none := by
  unfold get?
  simpa using h

theorem put_eq_self (h : l.get? name = some a) : l.put name a = l := by
  induction l with
  | nil => simp [get?] at h
  | cons y l ih =>
    obtain ⟨n, b⟩ := y
    rw [get?_cons] at h
    unfold put
    by_cases same : n = name
    · simp_all
    · rw [if_neg same] at h ⊢
      rw [ih h]

theorem mem_put (h : x ∈ l.put name a) : x = (name, a) ∨ x ∈ l := by
  induction l with
  | nil => simpa [put] using h
  | cons y l ih =>
    obtain ⟨n, b⟩ := y
    unfold put at h
    split_ifs at h with same
    · subst same
      rcases List.mem_cons.1 h with rfl | later
      · exact .inl rfl
      · exact .inr (List.mem_cons_of_mem _ later)
    · rcases List.mem_cons.1 h with rfl | later
      · exact .inr List.mem_cons_self
      · exact (ih later).imp_right (List.mem_cons_of_mem _)

theorem nodup_put (distinct : (l.map Prod.fst).Nodup) (name : String) (a : α) :
    ((l.put name a).map Prod.fst).Nodup := by
  induction l with
  | nil => simp [put]
  | cons y l ih =>
    obtain ⟨n, b⟩ := y
    rw [List.map_cons, List.nodup_cons] at distinct
    unfold put
    split_ifs with same
    · simpa using distinct
    · rw [List.map_cons, List.nodup_cons]
      refine ⟨fun again => ?_, ih distinct.2⟩
      obtain ⟨z, hz, eq⟩ := List.mem_map.1 again
      rcases mem_put hz with rfl | old
      · exact same eq.symm
      · exact distinct.1 (eq ▸ List.mem_map_of_mem old)

end Named

/-! ## Plain settings -/

namespace Setting

/-- A name that no record shows unless it has a setting of that name. -/
def Ordinary (name : String) : Prop := name ≠ parentName ∧ name ∉ builtInNames
  deriving Decidable

/-- A value, or a record that descends from the common one and has settings of ordinary names, each
of which occurs once. -/
inductive Plain : Setting → Prop where
  | leaf {value : Json} : Plain (.leaf value)
  | record {own : List (String × Setting)} : (own.map Prod.fst).Nodup →
      (∀ x ∈ own, Ordinary x.1) → (∀ x ∈ own, Plain x.2) → Plain (.record own .common)

variable {own l : List (String × Setting)} {name : String} {s t : Setting}

/-- A value, or a record that descends from the common one and has settings of names with a
property, each of which occurs once. -/
inductive NamedBy (P : String → Prop) : Setting → Prop where
  | leaf {value : Json} : NamedBy P (.leaf value)
  | record {own : List (String × Setting)} : (own.map Prod.fst).Nodup →
      (∀ x ∈ own, P x.1) → (∀ x ∈ own, NamedBy P x.2) → NamedBy P (.record own .common)

theorem plain_iff_namedBy : s.Plain ↔ s.NamedBy Ordinary := by
  constructor
  · intro h
    induction h with
    | leaf => exact .leaf
    | record distinct named _ ih => exact .record distinct named ih
  · intro h
    induction h with
    | leaf => exact .leaf
    | record distinct named _ ih => exact .record distinct named ih

section NamedBy

variable {P : String → Prop}

theorem NamedBy.of_get? (h : (Setting.record own .common).NamedBy P)
    (shown : Named.get? own name = some s) : s.NamedBy P := by
  cases h with
  | record _ _ inner => exact inner _ (Named.mem_of_get? shown)

theorem NamedBy.put (h : (Setting.record own .common).NamedBy P) (named : P name)
    (hs : s.NamedBy P) : (Setting.record (Named.put own name s) .common).NamedBy P := by
  cases h with
  | record distinct names inner =>
    refine .record (Named.nodup_put distinct name s) (fun x hx => ?_) fun x hx => ?_
    · rcases Named.mem_put hx with rfl | old
      · exact named
      · exact names x old
    · rcases Named.mem_put hx with rfl | old
      · exact hs
      · exact inner x old

end NamedBy

theorem get?_record (h : Ordinary name) :
    (Setting.record own .common).get? name = Named.get? own name := by
  simp only [get?, isRecord, parent, shown?, shown?.commonly, if_pos, if_neg h.1]
  have free : builtInNames.contains name = false := by simpa using h.2
  rw [free]
  split
  · exact (‹Named.get? own name = some _›).symm
  · exact (‹Named.get? own name = none›).symm

theorem put_of_ne_parentName (h : name ≠ parentName) (p a : Setting) :
    (Setting.record own p).put name a = .record (Named.put own name a) p := by
  simp only [put, h, false_and, if_false]

theorem put_record (h : Ordinary name) (p a : Setting) :
    (Setting.record own p).put name a = .record (Named.put own name a) p :=
  put_of_ne_parentName h.1 p a

theorem Plain.get? (h : t.Plain) (ordinary : Ordinary name) (shown : t.get? name = some s) :
    s.Plain := by
  cases h with
  | leaf => simp [Setting.get?, isRecord] at shown
  | record _ _ inner =>
    rw [get?_record ordinary] at shown
    exact inner _ (Named.mem_of_get? shown)

theorem Plain.put (h : (Setting.record own .common).Plain) (ordinary : Ordinary name)
    (hs : s.Plain) : (Setting.record (Named.put own name s) .common).Plain := by
  rw [plain_iff_namedBy] at h hs ⊢
  exact h.put ordinary hs

theorem Plain.exists_record (h : t.Plain) (record : t.isRecord = true) :
    ∃ own, t = .record own .common := by
  cases h with
  | leaf => simp [isRecord] at record
  | @record own => exact ⟨own, rfl⟩

end Setting

/-! ## Merging, a name at a time -/

namespace Settings

variable {own l : List (String × Setting)} {name : String} {s t : Setting}

open Setting (Ordinary Plain)

theorem merged_leaf (old : Option Setting) (value : Json) :
    merged old (.leaf value) = .leaf value := by
  simp only [merged]

theorem merged_none (s : Setting) : merged none s = s := by
  cases s <;> simp only [merged]

theorem merged_of_isRecord (record : t.isRecord = true) (own : List (String × Setting))
    (p : Setting) : merged (some t) (.record own p) = mergeAll t.fresh own := by
  simp only [merged, record, if_true]

theorem merged_of_not_isRecord (value : ¬ t.isRecord = true) (s : Setting) :
    merged (some t) s = s := by
  cases s <;> simp [merged, value]

theorem mergeAll_cons (named : Ordinary name) :
    mergeAll (.record own .common) ((name, s) :: l) =
      mergeAll (.record (Named.put own name (merged (Named.get? own name) s)) .common) l := by
  rw [mergeAll, Setting.put_record named, Setting.get?_record named]

theorem exists_mergeAll (named : ∀ x ∈ l, Ordinary x.1) (own : List (String × Setting)) :
    ∃ all, mergeAll (.record own .common) l = .record all .common := by
  induction l generalizing own with
  | nil => exact ⟨own, by rw [mergeAll]⟩
  | cons x l ih =>
    rw [mergeAll_cons (named x List.mem_cons_self)]
    exact ih (fun y hy => named y (List.mem_cons_of_mem x hy)) _

theorem get?_mergeAll (named : ∀ x ∈ l, Ordinary x.1) (distinct : (l.map Prod.fst).Nodup)
    (ordinary : Ordinary name) :
    (mergeAll (.record own .common) l).get? name =
      match Named.get? l name with
      | some s => some (merged (Named.get? own name) s)
      | none => Named.get? own name := by
  induction l generalizing own with
  | nil => rw [mergeAll, Setting.get?_record ordinary]; rfl
  | cons x l ih =>
    obtain ⟨n, s⟩ := x
    rw [List.map_cons, List.nodup_cons] at distinct
    rw [mergeAll_cons (named _ List.mem_cons_self),
      ih (fun y hy => named y (List.mem_cons_of_mem _ hy)) distinct.2, Named.get?_cons]
    by_cases same : n = name
    · have last : Named.get? l name = none :=
        Named.get?_eq_none fun y hy eq =>
          distinct.1 (List.mem_map.2 ⟨y, hy, eq.trans same.symm⟩)
      rw [last, if_pos same, ← same]
      exact Named.get?_put_self own n _
    · rw [if_neg same, Named.get?_put_of_ne own _ same]

/-! ## Merging keeps settings plain -/

theorem plain_mergeAll (ht : (Setting.record own .common).Plain) (named : ∀ x ∈ l, Ordinary x.1)
    (each : ∀ x ∈ l, ∀ old, (∀ o, old = some o → o.Plain) → (merged old x.2).Plain) :
    (mergeAll (.record own .common) l).Plain := by
  induction l generalizing own with
  | nil => rwa [mergeAll]
  | cons x l ih =>
    have ordinary := named x List.mem_cons_self
    rw [mergeAll_cons ordinary]
    refine ih (ht.put ordinary (each x List.mem_cons_self _ fun o shown => ?_))
      (fun y hy => named y (List.mem_cons_of_mem x hy))
      fun y hy => each y (List.mem_cons_of_mem x hy)
    exact ht.get? ordinary ((Setting.get?_record ordinary).trans shown)

theorem plain_merged (hs : s.Plain) {old : Option Setting} (ho : ∀ o, old = some o → o.Plain) :
    (merged old s).Plain := by
  induction hs generalizing old with
  | leaf => simpa only [merged] using .leaf
  | @record own distinct named inner ih =>
    have same : (Setting.record own .common).Plain := .record distinct named inner
    cases old with
    | none => rwa [merged_none]
    | some target =>
      by_cases record : target.isRecord = true
      · have plain := ho target rfl
        obtain ⟨first, rfl⟩ := plain.exists_record record
        rw [merged_of_isRecord record]
        exact plain_mergeAll plain named fun x hx old ho => ih x hx ho
      · rwa [merged_of_not_isRecord record]

theorem isRecord_merged (hl : (Setting.record l .common).Plain) {old : Option Setting}
    (ho : ∀ o, old = some o → o.Plain) : (merged old (.record l .common)).isRecord = true := by
  cases old with
  | none => rw [merged_none]; rfl
  | some t =>
    by_cases record : t.isRecord = true
    · obtain ⟨first, rfl⟩ := (ho t rfl).exists_record record
      cases hl with
      | record _ named =>
        obtain ⟨all, eq⟩ := exists_mergeAll named first
        rw [merged_of_isRecord record, Setting.fresh, eq]
        rfl
    · rw [merged_of_not_isRecord record]
      rfl

/-! ## Merging the same again -/

theorem mergeAll_of_absorbed (named : ∀ x ∈ l, Ordinary x.1)
    (absorbed : ∀ x ∈ l, ∃ a, Named.get? own x.1 = some a ∧ merged (some a) x.2 = a) :
    mergeAll (.record own .common) l = .record own .common := by
  induction l with
  | nil => rw [mergeAll]
  | cons x l ih =>
    obtain ⟨a, shown, same⟩ := absorbed x List.mem_cons_self
    rw [mergeAll_cons (named x List.mem_cons_self), shown, same, Named.put_eq_self shown]
    exact ih (fun y hy => named y (List.mem_cons_of_mem x hy))
      fun y hy => absorbed y (List.mem_cons_of_mem x hy)

theorem mergeAll_twice (named : ∀ x ∈ l, Ordinary x.1) (distinct : (l.map Prod.fst).Nodup)
    (again : ∀ x ∈ l, ∀ old, (∀ o, old = some o → o.Plain) →
      merged (some (merged old x.2)) x.2 = merged old x.2)
    (ht : (Setting.record own .common).Plain) :
    mergeAll (mergeAll (.record own .common) l) l = mergeAll (.record own .common) l := by
  obtain ⟨all, eq⟩ := exists_mergeAll named own
  rw [eq]
  refine mergeAll_of_absorbed named fun x hx => ⟨merged (Named.get? own x.1) x.2, ?_, ?_⟩
  · have ordinary := named x hx
    rw [← Setting.get?_record ordinary, ← eq, get?_mergeAll named distinct ordinary,
      Named.get?_of_mem distinct hx]
  · exact again x hx _ fun o shown =>
      ht.get? (named x hx) ((Setting.get?_record (named x hx)).trans shown)

theorem merged_twice (hs : s.Plain) {old : Option Setting} (ho : ∀ o, old = some o → o.Plain) :
    merged (some (merged old s)) s = merged old s := by
  induction hs generalizing old with
  | leaf => simp only [merged_leaf]
  | @record own distinct named inner ih =>
    -- A record that replaces what was there absorbs itself.
    have self : merged (some (.record own .common)) (.record own .common) =
        .record own .common := by
      rw [merged_of_isRecord rfl]
      refine mergeAll_of_absorbed named fun x hx => ⟨x.2, Named.get?_of_mem distinct hx, ?_⟩
      have absorbs := ih x hx fun o (eq : none = some o) => by contradiction
      simpa only [merged_none] using absorbs
    cases old with
    | none => rwa [merged_none]
    | some target =>
      by_cases record : target.isRecord = true
      · have plain := ho target rfl
        obtain ⟨first, rfl⟩ := plain.exists_record record
        obtain ⟨all, eq⟩ := exists_mergeAll named first
        have twice := mergeAll_twice named distinct (fun x hx old ho => ih x hx ho) plain
        rw [eq] at twice
        rw [merged_of_isRecord record, Setting.fresh, eq, merged_of_isRecord rfl]
        exact twice
      · rwa [merged_of_not_isRecord record]

/-! ## Merging into a record -/

theorem merge_eq_merged (record : t.isRecord = true) (l : List (String × Setting)) :
    merge t l = merged (some t) (.record l .common) :=
  (merged_of_isRecord record l .common).symm

section Merge

variable (ht : t.Plain) (record : t.isRecord = true) (hl : (Setting.record l .common).Plain)

include ht record hl

theorem plain_merge : (merge t l).Plain := by
  rw [merge_eq_merged record]
  exact plain_merged hl (by simpa using ht)

theorem isRecord_merge : (merge t l).isRecord = true := by
  rw [merge_eq_merged record]
  exact isRecord_merged hl (by simpa using ht)

theorem merge_twice : merge (merge t l) l = merge t l := by
  rw [merge_eq_merged (isRecord_merge ht record hl), merge_eq_merged record]
  exact merged_twice hl (by simpa using ht)

end Merge

/-! ## Paths -/

/-- What a setting has to say of what is at a path: the value there, or that nothing is below a
value on the way. -/
def verdict? : Setting → List String → Option (Option Json)
  | .leaf value, [] => some (some value)
  | .leaf _, _ :: _ => some none
  | s, name :: rest => (s.get? name).bind fun inner => verdict? inner rest
  | _, [] => none

/-- At a path or on the way to it, a setting holds a value, which stands at the path only in the
first case. -/
def Decides (s : Setting) (path : List String) (value : Option Json) : Prop :=
  ∃ pre post held, path = pre ++ post ∧ settingAt? s pre = some (.leaf held) ∧
    value = if post = [] then some held else none

variable {path : List String}

theorem verdict?_record (own : List (String × Setting)) (p : Setting) (name : String)
    (rest : List String) :
    verdict? (.record own p) (name :: rest) =
      ((Setting.record own p).get? name).bind fun inner => verdict? inner rest := rfl

theorem verdict?_eq_some_iff (s : Setting) (path : List String) (v : Option Json) :
    verdict? s path = some v ↔ Decides s path v := by
  induction path generalizing s with
  | nil =>
    constructor
    · intro h
      cases s <;> simp only [verdict?, Option.some.injEq, reduceCtorEq] at h
      exact ⟨[], [], _, rfl, rfl, by simpa using h.symm⟩
    · rintro ⟨pre, post, held, split, here, rfl⟩
      obtain ⟨rfl, rfl⟩ := List.append_eq_nil_iff.1 split.symm
      simp only [settingAt?, Option.some.injEq] at here
      simp [here, verdict?]
  | cons name rest ih =>
    constructor
    · intro h
      cases s with
      | leaf held =>
        simp only [verdict?, Option.some.injEq] at h
        exact ⟨[], name :: rest, held, rfl, rfl, by simpa using h.symm⟩
      | builtIn | common | record own p =>
        obtain ⟨inner, shown, below⟩ := Option.bind_eq_some_iff.1 h
        obtain ⟨pre, post, held, rfl, here, eq⟩ := (ih inner).1 below
        exact ⟨name :: pre, post, held, rfl, by rw [settingAt?, shown]; exact here, eq⟩
    · rintro ⟨pre, post, held, split, here, rfl⟩
      cases pre with
      | nil =>
        simp only [settingAt?, Option.some.injEq] at here
        rw [List.nil_append] at split
        simp [here, ← split, verdict?]
      | cons n pre =>
        obtain ⟨rfl, rfl⟩ := List.cons_eq_cons.1 split
        obtain ⟨inner, shown, below⟩ := Option.bind_eq_some_iff.1 here
        have deeper := (ih inner).2 ⟨pre, post, held, rfl, below, rfl⟩
        cases s with
        | leaf => simp [Setting.get?, Setting.isRecord] at shown
        | builtIn | common | record own p =>
          exact Option.bind_eq_some_iff.2 ⟨inner, shown, deeper⟩

/-- What stands at a path once `s` is merged in, where `below` stood before. -/
inductive Overlaid (s : Setting) (path : List String) (below : Option Setting) :
    Option Setting → Prop where
  | decided {v : Option Json} : verdict? s path = some v → Overlaid s path below (v.map .leaf)
  | record {t : Setting} : verdict? s path = none → (settingAt? s path).isSome = true →
      t.isRecord = true → Overlaid s path below (some t)
  | kept : verdict? s path = none → settingAt? s path = none → Overlaid s path below below

theorem Overlaid.decided_or_kept {below above : Option Setting} (h : Overlaid s path below above)
    (value : ∀ t, above = some t → t.isRecord = false) :
    (∃ v, verdict? s path = some v ∧ above = v.map .leaf) ∨
      verdict? s path = none ∧ above = below := by
  cases h with
  | decided h => exact .inl ⟨_, h, rfl⟩
  | record _ _ record => simp [record] at value
  | kept h => exact .inr ⟨h, rfl⟩

theorem Overlaid.eq_below {below above : Option Setting} (h : Overlaid s path below above)
    (silent : verdict? s path = none) (absent : settingAt? s path = none) : above = below := by
  cases h with
  | decided h => simp [silent] at h
  | record _ found => simp [absent] at found
  | kept => rfl

theorem Overlaid.cons {below above : Option Setting} {rest : List String}
    (shown : (Setting.record own .common).get? name = some s) (h : Overlaid s rest below above) :
    Overlaid (.record own .common) (name :: rest) below above := by
  have verdict : verdict? (.record own .common) (name :: rest) = verdict? s rest := by
    rw [verdict?_record, shown, Option.bind_some]
  have same : settingAt? (.record own .common) (name :: rest) = settingAt? s rest := by
    rw [settingAt?, shown, Option.bind_some]
  cases h with
  | decided h => exact .decided (verdict.trans h)
  | record h found record => exact .record (verdict.trans h) (same ▸ found) record
  | kept h none => exact .kept (verdict.trans h) (same.trans none)

theorem overlaid_of_get?_eq_none (none : (Setting.record own .common).get? name = none)
    (rest : List String) (below : Option Setting) :
    Overlaid (.record own .common) (name :: rest) below below := by
  refine .kept ?_ ?_
  · rw [verdict?_record, none, Option.bind_none]
  · rw [settingAt?, none, Option.bind_none]

theorem overlaid_self (hs : s.Plain) (ordinary : ∀ n ∈ path, Ordinary n) :
    Overlaid s path none (settingAt? s path) := by
  induction path generalizing s with
  | nil =>
    cases hs with
    | @leaf value => exact .decided (v := some value) rfl
    | record => exact .record rfl rfl rfl
  | cons name rest ih =>
    cases hs with
    | leaf => exact .decided (v := none) rfl
    | @record own distinct named inner =>
      have plain : (Setting.record own .common).Plain := .record distinct named inner
      rw [settingAt?]
      cases shown : (Setting.record own .common).get? name with
      | none => exact overlaid_of_get?_eq_none shown rest none
      | some s =>
        have hs := plain.get? (ordinary name List.mem_cons_self) shown
        exact .cons shown (ih hs fun n hn => ordinary n (List.mem_cons_of_mem name hn))

theorem bind_settingAt?_of_not_isRecord {old : Option Setting}
    (value : ∀ o, old = some o → ¬ o.isRecord = true) (name : String) (rest : List String) :
    (old.bind fun o => settingAt? o (name :: rest)) = none := by
  cases old with
  | none => rfl
  | some o => simp [settingAt?, Setting.get?, value o rfl]

/-- What a merge shows at a path, by what it merges there. -/
theorem overlaid_merged (hs : s.Plain) {old : Option Setting} (ho : ∀ o, old = some o → o.Plain)
    (ordinary : ∀ n ∈ path, Ordinary n) :
    Overlaid s path (old.bind fun o => settingAt? o path) (settingAt? (merged old s) path) := by
  induction path generalizing s old with
  | nil =>
    cases hs with
    | @leaf value => rw [merged_leaf]; exact .decided (v := some value) rfl
    | record distinct named inner =>
      exact .record rfl rfl (isRecord_merged (.record distinct named inner) ho)
  | cons name rest ih =>
    by_cases record : ∃ t, old = some t ∧ t.isRecord = true
    · obtain ⟨t, rfl, record⟩ := record
      cases hs with
      | leaf => rw [merged_leaf]; exact .decided (v := none) rfl
      | @record own distinct named inner =>
        have free := ordinary name List.mem_cons_self
        have plain := ho t rfl
        obtain ⟨first, rfl⟩ := plain.exists_record record
        rw [merged_of_isRecord record, Setting.fresh, Option.bind_some, settingAt?, settingAt?,
          get?_mergeAll named distinct free, Setting.get?_record free]
        cases shown : Named.get? own name with
        | none =>
          exact overlaid_of_get?_eq_none ((Setting.get?_record free).trans shown) rest _
        | some s =>
          refine .cons ((Setting.get?_record free).trans shown) (ih ?_ (fun o ho => ?_) ?_)
          · exact inner _ (Named.mem_of_get? shown)
          · exact plain.get? free ((Setting.get?_record free).trans ho)
          · exact fun n hn => ordinary n (List.mem_cons_of_mem name hn)
    · have value : ∀ o, old = some o → ¬ o.isRecord = true := fun o eq is => record ⟨o, eq, is⟩
      have replaced : merged old s = s := by
        cases old with
        | none => exact merged_none s
        | some t => exact merged_of_not_isRecord (value t rfl) s
      rw [bind_settingAt?_of_not_isRecord value, replaced]
      exact overlaid_self hs ordinary

theorem overlaid_merge (ht : t.Plain) (record : t.isRecord = true)
    (hl : (Setting.record l .common).Plain) (ordinary : ∀ n ∈ path, Ordinary n) :
    Overlaid (.record l .common) path (settingAt? t path) (settingAt? (merge t l) path) := by
  rw [merge_eq_merged record]
  have plain : ∀ o, some t = some o → o.Plain := by simpa using ht
  exact overlaid_merged hl plain ordinary

end Settings
end Untrusted
