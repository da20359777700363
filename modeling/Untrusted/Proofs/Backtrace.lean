import Mathlib
import Untrusted.Backtrace

/-!
# Walks over backtraces

A walk visits the frames that are no children from the outermost in, each with the children that
stand right before it. The two cursors of the walk never part, so a visitor that stops it has seen
a start of that order and nothing else.
-/

namespace Untrusted.Backtrace

/-! ## The order of a walk -/

/-- The maximal run of children that stands immediately before the frame at `i`. -/
def childrenBefore (frames : List Frame) (i : Nat) : List Frame :=
  (frames.take i).rtakeWhile (·.isChild)

def groupAt (frames : List Frame) (depth : Nat) (f : Frame × Nat) : List (Nat × Frame) :=
  (depth, f.1) :: (childrenBefore frames f.2).map (depth, ·)

/-- The frames that are no children, in their order and numbered from one, each followed by the run
of children before it. -/
def inGroups (frames : List Frame) : List (Nat × Frame) :=
  ((frames.zipIdx.filter (!·.1.isChild)).mapIdx fun n => groupAt frames (n + 1)).flatten

section

variable {f : Frame} {frames rest : List Frame}

theorem childrenBefore_length (before rest : List Frame) :
    childrenBefore (before ++ rest) before.length = before.rtakeWhile (·.isChild) := by
  rw [childrenBefore, List.take_left]

theorem visitsFrom_child (child : f.isChild = true) (depth : Nat) (children : List Frame) :
    visitsFrom depth children (f :: rest) = visitsFrom depth (children ++ [f]) rest := by
  rw [visitsFrom, if_pos child]

theorem visitsFrom_plain (plain : f.isChild = false) (depth : Nat) (children : List Frame) :
    visitsFrom depth children (f :: rest) =
      (depth + 1, f) :: children.map (depth + 1, ·) ++ visitsFrom (depth + 1) [] rest := by
  rw [visitsFrom, if_neg (by simp [plain])]

theorem visitsFrom_eq_groups (before rest : List Frame) (depth : Nat) :
    visitsFrom depth (before.rtakeWhile (·.isChild)) rest =
      (((rest.zipIdx before.length).filter (!·.1.isChild)).mapIdx fun n =>
        groupAt (before ++ rest) (depth + n + 1)).flatten := by
  -- By induction on the frames that are left: the children seen since the last frame that is none
  -- are the run that the frames seen so far end with.
  induction rest generalizing before depth with
  | nil => rfl
  | cons f rest ih =>
    have later := ih (before ++ [f])
    rw [List.append_assoc, List.singleton_append, List.length_append,
      List.length_singleton] at later
    rw [List.zipIdx_cons]
    cases child : f.isChild with
    | true =>
      rw [visitsFrom_child child, List.filter_cons_of_neg (by simp [child]), ← later]
      rw [List.rtakeWhile_concat_pos _ _ _ child]
    | false =>
      rw [List.rtakeWhile_concat_neg _ _ _ (by simp [child])] at later
      rw [visitsFrom_plain child, List.filter_cons_of_pos (by simp [child]), List.mapIdx_cons,
        List.flatten_cons, later, groupAt, childrenBefore_length]
      simp only [Nat.add_zero, Nat.add_assoc, Nat.add_comm 1]

theorem visits_eq_inGroups (b : Backtrace) : b.visits = inGroups b.frames :=
  (visitsFrom_eq_groups [] b.frames 0).trans (by simp [inGroups])

theorem visitsFrom_perm (depth : Nat) (children : List Frame) (plain : f.isChild = false) :
    ((visitsFrom depth children (rest ++ [f])).map Prod.snd).Perm (children ++ (rest ++ [f])) := by
  have group (depth : Nat) (g : Frame) (children : List Frame) :
      (((depth, g) :: children.map (depth, ·)).map Prod.snd).Perm (children ++ [g]) := by
    have swapped : ([g] ++ children).Perm (children ++ [g]) := List.perm_append_comm
    simpa [Function.comp_def] using swapped
  induction rest generalizing depth children with
  | nil =>
    rw [List.nil_append, visitsFrom_plain plain]
    simpa [visitsFrom] using group (depth + 1) f children
  | cons g rest ih =>
    rw [List.cons_append]
    cases child : g.isChild with
    | true =>
      rw [visitsFrom_child child]
      simpa using ih depth (children ++ [g])
    | false =>
      rw [visitsFrom_plain child, List.map_append]
      simpa using (group (depth + 1) g children).append (ih (depth + 1) [])

theorem visits_perm (b : Backtrace) : (b.visits.map Prod.snd).Perm b.frames :=
  visitsFrom_perm 0 [] rfl

theorem visits_length (b : Backtrace) : b.visits.length = b.count := by
  rw [count, ← b.visits_perm.length_eq, List.length_map]

theorem visitsFrom_plain_append {plain : List Frame} (h : ∀ f ∈ plain, f.isChild = false)
    (depth : Nat) : visitsFrom depth [] (plain ++ rest) =
      plain.mapIdx (fun n f => (depth + n + 1, f)) ++
        visitsFrom (depth + plain.length) [] rest := by
  induction plain generalizing depth with
  | nil => rfl
  | cons g plain ih =>
    rw [List.cons_append, visitsFrom_plain (h g List.mem_cons_self),
      ih (fun f hf => h f (List.mem_cons_of_mem g hf))]
    simp [Nat.add_assoc, Nat.add_comm 1]

theorem visitsFrom_child_append {children : List Frame} (h : ∀ f ∈ children, f.isChild = true)
    (depth : Nat) (before : List Frame) :
    visitsFrom depth before (children ++ rest) = visitsFrom depth (before ++ children) rest := by
  induction children generalizing before with
  | nil => simp
  | cons g children ih =>
    rw [List.cons_append, visitsFrom_child (h g List.mem_cons_self),
      ih (fun f hf => h f (List.mem_cons_of_mem g hf)), List.append_assoc, List.singleton_append]

theorem visits_scopes_children (root : RootFrame) {scopes children : List Frame}
    (plain : ∀ f ∈ scopes, f.isChild = false) (child : ∀ f ∈ children, f.isChild = true) :
    (⟨true, root, scopes ++ children⟩ : Backtrace).visits =
      (scopes ++ [root.frame]).mapIdx (fun n f => (n + 1, f)) ++
        children.map (scopes.length + 1, ·) := by
  change visitsFrom 0 [] (scopes ++ children ++ [root.frame]) = _
  rw [List.append_assoc, visitsFrom_plain_append plain, visitsFrom_child_append child,
    visitsFrom_plain rfl, List.mapIdx_append]
  simp [visitsFrom]

end

/-! ## Visitors -/

section

variable {σ : Type} (visit : σ → Nat → Frame → σ × Bool)

def walkList (s : σ) : List (Nat × Frame) → σ × Bool
  | [] => (s, true)
  | (depth, f) :: rest =>
    match visit s depth f with
    | (s', true) => walkList s' rest
    | (s', false) => (s', false)

theorem walkList_append (s : σ) (first later : List (Nat × Frame)) :
    walkList visit s (first ++ later) =
      if (walkList visit s first).2 then walkList visit (walkList visit s first).1 later
      else walkList visit s first := by
  induction first generalizing s with
  | nil => rfl
  | cons v first ih =>
    rw [List.cons_append, walkList, walkList]
    cases answer : visit s v.1 v.2 with
    | mk s' go =>
      cases go with
      | true => exact ih s'
      | false => rfl

theorem walkChildren_eq (depth : Nat) (children rest : List Frame) (s : σ) :
    walkChildren visit depth children.length (children ++ rest) s =
      walkList visit s (children.map (depth, ·)) := by
  induction children generalizing s with
  | nil => cases rest <;> rfl
  | cons f children ih =>
    rw [List.length_cons, List.cons_append, walkChildren, List.map_cons, walkList]
    cases answer : visit s depth f with
    | mk s' go =>
      cases go with
      | true => exact ih s'
      | false => rfl

theorem walkFrom_eq (depth : Nat) (children frames : List Frame) (s : σ) :
    walkFrom visit depth children.length (children ++ frames.filter (·.isChild)) frames s =
      walkList visit s (visitsFrom depth children frames) := by
  -- By induction on the frames that are left: the children not visited yet are those passed since
  -- the last frame that is none, and then those among the frames that are left.
  induction frames generalizing depth children s with
  | nil => rfl
  | cons f rest ih =>
    cases child : f.isChild with
    | true =>
      have later := ih depth (children ++ [f]) s
      rw [List.length_append, List.length_singleton, List.append_assoc,
        List.singleton_append] at later
      rw [walkFrom, if_pos child, List.filter_cons_of_pos child, visitsFrom_child child, later]
    | false =>
      rw [walkFrom, if_neg (by simp [child]), List.filter_cons_of_neg (by simp [child]),
        visitsFrom_plain child, List.cons_append, walkList]
      cases answer : visit s (depth + 1) f with
      | mk s' go =>
        cases go with
        | false => rfl
        | true =>
          simp only [walkChildren_eq, walkList_append, List.drop_left]
          cases answers : walkList visit s' (children.map (depth + 1, ·)) with
          | mk s'' go =>
            cases go with
            | false => rfl
            | true => exact ih (depth + 1) [] s''

theorem walk_eq (b : Backtrace) (s : σ) : b.walk visit s = walkList visit s b.visits :=
  walkFrom_eq visit 0 [] b.frames s

def stateAfter (s : σ) (order : List (Nat × Frame)) (n : Nat) : σ :=
  (order.take n).foldl (fun s v => (visit s v.1 v.2).1) s

/-- Whether a visitor that made all visits before says to go on at the visit `n` of an order. -/
def goesOn (s : σ) (order : List (Nat × Frame)) (n : Nat) : Bool :=
  order[n]?.all fun v => (visit (stateAfter visit s order n) v.1 v.2).2

variable {visit} {s s' : σ} {v : Nat × Frame} {order : List (Nat × Frame)}

theorem goesOn_zero : goesOn visit s (v :: order) 0 = (visit s v.1 v.2).2 := by
  simp [goesOn, stateAfter]

theorem stateAfter_succ (first : (visit s v.1 v.2).1 = s') (n : Nat) :
    stateAfter visit s (v :: order) (n + 1) = stateAfter visit s' order n := by
  simp [stateAfter, first]

theorem goesOn_succ (first : (visit s v.1 v.2).1 = s') (n : Nat) :
    goesOn visit s (v :: order) (n + 1) = goesOn visit s' order n := by
  simp [goesOn, stateAfter_succ first]

theorem walkList_of_stop {n : Nat} (before : ∀ i < n, goesOn visit s order i = true)
    (stop : goesOn visit s order n = false) :
    walkList visit s order = (stateAfter visit s order (n + 1), false) := by
  induction order generalizing s n with
  | nil => simp [goesOn] at stop
  | cons v order ih =>
    rw [walkList]
    cases n with
    | zero =>
      rw [goesOn_zero] at stop
      cases answer : visit s v.1 v.2 with
      | mk s' go =>
        obtain rfl : go = false := by simpa [answer] using stop
        rw [stateAfter_succ (congrArg Prod.fst answer)]
        rfl
    | succ n =>
      have first := before 0 (Nat.succ_pos n)
      rw [goesOn_zero] at first
      cases answer : visit s v.1 v.2 with
      | mk s' go =>
        obtain rfl : go = true := by simpa [answer] using first
        have state := congrArg Prod.fst answer
        rw [goesOn_succ state] at stop
        rw [stateAfter_succ state]
        refine ih (fun i hi => ?_) stop
        rw [← goesOn_succ state]
        exact before (i + 1) (Nat.succ_lt_succ hi)

theorem walkList_of_goesOn (always : ∀ i, goesOn visit s order i = true) :
    walkList visit s order = (stateAfter visit s order order.length, true) := by
  induction order generalizing s with
  | nil => rfl
  | cons v order ih =>
    have first := always 0
    rw [goesOn_zero] at first
    rw [walkList]
    cases answer : visit s v.1 v.2 with
    | mk s' go =>
      obtain rfl : go = true := by simpa [answer] using first
      have state := congrArg Prod.fst answer
      rw [List.length_cons, stateAfter_succ state]
      refine ih fun i => ?_
      rw [← goesOn_succ state]
      exact always (i + 1)

end

theorem firstVisits_none (b : Backtrace) : b.firstVisits none = (b.visits, true) := by
  have seen (order before : List (Nat × Frame)) :
      walkList (fun seen depth f =>
        let seen := seen ++ [(depth, f)]
        (seen, Option.all (Number.ofNat seen.length).lt none)) before order =
        (before ++ order, true) := by
    induction order generalizing before with
    | nil => simp [walkList]
    | cons v order ih =>
      rw [walkList]
      exact (ih _).trans (by simp)
  rw [firstVisits, walk_eq]
  exact seen b.visits []

/-! ## Backtraces that keep every frame -/

theorem foldl_push_full (root : RootFrame) (pushed outer : List Frame) :
    pushed.foldl push ⟨true, root, outer⟩ = ⟨true, root, pushed.reverse ++ outer⟩ := by
  induction pushed generalizing outer with
  | nil => rfl
  | cons f pushed ih =>
    rw [List.foldl_cons, push, if_pos rfl, ih]
    simp

/-- However frames and children are pushed, a walk visits the frames that are no children from the
outermost in, numbered from one, and right after each the children that stand immediately before
it. Every frame is visited once. A visitor sees the visits up to the one at which it first says to
stop, or all of them if it never does. -/
theorem walk_in_groups (root : RootFrame) (pushed : List Frame) :
    let b := pushed.foldl push (ofRoot true root)
    let order := inGroups (root.frame :: pushed).reverse
    b.frames = (root.frame :: pushed).reverse ∧ b.visits = order ∧
      (order.map Prod.snd).Perm b.frames ∧ order.length = b.count ∧
      ∀ (σ : Type) (visit : σ → Nat → Frame → σ × Bool) (s : σ),
        (∀ n, (∀ i < n, goesOn visit s order i = true) → goesOn visit s order n = false →
          b.walk visit s = (stateAfter visit s order (n + 1), false)) ∧
        ((∀ i, goesOn visit s order i = true) →
          b.walk visit s = (stateAfter visit s order order.length, true)) := by
  intro b order
  have frames : b.frames = (root.frame :: pushed).reverse := by
    change (pushed.foldl push ⟨true, root, []⟩).frames = _
    rw [foldl_push_full]
    simp [Backtrace.frames]
  have visits : b.visits = order := by rw [visits_eq_inGroups, frames]
  refine ⟨frames, visits, ?_, ?_, fun σ visit s => ⟨fun n before stop => ?_, fun always => ?_⟩⟩
  · rw [← visits]
    exact b.visits_perm
  · rw [← visits]
    exact b.visits_length
  · rw [walk_eq, visits]
    exact walkList_of_stop before stop
  · rw [walk_eq, visits]
    exact walkList_of_goesOn always

/-- A visitor that notes names and stops at the third, over two scopes around a foreign failure with
two frames of its own. -/
theorem walk_in_groups_stopped :
    let root : RootFrame := ⟨.expectExternal, "number", ⟨⟨0, #[]⟩, 0, 0⟩⟩
    let pushed := [(Frame.named "digit").asChild, (Frame.named "digits").asChild, .named "header"]
    let order := inGroups (root.frame :: pushed).reverse
    let visit := fun (seen : List String) (_ : Nat) (f : Frame) =>
      (seen ++ [f.operation], decide (seen.length < 2))
    (∀ i < 2, goesOn visit [] order i = true) ∧ goesOn visit [] order 2 = false ∧
      (pushed.foldl push (ofRoot true root)).walk visit [] =
        (["header", "read and expect an external value", "digits"], false) := by
  intro root pushed order visit
  have before : ∀ i < 2, goesOn visit [] order i = true := by decide +kernel
  have stop : goesOn visit [] order 2 = false := by decide +kernel
  exact ⟨before, stop, ((walk_in_groups root pushed).2.2.2.2 _ visit []).1 2 before stop⟩

end Untrusted.Backtrace
