/-!
# Lists with names

Pairs of a name and what it names, in the order in which the names first came. A name occurs once.
-/

namespace Untrusted

abbrev Named (α : Type) := List (String × α)

namespace Named

def get? {α : Type} (l : Named α) (name : String) : Option α :=
  (l.find? (·.1 == name)).map Prod.snd

/-- Gives a name its value: in its place if it is there, and at the end if it is new. -/
def put {α : Type} (l : Named α) (name : String) (a : α) : Named α :=
  match l with
  | [] => [(name, a)]
  | (n, b) :: rest => if n = name then (n, a) :: rest else (n, b) :: put rest name a

theorem get?_put_self {α : Type} (l : Named α) (name : String) (a : α) :
    (l.put name a).get? name = some a := by
  induction l with
  | nil => simp [put, get?]
  | cons f rest ih =>
    obtain ⟨n, b⟩ := f
    by_cases h : n = name
    · simp [put, get?, h]
    · simp only [put, h, if_false]
      simpa [get?, List.find?_cons, h] using ih

theorem get?_put_of_ne {α : Type} (l : Named α) {name other : String} (a : α) (h : name ≠ other) :
    (l.put name a).get? other = l.get? other := by
  induction l with
  | nil => simp [put, get?, h]
  | cons f rest ih =>
    obtain ⟨n, b⟩ := f
    by_cases hn : n = name
    · subst hn
      simp [put, get?, h]
    · simp only [put, hn, if_false]
      by_cases ho : n = other
      · simp [get?, ho]
      · simpa [get?, List.find?_cons, ho] using ih

end Named
end Untrusted
