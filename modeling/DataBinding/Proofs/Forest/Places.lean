import DataBinding.Forest.Basic

/-!
# Places of a forest

What is found in each place after a definition was added or a place was filled anew. A new definition
takes the place behind all others, and filling one place leaves the others as they are.
-/

namespace DataBinding.Forest

variable {f g : Forest} {h x : Handle} {d e : Entry}

theorem exists_of_map_eq {α : Type} {part : Entry → α}
    (same : (g.get? h).map part = (f.get? h).map part) (found : f.get? h = some d) :
    ∃ e, g.get? h = some e ∧ part e = part d := by
  rw [found, Option.map_some, Option.map_eq_some_iff] at same
  exact same

theorem map_of_map_eq {α β : Type} {part : Entry → α}
    (same : (g.get? h).map part = (f.get? h).map part) (read : α → β) :
    (g.get? h).map (fun d => read (part d)) = (f.get? h).map fun d => read (part d) := by
  have kept := congrArg (Option.map read) same
  rwa [Option.map_map, Option.map_map] at kept

theorem map_of_changed {α : Type} {part : Entry → α} {change : Handle → Entry → Entry}
    (now : ∀ x, g.get? x = (f.get? x).map (change x)) (kept : ∀ x d, part (change x d) = part d)
    (x : Handle) : (g.get? x).map part = (f.get? x).map part := by
  rw [now, Option.map_map]
  congr 1
  funext d
  exact kept x d

/-! ### New places -/

theorem capacity_insert (f : Forest) (d : Entry) : (f.insert d).2.capacity = f.capacity + 1 := by
  simp only [capacity, insert, Array.size_push]

theorem ne_new_of_lt (inside : x.index < f.capacity) : x ≠ ⟨f.capacity⟩ := by
  rintro rfl
  exact Nat.lt_irrefl _ inside

theorem get?_insert_of_lt (inside : x.index < f.capacity) (d : Entry) :
    (f.insert d).2.get? x = f.get? x :=
  get?_insert_of_ne (ne_new_of_lt inside)

theorem get?_insert_of_found (found : f.get? h = some e) : (f.insert d).2.get? h = some e := by
  rw [get?_insert_of_lt (index_lt_of_get? found), found]

theorem cases_insert (found : (f.insert d).2.get? h = some e) :
    h = (f.insert d).1 ∧ e = d ∨ f.get? h = some e := by
  by_cases same : h = (f.insert d).1
  · rw [same, get?_insert_self] at found
    exact .inl ⟨same, (Option.some.inj found).symm⟩
  · rw [get?_insert_of_ne same] at found
    exact .inr found

/-! ### Places filled anew -/

theorem capacity_put (f : Forest) (h : Handle) (place : Option Entry) :
    (f.put h place).capacity = f.capacity := by
  simp only [capacity, put, Array.size_setIfInBounds]

theorem get?_put_of_ne (differ : x ≠ h) (place : Option Entry) :
    (f.put h place).get? x = f.get? x := by
  rw [get?_put, if_neg fun same => differ same.1]

theorem get?_put_self (found : f.get? h = some d) (place : Option Entry) :
    (f.put h place).get? h = place := by
  rw [get?_put, if_pos ⟨rfl, index_lt_of_get? found⟩]

theorem get?_put_of_found (found : f.get? h = some d) (place : Option Entry) (x : Handle) :
    (f.put h place).get? x = if x = h then place else f.get? x := by
  split
  case isTrue same => rw [same, get?_put_self found]
  case isFalse differ => rw [get?_put_of_ne differ]

theorem map_get?_put {α : Type} {part : Entry → α} (found : f.get? h = some d)
    (same : part e = part d) (x : Handle) :
    ((f.put h (some e)).get? x).map part = (f.get? x).map part := by
  rw [get?_put_of_found found]
  split
  case isTrue top => rw [top, found, Option.map_some, Option.map_some, same]
  case isFalse => rfl

theorem exists_modify (found : f.get? h = some d) (change : Entry → Entry) :
    ∃ g, f.modify h change = .ok g ∧ g.capacity = f.capacity ∧
      ∀ x, g.get? x = (f.get? x).map fun d => if x = h then change d else d := by
  refine ⟨f.put h (some (change d)), modify_eq_ok_iff.2 ⟨d, found, rfl⟩, capacity_put .., fun x => ?_⟩
  rw [get?_put_of_found found]
  by_cases same : x = h
  · rw [same, if_pos rfl, found, Option.map_some, if_pos rfl]
  · simp only [same, if_false, Option.map_id']

end DataBinding.Forest
