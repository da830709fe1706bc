import DataBinding.Definition.Basic

/-!
# Forests of definitions

A forest keeps its definitions in numbered places. A new definition takes a new place and a removed
one leaves its place empty for good, so a handle always means the same definition or none. Using a
handle without a definition is a fault, as is a walk that goes deeper than the forest has places,
which can only happen when links run in a circle.
-/

namespace DataBinding

structure Forest where
  places : Array (Option (Definition Forest)) := #[]

/-- A definition in a forest. -/
abbrev Entry := Definition Forest

/-- Use of a handle that leads nowhere. -/
inductive Fault where
  | missing (h : Handle)
  | endless (h : Handle)
deriving DecidableEq

namespace Fault

def message : Fault → String
  | .missing h => "definition " ++ h.text ++ " is not part of this tree"
  | .endless h => "links from definition " ++ h.text ++ " run in a circle"

end Fault

namespace Forest

def empty : Forest :=
  {}

instance : Inhabited Forest :=
  ⟨empty⟩

/-- Number of places, empty ones included. -/
def capacity (f : Forest) : Nat :=
  f.places.size

def get? (f : Forest) (h : Handle) : Option Entry :=
  (f.places[h.index]?).join

def contains (f : Forest) (h : Handle) : Bool :=
  (f.get? h).isSome

/-- The definition that a handle leads to. -/
def find (f : Forest) (h : Handle) : Except Fault Entry :=
  match f.get? h with
  | some d => .ok d
  | none => .error (.missing h)

/-- Handles of all definitions in the order in which they were added. -/
def handles (f : Forest) : List Handle :=
  ((List.range f.capacity).map Handle.mk).filter f.contains

def size (f : Forest) : Nat :=
  f.handles.length

/-- The first definition without an owner. -/
def root? (f : Forest) : Option Handle :=
  f.handles.find? fun h => (f.get? h).any fun d => d.parent.isNone

/-- Adds a definition in a new place. -/
def insert (f : Forest) (d : Entry) : Handle × Forest :=
  (⟨f.capacity⟩, ⟨f.places.push (some d)⟩)

/-- Fills or empties a place. -/
def put (f : Forest) (h : Handle) (place : Option Entry) : Forest :=
  ⟨f.places.setIfInBounds h.index place⟩

/-- Changes one definition. -/
def modify (f : Forest) (h : Handle) (change : Entry → Entry) : Except Fault Forest :=
  match f.get? h with
  | some d => .ok (f.put h (some (change d)))
  | none => .error (.missing h)

/-- Changes several definitions, one after the other. -/
def modifyAll (f : Forest) (hs : List Handle) (change : Entry → Entry) : Except Fault Forest :=
  hs.foldlM (fun f h => f.modify h change) f

/-- Empties a place. -/
def vacate (f : Forest) (h : Handle) : Forest :=
  f.put h none

@[simp] theorem get?_empty (h : Handle) : empty.get? h = none := by
  simp [empty, get?]

theorem find_eq_ok_iff {f : Forest} {h : Handle} {d : Entry} :
    f.find h = .ok d ↔ f.get? h = some d := by
  unfold find
  split <;> simp_all

@[simp] theorem get?_insert_self (f : Forest) (d : Entry) :
    (f.insert d).2.get? (f.insert d).1 = some d := by
  simp [insert, get?, capacity]

/-- A new definition takes a place of its own. -/
theorem get?_insert_of_ne {f : Forest} {d : Entry} {h : Handle} (differs : h ≠ (f.insert d).1) :
    (f.insert d).2.get? h = f.get? h := by
  have index : h.index ≠ f.places.size := fun equal => differs (by
    cases h
    exact congrArg Handle.mk equal)
  simp [insert, get?, Array.getElem?_push, index]

theorem get?_of_capacity_le {f : Forest} {h : Handle} (beyond : f.capacity ≤ h.index) :
    f.get? h = none := by
  simp [get?, Array.getElem?_eq_none beyond]

theorem index_lt_of_get? {f : Forest} {h : Handle} {d : Entry} (found : f.get? h = some d) :
    h.index < f.capacity := by
  by_cases inside : h.index < f.capacity
  · exact inside
  · rw [get?_of_capacity_le (Nat.le_of_not_lt inside)] at found
    cases found

theorem get?_put (f : Forest) (h other : Handle) (place : Option Entry) :
    (f.put h place).get? other =
      if other = h ∧ h.index < f.capacity then place else f.get? other := by
  by_cases same : other = h
  · subst same
    by_cases inside : other.index < f.places.size <;> simp [put, get?, capacity, inside]
  · have index : h.index ≠ other.index := fun equal => same (by
      cases h
      cases other
      exact congrArg Handle.mk equal.symm)
    simp [put, get?, Array.getElem?_setIfInBounds_ne index, same]

theorem modify_eq_ok_iff {f g : Forest} {h : Handle} {change : Entry → Entry} :
    f.modify h change = .ok g ↔ ∃ d, f.get? h = some d ∧ f.put h (some (change d)) = g := by
  unfold modify
  cases f.get? h <;> simp

theorem get?_modify {f g : Forest} {h : Handle} {change : Entry → Entry}
    (changed : f.modify h change = .ok g) (other : Handle) :
    g.get? other = if other = h then (f.get? h).map change else f.get? other := by
  obtain ⟨d, found, rfl⟩ := modify_eq_ok_iff.1 changed
  simp [get?_put, index_lt_of_get? found, found]

theorem get?_vacate (f : Forest) (h other : Handle) :
    (f.vacate h).get? other = if other = h then none else f.get? other := by
  rw [vacate, get?_put]
  by_cases same : other = h
  · by_cases inside : h.index < f.capacity
    · simp [same, inside]
    · simp [same, inside, get?_of_capacity_le (Nat.le_of_not_lt inside)]
  · simp [same]

end Forest

end DataBinding
