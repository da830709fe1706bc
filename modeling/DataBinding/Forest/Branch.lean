import DataBinding.Forest.Basic

/-!
# Branches

A branch is a definition together with everything it owns, as a tree. It is read off the links of
the forest once; whatever is asked about a whole branch is then a fold over that tree.
-/

namespace DataBinding

/-- A definition with the role it plays for its owner and the branches it owns. -/
inductive Branch where
  | mk (role : Option Role) (handle : Handle) (definition : Entry) (owned : List Branch)

namespace Branch

def role : Branch → Option Role
  | .mk role .. => role

def handle : Branch → Handle
  | .mk _ handle .. => handle

def definition : Branch → Entry
  | .mk _ _ definition _ => definition

def owned : Branch → List Branch
  | .mk _ _ _ owned => owned

/-- What the owned branches of a definition come to, each with its role. -/
abbrev Below (α : Type) := List (Option Role × α)

mutual

/-- Combines a definition with the results of what it owns, from the leaves up. -/
def fold {α : Type} (step : Option Role → Handle → Entry → Below α → α) : Branch → α
  | .mk role handle definition owned => step role handle definition (foldOwned step owned)

def foldOwned {α : Type} (step : Option Role → Handle → Entry → Below α → α) :
    List Branch → Below α
  | [] => []
  | branch :: rest => (branch.role, fold step branch) :: foldOwned step rest

end

theorem foldOwned_eq_map {α : Type} (step : Option Role → Handle → Entry → Below α → α)
    (owned : List Branch) :
    foldOwned step owned = owned.map fun branch => (branch.role, fold step branch) := by
  induction owned with
  | nil => rfl
  | cons branch rest ih => rw [foldOwned, ih, List.map_cons]

theorem fold_mk {α : Type} (step : Option Role → Handle → Entry → Below α → α)
    (role : Option Role) (h : Handle) (d : Entry) (owned : List Branch) :
    fold step (.mk role h d owned) =
      step role h d (owned.map fun branch => (branch.role, fold step branch)) := by
  rw [fold, foldOwned_eq_map]

/-- Results of the children alone. -/
def Below.children {α : Type} (below : Below α) : List α :=
  below.filterMap fun (role, result) => if role.isNone then some result else none

/-- Result of the one who plays a role. -/
def Below.holder? {α : Type} (below : Below α) (role : Role) : Option α :=
  (below.find? fun (r, _) => r = some role).map (·.2)

/-- The definition, then what it owns, each before what it owns in turn. -/
def handles (branch : Branch) : List Handle :=
  branch.fold fun _ h _ below => h :: below.flatMap (·.2)

theorem handles_mk (role : Option Role) (h : Handle) (d : Entry) (owned : List Branch) :
    handles (.mk role h d owned) = h :: owned.flatMap handles := by
  rw [handles, fold_mk, List.flatMap_map]
  rfl

end Branch

namespace Forest

/-- The branch at a definition, as long as its depth stays within a bound. -/
def branchWithin (f : Forest) : Nat → Option Role → Handle → Except Fault Branch
  | 0, _, h => .error (.endless h)
  | depth + 1, role, h => do
    let d ← f.find h
    let owned ← d.owned.mapM fun (role, h) => f.branchWithin depth role h
    return .mk role h d owned

/-- The branch at a definition. No branch of a forest is deeper than the number of its places. -/
def branch (f : Forest) (h : Handle) : Except Fault Branch :=
  f.branchWithin (f.capacity + 1) none h

/-- A definition and everything it owns, owners first. -/
def subtree (f : Forest) (h : Handle) : Except Fault (List Handle) :=
  (f.branch h).map Branch.handles

/-- Handles of everything that a definition owns itself. -/
def owned (f : Forest) (h : Handle) : Except Fault (List Handle) :=
  (f.find h).map fun d => d.owned.map (·.2)

end Forest

end DataBinding
