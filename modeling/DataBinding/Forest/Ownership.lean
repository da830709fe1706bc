import DataBinding.Forest.Branch
import DataBinding.Forest.Error
import DataBinding.Forest.Lineage

/-!
# Ownership

Giving definitions an owner, scoping their paths under it, and removing them. A change that is
refused yields no forest, so the old one stays as it was.
-/

namespace DataBinding.Forest

/-- The path that a definition is scoped under: the first path of its owner. -/
def scopeAbove (f : Forest) (d : Entry) : Except Fault (Option String) :=
  match d.parent with
  | none => .ok none
  | some parent => (f.find parent).map (·.scope)

/-- Scopes the data path of one definition again. -/
def rescopeOne (f : Forest) (h : Handle) : Except Fault Forest := do
  let d ← f.find h
  let above ← f.scopeAbove d
  f.modify h fun d => { d with paths := Path.normalize d.dataPath above }

/-- Scopes the data paths of a definition and of all it owns, owners first. -/
def rescope (f : Forest) (h : Handle) : Except Fault Forest := do
  (← f.subtree h).foldlM rescopeOne f

def check (f : Forest) (h : Handle) : Except DefinitionError Unit :=
  if f.contains h then .ok () else .error (.unknownDefinition h)

/-- No definition comes to own itself. -/
def rejectCycle (f : Forest) (child owner : Handle) : Except DefinitionError Unit := do
  if child ∈ (← f.lineage owner) then throw (.cyclicParent child owner)

/-- Empties the places of a definition and of all it owns. -/
def discard (f : Forest) (h : Handle) : Except Fault Forest := do
  return (← f.subtree h).foldl vacate f

/-- Makes a definition the last child of a container. The same owner again changes nothing. -/
def setParent (f : Forest) (child parent : Handle) : Except DefinitionError Forest := do
  f.check child
  f.check parent
  match (← f.find child).parent with
  | some current =>
    if current = parent then return f
    throw (.alreadyParented child current parent)
  | none =>
    if !(← f.find parent).isContainer then throw (.notAContainer parent)
    f.rejectCycle child parent
    let f ← f.modify child fun d => { d with parent := some parent }
    let f ← f.modify parent fun d => { d with children := d.children ++ [child] }
    f.rescope child

/-- Gives a role to a definition. Who played it before is removed. -/
def attach (f : Forest) (owner : Handle) (role : Role) (child : Handle) :
    Except DefinitionError Forest := do
  f.check owner
  f.check child
  match (← f.find child).parent with
  | some current => throw (.alreadyParented child current owner)
  | none =>
    f.rejectCycle child owner
    let content := (← f.find owner).content
    match content.setHolder? role (some child) with
    | none => throw (.noSuchRole owner role)
    | some renewed =>
      let f ← f.modify owner fun d => { d with content := renewed }
      let f ← match content.holder? role with
        | some previous => f.discard previous
        | none => pure f
      let f ← f.modify child fun d => { d with parent := some owner }
      f.rescope child

/-- Replaces a raw data path. -/
def setDataPath (f : Forest) (h : Handle) (dataPath : String) : Except Fault Forest := do
  let f ← f.modify h fun d => { d with dataPath }
  f.rescope h

/-- Removes a definition with all it owns; its owner lets go of it. Removing what is not there
changes nothing. -/
def remove (f : Forest) (h : Handle) : Except Fault Forest :=
  match f.get? h with
  | none => .ok f
  | some d => do
    let f ← match d.parent with
      | some owner => f.modify owner (·.release h)
      | none => pure f
    f.discard h

end DataBinding.Forest
