import DataBinding.Forest.Ownership

/-!
# Copies, observers and grafts

A branch is copied into fresh places, owners first, with its links carried along and those that lead
out of the branch cut. A snapshot is a copy into a forest of its own that reads the same data
without its former owners.

An observer is handed to a whole branch, and hears about it once afterwards. What an observer should
hear is returned as notices, each with the forest as it then was, for the host to deliver in order.
A graft is a copy of another forest placed under a container; it takes over the observer found
there.
-/

namespace DataBinding

namespace Forest

/-! ### Copies -/

/-- New places of the definitions in `order`, from `start` on. -/
def placeFrom (start : Nat) (order : List Handle) (h : Handle) : Option Handle :=
  (order.idxOf? h).map fun k => ⟨start + k⟩

/-- Adds copies of the given definitions of another forest, in order. -/
def addCopies (f source : Forest) (order : List Handle) : Except Fault Forest := do
  let copies ← order.mapM fun h => do
    return some ((← source.find h).relocate (placeFrom f.capacity order))
  return ⟨f.places ++ copies.toArray⟩

/-- Copies a branch of another forest. The copy has no owner. -/
def copyBranch (f source : Forest) (h : Handle) : Except Fault (Handle × Forest) := do
  return (⟨f.capacity⟩, ← f.addCopies source (← source.subtree h))

/-- Takes away what belongs to the host: observers and bundles. -/
def bare (f : Forest) : Forest :=
  ⟨f.places.map fun place => place.map fun d => { d with observer := none, bundle := none }⟩

/-- The anchored paths as the data path, so that it no longer depends on an owner. -/
def anchored (d : Entry) : Entry :=
  if d.hasDataPath then { d with dataPath := String.intercalate "," d.paths } else d

/-- A standalone copy of a branch. Its top keeps its anchored paths as its data path. -/
def extract (f : Forest) (h : Handle) : Except Fault Forest := do
  let (top, snapshot) ← empty.copyBranch f h
  snapshot.bare.modify top anchored

end Forest

/-! ### Observers and grafts -/

/-- Something that an observer is told. -/
inductive Notice where
  /-- It has been handed to a branch. -/
  | observing (observer : ObserverId) (forest : Forest) (handle : Handle)
  /-- A definition is being closed. -/
  | closing (observer : ObserverId) (forest : Forest) (handle : Handle)
  /-- A definition has been closed, its edits kept or discarded. -/
  | closed (observer : ObserverId) (forest : Forest) (handle : Handle) (discarded : Bool)

namespace Forest

/-- Hands an observer to a definition and to all it owns. -/
def setObserver (f : Forest) (h : Handle) (observer : ObserverId) :
    Except Fault (Forest × List Notice) := do
  let f ← f.modifyAll (← f.subtree h) fun d => { d with observer := some observer }
  return (f, [.observing observer f h])

/-- Result of grafting: the top of the copy, the forest, and what observers are told. -/
structure Grafted where
  handle : Handle
  forest : Forest
  notices : List Notice

/-- Copies the first branch of another forest to the end of a container. -/
def graft (f : Forest) (container : Handle) (other : Forest) : Except DefinitionError Grafted := do
  f.check container
  if !(← f.find container).isContainer then throw (.notAContainer container)
  match other.root? with
  | none => throw .nothingToGraft
  | some root =>
    let (top, f) ← f.copyBranch other root
    let f ← f.setParent top container
    match (← f.find container).observer with
    | none => return ⟨top, f, []⟩
    | some observer =>
      let (f, notices) ← f.setObserver top observer
      return ⟨top, f, notices⟩

/-- Result of replacing children. When a replacement fails the forest is what it was by then. -/
structure Replaced where
  forest : Forest
  notices : List Notice
  outcome : Except DefinitionError (List Handle)

/-- Grafts one forest after the other, up to the first that fails. -/
def graftAll (f : Forest) (container : Handle) : List Forest → Replaced
  | [] => ⟨f, [], .ok []⟩
  | other :: rest =>
    match f.graft container other with
    | .error e => ⟨f, [], .error e⟩
    | .ok grafted =>
      let after := graftAll grafted.forest container rest
      ⟨after.forest, grafted.notices ++ after.notices, after.outcome.map (grafted.handle :: ·)⟩

/-- Removes several definitions. -/
def removeAll (f : Forest) (hs : List Handle) : Except Fault Forest :=
  hs.foldlM remove f

/-- Drops the children of a container and grafts others in their place. -/
def replaceChildren (f : Forest) (container : Handle) (replacements : List Forest) : Replaced :=
  let cleared : Except DefinitionError Forest := do
    f.check container
    let d ← f.find container
    if !d.isContainer then throw (.notAContainer container)
    f.removeAll d.children
  match cleared with
  | .error e => ⟨f, [], .error e⟩
  | .ok f => f.graftAll container replacements

end Forest

end DataBinding
