import DataBinding.Definition.Content
import DataBinding.Json.Basic
import DataBinding.Path.Scope

/-!
# Definitions

A definition as it is kept in a forest: what was authored, and what the forest keeps with it. The
links to other definitions are handles, the observer is a name that the host resolves, and a bundle
holds a forest of its own. The forest type is a parameter because forests are made of definitions.
-/

namespace DataBinding

/-- Name of an observer. Two observers are the same when their names are. -/
structure ObserverId where
  index : Nat
deriving DecidableEq, Inhabited

/-- What it takes to resolve a definition again: the definition, the data it reads, and for a part
of that definition its identity. -/
structure Bundle (Forest : Type) where
  definition : Forest
  data : Data
  constraint : Option String := none

structure Definition (Forest : Type) where
  /-- Identity given by the producer. -/
  key : Option String := none
  content : Content
  hidden : Bool := false
  hideIfEmpty : Bool := false
  hideIfUndefined : Bool := false
  /-- Names of validators that the observer knows. -/
  validators : List String := []
  /-- The data path as authored. -/
  dataPath : String := ""
  /-- The anchored parts of the data path. -/
  paths : List String := []
  parent : Option Handle := none
  children : List Handle := []
  edited : Bool := false
  observer : Option ObserverId := none
  bundle : Option (Bundle Forest) := none
deriving Inhabited

namespace Definition

variable {F : Type}

/-- A definition on its own, its paths scoped by themselves. -/
def make (content : Content) (dataPath : String) : Definition F :=
  { content, dataPath, paths := Path.normalize dataPath none }

def kind (d : Definition F) : Kind :=
  d.content.kind

def isContainer (d : Definition F) : Bool :=
  d.content.isContainer

def hasDataPath (d : Definition F) : Bool :=
  !Text.allBlank d.dataPath

/-- The path that definitions below are scoped under. -/
def scope (d : Definition F) : Option String :=
  d.paths.head?

/-- Everything owned: the children in order, then who plays a role. -/
def owned (d : Definition F) : List (Option Role × Handle) :=
  d.children.map (none, ·) ++ d.content.holders.map fun (role, h) => (some role, h)

/-- Lets go of one owned definition. -/
def release (h : Handle) (d : Definition F) : Definition F :=
  { d with
    children := d.children.filter (· ≠ h)
    content := d.content.mapHolders fun holder => if holder = h then none else some holder }

/-- The same definition with its links carried to other places; those without a new place are
cut. -/
def relocate (place : Handle → Option Handle) (d : Definition F) : Definition F :=
  { d with
    parent := d.parent.bind place
    children := d.children.filterMap place
    content := d.content.mapHolders place }

end Definition

end DataBinding
