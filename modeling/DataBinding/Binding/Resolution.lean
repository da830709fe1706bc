import DataBinding.Binding.Diagnostic
import DataBinding.Forest.Branch
import DataBinding.Json.Printer
import DataBinding.Value.Text

/-!
# Resolving paths

Each anchored path yields one reading, in order. A path that leads to no element reads as null and
is reported; a path that leads into an element reads as whatever is there.
-/

namespace DataBinding

/-- What a path reads: a value, or an element as a whole. -/
inductive Reading where
  | value (v : Value)
  | element (json : Json)
deriving Inhabited

namespace Reading

def null : Reading :=
  .value .null

def isUndefined : Reading → Bool
  | .value v => v.isUndefined
  | .element _ => false

/-- Nullish or of length zero; a whole element counts by its length alone. -/
def isEmpty : Reading → Bool
  | .value v => v.isEmpty
  | .element json => json.length? = some 0

def toValue : Reading → Value
  | .value v => v
  | .element json => .ofJson json

def same (a b : Reading) : Bool :=
  a.toValue.same b.toValue

def text : Reading → String
  | .value v => v.text
  | .element json => json.compact

end Reading

/-- The reading of one path, and what is to be reported about it. -/
structure Resolved where
  reading : Reading
  diagnostic : Option Diagnostic := none

namespace Data

/-- An element that is there, or why there is none. -/
def elementAt (data : Data) (index : UInt64) : Except PathProblem Json :=
  match data[index.toNat]? with
  | some (some json) => .ok json
  | some none => .error (.emptyElement index)
  | none => .error (.outOfRange index)

def readingOf (inside : String) (json : Json) : Reading :=
  if inside = "" then .element json else .value (json.valueAt inside)

/-- The reading at an address. An address of everything has no place among several paths. -/
def readAddress (data : Data) : Address → Except PathProblem Reading
  | .everything | .skip => .ok (.value .undefined)
  | .null => .ok .null
  | .element index inside => (data.elementAt index).map (readingOf inside)

def readPath (data : Data) (path : String) : Except PathProblem Reading :=
  match Address.parse path with
  | .ok address => data.readAddress address
  | .error cause => .error (.address cause)

def resolve (data : Data) (path : String) : Resolved :=
  match data.readPath path with
  | .ok reading => ⟨reading, none⟩
  | .error problem => ⟨.null, some (.unresolvedPath path data.length problem)⟩

/-- An element without any path: itself, or null when it is missing. -/
def whole : Option Json → Resolved
  | some json => ⟨.element json, none⟩
  | none => ⟨.null, none⟩

/-- Without paths every element is read as a whole. -/
def resolveAll (data : Data) (paths : List String) : List Resolved :=
  if paths.isEmpty then data.map whole else paths.map data.resolve

def readings (data : Data) (paths : List String) : List Reading :=
  (data.resolveAll paths).map (·.reading)

def diagnostics (data : Data) (paths : List String) : List Diagnostic :=
  (data.resolveAll paths).filterMap (·.diagnostic)

end Data

namespace Definition

variable {F : Type}

def readings (d : Definition F) (data : Data) : List Reading :=
  data.readings d.paths

/-- The first reading, null without any. -/
def firstReading (d : Definition F) (data : Data) : Reading :=
  (d.readings data).head?.getD .null

end Definition

namespace Forest

def readings (f : Forest) (h : Handle) (data : Data) : Except Fault (List Reading) :=
  (f.find h).map (·.readings data)

def firstReading (f : Forest) (h : Handle) (data : Data) : Except Fault Reading :=
  (f.find h).map (·.firstReading data)

/-- What is to be reported when a definition is resolved. -/
def diagnostics (f : Forest) (h : Handle) (data : Data) : Except Fault (List Diagnostic) :=
  (f.find h).map fun d => data.diagnostics d.paths

end Forest

/-! ### Visibility

A definition is hidden when it says so, when one of its readings is empty or undefined and it is to
be hidden then, or when it is a container that hides when empty and no child of it is visible. Only
children count for that, not those who play a role.
-/

namespace Definition

variable {F : Type}

/-- Some reading calls for hiding. -/
def trips (d : Definition F) (data : Data) : Bool :=
  d.hasDataPath && (d.readings data).any fun reading =>
    (d.hideIfEmpty && reading.isEmpty) || (d.hideIfUndefined && reading.isUndefined)

end Definition

def Branch.isHidden (data : Data) (branch : Branch) : Bool :=
  branch.fold fun _ _ d below =>
    d.hidden || d.trips data || (d.isContainer && d.hideIfEmpty && below.children.all id)

namespace Forest

def isHidden (f : Forest) (h : Handle) (data : Data) : Except Fault Bool :=
  (f.branch h).map (·.isHidden data)

end Forest

end DataBinding
