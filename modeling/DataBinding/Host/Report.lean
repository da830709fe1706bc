import DataBinding.Binding.WriteBack
import DataBinding.Host.Observer

/-!
# Reports

A report lists a branch, one line for each definition, indented by depth: kind, label, identity,
paths with what they read, and marks for hidden and edited definitions.
-/

namespace DataBinding

/-- What a report says about one definition. -/
structure ReportLine where
  depth : Nat
  role : Option Role
  kind : Kind
  /-- The translated label, of definitions that have one. -/
  label : Option String
  identity : String
  /-- The paths and what they read, of definitions with a data path. -/
  bound : Option (List String × List Reading)
  hidden : Bool
  edited : Bool

namespace ReportLine

def indentation (line : ReportLine) : String :=
  String.join (List.replicate line.depth "  ")

def roleText (line : ReportLine) : String :=
  match line.role with
  | some role => role.name ++ ": "
  | none => ""

def labelText (line : ReportLine) : String :=
  match line.label with
  | some label => " " ++ Text.quote label
  | none => ""

def boundText (line : ReportLine) : String :=
  match line.bound with
  | some (paths, readings) =>
    " " ++ String.intercalate "," paths ++ " -> " ++
      String.intercalate ", " (readings.map Reading.text)
  | none => ""

def marks (line : ReportLine) : String :=
  (if line.hidden then " (hidden)" else "") ++ (if line.edited then " *" else "")

def text (line : ReportLine) : String :=
  line.indentation ++ line.roleText ++ line.kind.name ++ line.labelText ++
    " [" ++ line.identity ++ "]" ++ line.boundText ++ line.marks

/-- The line as seen from one step further up. -/
def deeper (line : ReportLine) : ReportLine :=
  { line with depth := line.depth + 1 }

end ReportLine

namespace Forest

variable {m : Type → Type}

/-- The label of a definition as its observer translates it; an empty one is left out. -/
def translatedLabel (f : Forest) (observers : Observers m) (h : Handle) (d : Entry) :
    Except Fault (Option String) := do
  match d.content.label?.filter (· ≠ "") with
  | some label => return some (← f.translate observers h label)
  | none => return none

/-- The line of one definition, not indented. -/
def reportLine (f : Forest) (observers : Observers m) (data : Data) (role : Option Role)
    (h : Handle) (d : Entry) : Except Fault ReportLine := do
  let label ← f.translatedLabel observers h d
  let identity ← f.identity h
  let hidden ← f.isHidden h data
  return {
    depth := 0
    role
    kind := d.kind
    label
    identity
    bound := if d.hasDataPath then some (d.paths, d.readings data) else none
    hidden
    edited := d.edited }

/-- The lines of a branch; the first one stands for its top. -/
def branchReport (f : Forest) (observers : Observers m) (data : Data) (branch : Branch) :
    Except Fault (List ReportLine) :=
  branch.fold fun role h d below => do
    let line ← f.reportLine observers data role h d
    let lines ← below.mapM (·.2)
    return line :: lines.flatten.map ReportLine.deeper

def report (f : Forest) (observers : Observers m) (h : Handle) (data : Data) :
    Except Fault (List ReportLine) := do
  f.branchReport observers data (← f.branch h)

end Forest

end DataBinding
