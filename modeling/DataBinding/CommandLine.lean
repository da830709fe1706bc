import DataBinding.Binding.WriteBack
import DataBinding.Host.Report
import DataBinding.Host.Validation

/-!
# The command line

One run reads a definition and its data, may write one value through a definition, and then prints
the report, the state of edits, the issues and a bundle as asked for. A run is a function of its
options and of the two texts; what was printed before a failure stays printed.
-/

namespace DataBinding.CommandLine

structure Options where
  definitionPath : String
  dataPath : String
  /-- Pairs `PRODUCER=KIND`. -/
  aliases : List String := []
  /-- A pair `IDENTITY=JSON`. -/
  assign : Option String := none
  bundle : Option String := none
  validate : Bool := false

/-- A line of output, or several for a bundle. -/
inductive Line where
  | decoded (count : Nat)
  | assignment (identity : String) (outcome : WriteOutcome)
  | report (line : ReportLine)
  | pendingChanges (pending : Bool)
  | noIssues
  | issueCount (count : Nat)
  | issue (found : Issue)
  | bundleTitle (identity : String)
  | bundle (json : Json)
  | total
  | blank

def outcomeText : WriteOutcome → String
  | .written => "Written"
  | .unchanged => "Unchanged"
  | .skipped (.skippedWrite definition obstacle) =>
    "Skipped(AssignmentMismatch \x7b definition: " ++ Text.quote definition ++ ", reason: " ++
      Text.quote obstacle.message ++ " \x7d)"
  | .skipped diagnostic => "Skipped(" ++ diagnostic.message ++ ")"

namespace Line

/-- Timed lines end with how long the work took, which is left out here. -/
def isTimed : Line → Bool
  | .decoded _ | .total => true
  | _ => false

def text : Line → String
  | .decoded count => "Decoded " ++ Nat.repr count ++ " definitions in"
  | .assignment identity outcome => "Assignment to '" ++ identity ++ "': " ++ outcomeText outcome
  | .report line => line.text
  | .pendingChanges pending => "Pending changes: " ++ (if pending then "yes" else "no")
  | .noIssues => "Validation: no issues"
  | .issueCount count => "Validation: " ++ Nat.repr count ++ " issue(s)"
  | .issue found => "  - [" ++ found.definition ++ "] " ++ found.message
  | .bundleTitle identity => "Resolution bundle for '" ++ identity ++ "':"
  | .bundle json => json.indented
  | .total => "Total Execution:"
  | .blank => ""

end Line

/-- What was printed, and the message of the failure that ended the run, if one did. -/
structure Outcome where
  lines : List Line
  failure : Option String

/-- A run under way: it prints, and it may fail with a message. -/
abbrev Run := ExceptT String (StateM (List Line))

def print (lines : List Line) : Run Unit :=
  modify (· ++ lines)

def orFail {α : Type} (result : Except String α) : Run α :=
  match result with
  | .ok a => pure a
  | .error message => throw message

/-- Faults do not happen in a forest that was planted. -/
def orFault {α : Type} (result : Except Fault α) : Run α :=
  orFail (result.mapError Fault.message)

def addAlias (v : Vocabulary) (pair : String) : Except String Vocabulary :=
  match Text.splitFirst? '=' pair with
  | some (producer, kind) => .ok (v.add (Text.trim producer) (Text.trim kind))
  | none => .error ("Invalid alias '" ++ pair ++ "', expected PRODUCER=ENGINE")

def findDefinition (f : Forest) (identity : String) : Run Handle := do
  match ← orFault (f.withIdentity? identity) with
  | some h => return h
  | none => throw ("No definition with identity '" ++ identity ++ "'")

/-- Definition and data as read from their files. -/
structure Loaded where
  forest : Forest
  root : Handle
  data : Data

def load (options : Options) (definitionText dataText : Except String String) : Run Loaded := do
  let definition ← orFail <| definitionText.mapError fun cause =>
    "Failed to read definition file '" ++ options.definitionPath ++ "': " ++ cause
  let dataSource ← orFail <| dataText.mapError fun cause =>
    "Failed to read data file '" ++ options.dataPath ++ "': " ++ cause
  let json ← orFail <| (Json.read dataSource).mapError fun cause =>
    "Failed to parse data JSON: " ++ cause.message
  let vocabulary ← orFail (options.aliases.foldlM addAlias {})
  let forest ← orFail <| (Forest.ofText vocabulary definition).mapError fun cause =>
    "Failed to decode definition: " ++ cause.message
  match forest.root? with
  | none => throw "Definition file produced an empty tree"
  | some root => return ⟨forest, root, Data.ofJson json⟩

/-- Writes the value of an `IDENTITY=JSON` pair. -/
def runAssign (loaded : Loaded) (pair : String) : Run Loaded := do
  match Text.splitFirst? '=' pair with
  | none => throw ("Invalid assignment '" ++ pair ++ "', expected KEY=JSON")
  | some (key, source) =>
    let target ← findDefinition loaded.forest (Text.trim key)
    let json ← orFail <| (Json.read source).mapError fun cause =>
      "Invalid JSON value '" ++ source ++ "': " ++ cause.message
    let assigned ← orFault (loaded.forest.assign target loaded.data (.ofJson json))
    print [.assignment (Text.trim key) assigned.outcome]
    return { loaded with forest := assigned.forest, data := assigned.data }

/-- There are no observers on the command line. -/
def noObservers : Observers Id :=
  fun _ => {}

def runReport (loaded : Loaded) : Run Unit := do
  let lines ← orFault (loaded.forest.report noObservers loaded.root loaded.data)
  let pending ← orFault (loaded.forest.hasEdits loaded.root)
  print (.blank :: lines.map .report ++ [.blank, .pendingChanges pending])

def issueLines : List Issue → List Line
  | [] => [.noIssues]
  | issues => .issueCount issues.length :: issues.map .issue

def runValidation (loaded : Loaded) : Run Unit := do
  print (issueLines (← orFault
    (loaded.forest.validate noObservers Checks.standard loaded.root loaded.data)))

/-- The bundle of a definition, or one made of the definition and the data it reads. -/
def bundleOrRequest (f : Forest) (h : Handle) (data : Data) : Except Fault (Bundle Forest) := do
  match ← f.bundleFor h with
  | some b => return b
  | none =>
    return (← f.request h data).bundle

def runBundle (loaded : Loaded) (identity : String) : Run Unit := do
  let target ← findDefinition loaded.forest identity
  let bundle ← orFault (bundleOrRequest loaded.forest target loaded.data)
  print [.blank, .bundleTitle identity, .bundle (← orFault bundle.toJson)]

/-- What comes before the report: the texts are read, and what was asked for is written. -/
def prepare (options : Options) (definitionText dataText : Except String String) : Run Loaded := do
  let loaded ← load options definitionText dataText
  print [.decoded loaded.forest.size]
  match options.assign with
  | some pair => runAssign loaded pair
  | none => return loaded

/-- What comes after the report. -/
def finish (options : Options) (loaded : Loaded) : Run Unit := do
  if options.validate then runValidation loaded
  match options.bundle with
  | some identity => runBundle loaded identity
  | none => pure ()
  print [.blank, .total]

def runAll (options : Options) (definitionText dataText : Except String String) : Run Unit := do
  let loaded ← prepare options definitionText dataText
  runReport loaded
  finish options loaded

/-- The outcome of a run, given the texts of the two files or why they could not be read. -/
def run (options : Options) (definitionText dataText : Except String String) : Outcome :=
  match (runAll options definitionText dataText).run.run [] with
  | (.ok (), lines) => ⟨lines, none⟩
  | (.error message, lines) => ⟨lines, some message⟩

end DataBinding.CommandLine
