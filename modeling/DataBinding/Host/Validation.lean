import DataBinding.Binding.Resolution
import DataBinding.Host.Observer

/-!
# Validation

Checks by kind run for every visible definition, followed by the validators that the definition
names and its observer knows. Hidden branches and the holders of possible values are left out.
-/

namespace DataBinding

/-- A rejected value, with the identity of the definition that rejects it. -/
structure Issue where
  definition : String
  message : String
deriving DecidableEq

/-- A check of the value behind a definition: the reason to reject it, if there is one. -/
abbrev Check := Forest → Handle → Data → Except Fault (Option String)

/-- Checks by kind, in the order in which they run. -/
structure Checks where
  table : List (Kind × Check) := []

namespace Checks

def empty : Checks :=
  {}

def add (checks : Checks) (kind : Kind) (check : Check) : Checks :=
  ⟨checks.table ++ [(kind, check)]⟩

def forKind (checks : Checks) (kind : Kind) : List Check :=
  checks.table.filterMap fun (k, check) => if k = kind then some check else none

/-- The entries of a kind are run in the order in which they were added. -/
theorem forKind_eq (checks : Checks) (kind : Kind) :
    checks.forKind kind = (checks.table.filter fun entry => entry.1 = kind).map Prod.snd := by
  rw [forKind]
  induction checks.table with
  | nil => rfl
  | cons entry rest ih => by_cases same : entry.1 = kind <;> simp [same, ih]

theorem forKind_add (checks : Checks) (kind other : Kind) (check : Check) :
    (checks.add other check).forKind kind =
      checks.forKind kind ++ if other = kind then [check] else [] := by
  rw [forKind_eq, forKind_eq, add, List.filter_append, List.map_append]
  by_cases same : other = kind <;> simp [same]

def requiredValue : Check := fun f h data => do
  let d ← f.find h
  if d.content.isRequired && (d.firstReading data).isEmpty then return some "A value is required"
  return none

def booleanValue : Check := fun f h data => do
  match (← f.firstReading h data).toValue with
  | .bool _ | .undefined | .null => return none
  | found => return some ("Expected a boolean, found " ++ found.text)

/-- An object offers its member named `value`, anything else offers itself. -/
def offers (v option : Value) : Bool :=
  match option with
  | .object members =>
    match Members.get? "value" members with
    | some offered => offered.same v
    | none => false
  | plain => plain.same v

/-- A value has to be among the possible values, when there is an array of them. -/
def listedValue : Check := fun f h data => do
  match (← f.find h).content.holder? .possibleValues with
  | none => return none
  | some holder =>
    match (← f.firstReading holder data).toValue with
    | .array options =>
      let v := (← f.firstReading h data).toValue
      if v.isNullish || options.any (offers v) then return none
      return some (v.text ++ " is not one of the possible values")
    | _ => return none

def standard : Checks :=
  empty
    |>.add .input requiredValue
    |>.add .dropdown requiredValue
    |>.add .dropdown listedValue
    |>.add .checkbox booleanValue

end Checks

namespace Forest

variable {m : Type → Type}

/-- Rejections by the checks of a kind. -/
def checkMessages (f : Forest) (h : Handle) (data : Data) (checks : List Check) :
    Except Fault (List String) := do
  return (← checks.mapM fun check => check f h data).filterMap id

/-- Rejections by the named validators that the observer knows. -/
def validatorMessages (f : Forest) (observers : Observers m) (h : Handle) (names : List String)
    (v : Value) : Except Fault (List String) := do
  return (← names.mapM fun name => f.validator observers h name).filterMap fun validator =>
    validator.bind fun reject => reject v

/-- The issues of one definition. -/
def ownIssues (f : Forest) (observers : Observers m) (checks : Checks) (h : Handle) (data : Data) :
    Except Fault (List Issue) := do
  let d ← f.find h
  let byKind ← f.checkMessages h data (checks.forKind d.kind)
  let byName ← f.validatorMessages observers h d.validators (d.firstReading data).toValue
  (byKind ++ byName).mapM fun message => do return ⟨← f.identity h, message⟩

/-- The issues of a branch. -/
def branchIssues (f : Forest) (observers : Observers m) (checks : Checks) (data : Data)
    (branch : Branch) : Except Fault (List Issue) :=
  branch.fold fun _ h _ below => do
    if ← f.isHidden h data then return []
    let own ← f.ownIssues observers checks h data
    let validated := below.filter fun (role, _) => role ≠ some .possibleValues
    return own ++ (← validated.mapM (·.2)).flatten

def validate (f : Forest) (observers : Observers m) (checks : Checks) (h : Handle) (data : Data) :
    Except Fault (List Issue) := do
  f.branchIssues observers checks data (← f.branch h)

end Forest

end DataBinding
