import DataBinding.Binding.Resolution
import DataBinding.Forest.Lineage

/-!
# Writing back

A value is written through the single path of a definition, and only into a container that is
already there. Blank values count as equal, so an empty field echoed back is not an edit.

A definition remembers that a value was written through it. The mark stays on that definition;
whoever owns it sees the edit by looking through its branch.
-/

namespace DataBinding

/-! ### Edits -/

def Branch.isEdited (branch : Branch) : Bool :=
  branch.fold fun _ _ d below => d.edited || below.any (·.2)

namespace Forest

def markEdited (f : Forest) (h : Handle) : Except Fault Forest :=
  f.modify h fun d => { d with edited := true }

/-- Whether a definition or anything it owns has been edited. -/
def hasEdits (f : Forest) (h : Handle) : Except Fault Bool :=
  (f.branch h).map Branch.isEdited

/-- Forgets the edits of a definition and of all it owns. -/
def clearEdits (f : Forest) (h : Handle) : Except Fault Forest := do
  f.modifyAll (← f.subtree h) fun d => { d with edited := false }

end Forest

/-! ### Writes -/

inductive WriteOutcome where
  /-- The value was written and the definition marked as edited. -/
  | written
  /-- Old and new value are the same once blanks are reduced. -/
  | unchanged
  /-- Nothing was written. -/
  | skipped (diagnostic : Diagnostic)
deriving DecidableEq

/-- What a write to the data comes to. -/
inductive WriteResult where
  | obstacle (cause : WriteObstacle)
  | same
  | done
deriving DecidableEq

/-- A write to the data: what it came to, and the data that it left behind. -/
structure DataWrite where
  result : WriteResult
  data : Data

/-- Where the only path of a definition leads. -/
def writeTarget : List String → Except WriteObstacle (UInt64 × String)
  | [path] =>
    match Address.parse path with
    | .ok (.element index inside) =>
      if inside = "" then .error (.wholeElement index) else .ok (index, inside)
    | .ok _ => .error (.notIndexed path)
    | .error cause => .error (.address cause)
  | paths => .error (.pathCount paths.length)

namespace Data

def elementFor (data : Data) (index : UInt64) : Except WriteObstacle Json :=
  match data.elementAt index with
  | .ok json => .ok json
  | .error _ => .error (.noElement index data.length)

/-- Writes inside an element. -/
def writeInside (data : Data) (index : UInt64) (inside : String) (json : Json) (v : Value) :
    DataWrite :=
  let holder := json.holder inside
  if !holder.value.isContainer then ⟨.obstacle (.noContainer inside holder.last), data⟩
  else if (json.valueAt inside).blankReduced.same v.blankReduced then ⟨.same, data⟩
  else
    let rewrite := json.assign inside v
    let result := match rewrite.failure with
      | none => .done
      | some cause => .obstacle (.refused cause)
    ⟨result, data.set index.toNat (some rewrite.json)⟩

def write (data : Data) (paths : List String) (v : Value) : DataWrite :=
  match writeTarget paths with
  | .error cause => ⟨.obstacle cause, data⟩
  | .ok (index, inside) =>
    match data.elementFor index with
    | .error cause => ⟨.obstacle cause, data⟩
    | .ok json => data.writeInside index inside json v

end Data

/-- A write through a definition: its outcome with the forest and the data afterwards. -/
structure Assigned where
  outcome : WriteOutcome
  forest : Forest
  data : Data

namespace Forest

def assign (f : Forest) (h : Handle) (data : Data) (v : Value) : Except Fault Assigned := do
  let d ← f.find h
  let write := data.write d.paths v
  match write.result with
  | .obstacle cause =>
    return ⟨.skipped (.skippedWrite (← f.identity h) cause), f, write.data⟩
  | .same => return ⟨.unchanged, f, write.data⟩
  | .done => return ⟨.written, ← f.markEdited h, write.data⟩

end Forest

end DataBinding
