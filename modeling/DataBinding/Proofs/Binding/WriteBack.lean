import DataBinding.Binding.WriteBack
import DataBinding.Proofs.Forest.Reachable
import DataBinding.Proofs.Json.Write

/-!
# Written values

A write through a definition either leaves everything as it was or sets one place: it goes into a
container that the data already has, in the one element that the path names, and what is read there
afterwards is the JSON form of the value. Three readings of one path have to agree for that: where its
holder is, where the old value is, and where the new one goes.
-/

namespace DataBinding

/-- What is read back once a value has been written into a container. -/
def Value.readBack (v : Value) (container : Json) : Value :=
  match v, container with
  | .undefined, .array _ => .null
  | .undefined, _ => .undefined
  | v, _ => .ofJson v.toNestedJson

theorem Value.readBack_eq (v : Value) (container : Json) : v.readBack container =
    match Json.childAfter v.toJson? container with
    | some json => .ofJson json
    | none => .undefined := by
  cases v with
  | undefined => cases container <;> rfl
  | _ => rfl

inductive WriteKind where
  | written
  | unchanged
  | skipped
deriving DecidableEq

def WriteOutcome.kind : WriteOutcome → WriteKind
  | .written => .written
  | .unchanged => .unchanged
  | .skipped _ => .skipped

def WriteResult.kind : WriteResult → WriteKind
  | .done => .written
  | .same => .unchanged
  | .obstacle _ => .skipped

theorem WriteResult.kind_eq_written_iff {result : WriteResult} :
    result.kind = .written ↔ result = .done := by
  cases result <;> simp [kind]

/-- `written` is the value `json` with `v` at the place that a path inside leads to. The container at
that place is not new: it stands where all segments but the last one lead to. -/
structure Json.WrittenAt (json written : Json) (inside : String) (v : Value) (container : Json) :
    Prop where
  segments : ∃ front last, Json.segments inside = front ++ [last] ∧
    lookup? front json = some container
  isContainer : container.isContainer = true
  readBack : written.valueAt inside = v.readBack container

theorem Json.exists_writtenAt {json : Json} {inside : String} {v : Value}
    (holds : (json.holder inside).value.isContainer = true)
    (done : (json.assign inside v).failure = none) :
    ∃ container, json.WrittenAt (json.assign inside v).json inside v container := by
  rcases List.eq_nil_or_concat' (Json.segments inside) with hnil | ⟨front, last, split⟩
  · rw [assign, hnil] at done
    cases done
  obtain ⟨container, there⟩ := exists_container_of_holder holds split
  obtain ⟨fails, leads⟩ := writeAt_of_container there inside last v.toJson?
  rw [assign, split] at done ⊢
  rw [fails] at done
  refine ⟨container, ⟨front, last, split, there⟩, isContainer_of_setChild done, ?_⟩
  rw [valueAt, split, lookup?_append, leads, Option.bind_some, lookup?, child?_setChild done,
    Value.readBack_eq]
  cases childAfter v.toJson? container <;> rfl

namespace Data

variable {data : Data} {paths : List String} {v : Value}

theorem elementFor_eq_ok_iff {index : UInt64} {json : Json} :
    data.elementFor index = .ok json ↔ data[index.toNat]? = some (some json) := by
  unfold elementFor elementAt
  cases data[index.toNat]? with
  | none => simp
  | some element => cases element <;> simp

theorem writeTarget_eq_ok_iff {index : UInt64} {inside : String} :
    writeTarget paths = .ok (index, inside) ↔ ∃ path, paths = [path] ∧ inside ≠ "" ∧
      Address.parse path = .ok (.element index inside) := by
  constructor
  · intro target
    unfold writeTarget at target
    split at target
    case h_1 path =>
      split at target
      case h_1 index inside parsed =>
        split at target
        case isTrue => cases target
        case isFalse hne =>
          cases target
          exact ⟨path, rfl, hne, parsed⟩
      case h_2 => cases target
      case h_3 => cases target
    case h_2 => cases target
  · rintro ⟨path, rfl, hne, parsed⟩
    simp only [writeTarget, parsed, if_neg hne]

theorem of_writeInside_done {index : UInt64} {inside : String} {json : Json}
    (done : (data.writeInside index inside json v).result = .done) :
    (json.holder inside).value.isContainer = true ∧ (json.assign inside v).failure = none ∧
      (data.writeInside index inside json v).data =
        data.set index.toNat (some (json.assign inside v).json) := by
  unfold writeInside at done ⊢
  by_cases holds : (json.holder inside).value.isContainer = true
  · by_cases same : (json.valueAt inside).blankReduced.same v.blankReduced = true
    · simp [holds, same] at done
    · cases outcome : (json.assign inside v).failure with
      | none => simp [holds, same]
      | some cause => simp [holds, same, outcome] at done
  · simp [holds] at done

theorem writeInside_cases {index : UInt64} {json : Json} (inside : String) (v : Value)
    (there : data[index.toNat]? = some (some json)) :
    (data.writeInside index inside json v).result ≠ .done ∧
        (data.writeInside index inside json v).data = data ∨
      ∃ written container, json.WrittenAt written inside v container ∧
        data.writeInside index inside json v =
          ⟨.done, data.set index.toNat (some written)⟩ := by
  unfold writeInside
  by_cases holds : (json.holder inside).value.isContainer = true
  · by_cases same : (json.valueAt inside).blankReduced.same v.blankReduced = true
    · simp [holds, same]
    · cases outcome : (json.assign inside v).failure with
      | none =>
        obtain ⟨container, written⟩ := Json.exists_writtenAt holds outcome
        exact .inr ⟨_, container, written, by simp [holds, same, outcome]⟩
      | some cause =>
        -- the value that a failed write leaves is the one that was there
        have kept : (json.assign inside v).json = json := Json.json_of_failure_writeAt outcome
        obtain ⟨bound, element⟩ := List.getElem?_eq_some_iff.1 there
        refine .inl ⟨by simp [holds, same, outcome], ?_⟩
        simp [holds, same, kept, ← element]
  · simp [holds]

/-- A write stops before it comes to any element, or goes inside the one that the only path names. -/
theorem write_cases_element (data : Data) (paths : List String) (v : Value) :
    (∃ cause, data.write paths v = ⟨.obstacle cause, data⟩) ∨
      ∃ path index inside json, paths = [path] ∧ inside ≠ "" ∧
        Address.parse path = .ok (.element index inside) ∧
        data[index.toNat]? = some (some json) ∧
        data.write paths v = data.writeInside index inside json v := by
  cases target : writeTarget paths with
  | error cause => exact .inl ⟨cause, by simp only [write, target]⟩
  | ok found =>
    obtain ⟨index, inside⟩ := found
    cases element : data.elementFor index with
    | error cause => exact .inl ⟨cause, by simp only [write, target, element]⟩
    | ok json =>
      obtain ⟨path, only, hne, parsed⟩ := writeTarget_eq_ok_iff.1 target
      exact .inr ⟨path, index, inside, json, only, hne, parsed, elementFor_eq_ok_iff.1 element,
        by simp only [write, target, element]⟩

/-- A write that is not done leaves the data as they were; one that is done sets the element that the
only path leads into. -/
theorem write_cases (data : Data) (paths : List String) (v : Value) :
    (data.write paths v).result ≠ .done ∧ (data.write paths v).data = data ∨
      ∃ path index inside json written container, paths = [path] ∧ inside ≠ "" ∧
        Address.parse path = .ok (.element index inside) ∧
        data[index.toNat]? = some (some json) ∧ json.WrittenAt written inside v container ∧
        data.write paths v = ⟨.done, data.set index.toNat (some written)⟩ := by
  rcases data.write_cases_element paths v with ⟨cause, stopped⟩ |
    ⟨path, index, inside, json, only, hne, parsed, there, run⟩
  · simp [stopped]
  · rw [run]
    refine (writeInside_cases inside v there).imp_right ?_
    rintro ⟨written, container, writes, done⟩
    exact ⟨path, index, inside, json, written, container, only, hne, parsed, there, writes, done⟩

theorem readings_set {path inside : String} {index : UInt64} {json written : Json}
    (hne : inside ≠ "") (parsed : Address.parse path = .ok (.element index inside))
    (there : data[index.toNat]? = some (some json)) :
    Data.readings (data.set index.toNat (some written)) [path] =
      [.value (written.valueAt inside)] := by
  have bound := (List.getElem?_eq_some_iff.1 there).1
  have now : (data.set index.toNat (some written))[index.toNat]? =
      some (some written) := List.getElem?_set_self bound
  simp [readings, resolveAll, resolve, readPath, parsed, readAddress, elementAt, now, readingOf, hne,
    Except.map]

end Data

namespace Forest

variable {f : Forest} {h : Handle} {d : Entry}

/-- `g` is `f` with one definition marked as edited. -/
structure OnlyEdits (f g : Forest) (h : Handle) : Prop where
  capacity : g.capacity = f.capacity
  marked : g.get? h = (f.get? h).map fun d => { d with edited := true }
  others : ∀ x, x ≠ h → g.get? x = f.get? x

theorem exists_markEdited (found : f.get? h = some d) :
    ∃ g, f.markEdited h = .ok g ∧ f.OnlyEdits g h := by
  obtain ⟨g, run, capacity, now⟩ := exists_modify found fun d => { d with edited := true }
  exact ⟨g, run, capacity, by simp only [now, if_true], fun x differ => by simp [now, differ]⟩

theorem assign_eq (found : f.get? h = some d) (data : Data) (v : Value) : f.assign h data v =
    match (data.write d.paths v).result with
    | .obstacle cause => (f.identity h).map fun identity =>
      ⟨.skipped (.skippedWrite identity cause), f, (data.write d.paths v).data⟩
    | .same => .ok ⟨.unchanged, f, (data.write d.paths v).data⟩
    | .done => (f.markEdited h).map fun g => ⟨.written, g, (data.write d.paths v).data⟩ := by
  rw [assign, find_eq_ok_iff.2 found, Outcome.ok_bind]
  obtain ⟨result, left⟩ := data.write d.paths v
  cases result with
  | obstacle cause => cases f.identity h <;> rfl
  | same => rfl
  | done => cases f.markEdited h <;> rfl

/-- A write through a definition comes to what the write to the data comes to, and marks the
definition when something was written. -/
theorem WellFormed.exists_assign (wf : f.WellFormed) (found : f.get? h = some d) (data : Data)
    (v : Value) : ∃ assigned, f.assign h data v = .ok assigned ∧
      assigned.outcome.kind = (data.write d.paths v).result.kind ∧
      assigned.data = (data.write d.paths v).data ∧
      (assigned.outcome ≠ .written → assigned.forest = f) ∧
      (assigned.outcome = .written → f.OnlyEdits assigned.forest h) := by
  rw [assign_eq found]
  cases (data.write d.paths v).result with
  | obstacle cause =>
    obtain ⟨hs, climb⟩ := wf.climbs found
    obtain ⟨identity, named⟩ := climb.exists_identity
    rw [named]
    exact ⟨_, rfl, rfl, rfl, fun _ => rfl, fun written => by cases written⟩
  | same => exact ⟨_, rfl, rfl, rfl, fun _ => rfl, fun written => by cases written⟩
  | done =>
    obtain ⟨g, marks, edits⟩ := exists_markEdited found
    rw [marks]
    exact ⟨_, rfl, rfl, rfl, fun other => absurd rfl other, fun _ => edits⟩

/-- A write through a definition leaves forest and data as they were unless it is done. When it is
done the definition is marked as edited and nothing else in the forest changes; of the data the one
element changes that the only path of the definition leads into; the value goes into a container that
was there before; and the definition then reads the JSON form of the value, or if that is
`undefined`, null from an array and nothing from an object. -/
theorem Reachable.assign_contract (reached : Reachable f) (found : f.get? h = some d) (data : Data)
    (v : Value) : ∃ assigned, f.assign h data v = .ok assigned ∧
      (assigned.outcome ≠ .written → assigned.forest = f ∧ assigned.data = data) ∧
      (assigned.outcome = .written → f.OnlyEdits assigned.forest h ∧
        ∃ path index inside json written container, d.paths = [path] ∧
          Address.parse path = .ok (.element index inside) ∧
          data[index.toNat]? = some (some json) ∧
          assigned.data = data.set index.toNat (some written) ∧
          json.WrittenAt written inside v container ∧
          assigned.forest.readings h assigned.data = .ok [.value (v.readBack container)]) := by
  rw [assign_eq found]
  rcases data.write_cases d.paths v with ⟨notDone, kept⟩ | ⟨path, index, inside, json, written,
    container, only, hne, parsed, there, writes, done⟩
  · cases result : (data.write d.paths v).result with
    | obstacle cause =>
      obtain ⟨hs, climb⟩ := reached.consistent.links.climbs found
      obtain ⟨identity, named⟩ := climb.exists_identity
      rw [named]
      exact ⟨_, rfl, fun _ => ⟨rfl, kept⟩, fun written => by cases written⟩
    | same => exact ⟨_, rfl, fun _ => ⟨rfl, kept⟩, fun written => by cases written⟩
    | done => exact absurd result notDone
  · obtain ⟨g, marks, edits⟩ := exists_markEdited found
    rw [done, marks]
    refine ⟨_, rfl, fun other => absurd rfl other, fun _ => ⟨edits, path, index, inside, json, written,
      container, only, parsed, there, rfl, writes, ?_⟩⟩
    have now : g.get? h = some { d with edited := true } := by
      rw [edits.marked, found, Option.map_some]
    rw [readings, find_eq_ok_iff.2 now, ← writes.readBack, ← Data.readings_set hne parsed there]
    show Except.ok (Data.readings _ d.paths) = _
    rw [only]

private def itemForm : Forest :=
  empty.afterAll
    [.insert (.panel "items") "%1%.a" rfl, .insert (.input "item" false) "1." rfl,
      .setParent ⟨1⟩ ⟨0⟩]

private def itemData : Data :=
  [none, some (.object [("a", .array [.string "x", .object []])])]

/-- Behind a dot at the end of a path the holder is the old value itself, here an object. Yet what takes
the value is the array around it, so an item that nothing is written over becomes null. -/
theorem Reachable.assign_contract_of_item : ∃ f assigned, Reachable f ∧
    f.assign ⟨1⟩ [none, some (.object [("a", .array [.string "x", .object []])])] .undefined =
      .ok assigned ∧ assigned.outcome = .written ∧ f.OnlyEdits assigned.forest ⟨1⟩ ∧
    assigned.forest.readings ⟨1⟩ assigned.data = .ok [.value .null] := by
  have reached : Reachable itemForm := .afterAll .empty _ (by simp [Call.others])
  obtain ⟨d, there, paths⟩ : ∃ d, itemForm.get? ⟨1⟩ = some d ∧ d.paths = ["%1%.a.1."] := ⟨_, rfl, rfl⟩
  obtain ⟨assigned, run, _, contract⟩ := Reachable.assign_contract reached there itemData .undefined
  have outcome : assigned.outcome = .written := by
    have computed : (itemForm.assign ⟨1⟩ itemData .undefined).toOption.map (·.outcome) =
        some .written := by decide +kernel
    rw [run] at computed
    exact Option.some.inj computed
  obtain ⟨edits, path, index, inside, json, written, container, only, parsed, element, _, writes,
    reads⟩ := contract outcome
  obtain ⟨front, last, split, found⟩ := writes.segments
  rw [paths] at only
  cases only
  have address : Address.parse "%1%.a.1." = .ok (.element 1 "a.1.") := rfl
  rw [address] at parsed
  cases parsed
  cases element
  have segments : Json.segments "a.1." = ["a"] ++ ["1"] := by decide +kernel
  rw [segments] at split
  obtain ⟨rfl, _⟩ := List.append_inj' split rfl
  cases found
  exact ⟨itemForm, assigned, reached, run, outcome, edits, reads⟩

end Forest

end DataBinding
