import DataBinding.Proofs.Binding.Edits
import DataBinding.Proofs.Binding.Narrowing
import DataBinding.Proofs.Binding.Spelling
import DataBinding.Proofs.Value.Stored

/-!
# Values written twice

A value that was written is not written again, as long as it is one that JSON can hold: what is read
back is then the same, and the container that took the value is still there. So a host that echoes
what it has written brings no edit back. A value that JSON cannot hold differs from what is read
back and is written each time.
-/

namespace DataBinding

open Text (EndsInDot)

namespace Value

/-- What is read back where a value has been written is the same, once blanks are reduced, exactly
when JSON can hold the value. -/
theorem same_readBack_iff (v : Value) (container : Json) :
    (v.readBack container).blankReduced.same v.blankReduced = true ↔ v.Storable := by
  cases v with
  | undefined =>
    refine iff_of_true ?_ (.inl rfl)
    cases container <;> rfl
  | _ => exact same_blankReduced_ofJson_iff _

end Value

namespace Json

variable {path segment inside : String} {value : Option Json} {json : Json} {v : Value}

theorem isContainer_setChild (json : Json) (path segment : String) (value : Option Json) :
    (json.setChild path segment value).json.isContainer = json.isContainer := by
  cases json with
  | object members => cases value <;> rfl
  | array items =>
    rw [setChild]
    split <;> rfl
  | _ => rfl

theorem failure_setChild_setChild (done : (json.setChild path segment value).failure = none) :
    ((json.setChild path segment value).json.setChild path segment value).failure = none := by
  cases json with
  | object members => cases value <;> rfl
  | array items =>
    rw [setChild] at done ⊢
    split at done
    case h_1 index there =>
      simp only [setChild, position?_set, there]
    case h_2 => cases done
  | _ => cases done

/-- After a write the path leads into a container as before, reads the value back, and can be
written again. -/
theorem exists_assign_again (whole : ¬ EndsInDot inside)
    (holds : (json.holder inside).value.isContainer = true)
    (done : (json.assign inside v).failure = none) : ∃ container,
      ((json.assign inside v).json.holder inside).value.isContainer = true ∧
      (json.assign inside v).json.valueAt inside = v.readBack container ∧
      ((json.assign inside v).json.assign inside v).failure = none := by
  obtain ⟨container, ⟨front, last, split, there⟩, isContainer, reads⟩ := exists_writtenAt holds done
  obtain ⟨fails, leads⟩ := writeAt_of_container there inside last v.toJson?
  rw [assign, split] at done
  rw [fails] at done
  have now : lookup? front (json.assign inside v).json =
      some (container.setChild inside last v.toJson?).json := by rwa [assign, split]
  refine ⟨container, ?_, reads, ?_⟩
  · refine (isContainer_holder_iff split fun dot => absurd dot whole).2 ⟨_, now, ?_⟩
    rw [isContainer_setChild, isContainer]
  · obtain ⟨again, _⟩ := writeAt_of_container now inside last v.toJson?
    rw [assign, split, again]
    exact failure_setChild_setChild done

end Json

theorem Address.endsInDot_of_parse {path inside : String} {index : UInt64}
    (parsed : parse path = .ok (.element index inside)) (dot : EndsInDot inside) :
    EndsInDot path := by
  obtain ⟨digits, tail, shape, _, _, rfl⟩ := parse_eq_element_iff_exists.1 parsed
  rw [EndsInDot, String.toList_ofList] at dot
  obtain ⟨before, kept⟩ : dropDot tail <:+ tail := by
    unfold dropDot
    split
    · exact List.suffix_cons _ _
    · exact List.suffix_refl _
  have ends : tail.getLast? = some '.' := by
    rw [← kept, List.getLast?_append, dot, Option.some_or]
  rw [EndsInDot, shape, ← List.cons_append, List.getLast?_append, List.getLast?_cons, ends]
  rfl

namespace Data

variable {data : Data} {paths : List String} {v : Value}

/-- A write that is done found a container, went into it and set the one element. -/
theorem exists_of_write_done (done : (data.write paths v).result = .done) :
    ∃ path index inside json, paths = [path] ∧ inside ≠ "" ∧
      Address.parse path = .ok (.element index inside) ∧
      data[index.toNat]? = some (some json) ∧ (json.holder inside).value.isContainer = true ∧
      (json.assign inside v).failure = none ∧
      (data.write paths v).data = data.set index.toNat (some (json.assign inside v).json) := by
  rcases data.write_cases_element paths v with ⟨cause, stopped⟩ |
    ⟨path, index, inside, json, only, nonempty, parsed, there, run⟩
  · rw [stopped] at done
    cases done
  · rw [run] at done ⊢
    exact ⟨path, index, inside, json, only, nonempty, parsed, there, of_writeInside_done done⟩

/-- A second write goes inside the element that the first one has left. -/
theorem exists_write_again (done : (data.write paths v).result = .done) :
    ∃ path index inside, ∃ json : Json, paths = [path] ∧
      Address.parse path = .ok (.element index inside) ∧
      (json.holder inside).value.isContainer = true ∧ (json.assign inside v).failure = none ∧
      (data.write paths v).data.write paths v =
        (data.write paths v).data.writeInside index inside (json.assign inside v).json v := by
  obtain ⟨path, index, inside, json, rfl, nonempty, parsed, there, holds, done, left⟩ :=
    exists_of_write_done done
  have bound : index.toNat < data.length := (List.getElem?_eq_some_iff.1 there).1
  have now : (data.write [path] v).data.elementFor index = .ok (json.assign inside v).json := by
    rw [left]
    exact elementFor_eq_ok_iff.2 (List.getElem?_set_self bound)
  exact ⟨path, index, inside, json, rfl, parsed, holds, done, by rw [write_of_path parsed nonempty, now]⟩

/-- A value that JSON can hold is the same the second time, or is refused. -/
theorem not_written_again (done : (data.write paths v).result = .done) (storable : v.Storable) :
    ((data.write paths v).data.write paths v).result ≠ .done ∧
      ((data.write paths v).data.write paths v).data = (data.write paths v).data := by
  obtain ⟨path, index, inside, json, rfl, parsed, holds, done, again⟩ := exists_write_again done
  obtain ⟨container, written⟩ := Json.exists_writtenAt holds done
  have same := (v.same_readBack_iff container).2 storable
  rw [← written.readBack] at same
  rw [again, writeInside]
  by_cases holdsAgain : ((json.assign inside v).json.holder inside).value.isContainer = true
  · simp [holdsAgain, same]
  · simp [holdsAgain]

theorem write_again (done : (data.write paths v).result = .done)
    (whole : ∀ path ∈ paths, ¬ EndsInDot path) :
    (v.Storable → (data.write paths v).data.write paths v = ⟨.same, (data.write paths v).data⟩) ∧
      (¬ v.Storable → ((data.write paths v).data.write paths v).result = .done) := by
  obtain ⟨path, index, inside, json, rfl, parsed, holds, done, again⟩ := exists_write_again done
  have plain : ¬ EndsInDot inside := fun dot =>
    whole path List.mem_cons_self (Address.endsInDot_of_parse parsed dot)
  obtain ⟨container, holdsAgain, reads, succeeds⟩ := Json.exists_assign_again plain holds done
  rw [again]
  refine ⟨fun storable => ?_, fun lost => ?_⟩
  · have same := (v.same_readBack_iff container).2 storable
    simp [writeInside, holdsAgain, reads, same]
  · have differs := mt (v.same_readBack_iff container).1 lost
    simp [writeInside, holdsAgain, reads, differs, succeeds]

end Data

namespace Forest

variable {f g : Forest} {h : Handle} {d : Entry}

theorem WellFormed.exists_cleared (wf : f.WellFormed) (found : f.get? h = some d) :
    ∃ g, f.clearEdits h = .ok g ∧ g.hasEdits h = .ok false ∧ f.SameLinks g ∧
      ∀ {x e}, f.get? x = some e →
        ∃ cleared, g.get? x = some cleared ∧ cleared.paths = e.paths := by
  obtain ⟨order, g, run, members, now⟩ := wf.exists_clearEdits found
  have links : f.SameLinks g := map_of_changed now fun x d => by split <;> rfl
  obtain ⟨e, there, _⟩ := links.exists_of_get? found
  obtain ⟨b, read, reads, _, rfl⟩ := (wf.congr links).exists_branch there
  refine ⟨g, run, ?_, links, fun {x e} was => ?_⟩
  · have without : b.isEdited = false := by
      rw [Bool.eq_false_iff]
      intro edited
      obtain ⟨x, shown, e, there, marked⟩ := reads.isEdited_iff.1 edited
      have inside : x ∈ order := by
        rw [members, ← links.within_iff]
        exact (reads.mem_handles_iff (wf.congr links)).1 shown
      rw [now, Option.map_eq_some_iff] at there
      obtain ⟨d, _, rfl⟩ := there
      rw [if_pos inside] at marked
      cases marked
    rw [hasEdits, read]
    exact congrArg Except.ok without
  · refine ⟨_, by rw [now, was, Option.map_some], ?_⟩
    split <;> rfl

theorem assign_of_same {data : Data} {v : Value} (found : f.get? h = some d)
    (same : data.write d.paths v = ⟨.same, data⟩) :
    f.assign h data v = .ok ⟨.unchanged, f, data⟩ := by
  rw [assign_eq found, same]

/-- When a value that JSON can hold has been written, and the edits of a branch are cleared then, echoing
the value brings none of them back and leaves the data as they are. Through a path without a dot at its
end writing a value a second time changes nothing if JSON can hold the value, and writes it again if
not. -/
theorem Reachable.assign_twice (reached : Reachable f) (found : f.get? h = some d) {data : Data}
    {v : Value} {first : Assigned} (run : f.assign h data v = .ok first)
    (written : first.outcome = .written) :
    (v.Storable → ∀ n, (∃ e, f.get? n = some e) → ∃ g second, first.forest.clearEdits n = .ok g ∧
      g.hasEdits n = .ok false ∧ g.assign h first.data v = .ok second ∧ second.forest = g ∧
      second.data = first.data ∧
      ((∀ path ∈ d.paths, ¬ EndsInDot path) → second.outcome = .unchanged)) ∧
    ((∀ path ∈ d.paths, ¬ EndsInDot path) →
      (v.Storable →
        first.forest.assign h first.data v = .ok ⟨.unchanged, first.forest, first.data⟩) ∧
      (¬ v.Storable → ∃ second, first.forest.assign h first.data v = .ok second ∧
        second.outcome = .written)) := by
  have wf := reached.consistent.links
  obtain ⟨_, again, kind, left, _, marks⟩ := wf.exists_assign found data v
  cases run.symm.trans again
  have edits := marks written
  have done : (data.write d.paths v).result = .done := by
    rw [← WriteResult.kind_eq_written_iff, ← kind, written]
    rfl
  have links := edits.sameLinks
  have now : first.forest.get? h = some { d with edited := true } := by
    rw [edits.marked, found, Option.map_some]
  refine ⟨fun storable n live => ?_, fun whole => ?_⟩
  · obtain ⟨e, there⟩ := live
    obtain ⟨e', there', _⟩ := links.exists_of_get? there
    obtain ⟨g, cleared, without, kept, entries⟩ := (wf.congr links).exists_cleared there'
    obtain ⟨d', found', paths⟩ := entries now
    replace paths : d'.paths = d.paths := paths
    obtain ⟨second, echo, kind', left', stays, _⟩ :=
      ((wf.congr links).congr kept).exists_assign found' first.data v
    rw [paths, left] at kind' left'
    obtain ⟨notDone, unchanged⟩ := Data.not_written_again done storable
    have skipped : second.outcome ≠ .written := by
      intro echoed
      rw [echoed] at kind'
      exact notDone (WriteResult.kind_eq_written_iff.1 kind'.symm)
    refine ⟨g, second, cleared, without, echo, stays skipped, by rw [left', unchanged, left],
      fun whole => ?_⟩
    have same : first.data.write d'.paths v = ⟨.same, first.data⟩ := by
      rw [paths, left]
      exact (Data.write_again done whole).1 storable
    rw [assign_of_same found' same] at echo
    cases echo
    rfl
  · obtain ⟨stays, again⟩ := Data.write_again done whole
    rw [← left] at stays again
    refine ⟨fun storable => assign_of_same now (stays storable), fun lost => ?_⟩
    obtain ⟨g, marks, _⟩ := exists_markEdited now
    rw [assign_eq now]
    simp only [again lost, marks]
    exact ⟨_, rfl, rfl⟩

private def echoForm : Forest :=
  empty.afterAll
    [.insert (.panel "") "" (Content.holders_panel ""),
      .insert (.input "" false) "%0%.a" (Content.holders_input "" false), .setParent ⟨1⟩ ⟨0⟩]

private theorem exists_echoForm_written {v : Value}
    (computed : (echoForm.assign ⟨1⟩ [some (.object [])] v).toOption.map (·.outcome) =
      some .written) :
    ∃ d first, echoForm.get? ⟨1⟩ = some d ∧ (∀ path ∈ d.paths, ¬ EndsInDot path) ∧
      echoForm.assign ⟨1⟩ [some (.object [])] v = .ok first ∧ first.outcome = .written := by
  obtain ⟨d, found, paths⟩ : ∃ d, echoForm.get? ⟨1⟩ = some d ∧ d.paths = ["%0%.a"] := ⟨_, rfl, rfl⟩
  refine ⟨d, ?_⟩
  cases run : echoForm.assign ⟨1⟩ [some (.object [])] v with
  | error fault =>
    rw [run] at computed
    cases computed
  | ok first =>
    rw [run] at computed
    refine ⟨first, found, fun path inside => ?_, rfl, Option.some.inj computed⟩
    rw [paths, List.mem_singleton] at inside
    rw [inside]
    decide +kernel

/-- An array with a null in it is echoed without an edit of the panel around the input. What is not
a number is read back as null and is written again. -/
theorem Reachable.assign_twice_of_form : ∃ f first g other second, Reachable f ∧
    f.assign ⟨1⟩ [some (.object [])] (.array [.null, .bool true]) = .ok first ∧
    first.outcome = .written ∧ first.forest.clearEdits ⟨0⟩ = .ok g ∧
    g.assign ⟨1⟩ first.data (.array [.null, .bool true]) = .ok ⟨.unchanged, g, first.data⟩ ∧
    g.hasEdits ⟨0⟩ = .ok false ∧
    f.assign ⟨1⟩ [some (.object [])] (.number .nan) = .ok other ∧ other.outcome = .written ∧
    other.forest.assign ⟨1⟩ other.data (.number .nan) = .ok second ∧ second.outcome = .written := by
  have reached : Reachable echoForm := .afterAll .empty _ (by simp [Call.others])
  obtain ⟨d, first, found, whole, run, written⟩ :=
    exists_echoForm_written (v := .array [.null, .bool true]) (by decide +kernel)
  obtain ⟨d', other, found', whole', run', written'⟩ :=
    exists_echoForm_written (v := .number .nan) (by decide +kernel)
  have storable : Value.Storable (.array [.null, .bool true]) :=
    .inr (.array (by simpa using ⟨.null, .bool true⟩))
  have lost : ¬ Value.Storable (.number .nan) := by
    rintro (absent | finite)
    · cases absent
    · cases finite
  obtain ⟨echo, _⟩ := Reachable.assign_twice reached found run written
  obtain ⟨_, ⟨outcome, g, _⟩, cleared, without, unchanged, rfl, rfl, settled⟩ :=
    echo storable ⟨0⟩ ⟨_, rfl⟩
  obtain rfl : outcome = .unchanged := settled whole
  obtain ⟨_, again⟩ := Reachable.assign_twice reached found' run' written'
  obtain ⟨second, twice, writtenAgain⟩ := (again whole').2 lost
  exact ⟨echoForm, first, g, other, second, reached, run, written, cleared, unchanged, without,
    run', written', twice, writtenAgain⟩

/-- An array with an item that is undefined is stored with a null in its place, and so it is written
again. -/
theorem assign_twice_not_unchanged : ¬ ∀ (f : Forest) (h : Handle) (d : Entry) (data : Data)
    (v : Value) (first : Assigned), Reachable f → f.get? h = some d → f.assign h data v = .ok first →
      first.outcome = .written → ∃ second, first.forest.assign h first.data v = .ok second ∧
        second.outcome = .unchanged := by
  intro stays
  have reached : Reachable echoForm := .afterAll .empty _ (by simp [Call.others])
  obtain ⟨d, first, found, _, run, written⟩ :=
    exists_echoForm_written (v := .array [.undefined]) (by decide +kernel)
  obtain ⟨second, again, unchanged⟩ :=
    stays echoForm ⟨1⟩ d [some (.object [])] (.array [.undefined]) first reached found run written
  have computed : ((echoForm.assign ⟨1⟩ [some (.object [])] (.array [.undefined])).toOption.bind
      fun first => (first.forest.assign ⟨1⟩ first.data (.array [.undefined])).toOption).map
        (·.outcome) = some .written := by decide +kernel
  rw [run] at computed
  simp only [Except.toOption, Option.bind_some, again, Option.map_some, unchanged] at computed
  cases computed

end Forest

end DataBinding
