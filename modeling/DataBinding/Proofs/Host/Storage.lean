import DataBinding.Host.Bundle
import DataBinding.Proofs.Binding.Pruning
import DataBinding.Proofs.Forest.Growth

/-!
# Bundles stored and read

A bundle that has been read, under whatever names a producer has for the kinds, is stored in a form
that is read without these names as the very same bundle.
-/

namespace DataBinding.Bundle

variable {v : Vocabulary} {f g : Forest} {definition : Json}

theorem readDefinition_of_ofJson (read : Forest.ofJson v definition = .ok g)
    (present : definition ≠ .null) {fields : Members Json}
    (there : fields.get? "definition" = some definition) : readDefinition v fields = .ok g := by
  rw [readDefinition, there]
  cases definition with
  | null => exact absurd rfl present
  | _ => simp only [read]

/-- A bundle is read as it was stored when its definition is and no element of its data is null. -/
theorem exists_stored (written : definitionJson f = .ok definition)
    (read : ∀ fields : Members Json, fields.get? "definition" = some definition →
      readDefinition v fields = .ok g)
    {data : Data} (present : some .null ∉ data) (constraint : Option String) :
    ∃ json, toJson { definition := f, data, constraint } = .ok json ∧
      ofJson v json = .ok { definition := g, data, constraint } := by
  refine ⟨.object (constraintField constraint ++
    [("data", data.toJson), ("definition", definition)]), ?_, ?_⟩
  · rw [toJson, written]
    rfl
  · have dataRead : ∀ fields : Members Json, fields.get? "data" = some data.toJson →
        readData fields = .ok data := by
      intro fields there
      rw [readData, there]
      exact congrArg Except.ok (Data.ofJson_toJson present)
    cases constraint with
    | none =>
      rw [ofJson, read _ rfl, dataRead _ rfl]
      rfl
    | some text =>
      rw [ofJson, read _ rfl, dataRead _ rfl]
      rfl

/-- A definition that has been read is written so that it is read again without the names of its
producer. -/
theorem exists_definitionJson {fields : Members Json} (read : readDefinition v fields = .ok f) :
    ∃ definition, definitionJson f = .ok definition ∧
      ∀ fields : Members Json, fields.get? "definition" = some definition →
        readDefinition {} fields = .ok f := by
  rw [readDefinition] at read
  split at read
  case h_1 => cases read
  case h_2 =>
    cases read
    refine ⟨.null, rfl, fun fields there => ?_⟩
    rw [readDefinition, there]
  case h_3 =>
    split at read
    case h_1 g given =>
      cases read
      obtain ⟨definition, root, written, present, again⟩ := Forest.exists_toJson_of_ofJson given
      refine ⟨definition, ?_, fun fields there => readDefinition_of_ofJson again present there⟩
      rw [definitionJson, root]
      exact written
    case h_2 => cases read

theorem null_notMem_of_readData {fields : Members Json} {data : Data}
    (read : readData fields = .ok data) : some .null ∉ data := by
  rw [readData] at read
  split at read
  case h_1 => cases read
  case h_2 items _ =>
    cases read
    intro inside
    obtain ⟨item, _, same⟩ := List.mem_map.1 inside
    cases item <;> cases same
  case h_3 => cases read

/-- Whatever was read, a stored bundle is read again as the same definitions in the same places, the
same data and the same constraint, and so it is stored in the same form ever after. -/
theorem exists_reread {json : Json} {b : Bundle Forest} (read : ofJson v json = .ok b) :
    ∃ stored again, toJson b = .ok stored ∧ ofJson {} stored = .ok again ∧ again = b ∧
      toJson again = .ok stored := by
  cases json with
  | object fields =>
    obtain ⟨f, definitionRead, rest⟩ := Outcome.bind_eq_ok_iff.1 read
    obtain ⟨data, dataRead, rest⟩ := Outcome.bind_eq_ok_iff.1 rest
    obtain ⟨constraint, _, last⟩ := Outcome.bind_eq_ok_iff.1 rest
    cases last
    obtain ⟨definition, written, again⟩ := exists_definitionJson definitionRead
    obtain ⟨stored, stores, reads⟩ :=
      exists_stored written again (null_notMem_of_readData dataRead) constraint
    exact ⟨stored, _, stores, reads, rfl, stores⟩
  | _ => cases read

/-- A stored screen of a producer, with an older name of a field and one that nobody knows. -/
private def screen : Json :=
  .object [("constraint", .null), ("data", .array [.null, .bool true]),
    ("definition", .object [("header", .object [("kind", .string "textItem")]),
      ("label", .string "title"), ("type", .string "screen"), ("unknown", .null)])]

private def form : Json :=
  .object [("data", .array [.null, .bool true]),
    ("definition", .object [("header", .object [("kind", .string "textItem"), ("text", .string "")]),
      ("kind", .string "form"), ("title", .string "title")])]

theorem exists_reread_of_screen : ∃ v b again, ofJson v screen = .ok b ∧ b.definition.capacity = 2 ∧
    b.data = [none, some (.bool true)] ∧ b.constraint = none ∧ toJson b = .ok form ∧
    ofJson {} form = .ok again ∧ again = b ∧ toJson again = .ok form := by
  have read : ofJson (.add {} "screen" "form") screen = .ok _ := rfl
  obtain ⟨stored, again, stores, reads, same, last⟩ := exists_reread read
  have known : Except.ok form = (Except.ok stored : Except Fault Json) := stores
  cases known
  exact ⟨_, _, again, read, rfl, rfl, rfl, stores, reads, same, last⟩

end DataBinding.Bundle
