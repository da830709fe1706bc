import DataBinding.Json.Write
import DataBinding.Proofs.Json.Lookup

/-!
# Writes inside a JSON value

A write may add objects on its way down before it comes to the place that it is to change. It never
has to take them back: inside a new object every write succeeds, so a write that fails has added
nothing and leaves the value as it was. A write into a container that is already there changes that
container alone.
-/

namespace DataBinding

namespace Json

variable {path segment last : String} {value : Option Json} {front : List String}
  {json container : Json} {items : List Json}

theorem item?_of_position? {index : Nat} (there : position? items segment = some index) :
    item? items segment = items[index]? ∧ index < items.length := by
  unfold position? at there
  split at there
  case h_1 n number =>
    split at there
    case isTrue inside =>
      cases there
      exact ⟨by rw [item?, number]; rfl, inside⟩
    case isFalse => cases there
  case h_2 => cases there

theorem exists_position_of_item? {inner : Json} (found : item? items segment = some inner) :
    ∃ index, position? items segment = some index ∧ items[index]? = some inner := by
  obtain ⟨n, number, there⟩ := Option.bind_eq_some_iff.1 found
  have inside : n.toNat < items.length := (List.getElem?_eq_some_iff.1 there).1
  exact ⟨n.toNat, by rw [position?, number]; exact if_pos inside, there⟩

theorem position?_set (items : List Json) (index : Nat) (json : Json) (segment : String) :
    position? (items.set index json) segment = position? items segment := by
  rw [position?, position?, List.length_set]

theorem item?_set {index : Nat} (there : position? items segment = some index) (json : Json) :
    item? (items.set index json) segment = some json := by
  obtain ⟨same, inside⟩ := item?_of_position? ((position?_set items index json segment).trans there)
  rw [same, List.getElem?_set_self (by simpa using inside)]

/-! ### One member or item -/

theorem json_of_failure_setChild {cause : WriteError}
    (failed : (json.setChild path segment value).failure = some cause) :
    (json.setChild path segment value).json = json := by
  cases json with
  | object members => cases value <;> cases failed
  | array items =>
    rw [setChild] at failed ⊢
    split at failed
    case h_1 => cases failed
    case h_2 => rfl
  | _ => rfl

theorem failure_setChild_object (members : Members Json) :
    (setChild path segment value (.object members)).failure = none := by
  cases value <;> rfl

theorem isContainer_of_setChild (done : (json.setChild path segment value).failure = none) :
    json.isContainer = true := by
  cases json with
  | object | array => rfl
  | _ => cases done

/-- What is left where something was written into a container. Where nothing was written no member is
left, and a null item. -/
def childAfter : Option Json → Json → Option Json
  | some written, _ => some written
  | none, .array _ => some .null
  | none, _ => none

theorem child?_setChild (done : (json.setChild path segment value).failure = none) :
    child? segment (json.setChild path segment value).json = childAfter value json := by
  cases json with
  | object members =>
    cases value with
    | none => exact Members.get?_erase_self segment members
    | some written => exact Members.get?_insert_self segment written members
  | array items =>
    rw [setChild] at done ⊢
    split at done
    case h_1 index there =>
      show item? (items.set index (value.getD .null)) segment = _
      rw [item?_set there]
      cases value <;> rfl
    case h_2 => cases done
  | _ => cases done

/-! ### Along a path -/

/-- Inside a new object nothing stands in the way of a write. -/
theorem failure_writeAt_new (segments : List String) (hne : segments ≠ []) :
    (writeAt path value segments (.object [])).failure = none := by
  induction segments with
  | nil => exact absurd rfl hne
  | cons segment rest ih =>
    cases rest with
    | nil => exact failure_setChild_object []
    | cons next more => exact ih (List.cons_ne_nil _ _)

theorem json_of_failure_writeAt {segments : List String} {cause : WriteError}
    (failed : (writeAt path value segments json).failure = some cause) :
    (writeAt path value segments json).json = json := by
  induction segments generalizing json with
  | nil => rfl
  | cons segment rest ih =>
    cases rest with
    | nil => exact json_of_failure_setChild failed
    | cons next more =>
      cases json with
      | object members =>
        rw [writeAt] at failed ⊢
        cases there : Members.get? segment members with
        | none =>
          simp only [there, failure_writeAt_new _ (List.cons_ne_nil next more)] at failed
          cases failed
        | some inner =>
          simp only [there] at failed
          simp only [ih failed, Members.replace_self there]
      | array items =>
        rw [writeAt] at failed ⊢
        split at failed
        case h_1 inner index found there =>
          obtain ⟨same, inside⟩ := item?_of_position? there
          rw [found, eq_comm, List.getElem?_eq_some_iff] at same
          obtain ⟨_, same⟩ := same
          show Json.array (items.set index (writeAt path value (next :: more) inner).json) = .array items
          rw [ih failed, ← same, List.set_getElem_self]
        case h_2 => rfl
      | _ => rfl

/-- A write into a container that is there comes to what it comes to in that container alone, and
changes the value at that place. -/
theorem writeAt_of_container (found : lookup? front json = some container) (path last : String)
    (value : Option Json) :
    (writeAt path value (front ++ [last]) json).failure =
        (container.setChild path last value).failure ∧
      lookup? front (writeAt path value (front ++ [last]) json).json =
        some (container.setChild path last value).json := by
  induction front generalizing json with
  | nil =>
    cases found
    exact ⟨rfl, rfl⟩
  | cons segment rest ih =>
    obtain ⟨inner, first, later⟩ := Option.bind_eq_some_iff.1 found
    obtain ⟨fails, leads⟩ := ih later
    obtain ⟨next, more, shape⟩ := List.exists_cons_of_ne_nil (List.concat_ne_nil last rest)
    rw [shape] at fails leads
    rw [List.cons_append, shape]
    cases json with
    | object members =>
      replace first : Members.get? segment members = some inner := first
      simp only [writeAt, first, fails, lookup?, child?, Members.get?_replace_self first,
        Option.bind_some, leads, and_self]
    | array items =>
      replace first : item? items segment = some inner := first
      obtain ⟨index, there, _⟩ := exists_position_of_item? first
      simp only [writeAt, first, there, fails, lookup?, child?, item?_set there, Option.bind_some,
        leads, and_self]
    | _ => cases first

/-! ### Holders -/

theorem exists_lookup_of_isContainer {inside : String}
    (container : (json.valueAt inside).isContainer = true) :
    ∃ found, lookup? (segments inside) json = some found := by
  unfold valueAt at container
  split at container
  case h_1 found there => exact ⟨found, there⟩
  case h_2 => cases container

/-- When the holder of a path is a container, everything up to the last segment is there. A dot at
the end of the path has no segment behind it; then the holder itself is at the last segment. -/
theorem exists_container_of_holder {inside : String}
    (holds : (json.holder inside).value.isContainer = true)
    (split : segments inside = front ++ [last]) : ∃ container, lookup? front json = some container := by
  unfold holder at holds
  cases cut : Text.splitLast? '.' inside with
  | none =>
    have absent := Text.not_mem_of_splitLast?_eq_none cut
    have single := segments_of_not_mem absent
    rw [String.ofList_toList, split] at single
    split at single
    case isTrue => simp at single
    case isFalse =>
      obtain ⟨rfl, _⟩ := List.append_eq_singleton_iff.1 single |>.resolve_right (by simp)
      exact ⟨json, rfl⟩
  | some pieces =>
    obtain ⟨head, tail⟩ := pieces
    simp only [cut] at holds
    obtain ⟨found, there⟩ := exists_lookup_of_isContainer holds
    obtain ⟨shape, absent⟩ := Text.chars_of_splitLast? cut
    have whole := segments_ofList_append head.toList tail.toList
    rw [← shape, String.ofList_toList, String.ofList_toList, split,
      segments_of_not_mem absent] at whole
    split at whole
    case isTrue =>
      rw [List.append_nil] at whole
      rw [← whole, lookup?_append] at there
      obtain ⟨container, upper, _⟩ := Option.bind_eq_some_iff.1 there
      exact ⟨container, upper⟩
    case isFalse =>
      rw [(List.append_inj' whole rfl).1]
      exact ⟨found, there⟩

end Json

end DataBinding
