import DataBinding.Value.Json

/-!
# Values in JSON and back

JSON has no form for `undefined` inside arrays and objects and none for numbers that are not finite:
both come back as null. All other values come back as they were, and only those.
-/

namespace DataBinding.Value

/-- Neither `undefined` nor a number that is not finite, all through. -/
inductive Exact : Value → Prop
  | null : Exact .null
  | bool (b : Bool) : Exact (.bool b)
  | number (x : Finite) : Exact (.number (.finite x))
  | string (s : String) : Exact (.string s)
  | array {items : List Value} (each : ∀ item ∈ items, Exact item) : Exact (.array items)
  | object {members : List (String × Value)} (each : ∀ member ∈ members, Exact member.2) :
    Exact (.object members)

/-- What JSON can hold. Nothing to be written at all is fine, as nothing is read then. -/
def Storable (v : Value) : Prop :=
  v = .undefined ∨ v.Exact

theorem exact_number_iff {x : Binary64} : Exact (.number x) ↔ ∃ y, x = .finite y := by
  constructor
  · rintro (_ | _ | y)
    exact ⟨y, rfl⟩
  · rintro ⟨y, rfl⟩
    exact .number y

theorem exact_array_iff {items : List Value} :
    Exact (.array items) ↔ ∀ item ∈ items, Exact item := by
  constructor
  · rintro (_ | _ | _ | _ | each)
    exact each
  · exact .array

theorem exact_object_iff {members : List (String × Value)} :
    Exact (.object members) ↔ ∀ member ∈ members, Exact member.2 := by
  constructor
  · rintro (_ | _ | _ | _ | _ | each)
    exact each
  · exact .object

theorem same_ofJson_jsonOfNumber_iff (x : Binary64) :
    (ofJson (jsonOfNumber x)).same (.number x) = true ↔ ∃ y, x = .finite y := by
  cases x <;> simp [jsonOfNumber, ofJson, same, JsonNumber.toBinary64, Binary64.same, Finite.same]

mutual

/-- The values that are read as they were written are those that JSON can hold. -/
theorem same_ofJson_toNestedJson_iff :
    (v : Value) → ((ofJson v.toNestedJson).same v = true ↔ v.Exact)
  | .undefined => iff_of_false (by simp [toNestedJson, ofJson, same]) nofun
  | .null => iff_of_true rfl .null
  | .bool b => iff_of_true (by simp [toNestedJson, ofJson, same]) (.bool b)
  | .number x => by rw [exact_number_iff, toNestedJson, same_ofJson_jsonOfNumber_iff]
  | .string s => iff_of_true (by simp [toNestedJson, ofJson, same]) (.string s)
  | .array items => by
    rw [toNestedJson, ofJson, same, exact_array_iff]
    exact sameItems_toNestedItems_iff items
  | .object members => by
    rw [toNestedJson, ofJson, same, exact_object_iff]
    exact sameMembers_toNestedMembers_iff members

theorem sameItems_toNestedItems_iff : (items : List Value) →
    (sameItems (ofJsonItems (toNestedItems items)) items = true ↔ ∀ item ∈ items, item.Exact)
  | [] => iff_of_true rfl (by simp)
  | item :: rest => by
    rw [toNestedItems, ofJsonItems, sameItems, Bool.and_eq_true, List.forall_mem_cons,
      same_ofJson_toNestedJson_iff item, sameItems_toNestedItems_iff rest]

theorem sameMembers_toNestedMembers_iff : (members : List (String × Value)) →
    (sameMembers (ofJsonMembers (toNestedMembers members)) members = true ↔
      ∀ member ∈ members, member.2.Exact)
  | [] => iff_of_true rfl (by simp)
  | (name, v) :: rest => by
    rw [toNestedMembers, ofJsonMembers, sameMembers, decide_eq_true rfl, Bool.true_and,
      Bool.and_eq_true, List.forall_mem_cons, same_ofJson_toNestedJson_iff v,
      sameMembers_toNestedMembers_iff rest]

end

/-- The same holds once blanks are reduced: null stands for the other blanks at the top alone. -/
theorem same_blankReduced_ofJson_iff (v : Value) :
    (ofJson v.toNestedJson).blankReduced.same v.blankReduced = true ↔ v.Storable := by
  have exact := same_ofJson_toNestedJson_iff v
  cases v with
  | undefined => exact iff_of_true rfl (.inl rfl)
  | null => exact iff_of_true rfl (.inr .null)
  | string s =>
    refine iff_of_true ?_ (.inr (.string s))
    by_cases empty : s = "" <;> simp [toNestedJson, ofJson, blankReduced, empty, same]
  | number x =>
    rw [Storable, ← exact]
    cases x <;> simp [toNestedJson, jsonOfNumber, ofJson, blankReduced, same]
  | _ => exact exact.trans (or_iff_right nofun).symm

end DataBinding.Value
