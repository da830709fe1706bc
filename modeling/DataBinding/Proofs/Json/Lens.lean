import DataBinding.Proofs.Json.Ordered
import DataBinding.Proofs.Json.Write

/-!
# Reads after writes

What is written at a path is read there, nothing is read differently along paths that lead
elsewhere, and a second write leaves no trace of the first. All three come down to one segment: a
write with more segments to come puts a new child where the old one was, or where an object is to
begin.
-/

namespace DataBinding

namespace Members

variable {α : Type}

theorem get?_replace_of_ne {name other : String} (differs : other ≠ name) (value : α)
    (members : Members α) : (replace name value members).get? other = members.get? other := by
  induction members with
  | nil => rfl
  | cons member rest ih =>
    by_cases same : member.1 = name
    · simp [replace, get?, same, Ne.symm differs]
    · simp [replace, get?, same, ih]

end Members

namespace Json

variable {path segment other : String} {value : Option Json} {json after new : Json}
  {items : List Json} {steps : List String}

/-! ### One child -/

/-- What a segment stands for: an index, if it is one, among the items of an array, and a name
everywhere else. -/
def selection (json : Json) (segment : String) : String ⊕ Option UInt64 :=
  match json with
  | .array _ => .inr (Text.index? segment.toList)
  | _ => .inl segment

theorem child?_congr (same : json.selection segment = json.selection other) :
    child? segment json = child? other json := by
  cases json with
  | array items =>
    have index := Sum.inr.inj same
    rw [child?, child?, item?, item?, index]
  | object members =>
    obtain rfl := Sum.inl.inj same
    rfl
  | _ => rfl

theorem item?_set_of_ne {index : Nat} (there : position? items segment = some index)
    (differ : Text.index? segment.toList ≠ Text.index? other.toList) (new : Json) :
    item? (items.set index new) other = item? items other := by
  unfold position? at there
  split at there
  case h_1 n number =>
    split at there
    case isTrue =>
      cases there
      unfold item?
      cases denoted : Text.index? other.toList with
      | none => rfl
      | some m =>
        rw [number, denoted] at differ
        have apart : n.toNat ≠ m.toNat := fun same => differ (congrArg some (UInt64.toNat.inj same))
        exact List.getElem?_set_ne apart
    case isFalse => cases there
  case h_2 => cases there

/-- The value with another child at a segment, as far as there is room for one: in an object there
always is, in an array only where an item stands. -/
def putChild (json : Json) (segment : String) (new : Json) : Option Json :=
  match json with
  | .object members =>
    match Members.get? segment members with
    | some _ => some (.object (Members.replace segment new members))
    | none => some (.object (Members.insert segment new members))
  | .array items => (position? items segment).map fun index => .array (items.set index new)
  | _ => none

theorem exists_putChild_object (segment : String) (new : Json) (members : Members Json) :
    ∃ changed, putChild (.object members) segment new = some (.object changed) ∧
      Members.get? segment changed = some new ∧
      ∀ other, other ≠ segment → Members.get? other changed = members.get? other := by
  rw [putChild]
  split
  case h_1 old there =>
    exact ⟨_, rfl, Members.get?_replace_self there new,
      fun other differs => Members.get?_replace_of_ne differs new members⟩
  case h_2 =>
    exact ⟨_, rfl, Members.get?_insert_self segment new members,
      fun other differs => Members.get?_insert_of_ne differs new members⟩

theorem selection_putChild (put : json.putChild segment new = some after) :
    after.selection = json.selection := by
  cases json with
  | object members =>
    obtain ⟨changed, run, _⟩ := exists_putChild_object segment new members
    rw [run] at put
    cases put
    rfl
  | array items =>
    obtain ⟨index, _, rfl⟩ := Option.map_eq_some_iff.1 put
    rfl
  | _ => cases put

theorem child?_putChild (put : json.putChild segment new = some after) :
    child? segment after = some new := by
  cases json with
  | object members =>
    obtain ⟨changed, run, there, _⟩ := exists_putChild_object segment new members
    rw [run] at put
    cases put
    exact there
  | array items =>
    obtain ⟨index, there, rfl⟩ := Option.map_eq_some_iff.1 put
    exact item?_set there new
  | _ => cases put

theorem child?_putChild_of_ne (put : json.putChild segment new = some after)
    (differ : json.selection segment ≠ json.selection other) :
    child? other after = child? other json := by
  cases json with
  | object members =>
    obtain ⟨changed, run, _, others⟩ := exists_putChild_object segment new members
    rw [run] at put
    cases put
    exact others other fun same => differ (congrArg Sum.inl same.symm)
  | array items =>
    obtain ⟨index, there, rfl⟩ := Option.map_eq_some_iff.1 put
    exact item?_set_of_ne there (fun same => differ (congrArg Sum.inr same)) new
  | _ => cases put

theorem putChild_putChild (put : json.putChild segment new = some after) (newer : Json) :
    after.putChild segment newer = json.putChild segment newer := by
  cases json with
  | object members =>
    rw [putChild] at put ⊢
    split at put
    case h_1 old there =>
      cases put
      simp only [putChild, Members.get?_replace_self there, Members.replace_replace]
    case h_2 missing =>
      cases put
      simp only [putChild, Members.get?_insert_self, Members.replace_insert]
  | array items =>
    obtain ⟨index, there, rfl⟩ := Option.map_eq_some_iff.1 put
    simp only [putChild, position?_set, there, Option.map_some, List.set_set]
  | _ => cases put

theorem isSome_putChild (segment : String) (new newer json : Json) :
    (json.putChild segment new).isSome = (json.putChild segment newer).isSome := by
  cases json with
  | object members =>
    rw [putChild, putChild]
    cases Members.get? segment members <;> rfl
  | array items => rw [putChild, putChild, Option.isSome_map, Option.isSome_map]
  | _ => rfl

/-! ### The last segment -/

theorem child?_setChild_of_ne (differ : json.selection segment ≠ json.selection other) :
    child? other (json.setChild path segment value).json = child? other json := by
  cases json with
  | object members =>
    have apart : other ≠ segment := fun same => differ (congrArg Sum.inl same.symm)
    cases value with
    | none => exact Members.get?_erase_of_ne apart members
    | some written => exact Members.get?_insert_of_ne apart written members
  | array items =>
    rw [setChild]
    split
    case h_1 index there =>
      exact item?_set_of_ne there (fun same => differ (congrArg Sum.inr same)) _
    case h_2 => rfl
  | _ => rfl

theorem setChild_setChild (ordered : json.Ordered) (first second : Option Json)
    (done : (json.setChild path segment first).failure = none) :
    (json.setChild path segment first).json.setChild path segment second =
      json.setChild path segment second := by
  cases ordered with
  | @object members sorted each =>
    cases first <;> cases second
    · simp only [setChild, Members.erase, List.filter_filter, Bool.and_self]
    · simp only [setChild, Members.insert_erase sorted]
    · simp only [setChild, Members.erase_insert]
    · simp only [setChild, Members.insert_insert]
  | @array items each =>
    rw [setChild] at done ⊢
    split at done
    case h_1 index there =>
      simp only [setChild, position?_set, there, List.set_set]
    case h_2 => cases done
  | _ => cases done

/-! ### Further down -/

def refusal (path segment : String) : Json → WriteError
  | .array _ => .invalidSegment path segment
  | _ => .notAContainer path segment

/-- A write goes on in the child there, or in a new object, and puts back what that becomes. -/
theorem writeAt_cons (path : String) (value : Option Json) (segment next : String)
    (rest : List String) (json : Json) :
    writeAt path value (segment :: next :: rest) json =
      let below := writeAt path value (next :: rest) ((child? segment json).getD (.object []))
      match json.putChild segment below.json with
      | some after => ⟨after, below.failure⟩
      | none => ⟨json, some (json.refusal path segment)⟩ := by
  cases json with
  | object members =>
    rw [writeAt]
    cases there : Members.get? segment members with
    | none => simp only [putChild, there, child?, Option.getD_none]
    | some inner => simp only [putChild, there, child?, Option.getD_some]
  | array items =>
    rw [writeAt]
    cases there : position? items segment with
    | none =>
      have missing : item? items segment = none := by
        cases found : item? items segment with
        | none => rfl
        | some inner =>
          obtain ⟨index, known, _⟩ := exists_position_of_item? found
          rw [there] at known
          cases known
      simp only [putChild, there, missing, Option.map_none, refusal]
    | some index =>
      obtain ⟨found, inside⟩ := item?_of_position? there
      rw [List.getElem?_eq_getElem inside] at found
      simp only [putChild, there, found, child?, Option.getD_some, Option.map_some]
  | _ => rfl

theorem lookup?_singleton (segment : String) (json : Json) :
    lookup? [segment] json = child? segment json := by
  rw [lookup?]
  cases child? segment json <;> rfl

theorem getD_lookup?_cons (segment : String) (rest : List String) (json : Json) :
    (lookup? (segment :: rest) json).getD (.object []) =
      (lookup? rest ((child? segment json).getD (.object []))).getD (.object []) := by
  rw [lookup?]
  cases child? segment json with
  | some inner => rfl
  | none => cases rest <;> rfl

/-- What is found where a write went is what it set there: a missing container counts as a new
object. -/
theorem lookup?_writeAt {front : List String} {last : String}
    (done : (writeAt path value (front ++ [last]) json).failure = none) :
    lookup? (front ++ [last]) (writeAt path value (front ++ [last]) json).json =
      childAfter value ((lookup? front json).getD (.object [])) := by
  induction front generalizing json with
  | nil =>
    rw [List.nil_append, lookup?_singleton, lookup?, Option.getD_some]
    exact child?_setChild done
  | cons segment rest ih =>
    obtain ⟨next, more, shape⟩ := List.exists_cons_of_ne_nil (List.concat_ne_nil last rest)
    rw [getD_lookup?_cons]
    rw [List.cons_append, shape, writeAt_cons, ← shape] at done ⊢
    dsimp only at done ⊢
    split at done
    case h_1 after put => rw [lookup?, child?_putChild put, Option.bind_some, ih done]
    case h_2 => cases done

/-- Two rows of segments lead apart: at some step one of them selects another child than the other
one, and up to there both select the same. A missing child counts as a new object. -/
inductive Diverge : Json → List String → List String → Prop
  | here {json : Json} {s t : String} {p q : List String}
    (differ : json.selection s ≠ json.selection t) : Diverge json (s :: p) (t :: q)
  | further {json : Json} {s t : String} {p q : List String}
    (same : json.selection s = json.selection t)
    (later : Diverge ((child? s json).getD (.object [])) p q) : Diverge json (s :: p) (t :: q)

theorem lookup?_writeAt_of_diverge {others : List String} (apart : Diverge json steps others)
    (path : String) (value : Option Json) :
    lookup? others (writeAt path value steps json).json = lookup? others json := by
  induction apart with
  | @here json s t p q differ =>
    cases p with
    | nil => exact congrArg (Option.bind · (lookup? q)) (child?_setChild_of_ne differ)
    | cons next rest =>
      rw [writeAt_cons]
      dsimp only
      split
      case h_1 after put => rw [lookup?, lookup?, child?_putChild_of_ne put differ]
      case h_2 => rfl
  | @further json s t p q same later ih =>
    cases p with
    | nil => cases later
    | cons next rest =>
      rw [writeAt_cons]
      dsimp only
      split
      case h_1 after put =>
        have selects : after.selection s = after.selection t := by rw [selection_putChild put, same]
        rw [lookup?, ← child?_congr selects, child?_putChild put, Option.bind_some, ih, lookup?,
          ← child?_congr same]
        cases child? s json with
        | some inner => rfl
        | none => cases later <;> rfl
      case h_2 => rfl

/-- Whether a write succeeds depends neither on what is written nor on how the path is spelt. -/
theorem failure_writeAt_eq_none_iff (p q : String) (first second : Option Json)
    (steps : List String) (json : Json) :
    (writeAt p first steps json).failure = none ↔
      (writeAt q second steps json).failure = none := by
  induction steps generalizing json with
  | nil => simp [writeAt]
  | cons segment rest ih =>
    cases rest with
    | nil =>
      show (json.setChild p segment first).failure = none ↔
        (json.setChild q segment second).failure = none
      cases json with
      | object members => rw [failure_setChild_object, failure_setChild_object]
      | array items =>
        rw [setChild, setChild]
        cases position? items segment <;> simp
      | _ => simp [setChild]
    | cons next more =>
      rw [writeAt_cons, writeAt_cons]
      dsimp only
      have room := isSome_putChild segment
        (writeAt p first (next :: more) ((child? segment json).getD (.object []))).json
        (writeAt q second (next :: more) ((child? segment json).getD (.object []))).json json
      split <;> split
      · exact ih _
      all_goals simp_all

/-- Of two writes at one place only the later matters. -/
theorem writeAt_writeAt (ordered : json.Ordered) (first second : Option Json)
    (done : (writeAt path first steps json).failure = none) :
    writeAt path second steps (writeAt path first steps json).json =
      writeAt path second steps json := by
  induction steps generalizing json with
  | nil => rfl
  | cons segment rest ih =>
    cases rest with
    | nil => exact setChild_setChild ordered first second done
    | cons next more =>
      have inner : ((child? segment json).getD (.object [])).Ordered := by
        cases found : child? segment json with
        | none => exact ordered_object_nil
        | some inner => exact ordered.of_child? found
      rw [writeAt_cons path first] at done ⊢
      dsimp only at done ⊢
      split at done
      case h_1 after put =>
        have room := isSome_putChild segment
          (writeAt path first (next :: more) ((child? segment json).getD (.object []))).json
          (writeAt path second (next :: more) ((child? segment json).getD (.object []))).json json
        rw [writeAt_cons, writeAt_cons path second segment next more json]
        dsimp only
        rw [child?_putChild put, Option.getD_some, ih inner done, putChild_putChild put]
        rw [put, Option.isSome_some, eq_comm, Option.isSome_iff_exists] at room
        obtain ⟨changed, again⟩ := room
        rw [again]
      case h_2 => cases done

/-! ### The laws -/

/-- A write that fails changes nothing. After one that is done the path reads the JSON form of the
value, or if that is `undefined`, null from an array and nothing from an object. Paths that lead
elsewhere read as before either way, and a later write at the path leaves what it leaves alone. -/
theorem assign_lawful (json : Json) (path : String) (v : Value) :
    (∀ cause, (json.assign path v).failure = some cause → (json.assign path v).json = json) ∧
    ((json.assign path v).failure = none → ∃ front last, segments path = front ++ [last] ∧
      (json.assign path v).json.valueAt path =
        match v, lookup? front json with
        | .undefined, some (.array _) => .null
        | .undefined, _ => .undefined
        | v, _ => .ofJson v.toNestedJson) ∧
    (∀ other, Diverge json (segments path) (segments other) →
      (json.assign path v).json.valueAt other = json.valueAt other) ∧
    (json.Ordered → ∀ first, (json.assign path first).failure = none → ∃ after,
      (json.assign path first).json.assign path v = ⟨after, none⟩ ∧
      json.assign path v = ⟨after, none⟩) := by
  refine ⟨fun cause failed => json_of_failure_writeAt failed, fun done => ?_, fun other apart => ?_,
    fun ordered first done => ?_⟩
  · rcases List.eq_nil_or_concat' (segments path) with hnil | ⟨front, last, split⟩
    · rw [assign, hnil] at done
      cases done
    refine ⟨front, last, split, ?_⟩
    rw [assign, split] at done
    rw [valueAt, assign, split, lookup?_writeAt done]
    cases v with
    | undefined =>
      cases lookup? front json with
      | none => rfl
      | some container => cases container <;> rfl
    | _ => rfl
  · rw [valueAt, assign, lookup?_writeAt_of_diverge apart, valueAt]
  · have alone : (json.assign path v).failure = none :=
      (failure_writeAt_eq_none_iff path path first.toJson? v.toJson? _ json).1 done
    refine ⟨(json.assign path v).json, ?_, ?_⟩
    · rw [← alone]
      exact writeAt_writeAt ordered first.toJson? v.toJson? done
    · rw [← alone]

/-- In the first item there is no object yet that the path leads into. Removing a member of it
leaves an empty one, whatever was written there in between, and the second item as it was. -/
theorem assign_lawful_of_items : ∃ json after : Json,
    json = .object [("list", .array [.object [], .bool true])] ∧ json.Ordered ∧
    json.assign "list.+0.new.x" .undefined = ⟨after, none⟩ ∧
    (json.assign "list.+0.new.x" (.bool false)).json.assign "list.+0.new.x" .undefined =
      ⟨after, none⟩ ∧
    after.valueAt "list.+0.new.x" = .undefined ∧ after.valueAt "list.01" = json.valueAt "list.01" ∧
    after.valueAt "list.0.new.y" = json.valueAt "list.0.new.y" := by
  let json : Json := .object [("list", .array [.object [], .bool true])]
  have items : Ordered (.array [.object [], .bool true]) :=
    .array (by simpa using ⟨ordered_object_nil, .bool true⟩)
  have ordered : json.Ordered := .object (List.pairwise_singleton _ _) (by simpa using items)
  have there : segments "list.+0.new.x" = ["list", "+0", "new"] ++ ["x"] := by decide +kernel
  have item : segments "list.01" = ["list", "01"] := by decide +kernel
  have name : segments "list.0.new.y" = ["list", "0", "new", "y"] := by decide +kernel
  obtain ⟨_, reading, others, again⟩ := assign_lawful json "list.+0.new.x" .undefined
  obtain ⟨after, twice, once⟩ := again ordered (.bool false) (by decide +kernel)
  rw [once] at reading others
  obtain ⟨front, last, split, value⟩ := reading rfl
  obtain ⟨rfl, _⟩ := List.append_inj' (split.symm.trans there) rfl
  refine ⟨json, after, rfl, ordered, once, twice, value, others _ ?_, others _ ?_⟩
  · rw [there, item]
    exact .further rfl (.here (by decide +kernel))
  · rw [there, name]
    exact .further rfl (.further rfl (.further rfl (.here (by decide +kernel))))

end Json

end DataBinding
