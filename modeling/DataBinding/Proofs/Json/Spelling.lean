import DataBinding.Proofs.Json.Lens

/-!
# Spellings of a path

Dots in front, dots at the end and several dots between two names make no difference to what a path
reads and to what is written there. They make one to its holder: a dot at the end counts as if a
name came behind it, so that the holder is what is at the path itself and not the container around
it.
-/

namespace DataBinding

namespace Text

def EndsInDot (s : String) : Prop :=
  s.toList.getLast? = some '.'

instance : DecidablePred EndsInDot :=
  fun s => inferInstanceAs (Decidable (s.toList.getLast? = some '.'))

theorem endsInDot_of_splitLast? {s head last : String}
    (cut : splitLast? '.' s = some (head, last)) : EndsInDot s ↔ last = "" := by
  obtain ⟨shape, absent⟩ := chars_of_splitLast? cut
  rw [EndsInDot, shape, ← String.toList_eq_nil_iff]
  cases chars : last.toList with
  | nil => simp
  | cons c rest =>
    rw [List.getLast?_append_of_ne_nil _ (List.cons_ne_nil _ _), List.getLast?_cons_cons]
    refine iff_of_false (fun dot => absent ?_) (List.cons_ne_nil _ _)
    rw [chars]
    exact List.mem_of_getLast? dot

end Text

open Text (EndsInDot)

namespace Value

@[simp] theorem isContainer_ofJson (json : Json) :
    (ofJson json).isContainer = json.isContainer := by
  cases json <;> rfl

end Value

namespace Json

variable {p q inside last : String} {front : List String} {json : Json}

theorem valueAt_of_segments_eq (same : segments p = segments q) (json : Json) :
    json.valueAt p = json.valueAt q := by
  rw [valueAt, valueAt, same]

/-- The path of the holder: everything before the last segment, or the whole of a path that ends in
a dot. -/
theorem exists_holderPath (inside : String) : ∃ head,
    (∀ json : Json, (json.holder inside).value = json.valueAt head) ∧
      segments head = if EndsInDot inside then segments inside else (segments inside).dropLast := by
  cases cut : Text.splitLast? '.' inside with
  | none =>
    have absent := Text.not_mem_of_splitLast?_eq_none cut
    have whole : ¬ EndsInDot inside := fun dot => absent (List.mem_of_getLast? dot)
    refine ⟨"", fun json => by rw [holder, cut], ?_⟩
    have single := segments_of_not_mem absent
    rw [String.ofList_toList] at single
    rw [if_neg whole, single, segments_empty]
    split <;> rfl
  | some pieces =>
    obtain ⟨head, tail⟩ := pieces
    refine ⟨head, fun json => by rw [holder, cut], ?_⟩
    obtain ⟨shape, absent⟩ := Text.chars_of_splitLast? cut
    have split : segments inside = segments head ++ segments (String.ofList tail.toList) := by
      rw [← String.ofList_toList (s := inside), shape, segments_ofList_append, String.ofList_toList]
    rw [segments_of_not_mem absent] at split
    by_cases dot : EndsInDot inside
    · rw [(Text.endsInDot_of_splitLast? cut).1 dot] at split
      simpa [dot] using split.symm
    · have hne : tail.toList ≠ [] := fun hnil =>
        dot ((Text.endsInDot_of_splitLast? cut).2 (String.toList_eq_nil_iff.1 hnil))
      rw [if_neg hne] at split
      rw [if_neg dot, split, List.dropLast_concat]

theorem holder_of_not_endsInDot (whole : ¬ EndsInDot inside)
    (split : segments inside = front ++ [last]) (json : Json) : (json.holder inside).value =
      match lookup? front json with
      | some container => .ofJson container
      | none => .undefined := by
  obtain ⟨head, value, leads⟩ := exists_holderPath inside
  rw [if_neg whole, split, List.dropLast_concat] at leads
  cases found : lookup? front json <;> simp only [value, valueAt, leads, found]

theorem holder_of_endsInDot (dot : EndsInDot inside) (json : Json) :
    (json.holder inside).value = json.valueAt inside := by
  obtain ⟨head, value, leads⟩ := exists_holderPath inside
  rw [if_pos dot] at leads
  rw [value, valueAt_of_segments_eq leads]

/-- Apart from a dot at the end of the path, the holder is a container exactly when what the write
goes into is one that is there. -/
theorem isContainer_holder_iff (split : segments inside = front ++ [last])
    (free : EndsInDot inside → (json.valueAt inside).isContainer = true) :
    (json.holder inside).value.isContainer = true ↔
      ∃ container, lookup? front json = some container ∧ container.isContainer = true := by
  by_cases dot : EndsInDot inside
  · rw [holder_of_endsInDot dot]
    refine ⟨fun holds => ?_, fun _ => free dot⟩
    obtain ⟨found, there⟩ := exists_lookup_of_isContainer holds
    rw [split, lookup?_append] at there
    obtain ⟨container, upper, child⟩ := Option.bind_eq_some_iff.1 there
    rw [lookup?_singleton] at child
    refine ⟨container, upper, ?_⟩
    -- only a container has a child
    cases container with
    | array | object => rfl
    | _ => cases child
  · rw [holder_of_not_endsInDot dot split]
    cases lookup? front json with
    | none => simp [Value.isContainer]
    | some container => simp

/-- How a path is spelt matters only to the message of a write that fails. -/
theorem json_writeAt_eq (p q : String) (value : Option Json) (steps : List String) (json : Json) :
    (writeAt p value steps json).json = (writeAt q value steps json).json := by
  induction steps generalizing json with
  | nil => rfl
  | cons segment rest ih =>
    cases rest with
    | nil =>
      show (json.setChild p segment value).json = (json.setChild q segment value).json
      cases json with
      | object members => cases value <;> rfl
      | array items =>
        rw [setChild, setChild]
        cases position? items segment <;> rfl
      | _ => rfl
    | cons next more =>
      rw [writeAt_cons, writeAt_cons]
      dsimp only
      rw [ih]
      split <;> rfl

theorem json_assign_eq (same : segments p = segments q) (v : Value) (json : Json) :
    (json.assign p v).json = (json.assign q v).json := by
  rw [assign, assign, same, json_writeAt_eq p q]

theorem failure_assign_eq_none_iff (same : segments p = segments q) (v : Value) (json : Json) :
    (json.assign p v).failure = none ↔ (json.assign q v).failure = none := by
  rw [assign, assign, same]
  exact failure_writeAt_eq_none_iff p q _ _ _ json

end Json

end DataBinding
