import DataBinding.Binding.Resolution
import DataBinding.Proofs.Path.Extension

/-!
# Reading pruned data

What is pruned for some paths reads the same along these paths, and along every path that extends one
of them: the member that the path starts with is kept, or the whole element is.
-/

namespace DataBinding

namespace Json

theorem child?_eraseKey {name key : String} (differ : name ≠ key) (json : Json) :
    child? name (eraseKey key json) = child? name json := by
  cases json with
  | object members => exact Members.get?_erase_of_ne differ members
  | _ => rfl

theorem child?_foldl_eraseKey {name : String} {keys : List String} (absent : name ∉ keys)
    (json : Json) : child? name (keys.foldl (fun json key => json.eraseKey key) json) =
      child? name json := by
  induction keys generalizing json with
  | nil => rfl
  | cons key rest ih =>
    obtain ⟨differ, later⟩ := List.ne_and_not_mem_of_not_mem_cons absent
    rw [List.foldl_cons, ih later, child?_eraseKey differ]

theorem segments_eq (inside : String) (hne : firstSegment inside ≠ "") :
    ∃ rest, segments inside = firstSegment inside :: rest := by
  have split : ∃ rest, Text.split '.' inside = firstSegment inside :: rest := ⟨_, rfl⟩
  obtain ⟨rest, split⟩ := split
  refine ⟨rest.filter (· ≠ ""), ?_⟩
  rw [segments, split, List.filter_cons, if_pos (decide_eq_true hne)]

/-- A value at a path depends on nothing but the member that the path starts with. -/
theorem valueAt_congr {inside : String} {json other : Json} (hne : firstSegment inside ≠ "")
    (same : child? (firstSegment inside) json = child? (firstSegment inside) other) :
    json.valueAt inside = other.valueAt inside := by
  obtain ⟨rest, split⟩ := segments_eq inside hne
  rw [valueAt, valueAt, split, lookup?, lookup?, same]

end Json

namespace Data

variable {data : Data} {paths : List String}

theorem readingOf_pruneElement {heads : List String} {inside : String}
    (kept : "" ∈ heads ∨ firstSegment inside ∈ heads) (json : Json) :
    readingOf inside (pruneElement heads json) = readingOf inside json := by
  unfold pruneElement
  split
  case isTrue => rfl
  case isFalse whole =>
    have named := kept.resolve_left whole
    have hsegment : firstSegment inside ≠ "" := by
      intro empty
      rw [empty] at named
      exact whole named
    have nonempty : inside ≠ "" := by
      rintro rfl
      exact hsegment rfl
    rw [readingOf, readingOf, if_neg nonempty, if_neg nonempty, Json.valueAt_congr hsegment]
    refine Json.child?_foldl_eraseKey ?_ json
    rw [List.mem_filter, not_and]
    intro _ erased
    exact of_decide_eq_true erased named

theorem getElem?_prune (hne : paths ≠ []) (index : Nat) :
    (data.prune paths)[index]? = (data[index]?).map (Option.map (pruneElement (heads paths index))) := by
  have filled : paths.isEmpty = false := by
    cases paths with
    | nil => exact absurd rfl hne
    | cons => rfl
  rw [prune, filled, if_neg Bool.false_ne_true, List.getElem?_mapIdx]

theorem elementAt_prune (hne : paths ≠ []) (index : UInt64) :
    (data.prune paths).elementAt index =
      (data.elementAt index).map (pruneElement (heads paths index.toNat)) := by
  rw [elementAt, elementAt, getElem?_prune hne]
  cases data[index.toNat]? with
  | none => rfl
  | some element => cases element <;> rfl

/-- An element reads the same inside a member that a path names which the data was pruned for. -/
theorem readAddress_prune {path : String} (listed : path ∈ paths) {index : UInt64}
    {upper inside : String} (parsed : Address.parse path = .ok (.element index upper))
    (segment : firstSegment upper = "" ∨ firstSegment upper = firstSegment inside) :
    (data.prune paths).readAddress (.element index inside) =
      data.readAddress (.element index inside) := by
  have named : firstSegment upper ∈ heads paths index.toNat := by
    rw [heads, List.mem_filterMap]
    exact ⟨path, listed, by simp [parsed]⟩
  have kept : "" ∈ heads paths index.toNat ∨ firstSegment inside ∈ heads paths index.toNat := by
    rcases segment with empty | same
    · exact .inl (empty ▸ named)
    · exact .inr (same ▸ named)
  simp only [readAddress, elementAt_prune (List.ne_nil_of_mem listed)]
  cases data.elementAt index with
  | error _ => rfl
  | ok json => exact congrArg Except.ok (readingOf_pruneElement kept json)

theorem readPath_prune {path longer : String} (listed : path ∈ paths)
    (anchored : Path.isAnchored path = true) (extension : Path.Extends path longer) :
    (data.prune paths).readPath longer = data.readPath longer := by
  rw [readPath, readPath]
  cases reads : Address.parse longer with
  | error cause => rfl
  | ok address =>
    cases address with
    | element index inside =>
      obtain ⟨upper, parsed, segment⟩ := exists_element_of_extends anchored extension reads
      exact readAddress_prune listed parsed segment
    | _ => rfl

theorem reading_resolve (data : Data) (path : String) :
    (data.resolve path).reading = (data.readPath path).toOption.getD .null := by
  rw [resolve]
  cases data.readPath path <;> rfl

theorem readings_prune {longer : List String} (hne : longer ≠ [])
    (extended : ∀ path ∈ longer, ∃ upper ∈ paths, Path.isAnchored upper = true ∧
      Path.Extends upper path) : (data.prune paths).readings longer = data.readings longer := by
  have filled : longer.isEmpty = false := by
    cases longer with
    | nil => exact absurd rfl hne
    | cons => rfl
  rw [readings, readings, resolveAll, resolveAll, filled, if_neg Bool.false_ne_true,
    if_neg Bool.false_ne_true, List.map_map, List.map_map]
  apply List.map_congr_left
  intro path inside
  obtain ⟨upper, listed, anchored, extension⟩ := extended path inside
  rw [Function.comp_apply, Function.comp_apply, reading_resolve, reading_resolve,
    readPath_prune listed anchored extension]

theorem prune_nil (data : Data) : data.prune [] = data :=
  rfl

/-! ### Data written and read -/

theorem ofJson_toJson (present : some .null ∉ data) : ofJson data.toJson = data := by
  show (data.map fun element => element.getD .null).map element = data
  rw [List.map_map]
  refine (List.map_congr_left (g := id) fun place inside => ?_).trans (List.map_id data)
  cases place with
  | none => rfl
  | some json =>
    cases json with
    | null => exact absurd inside present
    | _ => rfl

theorem eraseKeys_eq_null {keys : List String} {json : Json}
    (null : keys.foldl (fun json key => json.eraseKey key) json = .null) : json = .null := by
  induction keys generalizing json with
  | nil => exact null
  | cons key rest ih =>
    have first := ih null
    cases json with
    | null => rfl
    | _ => cases first

theorem null_notMem_prune (present : some .null ∉ data) : some .null ∉ data.prune paths := by
  by_cases hnil : paths = []
  · rwa [hnil, prune_nil]
  intro inside
  obtain ⟨index, there⟩ := List.getElem?_of_mem inside
  rw [getElem?_prune hnil, Option.map_eq_some_iff] at there
  obtain ⟨element, found, kept⟩ := there
  obtain ⟨json, rfl, pruned⟩ := Option.map_eq_some_iff.1 kept
  have null : json = .null := by
    unfold pruneElement at pruned
    split at pruned
    · exact pruned
    · exact eraseKeys_eq_null pruned
  rw [null] at found
  exact present (List.mem_of_getElem? found)

end Data

end DataBinding
