import DataBinding.Json.Lookup

/-!
# Lookups one after the other

A path behind a dot is looked up in what the path before the dot leads to. Dots that follow each
other, or stand at either end, make no difference.
-/

namespace DataBinding.Json

@[simp] theorem segments_empty : segments "" = [] := by
  decide +kernel

theorem segments_ofList_append (front back : List Char) :
    segments (String.ofList (front ++ '.' :: back)) =
      segments (String.ofList front) ++ segments (String.ofList back) := by
  simp only [segments, Text.split, String.toList_ofList, Text.splitList_append_cons, List.map_append,
    List.filter_append]

theorem segments_of_not_mem {cs : List Char} (absent : '.' ∉ cs) :
    segments (String.ofList cs) = if cs = [] then [] else [String.ofList cs] := by
  rw [segments, Text.split, String.toList_ofList, Text.splitList_of_not_mem absent]
  by_cases empty : cs = []
  · simp [empty]
  · simp [empty]

theorem lookup?_append (front back : List String) (json : Json) :
    lookup? (front ++ back) json = (lookup? front json).bind (lookup? back) := by
  induction front generalizing json with
  | nil => rfl
  | cons segment rest ih =>
    rw [List.cons_append, lookup?, lookup?, Option.bind_assoc]
    congr 1
    funext inner
    exact ih inner

theorem valueAt_empty (json : Json) : json.valueAt "" = .ofJson json := by
  rw [valueAt, segments_empty, lookup?]

/-- What is found along several paths, each looked up in what the one before leads to. -/
def narrow? : List String → Json → Option Json
  | [], json => some json
  | path :: rest, json => (lookup? (segments path) json).bind (narrow? rest)

def narrowed (paths : List String) (json : Json) : Value :=
  match narrow? paths json with
  | some found => .ofJson found
  | none => .undefined

theorem narrow?_eq (paths : List String) (json : Json) :
    narrow? paths json = lookup? (paths.flatMap segments) json := by
  induction paths generalizing json with
  | nil => rfl
  | cons path rest ih =>
    rw [narrow?, List.flatMap_cons, lookup?_append]
    congr 1
    funext inner
    exact ih inner

theorem valueAt_eq_narrowed {inside : String} {paths : List String}
    (split : segments inside = paths.flatMap segments) (json : Json) :
    json.valueAt inside = json.narrowed paths := by
  have same : narrow? paths json = lookup? (segments inside) json := by rw [narrow?_eq, split]
  rw [narrowed, same]
  rfl

end DataBinding.Json
