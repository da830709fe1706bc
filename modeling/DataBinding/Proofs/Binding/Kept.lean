import DataBinding.Proofs.Binding.Pruning

/-!
# What pruning keeps

Pruning for a list of paths keeps what these paths read, with every report about what they cannot
read, and nothing beside it: of an object only the members that some path names, unless a path asks
for the object as a whole. Nothing more is left to prune then.
-/

namespace DataBinding

namespace Json

theorem foldl_eraseKey_object (keys : List String) (members : Members Json) :
    keys.foldl (fun json key => json.eraseKey key) (Json.object members) =
      Json.object (members.filter fun member => member.1 ∉ keys) := by
  induction keys generalizing members with
  | nil => exact congrArg Json.object (List.filter_eq_self.2 (by simp)).symm
  | cons key rest ih =>
    rw [List.foldl_cons, eraseKey, ih, Members.erase, List.filter_filter]
    congr 1
    apply List.filter_congr
    intro member _
    simp [Bool.and_comm]

end Json

namespace Data

variable {data : Data} {paths : List String}

/-- Some path leads into the element at an index, and there starts with a segment. -/
def Named (paths : List String) (index : Nat) (segment : String) : Prop :=
  ∃ path ∈ paths, ∃ anchor inside, Address.parse path = .ok (.element anchor inside) ∧
    anchor.toNat = index ∧ firstSegment inside = segment

theorem mem_heads {index : Nat} {segment : String} :
    segment ∈ heads paths index ↔ Named paths index segment := by
  rw [heads, List.mem_filterMap]
  constructor
  · rintro ⟨path, listed, head⟩
    split at head
    case h_1 anchor inside parsed =>
      split at head
      case isTrue same => exact ⟨path, listed, anchor, inside, parsed, same, Option.some.inj head⟩
      case isFalse => cases head
    case h_2 => cases head
  · rintro ⟨path, listed, anchor, inside, parsed, same, rfl⟩
    exact ⟨path, listed, by simp [parsed, same]⟩

theorem length_prune (data : Data) (paths : List String) :
    (data.prune paths).length = data.length := by
  unfold prune
  split
  · rfl
  · exact List.length_mapIdx

theorem getElem?_prune_eq_none_iff (index : Nat) :
    (data.prune paths)[index]? = some none ↔ data[index]? = some none := by
  by_cases hnil : paths = []
  · rw [hnil, prune_nil]
  · rw [getElem?_prune hnil]
    simp

theorem resolveAll_prune (data : Data) (paths : List String) :
    (data.prune paths).resolveAll paths = data.resolveAll paths := by
  by_cases hnil : paths.isEmpty = true
  · rw [List.isEmpty_iff.1 hnil, prune_nil]
  rw [resolveAll, resolveAll, if_neg hnil, if_neg hnil]
  apply List.map_congr_left
  intro path listed
  have same : (data.prune paths).readPath path = data.readPath path := by
    rw [readPath, readPath]
    cases parsed : Address.parse path with
    | error cause => rfl
    | ok address =>
      cases address with
      | element index inside => exact readAddress_prune listed parsed (.inr rfl)
      | _ => rfl
  rw [resolve, resolve, same, length_prune]

/-- Of an object that no path reads as a whole, pruning keeps exactly the members that are named. -/
theorem pruneElement_object {heads : List String} (whole : "" ∉ heads) (members : Members Json) :
    pruneElement heads (.object members) =
      .object (members.filter fun member => member.1 ∈ heads) := by
  rw [pruneElement, if_neg whole, Json.foldl_eraseKey_object]
  congr 1
  apply List.filter_congr
  intro member inside
  have listed : member.1 ∈ Members.keys members := List.mem_map_of_mem inside
  simp [Json.keys, listed]

theorem pruneElement_idem (heads : List String) (json : Json) :
    pruneElement heads (pruneElement heads json) = pruneElement heads json := by
  by_cases whole : "" ∈ heads
  · simp [pruneElement, whole]
  cases json with
  | object members =>
    rw [pruneElement_object whole, pruneElement_object whole, List.filter_filter]
    simp
  | _ => simp [pruneElement, Json.keys]

theorem prune_prune (data : Data) (paths : List String) :
    (data.prune paths).prune paths = data.prune paths := by
  by_cases hnil : paths = []
  · rw [hnil, prune_nil]
  apply List.ext_getElem?
  intro index
  rw [getElem?_prune hnil, getElem?_prune hnil, Option.map_map]
  congr 1
  funext element
  cases element with
  | none => rfl
  | some json => exact congrArg some (pruneElement_idem _ json)

/-- Pruning is sound and keeps no more than it has to, whatever the paths and the data are. The same
elements are there and are missing; the paths read the same and the same is reported about them; and
of an object stay the members that some path names, in their order, or all of it if a path has no
segment to name one. What is left stays when it is pruned again. -/
theorem prune_sound_minimal (data : Data) (paths : List String) :
    (data.prune paths).length = data.length ∧
    (∀ index : Nat, (data.prune paths)[index]? = some none ↔ data[index]? = some none) ∧
    (data.prune paths).resolveAll paths = data.resolveAll paths ∧
    (paths ≠ [] → ∀ (index : Nat) members, data[index]? = some (some (.object members)) →
      (Named paths index "" → (data.prune paths)[index]? = some (some (.object members))) ∧
      (¬ Named paths index "" → ∃ kept, (data.prune paths)[index]? = some (some (.object kept)) ∧
        kept.Sublist members ∧
        ∀ member, member ∈ kept ↔ member ∈ members ∧ Named paths index member.1)) ∧
    (data.prune paths).prune paths = data.prune paths := by
  refine ⟨length_prune data paths, getElem?_prune_eq_none_iff, resolveAll_prune data paths, ?_,
    prune_prune data paths⟩
  intro hne index members found
  have pruned : (data.prune paths)[index]? =
      some (some (pruneElement (heads paths index) (.object members))) := by
    rw [getElem?_prune hne, found]
    rfl
  refine ⟨fun named => ?_, fun unnamed => ?_⟩
  · rw [pruned, pruneElement, if_pos (mem_heads.2 named)]
  · rw [← mem_heads] at unnamed
    refine ⟨_, by rw [pruned, pruneElement_object unnamed], List.filter_sublist, fun member => ?_⟩
    simp [mem_heads]

/-- The first element keeps a member and not another whose name starts like it; a path with a stray
dot keeps the second one whole; and what cannot be read keeps nothing. -/
theorem prune_sound_minimal_of_members :
    let data : Data := [some (.object [("a", .null), ("ab", .null)]), some (.object [("c", .null)]), none]
    let paths := ["%0%.a.b", "%1%..d", "%7", "%9%.ab", ""]
    (∃ kept, (data.prune paths)[0]? = some (some (.object kept)) ∧ ("a", .null) ∈ kept ∧
      ("ab", .null) ∉ kept) ∧ (data.prune paths)[1]? = some (some (.object [("c", .null)])) := by
  intro data paths
  obtain ⟨_, _, _, minimal, _⟩ := prune_sound_minimal data paths
  have unnamed : ¬ Named paths 0 "" := by
    rw [← mem_heads]
    decide +kernel
  have named : Named paths 1 "" := by
    rw [← mem_heads]
    decide +kernel
  have other : "ab" ∉ heads paths 0 := by decide +kernel
  have first : "a" ∈ heads paths 0 := by decide +kernel
  rw [mem_heads] at first other
  obtain ⟨kept, pruned, _, members⟩ := (minimal (List.cons_ne_nil _ _) 0 _ rfl).2 unnamed
  refine ⟨⟨kept, pruned, (members _).2 ⟨?_, first⟩, fun inside => other ((members _).1 inside).2⟩, ?_⟩
  · exact List.mem_cons_self
  · exact (minimal (List.cons_ne_nil _ _) 1 _ rfl).1 named

end Data

end DataBinding
