import DataBinding.Proofs.Binding.Kept
import DataBinding.Proofs.Json.Ordered

/-!
# What pruning discloses

Two rows of data are pruned to the same exactly when nothing tells them apart that pruning keeps: of
two objects the members that some path names, and the whole of them if a path names none. An array
and a value without members are kept as they are, so they disclose everything, whether a path reads
it or not.
-/

namespace DataBinding

namespace Data

variable {data other : Data} {paths : List String} {index : Nat} {json json' : Json}

/-- Wherever a path leads into two elements it finds the same: the whole of them, if it names no
member, and otherwise the member that it names. -/
def Agree (paths : List String) (index : Nat) (json json' : Json) : Prop :=
  ∀ segment, Named paths index segment →
    if segment = "" then json = json' else json.child? segment = json'.child? segment

inductive Alike (paths : List String) (index : Nat) : Option Json → Option Json → Prop
  | missing : Alike paths index none none
  | same (json : Json) : Alike paths index (some json) (some json)
  | objects {members others : Members Json}
    (agree : Agree paths index (.object members) (.object others)) :
    Alike paths index (some (.object members)) (some (.object others))

theorem Alike.eq_of_not_object (alike : Alike paths index (some json) (some json'))
    (plain : ∀ members, json ≠ .object members) : json = json' := by
  cases alike with
  | same => rfl
  | objects => exact absurd rfl (plain _)

theorem pruneElement_cases (names : List String) (json : Json) :
    (∃ members kept, json = .object members ∧ pruneElement names json = .object kept) ∨
      (∀ members, json ≠ .object members) ∧ pruneElement names json = json := by
  cases json with
  | object members =>
    by_cases whole : "" ∈ names
    · exact .inl ⟨members, members, rfl, if_pos whole⟩
    · exact .inl ⟨members, _, rfl, pruneElement_object whole members⟩
  | _ => exact .inr ⟨fun _ => Json.noConfusion, by simp [pruneElement, Json.keys]⟩

theorem pruneElement_object_eq_iff {members others : Members Json} (sorted : members.Sorted)
    (sorted' : others.Sorted) :
    pruneElement (heads paths index) (.object members) =
        pruneElement (heads paths index) (.object others) ↔
      Agree paths index (.object members) (.object others) := by
  simp only [Agree, ← mem_heads]
  by_cases whole : "" ∈ heads paths index
  · rw [pruneElement, pruneElement, if_pos whole, if_pos whole]
    constructor
    · intro same segment _
      rw [same]
      split <;> rfl
    · exact fun agree => agree "" whole
  · rw [pruneElement_object whole, pruneElement_object whole, Json.object.injEq,
      sorted.filter_eq_filter_iff sorted' fun name => decide (name ∈ heads paths index)]
    refine forall_congr' fun name => ?_
    rw [decide_eq_true_iff]
    refine imp_congr_right fun named => ?_
    rw [if_neg fun (empty : name = "") => whole (empty ▸ named)]
    rfl

theorem pruneElement_eq_iff (ordered : json.Ordered) (ordered' : json'.Ordered) :
    pruneElement (heads paths index) json = pruneElement (heads paths index) json' ↔
      Alike paths index (some json) (some json') := by
  constructor
  · intro same
    rcases pruneElement_cases (heads paths index) json with
      ⟨members, kept, rfl, pruned⟩ | ⟨plain, pruned⟩ <;>
    rcases pruneElement_cases (heads paths index) json' with
      ⟨others, kept', rfl, pruned'⟩ | ⟨plain', pruned'⟩
    · cases ordered with | object sorted _ =>
      cases ordered' with | object sorted' _ =>
      exact .objects ((pruneElement_object_eq_iff sorted sorted').1 same)
    · exact absurd (pruned'.symm.trans (same.symm.trans pruned)) (plain' kept)
    · exact absurd (pruned.symm.trans (same.trans pruned')) (plain kept')
    · obtain rfl : json = json' := pruned.symm.trans (same.trans pruned')
      exact .same json
  · rintro (_ | json | agree)
    · rfl
    · cases ordered with | object sorted _ =>
      cases ordered' with | object sorted' _ =>
      exact (pruneElement_object_eq_iff sorted sorted').2 agree

theorem map_pruneElement_eq_iff {place place' : Option Json}
    (ordered : ∀ json, place = some json → json.Ordered)
    (ordered' : ∀ json, place' = some json → json.Ordered) :
    place.map (pruneElement (heads paths index)) = place'.map (pruneElement (heads paths index)) ↔
      Alike paths index place place' := by
  cases place with
  | none =>
    cases place' with
    | none => exact iff_of_true rfl .missing
    | some json' => exact iff_of_false nofun nofun
  | some json =>
    cases place' with
    | none => exact iff_of_false nofun nofun
    | some json' =>
      rw [Option.map_some, Option.map_some, Option.some.injEq]
      exact pruneElement_eq_iff (ordered json rfl) (ordered' json' rfl)

/-- Two rows are pruned to the same exactly when each place of them holds objects in which the paths
find the same, or one and the same value, or nothing. So nothing is disclosed of the members of an
object that no path names, while an array or a value without members is disclosed as a whole. -/
theorem prune_eq_prune_iff (hne : paths ≠ []) (ordered : ∀ json, some json ∈ data → json.Ordered)
    (ordered' : ∀ json, some json ∈ other → json.Ordered) :
    data.prune paths = other.prune paths ↔ data.length = other.length ∧
      ∀ (index : Nat) place place', data[index]? = some place → other[index]? = some place' →
        Alike paths index place place' := by
  have places : ∀ {index place place'}, data[index]? = some place → other[index]? = some place' →
      ((data.prune paths)[index]? = (other.prune paths)[index]? ↔ Alike paths index place place') := by
    intro index place place' there there'
    rw [getElem?_prune hne, getElem?_prune hne, there, there', Option.map_some, Option.map_some,
      Option.some.injEq]
    exact map_pruneElement_eq_iff
      (fun json filled => ordered json (filled ▸ List.mem_of_getElem? there))
      (fun json filled => ordered' json (filled ▸ List.mem_of_getElem? there'))
  constructor
  · intro same
    refine ⟨?_, fun index place place' there there' => ?_⟩
    · rw [← length_prune data paths, same, length_prune]
    · exact (places there there').1 (by rw [same])
  · rintro ⟨length, alike⟩
    apply List.ext_getElem?
    intro index
    by_cases inside : index < data.length
    · have there := List.getElem?_eq_getElem inside
      have there' := List.getElem?_eq_getElem (length ▸ inside)
      exact (places there there').2 (alike index _ _ there there')
    · have beyond : data.length ≤ index := Nat.le_of_not_lt inside
      rw [List.getElem?_eq_none (by rw [length_prune]; exact beyond),
        List.getElem?_eq_none (by rw [length_prune, ← length]; exact beyond)]

private def person (surname : String) : Json :=
  .object [("name", .string "A"), ("surname", .string surname)]

private def items (last : String) : Json :=
  .array [.string "a", .string last]

private theorem ordered_person (surname : String) : (person surname).Ordered := by
  have less : "name" < "surname" := by decide
  refine .object (List.pairwise_pair.2 less) ?_
  simp only [List.mem_cons, List.not_mem_nil, or_false, forall_eq_or_imp, forall_eq]
  exact ⟨.string _, .string _⟩

private theorem ordered_items (last : String) : (items last).Ordered := by
  refine .array ?_
  simp only [List.mem_cons, List.not_mem_nil, or_false, forall_eq_or_imp, forall_eq]
  exact ⟨.string _, .string _⟩

/-- Where only names are read a surname is not disclosed. Of a list that is read at its first item the
second one is. -/
theorem prune_eq_prune_iff_of_person :
    prune ["%0%.name", "%1%.0"] [some (person "B"), some (items "b")] =
        prune ["%0%.name", "%1%.0"] [some (person "C"), some (items "b")] ∧
      prune ["%0%.name", "%1%.0"] [some (person "B"), some (items "b")] ≠
        prune ["%0%.name", "%1%.0"] [some (person "B"), some (items "c")] := by
  have ordered : ∀ surname last json, some json ∈ [some (person surname), some (items last)] →
      json.Ordered := by
    simp only [List.mem_cons, List.not_mem_nil, or_false, Option.some.injEq]
    rintro surname last json (rfl | rfl)
    · exact ordered_person surname
    · exact ordered_items last
  have names : heads ["%0%.name", "%1%.0"] 0 = ["name"] := by decide +kernel
  constructor
  · refine (prune_eq_prune_iff (List.cons_ne_nil _ _) (ordered "B" "b") (ordered "C" "b")).2
      ⟨rfl, fun index place place' there there' => ?_⟩
    match index with
    | 0 =>
      cases there
      cases there'
      refine .objects fun segment named => ?_
      rw [← mem_heads, names, List.mem_singleton] at named
      subst named
      rw [if_neg (by decide)]
      rfl
    | 1 =>
      cases there
      cases there'
      exact .same _
    | index + 2 => cases there
  · intro same
    have alike := ((prune_eq_prune_iff (List.cons_ne_nil _ _) (ordered "B" "b") (ordered "B" "c")).1
      same).2 1 _ _ rfl rfl
    have equal := alike.eq_of_not_object fun _ => Json.noConfusion
    simp [items] at equal

/-- A path that leads to the first item of a list does not keep the second one back. -/
theorem prune_not_confined : ¬ ∀ (paths : List String) (data other : Data), paths ≠ [] →
    (∀ path ∈ paths, ∃ address, Address.parse path = .ok address) →
    (∀ json, some json ∈ data → json.Ordered) → (∀ json, some json ∈ other → json.Ordered) →
    data.length = other.length → (∀ index : Nat, data[index]? = some none ↔ other[index]? = some none) →
    (∀ (index : Nat) json json', data[index]? = some (some json) → other[index]? = some (some json') →
      Agree paths index json json') →
    data.prune paths = other.prune paths := by
  intro confined
  have ordered : ∀ last json, some json ∈ [some (items last)] → json.Ordered := by
    simp only [List.mem_singleton, Option.some.injEq]
    rintro last _ rfl
    exact ordered_items last
  have named : heads ["%0%.0"] 0 = ["0"] := by decide +kernel
  have same := confined ["%0%.0"] [some (items "b")] [some (items "c")] (List.cons_ne_nil _ _)
    (by simpa using ⟨_, rfl⟩) (ordered "b") (ordered "c") rfl (fun index => ?_)
    fun index json json' there there' => ?_
  case refine_1 => cases index <;> simp
  case refine_2 =>
    match index with
    | 0 =>
      cases there
      cases there'
      intro segment first
      rw [← mem_heads, named, List.mem_singleton] at first
      subst first
      rw [if_neg (by decide)]
      rfl
    | index + 1 => cases there
  simp [prune, pruneElement, items, Json.keys] at same

end Data

end DataBinding
