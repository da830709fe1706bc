import DataBinding.Definition.Basic
import Mathlib.Data.List.Nodup

/-!
# Links of definitions

What a definition owns, read as one list of handles, and how the operations on a single definition
change that list: giving a role, letting go of a definition, carrying links to other places.
-/

namespace DataBinding

namespace Content

variable {content renewed : Content} {role : Role}

theorem kind_of_setHolder? {h : Option Handle} (set : content.setHolder? role h = some renewed) :
    renewed.kind = content.kind := by
  cases content <;> cases role <;> simp only [setHolder?, Option.some.injEq, reduceCtorEq] at set <;>
    subst set <;> rfl

theorem holder?_of_setHolder? {h : Option Handle}
    (set : content.setHolder? role h = some renewed) (other : Role) :
    renewed.holder? other = if other = role then h else content.holder? other := by
  cases content <;> cases role <;> simp only [setHolder?, Option.some.injEq, reduceCtorEq] at set <;>
    subst set <;> cases other <;> rfl

theorem setHolder?_isSome_iff {h : Option Handle} :
    (content.setHolder? role h).isSome ↔ role ∈ content.kind.roles := by
  cases content <;> cases role <;> simp [setHolder?, kind, Kind.roles]

theorem mem_roles_of_holder? {h : Handle} (filled : content.holder? role = some h) :
    role ∈ content.kind.roles := by
  cases content <;> cases role <;> simp_all [holder?, kind, Kind.roles]

theorem mem_holders {h : Handle} : (role, h) ∈ content.holders ↔ content.holder? role = some h := by
  simp only [holders, List.mem_filterMap, Option.map_eq_some_iff, Prod.mk.injEq]
  constructor
  · rintro ⟨_, _, _, filled, rfl, rfl⟩
    exact filled
  · intro filled
    exact ⟨role, mem_roles_of_holder? filled, h, filled, rfl, rfl⟩

@[simp] theorem kind_mapHolders (place : Handle → Option Handle) (content : Content) :
    (content.mapHolders place).kind = content.kind := by
  cases content <;> rfl

@[simp] theorem holder?_mapHolders (place : Handle → Option Handle) (content : Content)
    (role : Role) : (content.mapHolders place).holder? role = (content.holder? role).bind place := by
  cases content <;> cases role <;> rfl

theorem mapHolders_eq_self {place : Handle → Option Handle}
    (same : ∀ role h, content.holder? role = some h → place h = some h) :
    content.mapHolders place = content := by
  have bind : ∀ role, (content.holder? role).bind place = content.holder? role := by
    intro role
    cases filled : content.holder? role with
    | none => rfl
    | some h => exact same role h filled
  cases content with
  | dropdown label required _ => exact congrArg (dropdown label required) (bind .possibleValues)
  | form title _ _ => exact congrArg₂ (form title) (bind .header) (bind .footer)
  | table _ _ => exact congrArg₂ table (bind .header) (bind .details)
  | tree _ => exact congrArg tree (bind .details)
  | _ => rfl

theorem holders_mapHolders (place : Handle → Option Handle) (content : Content) :
    (content.mapHolders place).holders =
      content.holders.filterMap fun holder => (place holder.2).map fun h => (holder.1, h) := by
  rw [holders, holders, kind_mapHolders, List.filterMap_filterMap]
  apply List.filterMap_congr
  intro role _
  cases filled : content.holder? role <;> simp [filled]

theorem holders_panel (title : String) : (panel title).holders = [] :=
  rfl

theorem holders_input (label : String) (required : Bool) : (input label required).holders = [] :=
  rfl

theorem holders_form (title : String) : (form title none none).holders = [] :=
  rfl

theorem holders_dropdown (label : String) (required : Bool) :
    (dropdown label required none).holders = [] :=
  rfl

theorem map_snd_holders (content : Content) :
    content.holders.map (·.2) = content.kind.roles.filterMap content.holder? := by
  rw [holders, List.map_filterMap]
  apply List.filterMap_congr
  intro role _
  cases content.holder? role <;> rfl

private theorem filterMap_holder? (content : Content) :
    content.kind.roles.filterMap content.holder? =
      match content with
      | .dropdown _ _ possibleValues => possibleValues.toList
      | .form _ header footer => header.toList ++ footer.toList
      | .table header details => header.toList ++ details.toList
      | .tree details => details.toList
      | _ => [] := by
  cases content with
  | dropdown label required possibleValues => cases possibleValues <;> rfl
  | form title header footer => cases header <;> cases footer <;> rfl
  | table header details => cases header <;> cases details <;> rfl
  | tree details => cases details <;> rfl
  | _ => rfl

/-- Giving a role to a definition takes it from whoever had it; nothing else changes hands. -/
theorem holders_setHolder?_perm {h : Handle}
    (set : content.setHolder? role (some h) = some renewed) :
    (renewed.holders.map (·.2) ++ (content.holder? role).toList).Perm
      (h :: content.holders.map (·.2)) := by
  rw [List.perm_iff_count]
  intro x
  simp only [map_snd_holders, filterMap_holder?]
  cases content <;> cases role <;> simp only [setHolder?, Option.some.injEq, reduceCtorEq] at set <;>
    subst set <;> simp [holder?, List.count_cons] <;> omega

end Content

namespace Definition

variable {F : Type}

def belongings (d : Definition F) : List Handle :=
  d.owned.map (·.2)

theorem belongings_eq (d : Definition F) :
    d.belongings = d.children ++ d.content.holders.map (·.2) := by
  simp [belongings, owned, Function.comp_def]

theorem mem_belongings_of_holder? {d : Definition F} {role : Role} {h : Handle}
    (filled : d.content.holder? role = some h) : h ∈ d.belongings := by
  rw [belongings_eq]
  exact List.mem_append_right _ (List.mem_map_of_mem (Content.mem_holders.2 filled))

theorem owned_relocate (place : Handle → Option Handle) (d : Definition F) :
    (d.relocate place).owned =
      d.owned.filterMap fun piece => (place piece.2).map fun h => (piece.1, h) := by
  simp only [owned, relocate, Content.holders_mapHolders, List.filterMap_append,
    List.filterMap_map, List.map_filterMap, Function.comp_def, Option.map_map]

theorem belongings_relocate (place : Handle → Option Handle) (d : Definition F) :
    (d.relocate place).belongings = d.belongings.filterMap place := by
  rw [belongings, owned_relocate, List.map_filterMap, belongings, List.filterMap_map]
  apply List.filterMap_congr
  intro piece _
  cases moved : place piece.2 <;> simp [moved]

theorem kind_release (h : Handle) (d : Definition F) : (d.release h).kind = d.kind :=
  Content.kind_mapHolders _ _

theorem belongings_release (h : Handle) (d : Definition F) :
    (d.release h).belongings = d.belongings.filter (· ≠ h) := by
  rw [belongings_eq, belongings_eq, List.filter_append]
  congr 1
  simp only [release, Content.map_snd_holders, Content.kind_mapHolders, List.filter_filterMap]
  apply List.filterMap_congr
  intro role _
  rw [Content.holder?_mapHolders]
  cases d.content.holder? role with
  | none => rfl
  | some holder => by_cases same : holder = h <;> simp [same, Option.filter]

theorem belongings_release_perm {h : Handle} {d : Definition F} (distinct : d.belongings.Nodup)
    (owned : h ∈ d.belongings) : d.belongings.Perm (h :: (d.release h).belongings) := by
  rw [belongings_release]
  have erased := List.perm_cons_erase owned
  rw [distinct.erase_eq_filter] at erased
  simpa [bne, beq_eq_decide] using erased

theorem belongings_setHolder?_perm {role : Role} {h : Handle} {renewed : Content} {d : Definition F}
    (set : d.content.setHolder? role (some h) = some renewed) :
    (({ d with content := renewed } : Definition F).belongings ++
      (d.content.holder? role).toList).Perm (h :: d.belongings) := by
  rw [belongings_eq, belongings_eq, List.append_assoc]
  exact ((Content.holders_setHolder?_perm set).append_left d.children).trans List.perm_middle

theorem release_of_not_mem {h : Handle} {d : Definition F} (absent : h ∉ d.belongings) :
    d.release h = d := by
  rw [belongings_eq, List.mem_append, not_or] at absent
  obtain ⟨noChild, noHolder⟩ := absent
  have children : d.children.filter (· ≠ h) = d.children := by
    rw [List.filter_eq_self]
    intro child inside
    exact decide_eq_true fun same => noChild (same ▸ inside)
  have content : (d.content.mapHolders fun x => if x = h then none else some x) = d.content := by
    apply Content.mapHolders_eq_self
    intro role holder filled
    rw [if_neg]
    rintro rfl
    exact noHolder (List.mem_map_of_mem (Content.mem_holders.2 filled))
  rw [release, children, content]

end Definition

end DataBinding
