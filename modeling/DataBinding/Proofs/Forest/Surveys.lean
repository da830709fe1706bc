import DataBinding.Forest.Survey
import DataBinding.Proofs.Forest.Plantings

/-!
# Surveys

The blueprint of a branch, as planting goes through it: the definition it starts with is the
definition at the top without links, under the name of its kind. The branches that the top owns come
in a fixed order.
-/

namespace DataBinding

namespace Content

def alone : Content → Content
  | .dropdown label required _ => .dropdown label required none
  | .form title _ _ => .form title none none
  | .table _ _ => .table none none
  | .tree _ => .tree none
  | content => content

@[simp] theorem kind_alone (content : Content) : content.alone.kind = content.kind := by
  cases content <;> rfl

@[simp] theorem holder?_alone (content : Content) (role : Role) :
    content.alone.holder? role = none := by
  cases content <;> cases role <;> rfl

end Content

theorem Kind.roles_sublist (kind : Kind) : kind.roles.Sublist Role.all := by
  cases kind <;> decide

theorem Content.map_fst_holders_sublist (content : Content) :
    (content.holders.map (·.1)).Sublist content.kind.roles := by
  rw [holders]
  induction content.kind.roles with
  | nil => exact .slnil
  | cons role rest ih =>
    cases filled : content.holder? role with
    | none =>
      rw [List.filterMap_cons, filled]
      exact ih.cons role
    | some h =>
      rw [List.filterMap_cons, filled]
      exact ih.cons_cons role

namespace Traits

theorem content_ofDefinition (d : Entry) : (ofDefinition d).content d.kind = d.content.alone := by
  rw [ofDefinition, Definition.kind]
  cases d.content <;> rfl

theorem definition_ofDefinition (d : Entry) : (ofDefinition d).definition d.kind =
    { d with
      content := d.content.alone
      paths := Path.normalize d.dataPath none
      parent := none
      children := []
      edited := false
      observer := none
      bundle := none } := by
  rw [definition, content_ofDefinition, Definition.make]
  obtain ⟨key, content⟩ := d
  cases content <;> rfl

theorem kindOf_ofDefinition {v : Vocabulary}
    (plain : ∀ kind : Kind, v.kind? kind.name = some kind) (d : Entry) :
    v.kindOf (ofDefinition d) = .ok d.kind := by
  have name : (ofDefinition d).kind = d.kind.name := by
    obtain ⟨key, content⟩ := d
    cases content <;> rfl
  rw [Vocabulary.kindOf, name, plain]

end Traits

theorem Vocabulary.kind?_name (kind : Kind) : (⟨[]⟩ : Vocabulary).kind? kind.name = some kind := by
  cases kind <;> decide

namespace Branch

theorem blueprint_mk (role : Option Role) (h : Handle) (d : Entry) (owned : List Branch) :
    (Branch.mk role h d owned).blueprint =
      let below : Below Blueprint := owned.map fun branch => (branch.role, branch.blueprint)
      { traits := .ofDefinition d
        children := below.children
        header := below.holder? .header
        footer := below.holder? .footer
        possibleValues := below.holder? .possibleValues
        details := below.holder? .details } := by
  rw [blueprint, fold_mk]
  rfl

theorem traits_blueprint (b : Branch) : b.blueprint.traits = .ofDefinition b.definition := by
  obtain ⟨role, h, d, owned⟩ := b
  rw [blueprint_mk]
  rfl

end Branch

namespace Forest

/-- A branch owns its children first, then who plays a role, in the order of the roles. -/
theorem Reads.exists_owned_eq {f : Forest} {role : Option Role} {h : Handle} {d : Entry}
    {owned : List Branch} (reads : f.Reads (.mk role h d owned)) :
    ∃ children holders, owned = children ++ holders ∧ (∀ b ∈ children, b.role = none) ∧
      (holders.map Branch.role).Sublist (Role.all.map some) := by
  obtain ⟨_, listed, _⟩ := reads
  obtain ⟨children, holders, rfl, left, right⟩ := List.map_eq_append_iff.1 listed
  refine ⟨children, holders, rfl, fun b inside => ?_, ?_⟩
  · have piece := List.mem_map_of_mem (f := fun branch : Branch => (branch.role, branch.handle)) inside
    rw [left] at piece
    obtain ⟨_, _, same⟩ := List.mem_map.1 piece
    exact (Prod.mk.inj same).1.symm
  · have roles : holders.map Branch.role = (d.content.holders.map (·.1)).map some := by
      have firsts := congrArg (List.map Prod.fst) right
      rw [List.map_map, List.map_map] at firsts
      rw [List.map_map]
      exact firsts
    rw [roles]
    refine List.Sublist.map some (.trans ?_ d.content.kind.roles_sublist)
    exact d.content.map_fst_holders_sublist

end Forest

end DataBinding
