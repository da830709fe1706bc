import DataBinding.Proofs.Blueprint.Canonical
import DataBinding.Proofs.Forest.Surveys

/-!
# Planting piece by piece

What a blueprint owns is planted as one list of pieces. The pieces of a survey are the surveys of the
branches below. The pieces of a canonical form are the canonical forms of the pieces, and its
definition is the one that the producer meant, so planting it without the words of the producer comes
to the same.
-/

namespace DataBinding

namespace Traits

theorem kind_definition (t : Traits) (kind : Kind) : (t.definition kind).kind = kind := by
  cases kind <;> rfl

theorem definition_ofDefinition_definition (t : Traits) (kind : Kind) :
    (ofDefinition (t.definition kind)).definition kind = t.definition kind := by
  have surveyed := definition_ofDefinition (t.definition kind)
  rw [kind_definition] at surveyed
  rw [surveyed]
  cases kind <;> rfl

theorem canonical_of_kindOf {v : Vocabulary} {t : Traits} {kind : Kind}
    (known : v.kindOf t = .ok kind) : t.canonical v = ofDefinition (t.definition kind) := by
  rw [canonical, known]

end Traits

/-- The canonical form needs no names but those of the kinds themselves. -/
theorem Vocabulary.kindOf_canonical (v : Vocabulary) (t : Traits) :
    (⟨[]⟩ : Vocabulary).kindOf (t.canonical v) = v.kindOf t := by
  cases known : v.kindOf t with
  | ok kind =>
    rw [Traits.canonical_of_kindOf known, Traits.kindOf_ofDefinition kind?_name,
      Traits.kind_definition]
  | error e =>
    rw [Traits.canonical, known]
    show kindOf ⟨[]⟩ t = .error e
    cases named : v.kind? t.kind with
    | some kind =>
      rw [kindOf, named] at known
      cases known
    | none =>
      have unknown : kind? ⟨[]⟩ t.kind = none := by
        rw [kind?, Option.orElse_eq_orElse, Option.orElse_eq_or, Option.or_eq_none_iff] at named
        exact named.2
      rw [kindOf, named] at known
      rw [kindOf, unknown]
      exact known

namespace Forest

def plantPieces (v : Vocabulary) (h : Handle) :
    Forest → List (Option Role × Blueprint) → Planted Unit
  | f, [] => (f, .ok ())
  | f, (role, b) :: rest =>
    andThen (plantUnder v (some (h, role)) f b) fun f => plantPieces v h f rest

def plantEach (v : Vocabulary) (h : Handle) : Forest → List Branch → Planted Unit
  | f, [] => (f, .ok ())
  | f, b :: rest =>
    andThen (plantUnder v (some (h, b.role)) f b.blueprint) fun f => plantEach v h f rest

section Pieces

variable {v : Vocabulary} {h : Handle}

theorem andThen_assoc {α β γ : Type} (planted : Planted α) (first : Forest → Planted β)
    (later : Forest → Planted γ) :
    andThen (andThen planted first) later = andThen planted fun f => andThen (first f) later := by
  obtain ⟨f, outcome⟩ := planted
  cases outcome <;> rfl

theorem plantPieces_append (f : Forest) (first later : List (Option Role × Blueprint)) :
    plantPieces v h f (first ++ later) =
      andThen (plantPieces v h f first) fun f => plantPieces v h f later := by
  induction first generalizing f with
  | nil => rfl
  | cons piece rest ih =>
    rw [List.cons_append, plantPieces, plantPieces, andThen_assoc]
    simp only [ih]

theorem Lasting.plantPieces {good : Forest → Prop} (lasting : Lasting good) {f : Forest}
    (now : good f) (pieces : List (Option Role × Blueprint)) :
    good (Forest.plantPieces v h f pieces).1 := by
  induction pieces generalizing f with
  | nil => exact now
  | cons piece rest ih =>
    rw [Forest.plantPieces]
    exact andThen_keeps (lasting.plantUnder v _ now piece.2) ih

theorem plantChildren_eq_plantPieces (f : Forest) (children : List Blueprint) :
    plantChildren v h f children = plantPieces v h f (children.map (none, ·)) := by
  induction children generalizing f with
  | nil => rfl
  | cons child rest ih =>
    rw [List.map_cons, plantChildren, plantPieces]
    simp only [ih]

theorem plantHolders_eq_plantPieces (f : Forest) (b : Blueprint) (roles : List Role) :
    plantHolders v h b f roles =
      plantPieces v h f (roles.filterMap fun role => (b.holder? role).map (some role, ·)) := by
  induction roles generalizing f with
  | nil => rfl
  | cons role rest ih =>
    rw [plantHolders, List.filterMap_cons]
    simp only [ih]
    cases b.holder? role with
    | none => rfl
    | some holder =>
      rw [plantHolder, andThen_assoc]
      rfl

theorem plantOwned_eq_plantPieces (f : Forest) (b : Blueprint) :
    plantOwned v h f b = plantPieces v h f b.pieces := by
  simp only [plantOwned, plantChildren_eq_plantPieces, plantHolders_eq_plantPieces,
    Blueprint.pieces, plantPieces_append]

theorem plantEach_eq_plantPieces (f : Forest) (branches : List Branch) :
    plantEach v h f branches = plantPieces v h f (branches.map fun b => (b.role, b.blueprint)) := by
  induction branches generalizing f with
  | nil => rfl
  | cons b rest ih =>
    rw [List.map_cons, plantEach, plantPieces]
    simp only [ih]

theorem Reads.pieces_blueprint {f : Forest} {role : Option Role} {d : Entry} {owned : List Branch}
    (reads : f.Reads (.mk role h d owned)) :
    (Branch.mk role h d owned).blueprint.pieces = owned.map fun b => (b.role, b.blueprint) := by
  obtain ⟨children, holders, rfl, plain, inOrder⟩ := reads.exists_owned_eq
  have unnamed : (children.map fun b => (b.role, b.blueprint)) =
      (children.map Branch.blueprint).map (none, ·) := by
    rw [List.map_map]
    exact List.map_congr_left fun b inside => by rw [plain b inside]; rfl
  rw [Branch.blueprint_mk, List.map_append, unnamed]
  refine Blueprint.pieces_ofPieces (.ofDefinition d) (children.map Branch.blueprint) ?_
  rw [List.map_map]
  exact inOrder

theorem plantOwned_eq {f g : Forest} {top : Handle} {role : Option Role} {d : Entry}
    {owned : List Branch} (reads : f.Reads (.mk role h d owned)) :
    plantOwned v top g (Branch.mk role h d owned).blueprint = plantEach v top g owned := by
  rw [plantOwned_eq_plantPieces, reads.pieces_blueprint, plantEach_eq_plantPieces]

end Pieces

/-- Planting the canonical form without the words of the producer is planting the blueprint with
them, wherever and however it ends. -/
theorem plantUnder_canonical (v : Vocabulary) (owner : Owner) (f : Forest) (b : Blueprint) :
    plantUnder ⟨[]⟩ owner f (b.canonical v) = plantUnder v owner f b := by
  induction b generalizing owner f with
  | owner b each =>
    have pieces : ∀ (h : Handle) (g : Forest),
        plantOwned ⟨[]⟩ h g (b.canonical v) = plantOwned v h g b := by
      intro h g
      rw [plantOwned_eq_plantPieces, plantOwned_eq_plantPieces, Blueprint.pieces_canonical]
      generalize b.pieces = pieces at each
      induction pieces generalizing g with
      | nil => rfl
      | cons piece rest ih =>
        rw [List.map_cons, plantPieces, plantPieces, each piece List.mem_cons_self]
        congr 1
        funext g
        exact ih g fun later inside => each later (List.mem_cons_of_mem _ inside)
    rw [plantUnder_eq, plantUnder_eq, Blueprint.traits_canonical, Vocabulary.kindOf_canonical]
    cases known : v.kindOf b.traits with
    | error e => rfl
    | ok kind =>
      simp only [Traits.canonical_of_kindOf known, Traits.definition_ofDefinition_definition, pieces]

end Forest

end DataBinding
