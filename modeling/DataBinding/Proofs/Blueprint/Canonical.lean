import DataBinding.Forest.Planting
import DataBinding.Forest.Survey
import Mathlib.Data.List.Basic

/-!
# Canonical blueprints

A producer may name kinds in its own words, leave out texts and give fields that the kind does not
have. The canonical form of a blueprint says the same in the words of the surveys: at every
definition the name of the kind, the fields that the kind has, and nothing else.
-/

namespace DataBinding

/-- The traits that a survey gives of the definition that is planted; traits of an unknown kind stay
as they are. -/
def Traits.canonical (v : Vocabulary) (t : Traits) : Traits :=
  match v.kindOf t with
  | .ok kind => .ofDefinition (t.definition kind)
  | .error _ => t

namespace Branch.Below

variable {α : Type}

theorem children_append (first later : Below α) :
    children (first ++ later) = first.children ++ later.children :=
  List.filterMap_append

theorem children_of_none (results : List α) : children (results.map (none, ·)) = results := by
  rw [children, List.filterMap_map]
  exact List.filterMap_some

theorem children_of_named {below : Below α} (named : ∀ piece ∈ below, piece.1 ≠ none) :
    below.children = [] := by
  rw [children, List.filterMap_eq_nil_iff]
  intro piece inside
  simpa using named piece inside

theorem holder?_children_append (results : List α) (below : Below α) (role : Role) :
    holder? (results.map (none, ·) ++ below) role = below.holder? role := by
  have skipped : (results.map (none, ·)).find? (fun piece : Option Role × α => piece.1 = some role) =
      none := by
    simp
  rw [holder?, List.find?_append, skipped, Option.none_or, holder?]

theorem filterMap_holder? {roles : List Role} {below : Below α} (distinct : roles.Nodup)
    (inOrder : (below.map (·.1)).Sublist (roles.map some)) :
    (roles.filterMap fun role => (below.holder? role).map (some role, ·)) = below := by
  induction roles generalizing below with
  | nil => exact (List.map_eq_nil_iff.1 (List.sublist_nil.1 inOrder)).symm
  | cons role rest ih =>
    obtain ⟨notLater, distinct⟩ := List.nodup_cons.1 distinct
    rw [List.map_cons] at inOrder
    rcases List.sublist_cons_iff.1 inOrder with skipped | ⟨later, split, inOrder⟩
    · have nobody : below.holder? role = none := by
        rw [holder?, Option.map_eq_none_iff, List.find?_eq_none]
        intro piece inside plays
        have listed := skipped.subset (List.mem_map_of_mem inside)
        rw [of_decide_eq_true plays] at listed
        obtain ⟨_, again, same⟩ := List.mem_map.1 listed
        cases same
        exact notLater again
      rw [List.filterMap_cons_none (by rw [nobody]; rfl)]
      exact ih distinct skipped
    · obtain ⟨⟨_, result⟩, tail, rfl, rfl, rfl⟩ := List.map_eq_cons_iff.1 split
      have first : holder? ((some role, result) :: tail) role = some result := by simp [holder?]
      have others : ∀ other ∈ rest, holder? ((some role, result) :: tail) other =
          holder? tail other := by
        intro other inside
        have differ : role ≠ other := by
          rintro rfl
          exact notLater inside
        simp [holder?, differ]
      rw [List.filterMap_cons_some (by rw [first]; rfl),
        List.filterMap_congr fun other inside => by rw [others other inside]]
      exact congrArg _ (ih distinct inOrder)

end Branch.Below

namespace Blueprint

variable {v : Vocabulary}

def pieces (b : Blueprint) : Branch.Below Blueprint :=
  b.children.map (none, ·) ++ Role.all.filterMap fun role => (b.holder? role).map (some role, ·)

def ofPieces (t : Traits) (pieces : Branch.Below Blueprint) : Blueprint :=
  { traits := t
    children := pieces.children
    header := pieces.holder? .header
    footer := pieces.holder? .footer
    possibleValues := pieces.holder? .possibleValues
    details := pieces.holder? .details }

mutual

def canonical (v : Vocabulary) : Blueprint → Blueprint
  | ⟨t, children, header, footer, possibleValues, details⟩ =>
    { traits := t.canonical v
      children := canonicalChildren v children
      header := canonicalHolder v header
      footer := canonicalHolder v footer
      possibleValues := canonicalHolder v possibleValues
      details := canonicalHolder v details }

def canonicalChildren (v : Vocabulary) : List Blueprint → List Blueprint
  | [] => []
  | child :: rest => child.canonical v :: canonicalChildren v rest

def canonicalHolder (v : Vocabulary) : Option Blueprint → Option Blueprint
  | none => none
  | some holder => some (holder.canonical v)

end

theorem mem_pieces {b : Blueprint} {piece : Option Role × Blueprint} :
    piece ∈ b.pieces ↔ piece.1 = none ∧ piece.2 ∈ b.children ∨
      ∃ role, piece.1 = some role ∧ b.holder? role = some piece.2 := by
  obtain ⟨role, piece⟩ := piece
  have known : ∀ role, role ∈ Role.all := fun role => by cases role <;> decide
  simp only [pieces, List.mem_append, List.mem_map, List.mem_filterMap, Option.map_eq_some_iff,
    Prod.mk.injEq, known, true_and]
  refine or_congr ⟨?_, ?_⟩ ⟨?_, ?_⟩
  · rintro ⟨_, inside, rfl, rfl⟩
    exact ⟨rfl, inside⟩
  · rintro ⟨rfl, inside⟩
    exact ⟨piece, inside, rfl, rfl⟩
  · rintro ⟨role, _, plays, rfl, rfl⟩
    exact ⟨role, rfl, plays⟩
  · rintro ⟨role, rfl, plays⟩
    exact ⟨role, piece, plays, rfl, rfl⟩

/-- What holds of a blueprint whenever it holds of all that the blueprint owns, holds of every
blueprint. -/
@[induction_eliminator]
theorem induction {motive : Blueprint → Prop}
    (owner : ∀ b : Blueprint, (∀ piece ∈ b.pieces, motive piece.2) → motive b) (b : Blueprint) :
    motive b := by
  refine @Blueprint.rec motive (fun children => ∀ b ∈ children, motive b)
    (fun holder => ∀ b, holder = some b → motive b) ?_ ?_ ?_ ?_ ?_ b
  · intro t children header footer possibleValues details inChildren inHeader inFooter
      inPossibleValues inDetails
    refine owner _ fun piece inside => ?_
    rcases mem_pieces.1 inside with ⟨_, child⟩ | ⟨role, _, plays⟩
    · exact inChildren piece.2 child
    · cases role with
      | header => exact inHeader piece.2 plays
      | footer => exact inFooter piece.2 plays
      | possibleValues => exact inPossibleValues piece.2 plays
      | details => exact inDetails piece.2 plays
  · simp
  · intro child rest first later
    simpa using ⟨first, later⟩
  · simp
  · intro holder holds
    simpa using holds

section Canonical

theorem canonicalChildren_eq_map (children : List Blueprint) :
    canonicalChildren v children = children.map (canonical v) := by
  induction children with
  | nil => rfl
  | cons child rest ih => rw [canonicalChildren, ih, List.map_cons]

theorem canonicalHolder_eq_map (holder : Option Blueprint) :
    canonicalHolder v holder = holder.map (canonical v) := by
  cases holder <;> rfl

variable (v) (b : Blueprint)

theorem traits_canonical : (b.canonical v).traits = b.traits.canonical v := by
  obtain ⟨t, _, _, _, _, _⟩ := b
  rfl

theorem children_canonical : (b.canonical v).children = b.children.map (canonical v) := by
  obtain ⟨_, children, _, _, _, _⟩ := b
  exact canonicalChildren_eq_map children

theorem holder?_canonical (role : Role) :
    (b.canonical v).holder? role = (b.holder? role).map (canonical v) := by
  obtain ⟨_, _, _, _, _, _⟩ := b
  cases role <;> exact canonicalHolder_eq_map _

theorem pieces_canonical :
    (b.canonical v).pieces = b.pieces.map fun piece => (piece.1, piece.2.canonical v) := by
  simp only [pieces, children_canonical, holder?_canonical, List.map_append, List.map_map,
    List.map_filterMap, Option.map_map, Function.comp_def]

end Canonical

theorem children_pieces (b : Blueprint) : b.pieces.children = b.children := by
  rw [pieces, Branch.Below.children_append, Branch.Below.children_of_none,
    Branch.Below.children_of_named, List.append_nil]
  intro piece holder
  obtain ⟨_, _, plays⟩ := List.mem_filterMap.1 holder
  obtain ⟨_, _, rfl⟩ := Option.map_eq_some_iff.1 plays
  exact Option.some_ne_none _

theorem holder?_pieces (b : Blueprint) (role : Role) : b.pieces.holder? role = b.holder? role := by
  rw [Branch.Below.holder?]
  cases found : b.pieces.find? fun piece => piece.1 = some role with
  | none =>
    cases plays : b.holder? role with
    | none => rfl
    | some holder =>
      have listed : (some role, holder) ∈ b.pieces := mem_pieces.2 (.inr ⟨role, rfl, plays⟩)
      exact absurd (decide_eq_true rfl) (List.find?_eq_none.1 found _ listed)
  | some piece =>
    have named : piece.1 = some role := by simpa using List.find?_some found
    rcases mem_pieces.1 (List.mem_of_find?_eq_some found) with ⟨child, _⟩ | ⟨other, same, plays⟩
    · rw [named] at child
      cases child
    · rw [named] at same
      cases same
      exact plays.symm

theorem ofPieces_pieces (b : Blueprint) : ofPieces b.traits b.pieces = b := by
  simp only [ofPieces, children_pieces, holder?_pieces]
  obtain ⟨_, _, _, _, _, _⟩ := b
  rfl

theorem holder?_ofPieces (t : Traits) (pieces : Branch.Below Blueprint) (role : Role) :
    (ofPieces t pieces).holder? role = pieces.holder? role := by
  cases role <;> rfl

theorem pieces_ofPieces (t : Traits) (children : List Blueprint) {holders : Branch.Below Blueprint}
    (inOrder : (holders.map (·.1)).Sublist (Role.all.map some)) :
    (ofPieces t (children.map (none, ·) ++ holders)).pieces = children.map (none, ·) ++ holders := by
  have named : ∀ piece ∈ holders, piece.1 ≠ none := by
    intro piece inside
    obtain ⟨_, _, same⟩ := List.mem_map.1 (inOrder.subset (List.mem_map_of_mem inside))
    rw [← same]
    exact Option.some_ne_none _
  have listed : (ofPieces t (children.map (none, ·) ++ holders)).children = children := by
    rw [ofPieces, Branch.Below.children_append, Branch.Below.children_of_none,
      Branch.Below.children_of_named named, List.append_nil]
  simp only [pieces, listed, holder?_ofPieces, Branch.Below.holder?_children_append,
    Branch.Below.filterMap_holder? (by decide : Role.all.Nodup) inOrder]

end Blueprint

end DataBinding
