import DataBinding.Proofs.Forest.Acceptance
import DataBinding.Proofs.Forest.Agreement
import DataBinding.Proofs.Forest.Grafting
import DataBinding.Proofs.Forest.Reachable

/-!
# All or nothing

Planting either succeeds and adds one branch, or fails and adds nothing. At whatever depth it fails,
what has been planted by then hangs below the first new definition, so that removing this one removes
everything new, and its owner lets go of nothing else.
-/

namespace DataBinding

theorem Content.mapHolders_of_setHolder? {content renewed : Content} {role : Role} {h : Handle}
    (set : content.setHolder? role (some h) = some renewed) (vacant : content.holder? role = none)
    {place : Handle → Option Handle} (lost : place h = none) :
    renewed.mapHolders place = content.mapHolders place := by
  cases content <;> cases role <;> simp only [setHolder?, Option.some.injEq, reduceCtorEq] at set <;>
    subst set <;> simp_all [holder?, mapHolders]

namespace Definition

variable {F : Type} {d : Definition F} {role : Option Role} {h : Handle}

theorem release_adopt (room : d.HasRoom role) (new : h ∉ d.belongings) :
    (d.adopt role h).release h = d := by
  have same : (d.adopt role h).release h = d.release h := by
    cases role with
    | none => simp [adopt, release]
    | some role =>
      obtain ⟨renewed, set⟩ := Option.isSome_iff_exists.1
        (Content.setHolder?_isSome_iff (h := some h).2 room.1)
      rw [adopt, set, Option.getD_some, release, release,
        Content.mapHolders_of_setHolder? set room.2 (if_pos rfl)]
  rw [same, release_of_not_mem new]

end Definition

namespace Forest

variable {f g k m : Forest} {v : Vocabulary} {owner : Owner} {h x : Handle} {d : Entry}

theorem parent_hosted (owner : Owner) (h y : Handle) (e : Entry) :
    (hosted owner h y e).parent = e.parent := by
  match owner with
  | none => rfl
  | some (o, role) =>
    rw [hosted]
    split
    · cases role <;> rfl
    · rfl

theorem WellFormed.new_notMem_belongings (wf : g.WellFormed) (found : g.get? x = some d) :
    ⟨g.capacity⟩ ∉ d.belongings := by
  intro owned
  obtain ⟨e, there, _⟩ := wf.owned_names_owner found owned
  exact Nat.lt_irrefl _ (index_lt_of_get? there)

theorem WellFormed.release_hosted (wf : g.WellFormed) (hosts : g.Hosts owner)
    (found : g.get? x = some d) :
    (hosted owner ⟨g.capacity⟩ x d).release ⟨g.capacity⟩ = d := by
  have new := wf.new_notMem_belongings found
  match owner, hosts with
  | none, _ => exact Definition.release_of_not_mem new
  | some (o, role), ⟨e, there, room⟩ =>
    rw [hosted]
    split
    case isTrue same =>
      rw [← same, found] at there
      cases there
      exact Definition.release_adopt room new
    case isFalse => exact Definition.release_of_not_mem new

/-- `m` is `g` with something planted behind, all of it below the first new definition. -/
structure Sprouts (owner : Owner) (g m : Forest) : Prop where
  hosts : g.Hosts owner
  top : ∃ d, m.get? ⟨g.capacity⟩ = some d ∧ d.parent = owner.map (·.1)
  old : ∀ y, y.index < g.capacity → m.get? y = (g.get? y).map (hosted owner ⟨g.capacity⟩ y)
  new : ∀ x d, g.capacity ≤ x.index → m.get? x = some d → m.Within ⟨g.capacity⟩ x

namespace Sprouts

theorem capacity_lt (sprouts : Sprouts owner g m) : g.capacity < m.capacity := by
  obtain ⟨d, found, _⟩ := sprouts.top
  exact index_lt_of_get? found

theorem kept (sprouts : Sprouts owner g m) (found : g.get? x = some d) :
    ∃ e, m.get? x = some e ∧ e.parent = d.parent := by
  refine ⟨_, ?_, parent_hosted owner ⟨g.capacity⟩ x d⟩
  rw [sprouts.old x (index_lt_of_get? found), found, Option.map_some]

theorem agrees (sprouts : Sprouts owner g m) (agrees : m.Agrees k) : Sprouts owner g k where
  hosts := sprouts.hosts
  top := by
    obtain ⟨d, found, parent⟩ := sprouts.top
    exact ⟨d, (agrees _).trans found, parent⟩
  old y inside := (agrees y).trans (sprouts.old y inside)
  new x d behind found := by
    rw [agrees.sameLinks.within_iff]
    exact sprouts.new x d behind ((agrees x).symm.trans found)

theorem of_alone (hosts : g.Hosts owner) (capacity : m.capacity = g.capacity + 1)
    (wf : m.WellFormed) (found : m.get? ⟨g.capacity⟩ = some d) (parent : d.parent = owner.map (·.1))
    (old : ∀ y, y.index < g.capacity → m.get? y = (g.get? y).map (hosted owner ⟨g.capacity⟩ y)) :
    Sprouts owner g m where
  hosts := hosts
  top := ⟨d, found, parent⟩
  old := old
  new x e behind there := by
    have inside := index_lt_of_get? there
    have first : x = ⟨g.capacity⟩ := by
      cases x
      simp only [Handle.mk.injEq] at behind inside ⊢
      omega
    rw [first]
    exact wf.within_refl found

theorem under {role : Option Role} (sprouts : Sprouts owner g m)
    (piece : Sprouts (some (⟨g.capacity⟩, role)) m k) : Sprouts owner g k := by
  obtain ⟨e, found, parent⟩ := sprouts.top
  obtain ⟨e', foundNow, parent'⟩ := piece.kept found
  have within : ∀ {y : Handle}, m.Within ⟨g.capacity⟩ y → k.Within ⟨g.capacity⟩ y :=
    fun below => below.carry fun z d _ there => piece.kept there
  refine ⟨sprouts.hosts, ⟨e', foundNow, parent'.trans parent⟩, fun y inside => ?_,
    fun x d behind live => ?_⟩
  · rw [piece.old y (inside.trans sprouts.capacity_lt), map_hosted_of_ne (ne_new_of_lt inside),
      sprouts.old y inside]
  · by_cases before : x.index < m.capacity
    · cases was : m.get? x with
      | none =>
        rw [piece.old x before, was] at live
        cases live
      | some d' => exact within (sprouts.new x d' behind was)
    · obtain ⟨t, topNow, owned⟩ := piece.top
      have above : k.Within ⟨g.capacity⟩ ⟨m.capacity⟩ :=
        .of_owner topNow owned (within (sprouts.new _ e (Nat.le_refl _) found))
      exact (piece.new x d (Nat.le_of_not_lt before) live).trans above

theorem exists_withdraw {α : Type} (sprouts : Sprouts owner g m) (wf : g.WellFormed)
    (grownWf : m.WellFormed) (e : DefinitionError) :
    ∃ k, (m.withdraw ⟨g.capacity⟩ e : Planted α) = (k, .error e) ∧ g.Agrees k := by
  obtain ⟨d, found, _⟩ := sprouts.top
  obtain ⟨k, run, without⟩ := grownWf.exists_remove found
  refine ⟨k, by rw [withdraw, run], fun x => ?_⟩
  cases was : g.get? x with
  | some e =>
    have outside : ¬ m.Within ⟨g.capacity⟩ x :=
      wf.not_within_new (fun y e there => sprouts.kept there) was (Nat.le_refl _)
    rw [without.kept x outside, sprouts.old x (index_lt_of_get? was), was, Option.map_some,
      Option.map_some, wf.release_hosted sprouts.hosts was]
  | none =>
    cases live : m.get? x with
    | none =>
      have outside : ¬ m.Within ⟨g.capacity⟩ x := fun within => by
        obtain ⟨e, there⟩ := within.found
        rw [live] at there
        cases there
      rw [without.kept x outside, live, Option.map_none]
    | some e =>
      refine without.vacated x (sprouts.new x e (Nat.le_of_not_lt fun inside => ?_) live)
      rw [sprouts.old x inside, was] at live
      cases live

end Sprouts

/-- What planting leaves: a branch that hangs together, or nothing new. -/
def Leaves (owner : Owner) (g : Forest) : Planted Handle → Prop
  | (k, .ok h) => h = ⟨g.capacity⟩ ∧ Sprouts owner g k
  | (k, .error _) => g.Agrees k

theorem plantPieces_sprouts {pieces : List (Option Role × Blueprint)} {e : Entry}
    (each : ∀ piece ∈ pieces, ∀ {g : Forest} {owner : Owner}, g.Consistent → g.Awaits owner →
      Leaves owner g (plantUnder v owner g piece.2))
    (ordered : pieces.Pairwise fun first later =>
      first.1 = none ∨ Role.rank first.1 < Role.rank later.1)
    (consistent : m.Consistent) (sprouts : Sprouts owner g m)
    (found : m.get? ⟨g.capacity⟩ = some e) (awaits : ∀ piece ∈ pieces, e.Awaits piece.1) :
    Sprouts owner g (plantPieces v ⟨g.capacity⟩ m pieces).1 := by
  induction pieces generalizing m e with
  | nil => exact sprouts
  | cons piece rest ih =>
    obtain ⟨role, b⟩ := piece
    rw [List.forall_mem_cons] at each awaits
    obtain ⟨before, ordered⟩ := List.pairwise_cons.1 ordered
    have ready : m.Awaits (some (⟨g.capacity⟩, role)) := by
      intro e' again
      rw [found] at again
      cases again
      exact awaits.1
    have leaves := each.1 consistent ready
    have settled := Consistent.plantUnder v (some (⟨g.capacity⟩, role)) consistent b
    rw [plantPieces]
    cases run : plantUnder v (some (⟨g.capacity⟩, role)) m b with
    | mk middle outcome =>
    rw [run] at leaves settled
    cases outcome with
    | error e => exact sprouts.agrees leaves
    | ok h =>
      have topNow := leaves.2.old ⟨g.capacity⟩ sprouts.capacity_lt
      rw [found, Option.map_some, hosted, if_pos rfl] at topNow
      exact ih each.2 ordered settled (sprouts.under leaves.2) topNow
        fun piece inside => (awaits.2 piece inside).adopt (before piece inside)

/-- Planting, wherever it starts and however it ends, leaves one branch or nothing. -/
theorem Consistent.plantUnder_leaves (consistent : g.Consistent) (awaits : g.Awaits owner)
    (b : Blueprint) : Leaves owner g (Forest.plantUnder v owner g b) := by
  induction b generalizing owner g with
  | owner b each =>
    rw [plantUnder_eq]
    cases v.kindOf b.traits with
    | error e => exact .refl g
    | ok kind =>
      obtain ⟨bare, free, paths⟩ := b.traits.definition_bare kind
      have inserted := consistent.insert free bare paths
      have new : (g.insert (b.traits.definition kind)).2.get? ⟨g.capacity⟩ =
        some (b.traits.definition kind) := get?_insert_self _ _
      cases settles : (g.insert (b.traits.definition kind)).2.settle ⟨g.capacity⟩ owner with
      | error e =>
        have alone : Sprouts none g (g.insert (b.traits.definition kind)).2 :=
          .of_alone trivial (capacity_insert ..) inserted.links new free fun y inside =>
            (get?_insert_of_lt inside _).trans (Option.map_id' ..).symm
        obtain ⟨k, withdrawn, agrees⟩ :=
          alone.exists_withdraw (α := Handle) consistent.links inserted.links e
        simp only [settles, withdrawn]
        exact agrees
      | ok settled =>
        have hosts := consistent.hosts_of_settle free bare paths awaits settles
        obtain ⟨_, anchored, again, capacity, top, old⟩ :=
          consistent.exists_settle free bare paths hosts
        rw [settles] at again
        cases again
        have settledConsistent := inserted.settle settles
        have sprouts := plantPieces_sprouts each b.pieces_ordered settledConsistent
          (.of_alone hosts capacity settledConsistent.links top rfl old) top
          (fun _ _ later _ => b.traits.holder?_definition kind later)
        have consistentNow := lasting_consistent.plantPieces (v := v) (h := ⟨g.capacity⟩)
          settledConsistent b.pieces
        simp only [settles, plantOwned_eq_plantPieces]
        cases run : plantPieces v ⟨g.capacity⟩ settled b.pieces with
        | mk k outcome =>
        rw [run] at sprouts consistentNow
        cases outcome with
        | ok done => exact ⟨rfl, sprouts⟩
        | error e =>
          obtain ⟨k, withdrawn, agrees⟩ :=
            sprouts.exists_withdraw (α := Handle) consistent.links consistentNow.links e
          simp only [keep, withdrawn]
          exact agrees

/-- Planting into a reachable forest fails and changes nothing, whatever is asked afterwards, or it
changes nothing that was there and adds the branch of a definition without an owner. -/
theorem Reachable.plant_atomic (reached : Reachable f) (v : Vocabulary) (b : Blueprint) :
    (∃ g e, f.plant v b = (g, .error e) ∧ (∀ x, g.get? x = f.get? x) ∧ g.handles = f.handles ∧
      g.root? = f.root? ∧ ∀ x, g.lineage x = f.lineage x ∧ g.branch x = f.branch x ∧
        g.identity x = f.identity x) ∨
    ∃ g h d order, f.plant v b = (g, .ok h) ∧ (∀ x e, f.get? x = some e → g.get? x = some e) ∧
      g.get? h = some d ∧ d.parent = none ∧ g.subtree h = .ok order ∧
      ∀ x, x ∈ order ↔ (∃ e, g.get? x = some e) ∧ f.get? x = none := by
  have consistent := reached.consistent
  have wf := consistent.links
  have alone : f.Awaits none := trivial
  have leaves : Leaves none f (plantUnder v none f b) := consistent.plantUnder_leaves alone b
  have after := consistent.plantUnder v none b
  cases run : f.plant v b with
  | mk g outcome =>
  rw [plant] at run
  rw [run] at leaves after
  cases outcome with
  | error e =>
    have agrees : f.Agrees g := leaves
    exact .inl ⟨g, e, rfl, agrees, agrees.handles_eq, agrees.root?_eq, fun x =>
      ⟨agrees.sameLinks.lineage_eq wf x, agrees.branch_eq wf x, agrees.identity_eq wf x⟩⟩
  | ok h =>
    obtain ⟨rfl, sprouts⟩ := leaves
    obtain ⟨d, found, free⟩ := sprouts.top
    obtain ⟨order, shown, members, _⟩ := after.links.exists_subtree found
    have old : ∀ x, x.index < f.capacity → g.get? x = f.get? x := fun x inside =>
      (sprouts.old x inside).trans (Option.map_id' ..)
    refine .inr ⟨g, _, d, order, rfl, fun x e was => ?_, found, free, shown, fun x => ?_⟩
    · rw [old x (index_lt_of_get? was), was]
    · rw [members]
      constructor
      · intro within
        refine ⟨within.found, Option.eq_none_iff_forall_ne_some.2 fun e was => ?_⟩
        exact wf.not_within_new (fun y e there => sprouts.kept there) was (Nat.le_refl _) within
      · rintro ⟨⟨e, now⟩, missing⟩
        refine sprouts.new x e (Nat.le_of_not_lt fun inside => ?_) now
        rw [old x inside, missing] at now
        cases now

/-- A form with an input takes in a panel with a header of its own, and refuses it when something deep
inside is of no known kind. -/
theorem Reachable.plant_atomic_of_form : ∃ (f : Forest) (good bad : Blueprint), Reachable f ∧
    (∃ g h order, f.plant ⟨[]⟩ good = (g, .ok h) ∧ g.subtree h = .ok order ∧
      g.get? ⟨1⟩ = f.get? ⟨1⟩ ∧ ∀ x, x ∈ order ↔ (∃ e, g.get? x = some e) ∧ f.get? x = none) ∧
    ∃ g e, f.plant ⟨[]⟩ bad = (g, .error e) ∧ g.capacity = 5 ∧ g.handles = [⟨0⟩, ⟨1⟩] ∧
      ∀ x, g.get? x = f.get? x := by
  let f := Forest.empty.afterAll [.insert (.form "" none none) "a" rfl,
    .insert (.input "" false) "b" rfl, .setParent ⟨1⟩ ⟨0⟩]
  have reached : Reachable f := .afterAll .empty _ (by simp [Call.others])
  let around (header : Blueprint) : Blueprint :=
    { traits := { kind := "panel" }, children := [.ofKind "input",
      { traits := { kind := "form" }, header := some header }] }
  let good := around (.ofKind "textItem")
  let bad := around (.ofKind "unknown")
  have plants : (f.plant ⟨[]⟩ good).2.toOption = some ⟨2⟩ := by decide +kernel
  have refuses : (f.plant ⟨[]⟩ bad).2.toOption = none := by decide +kernel
  have places : (f.plant ⟨[]⟩ bad).1.capacity = 5 := by decide +kernel
  refine ⟨f, good, bad, reached, ?_, ?_⟩
  · rcases Reachable.plant_atomic reached ⟨[]⟩ good with ⟨g, e, run, _⟩ |
      ⟨g, h, d, order, run, old, found, free, shown, members⟩
    · rw [run] at plants
      cases plants
    · exact ⟨g, h, order, run, shown, old ⟨1⟩ _ rfl, members⟩
  · rcases Reachable.plant_atomic reached ⟨[]⟩ bad with ⟨g, e, run, same, handles, _⟩ |
      ⟨g, h, d, order, run, _⟩
    · rw [run] at places
      exact ⟨g, e, run, places, handles, same⟩
    · rw [run] at refuses
      cases refuses

end Forest

end DataBinding
