import DataBinding.Proofs.Blueprint.Fitting
import DataBinding.Proofs.Forest.Growth

/-!
# What planting accepts

A blueprint can be planted exactly when everything nested in it fits, and is then shown as the
blueprint said in full. Otherwise planting reports the first thing wrong. For that the planting is
followed site by site: as long as nothing is wrong each site takes the next place of the forest.
-/

namespace DataBinding

theorem Definition.kind_adopt {F : Type} (d : Definition F) (role : Option Role) (h : Handle) :
    (d.adopt role h).kind = d.kind := by
  cases role with
  | none => rfl
  | some role =>
    cases set : d.content.setHolder? role (some h) with
    | none => rw [adopt, set, Option.getD_none]
    | some renewed =>
      rw [adopt, set, Option.getD_some]
      exact Content.kind_of_setHolder? set

namespace Forest

section Refusals

variable {f : Forest} {child owner : Handle} {c d : Entry}

theorem setParent_of_not_container (childFound : f.get? child = some c)
    (ownerFound : f.get? owner = some d) (free : c.parent = none) (closed : d.isContainer = false) :
    f.setParent child owner = .error (.notAContainer owner) := by
  simp [setParent, check_of_found childFound, check_of_found ownerFound,
    find_eq_ok_iff.2 childFound, find_eq_ok_iff.2 ownerFound, free, closed, throw, throwThe,
    MonadExceptOf.throw, bind, Except.bind]

theorem attach_of_no_role (wf : f.WellFormed) (childFound : f.get? child = some c)
    (ownerFound : f.get? owner = some d) (free : c.parent = none) (apart : ¬ f.Within child owner)
    {role : Role} (lacks : role ∉ d.content.kind.roles) :
    f.attach owner role child = .error (.noSuchRole owner role) := by
  have refused : d.content.setHolder? role (some child) = none := by
    rw [← Option.not_isSome_iff_eq_none, Content.setHolder?_isSome_iff]
    exact lacks
  simp [attach, check_of_found childFound, check_of_found ownerFound, Outcome.ok_bind,
    find_eq_ok_iff.2 childFound, find_eq_ok_iff.2 ownerFound, free, refused,
    (rejectCycle_eq_ok_iff wf ownerFound).2 apart, throw, throwThe, MonadExceptOf.throw]

end Refusals

variable {g : Forest} {v : Vocabulary} {owner : Owner} {above : Option Above}

/-- The owner in a forest is the one above a blueprint, of the kind that its name stands for. -/
def Answers (g : Forest) (known : Meaning) : Owner → Option Above → Prop
  | none, none => True
  | some (o, role), some above => above.place = o.index ∧ above.role = role ∧
    ∃ e, g.get? o = some e ∧ known above.traits.kind = some e.kind
  | _, _ => False

theorem Answers.cases {known : Meaning} (answers : g.Answers known owner above) :
    owner = none ∧ above = none ∨ ∃ o a e, owner = some (o, a.role) ∧ above = some a ∧
      a.place = o.index ∧ g.get? o = some e ∧ known a.traits.kind = some e.kind := by
  cases owner with
  | none =>
    cases above with
    | none => exact .inl ⟨rfl, rfl⟩
    | some a => exact answers.elim
  | some named =>
    obtain ⟨o, role⟩ := named
    cases above with
    | none => exact answers.elim
    | some a =>
      obtain ⟨place, rfl, e, found, known⟩ := answers
      exact .inr ⟨o, a, e, rfl, rfl, place, found, known⟩

theorem Answers.hosts {known : Meaning} (answers : g.Answers known owner above)
    (awaits : g.Awaits owner) (accepts : above.bind (·.refusal? known) = none) : g.Hosts owner := by
  rcases answers.cases with ⟨rfl, _⟩ | ⟨o, ⟨place, t, role⟩, e, rfl, rfl, _, found, understood⟩
  · trivial
  · rw [Option.bind_some, Above.refusal?, understood, Option.bind_some] at accepts
    refine ⟨e, found, ?_⟩
    cases role with
    | none =>
      show e.kind.isContainer = true
      simpa using accepts
    | some role =>
      refine ⟨?_, awaits e found role (Nat.le_refl _)⟩
      show role ∈ e.kind.roles
      simpa using accepts

theorem Consistent.settle_of_refusal (consistent : g.Consistent) {d : Entry} (free : d.parent = none)
    (bare : d.belongings = []) (paths : d.paths = Path.normalize d.dataPath none) {known : Meaning}
    (answers : g.Answers known owner above) {e : DefinitionError}
    (refuses : above.bind (·.refusal? known) = some e) :
    (g.insert d).2.settle ⟨g.capacity⟩ owner = .error e := by
  rcases answers.cases with ⟨_, rfl⟩ | ⟨o, ⟨_, t, role⟩, entry, rfl, rfl, rfl, found, understood⟩
  · cases refuses
  · have wf := (consistent.insert free bare paths).links
    have new : (g.insert d).2.get? ⟨g.capacity⟩ = some d := get?_insert_self g d
    have old : (g.insert d).2.get? o = some entry := get?_insert_of_found found
    rw [Option.bind_some, Above.refusal?, understood, Option.bind_some] at refuses
    cases role with
    | none =>
      have closed : entry.isContainer = false := by
        cases container : entry.kind.isContainer with
        | false => exact container
        | true => simp [container] at refuses
      replace refuses : some (DefinitionError.notAContainer o) = some e := by
        rw [← refuses, if_neg]
        show ¬ entry.isContainer = true
        rw [closed]
        exact Bool.false_ne_true
      cases refuses
      exact setParent_of_not_container new old free closed
    | some role =>
      by_cases has : role ∈ entry.kind.roles
      · simp [has] at refuses
      · replace refuses : some (DefinitionError.noSuchRole o role) = some e := by
          rw [← refuses]
          exact (if_neg has).symm
        cases refuses
        refine attach_of_no_role wf new old free (fun within => ?_) has
        exact ne_new_of_lt (index_lt_of_get? found) (wf.within_of_bare new bare within)

theorem Consistent.exists_withdraw {α : Type} (consistent : g.Consistent) (h : Handle)
    (e : DefinitionError) : ∃ k, (g.withdraw h e : Planted α) = (k, .error e) := by
  have removed : ∃ k, g.remove h = .ok k := by
    cases found : g.get? h with
    | none => exact ⟨g, by rw [Forest.remove, found]⟩
    | some d =>
      obtain ⟨k, run, _⟩ := consistent.links.exists_remove found
      exact ⟨k, run⟩
  obtain ⟨k, run⟩ := removed
  exact ⟨k, by rw [Forest.withdraw, run]⟩

/-- Planting comes to the first thing wrong with the sites, or else each site takes a place. -/
def Tells (v : Vocabulary) (owner : Owner) (above : Option Above) (g : Forest) (b : Blueprint) :
    Prop :=
  match (b.sitesFrom above g.capacity).findSome? (Site.problem? v.kind?) with
  | some e => ∃ k, plantUnder v owner g b = (k, .error e)
  | none => ∃ k, plantUnder v owner g b = (k, .ok ⟨g.capacity⟩) ∧
    k.capacity = g.capacity + (b.sitesFrom above g.capacity).length

/-- Pieces are planted behind sites that nothing is wrong with, up to the first thing wrong. -/
theorem Consistent.plantPieces_tells {top : Handle} {t : Traits} {d : Entry}
    {pieces : List (Option Role × Blueprint)}
    (each : ∀ piece ∈ pieces, ∀ {g : Forest} {owner : Owner} {above : Option Above}, g.Consistent →
      g.Awaits owner → g.Answers v.kind? owner above → Tells v owner above g piece.2)
    (ordered : pieces.Pairwise fun first later =>
      first.1 = none ∨ Role.rank first.1 < Role.rank later.1)
    (consistent : g.Consistent) (found : g.get? top = some d) (known : v.kind? t.kind = some d.kind)
    (awaits : ∀ piece ∈ pieces, d.Awaits piece.1) {sites : List Site}
    (clean : sites.findSome? (Site.problem? v.kind?) = none)
    (size : g.capacity = top.index + sites.length) :
    match (pieces.foldl (Blueprint.pieceSites top.index t) sites).findSome?
      (Site.problem? v.kind?) with
    | some e => ∃ k, Forest.plantPieces v top g pieces = (k, .error e)
    | none => ∃ k, Forest.plantPieces v top g pieces = (k, .ok ()) ∧
      k.capacity = top.index + (pieces.foldl (Blueprint.pieceSites top.index t) sites).length := by
  induction pieces generalizing g d sites with
  | nil =>
    rw [List.foldl_nil, clean]
    exact ⟨g, rfl, size⟩
  | cons piece rest ih =>
    obtain ⟨role, b⟩ := piece
    rw [List.forall_mem_cons] at each awaits
    obtain ⟨before, ordered⟩ := List.pairwise_cons.1 ordered
    have ready : g.Awaits (some (top, role)) := by
      intro e again
      rw [found] at again
      cases again
      exact awaits.1
    have answers : g.Answers v.kind? (some (top, role)) (some ⟨top.index, t, role⟩) :=
      ⟨rfl, rfl, d, found, known⟩
    have tells := each.1 consistent ready answers
    have later : Blueprint.pieceSites top.index t sites (role, b) =
        sites ++ b.sitesFrom (some ⟨top.index, t, role⟩) g.capacity := by
      rw [Blueprint.pieceSites, size]
    rw [Tells] at tells
    rw [List.foldl_cons, later, Forest.plantPieces]
    cases wrong : (b.sitesFrom (some ⟨top.index, t, role⟩) g.capacity).findSome?
        (Site.problem? v.kind?) with
    | some e =>
      rw [wrong] at tells
      obtain ⟨k, fails⟩ := tells
      rw [Blueprint.findSome?_foldl_pieceSites (e := e)]
      · exact ⟨k, by rw [fails]; rfl⟩
      · rw [List.findSome?_append, clean, Option.none_or, wrong]
    | none =>
      rw [wrong] at tells
      obtain ⟨middle, first, capacity⟩ := tells
      obtain ⟨_, branch, stands⟩ := consistent.exists_stands ready first
      have settled := Consistent.plantUnder v (some (top, role)) consistent b
      rw [first] at settled ⊢
      refine ih each.2 ordered settled (stands.get?_owner found) ?_
        (fun piece inside => (awaits.2 piece inside).adopt (before piece inside)) ?_ ?_
      · rw [Definition.kind_adopt, known]
      · rw [List.findSome?_append, clean, Option.none_or, wrong]
      · rw [capacity, size, List.length_append, Nat.add_assoc]

/-- Planting, wherever it starts, tells the first thing wrong. -/
theorem Consistent.plantUnder_tells (consistent : g.Consistent) (awaits : g.Awaits owner)
    (answers : g.Answers v.kind? owner above) (b : Blueprint) : Tells v owner above g b := by
  induction b generalizing owner above g with
  | owner b each =>
    rw [Tells, Blueprint.sitesFrom_eq_foldl, plantUnder_eq]
    cases understood : v.kind? b.traits.kind with
    | none =>
      have wrong : [(⟨b.traits, above⟩ : Site)].findSome? (Site.problem? v.kind?) =
          some (.unknownKind b.traits.key b.traits.kind) := by
        rw [List.findSome?_singleton, Site.problem?, understood]
      rw [Blueprint.findSome?_foldl_pieceSites wrong, Vocabulary.kindOf, understood]
      exact ⟨g, rfl⟩
    | some kind =>
      obtain ⟨bare, free, paths⟩ := b.traits.definition_bare kind
      have inserted := consistent.insert free bare paths
      have top : [(⟨b.traits, above⟩ : Site)].findSome? (Site.problem? v.kind?) =
          above.bind (·.refusal? v.kind?) := by
        rw [List.findSome?_singleton, Site.problem?, understood]
      rw [Vocabulary.kindOf, understood]
      cases refuses : above.bind (·.refusal? v.kind?) with
      | some e =>
        obtain ⟨k, withdrawn⟩ := inserted.exists_withdraw (α := Handle) ⟨g.capacity⟩ e
        rw [Blueprint.findSome?_foldl_pieceSites (top.trans refuses)]
        refine ⟨k, ?_⟩
        simp only [consistent.settle_of_refusal free bare paths answers refuses, withdrawn]
      | none =>
        obtain ⟨settled, anchored, settles, capacity, new, _⟩ :=
          consistent.exists_settle free bare paths (answers.hosts awaits refuses)
        have pieces := (inserted.settle settles).plantPieces_tells (v := v) (t := b.traits)
          (fun piece inside _ _ _ consistent awaits answers =>
            each piece inside consistent awaits answers)
          b.pieces_ordered new (understood.trans (congrArg some (b.traits.kind_definition kind).symm))
          (fun _ _ later _ => b.traits.holder?_definition kind later) (top.trans refuses) capacity
        simp only [settles, plantOwned_eq_plantPieces]
        cases wrong : (b.pieces.foldl (Blueprint.pieceSites g.capacity b.traits)
            [⟨b.traits, above⟩]).findSome? (Site.problem? v.kind?) with
        | some e =>
          simp only [wrong] at pieces
          obtain ⟨k, fails⟩ := pieces
          have left := lasting_consistent.plantPieces (v := v) (h := ⟨g.capacity⟩)
            (inserted.settle settles) b.pieces
          rw [fails] at left
          obtain ⟨final, withdrawn⟩ := left.exists_withdraw (α := Handle) ⟨g.capacity⟩ e
          exact ⟨final, by rw [fails]; exact withdrawn⟩
        | none =>
          simp only [wrong] at pieces
          obtain ⟨k, planted, size⟩ := pieces
          exact ⟨k, by rw [planted]; rfl, size⟩

/-- A producer who has added words plants exactly the blueprints in which everything fits. What stands
then is shown as the blueprint said in full; otherwise the producer hears about the first thing
wrong. -/
theorem ofBlueprint_accepts (words : List (String × String)) (b : Blueprint) :
    (b.WellFormed (meaning words) ∧ ∃ f, ofBlueprint (.ofWords words) b = .ok f ∧
      f.root? = some ⟨0⟩ ∧
      f.blueprint ⟨0⟩ = .ok (b.mapTraits (Traits.understood (meaning words)))) ∨
    (¬ b.WellFormed (meaning words) ∧ ∃ e, b.problem? (meaning words) = some e ∧
      ofBlueprint (.ofWords words) b = .error e) := by
  have ready : empty.Awaits none := trivial
  have alone : empty.Answers (Vocabulary.ofWords words).kind? none none := trivial
  have tells := Consistent.empty.plantUnder_tells ready alone b
  rw [Tells, Vocabulary.kind?_ofWords, capacity_empty] at tells
  rw [← Blueprint.problem?_eq_none_iff]
  cases wrong : b.problem? (meaning words) with
  | some e =>
    rw [Blueprint.problem?, Blueprint.sites] at wrong
    rw [wrong] at tells
    obtain ⟨k, fails⟩ := tells
    refine .inr ⟨Option.some_ne_none e, e, rfl, ?_⟩
    rw [ofBlueprint, plant, fails]
  | none =>
    rw [Blueprint.problem?, Blueprint.sites] at wrong
    rw [wrong] at tells
    obtain ⟨k, planted, _⟩ := tells
    have run : ofBlueprint (.ofWords words) b = .ok k := by rw [ofBlueprint, plant, planted]
    obtain ⟨root, shown, _⟩ := root_of_ofBlueprint run
    refine .inl ⟨rfl, k, run, root, ?_⟩
    rw [shown, Blueprint.canonical_eq_mapTraits, Vocabulary.kind?_ofWords]

end Forest

end DataBinding
