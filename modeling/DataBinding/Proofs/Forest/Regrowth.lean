import DataBinding.Proofs.Forest.Pieces
import DataBinding.Proofs.Forest.Settling

/-!
# Regrowth

Planting the blueprint of a branch grows the branch again in new places. The definitions come in the
order in which the branch shows them, so where each of them goes is known beforehand; planting then
takes in, one after the other, whoever the links of the branch name.
-/

namespace DataBinding

namespace Definition

variable {F : Type} {d e : Definition F} {h : Handle}

def unscoped (d : Definition F) : Definition F :=
  { d with paths := [] }

/-- A definition in another place, without what belongs to the host. -/
def regrown (place : Handle → Option Handle) (d : Definition F) : Definition F :=
  { d.relocate place with edited := false, observer := none, bundle := none }

def adoptAll (place : Handle → Option Handle) (d : Definition F)
    (pieces : List (Option Role × Handle)) : Definition F :=
  pieces.foldl (fun d piece => (place piece.2).elim d (d.adopt piece.1)) d

/-- Taking in one definition leaves room for another, unless both are to play the same role. -/
theorem HasRoom.adopt {role other : Option Role} (room : d.HasRoom other)
    (differ : role ≠ none → role ≠ other) : (d.adopt role h).HasRoom other := by
  cases role with
  | none => cases other <;> exact room
  | some role =>
    cases set : d.content.setHolder? role (some h) with
    | none =>
      rw [Definition.adopt, set]
      exact room
    | some renewed =>
      rw [Definition.adopt, set, Option.getD_some]
      have kind := Content.kind_of_setHolder? set
      cases other with
      | none =>
        show renewed.kind.isContainer = true
        rw [kind]
        exact room
      | some other =>
        refine ⟨?_, ?_⟩
        · rw [kind]
          exact room.1
        · have apart : other ≠ role := by
            rintro rfl
            exact differ (by simp) rfl
          rw [Content.holder?_of_setHolder? set, if_neg apart]
          exact room.2

theorem adoptAll_cons (place : Handle → Option Handle) (d : Definition F)
    (piece : Option Role × Handle) (rest : List (Option Role × Handle)) :
    d.adoptAll place (piece :: rest) =
      ((place piece.2).elim d (d.adopt piece.1)).adoptAll place rest :=
  rfl

theorem adoptAll_children (place : Handle → Option Handle) (d : Definition F)
    (children : List Handle) : d.adoptAll place (children.map (none, ·)) =
      { d with children := d.children ++ children.filterMap place } := by
  induction children generalizing d with
  | nil => simp [adoptAll]
  | cons child rest ih =>
    rw [List.map_cons, adoptAll_cons, ih, List.filterMap_cons]
    cases place child with
    | none => rfl
    | some h => simp [Definition.adopt]

theorem adoptAll_append (place : Handle → Option Handle) (d : Definition F)
    (first later : List (Option Role × Handle)) :
    d.adoptAll place (first ++ later) = (d.adoptAll place first).adoptAll place later := by
  rw [adoptAll, List.foldl_append]
  rfl

theorem adoptAll_toList (place : Handle → Option Handle) (d : Definition F) (role : Option Role)
    (holder : Option Handle) : d.adoptAll place (holder.toList.map (role, ·)) =
      (holder.bind place).elim d (d.adopt role) := by
  cases holder <;> rfl

theorem adoptAll_holders (place : Handle → Option Handle) (content : Content) (d : Definition F)
    (alone : d.content = content.alone) :
    d.adoptAll place (content.holders.map fun (role, h) => (some role, h)) =
      { d with content := content.mapHolders place } := by
  obtain ⟨key, own⟩ := d
  dsimp only at alone
  subst alone
  cases content with
  | dropdown label required possibleValues =>
    have pieces : ((Content.dropdown label required possibleValues).holders.map
        fun (role, h) => (some role, h)) = possibleValues.toList.map (some .possibleValues, ·) := by
      cases possibleValues <;> rfl
    rw [pieces, adoptAll_toList, Content.mapHolders]
    cases possibleValues.bind place <;> rfl
  | form title header footer =>
    have pieces : ((Content.form title header footer).holders.map fun (role, h) => (some role, h)) =
        header.toList.map (some .header, ·) ++ footer.toList.map (some .footer, ·) := by
      cases header <;> cases footer <;> rfl
    rw [pieces, adoptAll_append, adoptAll_toList, adoptAll_toList, Content.mapHolders]
    cases header.bind place <;> cases footer.bind place <;> rfl
  | table header details =>
    have pieces : ((Content.table header details).holders.map fun (role, h) => (some role, h)) =
        header.toList.map (some .header, ·) ++ details.toList.map (some .details, ·) := by
      cases header <;> cases details <;> rfl
    rw [pieces, adoptAll_append, adoptAll_toList, adoptAll_toList, Content.mapHolders]
    cases header.bind place <;> cases details.bind place <;> rfl
  | tree details =>
    have pieces : ((Content.tree details).holders.map fun (role, h) => (some role, h)) =
        details.toList.map (some .details, ·) := by
      cases details <;> rfl
    rw [pieces, adoptAll_toList, Content.mapHolders]
    cases details.bind place <;> rfl
  | _ => rfl

theorem adoptAll_owned (place : Handle → Option Handle) (d e : Definition F)
    (content : e.content = d.content.alone) (children : e.children = []) :
    e.adoptAll place d.owned =
      { e with
        children := d.children.filterMap place
        content := d.content.mapHolders place } := by
  have split : e.adoptAll place d.owned =
      (e.adoptAll place (d.children.map (none, ·))).adoptAll place
        (d.content.holders.map fun (role, h) => (some role, h)) := by
    rw [owned, adoptAll_append]
  rw [split, adoptAll_children, adoptAll_holders _ d.content _ (by exact content), children,
    List.nil_append]

end Definition

namespace Forest

section Placed

variable {place : Handle → Option Handle} {start : Nat} {xs ys : List Handle} {x : Handle}

/-- The definitions of a list go to places one after the other. -/
def PlacedFrom (place : Handle → Option Handle) (start : Nat) (order : List Handle) : Prop :=
  ∀ k x, order[k]? = some x → place x = some ⟨start + k⟩

theorem PlacedFrom.left (placed : PlacedFrom place start (xs ++ ys)) : PlacedFrom place start xs := by
  intro k x there
  apply placed k x
  rw [List.getElem?_append_left (List.getElem?_eq_some_iff.1 there).1, there]

theorem PlacedFrom.right (placed : PlacedFrom place start (xs ++ ys)) :
    PlacedFrom place (start + xs.length) ys := by
  intro k x there
  rw [Nat.add_assoc]
  apply placed
  rw [List.getElem?_append_right (Nat.le_add_right _ _), Nat.add_sub_cancel_left, there]

theorem PlacedFrom.exists_place (placed : PlacedFrom place start xs) (inside : x ∈ xs) :
    ∃ y, place x = some y ∧ start ≤ y.index ∧ y.index < start + xs.length := by
  obtain ⟨k, there⟩ := List.getElem?_of_mem inside
  have bound := (List.getElem?_eq_some_iff.1 there).1
  exact ⟨_, placed k x there, Nat.le_add_right _ _, Nat.add_lt_add_left bound _⟩

end Placed

variable {f g : Forest} {v : Vocabulary} {place : Handle → Option Handle}

/-- `k` is `g` with definitions of `f` grown in the places behind. -/
structure Grown (f g k : Forest) (place : Handle → Option Handle) (order : List Handle) : Prop where
  capacity : k.capacity = g.capacity + order.length
  new : ∀ {x : Handle} {d : Entry}, x ∈ order → f.get? x = some d → ∃ y e, place x = some y ∧
    k.get? y = some e ∧ e.unscoped = (d.regrown place).unscoped

def hosted (owner : Owner) (h y : Handle) (e : Entry) : Entry :=
  match owner with
  | none => e
  | some (o, role) => if y = o then e.adopt role h else e

theorem map_hosted_of_ne {o h y : Handle} {role : Option Role} (differ : y ≠ o)
    (place : Option Entry) : place.map (hosted (some (o, role)) h y) = place := by
  cases place with
  | none => rfl
  | some e => rw [Option.map_some, hosted, if_neg differ]

/-- A forest has room for a definition under its owner, or the definition has none. -/
def Hosts (g : Forest) : Owner → Prop
  | none => True
  | some (o, role) => ∃ e, g.get? o = some e ∧ e.HasRoom role

theorem Consistent.exists_settle (consistent : g.Consistent) {d : Entry} {owner : Owner}
    (free : d.parent = none) (bare : d.belongings = [])
    (paths : d.paths = Path.normalize d.dataPath none) (hosts : g.Hosts owner) :
    ∃ k paths, (g.insert d).2.settle ⟨g.capacity⟩ owner = .ok k ∧ k.capacity = g.capacity + 1 ∧
      k.get? ⟨g.capacity⟩ = some { d with parent := owner.map (·.1), paths := paths } ∧
      ∀ y, y.index < g.capacity → k.get? y = (g.get? y).map (hosted owner ⟨g.capacity⟩ y) := by
  match owner, hosts with
  | none, _ =>
    refine ⟨(g.insert d).2, d.paths, rfl, capacity_insert g d, ?_, fun y inside => ?_⟩
    · show (g.insert d).2.get? ⟨g.capacity⟩ = some { d with parent := none }
      rw [← free]
      exact get?_insert_self g d
    · rw [get?_insert_of_lt inside]
      exact (Option.map_id' ..).symm
  | some (o, role), ⟨e, found, room⟩ =>
    obtain ⟨k, run, settled⟩ := consistent.exists_settle_new free bare paths found room
    obtain ⟨paths, new⟩ := settled.new
    refine ⟨k, paths, run, settled.capacity, new, fun y inside => ?_⟩
    by_cases same : y = o
    · subst same
      rw [settled.taken, found, Option.map_some, hosted, if_pos rfl]
    · rw [settled.others y inside same, map_hosted_of_ne same]

/-- Planting the blueprint of a branch grows what the branch shows. -/
def Grows (f : Forest) (v : Vocabulary) (place : Handle → Option Handle) (b : Branch) : Prop :=
  ∀ (g : Forest) (owner : Owner), g.Consistent → PlacedFrom place g.capacity b.handles →
    b.definition.parent.bind place = owner.map (·.1) → g.Hosts owner →
    ∃ k, plantUnder v owner g b.blueprint = (k, .ok ⟨g.capacity⟩) ∧ f.Grown g k place b.handles ∧
      ∀ y, y.index < g.capacity → k.get? y = (g.get? y).map (hosted owner ⟨g.capacity⟩ y)

theorem exists_plantEach {branches : List Branch} {top : Handle} {e : Entry}
    (grows : ∀ b ∈ branches, f.Grows v place b) (consistent : g.Consistent)
    (placed : PlacedFrom place g.capacity (branches.flatMap Branch.handles))
    (found : g.get? top = some e) (room : ∀ b ∈ branches, e.HasRoom b.role)
    (differ : branches.Pairwise fun a b => a.role ≠ none → a.role ≠ b.role)
    (owned : ∀ b ∈ branches, b.definition.parent.bind place = some top) :
    ∃ k, plantEach v top g branches = (k, .ok ()) ∧
      f.Grown g k place (branches.flatMap Branch.handles) ∧
      k.get? top = some (e.adoptAll place (branches.map fun b => (b.role, b.handle))) ∧
      ∀ y, y.index < g.capacity → y ≠ top → k.get? y = g.get? y := by
  induction branches generalizing g e with
  | nil => exact ⟨g, rfl, ⟨rfl, by simp⟩, found, fun _ _ _ => rfl⟩
  | cons b rest ih =>
    rw [List.flatMap_cons] at placed ⊢
    obtain ⟨apart, later⟩ := List.pairwise_cons.1 differ
    have topOld := index_lt_of_get? found
    obtain ⟨middle, first, grown, old⟩ := grows b List.mem_cons_self g (some (top, b.role)) consistent
      placed.left (owned b List.mem_cons_self) ⟨e, found, room b List.mem_cons_self⟩
    have settled := Consistent.plantUnder v (some (top, b.role)) consistent b.blueprint
    rw [first] at settled
    have topMiddle : middle.get? top = some (e.adopt b.role ⟨g.capacity⟩) := by
      rw [old top topOld, found, Option.map_some, hosted, if_pos rfl]
    have placedLater : PlacedFrom place middle.capacity (rest.flatMap Branch.handles) := by
      rw [grown.capacity]
      exact placed.right
    obtain ⟨k, run, grown', topNow, old'⟩ :=
      ih (fun c inside => grows c (List.mem_cons_of_mem _ inside)) settled placedLater topMiddle
        (fun c inside => (room c (List.mem_cons_of_mem _ inside)).adopt (apart c inside)) later
        fun c inside => owned c (List.mem_cons_of_mem _ inside)
    refine ⟨k, ?_, ⟨?_, ?_⟩, ?_, fun y inside notTop => ?_⟩
    · rw [plantEach, first]
      exact run
    · rw [grown'.capacity, grown.capacity, List.length_append, Nat.add_assoc]
    · intro x d shown there
      rcases List.mem_append.1 shown with inFirst | inLater
      · obtain ⟨y, entry, place', now, same⟩ := grown.new inFirst there
        obtain ⟨y', again, lower, upper⟩ := placed.left.exists_place inFirst
        rw [place'] at again
        cases again
        refine ⟨y, entry, place', ?_, same⟩
        rw [old' y (by rw [grown.capacity]; exact upper), now]
        rintro rfl
        omega
      · exact grown'.new inLater there
    · have placedTop : place b.handle = some ⟨g.capacity⟩ := by
        have head : (b.handles)[0]? = some b.handle := by
          obtain ⟨role, h, d, pieces⟩ := b
          rw [Branch.handles_mk]
          rfl
        exact placed.left 0 b.handle head
      rw [topNow, List.map_cons, Definition.adoptAll_cons, placedTop]
      rfl
    · have inside' : y.index < middle.capacity := by
        rw [grown.capacity]
        omega
      rw [old' y inside' notTop, old y inside, map_hosted_of_ne notTop]

theorem Reads.roles_differ {role : Option Role} {h : Handle} {d : Entry} {owned : List Branch}
    (reads : f.Reads (.mk role h d owned)) :
    owned.Pairwise fun a b => a.role ≠ none → a.role ≠ b.role := by
  obtain ⟨children, holders, rfl, plain, inOrder⟩ := reads.exists_owned_eq
  have distinct : (holders.map Branch.role).Nodup := inOrder.nodup (by decide)
  rw [List.pairwise_append]
  refine ⟨List.pairwise_of_forall_mem_list fun a inside b _ => ?_, ?_, fun a inside b _ => ?_⟩
  · exact fun hrole => absurd (plain a inside) hrole
  · rw [List.Nodup, List.pairwise_map] at distinct
    refine distinct.imp ?_
    intro a b differ _
    exact differ
  · exact fun hrole => absurd (plain a inside) hrole

theorem Reads.get?_handle {b : Branch} (reads : f.Reads b) : f.get? b.handle = some b.definition := by
  obtain ⟨found, _, _⟩ := reads
  exact found

/-- A definition without links has room for all that it owned before. -/
theorem WellFormed.hasRoom_of_alone (wf : f.WellFormed) {h : Handle} {d e : Entry}
    (found : f.get? h = some d) (alone : e.content = d.content.alone) {piece : Option Role × Handle}
    (listed : piece ∈ d.owned) : e.HasRoom piece.1 := by
  obtain ⟨role, x⟩ := piece
  rw [Definition.owned, List.mem_append] at listed
  rcases listed with child | holder
  · obtain ⟨_, inside, same⟩ := List.mem_map.1 child
    cases same
    have container := wf.isContainer_of_children found (List.ne_nil_of_mem inside)
    show e.content.kind.isContainer = true
    rw [alone, Content.kind_alone]
    exact container
  · obtain ⟨⟨r, _⟩, inside, same⟩ := List.mem_map.1 holder
    cases same
    have has := Content.mem_roles_of_holder? (Content.mem_holders.1 inside)
    refine ⟨?_, ?_⟩
    · rwa [alone, Content.kind_alone]
    · rw [alone, Content.holder?_alone]

/-- Every branch of a well-formed forest grows again from its blueprint. -/
theorem Reads.grows {b : Branch} (reads : f.Reads b) (wf : f.WellFormed)
    (plain : ∀ kind : Kind, v.kind? kind.name = some kind) : f.Grows v place b := by
  induction reads with
  | @mk role h d owned found listed each ih =>
    have whole : f.Reads (.mk role h d owned) := .mk found listed each
    intro g owner consistent placed parent hosts
    rw [Branch.handles_mk] at placed ⊢
    have placedTop : place h = some ⟨g.capacity⟩ := placed 0 h rfl
    obtain ⟨bare, free, paths⟩ := (Traits.ofDefinition d).definition_bare d.kind
    obtain ⟨k, paths', settles, capacity, new, old⟩ :=
      consistent.exists_settle free bare paths hosts
    have settled : k.Consistent := (consistent.insert free bare paths).settle settles
    rw [Traits.definition_ofDefinition] at new
    have placedOwned : PlacedFrom place k.capacity (owned.flatMap Branch.handles) := by
      rw [capacity]
      have split : PlacedFrom place g.capacity ([h] ++ owned.flatMap Branch.handles) := placed
      exact split.right
    have room : ∀ b ∈ owned, Definition.HasRoom b.role _ := fun b inside =>
      wf.hasRoom_of_alone found (e := { d with
        content := d.content.alone
        paths := paths'
        parent := owner.map (·.1)
        children := []
        edited := false
        observer := none
        bundle := none }) rfl (listed ▸ List.mem_map_of_mem inside)
    have parents : ∀ b ∈ owned, b.definition.parent.bind place = some ⟨g.capacity⟩ := by
      intro b inside
      have owns : b.handle ∈ d.belongings := by
        rw [whole.belongings_eq]
        exact List.mem_map_of_mem inside
      obtain ⟨e, there, names⟩ := wf.owned_names_owner found owns
      rw [(each b inside).get?_handle] at there
      cases there
      rw [names, Option.bind_some, placedTop]
    obtain ⟨final, run, grown, topNow, old'⟩ :=
      exists_plantEach ih settled placedOwned new room whole.roles_differ parents
    have pieces : owned.map (fun b => (b.role, b.handle)) = d.owned := listed
    rw [pieces, Definition.adoptAll_owned place d _ rfl rfl] at topNow
    refine ⟨final, ?_, ⟨?_, ?_⟩, fun y inside => ?_⟩
    · rw [plantUnder_eq, Branch.traits_blueprint]
      simp only [Branch.definition, Traits.kindOf_ofDefinition plain, settles, plantOwned_eq whole, run]
      rfl
    · rw [grown.capacity, capacity, List.length_cons]
      omega
    · intro x e shown there
      rcases List.mem_cons.1 shown with rfl | below
      · rw [found] at there
        cases there
        refine ⟨_, _, placedTop, topNow, ?_⟩
        replace parent : d.parent.bind place = owner.map (·.1) := parent
        rw [Definition.unscoped, Definition.unscoped, Definition.regrown, Definition.relocate, parent]
      · exact grown.new below there
    · rw [old' y (by omega) (ne_new_of_lt inside), old y inside]

end Forest

end DataBinding
