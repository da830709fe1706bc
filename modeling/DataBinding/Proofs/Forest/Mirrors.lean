import DataBinding.Proofs.Forest.WireForm

/-!
# Mirrored branches

Where the definitions of a branch stand in other places and own what they owned before, the branch is
shown in the same order there. In snapshots, and in what is read back from them, these places are the
first ones, so a rank is a handle.
-/

namespace DataBinding.Forest

variable {f g : Forest} {h y : Handle} {order : List Handle} {place : Handle → Option Handle}

/-- In `g` the given definitions of `f` have places, and own there what they own in `f`. -/
def Mirrored (f g : Forest) (place : Handle → Option Handle) (order : List Handle) : Prop :=
  ∀ x ∈ order, ∃ d y e, f.get? x = some d ∧ place x = some y ∧ g.get? y = some e ∧
    e.belongings = d.belongings.filterMap place

theorem forall₂_filterMap {α β : Type} {carry : α → Option β} {xs : List α}
    (carried : ∀ x ∈ xs, ∃ y, carry x = some y) :
    List.Forall₂ (fun x y => carry x = some y) xs (xs.filterMap carry) := by
  induction xs with
  | nil => exact .nil
  | cons x rest ih =>
    obtain ⟨⟨y, goes⟩, later⟩ := List.forall_mem_cons.1 carried
    rw [List.filterMap_cons_some goes]
    exact .cons goes (ih later)

/-- Branches of one owner go together with those of another whose list of them is carried over. -/
private theorem forall₂_of_listed {α : Type} {key : Branch → α} {carry : α → Option α}
    {owned others : List Branch} (carried : ∀ b ∈ owned, ∃ y, carry (key b) = some y)
    (listed : others.map key = (owned.map key).filterMap carry) :
    List.Forall₂ (fun b c => b ∈ owned ∧ c ∈ others ∧ carry (key b) = some (key c)) owned others := by
  have paired := forall₂_filterMap (List.forall_mem_map.2 carried)
  rw [← listed, List.forall₂_map_left_iff, List.forall₂_map_right_iff, List.forall₂_iff_zip] at paired
  refine List.forall₂_iff_zip.2 ⟨paired.1, fun inside => ?_⟩
  obtain ⟨left, right⟩ := List.of_mem_zip inside
  exact ⟨left, right, paired.2 inside⟩

theorem Reads.handles_mirror {b c : Branch} (reads : f.Reads b) (other : g.Reads c)
    (mirrored : f.Mirrored g place b.handles) (goes : place b.handle = some c.handle) :
    c.handles.map some = b.handles.map place := by
  induction reads generalizing c with
  | @mk role h d owned found listed each ih =>
    obtain ⟨role', y, e, others⟩ := c
    have whole : f.Reads (.mk role h d owned) := .mk found listed each
    obtain ⟨_, _, _, again, goes', now, owns⟩ := mirrored h (Branch.handle_mem_handles _)
    replace goes : place h = some y := goes
    rw [found] at again
    cases again
    rw [goes] at goes'
    cases goes'
    rw [show g.get? y = some e from other.get?_handle] at now
    cases now
    rw [whole.belongings_eq, other.belongings_eq] at owns
    rw [Branch.handles_mk, Branch.handles_mk, List.map_cons, List.map_cons, goes]
    have placed : ∀ b ∈ owned, ∃ y, place b.handle = some y := by
      intro b inside
      obtain ⟨_, y, _, _, goes, _⟩ := mirrored b.handle
        (Branch.mem_handles_mk.2 (.inr ⟨b, inside, b.handle_mem_handles⟩))
      exact ⟨y, goes⟩
    have othersRead : ∀ c ∈ others, g.Reads c := by
      obtain ⟨_, _, each'⟩ := other
      exact each'
    have same : others.map (fun c => c.handles.map some) = owned.map fun b => b.handles.map place := by
      rw [← List.forall₂_eq_eq_eq, List.forall₂_map_left_iff, List.forall₂_map_right_iff]
      refine .flip ((forall₂_of_listed placed owns).imp fun b c ⟨inside, among, goes⟩ => ?_)
      exact ih b inside (othersRead c among)
        (fun x shown => mirrored x (Branch.mem_handles_mk.2 (.inr ⟨b, inside, shown⟩))) goes
    rw [List.map_flatMap, List.map_flatMap, List.flatMap_def, List.flatMap_def, same]

/-! ### What branches come to -/

/-- Branches come to the same when their definitions own the same in the same roles and count the
same. -/
theorem Reads.fold_mirror {α : Type} {step : Option Role → Handle → Entry → Branch.Below α → α}
    {b c : Branch} (reads : f.Reads b) (other : g.Reads c) (role : c.role = b.role)
    (goes : place b.handle = some c.handle)
    (alike : ∀ x ∈ b.handles, ∃ d y e, f.get? x = some d ∧ place x = some y ∧ g.get? y = some e ∧
      e.owned = (d.relocate place).owned ∧
      ∀ role below, step role y e below = step role x d below) : c.fold step = b.fold step := by
  induction reads generalizing c with
  | @mk own h d owned found listed each ih =>
    cases other with
    | @mk own' y e others now listed' each' =>
      obtain ⟨d', y', e', again, goes', now', owns, counts⟩ := alike h (Branch.handle_mem_handles _)
      replace goes : place h = some y := goes
      replace role : own' = own := role
      rw [found] at again
      cases again
      rw [goes] at goes'
      cases goes'
      rw [now] at now'
      cases now'
      rw [Definition.owned_relocate, ← listed, ← listed'] at owns
      have placed : ∀ b ∈ owned, ∃ piece,
          (place b.handle).map (fun h => (b.role, h)) = some piece := by
        intro b inside
        obtain ⟨_, y, _, _, goes, _⟩ := alike b.handle
          (Branch.mem_handles_mk.2 (.inr ⟨b, inside, b.handle_mem_handles⟩))
        exact ⟨(b.role, y), by rw [goes, Option.map_some]⟩
      rw [Branch.fold_mk, Branch.fold_mk, counts, role]
      congr 1
      rw [← List.forall₂_eq_eq_eq, List.forall₂_map_left_iff, List.forall₂_map_right_iff]
      refine .flip ((forall₂_of_listed placed owns).imp fun b c ⟨inside, among, carried⟩ => ?_)
      obtain ⟨y, goes, same⟩ := Option.map_eq_some_iff.1 carried
      obtain ⟨role, rfl⟩ := Prod.mk.inj same
      exact Prod.ext role.symm (ih b inside (each' c among) role.symm goes
        fun x shown => alike x (Branch.mem_handles_mk.2 (.inr ⟨b, inside, shown⟩)))

/-! ### Listings -/

theorem WellFormed.exists_subtree_mirror (wf : g.WellFormed) (shown : f.subtree h = .ok order)
    (mirrored : f.Mirrored g place order) (goes : place h = some y) :
    ∃ others, g.subtree y = .ok others ∧ others.map some = order.map place := by
  obtain ⟨b, read, rfl⟩ := Outcome.map_eq_ok_iff.1 shown
  obtain ⟨reads, _, rfl⟩ := reads_of_branchWithin read
  obtain ⟨_, _, _, _, goes', now, _⟩ := mirrored b.handle b.handle_mem_handles
  rw [goes] at goes'
  cases goes'
  obtain ⟨c, read', reads', _, rfl⟩ := wf.exists_branch now
  refine ⟨c.handles, ?_, reads.handles_mirror reads' mirrored goes⟩
  rw [subtree, read']
  rfl

theorem SameLinks.subtree_eq (same : f.SameLinks g) (wf : f.WellFormed) {order : List Handle}
    (shown : f.subtree h = .ok order) (members : ∀ x, x ∈ order ↔ f.Within h x) :
    g.subtree h = .ok order := by
  have mirrored : f.Mirrored g some order := by
    intro x inside
    obtain ⟨d, found⟩ := ((members x).1 inside).found
    obtain ⟨e, now, links⟩ := same.exists_of_get? found
    refine ⟨d, x, e, found, rfl, now, ?_⟩
    rw [List.filterMap_some, Definition.belongings_of_holdings (Definition.links_eq_iff.1 links).2]
  obtain ⟨others, run, equal⟩ := (wf.congr same).exists_subtree_mirror shown mirrored rfl
  rw [run, List.map_injective_iff.2 (fun _ _ => Option.some.inj) equal]

def firstPlaces (count : Nat) : List Handle :=
  (List.range count).map Handle.mk

theorem length_firstPlaces (count : Nat) : (firstPlaces count).length = count := by
  rw [firstPlaces, List.length_map, List.length_range]

theorem getElem?_firstPlaces {count k : Nat} (inside : k < count) :
    (firstPlaces count)[k]? = some ⟨k⟩ := by
  rw [firstPlaces, List.getElem?_map, List.getElem?_range inside, Option.map_some]

theorem handles_eq_firstPlaces (live : ∀ k, k < f.capacity → ∃ d, f.get? ⟨k⟩ = some d) :
    f.handles = firstPlaces f.capacity := by
  rw [handles, firstPlaces, List.filter_eq_self]
  intro y inside
  obtain ⟨k, within, rfl⟩ := List.mem_map.1 inside
  obtain ⟨d, found⟩ := live k (List.mem_range.1 within)
  rw [contains, found]
  rfl

theorem map_placeFrom (distinct : order.Nodup) :
    order.map (placeFrom 0 order) = (firstPlaces order.length).map some := by
  apply List.ext_getElem?
  intro k
  rw [List.getElem?_map, List.getElem?_map]
  by_cases inside : k < order.length
  · rw [List.getElem?_eq_getElem inside, getElem?_firstPlaces inside, Option.map_some, Option.map_some]
    exact congrArg some ((placeFrom_zero_eq_some_iff distinct).2 (List.getElem?_eq_getElem inside))
  · have beyond : (firstPlaces order.length).length ≤ k := by
      rw [length_firstPlaces]
      omega
    rw [List.getElem?_eq_none (by omega), List.getElem?_eq_none beyond]
    rfl

/-- A branch that is mirrored in the first places is shown there by rank. -/
theorem WellFormed.subtree_first (wf : g.WellFormed) (shown : f.subtree h = .ok order)
    (distinct : order.Nodup) (top : order[0]? = some h)
    (mirrored : f.Mirrored g (placeFrom 0 order) order) :
    g.subtree ⟨0⟩ = .ok (firstPlaces order.length) := by
  have goes : placeFrom 0 order h = some ⟨0⟩ := (placeFrom_zero_eq_some_iff distinct).2 top
  obtain ⟨others, shown', same⟩ := wf.exists_subtree_mirror shown mirrored goes
  rw [map_placeFrom distinct] at same
  rw [shown', List.map_injective_iff.2 (fun _ _ => Option.some.inj) same]

theorem root?_of_first {d : Entry} (found : f.get? ⟨0⟩ = some d) (free : d.parent = none) :
    f.root? = some ⟨0⟩ := by
  obtain ⟨count, size⟩ := Nat.exists_eq_add_one.2 (Nat.zero_lt_of_lt (index_lt_of_get? found))
  have live : f.contains ⟨0⟩ = true := by rw [contains, found]; rfl
  rw [root?, handles, size, List.range_succ_eq_map, List.map_cons, List.filter_cons, if_pos live,
    List.find?_cons, found, Option.any_some, free]
  rfl

theorem Snapshot.mirrored (snapshot : f.Snapshot g h order) :
    f.Mirrored g (placeFrom 0 order) order := by
  intro x inside
  obtain ⟨y, goes⟩ := exists_placeFrom 0 snapshot.sorted.nodup inside
  obtain ⟨d, found⟩ := ((snapshot.members x).1 inside).found
  refine ⟨d, y, _, found, goes, snapshot.get?_of_placeFrom goes found, ?_⟩
  rw [← Definition.belongings_relocate]
  split
  case isTrue =>
    have links := links_anchored (pictured order d)
    rw [Definition.links_eq_iff] at links
    exact Definition.belongings_of_holdings links.2
  case isFalse => rfl

theorem Restored.mirrored (restored : f.Restored g order) :
    f.Mirrored g (placeFrom 0 order) order := by
  intro x inside
  obtain ⟨k, there⟩ := List.getElem?_of_mem inside
  obtain ⟨d, found, now⟩ := restored.restored there
  have goes : placeFrom 0 order x = some ⟨k⟩ :=
    (placeFrom_zero_eq_some_iff restored.distinct).2 there
  exact ⟨d, ⟨k⟩, _, found, goes, now, Definition.belongings_relocate _ d⟩

end DataBinding.Forest
