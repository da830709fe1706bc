import DataBinding.Binding.WriteBack
import DataBinding.Proofs.Forest.Grafting

/-!
# Snapshots stand alone

A snapshot of a branch has one definition for each of the branch, and they own each other as before.
Each of them reads the same data, is hidden from the same data and has the same edits as the one it
was taken of. A container that takes the snapshot in has no say in what it reads.
-/

namespace DataBinding.Forest

variable {f g : Forest} {h x : Handle} {order : List Handle}

/-! ### Looking alike -/

/-- A definition looks like another one to whoever reads its data or asks about its branch. -/
structure Resembles (d e : Entry) : Prop where
  kind : e.kind = d.kind
  paths : e.paths = d.paths
  hasDataPath : e.hasDataPath = d.hasDataPath
  hidden : e.hidden = d.hidden
  hideIfEmpty : e.hideIfEmpty = d.hideIfEmpty
  hideIfUndefined : e.hideIfUndefined = d.hideIfUndefined
  edited : e.edited = d.edited

namespace Resembles

variable {d e : Entry}

theorem readings (alike : Resembles d e) (data : Data) : e.readings data = d.readings data := by
  rw [Definition.readings, Definition.readings, alike.paths]

theorem trips (alike : Resembles d e) (data : Data) : e.trips data = d.trips data := by
  rw [Definition.trips, Definition.trips, alike.readings, alike.hasDataPath, alike.hideIfEmpty,
    alike.hideIfUndefined]

theorem isContainer (alike : Resembles d e) : e.isContainer = d.isContainer :=
  congrArg Kind.isContainer alike.kind

end Resembles

/-- Definitions of two forests read the same data, are hidden from the same data and have the same
edits. -/
def Alike (f g : Forest) (x y : Handle) : Prop :=
  (∀ data, ∃ readings hidden, f.readings x data = .ok readings ∧ g.readings y data = .ok readings ∧
    f.isHidden x data = .ok hidden ∧ g.isHidden y data = .ok hidden) ∧
  ∃ edited, f.hasEdits x = .ok edited ∧ g.hasEdits y = .ok edited

/-- Where each definition of a branch has a place with one that looks like it and owns the same, they
are alike. -/
theorem WellFormed.alike (wf : f.WellFormed) (wf' : g.WellFormed) {place : Handle → Option Handle}
    {y : Handle} (goes : place x = some y)
    (copies : ∀ z, f.Within x z → ∃ d y e, f.get? z = some d ∧ place z = some y ∧
      g.get? y = some e ∧ e.owned = (d.relocate place).owned ∧ Resembles d e)
    (live : ∃ d, f.get? x = some d) : f.Alike g x y := by
  obtain ⟨d, found⟩ := live
  obtain ⟨d', y', e, again, goes', now, _, alike⟩ := copies x (wf.within_refl found)
  rw [found] at again
  cases again
  rw [goes] at goes'
  cases goes'
  obtain ⟨b, read, reads, role, rfl⟩ := wf.exists_branch found
  obtain ⟨c, read', reads', role', rfl⟩ := wf'.exists_branch now
  have same : ∀ {α : Type} (step : Option Role → Handle → Entry → Branch.Below α → α),
      (∀ {d e : Entry}, Resembles d e →
        ∀ role x y below, step role y e below = step role x d below) →
      c.fold step = b.fold step := by
    intro α step counts
    refine reads.fold_mirror reads' (role'.trans role.symm) goes fun z shown => ?_
    obtain ⟨d, y, e, found, goes, now, owns, alike⟩ := copies z ((reads.mem_handles_iff wf).1 shown)
    exact ⟨d, y, e, found, goes, now, owns, fun role below => counts alike role z y below⟩
  refine ⟨fun data => ⟨d.readings data, b.isHidden data, ?_, ?_, ?_, ?_⟩, b.isEdited, ?_, ?_⟩
  · rw [Forest.readings, find_eq_ok_iff.2 found]
    rfl
  · rw [Forest.readings, find_eq_ok_iff.2 now, ← alike.readings]
    rfl
  · rw [isHidden, read]
    rfl
  · rw [isHidden, read']
    refine congrArg Except.ok (same _ fun {d e} alike role x y below => ?_)
    rw [alike.hidden, alike.trips, alike.isContainer, alike.hideIfEmpty]
  · rw [hasEdits, read]
    rfl
  · rw [hasEdits, read']
    refine congrArg Except.ok (same _ fun {d e} alike role x y below => ?_)
    rw [alike.edited]

/-! ### Copies in snapshots -/

/-- A definition and its copy, where `order` lists the originals by the places of their copies. All
that was authored but the data path is the same, what is owned is copied in the role that it has, and
nothing of the host is left. -/
structure CopyOf (order : List Handle) (d e : Entry) : Prop where
  authored : Traits.ofDefinition { e with dataPath := d.dataPath } = Traits.ofDefinition d
  owned : List.Forall₂ (fun own copy => copy.1 = own.1 ∧ order[copy.2.index]? = some own.2)
    d.owned e.owned
  unobserved : e.observer = none
  unbundled : e.bundle = none

theorem Consistent.hasDataPath_iff (consistent : f.Consistent) {d : Entry}
    (found : f.get? x = some d) : d.hasDataPath = true ↔ d.paths ≠ [] := by
  obtain ⟨above, _, paths⟩ := consistent.paths x d found
  rw [paths, Definition.hasDataPath]
  cases blank : Text.allBlank d.dataPath with
  | true => simp [Path.normalize_of_allBlank blank]
  | false => simpa using Path.normalize_ne_nil blank

theorem Snapshot.exists_pictured (snapshot : f.Snapshot g h order) {k : Nat}
    (there : order[k]? = some x) : ∃ d dataPath, f.get? x = some d ∧
      g.get? ⟨k⟩ = some { pictured order d with dataPath := dataPath } := by
  obtain ⟨d, found, now⟩ := snapshot.places there
  split at now
  case isTrue =>
    rw [now, anchored]
    split
    case isTrue => exact ⟨d, _, found, rfl⟩
    case isFalse => exact ⟨d, d.dataPath, found, rfl⟩
  case isFalse => exact ⟨d, d.dataPath, found, now⟩

theorem Snapshot.owned_inside (snapshot : f.Snapshot g h order) (wf : f.WellFormed) {d : Entry}
    (inside : x ∈ order) (found : f.get? x = some d) : ∀ piece ∈ d.owned, piece.2 ∈ order := by
  intro piece owned
  have below := wf.within_of_mem_belongings found (List.mem_map_of_mem owned)
  exact (snapshot.members _).2 (below.trans ((snapshot.members x).1 inside))

theorem Snapshot.exists_copyOf (snapshot : f.Snapshot g h order) (wf : f.WellFormed) {k : Nat}
    (there : order[k]? = some x) :
    ∃ d e, f.get? x = some d ∧ g.get? ⟨k⟩ = some e ∧ CopyOf order d e := by
  obtain ⟨d, dataPath, found, now⟩ := snapshot.exists_pictured there
  refine ⟨d, _, found, now, ?_, ?_, rfl, rfl⟩
  · obtain ⟨key, content⟩ := d
    cases content <;> rfl
  · show List.Forall₂ _ d.owned (d.relocate (placeFrom 0 order)).owned
    rw [Definition.owned_relocate]
    have inside := snapshot.owned_inside wf (List.mem_of_getElem? there) found
    have carried : ∀ piece ∈ d.owned, ∃ copy,
        (placeFrom 0 order piece.2).map (fun h => (piece.1, h)) = some copy := by
      intro piece owned
      obtain ⟨y, goes⟩ := exists_placeFrom 0 snapshot.sorted.nodup (inside piece owned)
      exact ⟨(piece.1, y), by rw [goes, Option.map_some]⟩
    refine (forall₂_filterMap carried).imp fun piece copy taken => ?_
    obtain ⟨y, goes, rfl⟩ := Option.map_eq_some_iff.1 taken
    exact ⟨rfl, (placeFrom_zero_eq_some_iff snapshot.sorted.nodup).1 goes⟩

theorem Snapshot.exists_resembling (snapshot : f.Snapshot g h order) (consistent : f.Consistent)
    (consistent' : g.Consistent) (inside : x ∈ order) : ∃ d y e, f.get? x = some d ∧
      placeFrom 0 order x = some y ∧ g.get? y = some e ∧
      e.owned = (d.relocate (placeFrom 0 order)).owned ∧ Resembles d e := by
  obtain ⟨k, there⟩ := List.getElem?_of_mem inside
  obtain ⟨d, dataPath, found, now⟩ := snapshot.exists_pictured there
  have goes : placeFrom 0 order x = some ⟨k⟩ :=
    (placeFrom_zero_eq_some_iff snapshot.sorted.nodup).2 there
  refine ⟨d, _, _, found, goes, now, rfl,
    ⟨Content.kind_mapHolders _ d.content, rfl, ?_, rfl, rfl, rfl, rfl⟩⟩
  rw [Bool.eq_iff_iff, consistent.hasDataPath_iff found, consistent'.hasDataPath_iff now]
  rfl

/-! ### Snapshots -/

/-- Into whatever container of a consistent forest a snapshot is grafted, its definitions keep the
paths that they had where it was taken. -/
theorem Snapshot.exists_graft (snapshot : f.Snapshot g h order) (consistent : f.Consistent)
    (consistent' : g.Consistent) (root : g.root? = some ⟨0⟩)
    (shown : g.subtree ⟨0⟩ = .ok (firstPlaces order.length)) {f' : Forest} {container : Handle}
    {host : Entry} (target : f'.Consistent) (found : f'.get? container = some host)
    (isContainer : host.isContainer = true) : ∃ grafted others,
      f'.graft container g = .ok grafted ∧
      grafted.forest.subtree grafted.handle = .ok others ∧
      List.Forall₂ (fun x y => ∃ d e, f.get? x = some d ∧ grafted.forest.get? y = some e ∧
        e.paths = d.paths) order others := by
  obtain ⟨listed, grafted, run, handle, bears, _⟩ :=
    target.exists_graft consistent' found isContainer root
  have after := target.graft consistent' run
  have again := bears.subtree
  rw [shown] at again
  cases again
  obtain ⟨c, rootFound, free⟩ := free_of_root? root
  obtain ⟨d, topFound, picture⟩ := snapshot.places snapshot.top
  rw [if_pos rfl, rootFound] at picture
  cases picture
  have steady : ∀ above, Path.normalize (anchored (pictured order d)).dataPath above =
      (anchored (pictured order d)).paths := by
    intro above
    have kept := consistent.normalize_anchored topFound above
    rw [dataPath_anchored] at kept
    rw [dataPath_anchored, paths_anchored]
    exact kept.symm
  refine ⟨grafted, _, run, by rw [handle]; exact bears.subtree_top after.links, ?_⟩
  rw [List.forall₂_iff_get]
  refine ⟨by simp [length_firstPlaces], fun k left right => ?_⟩
  have there : order[k]? = some order[k] := List.getElem?_eq_getElem left
  obtain ⟨d', dataPath, original, picture⟩ := snapshot.exists_pictured there
  obtain ⟨e, now, paths⟩ := bears.paths_eq after.paths consistent' rootFound free steady
    (getElem?_firstPlaces left) picture
  refine ⟨d', e, original, ?_, paths⟩
  simpa using now

/-- A snapshot has the definitions of the branch in the order of the branch, each a copy that the host
has no part in and that reads the same data, is hidden from the same data and has the same edits.
Grafted into any container, all of them keep the paths that they had in the branch. -/
theorem Reachable.extract_stands_alone (reached : Reachable f) {d : Entry}
    (found : f.get? h = some d) : ∃ order g, f.subtree h = .ok order ∧ f.extract h = .ok g ∧
      g.handles = firstPlaces order.length ∧ g.root? = some ⟨0⟩ ∧
      g.subtree ⟨0⟩ = .ok (firstPlaces order.length) ∧
      (∀ k x, order[k]? = some x →
        (∃ d e, f.get? x = some d ∧ g.get? ⟨k⟩ = some e ∧ CopyOf order d e) ∧ f.Alike g x ⟨k⟩) ∧
      ∀ f' container host, Reachable f' → f'.get? container = some host → host.isContainer = true →
        ∃ grafted others, f'.graft container g = .ok grafted ∧
          grafted.forest.subtree grafted.handle = .ok others ∧
          List.Forall₂ (fun x y => ∃ d e, f.get? x = some d ∧ grafted.forest.get? y = some e ∧
            e.paths = d.paths) order others := by
  have consistent := reached.consistent
  obtain ⟨order, g, _, run, snapshot, _⟩ := consistent.links.exists_extract found
  have consistent' := consistent.extract run
  have distinct := snapshot.sorted.nodup
  have shown : g.subtree ⟨0⟩ = .ok (firstPlaces order.length) :=
    consistent'.links.subtree_first snapshot.subtree distinct snapshot.top snapshot.mirrored
  have root : g.root? = some ⟨0⟩ := by
    obtain ⟨d, topFound, top⟩ := snapshot.places snapshot.top
    rw [if_pos rfl] at top
    exact root?_of_first top (snapshot.parent_top topFound)
  have listed : g.handles = firstPlaces order.length := by
    rw [← snapshot.capacity]
    refine handles_eq_firstPlaces fun k inside => ?_
    rw [snapshot.capacity] at inside
    obtain ⟨d, _, now⟩ := snapshot.places (List.getElem?_eq_getElem inside)
    exact ⟨_, now⟩
  refine ⟨order, g, snapshot.subtree, run, listed, root, shown, fun k x there => ⟨?_, ?_⟩,
    fun f' container host reached' there isContainer => ?_⟩
  · exact snapshot.exists_copyOf consistent.links there
  · have inside := (snapshot.members x).1 (List.mem_of_getElem? there)
    have goes : placeFrom 0 order x = some ⟨k⟩ :=
      (placeFrom_zero_eq_some_iff distinct).2 there
    refine consistent.links.alike consistent'.links goes (fun z below => ?_) inside.found
    exact snapshot.exists_resembling consistent consistent'
      ((snapshot.members z).2 (below.trans inside))
  · exact snapshot.exists_graft consistent consistent' root shown reached'.consistent there isContainer

theorem Reachable.extract_stands_alone_of_panels : ∃ f f' g grafted others, Reachable f ∧ Reachable f' ∧
    f.subtree ⟨1⟩ = .ok [⟨1⟩, ⟨2⟩] ∧ f.extract ⟨1⟩ = .ok g ∧ g.handles = firstPlaces 2 ∧
    f.Alike g ⟨2⟩ ⟨1⟩ ∧ f'.graft ⟨0⟩ g = .ok grafted ∧
    grafted.forest.subtree grafted.handle = .ok others ∧
    List.Forall₂ (fun x y => ∃ d e, f.get? x = some d ∧ grafted.forest.get? y = some e ∧
      e.paths = d.paths) [⟨1⟩, ⟨2⟩] others := by
  have reached := Reachable.empty.afterAll
    [.insert (.panel "") "a" rfl, .insert (.panel "") "b" rfl, .insert (.input "" false) "c" rfl,
      .setParent ⟨2⟩ ⟨1⟩, .setParent ⟨1⟩ ⟨0⟩, .setObserver ⟨0⟩ ⟨0⟩] (by simp [Call.others])
  have target := Reachable.empty.afterAll [.insert (.form "" none none) "%7%.d" rfl]
    (by simp [Call.others])
  obtain ⟨order, g, shown, run, listed, _, _, copies, grafts⟩ :=
    Reachable.extract_stands_alone (h := ⟨1⟩) reached rfl
  have order_eq : order = [⟨1⟩, ⟨2⟩] := (Except.ok.inj shown).symm
  subst order_eq
  obtain ⟨grafted, others, grafts, shows, keeps⟩ := grafts _ ⟨0⟩ _ target rfl rfl
  exact ⟨_, _, g, grafted, others, reached, target, shown, run, listed, (copies 1 _ rfl).2, grafts,
    shows, keeps⟩

end DataBinding.Forest
