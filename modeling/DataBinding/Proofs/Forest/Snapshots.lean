import DataBinding.Proofs.Forest.Copies
import DataBinding.Proofs.Forest.Frames

/-!
# Copies of branches and snapshots

Copying a branch that has no owner keeps forests consistent. The top of a snapshot loses its owner
and with it the path it was scoped under; its anchored paths, written as its data path, stand in for
both.
-/

namespace DataBinding.Forest

section Copying

variable {f source g : Forest} {h top : Handle} {d : Entry}

/-- A branch can be copied out of any well-formed forest. -/
theorem exists_copyBranch (sourceWf : source.WellFormed) (found : source.get? h = some d) :
    ∃ order g, source.subtree h = .ok order ∧ f.copyBranch source h = .ok (⟨f.capacity⟩, g) ∧
      f.Copied source g order ∧ order[0]? = some h ∧ (∀ x, x ∈ order ↔ source.Within h x) ∧
      source.OwnersFirst order := by
  obtain ⟨b, read, reads, _, handle⟩ := sourceWf.exists_branch found
  have members : ∀ x, x ∈ b.handles ↔ source.Within h x := fun x => by
    rw [reads.mem_handles_iff sourceWf, handle]
  have subtree : source.subtree h = .ok b.handles := by
    rw [Forest.subtree, read]
    rfl
  obtain ⟨g, run, copied⟩ := exists_addCopies f source b.handles fun x inside =>
    ((members x).1 inside).found
  refine ⟨b.handles, g, subtree, ?_, copied, ?_, members, reads.ownersFirst sourceWf⟩
  · simp only [copyBranch, subtree, Outcome.ok_bind, run]
    rfl
  · obtain ⟨role, h, d, owned⟩ := b
    rw [Branch.handles_mk]
    exact congrArg some handle

theorem Consistent.copyBranch (consistent : f.Consistent) (sourceConsistent : source.Consistent)
    (found : source.get? h = some d) (free : d.parent = none)
    (run : f.copyBranch source h = .ok (top, g)) : g.Consistent := by
  obtain ⟨order, k, _, again, copied, _, members, sorted⟩ :=
    exists_copyBranch (f := f) sourceConsistent.links found
  rw [run] at again
  cases again
  refine ⟨copied.wellFormed sorted.nodup consistent.links sourceConsistent.links, fun y => ?_⟩
  refine copied.scopedAt sorted.nodup consistent.paths sourceConsistent.paths ?_
  intro x e owner placed there owned
  obtain ⟨k, inside, _⟩ := (placeFrom_eq_some_iff sorted.nodup).1 placed
  have within := (members x).1 (List.mem_of_getElem? inside)
  rcases within.cases_owner there with rfl | ⟨o, named, above⟩
  · rw [found] at there
    cases there
    rw [free] at owned
    cases owned
  · rw [owned] at named
    cases named
    exact (members owner).2 above

end Copying

/-! ### Snapshots -/

theorem get?_bare (f : Forest) (h : Handle) :
    f.bare.get? h = (f.get? h).map fun d => { d with observer := none, bundle := none } := by
  rw [get?, get?, bare, Array.getElem?_map]
  cases f.places[h.index]? <;> rfl

theorem sameFrames_bare (f : Forest) : f.SameFrames f.bare := by
  intro h
  rw [get?_bare, Option.map_map]
  rfl

section Snapshot

variable {f g : Forest} {h : Handle} {d : Entry} {order : List Handle}

theorem capacity_empty : empty.capacity = 0 :=
  rfl

def pictured (order : List Handle) (d : Entry) : Entry :=
  { d.relocate (placeFrom 0 order) with observer := none, bundle := none }

structure Snapshot (f g : Forest) (h : Handle) (order : List Handle) : Prop where
  subtree : f.subtree h = .ok order
  top : order[0]? = some h
  members : ∀ x, x ∈ order ↔ f.Within h x
  sorted : f.OwnersFirst order
  capacity : g.capacity = order.length
  places : ∀ {k x}, order[k]? = some x → ∃ d, f.get? x = some d ∧
    g.get? ⟨k⟩ = some (if x = h then anchored (pictured order d) else pictured order d)

theorem WellFormed.exists_extract (wf : f.WellFormed) (found : f.get? h = some d) :
    ∃ order g copy, f.extract h = .ok g ∧ f.Snapshot g h order ∧ empty.Copied f copy order ∧
      ∀ x, g.get? x = (copy.bare.get? x).map fun d => if x = ⟨0⟩ then anchored d else d := by
  obtain ⟨order, copy, subtree, run, copied, top, members, sorted⟩ :=
    exists_copyBranch (f := empty) wf found
  have places : ∀ {k x}, order[k]? = some x → ∃ d, f.get? x = some d ∧
      copy.get? ⟨k⟩ = some (d.relocate (placeFrom 0 order)) := by
    intro k x there
    have new := copied.new there
    rwa [capacity_empty, Nat.zero_add] at new
  obtain ⟨d', again, topNow⟩ := places top
  rw [found] at again
  cases again
  have bare : copy.bare.get? ⟨0⟩ = some (pictured order d) := by
    rw [get?_bare, topNow]
    rfl
  have change : copy.bare.modify ⟨0⟩ anchored =
      .ok (copy.bare.put ⟨0⟩ (some (anchored (pictured order d)))) :=
    modify_eq_ok_iff.2 ⟨_, bare, rfl⟩
  have now : ∀ x, (copy.bare.put ⟨0⟩ (some (anchored (pictured order d)))).get? x =
      (copy.bare.get? x).map fun d => if x = ⟨0⟩ then anchored d else d := by
    intro x
    rw [get?_put_of_found bare]
    split
    case isTrue same => simp [same, bare]
    case isFalse => simp
  refine ⟨order, _, copy, ?_, ⟨subtree, top, members, sorted, ?_, ?_⟩, copied, now⟩
  · rw [extract, run]
    exact change
  · simp only [capacity, put, Array.size_setIfInBounds, Forest.bare, Array.size_map]
    rw [← capacity, copied.capacity, capacity_empty, Nat.zero_add]
  · intro k x there
    obtain ⟨e, found, new⟩ := places there
    refine ⟨e, found, ?_⟩
    have first : (⟨k⟩ : Handle) = ⟨0⟩ ↔ x = h := by
      constructor
      · rintro same
        cases same
        rw [top] at there
        exact (Option.some.inj there).symm
      · rintro rfl
        obtain ⟨inside, there⟩ := List.getElem?_eq_some_iff.1 there
        obtain ⟨inside', top⟩ := List.getElem?_eq_some_iff.1 top
        exact congrArg Handle.mk (sorted.nodup.getElem_inj_iff.1 (there.trans top.symm))
    rw [now, get?_bare, new, Option.map_some, Option.map_some]
    simp only [first]
    rfl

theorem links_anchored (d : Entry) : (anchored d).links = d.links := by
  unfold anchored
  split <;> rfl

theorem paths_anchored (d : Entry) : (anchored d).paths = d.paths := by
  unfold anchored
  split <;> rfl

theorem dataPath_anchored (d : Entry) : (anchored d).dataPath =
    if d.hasDataPath then String.intercalate "," d.paths else d.dataPath := by
  unfold anchored
  split <;> rfl

/-- Anchored paths written as a data path give themselves, whatever they are scoped under. -/
theorem Consistent.normalize_anchored (consistent : f.Consistent) (found : f.get? h = some d)
    (above : Option String) : d.paths = Path.normalize (anchored d).dataPath above := by
  rw [dataPath_anchored]
  split
  case isTrue present =>
    rw [Path.normalize_intercalate _ (consistent.settled found)]
    obtain ⟨scope, _, paths⟩ := consistent.paths h d found
    rw [paths]
    exact Path.normalize_ne_nil (by simpa [Definition.hasDataPath] using present)
  case isFalse absent =>
    have blank : Text.allBlank d.dataPath = true := by
      simpa [Definition.hasDataPath] using absent
    obtain ⟨scope, _, paths⟩ := consistent.paths h d found
    rw [paths, Path.normalize_of_allBlank blank, Path.normalize_of_allBlank blank]

theorem exists_of_copyBranch {source : Forest} {top : Handle}
    (run : f.copyBranch source h = .ok (top, g)) : ∃ d, source.get? h = some d := by
  obtain ⟨order, subtree, _⟩ := Outcome.bind_eq_ok_iff.1 run
  exact exists_of_subtree subtree

theorem Snapshot.exists_of_get? (snapshot : f.Snapshot g h order) {y : Handle} {e : Entry}
    (now : g.get? y = some e) : ∃ x d, placeFrom 0 order x = some y ∧ f.get? x = some d ∧
      e = if x = h then anchored (pictured order d) else pictured order d := by
  have inside := index_lt_of_get? now
  rw [snapshot.capacity] at inside
  have there := List.getElem?_eq_getElem inside
  obtain ⟨d, found, picture⟩ := snapshot.places there
  rw [now] at picture
  exact ⟨_, d, (placeFrom_zero_eq_some_iff snapshot.sorted.nodup).2 there, found,
    Option.some.inj picture⟩

theorem Snapshot.get?_of_placeFrom (snapshot : f.Snapshot g h order) {x y : Handle} {d : Entry}
    (placed : placeFrom 0 order x = some y) (found : f.get? x = some d) :
    g.get? y = some (if x = h then anchored (pictured order d)
      else pictured order d) := by
  have there := (placeFrom_zero_eq_some_iff snapshot.sorted.nodup).1 placed
  obtain ⟨d', again, picture⟩ := snapshot.places there
  rw [found] at again
  cases again
  exact picture

/-- The owner of the top is left behind; everyone else's owner is in the picture. -/
theorem Snapshot.placeFrom_owner (snapshot : f.Snapshot g h order) {x owner : Handle} {d : Entry}
    (inside : x ∈ order) (found : f.get? x = some d) (owned : d.parent = some owner) :
    placeFrom 0 order owner = none ↔ x = h := by
  constructor
  · intro missing
    have within := (snapshot.members x).1 inside
    rcases within.cases_owner found with same | ⟨o, named, above⟩
    · exact same
    · rw [owned] at named
      cases named
      obtain ⟨p, placed⟩ := exists_placeFrom 0 snapshot.sorted.nodup
        ((snapshot.members owner).2 above)
      rw [missing] at placed
      cases placed
  · rintro rfl
    cases placed : placeFrom 0 order owner with
    | none => rfl
    | some p =>
      obtain ⟨k, there, _⟩ := (placeFrom_eq_some_iff snapshot.sorted.nodup).1 placed
      have above := (snapshot.members owner).1 (List.mem_of_getElem? there)
      exact absurd above (Within.not_owner found owned)

theorem Snapshot.parent_top (snapshot : f.Snapshot g h order) (found : f.get? h = some d) :
    (anchored (pictured order d)).parent = none := by
  show (anchored (pictured order d)).links.parent = none
  rw [links_anchored]
  show d.parent.bind (placeFrom 0 order) = none
  cases owned : d.parent with
  | none => rfl
  | some owner =>
    exact (snapshot.placeFrom_owner (List.mem_of_getElem? snapshot.top) found owned).2 rfl

theorem Snapshot.scopeAbove_below (snapshot : f.Snapshot g h order) {x : Handle} {d : Entry}
    (inside : x ∈ order) (found : f.get? x = some d) (below : x ≠ h) {above : Option String}
    (under : f.scopeAbove d = .ok above) : g.scopeAbove (pictured order d) = .ok above := by
  have parent : (pictured order d).parent = d.parent.bind (placeFrom 0 order) := rfl
  cases owned : d.parent with
  | none =>
    rw [scopeAbove_of_free owned] at under
    rw [owned, Option.bind_none] at parent
    rw [scopeAbove_of_free parent, under]
  | some owner =>
    obtain ⟨p, place⟩ : ∃ p, placeFrom 0 order owner = some p := by
      rw [← Option.ne_none_iff_exists']
      exact fun missing => below ((snapshot.placeFrom_owner inside found owned).1 missing)
    rw [owned, Option.bind_some, place] at parent
    rw [scopeAbove, owned] at under
    obtain ⟨o, ownerFound, rfl⟩ := Outcome.map_eq_ok_iff.1 under
    rw [find_eq_ok_iff] at ownerFound
    rw [scopeAbove_of_owner parent (snapshot.get?_of_placeFrom place ownerFound)]
    split
    case isTrue => rw [Definition.scope, paths_anchored]; rfl
    case isFalse => rfl

theorem Snapshot.scoped (snapshot : f.Snapshot g h order) (consistent : f.Consistent) : g.Scoped := by
  intro y e there
  obtain ⟨x, d, placed, found, rfl⟩ := snapshot.exists_of_get? there
  obtain ⟨k, listed, _⟩ := (placeFrom_eq_some_iff snapshot.sorted.nodup).1 placed
  by_cases isTop : x = h
  · rw [if_pos isTop]
    rw [isTop] at found
    refine ⟨none, scopeAbove_of_free (snapshot.parent_top found), ?_⟩
    rw [paths_anchored]
    have same : (anchored (pictured order d)).dataPath = (anchored d).dataPath := by
      rw [dataPath_anchored, dataPath_anchored]
      rfl
    rw [same]
    exact consistent.normalize_anchored found none
  · rw [if_neg isTop]
    obtain ⟨above, under, paths⟩ := consistent.paths x d found
    exact ⟨above, snapshot.scopeAbove_below (List.mem_of_getElem? listed) found isTop under, paths⟩

theorem Consistent.extract (consistent : f.Consistent) (run : f.extract h = .ok g) :
    g.Consistent := by
  obtain ⟨⟨top, copy⟩, copies, _⟩ := Outcome.bind_eq_ok_iff.1 run
  obtain ⟨d, found⟩ := exists_of_copyBranch copies
  obtain ⟨order, k, copy, again, snapshot, copied, now⟩ := consistent.links.exists_extract found
  rw [run] at again
  cases again
  have copyLinks := copied.wellFormed snapshot.sorted.nodup .empty consistent.links
  have sameLinks : copy.SameLinks g := by
    refine (sameFrames_bare copy).sameLinks.trans (map_of_changed now fun x d => ?_)
    split
    case isTrue => exact links_anchored d
    case isFalse => rfl
  exact ⟨copyLinks.congr sameLinks, snapshot.scoped consistent⟩

end Snapshot

end DataBinding.Forest
