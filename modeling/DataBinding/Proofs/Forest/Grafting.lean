import DataBinding.Proofs.Forest.Grafts
import DataBinding.Proofs.Forest.Mirrors
import DataBinding.Proofs.Forest.Paths

/-!
# What a graft leaves behind

A container takes in the first branch of another forest: its copies stand behind everything that was
there, the container lists the top of them as its last child, and they hear what the container hears.
Nothing else changes, and there is no reason to refuse.
-/

namespace DataBinding.Forest

/-- The copy of `d`, which stood at `x`, in a graft: the top is owned by the container, everyone else by
a copy. -/
def grafting (place : Handle → Option Handle) (container root x : Handle) (watch : Option ObserverId)
    (paths : List String) (d : Entry) : Entry :=
  { d.relocate place with
    parent := if x = root then some container else d.parent.bind place
    paths := paths
    observer := watch.or d.observer }

/-- `g` is `f` with copies of the given definitions of `other` behind, the top of them owned by a
container. -/
structure Bears (f other g : Forest) (container root : Handle) (order : List Handle)
    (watch : Option ObserverId) : Prop where
  subtree : other.subtree root = .ok order
  top : order[0]? = some root
  members : ∀ x, x ∈ order ↔ other.Within root x
  distinct : order.Nodup
  capacity : g.capacity = f.capacity + order.length
  host : ∃ d, f.get? container = some d ∧
    g.get? container = some { d with children := d.children ++ [⟨f.capacity⟩] }
  old : ∀ x, x.index < f.capacity → x ≠ container → g.get? x = f.get? x
  copies : ∀ {k x}, order[k]? = some x → ∃ d paths, other.get? x = some d ∧
    g.get? ⟨f.capacity + k⟩ =
      some (grafting (placeFrom f.capacity order) container root x watch paths d)

section Graft

variable {f other copy g : Forest} {container root : Handle} {order : List Handle} {host : Entry}

/-- Nobody who was there before is below a new place when all of them keep their owners. -/
theorem WellFormed.not_within_new (wf : f.WellFormed)
    (kept : ∀ x d, f.get? x = some d → ∃ e, g.get? x = some e ∧ e.parent = d.parent) {x y : Handle}
    {d : Entry} (found : f.get? x = some d) (new : f.capacity ≤ y.index) : ¬ g.Within y x := by
  rintro ⟨hs, climb, met⟩
  obtain ⟨others, old⟩ := wf.climbs found
  have again : g.Climb x others := old.carry fun z _ e there => kept z e there
  rw [climb.unique again] at met
  obtain ⟨e, there⟩ := old.found_of_mem met
  have inside := index_lt_of_get? there
  omega

theorem Copied.not_within_linked (copied : f.Copied other copy order) (wf : f.WellFormed) {c : Entry}
    (topFound : copy.get? ⟨f.capacity⟩ = some c) (found : f.get? container = some host) (x : Handle)
    (old : x.index < f.capacity) :
    ¬ (copy.linkChild ⟨f.capacity⟩ container c host).Within ⟨f.capacity⟩ x := by
  have lookup := get?_linkChild topFound (copied.get?_of_old found)
  have kept : ∀ y d, f.get? y = some d →
      ∃ e, (copy.linkChild ⟨f.capacity⟩ container c host).get? y = some e ∧ e.parent = d.parent := by
    intro y d there
    rw [lookup]
    by_cases isHost : y = container
    · rw [isHost, found] at there
      cases there
      exact ⟨_, if_pos isHost, rfl⟩
    · rw [if_neg isHost, if_neg (ne_new_of_lt (index_lt_of_get? there))]
      exact ⟨d, copied.get?_of_old there, rfl⟩
  intro within
  cases there : f.get? x with
  | some d => exact wf.not_within_new kept there (Nat.le_refl _) within
  | none =>
    obtain ⟨e, now⟩ := within.found
    rw [lookup, if_neg, if_neg (ne_new_of_lt old), copied.old x old, there] at now
    · cases now
    · rintro rfl
      rw [found] at there
      cases there

theorem Copied.get?_linked (copied : f.Copied other copy order) (top : order[0]? = some root)
    (distinct : order.Nodup) {c : Entry} (rootFound : other.get? root = some c)
    (found : f.get? container = some host) {k : Nat} {x : Handle} (there : order[k]? = some x) :
    ∃ d, other.get? x = some d ∧
      (copy.linkChild ⟨f.capacity⟩ container (c.relocate (placeFrom f.capacity order)) host).get?
        ⟨f.capacity + k⟩ = some { d.relocate (placeFrom f.capacity order) with
          parent :=
            if x = root then some container else d.parent.bind (placeFrom f.capacity order) } := by
  obtain ⟨d, was, now⟩ := copied.new there
  have topFound : copy.get? ⟨f.capacity⟩ = some (c.relocate (placeFrom f.capacity order)) :=
    copied.get?_of_placeFrom distinct ((placeFrom_eq_some_iff distinct).2 ⟨0, top, rfl⟩) rootFound
  have notHost : (⟨f.capacity + k⟩ : Handle) ≠ container := by
    rintro rfl
    have inside := index_lt_of_get? found
    simp only at inside
    omega
  have first : (⟨f.capacity + k⟩ : Handle) = ⟨f.capacity⟩ ↔ x = root := by
    obtain ⟨inside, rfl⟩ := List.getElem?_eq_some_iff.1 there
    obtain ⟨inside', rfl⟩ := List.getElem?_eq_some_iff.1 top
    rw [distinct.getElem_inj_iff, Handle.mk.injEq]
    omega
  refine ⟨d, was, ?_⟩
  rw [get?_linkChild topFound (copied.get?_of_old found), if_neg notHost]
  simp only [first, now]
  split
  case isTrue same =>
    rw [same, rootFound] at was
    cases was
    rfl
  case isFalse => rfl

/-- The copies of a branch without an owner can be handed to any container. -/
theorem Copied.exists_setParent (copied : f.Copied other copy order) (wf : f.WellFormed)
    (copyWf : copy.WellFormed) (top : order[0]? = some root) (distinct : order.Nodup)
    (subtree : other.subtree root = .ok order) (members : ∀ x, x ∈ order ↔ other.Within root x)
    {c : Entry} (rootFound : other.get? root = some c) (free : c.parent = none)
    (found : f.get? container = some host) (isContainer : host.isContainer = true) :
    ∃ g, copy.setParent ⟨f.capacity⟩ container = .ok g ∧
      f.Bears other g container root order none := by
  have hostFound := copied.get?_of_old found
  have topFound : copy.get? ⟨f.capacity⟩ = some (c.relocate (placeFrom f.capacity order)) :=
    copied.get?_of_placeFrom distinct ((placeFrom_eq_some_iff distinct).2 ⟨0, top, rfl⟩) rootFound
  have topFree : (c.relocate (placeFrom f.capacity order)).parent = none := by
    rw [Definition.relocate, free, Option.bind_none]
  have apart : ¬ copy.Within ⟨f.capacity⟩ container :=
    wf.not_within_new (fun x d there => ⟨d, copied.get?_of_old there, rfl⟩) found (Nat.le_refl _)
  obtain ⟨g, run, rescoped⟩ :=
    copyWf.exists_setParent topFound hostFound topFree isContainer apart
  have lookup := get?_linkChild topFound hostFound
  have outside := copied.not_within_linked wf topFound found
  refine ⟨g, run, subtree, top, members, distinct, ?_, ⟨host, found, ?_⟩, fun x old differs => ?_,
    fun {k x} there => ?_⟩
  · rw [rescoped.capacity, capacity_linkChild, copied.capacity]
  · rw [rescoped.outside container (outside container (index_lt_of_get? found)), lookup, if_pos rfl]
  · rw [rescoped.outside x (outside x old), lookup, if_neg differs, if_neg (ne_new_of_lt old),
      copied.old x old]
  · obtain ⟨d, was, now⟩ := copied.get?_linked top distinct rootFound found there
    obtain ⟨paths, after⟩ := rescoped.inside now
    exact ⟨d, paths, was, after⟩

variable {watch : Option ObserverId}

theorem Bears.mirrored (bears : f.Bears other g container root order watch) :
    other.Mirrored g (placeFrom f.capacity order) order := by
  intro x inside
  obtain ⟨k, there⟩ := List.getElem?_of_mem inside
  obtain ⟨d, paths, found, now⟩ := bears.copies there
  have goes : placeFrom f.capacity order x = some ⟨f.capacity + k⟩ :=
    (placeFrom_eq_some_iff bears.distinct).2 ⟨k, there, rfl⟩
  exact ⟨d, _, _, found, goes, now, Definition.belongings_relocate _ d⟩

theorem Bears.subtree_top (bears : f.Bears other g container root order watch) (wf : g.WellFormed) :
    g.subtree ⟨f.capacity⟩ =
      .ok ((List.range order.length).map fun k => ⟨f.capacity + k⟩) := by
  have goes : placeFrom f.capacity order root = some ⟨f.capacity⟩ :=
    (placeFrom_eq_some_iff bears.distinct).2 ⟨0, bears.top, rfl⟩
  obtain ⟨shown, run, same⟩ := wf.exists_subtree_mirror bears.subtree bears.mirrored goes
  rw [run]
  refine congrArg Except.ok (List.map_injective_iff.2 (fun _ _ => Option.some.inj) ?_)
  rw [same]
  apply List.ext_getElem (by simp)
  intro k left right
  rw [List.length_map] at left
  simp only [List.getElem_map, List.getElem_range]
  exact (placeFrom_eq_some_iff bears.distinct).2 ⟨k, List.getElem?_eq_getElem left, rfl⟩

theorem Bears.watched (bears : f.Bears other g container root order none) {shown : List Handle}
    {k : Forest} {observer : ObserverId} (shows : g.subtree ⟨f.capacity⟩ = .ok shown)
    (wf : g.WellFormed) (capacity : k.capacity = g.capacity)
    (now : ∀ x, k.get? x =
      (g.get? x).map fun d => if x ∈ shown then { d with observer := some observer } else d) :
    f.Bears other k container root order (some observer) := by
  rw [bears.subtree_top wf] at shows
  cases shows
  have notOld : ∀ x : Handle, x.index < f.capacity →
      x ∉ (List.range order.length).map fun k => (⟨f.capacity + k⟩ : Handle) := by
    intro x inside among
    obtain ⟨k, _, rfl⟩ := List.mem_map.1 among
    simp only at inside
    omega
  refine ⟨bears.subtree, bears.top, bears.members, bears.distinct, capacity.trans bears.capacity, ?_,
    fun x inside differs => ?_, fun {k x} there => ?_⟩
  · obtain ⟨d, found, host⟩ := bears.host
    exact ⟨d, found, by rw [now, host, Option.map_some, if_neg (notOld _ (index_lt_of_get? found))]⟩
  · rw [now, bears.old x inside differs]
    simp only [notOld x inside, if_false, Option.map_id']
  · obtain ⟨d, paths, found, copy⟩ := bears.copies there
    have among : (⟨f.capacity + k⟩ : Handle) ∈
        (List.range order.length).map fun k => (⟨f.capacity + k⟩ : Handle) :=
      List.mem_map_of_mem (List.mem_range.2 (List.getElem?_eq_some_iff.1 there).1)
    exact ⟨d, paths, found, by rw [now, copy, Option.map_some, if_pos among]; rfl⟩

/-- Grafting into a container succeeds when there is something to graft, and the copies hear what the
container hears, which is told once. -/
theorem Consistent.exists_graft (consistent : f.Consistent) (otherConsistent : other.Consistent)
    (found : f.get? container = some host) (isContainer : host.isContainer = true)
    (first : other.root? = some root) : ∃ order grafted, f.graft container other = .ok grafted ∧
      grafted.handle = ⟨f.capacity⟩ ∧
      f.Bears other grafted.forest container root order host.observer ∧
      grafted.notices =
        host.observer.toList.map fun observer => .observing observer grafted.forest ⟨f.capacity⟩ := by
  obtain ⟨c, rootFound, free⟩ := free_of_root? first
  obtain ⟨order, copy, subtree, copies, copied, top, members, sorted⟩ :=
    exists_copyBranch (f := f) otherConsistent.links rootFound
  have copyConsistent := consistent.copyBranch otherConsistent rootFound free copies
  obtain ⟨placed, settles, bears⟩ := copied.exists_setParent consistent.links copyConsistent.links top
    sorted.nodup subtree members rootFound free found isContainer
  have placedWf := (copyConsistent.setParent settles).links
  obtain ⟨host', again, hostNow⟩ := bears.host
  rw [found] at again
  cases again
  refine ⟨order, ?_⟩
  simp only [Forest.graft, check_of_found found, find_eq_ok_iff.2 found, isContainer, first, copies,
    settles, find_eq_ok_iff.2 hostNow, Outcome.monadLift_eq, Outcome.lift_ok, Outcome.ok_bind,
    Bool.not_true, Bool.false_eq_true, if_false]
  cases host.observer with
  | none => exact ⟨_, rfl, rfl, bears, rfl⟩
  | some observer =>
    obtain ⟨d, paths, _, topNow⟩ := bears.copies top
    obtain ⟨shown, g, shows, hands, capacity, now⟩ := placedWf.exists_setObserver topNow observer
    simp only [Nat.add_zero] at shows hands
    simp only [hands, Outcome.lift_ok, Outcome.ok_bind]
    exact ⟨_, rfl, rfl, bears.watched shows placedWf capacity now, rfl⟩

theorem Bears.cases_owner (bears : f.Bears other g container root order watch) {k : Nat} {x : Handle}
    {d : Entry} (there : order[k]? = some x) (found : other.get? x = some d) :
    x = root ∨ x ≠ root ∧ ∃ owner j, d.parent = some owner ∧ order[j]? = some owner ∧
      placeFrom f.capacity order owner = some ⟨f.capacity + j⟩ := by
  by_cases top : x = root
  · exact .inl top
  · have within := (bears.members x).1 (List.mem_of_getElem? there)
    rcases within.cases_owner found with same | ⟨owner, named, above⟩
    · exact absurd same top
    · obtain ⟨j, listed⟩ := List.getElem?_of_mem ((bears.members owner).2 above)
      exact .inr ⟨top, owner, j, named, listed,
        (placeFrom_eq_some_iff bears.distinct).2 ⟨j, listed, rfl⟩⟩

/-- When the top reads the same paths under whatever it is scoped, so do all copies. -/
theorem Bears.paths_eq (bears : f.Bears other g container root order watch) (paths : g.Scoped)
    (otherConsistent : other.Consistent) {c : Entry} (rootFound : other.get? root = some c)
    (free : c.parent = none) (steady : ∀ above, Path.normalize c.dataPath above = c.paths)
    {k : Nat} {x : Handle} {d : Entry} (there : order[k]? = some x) (found : other.get? x = some d) :
    ∃ e, g.get? ⟨f.capacity + k⟩ = some e ∧ e.paths = d.paths := by
  obtain ⟨hs, climb⟩ := otherConsistent.links.climbs found
  induction climb generalizing k d with
  | @top x d' again unowned =>
    rw [found] at again
    cases again
    obtain ⟨d', kept, was, now⟩ := bears.copies there
    rw [found] at was
    cases was
    refine ⟨_, now, ?_⟩
    rw [paths.paths_eq now]
    -- the only one in the branch without an owner is its top
    rcases bears.cases_owner there found with rfl | ⟨_, o, _, named, _⟩
    · rw [rootFound] at found
      cases found
      exact steady _
    · rw [unowned] at named
      cases named
  | @up x owner d' above again owned rest ih =>
    rw [found] at again
    cases again
    obtain ⟨d', kept, was, now⟩ := bears.copies there
    rw [found] at was
    cases was
    refine ⟨_, now, ?_⟩
    rw [paths.paths_eq now, otherConsistent.paths.paths_eq found]
    rcases bears.cases_owner there found with rfl | ⟨notRoot, o, j, named, listed, goes⟩
    · rw [rootFound] at found
      cases found
      rw [free] at owned
      cases owned
    · rw [owned] at named
      cases named
      obtain ⟨o, ownerFound⟩ := rest.found
      obtain ⟨o', ownerNow, same⟩ := ih listed ownerFound
      simp only [grafting, if_neg notRoot, owned, Option.bind_some, goes, ownerNow, ownerFound,
        Definition.scope, same]
      rfl

end Graft

end DataBinding.Forest
