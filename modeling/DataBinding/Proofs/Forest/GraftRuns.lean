import DataBinding.Proofs.Forest.Grafting

/-!
# Grafts one after the other

A run of grafts into one container is described step by step. From the steps follows what the run
leaves: the container lists the tops of the copies behind its children, the copies stand there as they
were taken, and nothing else has changed.
-/

namespace DataBinding.Forest

variable {f g k other : Forest} {container root top h : Handle} {order hs : List Handle}
  {watch : Option ObserverId} {d : Entry}

theorem WellFormed.subtree_congr (wf : k.WellFormed) (shown : g.subtree h = .ok order)
    (same : ∀ x ∈ order, k.get? x = g.get? x) : k.subtree h = .ok order := by
  obtain ⟨b, read, rfl⟩ := Outcome.map_eq_ok_iff.1 shown
  obtain ⟨reads, role, rfl⟩ := reads_of_branchWithin read
  have again := reads.congr same
  obtain ⟨c, read', reads', role', handle⟩ := wf.exists_branch again.get?_handle
  rw [subtree, read', again.unique reads' (role.trans role'.symm) handle.symm]
  rfl

def placesFrom (start count : Nat) : List Handle :=
  (List.range count).map fun k => ⟨start + k⟩

theorem mem_placesFrom {start count : Nat} {x : Handle} :
    x ∈ placesFrom start count ↔ start ≤ x.index ∧ x.index < start + count := by
  simp only [placesFrom, List.mem_map, List.mem_range]
  constructor
  · rintro ⟨k, inside, rfl⟩
    exact ⟨Nat.le_add_right start k, Nat.add_lt_add_left inside start⟩
  · rintro ⟨lower, upper⟩
    exact ⟨x.index - start, by omega, by cases x; simp only [Handle.mk.injEq] at lower ⊢; omega⟩

/-- A copy of the first branch of another forest stands in the places from `top` on, in the order of that
branch. A container owns its top. -/
structure StandsIn (other g : Forest) (container top : Handle) (watch : Option ObserverId) (root : Handle)
    (order : List Handle) : Prop where
  first : other.root? = some root
  subtree : other.subtree root = .ok order
  distinct : order.Nodup
  shown : g.subtree top = .ok (placesFrom top.index order.length)
  copies : ∀ {k x}, order[k]? = some x → ∃ d paths, other.get? x = some d ∧
    g.get? ⟨top.index + k⟩ =
      some (grafting (placeFrom top.index order) container root x watch paths d)

theorem Bears.stands (bears : f.Bears other g container root order watch) (wf : g.WellFormed)
    (first : other.root? = some root) : other.StandsIn g container ⟨f.capacity⟩ watch root order where
  first := first
  subtree := bears.subtree
  distinct := bears.distinct
  shown := bears.subtree_top wf
  copies := bears.copies

theorem StandsIn.carry (stands : other.StandsIn g container top watch root order) (wf : k.WellFormed)
    (same : ∀ x ∈ placesFrom top.index order.length, k.get? x = g.get? x) :
    other.StandsIn k container top watch root order where
  first := stands.first
  subtree := stands.subtree
  distinct := stands.distinct
  shown := wf.subtree_congr stands.shown same
  copies {n x} there := by
    obtain ⟨d, paths, found, now⟩ := stands.copies there
    refine ⟨d, paths, found, ?_⟩
    rw [same _ (mem_placesFrom.2 ⟨Nat.le_add_right _ _, ?_⟩), now]
    exact Nat.add_lt_add_left (List.getElem?_eq_some_iff.1 there).1 _

/-- Forests are grafted into a container one after the other, and its observer is told each time. -/
inductive Grafts (container : Handle) (watch : Option ObserverId) :
    Forest → List Forest → Forest → List Handle → List Notice → Prop
  | nil (f : Forest) : Grafts container watch f [] f [] []
  | cons {f other k g : Forest} {others : List Forest} {root : Handle} {order hs : List Handle}
    {notices : List Notice} (first : other.root? = some root)
    (bears : f.Bears other k container root order watch) (consistent : k.Consistent)
    (rest : Grafts container watch k others g hs notices) :
    Grafts container watch f (other :: others) g (⟨f.capacity⟩ :: hs)
      (watch.toList.map (fun o => .observing o k ⟨f.capacity⟩) ++ notices)

theorem graft_of_rootless (found : f.get? container = some d) (isContainer : d.isContainer = true)
    (rootless : other.root? = none) : f.graft container other = .error .nothingToGraft := by
  simp only [graft, check_of_found found, find_eq_ok_iff.2 found, isContainer, rootless,
    Outcome.monadLift_eq, Outcome.lift_ok, Outcome.ok_bind]
  rfl

theorem Consistent.bears_of_graft {grafted : Grafted} (consistent : f.Consistent)
    (otherConsistent : other.Consistent) (run : f.graft container other = .ok grafted) : ∃ host root order,
      f.get? container = some host ∧ other.root? = some root ∧ grafted.handle = ⟨f.capacity⟩ ∧
      f.Bears other grafted.forest container root order host.observer ∧
      grafted.notices =
        host.observer.toList.map fun observer => .observing observer grafted.forest ⟨f.capacity⟩ := by
  obtain ⟨host, root, found, isContainer, first⟩ : ∃ host root, f.get? container = some host ∧
      host.isContainer = true ∧ other.root? = some root := by
    cases found : f.get? container with
    | none => simp [Forest.graft, check, contains, found, bind, Except.bind] at run
    | some host =>
      simp only [Forest.graft, check_of_found found, find_eq_ok_iff.2 found, Outcome.monadLift_eq,
        Outcome.lift_ok, Outcome.ok_bind] at run
      cases isContainer : host.isContainer with
      | false =>
        rw [isContainer] at run
        cases run
      | true =>
        cases first : other.root? with
        | none =>
          rw [isContainer, first] at run
          cases run
        | some root => exact ⟨host, root, rfl, isContainer, rfl⟩
  obtain ⟨order, again, ran, top, bears, told⟩ :=
    consistent.exists_graft otherConsistent found isContainer first
  rw [run] at ran
  cases ran
  exact ⟨host, root, order, found, first, top, bears, told⟩

/-- All forests are grafted, or those before the first one that has nothing to graft. -/
theorem Consistent.exists_grafts {others : List Forest} (consistent : f.Consistent)
    (othersConsistent : ∀ other ∈ others, other.Consistent) (found : f.get? container = some d)
    (isContainer : d.isContainer = true) : ∃ before rest g hs notices, others = before ++ rest ∧
      Grafts container d.observer f before g hs notices ∧
      (rest = [] ∧ f.graftAll container others = ⟨g, notices, .ok hs⟩ ∨
        (∃ other after, rest = other :: after ∧ other.root? = none) ∧
          f.graftAll container others = ⟨g, notices, .error .nothingToGraft⟩) := by
  induction others generalizing f d with
  | nil => exact ⟨[], [], f, [], [], rfl, .nil f, .inl ⟨rfl, rfl⟩⟩
  | cons other later ih =>
    rw [List.forall_mem_cons] at othersConsistent
    cases first : other.root? with
    | none =>
      refine ⟨[], other :: later, f, [], [], rfl, .nil f, .inr ⟨⟨other, later, rfl, first⟩, ?_⟩⟩
      rw [Forest.graftAll, graft_of_rootless found isContainer first]
    | some root =>
      obtain ⟨order, grafted, run, top, bears, told⟩ :=
        consistent.exists_graft othersConsistent.1 found isContainer first
      obtain ⟨d', again, hostNow⟩ := bears.host
      rw [found] at again
      cases again
      have settled := consistent.graft othersConsistent.1 run
      obtain ⟨before, rest, g, hs, notices, rfl, grafts, outcome⟩ :=
        ih settled othersConsistent.2 hostNow isContainer
      refine ⟨other :: before, rest, g, _, _, rfl, .cons first bears settled grafts, ?_⟩
      rw [Forest.graftAll, run]
      rcases outcome with ⟨all, later⟩ | ⟨stops, later⟩
      · exact .inl ⟨all, by simp only [later, top, told]; rfl⟩
      · exact .inr ⟨stops, by simp only [later, top, told]; rfl⟩

namespace Grafts

variable {others : List Forest} {notices : List Notice}

theorem consistent (grafts : Grafts container watch f others g hs notices)
    (consistent : f.Consistent) : g.Consistent := by
  induction grafts with
  | nil f => exact consistent
  | cons first bears settled rest ih => exact ih settled

theorem old (grafts : Grafts container watch f others g hs notices) {x : Handle}
    (inside : x.index < f.capacity) (notHost : x ≠ container) : g.get? x = f.get? x := by
  induction grafts with
  | nil f => rfl
  | cons first bears consistent rest ih =>
    rw [ih (by rw [bears.capacity]; omega), bears.old x inside notHost]

theorem host (grafts : Grafts container watch f others g hs notices)
    (found : f.get? container = some d) :
    g.get? container = some { d with children := d.children ++ hs } := by
  induction grafts generalizing d with
  | nil f => rw [found, List.append_nil]
  | cons first bears consistent rest ih =>
    obtain ⟨d', again, hostNow⟩ := bears.host
    rw [found] at again
    cases again
    rw [ih hostNow, List.append_assoc]
    rfl

theorem length_eq (grafts : Grafts container watch f others g hs notices) :
    hs.length = others.length := by
  induction grafts with
  | nil f => rfl
  | cons first bears settled rest ih => rw [List.length_cons, List.length_cons, ih]

theorem stands_first {others : List Forest} {notices : List Notice} (first : other.root? = some root)
    (bears : f.Bears other k container root order watch) (settled : k.Consistent)
    (rest : Grafts container watch k others g hs notices) (placed : container.index < f.capacity) :
    other.StandsIn g container ⟨f.capacity⟩ watch root order := by
  refine (bears.stands settled.links first).carry (rest.consistent settled).links fun x among => ?_
  obtain ⟨lower, upper⟩ := mem_placesFrom.1 among
  refine rest.old (by rw [bears.capacity]; exact upper) ?_
  rintro rfl
  exact absurd placed (Nat.not_lt.2 lower)

theorem stands (grafts : Grafts container watch f others g hs notices)
    (placed : container.index < f.capacity) :
    List.Forall₂ (fun other top => ∃ root order, other.StandsIn g container top watch root order)
      others hs := by
  induction grafts with
  | nil f => exact .nil
  | cons first bears settled rest ih =>
    exact .cons ⟨_, _, stands_first first bears settled rest placed⟩ (ih (by rw [bears.capacity]; omega))

theorem new (grafts : Grafts container watch f others g hs notices)
    (placed : container.index < f.capacity) {x : Handle} (lower : f.capacity ≤ x.index)
    (upper : x.index < g.capacity) : ∃ top ∈ hs, ∃ order, g.subtree top = .ok order ∧ x ∈ order := by
  induction grafts with
  | nil f => exact absurd upper (Nat.not_lt.2 lower)
  | @cons f other k g others root order hs notices first bears settled rest ih =>
    by_cases early : x.index < f.capacity + order.length
    · exact ⟨_, List.mem_cons_self, _, (stands_first first bears settled rest placed).shown,
        mem_placesFrom.2 ⟨lower, early⟩⟩
    · obtain ⟨top, among, shown⟩ :=
        ih (by rw [bears.capacity]; omega) (by rw [bears.capacity]; omega) upper
      exact ⟨top, List.mem_cons_of_mem _ among, shown⟩

/-- The observer of the container is told of each copy once, when the copy stands as it does at the end. -/
theorem told {o : ObserverId} (grafts : Grafts container (some o) f others g hs notices)
    (placed : container.index < f.capacity) :
    List.Forall₂ (fun top notice => ∃ (other k : Forest) (root : Handle) (order : List Handle),
      notice = .observing o k top ∧ other.StandsIn k container top (some o) root order ∧
      other.StandsIn g container top (some o) root order) hs notices := by
  generalize held : some o = watch at grafts
  induction grafts with
  | nil f => exact .nil
  | cons first bears settled rest ih =>
    cases held
    exact .cons ⟨_, _, _, _, rfl, bears.stands settled.links first,
      stands_first first bears settled rest placed⟩ (ih (by rw [bears.capacity]; omega))

theorem untold (grafts : Grafts container none f others g hs notices) : notices = [] := by
  generalize held : none = watch at grafts
  induction grafts with
  | nil f => rfl
  | cons first bears settled rest ih =>
    cases held
    exact ih

end Grafts

end DataBinding.Forest
