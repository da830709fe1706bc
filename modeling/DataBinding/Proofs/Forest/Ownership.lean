import DataBinding.Proofs.Forest.Scoping

/-!
# Changes of ownership

What giving a definition an owner, giving it a role, setting its data path and removing it do to the
links and paths of a forest. Each of them, when it succeeds, keeps a forest consistent: well formed
and scoped.
-/

namespace DataBinding.Forest

/-- The links agree, and the kept paths are what they give. -/
structure Consistent (f : Forest) : Prop where
  links : f.WellFormed
  paths : f.Scoped

protected theorem Consistent.empty : Forest.empty.Consistent where
  links := .empty
  paths h d found := by simp at found

section Checks

variable {f : Forest} {h : Handle} {d : Entry}

theorem check_of_found (found : f.get? h = some d) : f.check h = .ok () := by
  rw [check, if_pos]
  rw [contains, found]
  rfl

theorem found_of_check (checked : f.check h = .ok ()) : ∃ d, f.get? h = some d := by
  rw [check] at checked
  split at checked
  case isTrue live => exact Option.isSome_iff_exists.1 live
  case isFalse => cases checked

theorem rejectCycle_eq_ok_iff (wf : f.WellFormed) {child owner : Handle}
    (found : f.get? owner = some d) :
    f.rejectCycle child owner = .ok () ↔ ¬ f.Within child owner := by
  obtain ⟨hs, climb⟩ := wf.climbs found
  have within : f.Within child owner ↔ child ∈ hs := by
    constructor
    · rintro ⟨others, again, met⟩
      rwa [climb.unique again]
    · intro met
      exact ⟨hs, climb, met⟩
  simp only [rejectCycle, Outcome.monadLift_eq, climb.lineage_eq, Outcome.lift_ok,
    Outcome.ok_bind, within]
  by_cases met : child ∈ hs
  · simp [met, throw, throwThe, MonadExceptOf.throw]
  · simp [met, pure, Except.pure]

end Checks

/-! ### Children -/

def linkChild (f : Forest) (child owner : Handle) (c d : Entry) : Forest :=
  (f.put child (some { c with parent := some owner })).put owner
    (some { d with children := d.children ++ [child] })

section LinkChild

variable {f : Forest} {child owner : Handle} {c d : Entry}

theorem get?_linkChild (childFound : f.get? child = some c) (ownerFound : f.get? owner = some d)
    (x : Handle) : (f.linkChild child owner c d).get? x =
      if x = owner then some { d with children := d.children ++ [child] }
      else if x = child then some { c with parent := some owner }
      else f.get? x := by
  by_cases isOwner : x = owner
  · have inside := index_lt_of_get? ownerFound
    rw [← capacity_put f child (some { c with parent := some owner })] at inside
    rw [linkChild, get?_put, if_pos ⟨isOwner, inside⟩, if_pos isOwner]
  · rw [linkChild, get?_put_of_ne isOwner, if_neg isOwner, get?_put_of_found childFound]

theorem capacity_linkChild : (f.linkChild child owner c d).capacity = f.capacity := by
  rw [linkChild, capacity_put, capacity_put]

theorem adopts_linkChild (childFound : f.get? child = some c) (free : c.parent = none)
    (ownerFound : f.get? owner = some d) (container : d.isContainer = true) (differ : owner ≠ child) :
    f.Adopts (f.linkChild child owner c d) child owner where
  free := ⟨c, childFound, free⟩
  named := ⟨{ c with parent := some owner }, by
    rw [get?_linkChild childFound ownerFound, if_neg (Ne.symm differ), if_pos rfl], rfl⟩
  parents x differs := by
    rw [get?_linkChild childFound ownerFound, if_neg differs]
    split
    case isTrue same => rw [same, ownerFound]; rfl
    case isFalse => rfl
  holdings x differs := by
    rw [get?_linkChild childFound ownerFound, if_neg differs]
    split
    case isTrue same => rw [same, childFound]; rfl
    case isFalse => rfl
  listed := by
    refine ⟨d, { d with children := d.children ++ [child] }, ownerFound, ?_, ?_, fun _ => container⟩
    · rw [get?_linkChild childFound ownerFound, if_pos rfl]
    · rw [Definition.belongings_eq, Definition.belongings_eq, List.append_assoc, List.singleton_append]
      exact List.perm_middle

end LinkChild

theorem setParent_eq_ok_iff {f g : Forest} (wf : f.WellFormed) {child owner : Handle} :
    f.setParent child owner = .ok g ↔ ∃ c d, f.get? child = some c ∧ f.get? owner = some d ∧
      (c.parent = some owner ∧ g = f ∨ c.parent = none ∧ d.isContainer = true ∧
        ¬ f.Within child owner ∧ (f.linkChild child owner c d).rescope child = .ok g) := by
  cases childFound : f.get? child with
  | none => simp [setParent, check, contains, childFound, bind, Except.bind]
  | some c =>
  cases ownerFound : f.get? owner with
  | none => simp [setParent, check, contains, childFound, ownerFound, bind, Except.bind]
  | some d =>
  simp only [setParent, check_of_found childFound, check_of_found ownerFound, Outcome.ok_bind,
    Outcome.monadLift_eq, find_eq_ok_iff.2 childFound, find_eq_ok_iff.2 ownerFound, Outcome.lift_ok]
  cases named : c.parent with
  | some current =>
    by_cases same : current = owner
    · simp [named, same, pure, Except.pure]
      exact eq_comm
    · simp [named, same, throw, throwThe, MonadExceptOf.throw]
  | none =>
  cases container : d.isContainer with
  | false => simp [named, container, throw, throwThe, MonadExceptOf.throw, bind, Except.bind]
  | true =>
  have differ : ¬ f.Within child owner → owner ≠ child := by
    rintro apart rfl
    exact apart (wf.within_refl ownerFound)
  simp only [Bool.not_true, Bool.false_eq_true, if_false, Outcome.bind_eq_ok_iff,
    rejectCycle_eq_ok_iff wf ownerFound, Outcome.lift_eq_ok_iff, modify_eq_ok_iff]
  constructor
  · rintro ⟨_, apart, first, ⟨c', again, rfl⟩, _, ⟨d', there, rfl⟩, run⟩
    rw [childFound] at again
    cases again
    rw [get?_put_of_ne (differ apart), ownerFound] at there
    cases there
    exact ⟨c, d, rfl, rfl, .inr ⟨named, container, apart, run⟩⟩
  · rintro ⟨c', d', same, same', outcome⟩
    cases same
    cases same'
    rcases outcome with ⟨again, _⟩ | ⟨_, _, apart, run⟩
    · rw [named] at again
      cases again
    · refine ⟨⟨⟩, apart, _, ⟨c, childFound, rfl⟩, _, ⟨d, ?_, rfl⟩, run⟩
      rw [get?_put_of_ne (differ apart), ownerFound]

/-- A definition without an owner can be handed to any container that is not below it. -/
theorem WellFormed.exists_setParent {f : Forest} (wf : f.WellFormed) {child owner : Handle}
    {c d : Entry} (childFound : f.get? child = some c) (ownerFound : f.get? owner = some d)
    (free : c.parent = none) (container : d.isContainer = true) (apart : ¬ f.Within child owner) :
    ∃ g, f.setParent child owner = .ok g ∧
      (f.linkChild child owner c d).Rescoped g ((f.linkChild child owner c d).Within child) := by
  have differ : owner ≠ child := by
    rintro rfl
    exact apart (wf.within_refl ownerFound)
  have linked := wf.adopt (adopts_linkChild childFound free ownerFound container differ) apart
  have now : (f.linkChild child owner c d).get? child = some { c with parent := some owner } := by
    rw [get?_linkChild childFound ownerFound, if_neg (Ne.symm differ), if_pos rfl]
  obtain ⟨g, run, rescoped⟩ := linked.exists_rescope now
  exact ⟨g, (setParent_eq_ok_iff wf).2
    ⟨c, d, childFound, ownerFound, .inr ⟨free, container, apart, run⟩⟩, rescoped⟩

/-- A definition that gets an owner is scoped again with everything below it. -/
theorem Consistent.rescope_adopted {f linked g : Forest} {child owner : Handle} (f_paths : f.Scoped)
    (linked_links : linked.WellFormed) (adopts : f.Adopts linked child owner)
    (authored : ∀ {x : Handle} {e : Entry}, x ≠ child → linked.get? x = some e →
      ∃ d, f.get? x = some d ∧ d.dataPath = e.dataPath ∧ d.paths = e.paths)
    (run : linked.rescope child = .ok g) : g.Consistent := by
  obtain ⟨c, childNow, _⟩ := adopts.named
  obtain ⟨k, again, rescoped⟩ := linked_links.exists_rescope childNow
  rw [run] at again
  cases again
  refine ⟨linked_links.congr rescoped.sameLinks, rescoped.scoped_of_outside ?_⟩
  intro x outside e now
  have differs : x ≠ child := by
    rintro rfl
    exact outside (linked_links.within_refl childNow)
  obtain ⟨d, there, dataPath, paths⟩ := authored differs now
  obtain ⟨e', now', parent⟩ := exists_of_map_eq (adopts.parents x differs) there
  rw [now] at now'
  cases now'
  obtain ⟨above, under, anchored⟩ := f_paths x d there
  refine ⟨above, scopeAbove_congr under parent fun p owned => ?_, ?_⟩
  · have apart : p ≠ child := by
      rintro rfl
      exact outside (.of_owner now (parent.trans owned) (linked_links.within_refl childNow))
    cases above' : f.get? p with
    | none =>
      rw [scopeAbove, owned] at under
      obtain ⟨o, ownerFound, _⟩ := Outcome.map_eq_ok_iff.1 under
      rw [find_eq_ok_iff, above'] at ownerFound
      cases ownerFound
    | some o =>
      obtain ⟨o', ownerNow, _⟩ := exists_of_map_eq (adopts.parents p apart) above'
      obtain ⟨o'', again, _, same⟩ := authored apart ownerNow
      rw [above'] at again
      cases again
      rw [ownerNow, Option.map_some, Option.map_some, Definition.scope, Definition.scope, same]
  · rw [← paths, anchored, dataPath]

theorem Consistent.setParent {f g : Forest} {child owner : Handle} (consistent : f.Consistent)
    (run : f.setParent child owner = .ok g) : g.Consistent := by
  obtain ⟨c, d, childFound, ownerFound, outcome⟩ := (setParent_eq_ok_iff consistent.links).1 run
  rcases outcome with ⟨_, rfl⟩ | ⟨free, container, apart, rescoped⟩
  · exact consistent
  · have differ : owner ≠ child := by
      rintro rfl
      exact apart (consistent.links.within_refl ownerFound)
    have adopts := adopts_linkChild childFound free ownerFound container differ
    refine .rescope_adopted consistent.paths (consistent.links.adopt adopts apart) adopts ?_ rescoped
    intro x e differs now
    rw [get?_linkChild childFound ownerFound] at now
    by_cases isOwner : x = owner
    · rw [if_pos isOwner] at now
      cases now
      exact ⟨d, isOwner ▸ ownerFound, rfl, rfl⟩
    · rw [if_neg isOwner, if_neg differs] at now
      exact ⟨e, now, rfl, rfl⟩

theorem Consistent.setDataPath {f g : Forest} {h : Handle} {dataPath : String}
    (consistent : f.Consistent) (run : f.setDataPath h dataPath = .ok g) : g.Consistent := by
  obtain ⟨middle, change, rescoped⟩ := Outcome.bind_eq_ok_iff.1 run
  obtain ⟨d, found, rfl⟩ := modify_eq_ok_iff.1 change
  let e : Entry := { d with dataPath }
  have same : f.SameLinks (f.put h (some e)) := sameLinks_put found rfl
  have wf := consistent.links.congr same
  have now : (f.put h (some e)).get? h = some e := get?_put_self found _
  obtain ⟨k, again, renewed⟩ := wf.exists_rescope now
  rw [rescoped] at again
  cases again
  refine ⟨wf.congr renewed.sameLinks, renewed.scoped_of_outside fun x outside e' there => ?_⟩
  have differs : x ≠ h := by
    rintro rfl
    exact outside (wf.within_refl now)
  have kept := there
  rw [get?_put_of_ne differs] at there
  obtain ⟨above, under, anchored⟩ := consistent.paths x e' there
  refine ⟨above, scopeAbove_congr under rfl fun owner owned => ?_, anchored⟩
  rw [get?_put_of_ne]
  rintro rfl
  exact outside (.of_owner kept owned (wf.within_refl now))

/-! ### Removal -/

theorem get?_foldl_vacate (f : Forest) (order : List Handle) (x : Handle) :
    (order.foldl vacate f).get? x = if x ∈ order then none else f.get? x := by
  induction order generalizing f with
  | nil => rfl
  | cons h rest ih =>
    rw [List.foldl_cons, ih, get?_vacate]
    by_cases same : x = h <;> by_cases later : x ∈ rest <;> simp [same, later]

theorem capacity_foldl_vacate (f : Forest) (order : List Handle) :
    (order.foldl vacate f).capacity = f.capacity := by
  induction order generalizing f with
  | nil => rfl
  | cons h rest ih =>
    rw [List.foldl_cons, ih]
    exact Array.size_setIfInBounds

/-- `g` is `f` without a definition and what is below it. -/
structure Without (f g : Forest) (h : Handle) : Prop where
  capacity : g.capacity = f.capacity
  vacated : ∀ x, f.Within h x → g.get? x = none
  kept : ∀ x, ¬ f.Within h x → g.get? x = (f.get? x).map (Definition.release h)

section Removal

variable {f g : Forest} {h : Handle} {d : Entry}

/-- Discarding empties the places of a branch, also while links elsewhere are being changed. -/
theorem WellFormed.exists_discard (wf : f.WellFormed) (found : f.get? h = some d)
    (capacity : g.capacity = f.capacity) (same : ∀ x, f.Within h x → g.get? x = f.get? x) :
    ∃ k, g.discard h = .ok k ∧ k.capacity = f.capacity ∧ (∀ x, f.Within h x → k.get? x = none) ∧
      ∀ x, ¬ f.Within h x → k.get? x = g.get? x := by
  obtain ⟨b, read, reads, _, handle⟩ := wf.exists_branch found
  have members : ∀ x, x ∈ b.handles ↔ f.Within h x := fun x => by
    rw [reads.mem_handles_iff wf, handle]
  have readAgain : g.branch h = .ok b := by
    rw [branch, capacity]
    exact branchWithin_congr read fun x shown => same x ((members x).1 shown)
  refine ⟨b.handles.foldl vacate g, ?_, ?_, fun x below => ?_, fun x outside => ?_⟩
  · rw [discard, subtree, readAgain]
    rfl
  · rw [capacity_foldl_vacate, capacity]
  · rw [get?_foldl_vacate, if_pos ((members x).2 below)]
  · rw [get?_foldl_vacate, if_neg fun shown => outside ((members x).1 shown)]

theorem WellFormed.map_release (wf : f.WellFormed) (found : f.get? h = some d) {x : Handle}
    (notOwner : d.parent ≠ some x) : (f.get? x).map (Definition.release h) = f.get? x := by
  cases there : f.get? x with
  | none => rfl
  | some e =>
    rw [Option.map_some, Definition.release_of_not_mem]
    intro owned
    obtain ⟨d', again, parent⟩ := wf.owned_names_owner there owned
    rw [found] at again
    cases again
    exact notOwner parent

theorem WellFormed.exists_remove (wf : f.WellFormed) (found : f.get? h = some d) :
    ∃ g, f.remove h = .ok g ∧ f.Without g h := by
  cases named : d.parent with
  | none =>
    obtain ⟨g, run, capacity, vacated, kept⟩ := wf.exists_discard found rfl fun _ _ => rfl
    refine ⟨g, ?_, capacity, vacated, fun x outside => ?_⟩
    · simp only [remove, found, named]
      exact run
    · rw [kept x outside, wf.map_release found (by simp [named])]
  | some owner =>
    obtain ⟨o, ownerFound, _⟩ := wf.owner_lists_once found named
    have ownerOutside : ¬ f.Within h owner := Within.not_owner found named
    let released : Forest := f.put owner (some (o.release h))
    have now : ∀ x, released.get? x = if x = owner then some (o.release h) else f.get? x :=
      get?_put_of_found ownerFound _
    obtain ⟨g, run, capacity, vacated, kept⟩ := wf.exists_discard (g := released) found
      (capacity_put ..) fun x below => by
        rw [now, if_neg]
        rintro rfl
        exact ownerOutside below
    refine ⟨g, ?_, capacity, vacated, fun x outside => ?_⟩
    · have change : f.modify owner (·.release h) = .ok released :=
        modify_eq_ok_iff.2 ⟨o, ownerFound, rfl⟩
      simp only [remove, found, named, change]
      exact run
    · rw [kept x outside, now]
      split
      case isTrue same => rw [same, ownerFound, Option.map_some]
      case isFalse differs =>
        rw [wf.map_release found]
        rw [named]
        exact fun same => differs (Option.some.inj same).symm

theorem Without.was (without : f.Without g h) {x : Handle} {e : Entry} (now : g.get? x = some e) :
    ¬ f.Within h x ∧ ∃ d, f.get? x = some d ∧ d.release h = e := by
  have outside : ¬ f.Within h x := by
    intro below
    rw [without.vacated x below] at now
    cases now
  rw [without.kept x outside, Option.map_eq_some_iff] at now
  exact ⟨outside, now⟩

theorem Without.within (without : f.Without g h) {x y : Handle} (within : g.Within x y) :
    f.Within x y := by
  refine within.carry fun z e _ now => ?_
  obtain ⟨_, d, there, rfl⟩ := without.was now
  exact ⟨d, there, rfl⟩

theorem Without.cuts (wf : f.WellFormed) (found : f.get? h = some d) (without : f.Without g h) :
    f.Cuts g (f.Within h) where
  closed there below owned := by
    obtain ⟨e, next, parent⟩ := wf.owned_names_owner there owned
    exact .of_owner next parent below
  vacated := without.vacated
  kept x outside := by
    rw [without.kept x outside, Option.map_map]
    rfl
  released := by
    intro x e e' there now
    obtain ⟨outside, d, again, rfl⟩ := without.was now
    rw [there] at again
    cases again
    refine ⟨fun o owned below => ?_, fun o apart => ?_, fun hne => ?_⟩
    · rw [Definition.belongings_release, List.mem_filter] at owned
      obtain ⟨o', next, parent⟩ := wf.owned_names_owner there owned.1
      rcases below.cases_owner next with same | ⟨owner, named, above⟩
      · exact of_decide_eq_true owned.2 same
      · rw [parent] at named
        cases named
        exact outside above
    · rw [Definition.belongings_release, List.count_filter]
      refine decide_eq_true ?_
      rintro rfl
      exact apart (wf.within_refl found)
    · have children : e.children ≠ [] := by
        intro hnil
        apply hne
        rw [Definition.release, hnil, List.filter_nil]
      rw [Definition.isContainer, Content.isContainer, Definition.release, Content.kind_mapHolders]
      exact wf.isContainer_of_children there children

theorem Without.paths (without : f.Without g h) (paths : f.Scoped) : g.Scoped := by
  intro x e' now
  obtain ⟨outside, e, there, rfl⟩ := without.was now
  obtain ⟨above, under, anchored⟩ := paths x e there
  refine ⟨above, scopeAbove_congr under rfl fun owner owned => ?_, anchored⟩
  have ownerOutside : ¬ f.Within h owner := fun below => outside (.of_owner there owned below)
  rw [without.kept owner ownerOutside, Option.map_map]
  rfl

theorem Consistent.without (consistent : f.Consistent) (found : f.get? h = some d)
    (without : f.Without g h) : g.Consistent where
  links := consistent.links.cut (without.cuts consistent.links found)
  paths := without.paths consistent.paths

theorem Consistent.remove (consistent : f.Consistent) (run : f.remove h = .ok g) :
    g.Consistent := by
  cases found : f.get? h with
  | none =>
    simp only [Forest.remove, found] at run
    cases run
    exact consistent
  | some d =>
    obtain ⟨k, again, without⟩ := consistent.links.exists_remove found
    rw [run] at again
    cases again
    exact consistent.without found without

end Removal

end DataBinding.Forest
