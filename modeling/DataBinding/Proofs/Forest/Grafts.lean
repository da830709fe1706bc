import DataBinding.Forest.Graft
import DataBinding.Proofs.Forest.Snapshots

/-!
# Grafts

Handing an observer to a branch leaves every frame alone, and a graft is a copy that gets an owner,
so both keep forests consistent. Replacing children keeps them so at every point where it may stop.
-/

namespace DataBinding.Forest

variable {f g : Forest}

/-! ### Changes of several definitions -/

section Sweep

variable {h : Handle} {d : Entry}

theorem exists_modifyAll {hs : List Handle} (distinct : hs.Nodup)
    (live : ∀ x ∈ hs, ∃ d, f.get? x = some d) (change : Entry → Entry) :
    ∃ g, f.modifyAll hs change = .ok g ∧ g.capacity = f.capacity ∧
      ∀ x, g.get? x = (f.get? x).map fun d => if x ∈ hs then change d else d := by
  induction hs generalizing f with
  | nil => exact ⟨f, rfl, rfl, fun x => by simp⟩
  | cons h rest ih =>
    obtain ⟨fresh, distinct⟩ := List.nodup_cons.1 distinct
    obtain ⟨d, found⟩ := live h List.mem_cons_self
    obtain ⟨k, first, size, now⟩ := exists_modify found change
    obtain ⟨g, run, capacity, after⟩ := ih (f := k) distinct fun x inside => by
      obtain ⟨e, there⟩ := live x (List.mem_cons_of_mem _ inside)
      exact ⟨_, by rw [now, there, Option.map_some]⟩
    refine ⟨g, ?_, capacity.trans size, fun x => ?_⟩
    · rw [modifyAll, List.foldlM_cons, first]
      exact run
    · rw [after, now, Option.map_map]
      congr 1
      funext d
      by_cases same : x = h
      · simp [same, fresh]
      · simp [same]

theorem WellFormed.exists_modifyAll_subtree (wf : f.WellFormed) (found : f.get? h = some d)
    (change : Entry → Entry) : ∃ order g, f.subtree h = .ok order ∧ f.modifyAll order change = .ok g ∧
      g.capacity = f.capacity ∧ (∀ x, x ∈ order ↔ f.Within h x) ∧
      ∀ x, g.get? x = (f.get? x).map fun d => if x ∈ order then change d else d := by
  obtain ⟨order, shown, members, sorted⟩ := wf.exists_subtree found
  obtain ⟨g, run, capacity, now⟩ :=
    exists_modifyAll sorted.nodup (fun x inside => ((members x).1 inside).found) change
  exact ⟨order, g, shown, run, capacity, members, now⟩

theorem WellFormed.exists_setObserver (wf : f.WellFormed) (found : f.get? h = some d)
    (observer : ObserverId) : ∃ order g, f.subtree h = .ok order ∧
      f.setObserver h observer = .ok (g, [.observing observer g h]) ∧ g.capacity = f.capacity ∧
      ∀ x, g.get? x = (f.get? x).map fun d => if x ∈ order then { d with observer := some observer }
        else d := by
  obtain ⟨order, g, shown, run, capacity, _, now⟩ :=
    wf.exists_modifyAll_subtree found fun d => { d with observer := some observer }
  refine ⟨order, g, shown, ?_, capacity, now⟩
  rw [setObserver, shown, Outcome.ok_bind, run]
  rfl

end Sweep

theorem sameFrames_modifyAll {hs : List Handle} {change : Entry → Entry}
    (keeps : ∀ d, (change d).frame = d.frame) (run : f.modifyAll hs change = .ok g) :
    f.SameFrames g := by
  induction hs generalizing f with
  | nil =>
    cases run
    exact .refl _
  | cons h rest ih =>
    obtain ⟨middle, first, later⟩ := Outcome.bind_eq_ok_iff.1 run
    obtain ⟨d, found, rfl⟩ := modify_eq_ok_iff.1 first
    exact SameFrames.trans (sameFrames_put found (keeps d)) (ih later)

theorem Consistent.setObserver {h : Handle} {observer : ObserverId} {notices : List Notice}
    (consistent : f.Consistent) (run : f.setObserver h observer = .ok (g, notices)) :
    g.Consistent := by
  obtain ⟨order, _, rest⟩ := Outcome.bind_eq_ok_iff.1 run
  obtain ⟨k, change, last⟩ := Outcome.bind_eq_ok_iff.1 rest
  cases last
  exact consistent.congr (sameFrames_modifyAll (by exact fun _ => rfl) change)

theorem free_of_root? {root : Handle} (first : f.root? = some root) :
    ∃ d, f.get? root = some d ∧ d.parent = none := by
  have top := List.find?_some first
  cases found : f.get? root with
  | none => simp [found] at top
  | some d => exact ⟨d, rfl, by simpa [found] using top⟩

theorem exists_of_graft {other : Forest} {container : Handle} {grafted : Grafted}
    (run : f.graft container other = .ok grafted) : ∃ root copy placed,
      other.root? = some root ∧ f.copyBranch other root = .ok (grafted.handle, copy) ∧
      copy.setParent grafted.handle container = .ok placed ∧
      (grafted.forest = placed ∨ ∃ observer,
        placed.setObserver grafted.handle observer = .ok (grafted.forest, grafted.notices)) := by
  simp only [graft, Outcome.monadLift_eq, Outcome.bind_eq_ok_iff, Outcome.lift_eq_ok_iff] at run
  obtain ⟨_, _, d, _, run⟩ := run
  split at run
  · cases run
  · cases first : other.root? with
    | none =>
      rw [first] at run
      cases run
    | some root =>
      simp only [first, Outcome.bind_eq_ok_iff, Outcome.lift_eq_ok_iff] at run
      obtain ⟨⟨top, copy⟩, copies, placed, settles, host, _, last⟩ := run
      cases heard : host.observer with
      | none =>
        rw [heard] at last
        cases last
        exact ⟨root, copy, placed, rfl, copies, settles, .inl rfl⟩
      | some observer =>
        simp only [heard, Outcome.bind_eq_ok_iff, Outcome.lift_eq_ok_iff] at last
        obtain ⟨⟨observed, notices⟩, hands, last⟩ := last
        cases last
        exact ⟨root, copy, placed, rfl, copies, settles, .inr ⟨observer, hands⟩⟩

theorem Consistent.graft {other : Forest} {container : Handle} {grafted : Grafted}
    (consistent : f.Consistent) (otherConsistent : other.Consistent)
    (run : f.graft container other = .ok grafted) : grafted.forest.Consistent := by
  obtain ⟨root, copy, placed, first, copies, settles, last⟩ := exists_of_graft run
  obtain ⟨d, found, free⟩ := free_of_root? first
  have settled := (consistent.copyBranch otherConsistent found free copies).setParent settles
  rcases last with same | ⟨observer, hands⟩
  · rwa [same]
  · exact settled.setObserver hands

theorem Consistent.removeAll {hs : List Handle} (consistent : f.Consistent)
    (run : f.removeAll hs = .ok g) : g.Consistent := by
  induction hs generalizing f with
  | nil =>
    cases run
    exact consistent
  | cons h rest ih =>
    obtain ⟨middle, first, later⟩ := Outcome.bind_eq_ok_iff.1 run
    exact ih (consistent.remove first) later

theorem WellFormed.exists_remove_any (wf : f.WellFormed) (h : Handle) :
    ∃ g, f.remove h = .ok g := by
  cases found : f.get? h with
  | none => exact ⟨f, by rw [remove, found]⟩
  | some d =>
    obtain ⟨g, run, _⟩ := wf.exists_remove found
    exact ⟨g, run⟩

theorem Consistent.exists_removeAll (consistent : f.Consistent) (hs : List Handle) :
    ∃ g, f.removeAll hs = .ok g := by
  induction hs generalizing f with
  | nil => exact ⟨f, rfl⟩
  | cons h rest ih =>
    obtain ⟨middle, first⟩ := consistent.links.exists_remove_any h
    obtain ⟨g, later⟩ := ih (consistent.remove first)
    refine ⟨g, ?_⟩
    rw [Forest.removeAll, List.foldlM_cons, first]
    exact later

theorem Consistent.graftAll {container : Handle} {others : List Forest} (consistent : f.Consistent)
    (othersConsistent : ∀ other ∈ others, other.Consistent) :
    (f.graftAll container others).forest.Consistent := by
  induction others generalizing f with
  | nil => exact consistent
  | cons other rest ih =>
    rw [Forest.graftAll]
    cases run : f.graft container other with
    | error e => exact consistent
    | ok grafted =>
      exact ih (consistent.graft (othersConsistent other List.mem_cons_self) run)
        fun later inside => othersConsistent later (List.mem_cons_of_mem _ inside)

theorem Consistent.replaceChildren_cases (consistent : f.Consistent) (container : Handle)
    (others : List Forest) :
    f.get? container = none ∧
      f.replaceChildren container others = ⟨f, [], .error (.unknownDefinition container)⟩ ∨
    ∃ d, f.get? container = some d ∧
      (d.isContainer = false ∧
        f.replaceChildren container others = ⟨f, [], .error (.notAContainer container)⟩ ∨
      d.isContainer = true ∧ ∃ g, f.removeAll d.children = .ok g ∧
        f.replaceChildren container others = g.graftAll container others) := by
  cases found : f.get? container with
  | none =>
    refine .inl ⟨rfl, ?_⟩
    simp only [Forest.replaceChildren, check, contains, found]
    rfl
  | some d =>
    refine .inr ⟨d, rfl, ?_⟩
    simp only [Forest.replaceChildren, check_of_found found, find_eq_ok_iff.2 found,
      Outcome.monadLift_eq, Outcome.lift_ok, Outcome.ok_bind]
    cases isContainer : d.isContainer with
    | false => exact .inl ⟨rfl, rfl⟩
    | true =>
      obtain ⟨g, run⟩ := consistent.exists_removeAll d.children
      exact .inr ⟨rfl, g, run, by simp only [run]; rfl⟩

theorem Consistent.replaceChildren {container : Handle} {others : List Forest}
    (consistent : f.Consistent) (othersConsistent : ∀ other ∈ others, other.Consistent) :
    (f.replaceChildren container others).forest.Consistent := by
  rcases consistent.replaceChildren_cases container others with ⟨_, refused⟩ |
    ⟨d, _, ⟨_, refused⟩ | ⟨_, g, run, replaced⟩⟩
  · rwa [refused]
  · rwa [refused]
  · rw [replaced]
    exact graftAll (consistent.removeAll run) othersConsistent

end DataBinding.Forest
