import DataBinding.Proofs.Forest.Agreement
import DataBinding.Proofs.Forest.GraftRuns
import DataBinding.Proofs.Forest.Succession

/-!
# Replacing children

Children are replaced by dropping all of them and then grafting the replacements one by one. What a
container drops are exactly the branches of its children. A graft into a container fails only for a
forest without a definition to graft, and whatever has been dropped and grafted by then stays so.
-/

namespace DataBinding.Forest

variable {f g k other : Forest} {container child h x y : Handle} {d e : Entry}

/-! ### Dropping children -/

theorem Without.within_of_outside (without : f.Without g h) (outside : ¬ f.Within h x)
    (within : f.Within y x) : g.Within y x := by
  refine within.carry fun z d above there => ⟨d.release h, ?_, rfl⟩
  rw [without.kept z fun below => outside (above.trans below), there, Option.map_some]

theorem WellFormed.child_names_owner (wf : f.WellFormed) (found : f.get? container = some d)
    (owned : child ∈ d.children) : ∃ e, f.get? child = some e ∧ e.parent = some container := by
  refine wf.owned_names_owner found ?_
  rw [Definition.belongings_eq]
  exact List.mem_append_left _ owned

theorem WellFormed.release_child (wf : f.WellFormed) (found : f.get? container = some d)
    {rest : List Handle} (first : d.children = child :: rest) :
    d.release child = { d with children := rest } := by
  have distinct := wf.nodup_belongings found
  rw [Definition.belongings_eq, first, List.cons_append, List.nodup_cons] at distinct
  have fresh := distinct.1
  rw [List.mem_append, not_or] at fresh
  have children : d.children.filter (· ≠ child) = rest := by
    rw [first, List.filter_cons_of_neg (by simp), List.filter_eq_self]
    intro x inside
    refine decide_eq_true ?_
    rintro rfl
    exact fresh.1 inside
  have content : (d.content.mapHolders fun x => if x = child then none else some x) = d.content := by
    apply Content.mapHolders_eq_self
    intro role holder filled
    rw [if_neg]
    rintro rfl
    exact fresh.2 (List.mem_map_of_mem (Content.mem_holders.2 filled))
  rw [Definition.release, children, content]

/-- `g` is `f` without the branches of the first children of a container. -/
structure Drops (f g : Forest) (container : Handle) (dropped left : List Handle) : Prop where
  capacity : g.capacity = f.capacity
  host : ∃ d, f.get? container = some d ∧ d.children = dropped ++ left ∧
    g.get? container = some { d with children := left }
  gone : ∀ c ∈ dropped, ∀ x, f.Within c x → g.get? x = none
  kept : ∀ x, (∀ c ∈ dropped, ¬ f.Within c x) → x ≠ container → g.get? x = f.get? x

theorem Drops.nil (found : f.get? container = some d) : f.Drops f container [] d.children where
  capacity := rfl
  host := ⟨d, found, rfl, found⟩
  gone := by simp
  kept _ _ _ := rfl

theorem Drops.cons {dropped left : List Handle} (wf : f.WellFormed)
    (found : f.get? container = some d) (first : d.children = child :: (dropped ++ left))
    (without : f.Without g child) (later : g.Precedes k)
    (drops : g.Drops k container dropped left) : f.Drops k container (child :: dropped) left := by
  have owned : child ∈ d.children := by simp [first]
  obtain ⟨e, childFound, parent⟩ := wf.child_names_owner found owned
  constructor
  case capacity => rw [drops.capacity, without.capacity]
  case host =>
    obtain ⟨d', now, children, last⟩ := drops.host
    rw [without.kept container (Within.not_owner childFound parent), found, Option.map_some,
      wf.release_child found first] at now
    cases now
    exact ⟨d, found, first, last⟩
  case gone =>
    intro c among x within
    by_cases below : f.Within child x
    · obtain ⟨_, live⟩ := within.found
      have given : g.Allocated x := by
        rw [Allocated, without.capacity]
        exact index_lt_of_get? live
      exact later.gone given (without.vacated x below)
    · rcases List.mem_cons.1 among with rfl | among
      · exact absurd within below
      · exact drops.gone c among x (without.within_of_outside below within)
  case kept =>
    intro x apart notHost
    rw [List.forall_mem_cons] at apart
    rw [drops.kept x (fun c among within => apart.2 c among (without.within within)) notHost,
      without.kept x apart.1, wf.map_release childFound]
    rw [parent]
    exact fun same => notHost (Option.some.inj same).symm

theorem Consistent.exists_drops {dropped left : List Handle} (consistent : f.Consistent)
    (found : f.get? container = some d) (children : d.children = dropped ++ left) :
    ∃ g, f.removeAll dropped = .ok g ∧ g.Consistent ∧ f.Drops g container dropped left := by
  induction dropped generalizing f d with
  | nil =>
    rw [List.nil_append] at children
    subst children
    exact ⟨f, rfl, consistent, .nil found⟩
  | cons child rest ih =>
    have owned : child ∈ d.children := by simp [children]
    obtain ⟨e, childFound, parent⟩ := consistent.links.child_names_owner found owned
    obtain ⟨middle, first, without⟩ := consistent.links.exists_remove childFound
    have hostNow : middle.get? container = some { d with children := rest ++ left } := by
      rw [without.kept container (Within.not_owner childFound parent), found, Option.map_some,
        consistent.links.release_child found children]
      rfl
    obtain ⟨g, later, settled, drops⟩ := ih (consistent.remove first) hostNow rfl
    refine ⟨g, ?_, settled, .cons consistent.links found children without ?_ drops⟩
    · rw [Forest.removeAll, List.foldlM_cons, first]
      exact later
    · exact Precedes.foldlM Precedes.remove later

/-! ### Grafting one after the other -/

theorem Consistent.exists_graftAll {others : List Forest} (consistent : f.Consistent)
    (othersConsistent : ∀ other ∈ others, other.Consistent)
    (rooted : ∀ other ∈ others, ∃ root, other.root? = some root)
    (found : f.get? container = some d) (isContainer : d.isContainer = true) :
    ∃ g notices hs, f.graftAll container others = ⟨g, notices, .ok hs⟩ ∧
      hs.length = others.length ∧ g.get? container = some { d with children := d.children ++ hs } := by
  obtain ⟨before, rest, g, hs, notices, rfl, grafts, ⟨rfl, run⟩ | ⟨⟨other, after, rfl, rootless⟩, _⟩⟩ :=
    consistent.exists_grafts othersConsistent found isContainer
  · rw [List.append_nil] at run ⊢
    exact ⟨g, notices, hs, run, grafts.length_eq, grafts.host found⟩
  · obtain ⟨root, first⟩ := rooted other (by simp)
    rw [rootless] at first
    cases first

/-- The first graft that fails ends it; what was grafted before stays. -/
theorem graftAll_of_stop {before after : List Forest} {notices : List Notice} {hs : List Handle}
    {cause : DefinitionError} (ran : f.graftAll container before = ⟨g, notices, .ok hs⟩)
    (stops : g.graft container other = .error cause) :
    f.graftAll container (before ++ other :: after) = ⟨g, notices, .error cause⟩ := by
  induction before generalizing f notices hs with
  | nil =>
    cases ran
    rw [List.nil_append, graftAll, stops]
  | cons first rest ih =>
    rw [graftAll] at ran
    rw [List.cons_append, graftAll]
    cases run : f.graft container first with
    | error e =>
      rw [run] at ran
      cases ran
    | ok grafted =>
      simp only [run] at ran ⊢
      cases later : grafted.forest.graftAll container rest with
      | mk forest told outcome =>
      cases outcome with
      | error e =>
        rw [later] at ran
        cases ran
      | ok others =>
        rw [later] at ran
        cases ran
        rw [ih later]
        rfl

/-! ### Replacing -/

/-- Before the replacements come, a container has dropped its children and nothing else. -/
theorem Consistent.exists_cleared (consistent : f.Consistent) (found : f.get? container = some d)
    (isContainer : d.isContainer = true) : ∃ g, g.Consistent ∧ f.Drops g container d.children [] ∧
      ∀ others, f.replaceChildren container others = g.graftAll container others := by
  obtain ⟨g, run, settled, drops⟩ :=
    consistent.exists_drops found (List.append_nil d.children).symm
  refine ⟨g, settled, drops, fun others => ?_⟩
  rcases consistent.replaceChildren_cases container others with ⟨missing, _⟩ |
    ⟨d', again, outcome⟩
  · rw [found] at missing
    cases missing
  · rw [found] at again
    cases again
    rcases outcome with ⟨closed, _⟩ | ⟨_, k, again, replaced⟩
    · rw [isContainer] at closed
      cases closed
    · rw [run] at again
      cases again
      exact replaced

/-- Replacing children is refused at once, or drops them and then grafts as long as there is something to
graft. -/
theorem Consistent.replaceChildren_runs {others : List Forest} (consistent : f.Consistent)
    (othersConsistent : ∀ other ∈ others, other.Consistent) :
    (∃ e, f.replaceChildren container others = ⟨f, [], .error e⟩) ∨
    ∃ d cleared before rest g hs notices, f.get? container = some d ∧ cleared.Consistent ∧
      f.Drops cleared container d.children [] ∧ others = before ++ rest ∧
      Grafts container d.observer cleared before g hs notices ∧
      (rest = [] ∧ f.replaceChildren container others = ⟨g, notices, .ok hs⟩ ∨
        (∃ other after, rest = other :: after ∧ other.root? = none) ∧
          f.replaceChildren container others = ⟨g, notices, .error .nothingToGraft⟩) := by
  rcases consistent.replaceChildren_cases container others with ⟨_, refused⟩ |
    ⟨d, found, ⟨_, refused⟩ | ⟨isContainer, _⟩⟩
  · exact .inl ⟨_, refused⟩
  · exact .inl ⟨_, refused⟩
  · obtain ⟨cleared, settled, drops, replaces⟩ := consistent.exists_cleared found isContainer
    obtain ⟨d', again, _, hostCleared⟩ := drops.host
    rw [found] at again
    cases again
    obtain ⟨before, rest, g, hs, notices, parts, grafts, outcome⟩ :=
      settled.exists_grafts othersConsistent hostCleared isContainer
    rw [← replaces] at outcome
    exact .inr ⟨d, cleared, before, rest, g, hs, notices, found, settled, drops, parts, grafts, outcome⟩

/-- Nothing has changed after replacements exactly when there were no children and no replacement has
come. -/
theorem Drops.agrees_iff {cleared : Forest} {before : List Forest} {hs : List Handle}
    (wf : f.WellFormed) (found : f.get? container = some d)
    (drops : f.Drops cleared container d.children []) (count : hs.length = before.length)
    (host : g.get? container = some { d with children := hs })
    (gone : ∀ c ∈ d.children, ∀ x, f.Within c x → g.get? x = none)
    (start : before = [] → g = cleared) :
    f.Agrees g ↔ d.children = [] ∧ before = [] := by
  constructor
  · intro agrees
    have children : d.children = [] := by
      rw [List.eq_nil_iff_forall_not_mem]
      intro c owned
      obtain ⟨e, live, _⟩ := wf.child_names_owner found owned
      have dead := gone c owned c (wf.within_refl live)
      rw [agrees c, live] at dead
      cases dead
    have same := (agrees container).symm.trans host
    rw [found] at same
    have hnil : hs = [] := by
      rw [← children]
      exact (congrArg Definition.children (Option.some.inj same)).symm
    rw [hnil] at count
    exact ⟨children, List.length_eq_zero_iff.1 count.symm⟩
  · rintro ⟨children, hnil⟩ x
    rw [start hnil]
    by_cases isHost : x = container
    · obtain ⟨d', again, _, hostNow⟩ := drops.host
      rw [found] at again
      cases again
      rw [isHost, hostNow, found, ← children]
    · refine drops.kept x (fun c among => ?_) isHost
      rw [children] at among
      cases among

/-- Replacing children is refused at once, succeeds, or stops at the first forest without a definition
to graft. Then the former children are gone and the replacements before that forest stand in their
place, so that the forest is what it was only if there were none of either. -/
theorem Reachable.replaceChildren_stops (reached : Reachable f) (container : Handle)
    (others : List Forest) (othersReached : ∀ other ∈ others, Reachable other) :
    f.get? container = none ∧
      f.replaceChildren container others = ⟨f, [], .error (.unknownDefinition container)⟩ ∨
    ∃ d, f.get? container = some d ∧
      (d.isContainer = false ∧
        f.replaceChildren container others = ⟨f, [], .error (.notAContainer container)⟩ ∨
      d.isContainer = true ∧ (∀ other ∈ others, other.root? ≠ none) ∧
        (∃ g notices hs, f.replaceChildren container others = ⟨g, notices, .ok hs⟩ ∧
          g.get? container = some { d with children := hs }) ∨
      d.isContainer = true ∧ ∃ before other after g notices hs, others = before ++ other :: after ∧
        (∀ o ∈ before, o.root? ≠ none) ∧ other.root? = none ∧
        f.replaceChildren container before = ⟨g, notices, .ok hs⟩ ∧
        f.replaceChildren container others = ⟨g, notices, .error .nothingToGraft⟩ ∧
        g.get? container = some { d with children := hs } ∧
        (∀ c ∈ d.children, ∀ x, f.Within c x → g.get? x = none) ∧
        ((∀ x, g.get? x = f.get? x) ↔ d.children = [] ∧ before = [])) := by
  have consistent := reached.consistent
  rcases consistent.replaceChildren_cases container others with refused |
    ⟨d, found, ⟨closed, refused⟩ | ⟨isContainer, _⟩⟩
  · exact .inl refused
  · exact .inr ⟨d, found, .inl ⟨closed, refused⟩⟩
  refine .inr ⟨d, found, .inr ?_⟩
  obtain ⟨cleared, settled, drops, replaces⟩ := consistent.exists_cleared found isContainer
  obtain ⟨d', again, _, hostCleared⟩ := drops.host
  rw [found] at again
  cases again
  -- grafts into the cleared container, as long as there is something to graft
  have grafts : ∀ {before : List Forest}, (∀ o ∈ before, Reachable o) → (∀ o ∈ before, o.root? ≠ none) →
      ∃ g notices hs, cleared.graftAll container before = ⟨g, notices, .ok hs⟩ ∧
        hs.length = before.length ∧ g.get? container = some { d with children := hs } :=
    fun reachable rooted => settled.exists_graftAll (fun o inside => (reachable o inside).consistent)
      (fun o inside => Option.ne_none_iff_exists'.1 (rooted o inside)) hostCleared isContainer
  cases stop : others.find? fun other => other.root?.isNone with
  | none =>
    have rooted : ∀ other ∈ others, other.root? ≠ none := by
      simpa using stop
    obtain ⟨g, notices, hs, ran, _, host⟩ := grafts othersReached rooted
    exact .inl ⟨isContainer, rooted, g, notices, hs, (replaces others).trans ran, host⟩
  | some other =>
    obtain ⟨rootless, before, after, rfl, rooted⟩ := List.find?_eq_some_iff_append.1 stop
    rw [Option.isNone_iff_eq_none] at rootless
    replace rooted : ∀ o ∈ before, o.root? ≠ none := fun o inside =>
      Option.isSome_iff_ne_none.1 (by simpa using rooted o inside)
    obtain ⟨g, notices, hs, ran, count, host⟩ :=
      grafts (fun o inside => othersReached o (List.mem_append_left _ inside)) rooted
    have later : cleared.Precedes g := by
      have grown := Precedes.graftAll cleared container before
      rwa [ran] at grown
    have gone : ∀ c ∈ d.children, ∀ x, f.Within c x → g.get? x = none := by
      intro c owned x within
      obtain ⟨_, live⟩ := within.found
      refine later.gone ?_ (drops.gone c owned x within)
      rw [Allocated, drops.capacity]
      exact index_lt_of_get? live
    have stops : g.graft container other = .error .nothingToGraft :=
      graft_of_rootless host isContainer rootless
    refine .inr ⟨isContainer, before, other, after, g, notices, hs, rfl, rooted, rootless,
      (replaces before).trans ran, (replaces _).trans (graftAll_of_stop ran stops), host, gone, ?_⟩
    refine drops.agrees_iff consistent.links found count host gone fun hnil => ?_
    rw [hnil] at ran
    exact (congrArg Replaced.forest ran).symm

/-- A panel with an input is to take in a text and then nothing: the input is gone and the text stays. -/
theorem Reachable.replaceChildren_stops_of_panel : ∃ f text g notices, Reachable f ∧ Reachable text ∧
    (f.get? ⟨0⟩).map (·.children) = some [⟨1⟩] ∧
    f.replaceChildren ⟨0⟩ [text, .empty] = ⟨g, notices, .error .nothingToGraft⟩ ∧
    (g.get? ⟨0⟩).map (·.children) = some [⟨2⟩] ∧ g.get? ⟨1⟩ = none := by
  let f := Forest.empty.afterAll [.insert (.panel "") "" rfl, .insert (.input "" false) "" rfl,
    .setParent ⟨1⟩ ⟨0⟩]
  let text := Forest.empty.afterAll [.insert (.textItem "") "" rfl]
  have reached : Reachable f := .afterAll .empty _ (by simp [Call.others])
  have single : Reachable text := .afterAll .empty _ (by simp [Call.others])
  have children : (f.get? ⟨0⟩).map (·.children) = some [⟨1⟩] := by decide +kernel
  have now : ((f.replaceChildren ⟨0⟩ [text, .empty]).forest.get? ⟨0⟩).map (·.children) =
    some [⟨2⟩] := by decide +kernel
  have input : f.Within ⟨1⟩ ⟨1⟩ := reached.consistent.links.within_refl rfl
  rcases Reachable.replaceChildren_stops reached ⟨0⟩ [text, .empty]
    (by simp [single, Reachable.empty]) with ⟨missing, _⟩ | ⟨d, found, ⟨closed, _⟩ |
      ⟨_, rooted, _⟩ | ⟨_, _, _, _, g, notices, hs, _, _, _, _, stops, _, gone, _⟩⟩
  · cases missing
  · cases found
    cases closed
  · exact absurd rfl (rooted .empty (by simp))
  · rw [stops] at now
    have owned : ⟨1⟩ ∈ d.children := by
      rw [found] at children
      rw [show d.children = [⟨1⟩] from Option.some.inj children]
      exact List.mem_singleton_self _
    exact ⟨f, text, g, notices, reached, single, children, stops, now, gone ⟨1⟩ owned ⟨1⟩ input⟩

/-- A panel with an input loses it when it is to take in an empty forest. -/
theorem replaceChildren_not_atomic : ¬ ∀ (f : Forest) (container : Handle) (others : List Forest)
    (e : DefinitionError), Reachable f → (∀ other ∈ others, Reachable other) →
      (f.replaceChildren container others).outcome = .error e →
      ∀ x, (f.replaceChildren container others).forest.get? x = f.get? x := by
  intro atomic
  have reached := Reachable.empty.afterAll
    [.insert (.panel "") "" rfl, .insert (.input "" false) "" rfl, .setParent ⟨1⟩ ⟨0⟩]
    (by simp [Call.others])
  have same := atomic _ ⟨0⟩ [.empty] .nothingToGraft reached (by simp [Reachable.empty]) rfl ⟨1⟩
  cases same

end DataBinding.Forest
