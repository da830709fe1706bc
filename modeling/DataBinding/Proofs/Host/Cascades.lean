import DataBinding.Host.Observer
import DataBinding.Proofs.Forest.Replacement

/-!
# Who hears what

An observer that is handed to a definition reaches its whole branch and nothing else, and hears of it
once, when all of the branch already holds it. Whatever is grafted into a container takes over the
observer found there, or keeps what it had when there is none.
-/

namespace DataBinding

/-- The notice tells `o` once of the branch of `h`, as it stands in `f`, where everybody in it holds `o`
already. -/
structure Notice.Announces (notice : Notice) (o : ObserverId) (f : Forest) (h : Handle)
    (order : List Handle) : Prop where
  shown : f.subtree h = .ok order
  held : ∀ x ∈ order, ∃ d, f.get? x = some d ∧ d.observer = some o
  runs : ∀ {m : Type → Type} [Monad m] (observers : Observers m) hook,
    (observers o).afterSetObserver = some hook → notice.deliver observers = hook f h
  silent : ∀ {m : Type → Type} [Monad m] (observers : Observers m),
    (observers o).afterSetObserver = none → notice.deliver observers = pure ()

namespace Forest

variable {f g other : Forest} {h container top root : Handle} {order : List Handle} {o : ObserverId}
  {watch : Option ObserverId} {d : Entry}

theorem announces_observing (shown : f.subtree h = .ok order)
    (held : ∀ x ∈ order, ∃ d, f.get? x = some d ∧ d.observer = some o) :
    (Notice.observing o f h).Announces o f h order where
  shown := shown
  held := held
  runs observers hook there := by simp only [Notice.deliver, there]
  silent observers missing := by simp only [Notice.deliver, missing]

/-- An observer that is handed to a definition reaches its branch, and is told afterwards. -/
theorem WellFormed.setObserver_cascades (wf : f.WellFormed) (found : f.get? h = some d)
    (o : ObserverId) : ∃ order g notice, f.subtree h = .ok order ∧
      f.setObserver h o = .ok (g, [notice]) ∧ notice.Announces o g h order ∧
      ∀ x, g.get? x =
        (f.get? x).map fun e => if x ∈ order then { e with observer := some o } else e := by
  obtain ⟨order, g, shown, run, _, now⟩ := wf.exists_setObserver found o
  obtain ⟨order', again, members, _⟩ := wf.exists_subtree found
  cases shown.symm.trans again
  have links : f.SameLinks g := map_of_changed now fun x d => by split <;> rfl
  refine ⟨order, g, _, shown, run,
    announces_observing (links.subtree_eq wf shown members) fun x inside => ?_, now⟩
  obtain ⟨e, there⟩ := ((members x).1 inside).found
  refine ⟨_, by rw [now, there, Option.map_some], ?_⟩
  rw [if_pos inside]

/-! ### Grafts -/

/-- The branch of `top` is a copy of the first branch of another forest, and holds the observer that
watches, or what the other branch holds when nobody watches. -/
def Hears (g other : Forest) (top : Handle) (watch : Option ObserverId) : Prop :=
  ∃ root order shown, other.root? = some root ∧ other.subtree root = .ok order ∧
    g.subtree top = .ok shown ∧ List.Forall₂ (fun x y => ∃ d e, other.get? x = some d ∧
      g.get? y = some e ∧ e.observer = watch.or d.observer) order shown

theorem StandsIn.hears_each (stands : other.StandsIn g container top watch root order) :
    List.Forall₂ (fun x y => ∃ d e, other.get? x = some d ∧ g.get? y = some e ∧
      e.observer = watch.or d.observer) order (placesFrom top.index order.length) := by
  rw [List.forall₂_iff_get]
  refine ⟨by simp [placesFrom], fun k inside later => ?_⟩
  have place : (placesFrom top.index order.length).get ⟨k, later⟩ = ⟨top.index + k⟩ := by
    simp [placesFrom]
  obtain ⟨d, paths, found, now⟩ := stands.copies (List.getElem?_eq_getElem inside)
  rw [← place] at now
  exact ⟨d, _, found, now, rfl⟩

theorem StandsIn.hears (stands : other.StandsIn g container top watch root order) :
    g.Hears other top watch :=
  ⟨root, order, _, stands.first, stands.subtree, stands.shown, stands.hears_each⟩

theorem StandsIn.announces (stands : other.StandsIn g container top (some o) root order) :
    (Notice.observing o g top).Announces o g top (placesFrom top.index order.length) := by
  refine announces_observing stands.shown fun y among => ?_
  obtain ⟨k, inside, rfl⟩ := List.mem_map.1 among
  obtain ⟨d, paths, _, now⟩ := stands.copies (List.getElem?_eq_getElem (List.mem_range.1 inside))
  exact ⟨_, now, rfl⟩

/-- Copies of the first branches of other forests hear what watches them, which is told of each of them
once, or they hear what they heard when nothing watches them. -/
structure PassesOn (g : Forest) (watch : Option ObserverId) (others : List Forest) (tops : List Handle)
    (notices : List Notice) : Prop where
  hears : List.Forall₂ (fun other top => g.Hears other top watch) others tops
  once : ∀ o, watch = some o → List.Forall₂ (fun top notice => ∃ k shown,
    g.subtree top = .ok shown ∧ notice.Announces o k top shown) tops notices
  silent : watch = none → notices = []

theorem Grafts.passesOn {others : List Forest} {tops : List Handle} {notices : List Notice}
    (grafts : Grafts container watch f others g tops notices) (placed : container.index < f.capacity) :
    g.PassesOn watch others tops notices where
  hears := (grafts.stands placed).imp fun _ _ ⟨_, _, stands⟩ => stands.hears
  once o held := by
    subst held
    refine (grafts.told placed).imp fun top notice told => ?_
    obtain ⟨other, k, root, order, rfl, stood, stands⟩ := told
    exact ⟨k, _, stands.shown, stood.announces⟩
  silent held := by
    subst held
    exact grafts.untold

/-- Handing an observer to a definition reaches its branch and is told once, and so does every graft into
a container that holds an observer. -/
theorem Reachable.observers_cascade (reached : Reachable f) :
    (∀ h d o, f.get? h = some d → ∃ order g notice, f.subtree h = .ok order ∧
      f.setObserver h o = .ok (g, [notice]) ∧ notice.Announces o g h order ∧
      ∀ x, g.get? x =
        (f.get? x).map fun e => if x ∈ order then { e with observer := some o } else e) ∧
    (∀ container other grafted, Reachable other → f.graft container other = .ok grafted →
      ∃ d, f.get? container = some d ∧
        grafted.forest.PassesOn d.observer [other] [grafted.handle] grafted.notices) ∧
    ∀ container others, (∀ other ∈ others, Reachable other) →
      (∃ e, f.replaceChildren container others = ⟨f, [], .error e⟩) ∨
      ∃ d before rest g tops notices, f.get? container = some d ∧ others = before ++ rest ∧
        g.PassesOn d.observer before tops notices ∧
        (rest = [] ∧ f.replaceChildren container others = ⟨g, notices, .ok tops⟩ ∨
          (∃ other after, rest = other :: after ∧ other.root? = none) ∧
            f.replaceChildren container others = ⟨g, notices, .error .nothingToGraft⟩) := by
  have consistent := reached.consistent
  refine ⟨fun h d o found => consistent.links.setObserver_cascades found o,
    fun container other grafted otherReached run => ?_, fun container others othersReached => ?_⟩
  · obtain ⟨d, root, order, found, first, top, bears, told⟩ :=
      consistent.bears_of_graft otherReached.consistent run
    have settled := consistent.graft otherReached.consistent run
    have passes := (Grafts.cons first bears settled (.nil _)).passesOn (index_lt_of_get? found)
    rw [List.append_nil, ← told, ← top] at passes
    exact ⟨d, found, passes⟩
  · refine (consistent.replaceChildren_runs fun other inside =>
      (othersReached other inside).consistent).imp_right ?_
    rintro ⟨d, cleared, before, rest, g, tops, notices, found, _, drops, parts, grafts, outcome⟩
    obtain ⟨_, _, _, hostCleared⟩ := drops.host
    exact ⟨d, before, rest, g, tops, notices, found, parts,
      grafts.passesOn (index_lt_of_get? hostCleared), outcome⟩

private def watchedPanel : Forest :=
  empty.afterAll
    [.insert (.panel "") "" (Content.holders_panel ""),
      .insert (.input "" false) "" (Content.holders_input "" false),
      .insert (.panel "") "" (Content.holders_panel ""),
      .setParent ⟨1⟩ ⟨0⟩, .setObserver ⟨0⟩ ⟨4⟩]

theorem Reachable.observers_cascade_of_panels : ∃ f text d e order g notice grafted k tops notices,
    Reachable f ∧ Reachable text ∧ f.get? ⟨0⟩ = some d ∧ d.observer = some ⟨4⟩ ∧
    f.setObserver ⟨0⟩ ⟨5⟩ = .ok (g, [notice]) ∧ notice.Announces ⟨5⟩ g ⟨0⟩ order ∧
    f.get? ⟨2⟩ = some e ∧ e.observer = none ∧ f.graft ⟨2⟩ text = .ok grafted ∧
    grafted.forest.PassesOn none [text] [grafted.handle] grafted.notices ∧
    f.replaceChildren ⟨0⟩ [text, text] = ⟨k, notices, .ok tops⟩ ∧
    k.PassesOn (some ⟨4⟩) [text, text] tops notices := by
  have reached : Reachable watchedPanel := .afterAll .empty _ (by simp [Call.others])
  let text := Forest.empty.afterAll [.insert (.textItem "") "" rfl, .setObserver ⟨0⟩ ⟨9⟩]
  have single : Reachable text := .afterAll .empty _ (by simp [Call.others])
  obtain ⟨hands, grafts, replaces⟩ := Reachable.observers_cascade reached
  obtain ⟨d, found, watched⟩ : ∃ d, watchedPanel.get? ⟨0⟩ = some d ∧ d.observer = some ⟨4⟩ :=
    ⟨_, rfl, rfl⟩
  obtain ⟨e, there, unwatched⟩ : ∃ e, watchedPanel.get? ⟨2⟩ = some e ∧ e.observer = none :=
    ⟨_, rfl, rfl⟩
  obtain ⟨order, g, notice, _, handed, announces, _⟩ := hands ⟨0⟩ d ⟨5⟩ found
  obtain ⟨grafted, graft⟩ : ∃ g, watchedPanel.graft ⟨2⟩ text = .ok g := ⟨_, rfl⟩
  obtain ⟨e', again, keeps⟩ := grafts _ _ _ single graft
  cases there.symm.trans again
  rw [unwatched] at keeps
  have succeeds : (watchedPanel.replaceChildren ⟨0⟩ [text, text]).outcome.isOk = true := by
    decide +kernel
  rcases replaces ⟨0⟩ [text, text] (by simp [single]) with ⟨_, refused⟩ |
    ⟨d', before, rest, k, tops, notices, again, parts, passes, ⟨rfl, replaced⟩ | ⟨_, stops⟩⟩
  · rw [refused] at succeeds
    cases succeeds
  · cases found.symm.trans again
    rw [List.append_nil] at parts
    rw [watched, ← parts] at passes
    exact ⟨_, text, d, e, order, g, notice, grafted, k, tops, notices, reached, single, found, watched,
      handed, announces, there, unwatched, graft, keeps, replaced, passes⟩
  · rw [stops] at succeeds
    cases succeeds

end Forest

end DataBinding
