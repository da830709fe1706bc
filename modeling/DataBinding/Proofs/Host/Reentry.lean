import DataBinding.Proofs.Forest.Agreement
import DataBinding.Proofs.Host.Totality

/-!
# Produced definitions

Whatever the host produces for a definition gets the bundle of the request at its first definition
without an owner, and is otherwise left alone. A bundle is looked for upwards, so the definitions
below borrow this one unless there is another on the way.
-/

namespace DataBinding

namespace Forest

variable {f g : Forest} {h x root : Handle} {d : Entry} {b : Bundle Forest}

/-! ### Looking upwards -/

theorem bundleAlong_append {before rest : List Handle}
    (bare : ∀ y ∈ before, ∃ e, f.get? y = some e ∧ e.bundle = none) :
    f.bundleAlong (before ++ rest) = f.bundleAlong rest := by
  induction before with
  | nil => rfl
  | cons y later ih =>
    obtain ⟨⟨e, there, without⟩, onward⟩ := List.forall_mem_cons.1 bare
    rw [List.cons_append, bundleAlong, find_eq_ok_iff.2 there, Outcome.ok_bind, without]
    exact ih onward

theorem bundleAlong_of_bundle (found : f.get? h = some d) (bundled : d.bundle = some b)
    (rest : List Handle) : f.bundleAlong (h :: rest) = .ok (some (h, b)) := by
  rw [bundleAlong, find_eq_ok_iff.2 found, Outcome.ok_bind, bundled]
  rfl

/-- A definition on whose way up nobody else has a bundle borrows the one at the end, unless it is
there itself. -/
theorem Climb.bundleFor_eq {hs : List Handle} {identity : String} (climb : f.Climb x hs)
    (met : h ∈ hs) (found : f.get? h = some d) (bundled : d.bundle = some b)
    (others : ∀ y ∈ hs, y ≠ h → ∀ e, f.get? y = some e → e.bundle = none)
    (named : f.identity x = .ok identity) : f.bundleFor x =
      .ok (some (if x = h then b else { b with constraint := some identity })) := by
  obtain ⟨before, rest, rfl, onward⟩ := climb.exists_suffix met
  obtain ⟨above, rfl⟩ := onward.eq_cons
  have bare : ∀ y ∈ before, ∃ e, f.get? y = some e ∧ e.bundle = none := by
    intro y below
    have inside : y ∈ before ++ h :: above := List.mem_append_left _ below
    obtain ⟨e, there⟩ := climb.found_of_mem inside
    refine ⟨e, there, others y inside ?_ e there⟩
    rintro rfl
    exact (List.nodup_append.1 climb.nodup).2.2 y below y List.mem_cons_self rfl
  simp only [bundleFor, climb.lineage_eq, bundleAlong_append bare, bundleAlong_of_bundle found bundled,
    named, Outcome.ok_bind, eq_comm (a := h)]
  split <;> rfl

theorem WellFormed.exists_borrowed (wf : f.WellFormed) (found : f.get? h = some d)
    (now : ∀ x, g.get? x = (f.get? x).map fun d => if x = h then { d with bundle := some b } else d) :
    ∃ order, f.subtree h = .ok order ∧ g.subtree h = .ok order ∧
      ∀ x ∈ order, ∃ hs identity, g.lineage x = .ok hs ∧ f.identity x = .ok identity ∧
        g.identity x = .ok identity ∧
        ((∀ y ∈ hs, y ≠ h → ∀ e, f.get? y = some e → e.bundle = none) → g.bundleFor x =
          .ok (some (if x = h then b else { b with constraint := some identity }))) := by
  have links : f.SameLinks g := map_of_changed now fun x d => by split <;> rfl
  have keys : ∀ x, (g.get? x).map (·.key) = (f.get? x).map (·.key) :=
    map_of_changed now fun x d => by split <;> rfl
  have bundled : g.get? h = some { d with bundle := some b } := by
    rw [now, found, Option.map_some, if_pos rfl]
  obtain ⟨order, shown, members, _⟩ := wf.exists_subtree found
  refine ⟨order, shown, links.subtree_eq wf shown members, fun x inside => ?_⟩
  obtain ⟨hs, climb, met⟩ := (members x).1 inside
  obtain ⟨identity, named⟩ := climb.exists_identity
  have climb' := links.climb climb
  have named' := (links.identity_eq wf (keys x)).trans named
  refine ⟨hs, identity, climb'.lineage_eq, named, named', fun others => ?_⟩
  refine climb'.bundleFor_eq met bundled rfl (fun y onWay differ e there => ?_) named'
  rw [now, Option.map_eq_some_iff] at there
  obtain ⟨e, there, rfl⟩ := there
  rw [if_neg differ]
  exact others y onWay differ e there

/-! ### Installed at the root -/

/-- What becomes of something that the host produced for a request. -/
structure Reenterable (request : Request) (produced entered : Remote) : Prop where
  data : entered.data = produced.data
  rootless : produced.definition.root? = none → entered = produced
  capacity : entered.definition.capacity = produced.definition.capacity
  /-- Only the first definition without an owner, if there is one, is given something. -/
  places : ∀ x, entered.definition.get? x = (produced.definition.get? x).map fun d =>
    if produced.definition.root? = some x then { d with bundle := some request.bundle } else d
  /-- Whoever has no nearer bundle gets the request, constrained to itself below the root. -/
  borrowed : ∀ root, produced.definition.root? = some root →
    ∃ order, produced.definition.subtree root = .ok order ∧
      entered.definition.subtree root = .ok order ∧
      ∀ x ∈ order, ∃ hs identity, entered.definition.lineage x = .ok hs ∧
        produced.definition.identity x = .ok identity ∧
        entered.definition.identity x = .ok identity ∧
        ((∀ y ∈ hs, y ≠ root → ∀ e, produced.definition.get? y = some e → e.bundle = none) →
          entered.definition.bundleFor x = .ok (some { request.bundle with
            constraint := if x = root then none else some identity }))

theorem Reachable.reenterable_installBundle {produced : Remote}
    (reached : Reachable produced.definition) (request : Request) :
    Reenterable request produced (installBundle request.bundle produced) := by
  obtain ⟨f, data⟩ := produced
  have wf : f.WellFormed := reached.consistent.links
  rw [installBundle]
  cases top : f.root? with
  | none =>
    refine ⟨rfl, fun _ => rfl, rfl, fun x => by simp [top], fun root same => ?_⟩
    rw [top] at same
    cases same
  | some root =>
    obtain ⟨d, found, _⟩ := free_of_root? top
    obtain ⟨g, run, capacity, now⟩ :=
      exists_modify found fun d => { d with bundle := some request.bundle }
    simp only [setBundle, run]
    refine ⟨rfl, fun rootless => ?_, capacity, fun x => ?_, fun root' same => ?_⟩
    · rw [top] at rootless
      cases rootless
    · simp only [now, top, Option.some.injEq, eq_comm (a := x)]
    · rw [top] at same
      cases same
      obtain ⟨order, shown, shown', each⟩ := wf.exists_borrowed found now
      refine ⟨order, shown, shown', fun x inside => ?_⟩
      obtain ⟨hs, identity, lineage, named, named', borrows⟩ := each x inside
      refine ⟨hs, identity, lineage, named, named', fun others => (borrows others).trans ?_⟩
      split <;> rfl

/-! ### All results of a request -/

/-- Everything that the host produces for a definition comes back in the same order with the same
data, and can be entered again with the snapshot and the pruned data that the host was given. -/
theorem Reachable.resolveDefinition_reenterable {m : Type → Type} [Monad m]
    (reached : Reachable f) (found : f.get? h = some d) (observers : Observers m) {o : ObserverId}
    (held : d.observer = some o) {resolve : Request → m (List Remote)}
    (there : (observers o).resolveDefinition = some resolve) (data : Data) :
    ∃ snapshot pruned install, f.extract h = .ok snapshot ∧ f.prune h data = .ok pruned ∧
      f.resolveDefinition observers h data =
        .ok (.running do return (← resolve ⟨snapshot, pruned⟩).map install) ∧
      ∀ results : List Remote, (∀ produced ∈ results, Reachable produced.definition) →
        List.Forall₂ (Reenterable ⟨snapshot, pruned⟩) results (results.map install) := by
  obtain ⟨_, snapshot, _, run, _⟩ := reached.consistent.links.exists_extract found
  have pruned : f.prune h data = .ok (data.prune d.paths) := by
    rw [prune, find_eq_ok_iff.2 found]
    rfl
  refine ⟨snapshot, _, installBundle (Request.bundle ⟨snapshot, data.prune d.paths⟩), run, pruned, ?_,
    fun results all => ?_⟩
  · simp only [resolveDefinition, ask, capability_eq observers found, held, there, request, run, pruned,
      Option.bind_some, Option.map_some, Outcome.ok_bind]
    rfl
  · rw [List.forall₂_map_right_iff, List.forall₂_same]
    exact fun produced inside => (all produced inside).reenterable_installBundle _

/-- An input is resolved to a panel with an input and to an empty forest. The panel loses the bundle
that it had, and the input in it is found again by its key. -/
theorem Reachable.resolveDefinition_reenterable_of_input :
    ∃ (f snapshot : Forest) (observers : Observers Id) (panel : Remote), Reachable f ∧
      f.extract ⟨0⟩ = .ok snapshot ∧
      f.resolveDefinition observers ⟨0⟩ [some (.object [("a", .bool true), ("b", .null)])] =
        .ok (.running [panel, ⟨.empty, []⟩]) ∧
      panel.data = [none] ∧
      panel.definition.bundleFor ⟨0⟩ = .ok (some {
        definition := snapshot, data := [some (.object [("a", .bool true)])], constraint := none }) ∧
      panel.definition.bundleFor ⟨1⟩ = .ok (some {
        definition := snapshot, data := [some (.object [("a", .bool true)])]
        constraint := some "remote" }) := by
  let f := Forest.empty.afterAll
    [.insert (.input "" false) "%0%.a" (Content.holders_input "" false), .setObserver ⟨0⟩ ⟨0⟩]
  have reached : Reachable f := Reachable.empty.afterAll _ (by simp [Call.others])
  let plain : Notes := ⟨none, false, false, false, [], false, none, none⟩
  let produced := Forest.empty.afterAll
    [.insert (.panel "") "%0%" (Content.holders_panel ""),
      .insert (.input "" false) "a" (Content.holders_input "" false), .setParent ⟨1⟩ ⟨0⟩,
      .annotate ⟨0⟩ { plain with bundle := some { definition := .empty, data := [] } },
      .annotate ⟨1⟩ { plain with key := some "remote" }]
  have bare : ∀ y, y ≠ ⟨0⟩ → ∀ e, produced.get? y = some e → e.bundle = none := by
    rintro ⟨k⟩ differ e found
    have inside : k < 2 := index_lt_of_get? found
    obtain rfl | rfl : k = 0 ∨ k = 1 := by omega
    · exact absurd rfl differ
    · have without : (produced.get? ⟨1⟩).all (·.bundle.isNone) = true := by decide +kernel
      rw [found] at without
      exact Option.isNone_iff_eq_none.1 without
  let observers : Observers Id := fun _ =>
    { resolveDefinition := some fun _ => [⟨produced, [none]⟩, ⟨.empty, []⟩] }
  obtain ⟨snapshot, pruned, install, run, prunes, asked, all⟩ :=
    Reachable.resolveDefinition_reenterable (h := ⟨0⟩) reached rfl observers rfl rfl
      [some (.object [("a", .bool true), ("b", .null)])]
  have kept : f.prune ⟨0⟩ [some (.object [("a", .bool true), ("b", .null)])] =
      .ok [some (.object [("a", .bool true)])] := rfl
  obtain rfl := Except.ok.inj (kept.symm.trans prunes)
  have each := all [⟨produced, [none]⟩, ⟨.empty, []⟩] (by
    simpa using ⟨Reachable.empty.afterAll _ (by simp [Call.others]), Reachable.empty⟩)
  simp only [List.map_cons, List.map_nil, List.forall₂_cons, List.forall₂_nil_left_iff, and_true] at each
  obtain ⟨first, last⟩ := each
  have same : install ⟨.empty, []⟩ = ⟨.empty, []⟩ := last.rootless rfl
  have root : produced.root? = some ⟨0⟩ := by decide +kernel
  have branch : produced.subtree ⟨0⟩ = .ok [⟨0⟩, ⟨1⟩] := by decide +kernel
  have key : produced.identity ⟨1⟩ = .ok "remote" := by decide +kernel
  obtain ⟨order, shown, _, below⟩ := first.borrowed ⟨0⟩ root
  obtain rfl := Except.ok.inj (branch.symm.trans shown)
  obtain ⟨_, _, _, _, _, top⟩ := below ⟨0⟩ (by simp)
  obtain ⟨_, identity, _, named, _, inner⟩ := below ⟨1⟩ (by simp)
  obtain rfl := Except.ok.inj (key.symm.trans named)
  refine ⟨f, snapshot, observers, install ⟨produced, [none]⟩, reached, run, asked.trans ?_, first.data,
    top fun y _ => bare y, inner fun y _ => bare y⟩
  show Except.ok (Asked.running (m := Id) ([_, _].map install)) = _
  rw [List.map_cons, List.map_singleton, same]

end Forest

end DataBinding
