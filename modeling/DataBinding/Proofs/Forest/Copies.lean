import DataBinding.Forest.Graft
import DataBinding.Proofs.Forest.Ownership

/-!
# Copies

A copy of a branch is the branch itself in other places. Places are given one to one, so links
inside the branch lead to the copies and the copy is as well formed as what it was taken from. Its
paths are right wherever the owner was copied as well.
-/

namespace DataBinding.Forest

section Places

variable {start : Nat} {order : List Handle} {x y z : Handle}

theorem placeFrom_eq_some_iff (distinct : order.Nodup) :
    placeFrom start order x = some y ↔ ∃ k, order[k]? = some x ∧ y = ⟨start + k⟩ := by
  rw [placeFrom, Option.map_eq_some_iff]
  constructor
  · rintro ⟨k, position, rfl⟩
    obtain ⟨inside, there, _⟩ := List.idxOf?_eq_some_iff.1 position
    exact ⟨k, by rw [List.getElem?_eq_getElem inside, there], rfl⟩
  · rintro ⟨k, there, rfl⟩
    obtain ⟨inside, there⟩ := List.getElem?_eq_some_iff.1 there
    refine ⟨k, List.idxOf?_eq_some_iff.2 ⟨inside, there, fun j earlier same => ?_⟩, rfl⟩
    have position := (distinct.getElem_inj_iff).1 (same.trans there.symm)
    omega

theorem placeFrom_zero_eq_some_iff (distinct : order.Nodup) :
    placeFrom 0 order x = some y ↔ order[y.index]? = some x := by
  rw [placeFrom_eq_some_iff distinct]
  constructor
  · rintro ⟨k, there, rfl⟩
    rwa [Nat.zero_add]
  · intro there
    exact ⟨y.index, there, by rw [Nat.zero_add]⟩

theorem placeFrom_inj (distinct : order.Nodup) (first : placeFrom start order x = some z)
    (second : placeFrom start order y = some z) : x = y := by
  obtain ⟨k, there, rfl⟩ := (placeFrom_eq_some_iff distinct).1 first
  obtain ⟨k', there', same⟩ := (placeFrom_eq_some_iff distinct).1 second
  have position : k = k' := Nat.add_left_cancel (Handle.mk.inj same)
  rw [← position, there] at there'
  exact Option.some.inj there'

theorem exists_placeFrom (start : Nat) (distinct : order.Nodup) (inside : x ∈ order) :
    ∃ y, placeFrom start order x = some y := by
  obtain ⟨k, there⟩ := List.getElem?_of_mem inside
  exact ⟨_, (placeFrom_eq_some_iff distinct).2 ⟨k, there, rfl⟩⟩

end Places

/-- `g` is `f` with copies of some definitions of `source` in the places behind. -/
structure Copied (f source g : Forest) (order : List Handle) : Prop where
  capacity : g.capacity = f.capacity + order.length
  old : ∀ x, x.index < f.capacity → g.get? x = f.get? x
  new : ∀ {k x}, order[k]? = some x → ∃ d, source.get? x = some d ∧
    g.get? ⟨f.capacity + k⟩ = some (d.relocate (placeFrom f.capacity order))

theorem exists_addCopies (f source : Forest) (order : List Handle)
    (live : ∀ x ∈ order, ∃ d, source.get? x = some d) :
    ∃ g, f.addCopies source order = .ok g ∧ f.Copied source g order := by
  have ready : ∀ x ∈ order, ∃ copy : Option Entry,
      (do return some ((← source.find x).relocate (placeFrom f.capacity order))) = Except.ok copy ∧
        ∃ d, source.get? x = some d ∧ copy = some (d.relocate (placeFrom f.capacity order)) := by
    intro x inside
    obtain ⟨d, found⟩ := live x inside
    refine ⟨some (d.relocate (placeFrom f.capacity order)), ?_, d, found, rfl⟩
    rw [find_eq_ok_iff.2 found]
    rfl
  obtain ⟨copies, run, each⟩ := Outcome.exists_mapM_eq_ok ready
  refine ⟨⟨f.places ++ copies.toArray⟩, ?_, ?_, ?_, ?_⟩
  · rw [addCopies, run]
    rfl
  · simp only [capacity, Array.size_append, List.size_toArray, each.length_eq]
  · intro x inside
    rw [get?, get?, Array.getElem?_append_left inside]
  · intro k x there
    obtain ⟨inside, rfl⟩ := List.getElem?_eq_some_iff.1 there
    have inside' : k < copies.length := each.length_eq ▸ inside
    obtain ⟨d, found, copy⟩ := each.get inside inside'
    refine ⟨d, found, ?_⟩
    show ((f.places ++ copies.toArray)[f.places.size + k]?).join = _
    rw [Array.getElem?_append_right (Nat.le_add_right _ _), Nat.add_sub_cancel_left,
      List.getElem?_toArray, List.getElem?_eq_getElem inside']
    exact copy

namespace Copied

variable {f source g : Forest} {order : List Handle}

theorem cases_place (copied : f.Copied source g order) (distinct : order.Nodup) {y : Handle}
    {e : Entry} (now : g.get? y = some e) :
    f.get? y = some e ∨ ∃ x d, placeFrom f.capacity order x = some y ∧ source.get? x = some d ∧
      e = d.relocate (placeFrom f.capacity order) := by
  by_cases before : y.index < f.capacity
  · exact .inl ((copied.old y before).symm.trans now)
  · have inside := index_lt_of_get? now
    rw [copied.capacity] at inside
    obtain ⟨k, rfl⟩ : ∃ k, y = ⟨f.capacity + k⟩ :=
      ⟨y.index - f.capacity, by cases y; simp only [Handle.mk.injEq] at before ⊢; omega⟩
    have room : k < order.length := by
      simp only at inside
      omega
    have there := List.getElem?_eq_getElem room
    obtain ⟨d, found, copy⟩ := copied.new there
    rw [copy] at now
    exact .inr ⟨_, d, (placeFrom_eq_some_iff distinct).2 ⟨k, there, rfl⟩, found,
      (Option.some.inj now).symm⟩

theorem get?_of_placeFrom (copied : f.Copied source g order) (distinct : order.Nodup) {x y : Handle}
    {d : Entry} (placed : placeFrom f.capacity order x = some y) (found : source.get? x = some d) :
    g.get? y = some (d.relocate (placeFrom f.capacity order)) := by
  obtain ⟨k, there, rfl⟩ := (placeFrom_eq_some_iff distinct).1 placed
  obtain ⟨d', again, copy⟩ := copied.new there
  rw [found] at again
  cases again
  exact copy

theorem get?_of_old (copied : f.Copied source g order) {x : Handle} {d : Entry}
    (found : f.get? x = some d) : g.get? x = some d := by
  rw [copied.old x (index_lt_of_get? found), found]

theorem wellFormed (copied : f.Copied source g order) (distinct : order.Nodup) (wf : f.WellFormed)
    (sourceWf : source.WellFormed) : g.WellFormed := by
  constructor
  case owned_names_owner =>
    intro y z e now owned
    rcases copied.cases_place distinct now with there | ⟨x, d, placed, found, rfl⟩
    · obtain ⟨o, below, parent⟩ := wf.owned_names_owner there owned
      exact ⟨o, copied.get?_of_old below, parent⟩
    · rw [Definition.belongings_relocate, List.mem_filterMap] at owned
      obtain ⟨o, listed, place⟩ := owned
      obtain ⟨below, there, parent⟩ := sourceWf.owned_names_owner found listed
      refine ⟨_, copied.get?_of_placeFrom distinct place there, ?_⟩
      rw [Definition.relocate, parent, Option.bind_some, placed]
  case owner_lists_once =>
    intro y p e now owned
    rcases copied.cases_place distinct now with there | ⟨x, d, placed, found, rfl⟩
    · obtain ⟨o, above, once⟩ := wf.owner_lists_once there owned
      exact ⟨o, copied.get?_of_old above, once⟩
    · obtain ⟨owner, parent, place⟩ := Option.bind_eq_some_iff.1 owned
      obtain ⟨o, above, once⟩ := sourceWf.owner_lists_once found parent
      refine ⟨_, copied.get?_of_placeFrom distinct place above, ?_⟩
      rw [Definition.belongings_relocate, List.count_filterMap, ← once, List.count_eq_countP]
      refine List.countP_congr fun a _ => ?_
      rw [beq_iff_eq, beq_iff_eq]
      constructor
      · exact fun same => placeFrom_inj distinct same placed
      · rintro rfl
        exact placed
  case isContainer_of_children =>
    intro y e now hne
    rcases copied.cases_place distinct now with there | ⟨x, d, placed, found, rfl⟩
    · exact wf.isContainer_of_children there hne
    · have children : d.children ≠ [] := by
        intro hnil
        apply hne
        rw [Definition.relocate, hnil, List.filterMap_nil]
      rw [Definition.isContainer, Content.isContainer, Definition.relocate, Content.kind_mapHolders]
      exact sourceWf.isContainer_of_children found children
  case climbs =>
    intro y e now
    rcases copied.cases_place distinct now with there | ⟨x, d, placed, found, rfl⟩
    · obtain ⟨hs, climb⟩ := wf.climbs there
      exact ⟨hs, climb.carry fun z _ o old => ⟨o, copied.get?_of_old old, rfl⟩⟩
    · obtain ⟨hs, climb⟩ := sourceWf.climbs found
      -- a climb in the source ends in the copy where it leaves what was copied
      clear now found
      induction climb generalizing y with
      | top found free =>
        refine ⟨_, .top (copied.get?_of_placeFrom distinct placed found) ?_⟩
        rw [Definition.relocate, free, Option.bind_none]
      | @up x owner d above found owned rest ih =>
        have now := copied.get?_of_placeFrom distinct placed found
        cases place : placeFrom f.capacity order owner with
        | none =>
          refine ⟨_, .top now ?_⟩
          rw [Definition.relocate, owned, Option.bind_some, place]
        | some p =>
          obtain ⟨hs, onward⟩ := ih place
          refine ⟨_, .up now ?_ onward⟩
          rw [Definition.relocate, owned, Option.bind_some, place]

/-- The paths of a copy are right when those it was taken from are and its owner was copied too. -/
theorem scopedAt (copied : f.Copied source g order) (distinct : order.Nodup) (paths : f.Scoped)
    (sourcePaths : source.Scoped) {y : Handle}
    (whole : ∀ x d owner, placeFrom f.capacity order x = some y → source.get? x = some d →
      d.parent = some owner → owner ∈ order) : g.ScopedAt y := by
  intro e now
  rcases copied.cases_place distinct now with there | ⟨x, d, placed, found, rfl⟩
  · obtain ⟨above, under, anchored⟩ := paths y e there
    refine ⟨above, scopeAbove_congr under rfl fun owner owned => ?_, anchored⟩
    rw [scopeAbove, owned] at under
    obtain ⟨o, ownerFound, _⟩ := Outcome.map_eq_ok_iff.1 under
    rw [find_eq_ok_iff] at ownerFound
    rw [copied.get?_of_old ownerFound, ownerFound]
  · obtain ⟨above, under, anchored⟩ := sourcePaths x d found
    refine ⟨above, ?_, anchored⟩
    cases parent : d.parent with
    | none =>
      rw [scopeAbove_of_free parent] at under
      rw [← under]
      refine scopeAbove_of_free ?_
      rw [Definition.relocate, parent, Option.bind_none]
    | some owner =>
      obtain ⟨p, place⟩ := exists_placeFrom f.capacity distinct
        (whole x d owner placed found parent)
      rw [scopeAbove, parent] at under
      obtain ⟨o, ownerFound, scope⟩ := Outcome.map_eq_ok_iff.1 under
      rw [find_eq_ok_iff] at ownerFound
      rw [← scope]
      show g.scopeAbove _ = .ok (o.relocate (placeFrom f.capacity order)).scope
      refine scopeAbove_of_owner ?_ (copied.get?_of_placeFrom distinct place ownerFound)
      rw [Definition.relocate, parent, Option.bind_some, place]

end Copied

end DataBinding.Forest
