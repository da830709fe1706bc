import DataBinding.Proofs.Forest.Inheritance
import DataBinding.Proofs.Host.Storage

/-!
# Bundles stored and entered again

A bundle of a snapshot and of the data pruned for it, stored as JSON and read again, resolves as the
forest that it was taken from.
-/

namespace DataBinding

namespace Forest

variable {f : Forest} {h : Handle} {d : Entry} {data : Data}

/-- A snapshot, written and read, shows the branch in the first places with the paths it had. -/
theorem Consistent.exists_extract_restored (consistent : f.Consistent) (found : f.get? h = some d) :
    ∃ snapshot json order g, f.extract h = .ok snapshot ∧ Bundle.definitionJson snapshot = .ok json ∧
      json ≠ .null ∧ ofJson {} json = .ok g ∧ f.subtree h = .ok order ∧ order[0]? = some h ∧
      (∀ x, x ∈ order ↔ f.Within h x) ∧ g.root? = some ⟨0⟩ ∧
      g.subtree ⟨0⟩ = .ok (firstPlaces order.length) ∧
      ∀ (k : Nat) x e, order[k]? = some x → f.get? x = some e →
        ∃ now, g.get? ⟨k⟩ = some now ∧ now.paths = e.paths := by
  obtain ⟨order, snapshot, _, run, pictures, _⟩ := consistent.links.exists_extract found
  have settled := consistent.extract run
  obtain ⟨top, again, topNow⟩ := pictures.places pictures.top
  rw [if_pos rfl] at topNow
  rw [found] at again
  cases again
  obtain ⟨json, order', g, written, shown', read, resumed, restored⟩ :=
    settled.exists_restored topNow (pictures.parent_top found)
  have shown : snapshot.subtree ⟨0⟩ = .ok (firstPlaces order.length) :=
    settled.links.subtree_first pictures.subtree pictures.sorted.nodup pictures.top pictures.mirrored
  have first : (firstPlaces order.length)[0]? = some ⟨0⟩ := by
    have inside := (List.getElem?_eq_some_iff.1 pictures.top).1
    rw [getElem?_firstPlaces inside]
  rw [shown] at shown'
  cases shown'
  obtain ⟨top, again, root⟩ := restored.restored first
  rw [topNow] at again
  cases again
  have rootFree : (Definition.regrown (placeFrom 0 (firstPlaces order.length))
      (anchored (pictured order d))).parent = none := by
    show (anchored (pictured order d)).parent.bind _ = none
    rw [pictures.parent_top found, Option.bind_none]
  refine ⟨snapshot, json, order, g, run, ?_, ?_, read, pictures.subtree, pictures.top, pictures.members,
    root?_of_first root rootFree, ?_, fun k x e there entry => ?_⟩
  · rw [Bundle.definitionJson, root?_of_first topNow (pictures.parent_top found)]
    exact written
  · rintro rfl
    cases read
  · have shown := resumed.links.subtree_first shown restored.distinct first restored.mirrored
    rwa [length_firstPlaces] at shown
  · obtain ⟨inside, _⟩ := List.getElem?_eq_some_iff.1 there
    obtain ⟨e', again, picture⟩ := pictures.places there
    rw [entry] at again
    cases again
    obtain ⟨e', again, now⟩ := restored.restored (getElem?_firstPlaces inside)
    rw [picture] at again
    cases again
    refine ⟨_, now, ?_⟩
    show (if x = h then anchored (pictured order e) else pictured order e).paths = e.paths
    split
    case isTrue => exact paths_anchored (pictured order e)
    case isFalse => rfl

/-- Whatever calls have led to a forest, a bundle of one of its definitions and of the data that the
definition reads can be stored, and read again to resolve to the same values. So does everything
below that inherits its paths from the definition, rank by rank. -/
theorem Reachable.exists_resumed (reached : Reachable f) (found : f.get? h = some d)
    (present : some .null ∉ data) :
    ∃ snapshot pruned json restored root order others values, f.extract h = .ok snapshot ∧
      f.prune h data = .ok pruned ∧
      Bundle.toJson { definition := snapshot, data := pruned } = .ok json ∧
      Bundle.ofJson {} json = .ok restored ∧ restored.definition.root? = some root ∧
      f.readings h data = .ok values ∧
      restored.definition.readings root restored.data = .ok values ∧
      f.subtree h = .ok order ∧ restored.definition.subtree root = .ok others ∧
      others.length = order.length ∧
      ∀ (k : Nat) x y, order[k]? = some x → others[k]? = some y → f.Inherits h x → ∃ values,
        f.readings x data = .ok values ∧
        restored.definition.readings y restored.data = .ok values := by
  have consistent := reached.consistent
  obtain ⟨snapshot, definition, order, g, run, written, notNull, read, shown, top, members, root,
    shown', paths⟩ := consistent.exists_extract_restored found
  have pruned : f.prune h data = .ok (data.prune d.paths) := by
    rw [prune, find_eq_ok_iff.2 found]
    rfl
  have prunedPresent : some .null ∉ data.prune d.paths := Data.null_notMem_prune present
  obtain ⟨json, stored, entered⟩ := Bundle.exists_stored written
    (fun _ => Bundle.readDefinition_of_ofJson read notNull) prunedPresent none
  have readings : ∀ k x e, order[k]? = some x → f.get? x = some e →
      e.readings (data.prune d.paths) = e.readings data → f.readings x data = .ok (e.readings data) ∧
        g.readings ⟨k⟩ (data.prune d.paths) = .ok (e.readings data) := by
    intro k x e there entry same
    obtain ⟨now, new, kept⟩ := paths k x e there entry
    rw [Forest.readings, Forest.readings, find_eq_ok_iff.2 entry, find_eq_ok_iff.2 new]
    refine ⟨rfl, congrArg Except.ok ?_⟩
    rw [← same]
    show (data.prune d.paths).readings now.paths = (data.prune d.paths).readings e.paths
    rw [kept]
  obtain ⟨before, after⟩ := readings 0 h d top found (consistent.readings_prune_self found data)
  refine ⟨snapshot, _, json, _, _, order, _, _, run, pruned, stored, entered, root, before, after, shown,
    shown', length_firstPlaces _, fun k x y there there' inherits => ?_⟩
  obtain ⟨inside, _⟩ := List.getElem?_eq_some_iff.1 there
  rw [getElem?_firstPlaces inside] at there'
  cases there'
  have within := (members x).1 (List.mem_of_getElem? there)
  obtain ⟨e, entry⟩ := within.found
  obtain ⟨before, after⟩ := readings k x e there entry
    (consistent.readings_prune_below found within inherits entry data)
  exact ⟨_, before, after⟩

private def nested : Forest :=
  empty.afterAll
    [.insert (.panel "") "a" (Content.holders_panel ""),
      .insert (.panel "") "b" (Content.holders_panel ""),
      .insert (.input "" false) "c" (Content.holders_input "" false), .setParent ⟨2⟩ ⟨1⟩,
      .setParent ⟨1⟩ ⟨0⟩]

private theorem inherits_nested : nested.Inherits ⟨1⟩ ⟨2⟩ := by
  refine ⟨[⟨2⟩, ⟨1⟩, ⟨0⟩], _, rfl, rfl, by decide +kernel, fun y inside e found => ?_⟩
  have only : y = ⟨2⟩ := by simpa using inside
  rw [only] at found
  cases found
  exact ⟨by decide, by decide⟩

theorem Reachable.exists_resumed_of_panels : ∃ f read other snapshot json restored root others y,
    Reachable f ∧ f.Inherits ⟨1⟩ ⟨2⟩ ∧ f.extract ⟨1⟩ = .ok snapshot ∧
      f.prune ⟨1⟩ [some (.object [("a", read), ("other", other)]), none] =
        .ok [some (.object [("a", read)]), none] ∧
      Bundle.toJson { definition := snapshot, data := [some (.object [("a", read)]), none] } = .ok json ∧
      Bundle.ofJson {} json = .ok restored ∧ restored.definition.root? = some root ∧
      restored.definition.subtree root = .ok others ∧ others[1]? = some y ∧
      f.readings ⟨2⟩ [some (.object [("a", read), ("other", other)]), none] =
        .ok [.value (.string "text")] ∧
      restored.definition.readings y restored.data = .ok [.value (.string "text")] := by
  have reached : Reachable nested := .afterAll .empty _ (by simp [Call.others])
  let read : Json := .object [("b", .object [("c", .string "text")])]
  have present : some .null ∉ ([some (.object [("a", read), ("other", .null)]), none] : Data) := by
    simp
  obtain ⟨snapshot, pruned, json, restored, root, order, others, _, extracts, prunes, stored, entered,
    top, _, _, shown, shown', size, below⟩ := Reachable.exists_resumed (h := ⟨1⟩) reached rfl present
  have order_eq : Except.ok [⟨1⟩, ⟨2⟩] = (Except.ok order : Except Fault (List Handle)) := shown
  cases order_eq
  have pruned_eq : Except.ok [some (.object [("a", read)]), none] =
    (Except.ok pruned : Except Fault Data) := prunes
  cases pruned_eq
  obtain ⟨y, there⟩ : ∃ y, others[1]? = some y := ⟨_, List.getElem?_eq_getElem (by rw [size]; decide)⟩
  obtain ⟨values, before, after⟩ := below 1 ⟨2⟩ y rfl there inherits_nested
  have values_eq : Except.ok [.value (.string "text")] =
    (Except.ok values : Except Fault (List Reading)) := before
  cases values_eq
  exact ⟨nested, read, .null, snapshot, json, restored, root, others, y, reached, inherits_nested,
    extracts, prunes, stored, entered, top, shown', there, before, after⟩

end Forest

end DataBinding
