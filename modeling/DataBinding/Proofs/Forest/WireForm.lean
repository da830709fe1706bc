import DataBinding.Proofs.Blueprint.RoundTrip
import DataBinding.Proofs.Forest.Paths
import DataBinding.Proofs.Forest.Regrowth

/-!
# The JSON form of a branch

A branch without an owner, written as JSON and read into a forest of its own, is the branch again:
every definition in the place of its rank, with all its links and paths, and without what belongs to
the host.
-/

namespace DataBinding

theorem Definition.eq_of_unscoped {F : Type} {d e : Definition F} (same : d.unscoped = e.unscoped)
    (paths : d.paths = e.paths) : d = e := by
  obtain ⟨key, content⟩ := d
  obtain ⟨key', content'⟩ := e
  simp only [unscoped, Definition.mk.injEq] at same
  simp only [Definition.mk.injEq]
  exact ⟨same.1, same.2.1, same.2.2.1, same.2.2.2.1, same.2.2.2.2.1, same.2.2.2.2.2.1,
    same.2.2.2.2.2.2.1, paths, same.2.2.2.2.2.2.2.2⟩

namespace Forest

variable {f g : Forest} {r : Handle} {d : Entry}

/-- `g` holds the given definitions of `f`, each in the place of its rank and linked as before. -/
structure Restored (f g : Forest) (order : List Handle) : Prop where
  distinct : order.Nodup
  closed : ∀ {x : Handle} {d : Entry}, x ∈ order → f.get? x = some d →
    (∀ owner, d.parent = some owner → owner ∈ order) ∧ ∀ o ∈ d.belongings, o ∈ order
  capacity : g.capacity = order.length
  restored : ∀ {k : Nat} {x : Handle}, order[k]? = some x → ∃ d, f.get? x = some d ∧
    g.get? ⟨k⟩ = some (d.regrown (placeFrom 0 order))

/-- A branch without an owner holds whatever its definitions are linked to. -/
theorem WellFormed.closed_of_members (wf : f.WellFormed) (found : f.get? r = some d)
    (free : d.parent = none) {order : List Handle} (members : ∀ x, x ∈ order ↔ f.Within r x)
    {x : Handle} {e : Entry} (inside : x ∈ order) (there : f.get? x = some e) :
    (∀ owner, e.parent = some owner → owner ∈ order) ∧ ∀ o ∈ e.belongings, o ∈ order := by
  have within := (members x).1 inside
  refine ⟨fun owner owned => ?_, fun o owned => ?_⟩
  · rcases within.cases_owner there with rfl | ⟨p, named, above⟩
    · rw [found] at there
      cases there
      rw [free] at owned
      cases owned
    · rw [owned] at named
      cases named
      exact (members owner).2 above
  · exact (members o).2 ((wf.within_of_mem_belongings there owned).trans within)

theorem Grown.paired {place : Handle → Option Handle} {start : Nat} {order : List Handle}
    {k : Forest} (grown : f.Grown g k place order) (placed : PlacedFrom place start order)
    (live : ∀ x ∈ order, ∃ d, f.get? x = some d)
    (closed : ∀ {x : Handle} {d : Entry}, x ∈ order → f.get? x = some d →
      ∀ owner, d.parent = some owner → owner ∈ order) :
    f.Paired k fun x y => x ∈ order ∧ place x = some y := by
  rintro x y ⟨inside, goes⟩
  obtain ⟨d, there⟩ := live x inside
  obtain ⟨y', e, goes', now, same⟩ := grown.new inside there
  rw [goes] at goes'
  cases goes'
  have dataPath := congrArg Definition.dataPath same
  replace dataPath : e.dataPath = d.dataPath := dataPath
  have parent := congrArg Definition.parent same
  replace parent : e.parent = d.parent.bind place := parent
  refine ⟨d, e, there, now, dataPath.symm, ?_⟩
  cases owned : d.parent with
  | none =>
    rw [owned, Option.bind_none] at parent
    exact .inl ⟨rfl, parent⟩
  | some owner =>
    have above := closed inside there owner owned
    obtain ⟨p, goes, _⟩ := placed.exists_place above
    rw [owned, Option.bind_some, goes] at parent
    exact .inr ⟨owner, p, rfl, parent, above, goes⟩

theorem Consistent.exists_restored (consistent : f.Consistent) (found : f.get? r = some d)
    (free : d.parent = none) : ∃ json order g, f.toJson r = .ok json ∧ f.subtree r = .ok order ∧
      ofJson {} json = .ok g ∧ g.Consistent ∧ f.Restored g order := by
  have wf := consistent.links
  obtain ⟨b, read, reads, _, handle⟩ := wf.exists_branch found
  have members : ∀ x, x ∈ b.handles ↔ f.Within r x := fun x => by
    rw [reads.mem_handles_iff wf, handle]
  have distinct : b.handles.Nodup := (reads.ownersFirst wf).nodup
  let place := placeFrom 0 b.handles
  have placed : PlacedFrom place 0 b.handles := fun k x there =>
    (placeFrom_eq_some_iff distinct).2 ⟨k, there, rfl⟩
  have top : b.definition = d := by
    have there := reads.get?_handle
    rw [handle, found] at there
    exact (Option.some.inj there).symm
  obtain ⟨g, run, grown, _⟩ := reads.grows wf Vocabulary.kind?_name empty none .empty placed
    (by rw [top, free]; rfl) trivial
  have grownConsistent : g.Consistent := by
    have planted := Consistent.plantUnder ⟨[]⟩ none .empty b.blueprint
    rwa [run] at planted
  have closed : ∀ {x : Handle} {e : Entry}, x ∈ b.handles → f.get? x = some e →
      (∀ owner, e.parent = some owner → owner ∈ b.handles) ∧ ∀ o ∈ e.belongings, o ∈ b.handles :=
    fun inside there => wf.closed_of_members found free members inside there
  have paired := grown.paired placed (fun x inside => ((members x).1 inside).found)
    fun inside there => (closed inside there).1
  refine ⟨b.blueprint.toJson, b.handles, g, ?_, ?_, ?_, grownConsistent, distinct, closed, ?_, ?_⟩
  · rw [toJson, blueprint, read]
    rfl
  · rw [subtree, read]
    rfl
  · rw [ofJson, Blueprint.ofJson_toJson]
    show ofBlueprint ⟨[]⟩ b.blueprint = .ok g
    rw [ofBlueprint, plant, run]
  · rw [grown.capacity, capacity_empty, Nat.zero_add]
  · intro k x there
    have inside := List.mem_of_getElem? there
    obtain ⟨e, entry⟩ := ((members x).1 inside).found
    obtain ⟨y, e', goes, now, same⟩ := grown.new inside entry
    have place' := placed k x there
    rw [Nat.zero_add] at place'
    rw [place'] at goes
    cases goes
    obtain ⟨hs, climb⟩ := wf.climbs entry
    obtain ⟨others, climb', chain⟩ := climb.dataPaths_eq paired ⟨inside, place'⟩
    have paths : e'.paths = e.paths := by
      rw [climb.paths_eq consistent.paths entry, climb'.paths_eq grownConsistent.paths now, chain]
    refine ⟨e, entry, ?_⟩
    rw [now, Definition.eq_of_unscoped same paths]

/-- Whatever calls have led to a forest, its branches without an owner are written and read back with
nothing lost but what belongs to the host. -/
theorem Reachable.exists_ofJson_toJson (reached : Reachable f) (found : f.get? r = some d)
    (free : d.parent = none) : ∃ json order g, f.toJson r = .ok json ∧ f.subtree r = .ok order ∧
      ofJson {} json = .ok g ∧ f.Restored g order := by
  obtain ⟨json, order, g, written, shown, read, _, restored⟩ :=
    reached.consistent.exists_restored found free
  exact ⟨json, order, g, written, shown, read, restored⟩

theorem Reachable.exists_ofJson_toJson_of_form : ∃ f json g, Reachable f ∧ f.capacity = 4 ∧
    f.toJson ⟨0⟩ = .ok json ∧ f.subtree ⟨0⟩ = .ok [⟨0⟩, ⟨3⟩, ⟨2⟩] ∧ ofJson {} json = .ok g ∧
    f.Restored g [⟨0⟩, ⟨3⟩, ⟨2⟩] := by
  have reached := Reachable.empty.afterAll
    [.insert (.form "title" none none) "a" rfl, .insert (.textItem "old") "" rfl,
      .insert (.textItem "new") "" rfl, .insert (.input "name" true) "b" rfl, .setParent ⟨3⟩ ⟨0⟩,
      .attach ⟨0⟩ .header ⟨1⟩, .attach ⟨0⟩ .header ⟨2⟩] (by simp [Call.others])
  obtain ⟨json, order, g, written, shown, read, restored⟩ :=
    Reachable.exists_ofJson_toJson (r := ⟨0⟩) reached rfl rfl
  have known : Except.ok [⟨0⟩, ⟨3⟩, ⟨2⟩] = (Except.ok order : Except Fault (List Handle)) := shown
  cases known
  exact ⟨_, json, g, reached, rfl, written, shown, read, restored⟩

end Forest

end DataBinding
