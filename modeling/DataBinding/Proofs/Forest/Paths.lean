import DataBinding.Proofs.Forest.Reachable

/-!
# Paths as a function of data paths

The paths that a forest keeps follow from the data paths along the lineage. How the forest came about
leaves no trace in them: two forests whose definitions can be paired with their owners keep the same
paths.
-/

namespace DataBinding.Forest

variable {f g : Forest}

/-- What a definition is scoped under, without the walk to its owner. -/
theorem scope_of_scopeAbove {d : Entry} {above : Option String} (under : f.scopeAbove d = .ok above) :
    (d.parent.bind f.get?).bind Definition.scope = above := by
  cases owned : d.parent with
  | none =>
    rw [scopeAbove_of_free owned] at under
    cases under
    rfl
  | some owner =>
    rw [scopeAbove, owned] at under
    obtain ⟨o, found, scope⟩ := Outcome.map_eq_ok_iff.1 under
    rw [Option.bind_some, find_eq_ok_iff.1 found, Option.bind_some, scope]

theorem Scoped.paths_eq (paths : f.Scoped) {h : Handle} {d : Entry} (found : f.get? h = some d) :
    d.paths = Path.normalize d.dataPath ((d.parent.bind f.get?).bind Definition.scope) := by
  obtain ⟨above, under, anchored⟩ := paths h d found
  rw [anchored, scope_of_scopeAbove under]

def dataPaths (f : Forest) (hs : List Handle) : List String :=
  hs.filterMap fun h => (f.get? h).map (·.dataPath)

theorem Climb.paths_eq {h : Handle} {hs : List Handle} (climb : f.Climb h hs) (paths : f.Scoped)
    {d : Entry} (found : f.get? h = some d) : d.paths = Path.along (f.dataPaths hs) := by
  induction climb generalizing d with
  | @top h e there free =>
    rw [there] at found
    cases found
    rw [paths.paths_eq there, free]
    simp [dataPaths, there, Path.along]
  | @up h owner e above there owned rest ih =>
    rw [there] at found
    cases found
    obtain ⟨o, ownerFound⟩ := rest.found
    have chain : f.dataPaths (h :: above) = e.dataPath :: f.dataPaths above := by
      simp [dataPaths, there]
    rw [paths.paths_eq there, owned, Option.bind_some, ownerFound, Option.bind_some, Definition.scope,
      ih ownerFound, chain, Path.along]

/-- Definitions of two forests are paired: their data paths are the same, and their owners are paired
or they have none. -/
def Paired (f g : Forest) (pair : Handle → Handle → Prop) : Prop :=
  ∀ x y, pair x y → ∃ d e, f.get? x = some d ∧ g.get? y = some e ∧ d.dataPath = e.dataPath ∧
    (d.parent = none ∧ e.parent = none ∨
      ∃ p q, d.parent = some p ∧ e.parent = some q ∧ pair p q)

/-- Paired definitions stand under the same data paths. -/
theorem Climb.dataPaths_eq {pair : Handle → Handle → Prop} (paired : f.Paired g pair) {x y : Handle}
    {hs : List Handle} (climb : f.Climb x hs) (both : pair x y) :
    ∃ others, g.Climb y others ∧ f.dataPaths hs = g.dataPaths others := by
  induction climb generalizing y with
  | @top x d' found free =>
    obtain ⟨d, e, there, there', dataPath, owners⟩ := paired x y both
    rw [found] at there
    cases there
    rcases owners with ⟨_, free'⟩ | ⟨p, q, owned, _⟩
    · exact ⟨_, .top there' free', by simp [dataPaths, found, there', dataPath]⟩
    · rw [free] at owned
      cases owned
  | @up x owner d' above found owned rest ih =>
    obtain ⟨d, e, there, there', dataPath, owners⟩ := paired x y both
    rw [found] at there
    cases there
    rcases owners with ⟨free, _⟩ | ⟨p, q, owned', owned'', upper⟩
    · rw [owned] at free
      cases free
    · rw [owned] at owned'
      cases owned'
      obtain ⟨others, onward, chain⟩ := ih upper
      refine ⟨_, .up there' owned'' onward, ?_⟩
      simp only [dataPaths] at chain
      simp [dataPaths, found, there', dataPath, chain]

/-- In a reachable forest the kept paths are those that the data path has under the first path of the
owner. So they follow from the data paths along the lineage, and two reachable forests in which the
definitions can be paired keep the same paths, whatever calls led to them. -/
theorem Reachable.paths_determined (reached : Reachable f) :
    (∀ h d, f.get? h = some d →
      d.paths = Path.normalize d.dataPath ((d.parent.bind f.get?).bind Definition.scope)) ∧
    (∀ h d, f.get? h = some d →
      ∃ hs, f.lineage h = .ok hs ∧ d.paths = Path.along (f.dataPaths hs)) ∧
    ∀ g pair, Reachable g → f.Paired g pair → ∀ x y d e, pair x y → f.get? x = some d →
      g.get? y = some e → d.paths = e.paths := by
  have consistent := reached.consistent
  refine ⟨fun h d found => consistent.paths.paths_eq found, fun h d found => ?_, ?_⟩
  · obtain ⟨hs, climb⟩ := consistent.links.climbs found
    exact ⟨hs, climb.lineage_eq, climb.paths_eq consistent.paths found⟩
  · intro g pair reached' paired x y d e both found there
    obtain ⟨hs, climb⟩ := consistent.links.climbs found
    obtain ⟨others, climb', chain⟩ := climb.dataPaths_eq paired both
    rw [climb.paths_eq consistent.paths found, climb'.paths_eq reached'.consistent.paths there, chain]

theorem Reachable.paths_determined_of_panels : ∃ f g d e, Reachable f ∧ Reachable g ∧
    f.get? ⟨2⟩ = some d ∧ g.get? ⟨2⟩ = some e ∧ d.paths = ["%0%.a.b.c"] ∧ d.paths = e.paths := by
  have bottomUp := Reachable.empty.afterAll
    [.insert (.panel "") "a" rfl, .insert (.panel "") "b" rfl, .insert (.input "" false) "c" rfl,
      .setParent ⟨2⟩ ⟨1⟩, .setParent ⟨1⟩ ⟨0⟩] (by simp [Call.others])
  have other := Reachable.empty.afterAll
    [.insert (.panel "") "" rfl, .insert (.input "" false) "c" rfl, .setParent ⟨1⟩ ⟨0⟩,
      .setDataPath ⟨0⟩ "b"] (by simp [Call.others])
  have grafted := Reachable.call (.graft ⟨0⟩ _)
    (Reachable.empty.afterAll [.insert (.panel "") "a" rfl] (by simp [Call.others]))
    fun _ inside => List.mem_singleton.1 inside ▸ other
  obtain ⟨_, _, same⟩ := Reachable.paths_determined bottomUp
  refine ⟨_, _, _, _, bottomUp, grafted, rfl, rfl, rfl, ?_⟩
  refine same _ (fun x y => x = y ∧ (x = ⟨0⟩ ∨ x = ⟨1⟩ ∨ x = ⟨2⟩)) grafted ?_ ⟨2⟩ ⟨2⟩ _ _
    ⟨rfl, .inr (.inr rfl)⟩ rfl rfl
  rintro x _ ⟨rfl, rfl | rfl | rfl⟩
  · exact ⟨_, _, rfl, rfl, rfl, .inl ⟨rfl, rfl⟩⟩
  · exact ⟨_, _, rfl, rfl, rfl, .inr ⟨⟨0⟩, ⟨0⟩, rfl, rfl, rfl, .inl rfl⟩⟩
  · exact ⟨_, _, rfl, rfl, rfl, .inr ⟨⟨1⟩, ⟨1⟩, rfl, rfl, rfl, .inr (.inl rfl)⟩⟩

end DataBinding.Forest
