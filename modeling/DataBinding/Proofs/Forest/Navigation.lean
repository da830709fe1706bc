import DataBinding.Proofs.Forest.Reachable

/-!
# Down and up

A branch is gone through with a stack: whoever is on top is listed next and makes room for what it
owns. What that lists is the definition and then the branches that it owns one after the other, and it
holds exactly the definitions whose lineage passes the one at the top.
-/

namespace DataBinding.Forest

variable {f : Forest} {h x : Handle} {d : Entry}

/-! ### Walks with a stack -/

/-- Lists the definition on top of a stack and puts what it owns in its place, the first one
uppermost, until the stack is empty. No more definitions are listed than there are steps. -/
def drain (f : Forest) : Nat → List Handle → Except Fault (List Handle)
  | _, [] => .ok []
  | 0, h :: _ => .error (.endless h)
  | steps + 1, h :: pending => do
    let owned ← f.owned h
    return h :: (← f.drain steps (owned ++ pending))

/-- The walk through a branch. No branch shows more definitions than the forest has places. -/
def walk (f : Forest) (h : Handle) : Except Fault (List Handle) :=
  f.drain f.capacity [h]

theorem owned_eq (found : f.get? h = some d) : f.owned h = .ok d.belongings := by
  rw [owned, find_eq_ok_iff.2 found]
  rfl

theorem drain_nil (f : Forest) (steps : Nat) : f.drain steps [] = .ok [] := by
  cases steps <;> rfl

theorem drain_cons (found : f.get? h = some d) (steps : Nat) (pending : List Handle) :
    f.drain (steps + 1) (h :: pending) =
      (f.drain steps (d.belongings ++ pending)).map ([h] ++ ·) := by
  rw [drain, owned_eq found, Outcome.ok_bind]
  cases f.drain steps (d.belongings ++ pending) <;> rfl

private theorem map_append_map (outcome : Except Fault (List Handle)) (first later : List Handle) :
    (outcome.map (later ++ ·)).map (first ++ ·) = outcome.map (first ++ later ++ ·) := by
  cases outcome with
  | ok rest => exact congrArg Except.ok (List.append_assoc first later rest).symm
  | error e => rfl

private theorem drain_flatMap {branches : List Branch}
    (each : ∀ b ∈ branches, ∀ steps pending, f.drain (b.handles.length + steps) (b.handle :: pending) =
      (f.drain steps pending).map (b.handles ++ ·)) (steps : Nat) (pending : List Handle) :
    f.drain ((branches.flatMap Branch.handles).length + steps)
        (branches.map Branch.handle ++ pending) =
      (f.drain steps pending).map (branches.flatMap Branch.handles ++ ·) := by
  induction branches with
  | nil =>
    rw [List.flatMap_nil, List.length_nil, Nat.zero_add, List.map_nil, List.nil_append]
    cases f.drain steps pending <;> rfl
  | cons b rest ih =>
    rw [List.forall_mem_cons] at each
    rw [List.flatMap_cons, List.length_append, Nat.add_assoc, List.map_cons, List.cons_append,
      each.1, ih each.2, map_append_map]

/-- A walk lists the branch of whoever is on top of the stack before it goes on with the others. -/
theorem Reads.drain_eq {b : Branch} (reads : f.Reads b) (steps : Nat) (pending : List Handle) :
    f.drain (b.handles.length + steps) (b.handle :: pending) =
      (f.drain steps pending).map (b.handles ++ ·) := by
  induction reads generalizing steps pending with
  | @mk role h d owned found listed each ih =>
    have whole : f.Reads (.mk role h d owned) := .mk found listed each
    have size : (Branch.mk role h d owned).handles.length + steps =
        (owned.flatMap Branch.handles).length + steps + 1 := by
      rw [Branch.handles_mk, List.length_cons]
      omega
    rw [size, Branch.handle, drain_cons found, whole.belongings_eq, drain_flatMap ih, map_append_map,
      Branch.handles_mk]
    rfl

theorem Reads.walk_eq (wf : f.WellFormed) {b : Branch} (reads : f.Reads b) :
    f.walk b.handle = .ok b.handles := by
  have room := length_le_capacity_of_nodup (reads.ownersFirst wf).nodup fun x shown =>
    ((reads.mem_handles_iff wf).1 shown).found
  obtain ⟨spare, size⟩ := Nat.exists_eq_add_of_le room
  rw [walk, size, reads.drain_eq, drain_nil]
  exact congrArg Except.ok (List.append_nil _)

/-! ### Walks by recursion -/

/-- The role that a branch was read in does not matter for what it shows. -/
theorem Reads.subtree_eq (wf : f.WellFormed) {b : Branch} (reads : f.Reads b) :
    f.subtree b.handle = .ok b.handles := by
  obtain ⟨own, h, d, owned⟩ := b
  obtain ⟨found, listed, each⟩ := reads
  have plain : f.Reads (.mk none h d owned) := .mk found listed each
  obtain ⟨c, read, shows, role, handle⟩ := wf.exists_branch found
  rw [subtree, Branch.handle, read, shows.unique plain role handle]
  simp only [Except.map, Branch.handles_mk]

theorem Reads.exists_subtrees (wf : f.WellFormed) {b : Branch} (reads : f.Reads b) :
    ∃ owned pieces, f.owned b.handle = .ok owned ∧
      List.Forall₂ (fun x piece => f.subtree x = .ok piece) owned pieces ∧
      b.handles = b.handle :: pieces.flatten := by
  obtain ⟨role, h, d, owned⟩ := b
  have belongings := reads.belongings_eq
  obtain ⟨found, listed, each⟩ := reads
  refine ⟨_, owned.map Branch.handles, owned_eq found, ?_, Branch.handles_mk role h d owned⟩
  rw [belongings, List.forall₂_map_left_iff, List.forall₂_map_right_iff, List.forall₂_same]
  exact fun b inside => (each b inside).subtree_eq wf

/-! ### Up again -/

/-- In a list with owners first, whoever is below the top comes somewhere behind its owner. -/
theorem OwnersFirst.exists_owner_before {order : List Handle} (sorted : f.OwnersFirst order)
    (members : ∀ x, x ∈ order ↔ f.Within h x) (inside : x ∈ order) (below : x ≠ h) :
    ∃ d owner before after, f.get? x = some d ∧ d.parent = some owner ∧
      order = before ++ x :: after ∧ owner ∈ before := by
  have within := (members x).1 inside
  obtain ⟨d, found⟩ := within.found
  obtain ⟨owner, owned, above⟩ := (within.cases_owner found).resolve_left below
  obtain ⟨before, after, rfl⟩ := List.append_of_mem inside
  refine ⟨d, owner, before, after, found, owned, rfl, ?_⟩
  rcases List.mem_append.1 ((members owner).2 above) with earlier | later
  · exact earlier
  · obtain ⟨_, behind, _⟩ := List.pairwise_append.1 sorted
    rcases List.mem_cons.1 later with rfl | later
    · obtain ⟨hs, climb, _⟩ := within
      exact absurd (.refl climb) (Within.not_owner found owned)
    · exact absurd owned (((List.pairwise_cons.1 behind).1 owner later).2 d found)

/-- Whoever is passed on the way up is around, whatever the way starts from. -/
theorem WellFormed.exists_lineage (wf : f.WellFormed) (found : f.get? h = some d) (x : Handle) :
    ∃ up, f.lineage x = .ok up ∧ (f.Within h x ↔ h ∈ up) := by
  cases there : f.get? x with
  | none =>
    refine ⟨[x], by rw [lineage, lineageWithin, there]; rfl, fun within => ?_, fun met => ?_⟩
    · obtain ⟨e, now⟩ := within.found
      rw [there] at now
      cases now
    · rw [List.mem_singleton.1 met, there] at found
      cases found
  | some e =>
    obtain ⟨up, climb⟩ := wf.climbs there
    refine ⟨up, climb.lineage_eq, ?_, fun met => ⟨up, climb, met⟩⟩
    rintro ⟨others, again, met⟩
    rwa [again.unique climb] at met

/-- What a branch shows is whoever has its top in the lineage, each once and behind its owner: the top
and then, one after the other, the subtrees of what it owns. A walk with a stack comes to the same. -/
theorem Reachable.subtree_lineage_agree (reached : Reachable f) (found : f.get? h = some d) :
    ∃ order owned pieces, f.subtree h = .ok order ∧ f.walk h = .ok order ∧
      (∀ x, ∃ up, f.lineage x = .ok up ∧ (x ∈ order ↔ h ∈ up)) ∧ order.Nodup ∧
      (∀ x ∈ order, x ≠ h → ∃ e owner before after, f.get? x = some e ∧ e.parent = some owner ∧
        order = before ++ x :: after ∧ owner ∈ before) ∧
      f.owned h = .ok owned ∧ List.Forall₂ (fun x piece => f.subtree x = .ok piece) owned pieces ∧
      order = h :: pieces.flatten := by
  have wf := reached.consistent.links
  obtain ⟨b, _, reads, _, rfl⟩ := wf.exists_branch found
  obtain ⟨owned, pieces, owns, below, split⟩ := reads.exists_subtrees wf
  have members : ∀ x, x ∈ b.handles ↔ f.Within b.handle x := fun x => reads.mem_handles_iff wf
  have sorted := reads.ownersFirst wf
  refine ⟨b.handles, owned, pieces, reads.subtree_eq wf, reads.walk_eq wf, fun x => ?_, sorted.nodup,
    fun x inside apart => sorted.exists_owner_before members inside apart, owns, below, split⟩
  obtain ⟨up, above, within⟩ := wf.exists_lineage found x
  exact ⟨up, above, (members x).trans within⟩

private def layeredForm : Forest :=
  empty.afterAll
    [.insert (.form "" none none) "" (Content.holders_form ""),
      .insert (.panel "") "" (Content.holders_panel ""),
      .insert (.panel "") "" (Content.holders_panel ""),
      .insert (.input "" false) "" (Content.holders_input "" false),
      .attach ⟨0⟩ .header ⟨1⟩, .setParent ⟨3⟩ ⟨2⟩, .setParent ⟨2⟩ ⟨0⟩]

/-- The header comes behind the panel and everything in it. -/
theorem Reachable.subtree_lineage_agree_of_form : ∃ f, Reachable f ∧
    f.subtree ⟨0⟩ = .ok [⟨0⟩, ⟨2⟩, ⟨3⟩, ⟨1⟩] ∧ f.walk ⟨0⟩ = .ok [⟨0⟩, ⟨2⟩, ⟨3⟩, ⟨1⟩] ∧
    f.owned ⟨0⟩ = .ok [⟨2⟩, ⟨1⟩] ∧ f.subtree ⟨2⟩ = .ok [⟨2⟩, ⟨3⟩] ∧
    (∃ up, f.lineage ⟨3⟩ = .ok up ∧ ⟨0⟩ ∈ up) ∧ ∃ e owner before after, f.get? ⟨3⟩ = some e ∧
      e.parent = some owner ∧ [⟨0⟩, ⟨2⟩, ⟨3⟩, ⟨1⟩] = before ++ ⟨3⟩ :: after ∧ owner ∈ before := by
  have reached : Reachable layeredForm := .afterAll .empty _ (by simp [Call.others])
  have shown : layeredForm.subtree ⟨0⟩ = .ok [⟨0⟩, ⟨2⟩, ⟨3⟩, ⟨1⟩] := by decide +kernel
  have lists : layeredForm.owned ⟨0⟩ = .ok [⟨2⟩, ⟨1⟩] := by decide +kernel
  obtain ⟨order, owned, pieces, run, walks, lineages, _, behind, owns, below, split⟩ :=
    Reachable.subtree_lineage_agree (h := ⟨0⟩) reached rfl
  cases shown.symm.trans run
  cases lists.symm.trans owns
  obtain ⟨up, above, passes⟩ := lineages ⟨3⟩
  have panel : layeredForm.subtree ⟨2⟩ = .ok [⟨2⟩, ⟨3⟩] := by decide +kernel
  exact ⟨layeredForm, reached, shown, walks, lists, panel, ⟨up, above, passes.1 (by decide)⟩,
    behind ⟨3⟩ (by decide) (by decide)⟩

end DataBinding.Forest
