import DataBinding.Proofs.Binding.Pruning
import DataBinding.Proofs.Forest.Frames

/-!
# Inherited paths

A part without an anchor goes on from the first path of the owner. Where this is so all the way up to
a definition, every path below extends the first path there, and reads the same from data that was
pruned for that definition.
-/

namespace DataBinding

def Definition.GoesOn {F : Type} (d : Definition F) : Prop :=
  d.hasDataPath = true ∧ Path.isAnchored ((Path.parts d.dataPath).headD "") = false

namespace Forest

/-- No part of the data path at `x` has an anchor, and from there up to `h` definitions go on from
their owners. -/
def Inherits (f : Forest) (h x : Handle) : Prop :=
  ∃ hs d, f.lineage x = .ok hs ∧ f.get? x = some d ∧
    (∀ part ∈ Path.parts d.dataPath, Path.isAnchored part = false) ∧
    ∀ y ∈ hs.takeWhile (· ≠ h), ∀ e, f.get? y = some e → e.GoesOn

private theorem takeWhile_cons {x h : Handle} (differ : x ≠ h) (above : List Handle) :
    (x :: above).takeWhile (· ≠ h) = x :: above.takeWhile (· ≠ h) := by
  rw [List.takeWhile_cons, if_pos (decide_eq_true differ)]

namespace Consistent

variable {f : Forest} {h x owner : Handle} {d e o : Entry}

theorem paths_of_owner (consistent : f.Consistent) (found : f.get? x = some e)
    (owned : e.parent = some owner) (ownerFound : f.get? owner = some o)
    (present : e.hasDataPath = true) {first : String} (scope : o.paths.head? = some first) :
    e.paths = (Path.parts e.dataPath).map (Path.anchor (some first)) := by
  obtain ⟨above, under, paths⟩ := consistent.paths x e found
  rw [scopeAbove_of_owner owned ownerFound, Definition.scope, scope] at under
  cases under
  rw [paths]
  exact Path.normalize_of_present (by simpa [Definition.hasDataPath] using present) _

/-- Going on all the way up extends the first path at the end of the way. -/
theorem exists_first_path (consistent : f.Consistent) (found : f.get? h = some d) {path : String}
    (scope : d.paths.head? = some path) {hs : List Handle} (climb : f.Climb x hs) (below : h ∈ hs)
    (goesOn : ∀ y ∈ hs.takeWhile (· ≠ h), ∀ e, f.get? y = some e → e.GoesOn)
    (there : f.get? x = some e) :
    ∃ first, e.paths.head? = some first ∧ Path.Extends path first := by
  induction climb generalizing e with
  | @top x e' again free =>
    rw [List.mem_singleton.1 below, there] at found
    cases found
    exact ⟨path, scope, .refl path⟩
  | @up x owner e' above again owned rest ih =>
    rw [there] at again
    cases again
    by_cases same : x = h
    · rw [same] at there
      rw [found] at there
      cases there
      exact ⟨path, scope, .refl path⟩
    · obtain ⟨o, ownerFound⟩ := rest.found
      have later : h ∈ above := (List.mem_cons.1 below).resolve_left (Ne.symm same)
      rw [takeWhile_cons same] at goesOn
      obtain ⟨present, relative⟩ := goesOn x List.mem_cons_self _ there
      obtain ⟨first, ownerScope, extends_⟩ :=
        ih later (fun y inside => goesOn y (List.mem_cons_of_mem _ inside)) ownerFound
      have settled := consistent.settled ownerFound first (List.mem_of_mem_head? ownerScope)
      rw [consistent.paths_of_owner there owned ownerFound present ownerScope]
      obtain ⟨part, more, parts⟩ := List.exists_cons_of_ne_nil (Path.parts_ne_nil e'.dataPath)
      rw [parts, List.headD_cons] at relative
      rw [parts]
      refine ⟨_, rfl, ?_⟩
      rw [Path.anchor_of_relative settled relative]
      exact extends_.trans (.join settled.ne_empty part)

theorem readings_prune_self (consistent : f.Consistent) (found : f.get? h = some d) (data : Data) :
    d.readings (data.prune d.paths) = d.readings data := by
  by_cases hnil : d.paths = []
  · rw [hnil, Data.prune_nil]
  · exact Data.readings_prune hnil fun path inside =>
      ⟨path, inside, (consistent.settled found path inside).anchored, .refl path⟩

/-- Data pruned for a definition reads the same at whatever inherits from there. -/
theorem readings_prune_below (consistent : f.Consistent) (found : f.get? h = some d)
    (within : f.Within h x) (inherits : f.Inherits h x) (there : f.get? x = some e) (data : Data) :
    e.readings (data.prune d.paths) = e.readings data := by
  obtain ⟨hs, climb, below⟩ := within
  obtain ⟨hs', e', lineage, again, relative, goesOn⟩ := inherits
  rw [climb.lineage_eq] at lineage
  cases lineage
  rw [there] at again
  cases again
  by_cases same : x = h
  · rw [same, found] at there
    cases there
    exact consistent.readings_prune_self found data
  cases scope : d.paths.head? with
  | none => rw [List.head?_eq_none_iff.1 scope, Data.prune_nil]
  | some path =>
    cases climb with
    | top again free => exact absurd (List.mem_singleton.1 below).symm same
    | @up _ owner e' above again owned rest =>
      rw [there] at again
      cases again
      obtain ⟨o, ownerFound⟩ := rest.found
      have later : h ∈ above := (List.mem_cons.1 below).resolve_left (Ne.symm same)
      rw [takeWhile_cons same] at goesOn
      obtain ⟨present, _⟩ := goesOn x List.mem_cons_self _ there
      obtain ⟨first, ownerScope, extends_⟩ := consistent.exists_first_path found scope rest later
        (fun y inside => goesOn y (List.mem_cons_of_mem _ inside)) ownerFound
      have settled := consistent.settled ownerFound first (List.mem_of_mem_head? ownerScope)
      have listed := List.mem_of_mem_head? scope
      have paths := consistent.paths_of_owner there owned ownerFound present ownerScope
      refine Data.readings_prune ?_ fun path' inside => ?_
      · rw [paths]
        exact fun hnil => Path.parts_ne_nil _ (List.map_eq_nil_iff.1 hnil)
      · rw [paths] at inside
        obtain ⟨part, listed', rfl⟩ := List.mem_map.1 inside
        refine ⟨path, listed, (consistent.settled found path listed).anchored, ?_⟩
        rw [Path.anchor_of_relative settled (relative part listed')]
        exact extends_.trans (.join settled.ne_empty part)

end Consistent

end Forest

end DataBinding
