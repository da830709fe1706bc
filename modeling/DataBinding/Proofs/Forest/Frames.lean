import DataBinding.Proofs.Forest.Ownership
import DataBinding.Proofs.Path.Scope

/-!
# Frames

The frame of a definition is all that the consistency of a forest depends on: its links, its data
path and its anchored paths. Changes of anything else keep a forest consistent.
-/

namespace DataBinding

/-- What it takes for a definition to have its place and its paths. -/
def Definition.frame {F : Type} (d : Definition F) : Links × String × List String :=
  (d.links, d.dataPath, d.paths)

namespace Forest

/-- The same definitions in the same places, as far as links and paths go. -/
def SameFrames (f g : Forest) : Prop :=
  ∀ h, (g.get? h).map Definition.frame = (f.get? h).map Definition.frame

namespace SameFrames

variable {f g : Forest}

theorem refl (f : Forest) : f.SameFrames f :=
  fun _ => rfl

theorem trans {k : Forest} (first : f.SameFrames g) (second : g.SameFrames k) : f.SameFrames k :=
  fun h => (second h).trans (first h)

theorem sameLinks (same : f.SameFrames g) : f.SameLinks g :=
  fun h => map_of_map_eq (same h) Prod.fst

theorem exists_of_get? (same : f.SameFrames g) {h : Handle} {e : Entry} (now : g.get? h = some e) :
    ∃ d, f.get? h = some d ∧ d.frame = e.frame :=
  exists_of_map_eq (same h).symm now

theorem scopedAt (same : f.SameFrames g) {h : Handle} (paths : f.ScopedAt h) : g.ScopedAt h := by
  intro e now
  obtain ⟨d, found, frame⟩ := same.exists_of_get? now
  simp only [Definition.frame, Prod.mk.injEq, Definition.links_eq_iff] at frame
  obtain ⟨above, under, anchored⟩ := paths d found
  refine ⟨above, scopeAbove_congr under frame.1.1.symm fun owner _ => ?_, ?_⟩
  · exact map_of_map_eq (same owner) fun frame => frame.2.2.head?
  · rw [← frame.2.1, ← frame.2.2, anchored]

end SameFrames

theorem Consistent.congr {f g : Forest} (consistent : f.Consistent) (same : f.SameFrames g) :
    g.Consistent where
  links := consistent.links.congr same.sameLinks
  paths h := same.scopedAt (consistent.paths h)

theorem sameFrames_put {f : Forest} {h : Handle} {d e : Entry} (found : f.get? h = some d)
    (frame : e.frame = d.frame) : f.SameFrames (f.put h (some e)) :=
  map_get?_put found frame

/-- Every path that a consistent forest keeps has an anchor, no comma and no white space around
it. -/
theorem Consistent.settled {f : Forest} (consistent : f.Consistent) {h : Handle} {d : Entry}
    (found : f.get? h = some d) : ∀ path ∈ d.paths, Path.Settled path := by
  obtain ⟨hs, climb⟩ := consistent.links.climbs found
  -- from the top down: the path above is one that scoping left
  induction climb generalizing d with
  | @top h e there free =>
    rw [there] at found
    cases found
    obtain ⟨above, under, anchored⟩ := consistent.paths h _ there
    rw [scopeAbove_of_free free] at under
    cases under
    intro path inside
    rw [anchored] at inside
    exact Path.settled_of_mem_normalize (by simp) inside
  | @up h owner e above there owned rest ih =>
    rw [there] at found
    cases found
    obtain ⟨o, ownerFound⟩ := rest.found
    obtain ⟨above, under, anchored⟩ := consistent.paths h _ there
    rw [scopeAbove_of_owner owned ownerFound] at under
    cases under
    intro path inside
    rw [anchored] at inside
    refine Path.settled_of_mem_normalize (fun scope first => ih ownerFound scope ?_) inside
    exact List.mem_of_mem_head? first

end Forest

end DataBinding
