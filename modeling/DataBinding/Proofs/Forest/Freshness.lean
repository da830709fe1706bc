import DataBinding.Proofs.Forest.Growth

/-!
# Freshly planted forests

The forest of one blueprint is filled from the first place on, in the order in which the branch at
the first place shows it, so everything in it is below that one. Nothing in it has been edited.
-/

namespace DataBinding.Forest

variable {f : Forest} {v : Vocabulary} {b : Blueprint}

/-- A forest as it is planted: everything is below the first definition, and nothing was edited. -/
structure Fresh (f : Forest) : Prop where
  consistent : f.Consistent
  root : f.root? = some ⟨0⟩
  subtree : f.subtree ⟨0⟩ = .ok f.handles
  unedited : ∀ {x : Handle} {d : Entry}, f.get? x = some d → d.edited = false

theorem exists_of_root? {h : Handle} (root : f.root? = some h) :
    ∃ d, f.get? h = some d ∧ d.parent = none := by
  have free := List.find?_some root
  cases found : f.get? h with
  | none => simp [found] at free
  | some d => exact ⟨d, rfl, by simpa [found] using free⟩

end DataBinding.Forest
