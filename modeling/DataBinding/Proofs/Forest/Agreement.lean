import DataBinding.Proofs.Forest.Branches

/-!
# Forests that agree

What is asked about a forest by walking it depends on the links alone, and an identity on the keys
beside them. Two forests agree when the same definitions stand in the same places. One of them may
have more empty places, which no question shows.
-/

namespace DataBinding

theorem Definition.segment_of_links {F : Type} {d e : Definition F} (same : e.links = d.links)
    (h : Handle) : e.segment h = d.segment h := by
  obtain ⟨children, content⟩ := Prod.mk.inj (links_eq_iff.1 same).2
  rw [segment, segment, children, content]

namespace Forest

variable {f g : Forest} {h x : Handle}

/-! ### The same links -/

namespace SameLinks

theorem get?_eq_none_iff (same : f.SameLinks g) : g.get? x = none ↔ f.get? x = none := by
  rw [← Option.map_eq_none_iff (f := Definition.links), same x, Option.map_eq_none_iff]

theorem within_iff (same : f.SameLinks g) : g.Within h x ↔ f.Within h x := by
  constructor
  · rintro ⟨hs, climb, met⟩
    exact ⟨hs, same.symm.climb climb, met⟩
  · rintro ⟨hs, climb, met⟩
    exact ⟨hs, same.climb climb, met⟩

theorem lineage_eq (same : f.SameLinks g) (wf : f.WellFormed) (x : Handle) :
    g.lineage x = f.lineage x := by
  cases found : f.get? x with
  | none =>
    simp only [lineage, lineageWithin, found, same.get?_eq_none_iff.2 found, Option.bind_none]
  | some d =>
    obtain ⟨hs, climb⟩ := wf.climbs found
    rw [climb.lineage_eq, (same.climb climb).lineage_eq]

theorem segmentsUp_eq (same : f.SameLinks g) (hs : List Handle) :
    g.segmentsUp hs = f.segmentsUp hs := by
  induction hs with
  | nil => rfl
  | cons h rest ih =>
    cases rest with
    | nil => rfl
    | cons owner above =>
      rw [segmentsUp, segmentsUp, ih]
      cases found : f.get? owner with
      | none =>
        simp only [find, found, same.get?_eq_none_iff.2 found]
      | some d =>
        obtain ⟨e, now, links⟩ := same.exists_of_get? found
        simp only [find_eq_ok_iff.2 found, find_eq_ok_iff.2 now, Outcome.ok_bind,
          Definition.segment_of_links links]

theorem identity_eq (same : f.SameLinks g) (wf : f.WellFormed)
    (key : (g.get? x).map (·.key) = (f.get? x).map (·.key)) : g.identity x = f.identity x := by
  cases found : f.get? x with
  | none =>
    simp only [identity, find, found, same.get?_eq_none_iff.2 found]
    rfl
  | some d =>
    obtain ⟨e, now, named⟩ := exists_of_map_eq key found
    simp only [identity, find_eq_ok_iff.2 found, find_eq_ok_iff.2 now, Outcome.ok_bind, named,
      same.lineage_eq wf, same.segmentsUp_eq]

end SameLinks

/-! ### The same definitions -/

/-- The same definitions in the same places, whatever empty places there are behind. -/
def Agrees (f g : Forest) : Prop :=
  ∀ x, g.get? x = f.get? x

namespace Agrees

theorem refl (f : Forest) : f.Agrees f :=
  fun _ => rfl

theorem symm (agrees : f.Agrees g) : g.Agrees f :=
  fun x => (agrees x).symm

theorem sameLinks (agrees : f.Agrees g) : f.SameLinks g :=
  fun x => congrArg (Option.map Definition.links) (agrees x)

theorem handles_eq_of_le (agrees : f.Agrees g) (more : f.capacity ≤ g.capacity) :
    g.handles = f.handles := by
  obtain ⟨extra, size⟩ := Nat.exists_eq_add_of_le more
  have same : g.contains = f.contains := funext fun x => by rw [contains, contains, agrees x]
  have empty : ((List.range extra).map fun k => (⟨f.capacity + k⟩ : Handle)).filter f.contains = [] := by
    rw [List.filter_eq_nil_iff]
    intro x among live
    obtain ⟨k, _, rfl⟩ := List.mem_map.1 among
    rw [contains, get?_of_capacity_le (Nat.le_add_right _ k)] at live
    cases live
  have split : (List.range g.capacity).map Handle.mk = (List.range f.capacity).map Handle.mk ++
      (List.range extra).map fun k => ⟨f.capacity + k⟩ := by
    rw [size, List.range_add, List.map_append, List.map_map]
    rfl
  rw [handles, handles, same, split, List.filter_append, empty, List.append_nil]

theorem handles_eq (agrees : f.Agrees g) : g.handles = f.handles := by
  rcases Nat.le_total f.capacity g.capacity with more | fewer
  · exact agrees.handles_eq_of_le more
  · exact (agrees.symm.handles_eq_of_le fewer).symm

theorem root?_eq (agrees : f.Agrees g) : g.root? = f.root? := by
  rw [root?, root?, agrees.handles_eq]
  congr 1
  funext h
  rw [agrees h]

theorem branch_eq (agrees : f.Agrees g) (wf : f.WellFormed) (x : Handle) :
    g.branch x = f.branch x := by
  cases found : f.get? x with
  | none =>
    rw [branch, branch, branchWithin, branchWithin]
    simp only [find, agrees x, found]
    rfl
  | some d =>
    obtain ⟨b, read, reads, role, handle⟩ := wf.exists_branch found
    obtain ⟨c, again, reads', role', handle'⟩ :=
      (wf.congr agrees.sameLinks).exists_branch ((agrees x).trans found)
    have same : b = c := (reads.congr fun y _ => agrees y).unique reads' (role.trans role'.symm)
      (handle.trans handle'.symm)
    rw [read, again, same]

theorem identity_eq (agrees : f.Agrees g) (wf : f.WellFormed) (x : Handle) :
    g.identity x = f.identity x :=
  agrees.sameLinks.identity_eq wf (by rw [agrees x])

end Agrees

end Forest

end DataBinding
