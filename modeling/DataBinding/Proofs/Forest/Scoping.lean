import DataBinding.Forest.Ownership
import DataBinding.Proofs.Forest.Branches

/-!
# Scoped forests

A forest keeps the anchored paths of its definitions instead of computing them when they are read. It
is scoped when all of them are what the data path and the owner's first path give. Scoping a branch
again, owners first, makes it so inside the branch and changes nothing else.
-/

namespace DataBinding.Forest

/-- The kept paths of a definition are those that its data path has under its owner. -/
def ScopedAt (f : Forest) (h : Handle) : Prop :=
  ∀ d, f.get? h = some d →
    ∃ above, f.scopeAbove d = .ok above ∧ d.paths = Path.normalize d.dataPath above

def Scoped (f : Forest) : Prop :=
  ∀ h, f.ScopedAt h

section ScopeAbove

variable {f g : Forest} {d e : Entry}

theorem scopeAbove_of_free (free : d.parent = none) : f.scopeAbove d = .ok none := by
  rw [scopeAbove, free]

theorem scopeAbove_of_owner {owner : Handle} (owned : d.parent = some owner)
    (found : f.get? owner = some e) : f.scopeAbove d = .ok e.scope := by
  rw [scopeAbove, owned]
  simp only [find_eq_ok_iff.2 found, Except.map]

theorem WellFormed.exists_scopeAbove (wf : f.WellFormed) {h : Handle} (found : f.get? h = some d) :
    ∃ above, f.scopeAbove d = .ok above := by
  cases owned : d.parent with
  | none => exact ⟨none, scopeAbove_of_free owned⟩
  | some owner =>
    obtain ⟨e, there, _⟩ := wf.owner_lists_once found owned
    exact ⟨e.scope, scopeAbove_of_owner owned there⟩

theorem scopeAbove_congr {above : Option String} (under : f.scopeAbove d = .ok above)
    (parent : e.parent = d.parent)
    (same : ∀ owner, d.parent = some owner →
      (g.get? owner).map Definition.scope = (f.get? owner).map Definition.scope) :
    g.scopeAbove e = .ok above := by
  cases owned : d.parent with
  | none =>
    rw [scopeAbove_of_free owned] at under
    rw [scopeAbove_of_free (parent.trans owned), under]
  | some owner =>
    rw [scopeAbove, owned] at under
    obtain ⟨o, found, scope⟩ := Outcome.map_eq_ok_iff.1 under
    obtain ⟨o', now, scope'⟩ := exists_of_map_eq (same owner owned) (find_eq_ok_iff.1 found)
    rw [scopeAbove_of_owner (parent.trans owned) now, scope', scope]

end ScopeAbove

theorem rescopeOne_eq {f : Forest} {h : Handle} {d : Entry} {above : Option String}
    (found : f.get? h = some d) (under : f.scopeAbove d = .ok above) :
    f.rescopeOne h = .ok (f.put h (some { d with paths := Path.normalize d.dataPath above })) := by
  simp only [rescopeOne, find_eq_ok_iff.2 found, under, Outcome.ok_bind]
  exact modify_eq_ok_iff.2 ⟨d, found, rfl⟩

/-- `g` is `f` with the paths of some definitions kept anew. -/
structure Rescoped (f g : Forest) (changed : Handle → Prop) : Prop where
  capacity : g.capacity = f.capacity
  outside : ∀ x, ¬ changed x → g.get? x = f.get? x
  inside : ∀ {x : Handle} {d : Entry}, f.get? x = some d →
    ∃ paths, g.get? x = some { d with paths := paths }
  missing : ∀ {x : Handle}, f.get? x = none → g.get? x = none
  renewed : ∀ x, changed x → g.ScopedAt x

namespace Rescoped

variable {f g : Forest} {changed : Handle → Prop}

theorem sameLinks (rescoped : f.Rescoped g changed) : f.SameLinks g := by
  intro h
  cases found : f.get? h with
  | none => rw [rescoped.missing found]
  | some d =>
    obtain ⟨paths, now⟩ := rescoped.inside found
    rw [now]
    rfl

/-- Scoping a definition again with everything below it restores a forest that is scoped
elsewhere. -/
theorem scoped_of_outside {h : Handle} (rescoped : f.Rescoped g (f.Within h))
    (outside : ∀ x, ¬ f.Within h x → f.ScopedAt x) : g.Scoped := by
  intro x
  by_cases again : f.Within h x
  · exact rescoped.renewed x again
  · intro d found
    rw [rescoped.outside x again] at found
    obtain ⟨above, under, paths⟩ := outside x again d found
    refine ⟨above, scopeAbove_congr under rfl fun owner owned => ?_, paths⟩
    rw [rescoped.outside owner fun goes => again (.of_owner found owned goes)]

end Rescoped

theorem OwnersFirst.congr {f g : Forest} {order : List Handle} (sorted : f.OwnersFirst order)
    (same : f.SameLinks g) : g.OwnersFirst order := by
  refine sorted.imp fun ⟨differ, notOwner⟩ => ⟨differ, fun e found owned => ?_⟩
  obtain ⟨d, was, links⟩ := same.symm.exists_of_get? found
  exact notOwner d was ((Definition.links_eq_iff.1 links).1.trans owned)

theorem sameLinks_put {f : Forest} {h : Handle} {d e : Entry} (found : f.get? h = some d)
    (links : e.links = d.links) : f.SameLinks (f.put h (some e)) :=
  map_get?_put found links

namespace WellFormed

variable {f : Forest}

/-- Scoping a definition, and then others that come after it, scopes them all: the first one is not
touched again, and neither is its owner. -/
theorem rescoped_cons (wf : f.WellFormed) {g : Forest} {h : Handle} {rest : List Handle}
    {d : Entry} {above : Option String} (sorted : f.OwnersFirst (h :: rest))
    (found : f.get? h = some d) (under : f.scopeAbove d = .ok above)
    (rescoped : (f.put h (some { d with paths := Path.normalize d.dataPath above })).Rescoped g
      (· ∈ rest)) : f.Rescoped g (· ∈ h :: rest) := by
  obtain ⟨first, _⟩ := List.pairwise_cons.1 sorted
  have now := get?_put_self found (some { d with paths := Path.normalize d.dataPath above })
  have notLater : h ∉ rest := fun again => (first h again).1 rfl
  constructor
  case capacity => rw [rescoped.capacity, capacity_put]
  case outside =>
    intro x outside
    rw [List.mem_cons, not_or] at outside
    rw [rescoped.outside x outside.2, get?_put_of_ne outside.1]
  case inside =>
    intro x d' there
    by_cases isFirst : x = h
    · subst isFirst
      rw [found] at there
      cases there
      obtain ⟨paths, after⟩ := rescoped.inside now
      exact ⟨paths, after⟩
    · exact rescoped.inside ((get?_put_of_ne isFirst _).trans there)
  case missing =>
    intro x missing
    apply rescoped.missing
    rw [get?_put_of_ne, missing]
    rintro rfl
    rw [found] at missing
    cases missing
  case renewed =>
    intro x inside
    rcases List.mem_cons.1 inside with rfl | inLater
    · intro d' there
      rw [rescoped.outside x notLater, now] at there
      cases there
      refine ⟨above, scopeAbove_congr under rfl fun owner owned => ?_, rfl⟩
      have ownerLater : owner ∉ rest := fun again => (first owner again).2 d found owned
      have ownerDiffers : owner ≠ x := by
        rintro rfl
        exact Within.not_owner found owned (wf.within_refl found)
      rw [rescoped.outside owner ownerLater, get?_put_of_ne ownerDiffers]
    · exact rescoped.renewed x inLater

/-- Scoping the definitions of a list one after the other, no owner after what it owns. -/
theorem exists_foldlM_rescopeOne (wf : f.WellFormed) {order : List Handle}
    (sorted : f.OwnersFirst order) (live : ∀ x ∈ order, ∃ d, f.get? x = some d) :
    ∃ g, order.foldlM rescopeOne f = .ok g ∧ f.Rescoped g (· ∈ order) := by
  induction order generalizing f with
  | nil =>
    refine ⟨f, rfl, rfl, fun _ _ => rfl, fun found => ⟨_, found⟩, id, ?_⟩
    intro x inside
    cases inside
  | cons h rest ih =>
    obtain ⟨d, found⟩ := live h List.mem_cons_self
    obtain ⟨above, under⟩ := wf.exists_scopeAbove found
    obtain ⟨_, later⟩ := List.pairwise_cons.1 sorted
    have same : f.SameLinks (f.put h (some { d with paths := Path.normalize d.dataPath above })) :=
      sameLinks_put found rfl
    obtain ⟨g, run, rescoped⟩ := ih (wf.congr same) (OwnersFirst.congr later same) fun x inside => by
      obtain ⟨d, found⟩ := live x (List.mem_cons_of_mem _ inside)
      obtain ⟨e, now, _⟩ := same.exists_of_get? found
      exact ⟨e, now⟩
    refine ⟨g, ?_, wf.rescoped_cons sorted found under rescoped⟩
    rw [List.foldlM_cons, rescopeOne_eq found under]
    exact run

theorem exists_rescope (wf : f.WellFormed) {h : Handle} {d : Entry} (found : f.get? h = some d) :
    ∃ g, f.rescope h = .ok g ∧ f.Rescoped g (f.Within h) := by
  obtain ⟨order, read, members, sorted⟩ := wf.exists_subtree found
  obtain ⟨g, run, rescoped⟩ := wf.exists_foldlM_rescopeOne sorted fun x inside =>
    ((members x).1 inside).found
  have same : (· ∈ order) = f.Within h := funext fun x => propext (members x)
  refine ⟨g, ?_, same ▸ rescoped⟩
  rw [rescope, read]
  exact run

end WellFormed

end DataBinding.Forest
