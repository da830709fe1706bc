import DataBinding.Proofs.Forest.Plantings

/-!
# Settling new definitions

A new definition gets its owner when the owner has room for it: it is a container, or has the role
and nobody plays it. Apart from the owner, which now lists the new definition, and the paths of the
new one, nothing changes.
-/

namespace DataBinding

namespace Definition

variable {F : Type}

def adopt (role : Option Role) (h : Handle) (d : Definition F) : Definition F :=
  match role with
  | none => { d with children := d.children ++ [h] }
  | some role => { d with content := (d.content.setHolder? role (some h)).getD d.content }

def HasRoom (role : Option Role) (d : Definition F) : Prop :=
  match role with
  | none => d.isContainer = true
  | some role => role ∈ d.content.kind.roles ∧ d.content.holder? role = none

end Definition

namespace Forest

variable {f g : Forest}

theorem WellFormed.within_of_bare (wf : f.WellFormed) {h x : Handle} {d : Entry}
    (found : f.get? h = some d) (bare : d.belongings = []) (within : f.Within h x) : x = h := by
  obtain ⟨hs, climb, met⟩ := within
  induction climb with
  | top _ _ => exact (List.mem_singleton.1 met).symm
  | @up x owner e above there owned rest ih =>
    rcases List.mem_cons.1 met with same | later
    · exact same.symm
    · cases ih later
      have listed := wf.mem_belongings there owned found
      rw [bare] at listed
      cases listed

theorem WellFormed.exists_rescope_bare (wf : f.WellFormed) {h : Handle} {d : Entry}
    (found : f.get? h = some d) (bare : d.belongings = []) :
    ∃ g paths, f.rescope h = .ok g ∧ g.capacity = f.capacity ∧
      g.get? h = some { d with paths := paths } ∧ ∀ x, x ≠ h → g.get? x = f.get? x := by
  obtain ⟨g, run, rescoped⟩ := wf.exists_rescope found
  obtain ⟨paths, now⟩ := rescoped.inside found
  refine ⟨g, paths, run, rescoped.capacity, now, fun x differs => ?_⟩
  exact rescoped.outside x fun within => differs (wf.within_of_bare found bare within)

section New

variable {d e : Entry} {owner : Handle}

/-- `g` is `f` with a new definition, which its owner has taken in. -/
structure Settled (f g : Forest) (d : Entry) (owner : Handle) (role : Option Role) (e : Entry) :
    Prop where
  capacity : g.capacity = f.capacity + 1
  new : ∃ paths, g.get? ⟨f.capacity⟩ = some { d with parent := some owner, paths := paths }
  taken : g.get? owner = some (e.adopt role ⟨f.capacity⟩)
  others : ∀ x, x.index < f.capacity → x ≠ owner → g.get? x = f.get? x

theorem Consistent.exists_setParent_new (consistent : f.Consistent) (free : d.parent = none)
    (bare : d.belongings = []) (paths : d.paths = Path.normalize d.dataPath none)
    (found : f.get? owner = some e) (container : e.isContainer = true) :
    ∃ g, (f.insert d).2.setParent ⟨f.capacity⟩ owner = .ok g ∧ f.Settled g d owner none e := by
  have wf := (consistent.insert free bare paths).links
  have new : (f.insert d).2.get? ⟨f.capacity⟩ = some d := get?_insert_self f d
  have old : (f.insert d).2.get? owner = some e := get?_insert_of_found found
  have differ : owner ≠ ⟨f.capacity⟩ := ne_new_of_lt (index_lt_of_get? found)
  have apart : ¬ (f.insert d).2.Within ⟨f.capacity⟩ owner :=
    fun within => differ (wf.within_of_bare new bare within)
  have linkedWf := wf.adopt (adopts_linkChild new free old container differ) apart
  have linkedNew : ((f.insert d).2.linkChild ⟨f.capacity⟩ owner d e).get? ⟨f.capacity⟩ =
      some { d with parent := some owner } := by
    rw [get?_linkChild new old, if_neg (Ne.symm differ), if_pos rfl]
  obtain ⟨g, paths, run, capacity, now, others⟩ := linkedWf.exists_rescope_bare linkedNew bare
  refine ⟨g, (setParent_eq_ok_iff wf).2 ⟨d, e, new, old, .inr ⟨free, container, apart, run⟩⟩, ?_,
    ⟨paths, now⟩, ?_, fun x inside notOwner => ?_⟩
  · rw [capacity, capacity_linkChild, capacity_insert]
  · rw [others owner differ, get?_linkChild new old, if_pos rfl]
    rfl
  · have notNew : x ≠ ⟨f.capacity⟩ := ne_new_of_lt inside
    rw [others x notNew, get?_linkChild new old, if_neg notOwner, if_neg notNew,
      get?_insert_of_lt inside]

theorem Consistent.exists_attach_new (consistent : f.Consistent) (free : d.parent = none)
    (bare : d.belongings = []) (paths : d.paths = Path.normalize d.dataPath none)
    (found : f.get? owner = some e) {role : Role} (has : role ∈ e.content.kind.roles)
    (vacant : e.content.holder? role = none) :
    ∃ g, (f.insert d).2.attach owner role ⟨f.capacity⟩ = .ok g ∧
      f.Settled g d owner (some role) e := by
  have inserted := consistent.insert free bare paths
  have wf := inserted.links
  have new : (f.insert d).2.get? ⟨f.capacity⟩ = some d := get?_insert_self f d
  have old : (f.insert d).2.get? owner = some e := get?_insert_of_found found
  have differ : owner ≠ ⟨f.capacity⟩ := ne_new_of_lt (index_lt_of_get? found)
  have apart : ¬ (f.insert d).2.Within ⟨f.capacity⟩ owner :=
    fun within => differ (wf.within_of_bare new bare within)
  obtain ⟨renewed, set⟩ := Option.isSome_iff_exists.1
    (Content.setHolder?_isSome_iff (h := some ⟨f.capacity⟩).2 has)
  have recasts : (f.insert d).2.recast owner e role renewed =
      .ok ((f.insert d).2.put owner (some { e with content := renewed })) := by
    rw [recast, vacant]
  have recastedNew : ((f.insert d).2.put owner (some { e with content := renewed })).get?
      ⟨f.capacity⟩ = some d := by
    rw [get?_put_of_ne (Ne.symm differ), new]
  let linked := ((f.insert d).2.put owner (some { e with content := renewed })).put ⟨f.capacity⟩
    (some { d with parent := some owner })
  have named : ((f.insert d).2.put owner (some { e with content := renewed })).modify ⟨f.capacity⟩
      (fun c => { c with parent := some owner }) = .ok linked :=
    modify_eq_ok_iff.2 ⟨d, recastedNew, rfl⟩
  have lookup : ∀ x, linked.get? x = if x = ⟨f.capacity⟩ then some { d with parent := some owner }
      else if x = owner then some { e with content := renewed } else (f.insert d).2.get? x := by
    intro x
    rw [get?_put_of_found recastedNew, get?_put_of_found old]
  obtain ⟨middle, settled, adopts, apartMiddle, _⟩ :=
    inserted.exists_adopts new old free apart set recasts named
  have linkedWf := settled.links.adopt adopts apartMiddle
  have linkedNew : linked.get? ⟨f.capacity⟩ = some { d with parent := some owner } := by
    rw [lookup, if_pos rfl]
  obtain ⟨g, paths, run, capacity, now, others⟩ := linkedWf.exists_rescope_bare linkedNew bare
  refine ⟨g, (attach_eq_ok_iff wf).2 ⟨d, e, renewed, new, old, free, apart, set, _, linked, recasts,
    named, run⟩, ?_, ⟨paths, now⟩, ?_, fun x inside notOwner => ?_⟩
  · rw [capacity, capacity_put, capacity_put, capacity_insert]
  · rw [others owner differ, lookup, if_neg differ, if_pos rfl, Definition.adopt, set]
    rfl
  · have notNew : x ≠ ⟨f.capacity⟩ := ne_new_of_lt inside
    rw [others x notNew, lookup, if_neg notNew, if_neg notOwner, get?_insert_of_lt inside]

theorem Consistent.exists_settle_new (consistent : f.Consistent) (free : d.parent = none)
    (bare : d.belongings = []) (paths : d.paths = Path.normalize d.dataPath none)
    (found : f.get? owner = some e) {role : Option Role} (room : e.HasRoom role) :
    ∃ g, (f.insert d).2.settle ⟨f.capacity⟩ (some (owner, role)) = .ok g ∧
      f.Settled g d owner role e := by
  cases role with
  | none => exact consistent.exists_setParent_new free bare paths found room
  | some role => exact consistent.exists_attach_new free bare paths found room.1 room.2

end New

end Forest

end DataBinding
