import DataBinding.Proofs.Definition.Links
import DataBinding.Proofs.Forest.Climb
import DataBinding.Proofs.Forest.Places

/-!
# Well-formed forests

The links of a forest are redundant: an owner lists what it owns and everything owned names its
owner. A forest is well formed when both agree and every way up ends. The lemmas here say which
changes of links keep it so: changes of anything else, a new definition without links, a definition
that gets an owner, and a set of definitions that is removed with everything below it.
-/

namespace DataBinding

structure Links where
  parent : Option Handle
  children : List Handle
  content : Content

namespace Definition

variable {F : Type}


def holdings (d : Definition F) : List Handle × Content :=
  (d.children, d.content)

theorem belongings_of_holdings {d e : Definition F} (same : d.holdings = e.holdings) :
    d.belongings = e.belongings := by
  obtain ⟨children, content⟩ := Prod.mk.inj same
  rw [belongings_eq, belongings_eq, children, content]

theorem isContainer_of_holdings {d e : Definition F} (same : d.holdings = e.holdings) :
    d.isContainer = e.isContainer := by
  rw [isContainer, isContainer, (Prod.mk.inj same).2]

def links (d : Definition F) : Links :=
  ⟨d.parent, d.children, d.content⟩

theorem links_eq_iff {d e : Definition F} :
    d.links = e.links ↔ d.parent = e.parent ∧ d.holdings = e.holdings := by
  simp [links, holdings]

end Definition

namespace Forest

/-- The links of both directions agree, only containers have children, and every way up ends. -/
structure WellFormed (f : Forest) : Prop where
  owned_names_owner : ∀ {h x : Handle} {d : Entry}, f.get? h = some d → x ∈ d.belongings →
    ∃ e, f.get? x = some e ∧ e.parent = some h
  owner_lists_once : ∀ {h owner : Handle} {d : Entry}, f.get? h = some d → d.parent = some owner →
    ∃ e, f.get? owner = some e ∧ e.belongings.count h = 1
  isContainer_of_children : ∀ {h : Handle} {d : Entry}, f.get? h = some d → d.children ≠ [] →
    d.isContainer = true
  climbs : ∀ {h : Handle} {d : Entry}, f.get? h = some d → ∃ hs, f.Climb h hs

/-- The same definitions in the same places, as far as their links go. -/
def SameLinks (f g : Forest) : Prop :=
  ∀ h, (g.get? h).map Definition.links = (f.get? h).map Definition.links

namespace SameLinks

variable {f g : Forest} {h : Handle} {d : Entry}

theorem trans {k : Forest} (first : f.SameLinks g) (second : g.SameLinks k) : f.SameLinks k :=
  fun h => (second h).trans (first h)

theorem symm (same : f.SameLinks g) : g.SameLinks f :=
  fun h => (same h).symm

theorem exists_of_get? (same : f.SameLinks g) (found : f.get? h = some d) :
    ∃ e, g.get? h = some e ∧ e.links = d.links :=
  exists_of_map_eq (same h) found

theorem climb (same : f.SameLinks g) {hs : List Handle} (climb : f.Climb h hs) : g.Climb h hs := by
  refine climb.carry fun x _ d found => ?_
  obtain ⟨e, now, links⟩ := same.exists_of_get? found
  exact ⟨e, now, congrArg Links.parent links⟩

end SameLinks

namespace WellFormed

variable {f g : Forest}

theorem count_belongings_le (wf : f.WellFormed) {h : Handle} {d : Entry} (found : f.get? h = some d)
    (x : Handle) : d.belongings.count x ≤ 1 := by
  by_cases owned : x ∈ d.belongings
  · obtain ⟨e, there, parent⟩ := wf.owned_names_owner found owned
    obtain ⟨owner, again, once⟩ := wf.owner_lists_once there parent
    rw [found] at again
    cases again
    exact Nat.le_of_eq once
  · rw [List.count_eq_zero.2 owned]
    exact Nat.zero_le 1

theorem notMem_belongings_of_free (wf : f.WellFormed) {owner child : Handle} {d c : Entry}
    (found : f.get? owner = some d) (childFound : f.get? child = some c) (free : c.parent = none) :
    child ∉ d.belongings := by
  intro owned
  obtain ⟨e, there, parent⟩ := wf.owned_names_owner found owned
  rw [childFound] at there
  cases there
  rw [free] at parent
  cases parent

theorem nodup_belongings (wf : f.WellFormed) {h : Handle} {d : Entry} (found : f.get? h = some d) :
    d.belongings.Nodup :=
  List.nodup_iff_count_le_one.2 (wf.count_belongings_le found)

theorem mem_belongings (wf : f.WellFormed) {h owner : Handle} {d e : Entry}
    (found : f.get? h = some d) (owned : d.parent = some owner) (there : f.get? owner = some e) :
    h ∈ e.belongings := by
  obtain ⟨again, same, once⟩ := wf.owner_lists_once found owned
  rw [there] at same
  cases same
  exact List.count_pos_iff.1 (by omega)

theorem holder_names_owner (wf : f.WellFormed) {h x : Handle} {d : Entry} (found : f.get? h = some d)
    {role : Role} (filled : d.content.holder? role = some x) : ∃ e, f.get? x = some e ∧ e.parent = some h :=
  wf.owned_names_owner found (Definition.mem_belongings_of_holder? filled)

theorem within_refl (wf : f.WellFormed) {h : Handle} {d : Entry} (found : f.get? h = some d) :
    f.Within h h := by
  obtain ⟨hs, climb⟩ := wf.climbs found
  exact .refl climb

theorem within_of_mem_belongings (wf : f.WellFormed) {h x : Handle} {d : Entry}
    (found : f.get? h = some d) (owned : x ∈ d.belongings) : f.Within h x := by
  obtain ⟨e, there, parent⟩ := wf.owned_names_owner found owned
  exact .of_owner there parent (wf.within_refl found)

protected theorem empty : Forest.empty.WellFormed where
  owned_names_owner found := by simp at found
  owner_lists_once found := by simp at found
  isContainer_of_children found := by simp at found
  climbs found := by simp at found

protected theorem congr (wf : f.WellFormed) (same : f.SameLinks g) : g.WellFormed where
  owned_names_owner := by
    intro h x d found owned
    obtain ⟨e, there, links⟩ := same.symm.exists_of_get? found
    rw [← Definition.belongings_of_holdings (Definition.links_eq_iff.1 links).2] at owned
    obtain ⟨o, below, parent⟩ := wf.owned_names_owner there owned
    obtain ⟨o', below', links'⟩ := same.exists_of_get? below
    exact ⟨o', below', (Definition.links_eq_iff.1 links').1.trans parent⟩
  owner_lists_once := by
    intro h owner d found owned
    obtain ⟨e, there, links⟩ := same.symm.exists_of_get? found
    rw [← (Definition.links_eq_iff.1 links).1] at owned
    obtain ⟨o, above, once⟩ := wf.owner_lists_once there owned
    obtain ⟨o', above', links'⟩ := same.exists_of_get? above
    have holdings := (Definition.links_eq_iff.1 links').2
    exact ⟨o', above', by rw [Definition.belongings_of_holdings holdings, once]⟩
  isContainer_of_children := by
    intro h d found hne
    obtain ⟨e, there, links⟩ := same.symm.exists_of_get? found
    have holdings := (Definition.links_eq_iff.1 links).2
    rw [← Definition.isContainer_of_holdings holdings]
    exact wf.isContainer_of_children there (by rwa [(Prod.mk.inj holdings).1])
  climbs := by
    intro h d found
    obtain ⟨e, there, _⟩ := same.symm.exists_of_get? found
    obtain ⟨hs, climb⟩ := wf.climbs there
    exact ⟨hs, same.climb climb⟩

protected theorem insert (wf : f.WellFormed) {d : Entry} (free : d.parent = none)
    (bare : d.belongings = []) : (f.insert d).2.WellFormed := by
  have climbs : ∀ {h : Handle} {hs : List Handle}, f.Climb h hs → (f.insert d).2.Climb h hs := by
    intro h hs climb
    exact climb.carry fun x _ e found => ⟨e, get?_insert_of_found found, rfl⟩
  constructor
  case owned_names_owner =>
    intro h x e found owned
    rcases cases_insert found with ⟨_, rfl⟩ | there
    · rw [bare] at owned
      cases owned
    · obtain ⟨o, below, parent⟩ := wf.owned_names_owner there owned
      exact ⟨o, get?_insert_of_found below, parent⟩
  case owner_lists_once =>
    intro h owner e found owned
    rcases cases_insert found with ⟨_, rfl⟩ | there
    · rw [free] at owned
      cases owned
    · obtain ⟨o, above, once⟩ := wf.owner_lists_once there owned
      exact ⟨o, get?_insert_of_found above, once⟩
  case isContainer_of_children =>
    intro h e found hne
    rcases cases_insert found with ⟨_, rfl⟩ | there
    · rw [Definition.belongings_eq, List.append_eq_nil_iff] at bare
      exact absurd bare.1 hne
    · exact wf.isContainer_of_children there hne
  case climbs =>
    intro h e found
    rcases cases_insert found with ⟨rfl, rfl⟩ | there
    · exact ⟨_, .top found free⟩
    · obtain ⟨hs, climb⟩ := wf.climbs there
      exact ⟨hs, climbs climb⟩

end WellFormed

/-- `g` is `f` with one more definition owned: `child`, free before, now names `owner`, who lists it
beside what it owned already. -/
structure Adopts (f g : Forest) (child owner : Handle) : Prop where
  free : ∃ c, f.get? child = some c ∧ c.parent = none
  named : ∃ c, g.get? child = some c ∧ c.parent = some owner
  parents : ∀ x, x ≠ child → (g.get? x).map (·.parent) = (f.get? x).map (·.parent)
  holdings : ∀ x, x ≠ owner → (g.get? x).map Definition.holdings = (f.get? x).map Definition.holdings
  listed : ∃ d e, f.get? owner = some d ∧ g.get? owner = some e ∧
    e.belongings.Perm (child :: d.belongings) ∧ (e.children ≠ [] → e.isContainer = true)

namespace Adopts

variable {f g : Forest} {child owner : Handle}

theorem stays (adopts : f.Adopts g child owner) {x p : Handle} {e : Entry}
    (found : f.get? x = some e) (owned : e.parent = some p) :
    ∃ e', g.get? x = some e' ∧ e'.parent = some p := by
  obtain ⟨c, childFound, free⟩ := adopts.free
  have differs : x ≠ child := by
    rintro rfl
    rw [childFound] at found
    cases found
    rw [free] at owned
    cases owned
  obtain ⟨e', now, parent⟩ := exists_of_map_eq (adopts.parents x differs) found
  exact ⟨e', now, parent.trans owned⟩

/-- A climb that came to its end at `child` goes on from the owner. -/
theorem exists_climb (adopts : f.Adopts g child owner) (wf : f.WellFormed)
    (apart : ¬ f.Within child owner) {h : Handle} {hs : List Handle} (climb : f.Climb h hs) :
    ∃ others, g.Climb h others := by
  obtain ⟨c, childNow, named⟩ := adopts.named
  obtain ⟨d, _, ownerFound, _⟩ := adopts.listed
  induction climb with
  | @top h e found top =>
    by_cases same : h = child
    · subst same
      obtain ⟨above, onward⟩ := wf.climbs ownerFound
      refine ⟨_, .up childNow named (onward.carry fun x met o => exists_of_map_eq (adopts.parents x ?_))⟩
      rintro rfl
      exact apart ⟨above, onward, met⟩
    · obtain ⟨e', now, parent⟩ := exists_of_map_eq (adopts.parents h same) found
      exact ⟨_, .top now (parent.trans top)⟩
  | @up h above e hs found owned rest ih =>
    obtain ⟨e', now, parent⟩ := adopts.stays found owned
    obtain ⟨others, onward⟩ := ih
    exact ⟨_, .up now parent onward⟩

end Adopts

/-- `g` is `f` without the definitions in a set that holds everything below its members. -/
structure Cuts (f g : Forest) (gone : Handle → Prop) : Prop where
  closed : ∀ {h x : Handle} {d : Entry}, f.get? h = some d → gone h → x ∈ d.belongings → gone x
  vacated : ∀ x, gone x → g.get? x = none
  kept : ∀ x, ¬ gone x → (g.get? x).map (·.parent) = (f.get? x).map (·.parent)
  released : ∀ {x : Handle} {d e : Entry}, f.get? x = some d → g.get? x = some e →
    (∀ o ∈ e.belongings, ¬ gone o) ∧ (∀ o, ¬ gone o → e.belongings.count o = d.belongings.count o) ∧
      (e.children ≠ [] → e.isContainer = true)

namespace WellFormed

variable {f g : Forest}

/-- A definition may get any owner that is not below it. -/
theorem adopt (wf : f.WellFormed) {child owner : Handle} (adopts : f.Adopts g child owner)
    (apart : ¬ f.Within child owner) : g.WellFormed := by
  obtain ⟨c, childFound, free⟩ := adopts.free
  obtain ⟨c', childNow, named⟩ := adopts.named
  obtain ⟨d, d', ownerFound, ownerNow, listed, containers⟩ := adopts.listed
  constructor
  case owned_names_owner =>
    intro h x e found owned
    by_cases isOwner : h = owner
    · subst isOwner
      rw [ownerNow] at found
      cases found
      rcases List.mem_cons.1 (listed.mem_iff.1 owned) with rfl | before
      · exact ⟨c', childNow, named⟩
      · obtain ⟨o, there, parent⟩ := wf.owned_names_owner ownerFound before
        exact adopts.stays there parent
    · obtain ⟨e', was, same⟩ := exists_of_map_eq (adopts.holdings h isOwner).symm found
      rw [Definition.belongings_of_holdings same.symm] at owned
      obtain ⟨o, there, parent⟩ := wf.owned_names_owner was owned
      exact adopts.stays there parent
  case owner_lists_once =>
    intro h p e found owned
    by_cases isChild : h = child
    · subst isChild
      rw [childNow] at found
      cases found
      rw [named] at owned
      cases owned
      refine ⟨d', ownerNow, ?_⟩
      have absent : h ∉ d.belongings := wf.notMem_belongings_of_free ownerFound childFound free
      rw [listed.count_eq, List.count_cons_self, List.count_eq_zero.2 absent]
    · obtain ⟨e', was, same⟩ := exists_of_map_eq (adopts.parents h isChild).symm found
      obtain ⟨o, there, once⟩ := wf.owner_lists_once was (same.trans owned)
      by_cases isOwner : p = owner
      · subst isOwner
        rw [ownerFound] at there
        cases there
        refine ⟨d', ownerNow, ?_⟩
        rw [listed.count_eq, List.count_cons_of_ne (Ne.symm isChild), once]
      · obtain ⟨o', now, same⟩ := exists_of_map_eq (adopts.holdings p isOwner) there
        exact ⟨o', now, by rw [Definition.belongings_of_holdings same, once]⟩
  case isContainer_of_children =>
    intro h e found hne
    by_cases isOwner : h = owner
    · subst isOwner
      rw [ownerNow] at found
      cases found
      exact containers hne
    · obtain ⟨e', was, same⟩ := exists_of_map_eq (adopts.holdings h isOwner).symm found
      rw [← Definition.isContainer_of_holdings same]
      exact wf.isContainer_of_children was (by rwa [(Prod.mk.inj same).1])
  case climbs =>
    intro h e found
    by_cases isChild : h = child
    · subst isChild
      obtain ⟨hs, climb⟩ := wf.climbs childFound
      exact adopts.exists_climb wf apart climb
    · obtain ⟨e', was, _⟩ := exists_of_map_eq (adopts.parents h isChild).symm found
      obtain ⟨hs, climb⟩ := wf.climbs was
      exact adopts.exists_climb wf apart climb

/-- Definitions may go together with everything below them. -/
theorem cut (wf : f.WellFormed) {gone : Handle → Prop} (cuts : f.Cuts g gone) : g.WellFormed := by
  have was : ∀ {h : Handle} {e : Entry}, g.get? h = some e →
      ¬ gone h ∧ ∃ d, f.get? h = some d ∧ d.parent = e.parent := by
    intro h e found
    have stays : ¬ gone h := by
      intro goes
      rw [cuts.vacated h goes] at found
      cases found
    exact ⟨stays, exists_of_map_eq (cuts.kept h stays).symm found⟩
  have ownerStays : ∀ {h owner : Handle} {d : Entry}, f.get? h = some d → d.parent = some owner →
      ¬ gone h → ¬ gone owner := by
    intro h owner d found owned stays goes
    obtain ⟨e, above, _⟩ := wf.owner_lists_once found owned
    exact stays (cuts.closed above goes (wf.mem_belongings found owned above))
  constructor
  case owned_names_owner =>
    intro h x e found owned
    obtain ⟨stays, d, before, _⟩ := was found
    obtain ⟨live, counts, _⟩ := cuts.released before found
    have listed : x ∈ d.belongings := by
      rw [← List.count_pos_iff, ← counts x (live x owned), List.count_pos_iff]
      exact owned
    obtain ⟨o, there, parent⟩ := wf.owned_names_owner before listed
    obtain ⟨o', now, same⟩ := exists_of_map_eq (cuts.kept x (live x owned)) there
    exact ⟨o', now, same.trans parent⟩
  case owner_lists_once =>
    intro h owner e found owned
    obtain ⟨stays, d, before, parent⟩ := was found
    obtain ⟨o, above, once⟩ := wf.owner_lists_once before (parent.trans owned)
    obtain ⟨o', now, _⟩ :=
      exists_of_map_eq (cuts.kept owner (ownerStays before (parent.trans owned) stays)) above
    obtain ⟨_, counts, _⟩ := cuts.released above now
    exact ⟨o', now, by rw [counts h stays, once]⟩
  case isContainer_of_children =>
    intro h e found hne
    obtain ⟨_, d, before, _⟩ := was found
    exact (cuts.released before found).2.2 hne
  case climbs =>
    intro h e found
    obtain ⟨stays, d, before, _⟩ := was found
    obtain ⟨hs, climb⟩ := wf.climbs before
    clear found before
    induction climb with
    | @top h d found free =>
      obtain ⟨e, now, parent⟩ := exists_of_map_eq (cuts.kept h stays) found
      exact ⟨_, .top now (parent.trans free)⟩
    | @up h owner d above found owned rest ih =>
      obtain ⟨e, now, parent⟩ := exists_of_map_eq (cuts.kept h stays) found
      obtain ⟨hs, onward⟩ := ih (ownerStays found owned stays)
      exact ⟨_, .up now (parent.trans owned) onward⟩

end WellFormed

end Forest

end DataBinding
