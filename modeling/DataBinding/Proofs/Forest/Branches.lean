import DataBinding.Forest.Branch
import DataBinding.Proofs.Forest.WellFormed

/-!
# Branches of well-formed forests

In a well-formed forest every definition has a branch. It shows exactly the definitions whose climb
passes that one, each once, and no definition before its owner.
-/

namespace DataBinding

namespace Forest

/-- A branch that shows what the links of a forest say. -/
inductive Reads (f : Forest) : Branch → Prop
  | mk {role : Option Role} {h : Handle} {d : Entry} {owned : List Branch}
    (found : f.get? h = some d)
    (listed : owned.map (fun branch => (branch.role, branch.handle)) = d.owned)
    (each : ∀ branch ∈ owned, Reads f branch) : Reads f (.mk role h d owned)

theorem branchWithin_eq_ok_iff {f : Forest} {depth : Nat} {role : Option Role} {h : Handle}
    {b : Branch} :
    f.branchWithin (depth + 1) role h = .ok b ↔ ∃ d owned, f.get? h = some d ∧
      List.Forall₂ (fun piece below => f.branchWithin depth piece.1 piece.2 = .ok below) d.owned
        owned ∧ b = .mk role h d owned := by
  simp only [branchWithin, Outcome.bind_eq_ok_iff, Outcome.mapM_eq_ok_iff, find_eq_ok_iff]
  constructor
  · rintro ⟨d, found, owned, each, last⟩
    cases last
    exact ⟨d, owned, found, each, rfl⟩
  · rintro ⟨d, owned, found, each, rfl⟩
    exact ⟨d, found, owned, each, rfl⟩

theorem reads_of_branchWithin {f : Forest} {depth : Nat} {role : Option Role} {h : Handle}
    {b : Branch} (read : f.branchWithin depth role h = .ok b) :
    f.Reads b ∧ b.role = role ∧ b.handle = h := by
  induction depth generalizing role h b with
  | zero => cases read
  | succ depth ih =>
    obtain ⟨d, owned, found, each, rfl⟩ := branchWithin_eq_ok_iff.1 read
    refine ⟨.mk found ?_ ?_, rfl, rfl⟩
    · clear read
      generalize d.owned = pieces at each ⊢
      induction each with
      | nil => rfl
      | cons first _ tail =>
        obtain ⟨_, sameRole, sameHandle⟩ := ih first
        rw [List.map_cons, tail, sameRole, sameHandle]
    · clear read
      generalize d.owned = pieces at each
      induction each with
      | nil => simp
      | cons first _ tail =>
        intro branch inside
        rcases List.mem_cons.1 inside with rfl | later
        · exact (ih first).1
        · exact tail branch later

theorem exists_of_subtree {f : Forest} {h : Handle} {order : List Handle}
    (read : f.subtree h = .ok order) : ∃ d, f.get? h = some d := by
  obtain ⟨b, branch, _⟩ := Outcome.map_eq_ok_iff.1 read
  obtain ⟨⟨found, _, _⟩, _, rfl⟩ := reads_of_branchWithin branch
  exact ⟨_, found⟩

/-- A branch depends on nothing but the definitions that it shows. -/
theorem branchWithin_congr {f g : Forest} {depth : Nat} {role : Option Role} {h : Handle}
    {b : Branch} (read : f.branchWithin depth role h = .ok b)
    (same : ∀ x ∈ b.handles, g.get? x = f.get? x) : g.branchWithin depth role h = .ok b := by
  induction depth generalizing role h b with
  | zero => cases read
  | succ depth ih =>
    obtain ⟨d, owned, found, each, rfl⟩ := branchWithin_eq_ok_iff.1 read
    rw [Branch.handles_mk] at same
    refine branchWithin_eq_ok_iff.2 ⟨d, owned, ?_, ?_, rfl⟩
    · rw [same h List.mem_cons_self, found]
    · replace same : ∀ x ∈ owned.flatMap Branch.handles, g.get? x = f.get? x :=
        fun x inside => same x (List.mem_cons_of_mem _ inside)
      clear read
      generalize d.owned = pieces at each ⊢
      induction each with
      | nil => exact .nil
      | cons first _ tail =>
        rw [List.flatMap_cons] at same
        refine .cons (ih first fun x inside => same x (List.mem_append_left _ inside)) (tail ?_)
        exact fun x inside => same x (List.mem_append_right _ inside)

end Forest

namespace Branch

theorem handle_mem_handles (b : Branch) : b.handle ∈ b.handles := by
  obtain ⟨role, h, d, owned⟩ := b
  rw [handles_mk]
  exact List.mem_cons_self

theorem mem_handles_mk {role : Option Role} {h x : Handle} {d : Entry} {owned : List Branch} :
    x ∈ (Branch.mk role h d owned).handles ↔ x = h ∨ ∃ branch ∈ owned, x ∈ branch.handles := by
  rw [handles_mk, List.mem_cons, List.mem_flatMap]

end Branch

namespace Forest

namespace Within

variable {f : Forest} {h x y : Handle}

theorem total (first : f.Within h x) (second : f.Within y x) : f.Within h y ∨ f.Within y h := by
  obtain ⟨hs, climb, met⟩ := first
  obtain ⟨others, again, met'⟩ := second
  rw [again.unique climb] at met'
  clear again
  induction climb with
  | top found free =>
    rw [List.mem_singleton] at met met'
    rw [met, met']
    exact .inl (.refl (.top found free))
  | up found owned rest ih =>
    have whole := Climb.up found owned rest
    rcases List.mem_cons.1 met with rfl | later
    · exact .inr ⟨_, whole, met'⟩
    · rcases List.mem_cons.1 met' with rfl | later'
      · exact .inl ⟨_, whole, met⟩
      · exact ih later later'

/-- On the way down from an owner through one of those it owns, everybody is the owner or below that
one. -/
theorem cases_between {c owner : Handle} {d : Entry} (found : f.get? c = some d)
    (owned : d.parent = some owner) (through : f.Within c x) (lower : f.Within owner y)
    (upper : f.Within y x) : y = owner ∨ f.Within c y := by
  rcases upper.total through with above | inside
  · rcases above.cases_owner found with rfl | ⟨o, named, around⟩
    · exact .inr above
    · rw [owned] at named
      cases named
      exact .inl (lower.antisymm around)
  · exact .inr inside

theorem eq_of_siblings {owner a b : Handle} {d e : Entry} (first : f.get? a = some d)
    (second : f.get? b = some e) (firstOwned : d.parent = some owner)
    (secondOwned : e.parent = some owner) (left : f.Within a x) (right : f.Within b x) : a = b := by
  have apart : ∀ {u v : Handle} {d e : Entry}, f.get? u = some d → f.get? v = some e →
      d.parent = some owner → e.parent = some owner → f.Within u v → v = u := by
    intro u v d e uFound vFound uOwned vOwned within
    rcases within.cases_owner vFound with same | ⟨p, named, above⟩
    · exact same
    · rw [vOwned] at named
      cases named
      exact absurd above (not_owner uFound uOwned)
  rcases left.total right with below | below
  · exact (apart first second firstOwned secondOwned below).symm
  · exact apart second first secondOwned firstOwned below

end Within

/-- Neither the same definition nor the owner of an earlier one comes later. -/
def OwnersFirst (f : Forest) (order : List Handle) : Prop :=
  order.Pairwise fun x y => x ≠ y ∧ ∀ d, f.get? x = some d → d.parent ≠ some y

theorem OwnersFirst.nodup {f : Forest} {order : List Handle} (sorted : f.OwnersFirst order) :
    order.Nodup :=
  List.Pairwise.imp And.left sorted

namespace Reads

variable {f g : Forest} {b : Branch} {x : Handle}

theorem belongings_eq {role : Option Role} {h : Handle} {d : Entry} {owned : List Branch}
    (reads : f.Reads (.mk role h d owned)) : d.belongings = owned.map Branch.handle := by
  obtain ⟨_, listed, _⟩ := reads
  rw [Definition.belongings, ← listed, List.map_map]
  rfl

theorem role_eq_iff (wf : f.WellFormed) {own : Option Role} {h : Handle} {d : Entry}
    {owned : List Branch}
    (reads : f.Reads (.mk own h d owned)) (inside : b ∈ owned) (role : Role) :
    b.role = some role ↔ d.content.holder? role = some b.handle := by
  have belongings := reads.belongings_eq
  obtain ⟨found, listed, _⟩ := reads
  have held : ∀ h, d.content.holder? role = some h ↔ (some role, h) ∈ d.owned := by
    intro h
    rw [← Content.mem_holders]
    simp [Definition.owned]
  rw [held, ← listed, List.mem_map]
  constructor
  · intro plays
    exact ⟨b, inside, by rw [plays]⟩
  · rintro ⟨other, among, same⟩
    obtain ⟨plays, handle⟩ := Prod.mk.inj same
    have distinct := wf.nodup_belongings found
    rw [belongings] at distinct
    rwa [← List.inj_on_of_nodup_map distinct among inside handle]

theorem congr (reads : f.Reads b) (same : ∀ x ∈ b.handles, g.get? x = f.get? x) : g.Reads b := by
  induction reads with
  | @mk role h d owned found listed each ih =>
    refine .mk ?_ listed fun branch inside => ih branch inside fun x shown => same x ?_
    · rw [same h (Branch.handle_mem_handles _), found]
    · exact Branch.mem_handles_mk.2 (.inr ⟨branch, inside, shown⟩)

theorem unique {c : Branch} (reads : f.Reads b) (other : f.Reads c) (role : b.role = c.role)
    (handle : b.handle = c.handle) : b = c := by
  induction reads generalizing c with
  | @mk own h d owned found listed each ih =>
    obtain ⟨found', listed', each'⟩ := other
    cases role
    cases handle
    rw [found] at found'
    cases found'
    congr 1
    have pieces := listed.trans listed'.symm
    apply List.ext_getElem (by simpa using congrArg List.length pieces)
    intro k left right
    have piece := congrArg (·[k]?) pieces
    simp only [List.getElem?_map, List.getElem?_eq_getElem left, List.getElem?_eq_getElem right,
      Option.map_some, Option.some.injEq, Prod.mk.injEq] at piece
    exact ih _ (List.getElem_mem left) (each' _ (List.getElem_mem right)) piece.1 piece.2

theorem mem_handles_of_mem_belongings (reads : f.Reads b) {y : Handle} {e : Entry}
    (shown : y ∈ b.handles) (found : f.get? y = some e) (owned : x ∈ e.belongings) :
    x ∈ b.handles := by
  induction reads with
  | @mk role h d pieces there listed each ih =>
    rcases Branch.mem_handles_mk.1 shown with rfl | ⟨branch, inside, below⟩
    · rw [there] at found
      cases found
      rw [(Reads.mk there listed each : f.Reads (.mk role y e pieces)).belongings_eq] at owned
      obtain ⟨branch, inside, rfl⟩ := List.mem_map.1 owned
      exact Branch.mem_handles_mk.2 (.inr ⟨branch, inside, branch.handle_mem_handles⟩)
    · exact Branch.mem_handles_mk.2 (.inr ⟨branch, inside, ih branch inside below⟩)

/-- A branch shows the definition that it is of and everything below. -/
theorem mem_handles_iff (wf : f.WellFormed) (reads : f.Reads b) :
    x ∈ b.handles ↔ f.Within b.handle x := by
  constructor
  · intro shown
    induction reads with
    | @mk role h d owned found listed each ih =>
      have whole : f.Reads (.mk role h d owned) := .mk found listed each
      rcases Branch.mem_handles_mk.1 shown with rfl | ⟨branch, inside, below⟩
      · exact wf.within_refl found
      · have owns : branch.handle ∈ d.belongings := by
          rw [whole.belongings_eq]
          exact List.mem_map_of_mem inside
        exact (ih branch inside below).trans (wf.within_of_mem_belongings found owns)
  · rintro ⟨hs, climb, met⟩
    induction climb with
    | top found free =>
      rw [← List.mem_singleton.1 met]
      exact b.handle_mem_handles
    | @up y owner d above found owned rest ih =>
      rcases List.mem_cons.1 met with same | later
      · rw [← same]
        exact b.handle_mem_handles
      · obtain ⟨e, there, _⟩ := wf.owner_lists_once found owned
        exact reads.mem_handles_of_mem_belongings (ih later) there
          (wf.mem_belongings found owned there)

theorem ownersFirst (wf : f.WellFormed) (reads : f.Reads b) : f.OwnersFirst b.handles := by
  induction reads with
  | @mk role h d owned found listed each ih =>
    have whole : f.Reads (.mk role h d owned) := .mk found listed each
    have belongings := whole.belongings_eq
    have named : ∀ branch ∈ owned, ∃ e, f.get? branch.handle = some e ∧ e.parent = some h := by
      intro branch inside
      apply wf.owned_names_owner found
      rw [belongings]
      exact List.mem_map_of_mem inside
    have within : ∀ branch ∈ owned, ∀ y ∈ branch.handles, f.Within branch.handle y :=
      fun branch inside y shown => ((each branch inside).mem_handles_iff wf).1 shown
    rw [OwnersFirst, Branch.handles_mk, List.pairwise_cons, List.pairwise_flatMap]
    refine ⟨?_, ih, ?_⟩
    · -- the definition itself comes before all others, and its owner is none of them
      intro y later
      obtain ⟨branch, inside, shown⟩ := List.mem_flatMap.1 later
      obtain ⟨e, there, parent⟩ := named branch inside
      have below := within branch inside y shown
      have above : f.Within h branch.handle := .of_owner there parent (wf.within_refl found)
      refine ⟨?_, fun d' again owner => ?_⟩
      · rintro rfl
        exact Within.not_owner there parent below
      · rw [found] at again
        cases again
        exact Within.not_owner found owner (below.trans above)
    · -- branches of one owner show nothing in common, and an owner is shown in the same branch
      have distinct : owned.Pairwise fun a b => a.handle ≠ b.handle := by
        have nodup := wf.nodup_belongings found
        rwa [belongings, List.Nodup, List.pairwise_map] at nodup
      refine distinct.imp_of_mem fun {a b} aInside bInside differ x xShown y yShown => ?_
      obtain ⟨aEntry, aFound, aOwned⟩ := named a aInside
      obtain ⟨bEntry, bFound, bOwned⟩ := named b bInside
      have xBelow := within a aInside x xShown
      have yBelow := within b bInside y yShown
      refine ⟨?_, fun e there owner => ?_⟩
      · rintro rfl
        exact differ (Within.eq_of_siblings aFound bFound aOwned bOwned xBelow yBelow)
      · have xBelow' : f.Within b.handle x := .of_owner there owner yBelow
        exact differ (Within.eq_of_siblings aFound bFound aOwned bOwned xBelow xBelow')

end Reads

namespace WellFormed

variable {f : Forest} {h : Handle} {d : Entry}

/-- A branch at the end of a climb is no deeper than the places that the climb leaves. -/
theorem exists_branchWithin (wf : f.WellFormed) {hs : List Handle} (climb : f.Climb h hs)
    {depth : Nat} (enough : f.capacity < depth + hs.length) (role : Option Role) :
    ∃ b, f.branchWithin depth role h = .ok b := by
  induction depth generalizing h hs role with
  | zero =>
    have short := climb.length_le_capacity
    omega
  | succ depth ih =>
    obtain ⟨d, found⟩ := climb.found
    have each : ∀ piece ∈ d.owned, ∃ b, f.branchWithin depth piece.1 piece.2 = .ok b ∧ True := by
      intro piece inside
      obtain ⟨e, there, parent⟩ := wf.owned_names_owner found (List.mem_map_of_mem inside)
      have room : f.capacity < depth + (piece.2 :: hs).length := by
        rw [List.length_cons]
        omega
      obtain ⟨b, read⟩ := ih (.up there parent climb) room piece.1
      exact ⟨b, read, trivial⟩
    obtain ⟨owned, reads, _⟩ := Outcome.exists_mapM_eq_ok each
    exact ⟨_, branchWithin_eq_ok_iff.2 ⟨d, owned, found, Outcome.mapM_eq_ok_iff.1 reads, rfl⟩⟩

theorem exists_branch (wf : f.WellFormed) (found : f.get? h = some d) :
    ∃ b, f.branch h = .ok b ∧ f.Reads b ∧ b.role = none ∧ b.handle = h := by
  obtain ⟨hs, climb⟩ := wf.climbs found
  have room : f.capacity < f.capacity + 1 + hs.length := by omega
  obtain ⟨b, read⟩ := wf.exists_branchWithin climb room none
  exact ⟨b, read, reads_of_branchWithin read⟩

theorem exists_subtree (wf : f.WellFormed) (found : f.get? h = some d) :
    ∃ order, f.subtree h = .ok order ∧ (∀ x, x ∈ order ↔ f.Within h x) ∧ f.OwnersFirst order := by
  obtain ⟨b, read, reads, _, rfl⟩ := wf.exists_branch found
  refine ⟨b.handles, ?_, fun x => reads.mem_handles_iff wf, reads.ownersFirst wf⟩
  rw [subtree, read]
  rfl

end WellFormed

end Forest

end DataBinding
