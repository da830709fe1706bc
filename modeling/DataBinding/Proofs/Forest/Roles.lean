import DataBinding.Proofs.Forest.Ownership

/-!
# Roles

What giving a role to a definition does. Whoever played the role before is removed first, so the new
holder is adopted by a forest that is consistent without the old one.
-/

namespace DataBinding.Forest

/-- The forest after a role has gone from whoever played it to a definition that does not name its
new owner yet. -/
def recast (f : Forest) (owner : Handle) (d : Entry) (role : Role) (renewed : Content) :
    Except Fault Forest :=
  let f := f.put owner (some { d with content := renewed })
  match d.content.holder? role with
  | some previous => f.discard previous
  | none => .ok f

theorem attach_eq_ok_iff {f g : Forest} (wf : f.WellFormed) {owner child : Handle} {role : Role} :
    f.attach owner role child = .ok g ↔ ∃ c d renewed, f.get? child = some c ∧
      f.get? owner = some d ∧ c.parent = none ∧ ¬ f.Within child owner ∧
      d.content.setHolder? role (some child) = some renewed ∧
      ∃ recasted linked, f.recast owner d role renewed = .ok recasted ∧
        recasted.modify child (fun c => { c with parent := some owner }) = .ok linked ∧
        linked.rescope child = .ok g := by
  cases ownerFound : f.get? owner with
  | none => simp [attach, check, contains, ownerFound, bind, Except.bind]
  | some d =>
  cases childFound : f.get? child with
  | none => simp [attach, check, contains, childFound, ownerFound, bind, Except.bind]
  | some c =>
  simp only [attach, check_of_found childFound, check_of_found ownerFound, Outcome.ok_bind,
    Outcome.monadLift_eq, find_eq_ok_iff.2 childFound, find_eq_ok_iff.2 ownerFound, Outcome.lift_ok]
  cases free : c.parent with
  | some current => simp [free, throw, throwThe, MonadExceptOf.throw]
  | none =>
  cases set : d.content.setHolder? role (some child) with
  | none =>
    cases f.rejectCycle child owner <;>
      simp [set, throw, throwThe, MonadExceptOf.throw, bind, Except.bind]
  | some renewed =>
  have change : (f.modify owner fun d => { d with content := renewed }) =
      .ok (f.put owner (some { d with content := renewed })) := modify_eq_ok_iff.2 ⟨d, ownerFound, rfl⟩
  simp only [change, Outcome.lift_ok, Outcome.ok_bind, Outcome.bind_eq_ok_iff,
    rejectCycle_eq_ok_iff wf ownerFound]
  constructor
  · rintro ⟨_, apart, run⟩
    refine ⟨c, d, renewed, rfl, rfl, free, apart, set, ?_⟩
    cases filled : d.content.holder? role with
    | none =>
      simp only [filled, pure, Except.pure, Except.ok.injEq, exists_eq_left', Outcome.bind_eq_ok_iff,
        Outcome.lift_eq_ok_iff] at run
      obtain ⟨linked, named, rescoped⟩ := run
      exact ⟨_, linked, by rw [recast, filled], named, rescoped⟩
    | some previous =>
      simp only [filled, Outcome.bind_eq_ok_iff, Outcome.lift_eq_ok_iff] at run
      obtain ⟨recasted, discarded, linked, named, rescoped⟩ := run
      exact ⟨recasted, linked, by rw [recast, filled]; exact discarded, named, rescoped⟩
  · rintro ⟨_, _, _, same, same', _, apart, set', recasted, linked, recasts, named, rescoped⟩
    cases same
    cases same'
    rw [set] at set'
    cases set'
    refine ⟨⟨⟩, apart, ?_⟩
    cases filled : d.content.holder? role with
    | none =>
      rw [recast, filled] at recasts
      cases recasts
      simp only [Outcome.bind_eq_ok_iff, Outcome.lift_eq_ok_iff]
      exact ⟨_, rfl, linked, named, rescoped⟩
    | some previous =>
      rw [recast, filled] at recasts
      simp only [Outcome.bind_eq_ok_iff, Outcome.lift_eq_ok_iff]
      exact ⟨recasted, recasts, linked, named, rescoped⟩

/-- `recasted` is `f` after a role has changed hands, and `middle` is `f` without whoever played the
role before; the two differ in nothing but the owner, which is `m` in `middle`. -/
structure Recast (f middle recasted : Forest) (owner child : Handle) (d m : Entry)
    (renewed : Content) : Prop where
  origin : middle = f ∨ ∃ previous e, f.get? previous = some e ∧ f.Without middle previous
  before : middle.get? owner = some m
  parent : m.parent = d.parent
  dataPath : m.dataPath = d.dataPath
  paths : m.paths = d.paths
  listed : ({ d with content := renewed } : Entry).belongings.Perm (child :: m.belongings)
  after : recasted.get? owner = some { d with content := renewed }
  others : ∀ x, x ≠ owner → recasted.get? x = middle.get? x

theorem WellFormed.exists_discard_holder {f : Forest} (wf : f.WellFormed) {owner previous : Handle}
    {d : Entry} {role : Role} (found : f.get? owner = some d)
    (filled : d.content.holder? role = some previous) (changed : Entry) :
    previous ∈ d.belongings ∧ ∃ e k, f.get? previous = some e ∧ e.parent = some owner ∧
      (f.put owner (some changed)).discard previous = .ok k ∧
      (∀ x, f.Within previous x → k.get? x = none) ∧
      ∀ x, ¬ f.Within previous x → k.get? x = (f.put owner (some changed)).get? x := by
  have owned := Definition.mem_belongings_of_holder? filled
  obtain ⟨e, there, parent⟩ := wf.owned_names_owner found owned
  obtain ⟨k, run, _, vacated, kept⟩ := wf.exists_discard
    (g := f.put owner (some changed)) there (capacity_put ..) fun x below => by
      rw [get?_put_of_ne]
      rintro rfl
      exact Within.not_owner there parent below
  exact ⟨owned, e, k, there, parent, run, vacated, kept⟩

theorem WellFormed.exists_recast {f : Forest} (wf : f.WellFormed) {owner child : Handle} {d : Entry}
    {role : Role} {renewed : Content} (found : f.get? owner = some d)
    (set : d.content.setHolder? role (some child) = some renewed) :
    ∃ middle recasted m, f.recast owner d role renewed = .ok recasted ∧
      Recast f middle recasted owner child d m renewed := by
  have now : ∀ x, (f.put owner (some { d with content := renewed })).get? x =
      if x = owner then some { d with content := renewed } else f.get? x :=
    get?_put_of_found found _
  have listed := Definition.belongings_setHolder?_perm set
  cases filled : d.content.holder? role with
  | none =>
    rw [filled, Option.toList_none, List.append_nil] at listed
    refine ⟨f, _, d, by rw [recast, filled], .inl rfl, found, rfl, rfl, rfl, listed, ?_, ?_⟩
    · rw [now, if_pos rfl]
    · exact fun x differs => by rw [now, if_neg differs]
  | some previous =>
    obtain ⟨owned, e, recasted, there, parent, run, vacated, kept⟩ :=
      wf.exists_discard_holder found filled { d with content := renewed }
    have ownerOutside : ¬ f.Within previous owner := Within.not_owner there parent
    obtain ⟨middle, _, without⟩ := wf.exists_remove there
    refine ⟨middle, recasted, d.release previous, by rw [recast, filled]; exact run,
      .inr ⟨previous, e, there, without⟩, ?_, rfl, rfl, rfl, ?_, ?_, fun x differs => ?_⟩
    · rw [without.kept owner ownerOutside, found, Option.map_some]
    · have rest := Definition.belongings_release_perm (wf.nodup_belongings found) owned
      rw [filled] at listed
      have swapped := (List.perm_append_singleton _ _).symm.trans (listed.trans (rest.cons child))
      exact (swapped.trans (.swap _ _ _)).cons_inv
    · rw [kept owner ownerOutside, now, if_pos rfl]
    · by_cases below : f.Within previous x
      · rw [vacated x below, without.vacated x below]
      · rw [kept x below, now, if_neg differs, without.kept x below, wf.map_release there]
        rw [parent]
        exact fun same => differs (Option.some.inj same).symm

/-- A definition that is about to play a role is adopted by the forest without whoever played it
before. -/
theorem Consistent.exists_adopts {f recasted linked : Forest} {owner child : Handle} {c d : Entry}
    {role : Role} {renewed : Content} (consistent : f.Consistent) (childFound : f.get? child = some c)
    (ownerFound : f.get? owner = some d) (free : c.parent = none) (apart : ¬ f.Within child owner)
    (set : d.content.setHolder? role (some child) = some renewed)
    (recasts : f.recast owner d role renewed = .ok recasted)
    (named : recasted.modify child (fun c => { c with parent := some owner }) = .ok linked) :
    ∃ middle : Forest, middle.Consistent ∧ middle.Adopts linked child owner ∧ ¬ middle.Within child owner ∧
      ∀ {x : Handle} {e : Entry}, x ≠ child → linked.get? x = some e →
        ∃ d, middle.get? x = some d ∧ d.dataPath = e.dataPath ∧ d.paths = e.paths := by
  obtain ⟨middle, recasted', m, recasts', recast⟩ := consistent.links.exists_recast ownerFound set
  rw [recasts] at recasts'
  cases recasts'
  have differ : child ≠ owner := by
    rintro rfl
    exact apart (consistent.links.within_refl ownerFound)
  obtain ⟨c', childNow, rfl⟩ := modify_eq_ok_iff.1 named
  have childMiddle : middle.get? child = some c' := by rw [← recast.others child differ, childNow]
  obtain ⟨settled, apart, free⟩ :
      middle.Consistent ∧ ¬ middle.Within child owner ∧ c'.parent = none := by
    rcases recast.origin with rfl | ⟨previous, e, there, without⟩
    · rw [childFound] at childMiddle
      cases childMiddle
      exact ⟨consistent, apart, free⟩
    · obtain ⟨_, c'', again, rfl⟩ := without.was childMiddle
      rw [childFound] at again
      cases again
      exact ⟨consistent.without there without, fun within => apart (without.within within), free⟩
  have now : ∀ x, (recasted.put child (some { c' with parent := some owner })).get? x =
      if x = child then some { c' with parent := some owner } else recasted.get? x :=
    get?_put_of_found childNow _
  refine ⟨middle, settled, ?_, apart, fun {x e} differs after => ?_⟩
  · constructor
    case free => exact ⟨c', childMiddle, free⟩
    case named => exact ⟨_, by rw [now, if_pos rfl], rfl⟩
    case parents =>
      intro x differs
      rw [now, if_neg differs]
      by_cases isOwner : x = owner
      · rw [isOwner, recast.after, recast.before, Option.map_some, Option.map_some, recast.parent]
      · rw [recast.others x isOwner]
    case holdings =>
      intro x isOwner
      rw [now]
      split
      case isTrue same =>
        rw [same, childMiddle]
        rfl
      case isFalse => rw [recast.others x isOwner]
    case listed =>
      refine ⟨m, _, recast.before, ?_, recast.listed, fun hne => ?_⟩
      · rw [now, if_neg (Ne.symm differ), recast.after]
      · have container := consistent.links.isContainer_of_children ownerFound hne
        rwa [Definition.isContainer, Content.isContainer, Content.kind_of_setHolder? set]
  · rw [now, if_neg differs] at after
    by_cases isOwner : x = owner
    · subst isOwner
      rw [recast.after] at after
      cases after
      exact ⟨m, recast.before, recast.dataPath, recast.paths⟩
    · exact ⟨e, by rw [← recast.others x isOwner, after], rfl, rfl⟩

theorem Consistent.attach {f g : Forest} {owner child : Handle} {role : Role}
    (consistent : f.Consistent) (run : f.attach owner role child = .ok g) : g.Consistent := by
  obtain ⟨c, d, renewed, childFound, ownerFound, free, apart, set, recasted, linked, recasts, named,
    rescoped⟩ := (attach_eq_ok_iff consistent.links).1 run
  obtain ⟨middle, settled, adopts, apart, authored⟩ :=
    consistent.exists_adopts childFound ownerFound free apart set recasts named
  exact .rescope_adopted settled.paths (settled.links.adopt adopts apart) adopts authored rescoped

end DataBinding.Forest
