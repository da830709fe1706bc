import DataBinding.Proofs.Forest.Grafting
import DataBinding.Proofs.Forest.Reachable

/-!
# Structural changes without faults

A change of ownership may be refused, but on a consistent forest it never comes upon a handle that
leads nowhere or a walk that does not end, whatever handles it is given.
-/

namespace DataBinding

/-- A change that may be refused, but not because of a fault. -/
def Faultless {α : Type} (outcome : Except DefinitionError α) : Prop :=
  ∀ cause, outcome ≠ .error (.fault cause)

namespace Faultless

variable {α β : Type}

theorem ok (a : α) : Faultless (.ok a) :=
  fun _ same => by cases same

theorem of_exists {outcome : Except DefinitionError α} (succeeds : ∃ a, outcome = .ok a) :
    Faultless outcome := by
  obtain ⟨a, rfl⟩ := succeeds
  exact ok a

theorem throw {e : DefinitionError} (refusal : ∀ cause, e ≠ .fault cause) :
    Faultless (.error e : Except DefinitionError α) :=
  fun cause same => refusal cause (Except.error.inj same)

theorem of_error {e : DefinitionError} (safe : Faultless (.error e : Except DefinitionError α)) :
    Faultless (.error e : Except DefinitionError β) :=
  throw fun cause same => safe cause (congrArg Except.error same)

theorem bind {first : Except DefinitionError α} {next : α → Except DefinitionError β}
    (safe : Faultless first) (later : ∀ a, first = .ok a → Faultless (next a)) :
    Faultless (first >>= next) := by
  cases first with
  | ok a => exact later a rfl
  | error e =>
    intro cause same
    cases same
    exact safe cause rfl

theorem map {first : Except DefinitionError α} (safe : Faultless first) (change : α → β) :
    Faultless (first.map change) := by
  cases first with
  | ok a => exact ok _
  | error e =>
    intro cause same
    cases same
    exact safe cause rfl

end Faultless

namespace Forest

variable {f g other : Forest} {h child owner container : Handle} {c d : Entry}

theorem faultless_check (f : Forest) (h : Handle) : Faultless (f.check h) := by
  intro cause same
  rw [check] at same
  split at same <;> cases same

theorem WellFormed.faultless_rejectCycle (wf : f.WellFormed) (found : f.get? owner = some d) :
    Faultless (f.rejectCycle child owner) := by
  obtain ⟨hs, climb⟩ := wf.climbs found
  intro cause same
  simp only [rejectCycle, Outcome.monadLift_eq, climb.lineage_eq, Outcome.lift_ok,
    Outcome.ok_bind] at same
  split at same <;> cases same

theorem WellFormed.faultless_setParent (wf : f.WellFormed) (child owner : Handle) :
    Faultless (f.setParent child owner) := by
  by_cases succeeds : ∃ g, f.setParent child owner = .ok g
  · exact .of_exists succeeds
  · rw [setParent]
    refine .bind (faultless_check f child) fun _ checked => ?_
    refine .bind (faultless_check f owner) fun _ checked' => ?_
    obtain ⟨c, childFound⟩ := found_of_check checked
    obtain ⟨d, ownerFound⟩ := found_of_check checked'
    simp only [Outcome.monadLift_eq, find_eq_ok_iff.2 childFound, find_eq_ok_iff.2 ownerFound,
      Outcome.lift_ok, Outcome.ok_bind]
    cases free : c.parent with
    | some current =>
      simp only
      split
      case isTrue => exact .ok f
      case isFalse => exact .throw fun _ => DefinitionError.noConfusion
    | none =>
      cases isContainer : d.isContainer with
      | false => exact .throw fun _ => DefinitionError.noConfusion
      | true =>
        refine .bind (wf.faultless_rejectCycle ownerFound) fun _ passed => ?_
        have apart := (rejectCycle_eq_ok_iff wf ownerFound).1 passed
        obtain ⟨g, run, _⟩ := wf.exists_setParent childFound ownerFound free isContainer apart
        exact absurd ⟨g, run⟩ succeeds

theorem WellFormed.exists_of_recast (wf : f.WellFormed) (childFound : f.get? child = some c)
    (ownerFound : f.get? owner = some d) (free : c.parent = none) (differ : child ≠ owner)
    {role : Role} {renewed : Content} (recasts : f.recast owner d role renewed = .ok g) :
    ∃ c', g.get? child = some c' := by
  cases filled : d.content.holder? role with
  | none =>
    rw [recast, filled] at recasts
    cases recasts
    exact ⟨c, by rw [get?_put_of_ne differ, childFound]⟩
  | some previous =>
    obtain ⟨_, e, k, there, parent, run, _, kept⟩ :=
      wf.exists_discard_holder ownerFound filled { d with content := renewed }
    simp only [recast, filled, run] at recasts
    cases recasts
    refine ⟨c, ?_⟩
    rw [kept child, get?_put_of_ne differ, childFound]
    intro within
    rcases within.cases_owner childFound with rfl | ⟨o, named, _⟩
    · rw [childFound] at there
      cases there
      rw [free] at parent
      cases parent
    · rw [free] at named
      cases named

/-- A role that the owner has can be given to any definition without an owner that is not around the
new one. -/
theorem Consistent.exists_attach (consistent : f.Consistent) (childFound : f.get? child = some c)
    (ownerFound : f.get? owner = some d) (free : c.parent = none) (apart : ¬ f.Within child owner)
    {role : Role} {renewed : Content}
    (set : d.content.setHolder? role (some child) = some renewed) :
    ∃ g, f.attach owner role child = .ok g := by
  have differ : child ≠ owner := by
    rintro rfl
    exact apart (consistent.links.within_refl ownerFound)
  obtain ⟨_, recasted, _, recasts, _⟩ := consistent.links.exists_recast ownerFound set
  obtain ⟨c', childNow⟩ :=
    consistent.links.exists_of_recast childFound ownerFound free differ recasts
  have named : recasted.modify child (fun c => { c with parent := some owner }) =
      .ok (recasted.put child (some { c' with parent := some owner })) :=
    modify_eq_ok_iff.2 ⟨c', childNow, rfl⟩
  obtain ⟨middle', settled, adopts, apart', _⟩ :=
    consistent.exists_adopts childFound ownerFound free apart set recasts named
  obtain ⟨g, run, _⟩ := (settled.links.adopt adopts apart').exists_rescope (get?_put_self childNow _)
  exact ⟨g, (attach_eq_ok_iff consistent.links).2
    ⟨c, d, renewed, childFound, ownerFound, free, apart, set, _, _, recasts, named, run⟩⟩

theorem Consistent.faultless_attach (consistent : f.Consistent) (owner : Handle) (role : Role)
    (child : Handle) : Faultless (f.attach owner role child) := by
  by_cases succeeds : ∃ g, f.attach owner role child = .ok g
  · exact .of_exists succeeds
  · rw [Forest.attach]
    refine .bind (faultless_check f owner) fun _ checked => ?_
    refine .bind (faultless_check f child) fun _ checked' => ?_
    obtain ⟨d, ownerFound⟩ := found_of_check checked
    obtain ⟨c, childFound⟩ := found_of_check checked'
    simp only [Outcome.monadLift_eq, find_eq_ok_iff.2 childFound, find_eq_ok_iff.2 ownerFound,
      Outcome.lift_ok, Outcome.ok_bind]
    cases free : c.parent with
    | some current => exact .throw fun _ => DefinitionError.noConfusion
    | none =>
      refine .bind (consistent.links.faultless_rejectCycle ownerFound) fun _ passed => ?_
      have apart := (rejectCycle_eq_ok_iff consistent.links ownerFound).1 passed
      cases set : d.content.setHolder? role (some child) with
      | none => exact .throw fun _ => DefinitionError.noConfusion
      | some renewed =>
        exact absurd (consistent.exists_attach childFound ownerFound free apart set) succeeds

theorem WellFormed.exists_setDataPath (wf : f.WellFormed) (found : f.get? h = some d)
    (dataPath : String) : ∃ g, f.setDataPath h dataPath = .ok g := by
  let e : Entry := { d with dataPath }
  have same : f.SameLinks (f.put h (some e)) := sameLinks_put found rfl
  have change : f.modify h (fun d => { d with dataPath }) = .ok (f.put h (some e)) :=
    modify_eq_ok_iff.2 ⟨d, found, rfl⟩
  obtain ⟨g, run, _⟩ := (wf.congr same).exists_rescope (get?_put_self found (some e))
  refine ⟨g, ?_⟩
  rw [setDataPath, change]
  exact run

/-! ### Grafts -/

theorem Consistent.faultless_graft (consistent : f.Consistent) (otherConsistent : other.Consistent)
    (container : Handle) : Faultless (f.graft container other) := by
  by_cases succeeds : ∃ grafted, f.graft container other = .ok grafted
  · exact .of_exists succeeds
  · rw [Forest.graft]
    refine .bind (faultless_check f container) fun _ checked => ?_
    obtain ⟨d, found⟩ := found_of_check checked
    simp only [Outcome.monadLift_eq, find_eq_ok_iff.2 found, Outcome.lift_ok, Outcome.ok_bind]
    cases isContainer : d.isContainer with
    | false => exact .throw fun _ => DefinitionError.noConfusion
    | true =>
      cases first : other.root? with
      | none => exact .throw fun _ => DefinitionError.noConfusion
      | some root =>
        obtain ⟨_, grafted, run, _⟩ := consistent.exists_graft otherConsistent found isContainer first
        exact absurd ⟨grafted, run⟩ succeeds

theorem Consistent.faultless_graftAll (consistent : f.Consistent) (container : Handle)
    {others : List Forest} (othersConsistent : ∀ other ∈ others, other.Consistent) :
    Faultless (f.graftAll container others).outcome := by
  induction others generalizing f with
  | nil => exact .ok []
  | cons other rest ih =>
    rw [List.forall_mem_cons] at othersConsistent
    rw [Forest.graftAll]
    have safe := consistent.faultless_graft othersConsistent.1 container
    cases run : f.graft container other with
    | error e =>
      rw [run] at safe
      exact safe.of_error
    | ok grafted =>
      exact (ih (consistent.graft othersConsistent.1 run) othersConsistent.2).map _

theorem Consistent.faultless_replaceChildren (consistent : f.Consistent) (container : Handle)
    {others : List Forest} (othersConsistent : ∀ other ∈ others, other.Consistent) :
    Faultless (f.replaceChildren container others).outcome := by
  rcases consistent.replaceChildren_cases container others with ⟨_, refused⟩ |
    ⟨d, _, ⟨_, refused⟩ | ⟨_, g, run, replaced⟩⟩
  · rw [refused]
    exact .throw fun _ => DefinitionError.noConfusion
  · rw [refused]
    exact .throw fun _ => DefinitionError.noConfusion
  · rw [replaced]
    exact (consistent.removeAll run).faultless_graftAll container othersConsistent

end Forest

end DataBinding
