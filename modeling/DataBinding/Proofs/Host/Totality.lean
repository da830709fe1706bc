import DataBinding.Host.Report
import DataBinding.Host.Validation
import DataBinding.Proofs.Binding.Edits
import DataBinding.Proofs.Forest.Liveness

/-!
# Everything is answered

On a well-formed forest all that is asked about a definition that is there is answered. Links lead to
definitions, so no handle on the way leads nowhere, and they do not run in a circle, so every walk
ends. Reports and validations go through a branch and ask about each definition in it.
-/

namespace DataBinding

/-- Checks that come to a result for every definition of a forest. -/
def Checks.Answer (checks : Checks) (f : Forest) : Prop :=
  ∀ entry ∈ checks.table, ∀ h d, f.get? h = some d →
    ∀ data, ∃ reason, entry.2 f h data = .ok reason

namespace Forest

variable {f : Forest} {h : Handle} {d : Entry} {m : Type → Type} (observers : Observers m)

/-- What is asked about each definition of a branch in turn is answered for the branch. -/
theorem Reads.exists_fold {α : Type}
    {step : Option Role → Handle → Entry → Branch.Below (Except Fault α) → Except Fault α}
    {b : Branch} (reads : f.Reads b)
    (total : ∀ role x d below, f.get? x = some d → (∀ piece ∈ below, ∃ a, piece.2 = .ok a) →
      ∃ a, step role x d below = .ok a) : ∃ a, b.fold step = .ok a := by
  induction reads with
  | @mk role h d owned found listed each ih =>
    rw [Branch.fold_mk]
    refine total role h d _ found fun piece inside => ?_
    obtain ⟨b, owns, rfl⟩ := List.mem_map.1 inside
    exact ih b owns

theorem WellFormed.exists_identity (wf : f.WellFormed) (found : f.get? h = some d) :
    ∃ identity, f.identity h = .ok identity := by
  obtain ⟨hs, climb⟩ := wf.climbs found
  exact climb.exists_identity

theorem WellFormed.exists_isHidden (wf : f.WellFormed) (found : f.get? h = some d) (data : Data) :
    ∃ hidden, f.isHidden h data = .ok hidden := by
  obtain ⟨b, read, _⟩ := wf.exists_branch found
  exact ⟨b.isHidden data, by rw [isHidden, read]; rfl⟩

theorem firstReading_eq (found : f.get? h = some d) (data : Data) :
    f.firstReading h data = .ok (d.firstReading data) := by
  rw [firstReading, find_eq_ok_iff.2 found]
  rfl

/-! ### Bundles -/

theorem Climb.exists_bundleAlong {hs : List Handle} (climb : f.Climb h hs) :
    ∃ found, f.bundleAlong hs = .ok found := by
  induction climb with
  | @top h d found free =>
    rw [bundleAlong, find_eq_ok_iff.2 found, Outcome.ok_bind]
    cases d.bundle <;> exact ⟨_, rfl⟩
  | @up h owner d above found owned rest ih =>
    rw [bundleAlong, find_eq_ok_iff.2 found, Outcome.ok_bind]
    cases d.bundle with
    | none => exact ih
    | some b => exact ⟨_, rfl⟩

theorem WellFormed.exists_bundleFor (wf : f.WellFormed) (found : f.get? h = some d) :
    ∃ bundle, f.bundleFor h = .ok bundle := by
  obtain ⟨hs, climb⟩ := wf.climbs found
  obtain ⟨nearest, along⟩ := climb.exists_bundleAlong
  obtain ⟨identity, named⟩ := climb.exists_identity
  simp only [bundleFor, climb.lineage_eq, along, named, Outcome.ok_bind]
  cases nearest with
  | none => exact ⟨_, rfl⟩
  | some nearest =>
    simp only
    split <;> exact ⟨_, rfl⟩

/-! ### Observers -/

theorem capability_eq {α : Type} (found : f.get? h = some d) (pick : Observer m → Option α) :
    f.capability observers h pick = .ok (d.observer.bind fun o => pick (observers o)) := by
  rw [capability, find_eq_ok_iff.2 found]
  rfl

theorem exists_translatedLabel (found : f.get? h = some d) (e : Entry) :
    ∃ label, f.translatedLabel observers h e = .ok label := by
  rw [translatedLabel]
  cases e.content.label?.filter (· ≠ "") with
  | none => exact ⟨none, rfl⟩
  | some label =>
    simp only [translate, capability_eq observers found, Outcome.ok_bind]
    split <;> exact ⟨_, rfl⟩

theorem validator_eq (found : f.get? h = some d) (name : String) :
    f.validator observers h name =
      .ok (d.observer.bind fun o => (observers o).getValidator.bind fun lookup => lookup name) := by
  rw [validator, capability_eq observers found, Outcome.ok_bind]
  cases d.observer <;> rfl

/-! ### Reports -/

theorem WellFormed.exists_reportLine (wf : f.WellFormed) (found : f.get? h = some d) (data : Data)
    (role : Option Role) : ∃ line, f.reportLine observers data role h d = .ok line := by
  obtain ⟨label, labelled⟩ := exists_translatedLabel observers found d
  obtain ⟨identity, named⟩ := wf.exists_identity found
  obtain ⟨hidden, shows⟩ := wf.exists_isHidden found data
  simp only [reportLine, labelled, named, shows, Outcome.ok_bind]
  exact ⟨_, rfl⟩

theorem WellFormed.exists_report (wf : f.WellFormed) (found : f.get? h = some d) (data : Data) :
    ∃ lines, f.report observers h data = .ok lines := by
  obtain ⟨b, read, reads, _⟩ := wf.exists_branch found
  rw [report, read]
  refine reads.exists_fold fun role x d below there answered => ?_
  obtain ⟨line, first⟩ := wf.exists_reportLine observers there data role
  obtain ⟨lines, rest⟩ := Outcome.exists_mapM answered
  rw [first, Outcome.ok_bind, rest]
  exact ⟨_, rfl⟩

/-! ### Validation -/

def knownValidators (d : Entry) : List Validator :=
  d.validators.filterMap fun name =>
    d.observer.bind fun o => (observers o).getValidator.bind fun lookup => lookup name

theorem validatorMessages_eq (found : f.get? h = some d) (v : Value) :
    f.validatorMessages observers h d.validators v =
      .ok ((knownValidators observers d).filterMap fun reject => reject v) := by
  rw [validatorMessages, Outcome.mapM_of_total fun name _ => validator_eq observers found name,
    Outcome.ok_bind, List.filterMap_map, knownValidators, List.filterMap_filterMap]
  rfl

theorem ownIssues_eq (found : f.get? h = some d) {identity : String}
    (named : f.identity h = .ok identity) (checks : Checks) :
    f.ownIssues observers checks h data = ((checks.forKind d.kind).mapM fun (check : Check) =>
      check f h data).map fun reasons =>
        (reasons.filterMap id ++ (knownValidators observers d).filterMap fun reject =>
          reject (d.firstReading data).toValue).map (Issue.mk identity) := by
  simp only [ownIssues, find_eq_ok_iff.2 found, checkMessages, validatorMessages_eq observers found,
    named, Outcome.ok_bind]
  cases (checks.forKind d.kind).mapM fun (check : Check) => check f h data with
  | error e => rfl
  | ok reasons => exact Outcome.mapM_of_total fun message _ => rfl

theorem WellFormed.exists_ownIssues (wf : f.WellFormed) (found : f.get? h = some d)
    {checks : Checks} (answer : checks.Answer f) (data : Data) :
    ∃ issues, f.ownIssues observers checks h data = .ok issues := by
  have answered : ∀ check ∈ checks.forKind d.kind, ∃ reason, check f h data = .ok reason := by
    intro check listed
    rw [Checks.forKind_eq] at listed
    obtain ⟨entry, inside, rfl⟩ := List.mem_map.1 listed
    exact answer entry (List.mem_of_mem_filter inside) h d found data
  obtain ⟨reasons, given⟩ := Outcome.exists_mapM answered
  obtain ⟨identity, named⟩ := wf.exists_identity found
  exact ⟨_, by rw [ownIssues_eq observers found named, given]; rfl⟩

theorem WellFormed.exists_validate (wf : f.WellFormed) (found : f.get? h = some d) {checks : Checks}
    (answer : checks.Answer f) (data : Data) :
    ∃ issues, f.validate observers checks h data = .ok issues := by
  obtain ⟨b, read, reads, _⟩ := wf.exists_branch found
  rw [validate, read]
  refine reads.exists_fold fun role x d below there answered => ?_
  obtain ⟨hidden, shows⟩ := wf.exists_isHidden there data
  rw [shows, Outcome.ok_bind]
  cases hidden with
  | true => exact ⟨[], rfl⟩
  | false =>
    obtain ⟨own, first⟩ := wf.exists_ownIssues observers there answer data
    simp only [Bool.false_eq_true, if_false, first, Outcome.ok_bind]
    -- what offers the values is left out, and whatever is left has been answered
    refine Outcome.exists_bind (Outcome.exists_mapM fun piece inside => ?_) fun issues => ⟨_, rfl⟩
    exact answered piece (List.mem_of_mem_filter inside)

/-- The checks that come with the kinds ask about a definition and about who offers its values. -/
theorem WellFormed.answer_standard (wf : f.WellFormed) : Checks.standard.Answer f := by
  have required : ∀ {h d}, f.get? h = some d → ∀ data,
      ∃ reason, Checks.requiredValue f h data = .ok reason := by
    intro h d found data
    simp only [Checks.requiredValue, find_eq_ok_iff.2 found, Outcome.ok_bind]
    split <;> exact ⟨_, rfl⟩
  have boolean : ∀ {h d}, f.get? h = some d → ∀ data,
      ∃ reason, Checks.booleanValue f h data = .ok reason := by
    intro h d found data
    simp only [Checks.booleanValue, firstReading_eq found, Outcome.ok_bind]
    split <;> exact ⟨_, rfl⟩
  have listed : ∀ {h d}, f.get? h = some d → ∀ data,
      ∃ reason, Checks.listedValue f h data = .ok reason := by
    intro h d found data
    simp only [Checks.listedValue, find_eq_ok_iff.2 found, Outcome.ok_bind]
    cases filled : d.content.holder? .possibleValues with
    | none => exact ⟨none, rfl⟩
    | some holder =>
      obtain ⟨e, there, _⟩ := wf.holder_names_owner found filled
      simp only [firstReading_eq there, firstReading_eq found, Outcome.ok_bind]
      split
      · split <;> exact ⟨_, rfl⟩
      · exact ⟨_, rfl⟩
  intro entry inside h d found data
  have entries : entry ∈ [(Kind.input, Checks.requiredValue), (.dropdown, Checks.requiredValue),
    (.dropdown, Checks.listedValue), (.checkbox, Checks.booleanValue)] := inside
  simp only [List.mem_cons, List.not_mem_nil, or_false] at entries
  rcases entries with rfl | rfl | rfl | rfl
  · exact required found data
  · exact required found data
  · exact listed found data
  · exact boolean found data

/-! ### All of it -/

/-- Whatever is asked about a definition is answered, and whatever is to be done to it is done, or
refused for another reason than a fault. -/
structure Serves (f : Forest) (h : Handle) : Prop where
  owned : ∃ hs, f.owned h = .ok hs
  lineage : ∃ hs, f.lineage h = .ok hs
  subtree : ∃ hs, f.subtree h = .ok hs
  identity : ∃ text, f.identity h = .ok text
  readings : ∀ data, ∃ readings, f.readings h data = .ok readings
  firstReading : ∀ data, ∃ reading, f.firstReading h data = .ok reading
  diagnostics : ∀ data, ∃ diagnostics, f.diagnostics h data = .ok diagnostics
  assign : ∀ data v, ∃ assigned, f.assign h data v = .ok assigned
  prune : ∀ data, ∃ kept, f.prune h data = .ok kept
  isHidden : ∀ data, ∃ hidden, f.isHidden h data = .ok hidden
  hasEdits : ∃ edited, f.hasEdits h = .ok edited
  clearEdits : ∃ g, f.clearEdits h = .ok g
  setObserver : ∀ observer, ∃ g notices, f.setObserver h observer = .ok (g, notices)
  setParent : ∀ owner, Faultless (f.setParent h owner)
  attach : ∀ role child, Faultless (f.attach h role child)
  setDataPath : ∀ dataPath, ∃ g, f.setDataPath h dataPath = .ok g
  remove : ∃ g, f.remove h = .ok g
  graft : ∀ other, Reachable other → Faultless (f.graft h other)
  replaceChildren : ∀ others, (∀ other ∈ others, Reachable other) →
    Faultless (f.replaceChildren h others).outcome
  extract : ∃ g, f.extract h = .ok g
  toJson : ∃ json, f.toJson h = .ok json
  bundleFor : ∃ bundle, f.bundleFor h = .ok bundle
  /-- What fails in validation can only be a check that the host has brought. -/
  validate : ∀ {m : Type → Type} (observers : Observers m) (checks : Checks) (data : Data),
    checks.Answer f → ∃ issues, f.validate observers checks h data = .ok issues
  validateStandard : ∀ {m : Type → Type} (observers : Observers m) (data : Data),
    ∃ issues, f.validate observers .standard h data = .ok issues
  report : ∀ {m : Type → Type} (observers : Observers m) (data : Data),
    ∃ lines, f.report observers h data = .ok lines

/-- On a reachable forest nothing that is asked of a definition that is there comes upon a fault: a
handle that leads nowhere or links that run in a circle. -/
theorem Reachable.serves (reached : Reachable f) (found : f.get? h = some d) : f.Serves h := by
  have consistent := reached.consistent
  have wf := consistent.links
  have live := find_eq_ok_iff.2 found
  obtain ⟨hs, climb⟩ := wf.climbs found
  obtain ⟨b, read, _⟩ := wf.exists_branch found
  constructor
  case owned => exact ⟨_, by rw [Forest.owned, live]; rfl⟩
  case lineage => exact ⟨hs, climb.lineage_eq⟩
  case subtree => exact ⟨b.handles, by rw [Forest.subtree, read]; rfl⟩
  case identity => exact climb.exists_identity
  case readings => exact fun data => ⟨_, by rw [Forest.readings, live]; rfl⟩
  case firstReading => exact fun data => ⟨_, firstReading_eq found data⟩
  case diagnostics => exact fun data => ⟨_, by rw [Forest.diagnostics, live]; rfl⟩
  case assign =>
    intro data v
    obtain ⟨assigned, run, _⟩ := wf.exists_assign found data v
    exact ⟨assigned, run⟩
  case prune => exact fun data => ⟨_, by rw [Forest.prune, live]; rfl⟩
  case isHidden => exact wf.exists_isHidden found
  case hasEdits => exact ⟨b.isEdited, by rw [Forest.hasEdits, read]; rfl⟩
  case clearEdits =>
    obtain ⟨_, g, run, _⟩ := wf.exists_clearEdits found
    exact ⟨g, run⟩
  case setObserver =>
    intro observer
    obtain ⟨_, g, _, run, _⟩ := wf.exists_setObserver found observer
    exact ⟨g, _, run⟩
  case setParent => exact wf.faultless_setParent h
  case attach => exact consistent.faultless_attach h
  case setDataPath => exact wf.exists_setDataPath found
  case remove => exact wf.exists_remove_any h
  case graft => exact fun other reached' => consistent.faultless_graft reached'.consistent h
  case replaceChildren =>
    exact fun others all => consistent.faultless_replaceChildren h fun other inside =>
      (all other inside).consistent
  case extract =>
    obtain ⟨_, g, _, run, _⟩ := wf.exists_extract found
    exact ⟨g, run⟩
  case toJson => exact ⟨_, by rw [Forest.toJson, blueprint, read]; rfl⟩
  case bundleFor => exact wf.exists_bundleFor found
  case validate =>
    exact fun observers checks data answer => wf.exists_validate observers found answer data
  case validateStandard =>
    exact fun observers data => wf.exists_validate observers found wf.answer_standard data
  case report => exact fun observers data => wf.exists_report observers found data

theorem Reachable.serves_of_form : ∃ f, Reachable f ∧ f.get? ⟨1⟩ = none ∧
    f.owned ⟨3⟩ = .ok [⟨4⟩] ∧ f.lineage ⟨3⟩ = .ok [⟨3⟩, ⟨0⟩] ∧ f.Serves ⟨3⟩ := by
  have reached := Reachable.empty.afterAll
    [.insert (.form "" none none) "a" rfl, .insert (.textItem "") "" rfl,
      .insert (.textItem "") "" rfl, .insert (.dropdown "" true none) "b" rfl,
      .insert (.panel "") "%1%.offers" rfl, .setParent ⟨3⟩ ⟨0⟩, .attach ⟨0⟩ .header ⟨1⟩,
      .attach ⟨0⟩ .header ⟨2⟩, .attach ⟨3⟩ .possibleValues ⟨4⟩] (by simp [Call.others])
  exact ⟨_, reached, rfl, rfl, rfl, Reachable.serves reached rfl⟩

end Forest

end DataBinding
