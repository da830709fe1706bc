import DataBinding.Proofs.Host.Totality
import Mathlib.Data.List.Flatten

/-!
# What validation covers

Validation goes down a branch, turns back where a definition is hidden, and passes over whoever offers
the possible values of a dropdown. What it says is what the definitions on its way say, one after the
other.
-/

namespace DataBinding

/-- The definitions that validation of a branch comes to. -/
def Branch.covered (f : Forest) (data : Data) (branch : Branch) : List Handle :=
  branch.fold fun _ h _ below =>
    if f.isHidden h data = .ok false then
      h :: (below.filter fun (role, _) => role ≠ some .possibleValues).flatMap (·.2)
    else []

namespace Branch

variable {f : Forest} {data : Data} {role : Option Role} {h x : Handle} {d : Entry}
  {owned : List Branch}

theorem covered_mk : (Branch.mk role h d owned).covered f data =
    if f.isHidden h data = .ok false then
      h :: (owned.filter fun b => b.role ≠ some .possibleValues).flatMap (covered f data)
    else [] := by
  rw [covered, fold_mk, List.filter_map, List.flatMap_map]
  rfl

theorem mem_covered_mk : x ∈ (Branch.mk role h d owned).covered f data ↔
    f.isHidden h data = .ok false ∧
      (x = h ∨ ∃ b ∈ owned, b.role ≠ some .possibleValues ∧ x ∈ b.covered f data) := by
  rw [covered_mk]
  split
  case isTrue shows => simp [shows, and_assoc]
  case isFalse hides => simp [hides]

end Branch

namespace Forest

variable {f : Forest} {h x c y : Handle} {d : Entry} {data : Data}

/-! ### Definitions between two others -/

/-- Nobody from one definition down to another is hidden, and no step on the way down leads to whoever
offers the possible values. -/
structure Exposed (f : Forest) (data : Data) (h x : Handle) : Prop where
  visible : ∀ y, f.Within h y → f.Within y x → f.isHidden y data = .ok false
  passes : ∀ owner d y, f.Within h owner → f.get? owner = some d → f.Within y x →
    d.content.holder? .possibleValues ≠ some y

theorem WellFormed.exposed_self (wf : f.WellFormed) (found : f.get? h = some d) :
    f.Exposed data h h ↔ f.isHidden h data = .ok false := by
  constructor
  · intro exposed
    exact exposed.visible h (wf.within_refl found) (wf.within_refl found)
  · intro shows
    refine ⟨fun y lower upper => ?_, fun owner o y lower there upper filled => ?_⟩
    · rwa [lower.antisymm upper]
    · -- the owner would be below what it owns
      obtain ⟨e, below, named⟩ := wf.holder_names_owner there filled
      exact Within.not_owner below named (lower.trans upper)

theorem WellFormed.exposed_below (wf : f.WellFormed) (found : f.get? h = some d)
    (owned : c ∈ d.belongings) (through : f.Within c x) :
    f.Exposed data h x ↔ f.isHidden h data = .ok false ∧
      d.content.holder? .possibleValues ≠ some c ∧ f.Exposed data c x := by
  obtain ⟨e, childFound, named⟩ := wf.owned_names_owner found owned
  have below : f.Within h c := wf.within_of_mem_belongings found owned
  have first := wf.within_refl found
  constructor
  · intro exposed
    refine ⟨exposed.visible h first (through.trans below), exposed.passes h d c first found through,
      fun y lower upper => exposed.visible y (lower.trans below) upper,
      fun owner o y lower there upper => exposed.passes owner o y (lower.trans below) there upper⟩
  · rintro ⟨shows, differs, exposed⟩
    refine ⟨fun y lower upper => ?_, fun owner o y lower there upper filled => ?_⟩
    · rcases Within.cases_between childFound named through lower upper with rfl | inside
      · exact shows
      · exact exposed.visible y inside upper
    · obtain ⟨e', holderFound, holderNamed⟩ := wf.holder_names_owner there filled
      have around : f.Within owner x :=
        upper.trans (.of_owner holderFound holderNamed (wf.within_refl there))
      rcases Within.cases_between childFound named through lower around with rfl | inside
      · rw [found] at there
        cases there
        obtain rfl := Within.eq_of_siblings childFound holderFound named holderNamed through upper
        exact differs filled
      · exact exposed.passes owner o y inside there upper filled

/-! ### The definitions that are covered -/

theorem Reads.covered_sublist {b : Branch} (reads : f.Reads b) :
    (b.covered f data).Sublist b.handles := by
  induction reads with
  | @mk role h d owned found listed each ih =>
    rw [Branch.covered_mk, Branch.handles_mk]
    split
    case isTrue =>
      -- some branches are left out, and of the others some definitions
      exact .cons_cons h ((List.filter_sublist.flatMap _).trans (List.Sublist.flatMap_right owned ih))
    case isFalse => exact List.nil_sublist _

theorem Reads.mem_covered_iff (wf : f.WellFormed) {b : Branch} (reads : f.Reads b) :
    x ∈ b.covered f data ↔ x ∈ b.handles ∧ f.Exposed data b.handle x := by
  induction reads with
  | @mk role h d owned found listed each ih =>
    have whole : f.Reads (.mk role h d owned) := .mk found listed each
    have step : ∀ b ∈ owned, x ∈ b.handles → (f.Exposed data h x ↔
        f.isHidden h data = .ok false ∧ b.role ≠ some .possibleValues ∧ f.Exposed data b.handle x) := by
      intro b inside shown
      have owns : b.handle ∈ d.belongings := by
        rw [whole.belongings_eq]
        exact List.mem_map_of_mem inside
      rw [wf.exposed_below found owns (((each b inside).mem_handles_iff wf).1 shown),
        Ne, Ne, whole.role_eq_iff wf inside]
    rw [Branch.mem_covered_mk, Branch.mem_handles_mk]
    constructor
    · rintro ⟨shows, rfl | ⟨b, inside, apart, later⟩⟩
      · exact ⟨.inl rfl, (wf.exposed_self found).2 shows⟩
      · obtain ⟨shown, exposed⟩ := (ih b inside).1 later
        exact ⟨.inr ⟨b, inside, shown⟩, (step b inside shown).2 ⟨shows, apart, exposed⟩⟩
    · rintro ⟨rfl | ⟨b, inside, shown⟩, exposed⟩
      · exact ⟨(wf.exposed_self found).1 exposed, .inl rfl⟩
      · obtain ⟨shows, apart, further⟩ := (step b inside shown).1 exposed
        exact ⟨shows, .inr ⟨b, inside, apart, (ih b inside).2 ⟨shown, further⟩⟩⟩

/-! ### Issues -/

variable {m : Type → Type} (observers : Observers m)

/-- What one definition says: the reasons that the checks added for its kind give, in the order in which
they were added, and then those that the validators give for the value behind it, each under its
identity. -/
def Says (f : Forest) (checks : Checks) (data : Data) (x : Handle) (issues : List Issue) : Prop :=
  ∃ d identity reasons, f.get? x = some d ∧ f.identity x = .ok identity ∧
    List.Forall₂ (fun (entry : Kind × Check) reason => entry.2 f x data = .ok reason)
      (checks.table.filter fun entry => entry.1 = d.kind) reasons ∧
    issues = (reasons.filterMap id ++ (knownValidators observers d).filterMap fun reject =>
      reject (d.firstReading data).toValue).map (Issue.mk identity)

theorem WellFormed.ownIssues_eq_ok_iff (wf : f.WellFormed) {checks : Checks} {issues : List Issue} :
    f.ownIssues observers checks h data = .ok issues ↔ f.Says observers checks data h issues := by
  cases found : f.get? h with
  | none => simp [ownIssues, Says, find, found, bind, Except.bind]
  | some d =>
    obtain ⟨identity, named⟩ := wf.exists_identity found
    rw [ownIssues_eq observers found named, Outcome.map_eq_ok_iff]
    simp only [Says, found, named, Option.some.injEq, Except.ok.injEq, exists_and_left,
      exists_eq_left', Outcome.mapM_eq_ok_iff, Checks.forKind_eq, List.forall₂_map_left_iff,
      eq_comm (b := issues)]

theorem branchIssues_mk (checks : Checks) {role : Option Role} {owned : List Branch}
    (shows : f.isHidden h data = .ok false) :
    f.branchIssues observers checks data (.mk role h d owned) = (do
      return (← f.ownIssues observers checks h data) ++
        (← Outcome.gather (f.branchIssues observers checks data)
          (owned.filter fun b => b.role ≠ some .possibleValues))) := by
  rw [branchIssues, Branch.fold_mk, shows, Outcome.ok_bind, List.filter_map]
  simp only [Bool.false_eq_true, if_false, List.mapM_map]
  congr 1
  funext own
  rw [Outcome.gather]
  show (List.mapM (f.branchIssues observers checks data)
    (owned.filter fun b => b.role ≠ some .possibleValues) >>= _) = _
  cases (owned.filter fun b => b.role ≠ some .possibleValues).mapM
    (f.branchIssues observers checks data) <;> rfl

/-- Validation of a branch is what the definitions it comes to say, one after the other. -/
theorem Reads.branchIssues_eq (wf : f.WellFormed) {b : Branch} (reads : f.Reads b) (checks : Checks) :
    f.branchIssues observers checks data b =
      Outcome.gather (fun x => f.ownIssues observers checks x data) (b.covered f data) := by
  induction reads with
  | @mk role h d owned found listed each ih =>
    rw [Branch.covered_mk]
    obtain ⟨hidden, shows⟩ := wf.exists_isHidden found data
    cases hidden with
    | true =>
      rw [branchIssues, Branch.fold_mk, shows]
      rfl
    | false =>
      rw [if_pos shows, branchIssues_mk observers checks shows, Outcome.gather_cons,
        Outcome.gather_flatMap]
      congr 1
      funext own
      rw [Outcome.gather_congr fun b inside => ih b (List.mem_of_mem_filter inside)]

/-- Validation comes to a result as long as the checks of the host do. It says what the definitions of
the branch say that are not hidden, under nobody hidden, and neither offer possible values nor are below
someone who does, in the order of the branch. -/
theorem Reachable.validate_eq_ok_iff (reached : Reachable f) (found : f.get? h = some d)
    (checks : Checks) (data : Data) : ∃ order shown, f.subtree h = .ok order ∧ order.Nodup ∧
      shown.Sublist order ∧ (∀ x, x ∈ shown ↔ x ∈ order ∧ f.Exposed data h x) ∧
      (checks.Answer f → ∃ issues, f.validate observers checks h data = .ok issues) ∧
      ∀ issues, f.validate observers checks h data = .ok issues ↔
        ∃ each, List.Forall₂ (f.Says observers checks data) shown each ∧ issues = each.flatten := by
  have wf := reached.consistent.links
  obtain ⟨b, read, reads, _, rfl⟩ := wf.exists_branch found
  refine ⟨b.handles, b.covered f data, ?_, (reads.ownersFirst wf).nodup, reads.covered_sublist,
    fun x => reads.mem_covered_iff wf, fun answer => wf.exists_validate observers found answer data,
    fun issues => ?_⟩
  · rw [subtree, read]
    rfl
  · rw [validate, read, Outcome.ok_bind, reads.branchIssues_eq observers wf,
      Outcome.gather_eq_ok_iff]
    simp only [wf.ownIssues_eq_ok_iff observers]

private def notes (hidden : Bool) (validators : List String) : Notes where
  key := none
  hidden := hidden
  hideIfEmpty := false
  hideIfUndefined := false
  validators := validators
  edited := false
  observer := some ⟨0⟩
  bundle := none

/-- A form with a header, with an input in a hidden panel, and with a dropdown whose offers are in a
panel with an input. Everything has to be filled in, and only the dropdown is. -/
private def requiringForm : Forest :=
  empty.afterAll
    [.insert (.form "" none none) "" (Content.holders_form ""),
      .insert (.input "" true) "%0%.b" (Content.holders_input "" true),
      .insert (.panel "") "" (Content.holders_panel ""),
      .insert (.input "" true) "%0%.b" (Content.holders_input "" true),
      .insert (.dropdown "" true none) "%0%.a" (Content.holders_dropdown "" true),
      .insert (.panel "") "" (Content.holders_panel ""),
      .insert (.input "" true) "%0%.b" (Content.holders_input "" true),
      .attach ⟨0⟩ .header ⟨1⟩, .setParent ⟨2⟩ ⟨0⟩, .setParent ⟨3⟩ ⟨2⟩, .setParent ⟨4⟩ ⟨0⟩,
      .attach ⟨4⟩ .possibleValues ⟨5⟩, .setParent ⟨6⟩ ⟨5⟩,
      .annotate ⟨2⟩ (notes true []), .annotate ⟨4⟩ (notes false ["unknown", "never"])]

/-- Only the dropdown and the header have something to say: the one input is in a hidden panel, the
other one among the offers. -/
theorem Reachable.validate_eq_ok_iff_of_form : ∃ (f : Forest) (observers : Observers Id) (data : Data)
    (shown : List Handle), Reachable f ∧
      f.subtree ⟨0⟩ = .ok [⟨0⟩, ⟨2⟩, ⟨3⟩, ⟨4⟩, ⟨5⟩, ⟨6⟩, ⟨1⟩] ∧ ⟨3⟩ ∉ shown ∧ ⟨6⟩ ∉ shown ∧
      ∃ each, List.Forall₂ (f.Says observers .standard data) shown each ∧
        each.flatten = [⟨"/1", "never"⟩, ⟨"/header", "A value is required"⟩] := by
  have reached : Reachable requiringForm := .afterAll .empty _ (by simp [Call.others])
  have wf := reached.consistent.links
  let observers : Observers Id := fun _ =>
    { getValidator := some fun name => if name = "never" then some fun _ => some name else none }
  let data : Data := [some (.object [("a", .bool true)])]
  have below : ∀ {owner x : Handle}, ((requiringForm.get? owner).map (·.belongings)).any (x ∈ ·) →
      requiringForm.Within owner x := by
    intro owner x owns
    obtain ⟨d, there, inside⟩ : ∃ d, requiringForm.get? owner = some d ∧ x ∈ d.belongings := by
      simpa [Option.any_eq_true] using owns
    exact wf.within_of_mem_belongings there inside
  obtain ⟨form, found⟩ : ∃ d, requiringForm.get? ⟨0⟩ = some d := ⟨_, rfl⟩
  obtain ⟨dropdown, there, offers⟩ : ∃ d, requiringForm.get? ⟨4⟩ = some d ∧
    d.content.holder? .possibleValues = some ⟨5⟩ := ⟨_, rfl, rfl⟩
  have branch : requiringForm.subtree ⟨0⟩ = .ok [⟨0⟩, ⟨2⟩, ⟨3⟩, ⟨4⟩, ⟨5⟩, ⟨6⟩, ⟨1⟩] := by
    decide +kernel
  have hidden : requiringForm.isHidden ⟨2⟩ data = .ok true := by decide +kernel
  have issues : requiringForm.validate observers .standard ⟨0⟩ data =
      .ok [⟨"/1", "never"⟩, ⟨"/header", "A value is required"⟩] := by decide +kernel
  obtain ⟨order, shown, branch', _, _, members, _, covers⟩ :=
    Reachable.validate_eq_ok_iff observers reached found .standard data
  obtain ⟨each, all, same⟩ := (covers _).1 issues
  refine ⟨requiringForm, observers, data, shown, reached, branch, fun inside => ?_, fun inside => ?_, each,
    all, same.symm⟩
  · -- hidden on the way down
    obtain ⟨_, exposed⟩ := (members ⟨3⟩).1 inside
    have shows := exposed.visible ⟨2⟩ (below (by decide +kernel))
      (below (by decide +kernel))
    rw [hidden] at shows
    cases shows
  · -- among the offers of the dropdown
    obtain ⟨_, exposed⟩ := (members ⟨6⟩).1 inside
    exact exposed.passes ⟨4⟩ dropdown ⟨5⟩ (below (by decide +kernel)) there
      (below (by decide +kernel)) offers

end Forest

end DataBinding
