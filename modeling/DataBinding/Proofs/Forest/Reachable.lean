import DataBinding.Proofs.Forest.Grafts
import DataBinding.Proofs.Forest.Plantings

/-!
# Reachable forests

Everything that can be done to a forest is one of a few calls. A call that is refused leaves the
forest as it was; planting and replacing children may stop half way, and then leave what they had
come to. A forest is reachable when calls lead to it from the empty one, each of them succeeding or
not, or when it is a snapshot of a branch of a reachable forest. Every reachable forest is
consistent.
-/

namespace DataBinding

/-- What is written on a definition without touching its content, links or paths. -/
structure Notes where
  key : Option String
  hidden : Bool
  hideIfEmpty : Bool
  hideIfUndefined : Bool
  validators : List String
  edited : Bool
  observer : Option ObserverId
  bundle : Option (Bundle Forest)

def Definition.annotate (notes : Notes) (d : Entry) : Entry :=
  { d with
    key := notes.key
    hidden := notes.hidden
    hideIfEmpty := notes.hideIfEmpty
    hideIfUndefined := notes.hideIfUndefined
    validators := notes.validators
    edited := notes.edited
    observer := notes.observer
    bundle := notes.bundle }

inductive Call where
  /-- Adds a definition that nobody plays a role for. -/
  | insert (content : Content) (dataPath : String) (bare : content.holders = [])
  | annotate (h : Handle) (notes : Notes)
  | setParent (child owner : Handle)
  | attach (owner : Handle) (role : Role) (child : Handle)
  | setDataPath (h : Handle) (dataPath : String)
  | remove (h : Handle)
  | setObserver (h : Handle) (observer : ObserverId)
  | graft (container : Handle) (other : Forest)
  | replaceChildren (container : Handle) (others : List Forest)
  | plant (v : Vocabulary) (b : Blueprint)

def Call.others : Call → List Forest
  | .graft _ other => [other]
  | .replaceChildren _ others => others
  | _ => []

namespace Forest

def orSame {ε : Type} (f : Forest) : Except ε Forest → Forest
  | .ok g => g
  | .error _ => f

def after (f : Forest) : Call → Forest
  | .insert content dataPath _ => (f.insert (.make content dataPath)).2
  | .annotate h notes => f.orSame (f.modify h (·.annotate notes))
  | .setParent child owner => f.orSame (f.setParent child owner)
  | .attach owner role child => f.orSame (f.attach owner role child)
  | .setDataPath h dataPath => f.orSame (f.setDataPath h dataPath)
  | .remove h => f.orSame (f.remove h)
  | .setObserver h observer => f.orSame ((f.setObserver h observer).map (·.1))
  | .graft container other => f.orSame ((f.graft container other).map (·.forest))
  | .replaceChildren container others => (f.replaceChildren container others).forest
  | .plant v b => (f.plant v b).1

def afterAll (f : Forest) (calls : List Call) : Forest :=
  calls.foldl after f

inductive Reachable : Forest → Prop
  | empty : Reachable .empty
  | call {f : Forest} (c : Call) (reached : Reachable f)
    (others : ∀ other ∈ c.others, Reachable other) : Reachable (f.after c)
  | extract {f g : Forest} {h : Handle} (reached : Reachable f) (run : f.extract h = .ok g) :
    Reachable g

namespace Consistent

variable {f : Forest}

theorem orSame {ε : Type} {outcome : Except ε Forest} (consistent : f.Consistent)
    (changed : ∀ g, outcome = .ok g → g.Consistent) : (f.orSame outcome).Consistent := by
  cases outcome with
  | ok g => exact changed g rfl
  | error _ => exact consistent

/-- No call breaks a consistent forest. -/
theorem after (consistent : f.Consistent) (c : Call)
    (others : ∀ other ∈ c.others, other.Consistent) : (f.after c).Consistent := by
  cases c with
  | insert content dataPath bare =>
    refine consistent.insert rfl ?_ rfl
    rw [Definition.belongings_eq]
    exact congrArg (List.map _) bare
  | annotate h notes =>
    refine consistent.orSame fun g run => ?_
    obtain ⟨d, found, rfl⟩ := modify_eq_ok_iff.1 run
    exact consistent.congr (sameFrames_put found rfl)
  | setParent child owner => exact consistent.orSame fun g run => consistent.setParent run
  | attach owner role child => exact consistent.orSame fun g run => consistent.attach run
  | setDataPath h dataPath => exact consistent.orSame fun g run => consistent.setDataPath run
  | remove h => exact consistent.orSame fun g run => consistent.remove run
  | setObserver h observer =>
    refine consistent.orSame fun g run => ?_
    obtain ⟨⟨k, notices⟩, hands, rfl⟩ := Outcome.map_eq_ok_iff.1 run
    exact consistent.setObserver hands
  | graft container other =>
    refine consistent.orSame fun g run => ?_
    obtain ⟨grafted, grafts, rfl⟩ := Outcome.map_eq_ok_iff.1 run
    exact consistent.graft (others other (List.mem_singleton_self other)) grafts
  | replaceChildren container replacements => exact consistent.replaceChildren others
  | plant v b => exact consistent.plantUnder v none b

end Consistent

theorem Reachable.consistent {f : Forest} (reached : Reachable f) : f.Consistent := by
  induction reached with
  | empty => exact .empty
  | call c _ _ ih others => exact ih.after c others
  | extract _ run ih => exact ih.extract run

theorem Reachable.afterAll {f : Forest} (reached : Reachable f) (calls : List Call)
    (alone : ∀ c ∈ calls, c.others = []) : Reachable (f.afterAll calls) := by
  induction calls generalizing f with
  | nil => exact reached
  | cons c rest ih =>
    refine ih (.call c reached fun other inside => ?_) fun later inside => ?_
    case refine_2 => exact alone later (List.mem_cons_of_mem _ inside)
    rw [alone c List.mem_cons_self] at inside
    cases inside

/-- The links of a reachable forest agree in both directions, only containers have children, and
going from owner to owner ends at a definition without one and meets nobody twice. -/
theorem Reachable.wellFormed_and_lineage {f : Forest} (reached : Reachable f) :
    f.WellFormed ∧ ∀ h d, f.get? h = some d → ∃ hs top e, f.Climb h hs ∧ f.lineage h = .ok hs ∧
      hs.Nodup ∧ hs.getLast? = some top ∧ f.get? top = some e ∧ e.parent = none := by
  have wf := reached.consistent.links
  refine ⟨wf, fun h d found => ?_⟩
  obtain ⟨hs, climb⟩ := wf.climbs found
  obtain ⟨top, e, last, there, free⟩ := climb.exists_top
  exact ⟨hs, top, e, climb, climb.lineage_eq, climb.nodup, last, there, free⟩

theorem Reachable.wellFormed_and_lineage_of_form : ∃ f, Reachable f ∧
    f.owned ⟨0⟩ = .ok [⟨3⟩, ⟨2⟩] ∧ f.get? ⟨1⟩ = none ∧ f.WellFormed ∧
    ∃ hs top e, f.Climb ⟨3⟩ hs ∧ f.lineage ⟨3⟩ = .ok hs ∧ hs.Nodup ∧ hs.getLast? = some top ∧
      f.get? top = some e ∧ e.parent = none := by
  have reached := Reachable.empty.afterAll
    [.insert (.form "" none none) "" rfl, .insert (.textItem "") "" rfl,
      .insert (.textItem "") "" rfl, .insert (.input "" false) "" rfl, .setParent ⟨3⟩ ⟨0⟩,
      .attach ⟨0⟩ .header ⟨1⟩, .attach ⟨0⟩ .header ⟨2⟩, .attach ⟨0⟩ .header ⟨3⟩] (by simp [Call.others])
  obtain ⟨wf, lineages⟩ := Reachable.wellFormed_and_lineage reached
  exact ⟨_, reached, rfl, rfl, wf, lineages ⟨3⟩ _ rfl⟩

end Forest

end DataBinding
