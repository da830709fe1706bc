import DataBinding.Forest.Error
import Mathlib.Data.List.Forall2

/-!
# Steps that may fail

When a sequence of steps succeeds, and with what. Later proofs take successful runs apart with these
lemmas and put them together again.
-/

namespace DataBinding.Outcome

variable {ε α β : Type}

theorem bind_eq_ok_iff {first : Except ε α} {next : α → Except ε β} {b : β} :
    first >>= next = .ok b ↔ ∃ a, first = .ok a ∧ next a = .ok b := by
  cases first <;> simp [bind, Except.bind]

theorem map_eq_ok_iff {first : Except ε α} {next : α → β} {b : β} :
    first.map next = .ok b ↔ ∃ a, first = .ok a ∧ next a = b := by
  cases first <;> simp [Except.map]

@[simp] theorem ok_bind (a : α) (next : α → Except ε β) : (Except.ok a >>= next) = next a :=
  rfl

theorem isOk_eq_true_iff {outcome : Except ε α} : outcome.isOk = true ↔ ∃ a, outcome = .ok a := by
  cases outcome <;> simp [Except.isOk, Except.toBool]

theorem mapM_eq_ok_iff {step : α → Except ε β} {xs : List α} {ys : List β} :
    xs.mapM step = .ok ys ↔ List.Forall₂ (fun x y => step x = .ok y) xs ys := by
  induction xs generalizing ys with
  | nil => simp [List.mapM_nil, pure, Except.pure, eq_comm]
  | cons x rest ih =>
    rw [List.mapM_cons, bind_eq_ok_iff]
    constructor
    · rintro ⟨y, first, later⟩
      obtain ⟨others, tail, last⟩ := bind_eq_ok_iff.1 later
      cases last
      exact .cons first (ih.1 tail)
    · rintro (_ | ⟨first, others⟩)
      exact ⟨_, first, bind_eq_ok_iff.2 ⟨_, ih.2 others, rfl⟩⟩

theorem exists_of_mem_mapM {step : α → Except ε β} {xs : List α} {ys : List β} {y : β}
    (run : xs.mapM step = .ok ys) (inside : y ∈ ys) : ∃ x ∈ xs, step x = .ok y := by
  induction mapM_eq_ok_iff.1 run with
  | nil => cases inside
  | cons first rest ih =>
    rcases List.mem_cons.1 inside with rfl | later
    · exact ⟨_, List.mem_cons_self, first⟩
    · obtain ⟨x, there, last⟩ := ih (mapM_eq_ok_iff.2 rest) later
      exact ⟨x, List.mem_cons_of_mem _ there, last⟩

theorem exists_mapM_eq_ok {step : α → Except ε β} {good : α → β → Prop} {xs : List α}
    (each : ∀ x ∈ xs, ∃ y, step x = .ok y ∧ good x y) :
    ∃ ys, xs.mapM step = .ok ys ∧ List.Forall₂ good xs ys := by
  induction xs with
  | nil => exact ⟨[], rfl, .nil⟩
  | cons x rest ih =>
    obtain ⟨y, first, goodFirst⟩ := each x (by simp)
    obtain ⟨ys, others, goodOthers⟩ := ih fun z inside => each z (by simp [inside])
    refine ⟨y :: ys, ?_, .cons goodFirst goodOthers⟩
    rw [List.mapM_cons, first, others]
    rfl

theorem exists_mapM {step : α → Except ε β} {xs : List α} (each : ∀ x ∈ xs, ∃ y, step x = .ok y) :
    ∃ ys, xs.mapM step = .ok ys := by
  have good : ∀ x ∈ xs, ∃ y, step x = .ok y ∧ step x = .ok y := by simpa using each
  obtain ⟨ys, run, _⟩ := exists_mapM_eq_ok good
  exact ⟨ys, run⟩

theorem exists_bind {first : Except ε α} {next : α → Except ε β} (succeeds : ∃ a, first = .ok a)
    (later : ∀ a, ∃ b, next a = .ok b) : ∃ b, first >>= next = .ok b := by
  obtain ⟨a, rfl⟩ := succeeds
  exact later a

theorem lift_eq_ok_iff {first : Except Fault α} {a : α} :
    Fault.lift first = .ok a ↔ first = .ok a := by
  cases first <;> simp [Fault.lift]

@[simp] theorem lift_ok (a : α) : Fault.lift (.ok a) = .ok a :=
  rfl

@[simp] theorem monadLift_eq (first : Except Fault α) :
    (liftM first : Except DefinitionError α) = Fault.lift first :=
  rfl

theorem mapM_of_total {step : α → Except ε β} {result : α → β} {xs : List α}
    (total : ∀ x ∈ xs, step x = .ok (result x)) : xs.mapM step = .ok (xs.map result) := by
  rw [mapM_eq_ok_iff, List.forall₂_map_right_iff, List.forall₂_same]
  exact total

section Gather

variable {γ : Type}

/-- The lists that several steps come to, put together. -/
def gather (step : α → Except ε (List β)) (xs : List α) : Except ε (List β) :=
  (xs.mapM step).map List.flatten

theorem gather_cons (step : α → Except ε (List β)) (x : α) (rest : List α) :
    gather step (x :: rest) = do return (← step x) ++ (← gather step rest) := by
  rw [gather, gather, List.mapM_cons]
  cases step x with
  | error e => rfl
  | ok ys => cases rest.mapM step <;> rfl

theorem gather_append (step : α → Except ε (List β)) (xs ys : List α) :
    gather step (xs ++ ys) = do return (← gather step xs) ++ (← gather step ys) := by
  induction xs with
  | nil => cases run : gather step ys <;> simp [run] <;> rfl
  | cons x rest ih =>
    rw [List.cons_append, gather_cons, gather_cons, ih]
    cases step x with
    | error e => rfl
    | ok first =>
      cases gather step rest with
      | error e => rfl
      | ok second =>
        cases gather step ys with
        | error e => rfl
        | ok third => exact congrArg Except.ok (List.append_assoc ..).symm

theorem gather_flatMap (step : α → Except ε (List β)) (each : γ → List α) (xs : List γ) :
    gather step (xs.flatMap each) = gather (fun x => gather step (each x)) xs := by
  induction xs with
  | nil => rfl
  | cons x rest ih => rw [List.flatMap_cons, gather_append, ih, gather_cons]

theorem gather_congr {step other : α → Except ε (List β)} {xs : List α}
    (same : ∀ x ∈ xs, step x = other x) : gather step xs = gather other xs := by
  induction xs with
  | nil => rfl
  | cons x rest ih =>
    rw [List.forall_mem_cons] at same
    rw [gather_cons, gather_cons, same.1, ih same.2]

theorem gather_eq_ok_iff {step : α → Except ε (List β)} {xs : List α} {all : List β} :
    gather step xs = .ok all ↔
      ∃ each, List.Forall₂ (fun x ys => step x = .ok ys) xs each ∧ all = each.flatten := by
  simp only [gather, map_eq_ok_iff, mapM_eq_ok_iff, eq_comm (b := all)]

end Gather

end DataBinding.Outcome
