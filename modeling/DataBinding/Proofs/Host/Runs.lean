import DataBinding.CommandLine
import DataBinding.Proofs.Outcome

/-!
# Runs

The parts of a run follow each other until one of them fails, and each goes on with what was printed
before it. None of them takes anything back. Only the report and the line behind it have anything to
say about edits.
-/

namespace DataBinding.CommandLine

variable {α β : Type}

/-! ### Parts of a run -/

/-- What a part of a run comes to after something was printed, and all that is printed by then. -/
def resume (part : Run α) (printed : List Line) : Except String α × List Line :=
  part.run.run printed

section Resuming

variable {part : Run α} {next : α → Run β} {printed later : List Line} {a : α} {b : β}

theorem resume_bind (part : Run α) (next : α → Run β) (printed : List Line) :
    resume (part >>= next) printed =
      match resume part printed with
      | (.ok a, later) => resume (next a) later
      | (.error message, later) => (.error message, later) := by
  have split : resume (part >>= next) printed =
      (ExceptT.bindCont next (resume part printed).1).run (resume part printed).2 := rfl
  rw [split]
  obtain ⟨_ | _, later⟩ := resume part printed <;> rfl

theorem resume_pure (a : α) (printed : List Line) : resume (pure a) printed = (.ok a, printed) :=
  rfl

theorem resume_throw (message : String) (printed : List Line) :
    resume (throw message : Run α) printed = (.error message, printed) :=
  rfl

theorem resume_print (lines printed : List Line) :
    resume (print lines) printed = (.ok (), printed ++ lines) :=
  rfl

theorem resume_orFail (outcome : Except String α) (printed : List Line) :
    resume (orFail outcome) printed = (outcome, printed) := by
  cases outcome <;> rfl

end Resuming

/-- A part of a run adds lines of some kind to what was printed, and takes nothing back. -/
def Adds (good : Line → Prop) (part : Run α) : Prop :=
  ∀ printed, ∃ result more, resume part printed = (result, printed ++ more) ∧ ∀ line ∈ more, good line

namespace Adds

variable {good : Line → Prop} {part : Run α} {next : α → Run β}

theorem nothing {result : Except String α} (quiet : ∀ printed, resume part printed = (result, printed)) :
    Adds good part :=
  fun printed => ⟨result, [], by rw [quiet, List.append_nil], by simp⟩

theorem pure (a : α) : Adds good (Pure.pure a : Run α) :=
  nothing (resume_pure a)

theorem throw (message : String) : Adds good (MonadExcept.throw message : Run α) :=
  nothing (resume_throw message)

theorem orFail (outcome : Except String α) : Adds good (CommandLine.orFail outcome) :=
  nothing (resume_orFail outcome)

theorem orFault (outcome : Except Fault α) : Adds good (CommandLine.orFault outcome) :=
  orFail _

theorem print {lines : List Line} (each : ∀ line ∈ lines, good line) :
    Adds good (CommandLine.print lines) :=
  fun printed => ⟨.ok (), lines, resume_print lines printed, each⟩

theorem bind (first : Adds good part) (rest : ∀ a, Adds good (next a)) : Adds good (part >>= next) := by
  intro printed
  obtain ⟨result, more, run, each⟩ := first printed
  rw [resume_bind, run]
  cases result with
  | error message => exact ⟨.error message, more, rfl, each⟩
  | ok a =>
    obtain ⟨result, others, run', each'⟩ := rest a (printed ++ more)
    refine ⟨result, more ++ others, ?_, List.forall_mem_append.2 ⟨each, each'⟩⟩
    simp only [run', List.append_assoc]

end Adds

/-! ### What shows edits -/

end DataBinding.CommandLine
