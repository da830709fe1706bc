import DataBinding.Proofs.Forest.Freshness
import DataBinding.Proofs.Forest.Identities
import DataBinding.Proofs.Host.Reports
import DataBinding.Proofs.Host.Runs

/-!
# Edits that a run tells of

A run plants a fresh forest, and at most one write goes through a definition before the report. So the
run tells of edits exactly when that write was asked for and done, and the definition that it went
through is the only one that the report marks.
-/

namespace DataBinding

namespace Forest

/-! ### Marked definitions -/

/-- `g` is `f` with some definitions marked as edited, and no others. -/
structure MarkedAt (f g : Forest) (marked : Handle → Prop) : Prop where
  links : f.SameLinks g
  key : ∀ x, (g.get? x).map (·.key) = (f.get? x).map (·.key)
  edited : ∀ {x : Handle} {d : Entry}, g.get? x = some d → (d.edited = true ↔ marked x)

section MarkedAt

variable {f g : Forest} {marked : Handle → Prop}

theorem MarkedAt.refl (fresh : f.Fresh) (nobody : ∀ x, ¬ marked x) : f.MarkedAt f marked where
  links _ := rfl
  key _ := rfl
  edited := by
    intro x d found
    simp [fresh.unedited found, nobody x]

variable (fresh : f.Fresh) (marks : f.MarkedAt g marked)

include fresh marks

theorem MarkedAt.exists_branch : ∃ b, g.branch ⟨0⟩ = .ok b ∧ g.Reads b ∧ b.role = none ∧
    b.handle = ⟨0⟩ ∧ b.handles = f.handles := by
  have wf := fresh.consistent.links
  obtain ⟨d, found, _⟩ := exists_of_root? fresh.root
  obtain ⟨order, shown, members, _⟩ := wf.exists_subtree found
  cases fresh.subtree.symm.trans shown
  obtain ⟨b, read, same⟩ := Outcome.map_eq_ok_iff.1 (marks.links.subtree_eq wf shown members)
  obtain ⟨reads, role, handle⟩ := reads_of_branchWithin read
  exact ⟨b, read, reads, role, handle, same⟩

theorem MarkedAt.exists_report {m : Type → Type} (observers : Observers m) (data : Data) :
    ∃ entries, g.report observers ⟨0⟩ data = .ok entries ∧ List.Forall₂ (fun x entry =>
      f.identity x = .ok entry.identity ∧ (" *".toList <:+ entry.text.toList ↔ marked x))
        f.handles entries := by
  have wf := fresh.consistent.links.congr marks.links
  obtain ⟨b, read, reads, _, handle, all⟩ := marks.exists_branch fresh
  have found := reads.get?_handle
  obtain ⟨entries, run⟩ := wf.exists_report observers (handle ▸ found) data
  obtain ⟨hs, climb⟩ := wf.climbs found
  have each : g.branchReport observers data b = .ok entries := by
    rwa [report, read] at run
  refine ⟨entries, run, ?_⟩
  rw [← all]
  refine (reads.lines wf climb each).imp fun x entry about => ?_
  obtain ⟨d, now, own⟩ := about.own
  obtain ⟨_, identity, _, _, named, _, same⟩ := reportLine_eq_ok_iff.1 own
  have identified : entry.identity = identity := congrArg ReportLine.identity same
  have edits : entry.edited = d.edited := congrArg ReportLine.edited same
  refine ⟨?_, ?_⟩
  · rw [← marks.links.identity_eq fresh.consistent.links (marks.key x), named, identified]
  · rw [entry.star_suffix_iff, edits, marks.edited now]

end MarkedAt

end Forest

namespace CommandLine

variable {options : Options} {definitionText dataText : Except String String}

/-! ### What is written -/

/-- The assignment that a run was asked for: through the first definition with the identity in front of
the equals sign, with the value behind it, and what it comes to. -/
def Assigns (options : Options) (loaded : Loaded) (target : Handle) (assigned : Assigned) : Prop :=
  ∃ pair key source json, options.assign = some pair ∧ Text.splitFirst? '=' pair = some (key, source) ∧
    loaded.forest.FirstNamed (Text.trim key) target ∧ Json.read source = .ok json ∧
    loaded.forest.assign target loaded.data (.ofJson json) = .ok assigned

/-- A run writes through a definition when the assignment that it was asked for goes there and is
done. -/
def Writes (options : Options) (loaded : Loaded) (target : Handle) : Prop :=
  ∃ assigned, Assigns options loaded target assigned ∧ assigned.outcome = .written

theorem Assigns.unique {loaded : Loaded} {target other : Handle} {assigned assigned' : Assigned}
    (assigns : Assigns options loaded target assigned)
    (again : Assigns options loaded other assigned') : target = other ∧ assigned = assigned' := by
  obtain ⟨pair, key, source, json, asked, split, first, read, run⟩ := assigns
  obtain ⟨pair', key', source', json', asked', split', first', read', run'⟩ := again
  cases asked.symm.trans asked'
  cases split.symm.trans split'
  cases first.unique first'
  cases read.symm.trans read'
  cases run.symm.trans run'
  exact ⟨rfl, rfl⟩

theorem Writes.unique {loaded : Loaded} {x y : Handle} (writes : Writes options loaded x)
    (again : Writes options loaded y) : x = y := by
  obtain ⟨_, assigns, _⟩ := writes
  obtain ⟨_, others, _⟩ := again
  exact (assigns.unique others).1

end CommandLine

end DataBinding
