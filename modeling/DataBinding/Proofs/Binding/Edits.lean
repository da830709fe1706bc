import DataBinding.Host.Observer
import DataBinding.Proofs.Binding.WriteBack
import DataBinding.Proofs.Forest.Agreement
import DataBinding.Proofs.Forest.Mirrors

/-!
# Edits over whole runs

A definition has edits as long as something in its branch was marked and has not been cleared since,
by itself or with a branch around it. Marking touches one definition and clearing a whole branch, so
this is followed call by call, as a list of what was marked and what was cleared.
-/

namespace DataBinding

inductive EditEvent where
  | marked (h : Handle)
  | cleared (h : Handle)
deriving DecidableEq

namespace Forest

/-- The same definitions in the same places, as far as links and edits go. -/
def SameEdits (f g : Forest) : Prop :=
  ∀ h, (g.get? h).map (fun d => (d.links, d.edited)) = (f.get? h).map fun d => (d.links, d.edited)

end Forest

/-- A call that edits may come or go with, or any other change that keeps links and edits. -/
inductive EditCall where
  | mark (h : Handle)
  | assign (h : Handle) (data : Data) (v : Value)
  | clear (h : Handle)
  | close (h : Handle) (discarding : Bool)
  | other (change : Forest → Forest) (quiet : ∀ f : Forest, f.SameEdits (change f))

def EditCall.target? : EditCall → Option Handle
  | .mark h | .assign h _ _ | .clear h | .close h _ => some h
  | .other .. => none

namespace Forest

/-- The forest after a call, and what the call comes to. -/
def edit (f : Forest) : EditCall → Except Fault (Forest × List EditEvent)
  | .mark h => do return (← f.markEdited h, [.marked h])
  | .assign h data v => do
    let assigned ← f.assign h data v
    return (assigned.forest, if assigned.outcome = .written then [.marked h] else [])
  | .clear h => do return (← f.clearEdits h, [.cleared h])
  | .close h discarding => do
    let (g, _) ← f.close h discarding
    return (g, if discarding then [.cleared h] else [])
  | .other change _ => return (change f, [])

def editAll (f : Forest) : List EditCall → Except Fault (Forest × List EditEvent)
  | [] => .ok (f, [])
  | call :: rest => do
    let (g, first) ← f.edit call
    let (k, later) ← g.editAll rest
    return (k, first ++ later)

/-- A definition was marked, and since then neither it nor anything that it is below was cleared. -/
def Pending (f : Forest) (events : List EditEvent) (h : Handle) : Prop :=
  ∃ before after, events = before ++ .marked h :: after ∧
    ∀ t, .cleared t ∈ after → ¬ f.Within t h

section Pending

variable {f : Forest} {events : List EditEvent} {h x : Handle}

theorem not_pending_nil : ¬ f.Pending [] x := by
  rintro ⟨before, after, split, _⟩
  simp at split

theorem pending_concat {event : EditEvent} : f.Pending (events ++ [event]) x ↔
    event = .marked x ∨ f.Pending events x ∧ ∀ t, event = .cleared t → ¬ f.Within t x := by
  constructor
  · rintro ⟨before, after, split, uncleared⟩
    rcases List.eq_nil_or_concat after with rfl | ⟨after, last, rfl⟩
    · exact .inl (List.append_inj_right' split rfl |> List.singleton_inj.1)
    · rw [List.concat_eq_append, ← List.cons_append, ← List.append_assoc] at split
      obtain ⟨rfl, same⟩ := List.append_inj' split rfl
      cases same
      refine .inr ⟨⟨before, after, rfl, fun t inside => uncleared t (by simp [inside])⟩, ?_⟩
      rintro t rfl
      exact uncleared t (by simp)
  · rintro (rfl | ⟨⟨before, after, rfl, uncleared⟩, last⟩)
    · exact ⟨events, [], rfl, by simp⟩
    · refine ⟨before, after ++ [event], by simp, fun t inside => ?_⟩
      rcases List.mem_append.1 inside with earlier | same
      · exact uncleared t earlier
      · exact last t (List.mem_singleton.1 same).symm

theorem pending_marked : f.Pending (events ++ [.marked h]) x ↔ x = h ∨ f.Pending events x := by
  simp [pending_concat, eq_comm]

theorem pending_cleared :
    f.Pending (events ++ [.cleared h]) x ↔ f.Pending events x ∧ ¬ f.Within h x := by
  simp [pending_concat]

end Pending

section Runs

variable {f g k : Forest} {h : Handle} {d : Entry} {events : List EditEvent}

theorem SameEdits.sameLinks (same : f.SameEdits g) : f.SameLinks g :=
  fun h => map_of_map_eq (same h) Prod.fst

/-- `g` came about from `f` by the given events. -/
structure Tracks (f g : Forest) (events : List EditEvent) : Prop where
  links : f.SameLinks g
  edited : ∀ {x d}, g.get? x = some d → (d.edited = true ↔ f.Pending events x)

theorem Tracks.exists_found (tracks : f.Tracks g events) (live : ∃ d, f.get? h = some d) :
    ∃ d, g.get? h = some d := by
  obtain ⟨d, found⟩ := live
  obtain ⟨e, now, _⟩ := tracks.links.exists_of_get? found
  exact ⟨e, now⟩

theorem OnlyEdits.sameLinks (edits : f.OnlyEdits g h) : f.SameLinks g := by
  intro x
  by_cases same : x = h
  · rw [same, edits.marked, Option.map_map]
    rfl
  · rw [edits.others x same]

theorem Tracks.marked (tracks : f.Tracks g events) (edits : g.OnlyEdits k h) :
    f.Tracks k (events ++ [.marked h]) where
  links := tracks.links.trans edits.sameLinks
  edited := by
    intro x d now
    rw [pending_marked]
    by_cases same : x = h
    · rw [same, edits.marked, Option.map_eq_some_iff] at now
      obtain ⟨_, _, rfl⟩ := now
      simp [same]
    · rw [edits.others x same] at now
      simp [tracks.edited now, same]

theorem WellFormed.exists_clearEdits (wf : f.WellFormed) (found : f.get? h = some d) :
    ∃ (order : List Handle) (g : Forest), f.clearEdits h = .ok g ∧ (∀ x, x ∈ order ↔ f.Within h x) ∧
      ∀ x, g.get? x = (f.get? x).map fun d => if x ∈ order then { d with edited := false } else d := by
  obtain ⟨order, g, shown, run, _, members, now⟩ :=
    wf.exists_modifyAll_subtree found fun d => { d with edited := false }
  refine ⟨order, g, ?_, members, now⟩
  rw [clearEdits, shown]
  exact run

theorem Tracks.exists_clearEdits (tracks : f.Tracks g events) (wf : f.WellFormed)
    (live : ∃ d, f.get? h = some d) :
    ∃ k, g.clearEdits h = .ok k ∧ f.Tracks k (events ++ [.cleared h]) := by
  obtain ⟨d, found⟩ := tracks.exists_found live
  obtain ⟨order, k, run, members, now⟩ := (wf.congr tracks.links).exists_clearEdits found
  refine ⟨k, run, tracks.links.trans (map_of_changed now fun x d => ?_), fun {x e} there => ?_⟩
  · split <;> rfl
  · rw [pending_cleared, ← tracks.links.within_iff, ← members x]
    rw [now, Option.map_eq_some_iff] at there
    obtain ⟨d, was, rfl⟩ := there
    by_cases inside : x ∈ order
    · simp [inside]
    · simp [inside, tracks.edited was]

theorem exists_close {discarding : Bool}
    (cleared : (if discarding then f.clearEdits h else .ok f) = .ok g) (found : g.get? h = some d) :
    ∃ notices, f.close h discarding = .ok (g, notices) := by
  cases discarding with
  | true =>
    rw [if_pos rfl] at cleared
    simp only [close, if_pos, cleared, Outcome.ok_bind, find_eq_ok_iff.2 found]
    cases d.observer <;> exact ⟨_, rfl⟩
  | false =>
    cases cleared
    simp only [close, Bool.false_eq_true, if_false, pure_bind, find_eq_ok_iff.2 found, Outcome.ok_bind]
    cases d.observer <;> exact ⟨_, rfl⟩

/-- A call for a definition that is there does not fail, and edits are as its event says. -/
theorem Tracks.exists_edit (tracks : f.Tracks g events) (wf : f.WellFormed) (call : EditCall)
    (live : ∀ h, call.target? = some h → ∃ d, f.get? h = some d) :
    ∃ k more, g.edit call = .ok (k, more) ∧ f.Tracks k (events ++ more) := by
  cases call with
  | mark h =>
    obtain ⟨d, found⟩ := tracks.exists_found (live h rfl)
    obtain ⟨k, run, edits⟩ := exists_markEdited found
    exact ⟨k, _, by rw [edit, run]; rfl, tracks.marked edits⟩
  | assign h data v =>
    obtain ⟨d, found⟩ := tracks.exists_found (live h rfl)
    obtain ⟨assigned, run, _, _, kept, marks⟩ := (wf.congr tracks.links).exists_assign found data v
    refine ⟨assigned.forest, _, by rw [edit, run]; rfl, ?_⟩
    by_cases written : assigned.outcome = .written
    · rw [if_pos written]
      exact tracks.marked (marks written)
    · rw [if_neg written, List.append_nil, kept written]
      exact tracks
  | clear h =>
    obtain ⟨k, run, cleared⟩ := tracks.exists_clearEdits wf (live h rfl)
    exact ⟨k, _, by rw [edit, run]; rfl, cleared⟩
  | close h discarding =>
    obtain ⟨k, run, cleared⟩ : ∃ k, (if discarding then g.clearEdits h else .ok g) = .ok k ∧
        f.Tracks k (events ++ if discarding then [.cleared h] else []) := by
      cases discarding with
      | true => exact tracks.exists_clearEdits wf (live h rfl)
      | false => exact ⟨g, rfl, by rwa [if_neg Bool.false_ne_true, List.append_nil]⟩
    obtain ⟨d, found⟩ := cleared.exists_found (live h rfl)
    obtain ⟨notices, closes⟩ := exists_close run found
    exact ⟨k, _, by rw [edit, closes]; rfl, cleared⟩
  | other change quiet =>
    refine ⟨change g, [], rfl, ?_⟩
    rw [List.append_nil]
    refine ⟨tracks.links.trans (quiet g).sameLinks, fun {x e} now => ?_⟩
    obtain ⟨d, was, same⟩ := exists_of_map_eq (quiet g x).symm now
    rw [← (Prod.mk.inj same).2]
    exact tracks.edited was

theorem Tracks.exists_editAll (tracks : f.Tracks g events) (wf : f.WellFormed)
    (calls : List EditCall)
    (live : ∀ call ∈ calls, ∀ h, call.target? = some h → ∃ d, f.get? h = some d) :
    ∃ k more, g.editAll calls = .ok (k, more) ∧ f.Tracks k (events ++ more) := by
  induction calls generalizing g events with
  | nil => exact ⟨g, [], rfl, by rwa [List.append_nil]⟩
  | cons call rest ih =>
    rw [List.forall_mem_cons] at live
    obtain ⟨middle, first, run, step⟩ := tracks.exists_edit wf call live.1
    obtain ⟨k, later, runs, tracks⟩ := ih step live.2
    refine ⟨k, first ++ later, ?_, by rwa [← List.append_assoc]⟩
    simp only [editAll, run, Outcome.ok_bind, runs]
    rfl

theorem Reads.isEdited_iff {b : Branch} (reads : f.Reads b) :
    b.isEdited = true ↔ ∃ x ∈ b.handles, ∃ d, f.get? x = some d ∧ d.edited = true := by
  induction reads with
  | @mk role h d owned found listed each ih =>
    have whole : (Branch.mk role h d owned).isEdited = (d.edited || owned.any Branch.isEdited) := by
      rw [Branch.isEdited, Branch.fold_mk, List.any_map]
      rfl
    rw [whole, Bool.or_eq_true, List.any_eq_true]
    constructor
    · rintro (own | ⟨b, inside, below⟩)
      · exact ⟨h, Branch.handle_mem_handles _, d, found, own⟩
      · obtain ⟨x, shown, e, there, edited⟩ := (ih b inside).1 below
        exact ⟨x, Branch.mem_handles_mk.2 (.inr ⟨b, inside, shown⟩), e, there, edited⟩
    · rintro ⟨x, shown, e, there, edited⟩
      rcases Branch.mem_handles_mk.1 shown with rfl | ⟨b, inside, shown⟩
      · rw [found] at there
        cases there
        exact .inl edited
      · exact .inr ⟨b, inside, (ih b inside).2 ⟨x, shown, e, there, edited⟩⟩

/-- Whatever calls are made on a forest without edits, a definition has edits afterwards exactly when
something in its branch was marked and neither that nor anything around it has been cleared since. -/
theorem Reachable.hasEdits_after (reached : Reachable f)
    (fresh : ∀ x d, f.get? x = some d → d.edited = false) (calls : List EditCall)
    (live : ∀ call ∈ calls, ∀ h, call.target? = some h → ∃ d, f.get? h = some d) :
    ∃ g events, f.editAll calls = .ok (g, events) ∧
      ∀ n, (∃ d, f.get? n = some d) → ∃ order edited, f.subtree n = .ok order ∧
        g.subtree n = .ok order ∧ g.hasEdits n = .ok edited ∧
        (edited = true ↔ ∃ x ∈ order, f.Pending events x) := by
  have wf := reached.consistent.links
  have start : f.Tracks f [] := by
    refine ⟨fun _ => rfl, fun {x d} found => ?_⟩
    simp [fresh x d found, not_pending_nil]
  obtain ⟨g, events, run, tracks⟩ := start.exists_editAll wf calls live
  refine ⟨g, events, run, fun n ⟨d, found⟩ => ?_⟩
  obtain ⟨order, shown, members, _⟩ := wf.exists_subtree found
  have again := tracks.links.subtree_eq wf shown members
  obtain ⟨b, read, rfl⟩ := Outcome.map_eq_ok_iff.1 again
  obtain ⟨reads, _⟩ := reads_of_branchWithin read
  refine ⟨b.handles, b.isEdited, shown, again, by rw [hasEdits, read]; rfl, ?_⟩
  rw [reads.isEdited_iff]
  constructor
  · rintro ⟨x, shown, e, there, edited⟩
    exact ⟨x, shown, (tracks.edited there).1 edited⟩
  · rintro ⟨x, shown, pending⟩
    obtain ⟨e, there⟩ := tracks.exists_found ((members x).1 shown).found
    exact ⟨x, shown, e, there, (tracks.edited there).2 pending⟩

private def nestedForm : Forest :=
  empty.afterAll
    [.insert (.panel "") "" rfl, .insert (.panel "") "" rfl, .insert (.input "" false) "%0%.a" rfl,
      .setParent ⟨2⟩ ⟨1⟩, .setParent ⟨1⟩ ⟨0⟩]

/-- The inner panel is marked and the input written through; closing the input discards only what was
written. -/
theorem Reachable.hasEdits_after_of_panels : ∃ f g events, Reachable f ∧
    f.editAll [.mark ⟨1⟩, .assign ⟨2⟩ [some (.object [])] (.bool true), .close ⟨2⟩ true] =
      .ok (g, events) ∧
    events = [.marked ⟨1⟩, .marked ⟨2⟩, .cleared ⟨2⟩] ∧ g.hasEdits ⟨0⟩ = .ok true ∧
    g.hasEdits ⟨2⟩ = .ok false := by
  have reached : Reachable nestedForm := .afterAll .empty _ (by simp [Call.others])
  have panel : ∃ d, nestedForm.get? ⟨1⟩ = some d := ⟨_, rfl⟩
  obtain ⟨c, input, owned⟩ : ∃ c, nestedForm.get? ⟨2⟩ = some c ∧ c.parent = some ⟨1⟩ := ⟨_, rfl, rfl⟩
  have fresh : ∀ x d, nestedForm.get? x = some d → d.edited = false := by
    rintro ⟨k⟩ d found
    have inside : k < 3 := index_lt_of_get? found
    obtain rfl | rfl | rfl : k = 0 ∨ k = 1 ∨ k = 2 := by omega
    all_goals
      cases found
      rfl
  obtain ⟨g, events, run, edits⟩ := Reachable.hasEdits_after reached fresh
    [.mark ⟨1⟩, .assign ⟨2⟩ [some (.object [])] (.bool true), .close ⟨2⟩ true] (by
      simp [EditCall.target?, panel, input])
  have computed : (nestedForm.editAll [.mark ⟨1⟩, .assign ⟨2⟩ [some (.object [])] (.bool true),
      .close ⟨2⟩ true]).toOption.map (·.2) = some [.marked ⟨1⟩, .marked ⟨2⟩, .cleared ⟨2⟩] := rfl
  rw [run] at computed
  obtain rfl := Option.some.inj computed
  have pending : nestedForm.Pending [.marked ⟨1⟩, .marked ⟨2⟩, .cleared ⟨2⟩] ⟨1⟩ :=
    ⟨[], _, rfl, by simpa using Within.not_owner input owned⟩
  have cleared : ¬ nestedForm.Pending ([.marked ⟨1⟩, .marked ⟨2⟩] ++ [.cleared ⟨2⟩]) ⟨2⟩ :=
    fun left => (pending_cleared.1 left).2 (reached.consistent.links.within_refl input)
  obtain ⟨order, edited, shown, _, asked, whether⟩ := edits ⟨0⟩ ⟨_, rfl⟩
  obtain ⟨order', edited', shown', _, asked', whether'⟩ := edits ⟨2⟩ ⟨_, rfl⟩
  have all : nestedForm.subtree ⟨0⟩ = .ok [⟨0⟩, ⟨1⟩, ⟨2⟩] := rfl
  have alone : nestedForm.subtree ⟨2⟩ = .ok [⟨2⟩] := rfl
  obtain rfl := Except.ok.inj (all.symm.trans shown)
  obtain rfl := Except.ok.inj (alone.symm.trans shown')
  refine ⟨nestedForm, g, _, reached, run, rfl, ?_, ?_⟩
  · rw [asked, whether.2 ⟨⟨1⟩, by simp, pending⟩]
  · have without : edited' = false := by
      rw [Bool.eq_false_iff]
      intro edits
      obtain ⟨x, same, left⟩ := whether'.1 edits
      exact cleared (List.mem_singleton.1 same ▸ left)
    rw [asked', without]

end Runs

end Forest

end DataBinding
