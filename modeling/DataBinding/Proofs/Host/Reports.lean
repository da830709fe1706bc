import DataBinding.Proofs.Host.Lines
import DataBinding.Proofs.Host.Totality

/-!
# Reports follow the branch

A report has one line for each definition of a branch, in the order of the branch. How far a line is
indented is how many owners there are up to the definition that the report is for, and a line names
the role of a definition unless the report is for that one.
-/

namespace DataBinding.Forest

variable {f : Forest} {data : Data} {h x : Handle} {m : Type → Type} {observers : Observers m}

def Cast (f : Forest) (x : Handle) (role : Role) : Prop :=
  ∃ owner d, f.get? owner = some d ∧ d.content.holder? role = some x

theorem WellFormed.cast_iff_of_owner (wf : f.WellFormed) {owner : Handle} {d e : Entry}
    (found : f.get? x = some e) (owned : e.parent = some owner) (there : f.get? owner = some d)
    (role : Role) : f.Cast x role ↔ d.content.holder? role = some x := by
  refine ⟨?_, fun filled => ⟨owner, d, there, filled⟩⟩
  rintro ⟨other, o, again, filled⟩
  obtain ⟨e', same, parent⟩ := wf.holder_names_owner again filled
  rw [found] at same
  cases same
  rw [owned] at parent
  cases parent
  rw [there] at again
  cases again
  exact filled

theorem reportLine_eq_ok_iff {role : Option Role} {d : Entry} {line : ReportLine} :
    f.reportLine observers data role h d = .ok line ↔
      ∃ label identity hidden, f.translatedLabel observers h d = .ok label ∧
        f.identity h = .ok identity ∧ f.isHidden h data = .ok hidden ∧
        line = ⟨0, role, d.kind, label, identity,
          if d.hasDataPath then some (d.paths, d.readings data) else none, hidden, d.edited⟩ := by
  simp only [reportLine, Outcome.bind_eq_ok_iff]
  constructor
  · rintro ⟨label, labelled, identity, named, hidden, shows, same⟩
    cases same
    exact ⟨label, identity, hidden, labelled, named, shows, rfl⟩
  · rintro ⟨label, identity, hidden, labelled, named, shows, rfl⟩
    exact ⟨label, labelled, identity, named, hidden, shows, rfl⟩

theorem branchReport_mk_eq_ok_iff {role : Option Role} {d : Entry} {owned : List Branch}
    {lines : List ReportLine} :
    f.branchReport observers data (.mk role h d owned) = .ok lines ↔
      ∃ first each, f.reportLine observers data role h d = .ok first ∧
        List.Forall₂ (fun b ls => f.branchReport observers data b = .ok ls) owned each ∧
        lines = first :: each.flatten.map ReportLine.deeper := by
  rw [branchReport, Branch.fold_mk]
  simp only [Outcome.bind_eq_ok_iff, List.mapM_map, Outcome.mapM_eq_ok_iff]
  constructor
  · rintro ⟨first, own, each, below, same⟩
    cases same
    exact ⟨first, each, own, below, rfl⟩
  · rintro ⟨first, each, own, below, rfl⟩
    exact ⟨first, own, each, below, rfl⟩

/-- A line of the report for `h`, whose climb is known and who is shown in a role or in none, as the
line about `x`. -/
structure LineOf (f : Forest) (observers : Observers m) (data : Data) (shown : Option Role)
    (h : Handle) (hs : List Handle) (x : Handle) (line : ReportLine) : Prop where
  own : ∃ d, f.get? x = some d ∧
    f.reportLine observers data line.role x d = .ok { line with depth := 0 }
  placed : ∃ steps, f.Climb x (steps ++ hs) ∧ line.depth = steps.length
  first : x = h → line.role = shown
  later : x ≠ h → ∀ role, line.role = some role ↔ f.Cast x role

namespace LineOf

variable {shown given : Option Role} {hs : List Handle} {line : ReportLine}

theorem own_line {d : Entry} (found : f.get? h = some d) (climb : f.Climb h hs)
    (run : f.reportLine observers data shown h d = .ok line) :
    f.LineOf observers data shown h hs h line := by
  obtain ⟨label, identity, hidden, _, _, _, rfl⟩ := reportLine_eq_ok_iff.1 run
  exact ⟨⟨d, found, run⟩, ⟨[], climb, rfl⟩, fun _ => rfl, fun other => absurd rfl other⟩

/-- A line about somebody below `c` is, one step further in, a line of the report for the owner. -/
theorem deeper (wf : f.WellFormed) {c : Handle} {d e : Entry} (found : f.get? c = some e)
    (owned : e.parent = some h) (there : f.get? h = some d)
    (cast : ∀ role, shown = some role ↔ d.content.holder? role = some c)
    (lines : f.LineOf observers data shown c (c :: hs) x line) :
    f.LineOf observers data given h hs x line.deeper := by
  obtain ⟨steps, climb, depth⟩ := lines.placed
  have below : f.Within c x := ⟨_, climb, by simp⟩
  refine ⟨lines.own, ⟨steps ++ [c], by simpa using climb, ?_⟩, ?_, ?_⟩
  · simp [ReportLine.deeper, depth]
  · -- nobody is below those they own
    rintro rfl
    exact absurd below (Within.not_owner found owned)
  · intro _ role
    show line.role = some role ↔ _
    by_cases same : x = c
    · rw [lines.first same, cast, same, wf.cast_iff_of_owner found owned there]
    · exact lines.later same role

end LineOf

/-- The lines of a branch are about what the branch shows, one after the other. -/
theorem Reads.lines (wf : f.WellFormed) {b : Branch} (reads : f.Reads b) {hs : List Handle}
    (climb : f.Climb b.handle hs) {lines : List ReportLine}
    (run : f.branchReport observers data b = .ok lines) :
    List.Forall₂ (f.LineOf observers data b.role b.handle hs) b.handles lines := by
  induction reads generalizing hs lines with
  | @mk role h d owned found listed each ih =>
    have whole : f.Reads (.mk role h d owned) := .mk found listed each
    obtain ⟨first, pieces, own, below, rfl⟩ := branchReport_mk_eq_ok_iff.1 run
    rw [Branch.handles_mk]
    refine .cons (LineOf.own_line found climb own) ?_
    have runs : List.Forall₂ (fun b ls => b ∈ owned ∧ f.branchReport observers data b = .ok ls)
        owned pieces := (List.forall₂_and_left _ _).2 ⟨fun _ => id, below⟩
    rw [List.forall₂_map_right_iff, List.flatMap]
    refine List.rel_flatten (List.forall₂_map_left_iff.2 (runs.imp ?_))
    -- an owned branch is reported by itself, and its lines are seen from one step further up
    rintro b ls ⟨inside, run⟩
    have owns : b.handle ∈ d.belongings := by
      rw [whole.belongings_eq]
      exact List.mem_map_of_mem inside
    obtain ⟨e, there, parent⟩ := wf.owned_names_owner found owns
    exact (ih b inside (.up there parent climb) run).imp fun x line about =>
      about.deeper wf there parent found (whole.role_eq_iff wf inside)

/-! ### The report as text -/

/-- What a line of the report for `h` shows of `x`: how many steps it is below `h`, the role it is in,
its kind, label and identity, whether it is hidden, and whether it was edited itself. -/
structure Listing (f : Forest) (observers : Observers m) (data : Data) (h x : Handle)
    (line : String) : Prop where
  /-- Two spaces for each step, and the name of the role, if there is one and the report is for
  somebody else. -/
  placed : ∃ steps above rest, f.lineage x = .ok (steps ++ h :: above) ∧
    line = String.join (List.replicate steps.length "  ") ++ rest ∧ ¬ " ".toList <+: rest.toList ∧
    ∀ role : Role, (role.name ++ ": ").toList <+: rest.toList ↔ x ≠ h ∧ f.Cast x role
  /-- The identity in brackets, behind the kind and the label. -/
  named : ∃ d label identity before after, f.get? x = some d ∧
    f.translatedLabel observers x d = .ok label ∧ f.identity x = .ok identity ∧
    line = before ++ d.kind.name ++ (label.elim "" fun text => " " ++ Text.quote text) ++
      " [" ++ identity ++ "]" ++ after
  /-- A star at the end, and at the end of the line without it the word for what is hidden. -/
  marked : ∃ d hidden stem, f.get? x = some d ∧ f.isHidden x data = .ok hidden ∧
    line = stem ++ (if d.edited then " *" else "") ∧
    (" *".toList <:+ line.toList ↔ d.edited = true) ∧
    (" (hidden)".toList <:+ stem.toList ↔ hidden = true)

theorem LineOf.listing {above : List Handle} {line : ReportLine}
    (about : f.LineOf observers data none h (h :: above) x line) :
    f.Listing observers data h x line.text := by
  obtain ⟨d, found, own⟩ := about.own
  obtain ⟨label, identity, hidden, labelled, named, shows, same⟩ := reportLine_eq_ok_iff.1 own
  obtain ⟨steps, climb, depth⟩ := about.placed
  have kind : line.kind = d.kind := congrArg ReportLine.kind same
  have translated : line.label = label := congrArg ReportLine.label same
  have identified : line.identity = identity := congrArg ReportLine.identity same
  have hides : line.hidden = hidden := congrArg ReportLine.hidden same
  have edits : line.edited = d.edited := congrArg ReportLine.edited same
  constructor
  case placed =>
    refine ⟨steps, above, line.body ++ line.marks, climb.lineage_eq, ?_, line.not_space_prefix, ?_⟩
    · rw [line.text_eq, ReportLine.indentation, depth]
    · intro role
      rw [line.role_prefix_iff]
      by_cases top : x = h
      · simp [about.first top, top]
      · rw [about.later top role, and_iff_right top]
  case named =>
    refine ⟨d, label, identity, line.indentation ++ line.roleText, line.boundText ++ line.marks,
      found, labelled, named, ?_⟩
    rw [← kind, ← identified, ← translated]
    simp only [ReportLine.text, ReportLine.labelText, String.append_assoc]
    cases line.label <;> rfl
  case marked =>
    refine ⟨d, hidden, line.stem, found, shows, ?_, ?_, ?_⟩
    · rw [← edits, line.text_eq_stem]
    · rw [← edits, line.star_suffix_iff]
    · rw [← hides, line.hidden_suffix_iff]

/-- A report comes to a result, and that has one line for each definition of the subtree, in the same
order: what is indented, named and marked in it is as the definition says. -/
theorem Reachable.report_lists (reached : Reachable f) {d : Entry} (found : f.get? h = some d)
    (observers : Observers m) (data : Data) : ∃ order lines, f.subtree h = .ok order ∧ order.Nodup ∧
      f.report observers h data = .ok lines ∧
      List.Forall₂ (f.Listing observers data h) order (lines.map ReportLine.text) := by
  have wf := reached.consistent.links
  obtain ⟨b, read, reads, role, rfl⟩ := wf.exists_branch found
  obtain ⟨lines, run⟩ := wf.exists_report observers found data
  obtain ⟨hs, climb⟩ := wf.climbs found
  obtain ⟨above, rfl⟩ := climb.eq_cons
  have each : f.branchReport observers data b = .ok lines := by
    rwa [report, read] at run
  refine ⟨b.handles, lines, by rw [subtree, read]; rfl, (reads.ownersFirst wf).nodup, run, ?_⟩
  rw [List.forall₂_map_right_iff]
  exact (reads.lines wf climb each).imp fun x line about => (role ▸ about).listing

private def reportedForm : Forest :=
  empty.afterAll
    [.insert (.form "Order" none none) "" (Content.holders_form "Order"),
      .insert (.panel "") "" (Content.holders_panel ""),
      .insert (.input "Name" true) "%0%.name" (Content.holders_input "Name" true),
      .insert (.panel "") "" (Content.holders_panel ""),
      .setParent ⟨1⟩ ⟨0⟩, .setParent ⟨2⟩ ⟨1⟩, .attach ⟨0⟩ .header ⟨3⟩,
      .annotate ⟨1⟩
        { key := none
          hidden := true
          hideIfEmpty := false
          hideIfUndefined := false
          validators := []
          edited := true
          observer := none
          bundle := none }]

theorem Reachable.report_lists_of_form : ∃ (f : Forest) (observers : Observers Id) (data : Data)
    (lines : List String), Reachable f ∧ f.subtree ⟨0⟩ = .ok [⟨0⟩, ⟨1⟩, ⟨2⟩, ⟨3⟩] ∧
      lines = ["form \"Order\" [/]", "  panel [/0] (hidden) *",
        "    input \"Name\" [/0/0] %0%.name -> \"Ada\"", "  header: panel [/header]"] ∧
      List.Forall₂ (f.Listing observers data ⟨0⟩) [⟨0⟩, ⟨1⟩, ⟨2⟩, ⟨3⟩] lines := by
  have reached : Reachable reportedForm := .afterAll .empty _ (by simp [Call.others])
  let observers : Observers Id := fun _ => {}
  let data : Data := [some (.object [("name", .string "Ada")])]
  obtain ⟨form, found⟩ : ∃ d, reportedForm.get? ⟨0⟩ = some d := ⟨_, rfl⟩
  have branch : reportedForm.subtree ⟨0⟩ = .ok [⟨0⟩, ⟨1⟩, ⟨2⟩, ⟨3⟩] := by decide +kernel
  have texts : (reportedForm.report observers ⟨0⟩ data).map (·.map ReportLine.text) =
      .ok ["form \"Order\" [/]", "  panel [/0] (hidden) *",
        "    input \"Name\" [/0/0] %0%.name -> \"Ada\"", "  header: panel [/header]"] := by
    decide +kernel
  obtain ⟨order, lines, shown, _, run, all⟩ := Reachable.report_lists reached found observers data
  rw [branch] at shown
  cases shown
  rw [run] at texts
  exact ⟨reportedForm, observers, data, _, reached, branch, Except.ok.inj texts, all⟩

end DataBinding.Forest
