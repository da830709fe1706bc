import DataBinding.Proofs.Host.Coverage

/-!
# What a dropdown offers

A dropdown rejects its value when nothing on offer is that value. An object among the options offers
what its member named `value` is set to, and nothing else: an object that is the value itself does not
offer it. For a value that is no object this makes no difference.
-/

namespace DataBinding

namespace Value

theorem isObject_of_same {v option : Value} (same : option.same v = true) :
    option.isObject = v.isObject := by
  cases option <;> cases v <;> first | rfl | cases same

/-- One of the options is equal to the value, or has it as its member named `value`. -/
def Listed (v : Value) (options : List Value) : Prop :=
  ∃ option ∈ options, option.same v = true ∨ ∃ members offered, option = .object members ∧
    Members.get? "value" members = some offered ∧ offered.same v = true

/-- One of the options offers the value: itself if it is no object, and otherwise its member named
`value`. -/
def Offered (v : Value) (options : List Value) : Prop :=
  ∃ option ∈ options, option.isObject = false ∧ option.same v = true ∨
    ∃ members offered, option = .object members ∧ Members.get? "value" members = some offered ∧
      offered.same v = true

theorem offers_eq_true_iff {v option : Value} : Checks.offers v option = true ↔
    option.isObject = false ∧ option.same v = true ∨
      ∃ members offered, option = .object members ∧ Members.get? "value" members = some offered ∧
        offered.same v = true := by
  cases option with
  | object members => cases named : Members.get? "value" members <;> simp [Checks.offers, named, isObject]
  | _ => simp [Checks.offers, isObject]

theorem any_offers_iff {v : Value} {options : List Value} :
    options.any (Checks.offers v) = true ↔ v.Offered options := by
  simp only [List.any_eq_true, offers_eq_true_iff, Offered]

instance (v : Value) (options : List Value) : Decidable (v.Offered options) :=
  decidable_of_iff _ any_offers_iff

/-- A listed value is offered, unless it is listed as an object only. -/
theorem listed_iff {v : Value} {options : List Value} : v.Listed options ↔ v.Offered options ∨
    ∃ option ∈ options, option.isObject = true ∧ option.same v = true := by
  constructor
  · rintro ⟨option, inside, same | named⟩
    · cases object : option.isObject with
      | false => exact .inl ⟨option, inside, .inl ⟨object, same⟩⟩
      | true => exact .inr ⟨option, inside, object, same⟩
    · exact .inl ⟨option, inside, .inr named⟩
  · rintro (⟨option, inside, ⟨_, same⟩ | named⟩ | ⟨option, inside, _, same⟩)
    · exact ⟨option, inside, .inl same⟩
    · exact ⟨option, inside, .inr named⟩
    · exact ⟨option, inside, .inl same⟩

theorem offered_iff_listed {v : Value} (plain : v.isObject = false) (options : List Value) :
    v.Offered options ↔ v.Listed options := by
  rw [listed_iff, or_iff_left]
  rintro ⟨option, _, object, same⟩
  rw [isObject_of_same same, plain] at object
  cases object

def offerMessages (v : Value) (options : List Value) : List String :=
  if v.isNullish = true ∨ v.Offered options then []
  else [v.text ++ " is not one of the possible values"]

end Value

def Reading.requiredMessages (required : Bool) (reading : Reading) : List String :=
  if required = true ∧ reading.isEmpty = true then ["A value is required"] else []

namespace Forest

variable {f : Forest} {h x holder : Handle} {d e o : Entry} {data : Data} {label : String}
  {required : Bool} {options : List Value} {m : Type → Type} (observers : Observers m)

theorem requiredValue_eq (found : f.get? x = some d) (data : Data) : ∃ reason,
    Checks.requiredValue f x data = .ok reason ∧
      reason.toList = (d.firstReading data).requiredMessages d.content.isRequired := by
  simp only [Checks.requiredValue, find_eq_ok_iff.2 found, Outcome.ok_bind,
    Reading.requiredMessages]
  by_cases lacking : d.content.isRequired = true ∧ (d.firstReading data).isEmpty = true
  · exact ⟨_, if_pos (by simpa using lacking), by rw [if_pos lacking]; rfl⟩
  · exact ⟨_, if_neg (by simpa using lacking), by rw [if_neg lacking]; rfl⟩

theorem listedValue_eq (found : f.get? x = some d)
    (filled : d.content.holder? .possibleValues = some holder) (holderFound : f.get? holder = some o)
    (array : (o.firstReading data).toValue = .array options) : ∃ reason,
    Checks.listedValue f x data = .ok reason ∧
      reason.toList = (d.firstReading data).toValue.offerMessages options := by
  simp only [Checks.listedValue, find_eq_ok_iff.2 found, Outcome.ok_bind, filled,
    firstReading_eq holderFound, array, firstReading_eq found, Value.offerMessages,
    ← Value.any_offers_iff]
  by_cases fine : (d.firstReading data).toValue.isNullish = true ∨
      options.any (Checks.offers (d.firstReading data).toValue) = true
  · exact ⟨none, if_pos (by simpa using fine), by rw [if_pos fine]; rfl⟩
  · exact ⟨_, if_neg (by simpa using fine), by rw [if_neg fine]; rfl⟩

/-- All that a dropdown says: that it has no value, that its value is not on offer, and what the
validators say that it names. -/
theorem Says.of_dropdown {issues : List Issue} (said : f.Says observers .standard data x issues)
    (found : f.get? x = some d) (content : d.content = .dropdown label required (some holder))
    (holderFound : f.get? holder = some o) (array : (o.firstReading data).toValue = .array options) :
    ∃ identity, f.identity x = .ok identity ∧
      issues = ((d.firstReading data).requiredMessages required ++
        (d.firstReading data).toValue.offerMessages options ++
        (knownValidators observers d).filterMap fun reject =>
          reject (d.firstReading data).toValue).map (Issue.mk identity) := by
  obtain ⟨d', identity, reasons, again, named, run, rfl⟩ := said
  rw [found] at again
  cases again
  have checks : (Checks.standard.table.filter fun entry => entry.1 = d.kind) =
      [(.dropdown, Checks.requiredValue), (.dropdown, Checks.listedValue)] := by
    rw [Definition.kind, content]
    rfl
  obtain ⟨first, required_run, lacking⟩ := requiredValue_eq found data
  obtain ⟨second, listed_run, offers⟩ :=
    listedValue_eq found (by rw [content]; rfl) holderFound array
  rw [checks] at run
  obtain ⟨_, _, ran, rest, rfl⟩ := List.forall₂_cons_left_iff.1 run
  obtain ⟨_, _, ran', last, rfl⟩ := List.forall₂_cons_left_iff.1 rest
  obtain rfl := List.forall₂_nil_left_iff.1 last
  cases required_run.symm.trans ran
  cases listed_run.symm.trans ran'
  refine ⟨identity, named, ?_⟩
  rw [content] at lacking
  have byKind : [first, second].filterMap id = first.toList ++ second.toList := by
    cases first <;> cases second <;> rfl
  rw [byKind, lacking, offers]
  rfl

private theorem forall₂_middle {α β : Type} {related : α → β → Prop} {before after : List α} {a : α}
    {bs : List β} (all : List.Forall₂ related (before ++ a :: after) bs) :
    ∃ front b back, bs = front ++ b :: back ∧ List.Forall₂ related before front ∧ related a b ∧
      List.Forall₂ related after back := by
  have front := (List.forall₂_take_append bs before (a :: after) all.flip).flip
  obtain ⟨b, back, here, later, rest⟩ := List.forall₂_cons_left_iff.1
    (List.forall₂_drop_append bs before (a :: after) all.flip).flip
  exact ⟨_, b, back, by rw [← rest, List.take_append_drop], front, here, later⟩

/-- What a definition says that validation comes to is said in one piece, in between of what others
say. -/
theorem WellFormed.exists_validate_around (wf : f.WellFormed) (found : f.get? h = some e)
    {checks : Checks} (answer : checks.Answer f) (below : f.Within h x)
    (exposed : f.Exposed data h x) : ∃ before after front own back, x ∉ before ∧ x ∉ after ∧
      List.Forall₂ (f.Says observers checks data) before front ∧
      f.Says observers checks data x own ∧
      List.Forall₂ (f.Says observers checks data) after back ∧
      f.validate observers checks h data = .ok (front.flatten ++ own ++ back.flatten) := by
  obtain ⟨issues, run⟩ := wf.exists_validate observers found answer data
  obtain ⟨b, read, reads, _, rfl⟩ := wf.exists_branch found
  have distinct : (b.covered f data).Nodup :=
    reads.covered_sublist.nodup (reads.ownersFirst wf).nodup
  obtain ⟨before, after, split⟩ := List.append_of_mem
    ((reads.mem_covered_iff wf).2 ⟨(reads.mem_handles_iff wf).2 below, exposed⟩)
  have apart : x ∉ before ++ after := (List.nodup_middle.1 (split ▸ distinct)).notMem
  rw [List.mem_append, not_or] at apart
  have gathers := run
  rw [validate, read, Outcome.ok_bind, reads.branchIssues_eq observers wf, Outcome.gather_eq_ok_iff,
    split] at gathers
  simp only [wf.ownIssues_eq_ok_iff observers] at gathers
  obtain ⟨each, all, rfl⟩ := gathers
  obtain ⟨front, own, back, rfl, first, said, later⟩ := forall₂_middle all
  refine ⟨before, after, front, own, back, apart.1, apart.2, first, said, later, ?_⟩
  rw [run, List.flatten_append, List.flatten_cons, List.append_assoc]

/-- Wherever validation comes to a dropdown whose offers are an array, it says this of the dropdown and
nothing else: that it has no value, if it has to have one; that the value is not on offer, if there is
one and no option offers it; and what the validators say. An option that is the value itself offers it
unless both are objects. -/
theorem Reachable.validate_dropdown (reached : Reachable f) (found : f.get? h = some e)
    (dropdown : f.get? x = some d) (content : d.content = .dropdown label required (some holder))
    (holderFound : f.get? holder = some o) (array : (o.firstReading data).toValue = .array options)
    {v : Value} (value : (d.firstReading data).toValue = v) (below : f.Within h x)
    (exposed : f.Exposed data h x) :
    (∃ identity before after front back, f.identity x = .ok identity ∧ x ∉ before ∧ x ∉ after ∧
      List.Forall₂ (f.Says observers .standard data) before front ∧
      List.Forall₂ (f.Says observers .standard data) after back ∧
      f.validate observers .standard h data = .ok (front.flatten ++
        ((if required = true ∧ (d.firstReading data).isEmpty = true then ["A value is required"]
            else []) ++
          (if v.isNullish = true ∨ v.Offered options then []
            else [v.text ++ " is not one of the possible values"]) ++
          (knownValidators observers d).filterMap fun reject => reject v).map (Issue.mk identity) ++
        back.flatten)) ∧
    (v.Listed options ↔ v.Offered options ∨
      ∃ option ∈ options, option.isObject = true ∧ option.same v = true) ∧
    (v.isObject = false → (v.Offered options ↔ v.Listed options)) := by
  refine ⟨?_, Value.listed_iff, fun plain => Value.offered_iff_listed plain options⟩
  have wf := reached.consistent.links
  obtain ⟨before, after, front, own, back, first, later, others, said, others', run⟩ :=
    wf.exists_validate_around observers found wf.answer_standard below exposed
  obtain ⟨identity, named, rfl⟩ := said.of_dropdown observers dropdown content holderFound array
  rw [value] at run
  exact ⟨identity, before, after, front, back, named, first, later, others, others', run⟩

private def offeringDropdown : Forest :=
  empty.afterAll
    [.insert (.dropdown "" true none) "%0%.v" (Content.holders_dropdown "" true),
      .insert .definitionList "%0%.o" rfl, .attach ⟨0⟩ .possibleValues ⟨1⟩]

/-- The value of the dropdown is an object, and the first of its two options is that object. -/
private def offeredObjects : Data :=
  let v := .object [("a", .bool true)]
  [some (.object [("v", v), ("o", .array [v, .object [("value", .string "x")]])])]

/-- The object is rejected, although it is listed. -/
theorem Reachable.validate_dropdown_of_objects : ∃ (f : Forest) (d o : Entry) (data : Data)
    (options : List Value) (v : Value) (issues : List Issue), Reachable f ∧ f.get? ⟨0⟩ = some d ∧
      d.content = .dropdown "" true (some ⟨1⟩) ∧ f.get? ⟨1⟩ = some o ∧
      (o.firstReading data).toValue = .array options ∧ (d.firstReading data).toValue = v ∧
      v.Listed options ∧ ¬ v.Offered options ∧
      f.validate (fun _ => {} : Observers Id) .standard ⟨0⟩ data = .ok issues ∧
      ⟨"/", "{a: true} is not one of the possible values"⟩ ∈ issues := by
  have reached : Reachable offeringDropdown := .afterAll .empty _ (by simp [Call.others])
  have wf := reached.consistent.links
  obtain ⟨d, found, content, value⟩ : ∃ d, offeringDropdown.get? ⟨0⟩ = some d ∧
      d.content = .dropdown "" true (some ⟨1⟩) ∧
      (d.firstReading offeredObjects).toValue = .object [("a", .bool true)] :=
    ⟨_, rfl, rfl, rfl⟩
  obtain ⟨o, there, array⟩ : ∃ o, offeringDropdown.get? ⟨1⟩ = some o ∧
      (o.firstReading offeredObjects).toValue =
        .array [.object [("a", .bool true)], .object [("value", .string "x")]] :=
    ⟨_, rfl, rfl⟩
  have named : offeringDropdown.identity ⟨0⟩ = .ok "/" := by decide +kernel
  have shows : offeringDropdown.isHidden ⟨0⟩ offeredObjects = .ok false := by decide +kernel
  have rejected : ¬ Value.Offered (.object [("a", .bool true)])
      [.object [("a", .bool true)], .object [("value", .string "x")]] := by decide +kernel
  obtain ⟨⟨identity, before, after, front, back, named', _, _, _, _, run⟩, listed, _⟩ :=
    Reachable.validate_dropdown (fun _ => {} : Observers Id) reached found found content there array
      value (wf.within_refl found) ((wf.exposed_self found).2 shows)
  rw [named] at named'
  cases named'
  refine ⟨_, d, o, _, _, _, _, reached, found, content, there, array, value, ?_, rejected, run, ?_⟩
  · exact listed.2 (.inr ⟨_, List.mem_cons_self, rfl, by decide +kernel⟩)
  · have text : Value.text (.object [("a", .bool true)]) = "{a: true}" := by decide +kernel
    simp [rejected, text, Value.isNullish]

/-- An option that is the value itself, but is an object, does not keep validation from rejecting the
value. -/
theorem validate_not_listed : ¬ ∀ (f : Forest) (x holder : Handle) (d o : Entry) (label : String)
    (required : Bool) (data : Data) (options : List Value) (identity : String) (issues : List Issue),
    Reachable f → f.get? x = some d → d.content = .dropdown label required (some holder) →
    f.get? holder = some o → (o.firstReading data).toValue = .array options →
    f.isHidden x data = .ok false → f.identity x = .ok identity →
    f.validate (fun _ => {} : Observers Id) .standard x data = .ok issues →
    (⟨identity, (d.firstReading data).toValue.text ++ " is not one of the possible values"⟩ ∈ issues ↔
      (d.firstReading data).toValue.isNullish = false ∧
        ¬ (d.firstReading data).toValue.Listed options) := by
  intro exactly
  have reached : Reachable offeringDropdown := .afterAll .empty _ (by simp [Call.others])
  have rejects := exactly offeringDropdown ⟨0⟩ ⟨1⟩ _ _ _ _ offeredObjects _ "/"
    [⟨"/", "{a: true} is not one of the possible values"⟩] reached rfl rfl rfl rfl
    (by decide +kernel) (by decide +kernel) (by decide +kernel)
  obtain ⟨_, unlisted⟩ := rejects.1 (by decide +kernel)
  exact unlisted ⟨_, List.mem_cons_self, .inl (by decide +kernel)⟩

end Forest

end DataBinding
