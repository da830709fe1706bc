import DataBinding.Blueprint.Reader
import DataBinding.Blueprint.Writer
import DataBinding.Proofs.Outcome

/-!
# Blueprints written and read

A blueprint is written field by field and read field by field, each field without regard to the
others. What is written of a field sets that field alone, and what is not written leaves it at the
value that nothing has been read into. So reading what was written gives the blueprint back.
-/

namespace DataBinding.Blueprint

def writingOrder : List Field :=
  [.action, .children, .component, .dataPath, .holder .details, .holder .footer, .holder .header,
    .hidden, .hideIfEmpty, .hideIfUndefined, .key, .kind, .label, .holder .possibleValues, .required,
    .text, .title, .validators]

/-- The members that one field is written as: one, or none when the field is not set. -/
def writtenField (b : Blueprint) : Field → Members Json
  | .kind => [("kind", .string b.traits.kind)]
  | .key => textField "key" b.traits.key
  | .dataPath => pathField b.traits.dataPath
  | .hidden => flagField "hidden" b.traits.hidden
  | .hideIfEmpty => flagField "hideIfEmpty" b.traits.hideIfEmpty
  | .hideIfUndefined => flagField "hideIfUndefined" b.traits.hideIfUndefined
  | .label => textField "label" b.traits.label
  | .title => textField "title" b.traits.title
  | .text => textField "text" b.traits.text
  | .required => flagField "required" b.traits.required
  | .component => textField "component" b.traits.component
  | .action => textField "action" b.traits.action
  | .validators => listField "validators" (b.traits.validators.map .string)
  | .children => listField "children" (childrenJson b.children)
  | .holder role => holderField role.name (b.holder? role)

theorem toJson_eq (b : Blueprint) : b.toJson = .object (writingOrder.flatMap b.writtenField) := by
  obtain ⟨traits, children, header, footer, possibleValues, details⟩ := b
  rw [toJson]
  simp only [writingOrder, List.flatMap_cons, List.flatMap_nil, List.append_assoc, List.append_nil]
  rfl

def copyField (b into : Blueprint) : Field → Blueprint
  | .kind => { into with traits := { into.traits with kind := b.traits.kind } }
  | .key => { into with traits := { into.traits with key := b.traits.key } }
  | .dataPath => { into with traits := { into.traits with dataPath := b.traits.dataPath } }
  | .hidden => { into with traits := { into.traits with hidden := b.traits.hidden } }
  | .hideIfEmpty => { into with traits := { into.traits with hideIfEmpty := b.traits.hideIfEmpty } }
  | .hideIfUndefined =>
    { into with traits := { into.traits with hideIfUndefined := b.traits.hideIfUndefined } }
  | .label => { into with traits := { into.traits with label := b.traits.label } }
  | .title => { into with traits := { into.traits with title := b.traits.title } }
  | .text => { into with traits := { into.traits with text := b.traits.text } }
  | .required => { into with traits := { into.traits with required := b.traits.required } }
  | .component => { into with traits := { into.traits with component := b.traits.component } }
  | .action => { into with traits := { into.traits with action := b.traits.action } }
  | .validators => { into with traits := { into.traits with validators := b.traits.validators } }
  | .children => { into with children := b.children }
  | .holder role => into.setHolder role (b.holder? role)

def Blank (b : Blueprint) (field : Field) : Prop :=
  copyField (ofKind "") b field = b

theorem copyField_comm {x y : Field} (differ : x ≠ y) (b c into : Blueprint) :
    copyField c (copyField b into x) y = copyField b (copyField c into y) x := by
  cases x <;> (try cases ‹Role›) <;> cases y <;> (try cases ‹Role›) <;>
    first | rfl | exact absurd rfl differ

theorem Blank.copyField {into : Blueprint} {x y : Field} (blank : into.Blank y) (differ : x ≠ y)
    (b : Blueprint) : (copyField b into x).Blank y := by
  rw [Blank, copyField_comm differ, blank]

theorem foldl_copyField_writingOrder (b : Blueprint) :
    writingOrder.foldl (copyField b) (ofKind "") = b := by
  obtain ⟨traits, children, header, footer, possibleValues, details⟩ := b
  simp only [writingOrder, List.foldl_cons, List.foldl_nil, copyField, setHolder, holder?]

theorem ofName?_name (field : Field) : Field.ofName? field.name = some field := by
  cases field with
  | holder role => cases role <;> decide
  | _ => decide

theorem readMembers_single {seen : List Field} {into b : Blueprint} {field : Field} {json : Json}
    (fresh : field ∉ seen) (read : readField into field json = .ok b) :
    readMembers ⟨seen, into⟩ [(field.name, json)] = .ok ⟨field :: seen, b⟩ := by
  rw [readMembers, ofName?_name]
  simp only [if_neg fresh, read, Outcome.ok_bind, readMembers]

theorem readMembers_append (draft : Draft) (first later : Members Json) :
    readMembers draft (first ++ later) = readMembers draft first >>= (readMembers · later) := by
  induction first generalizing draft with
  | nil => rw [List.nil_append, readMembers, Outcome.ok_bind]
  | cons member rest ih =>
    obtain ⟨name, json⟩ := member
    rw [List.cons_append, readMembers, readMembers]
    split
    · exact ih draft
    · split
      · rfl
      · rw [bind_assoc]
        congr 1
        funext b
        exact ih _

/-- What is written of a field is read back into a blueprint that nothing has been read into the field
of. -/
def Readable (b : Blueprint) (field : Field) : Prop :=
  ∀ (seen : List Field) (into : Blueprint), field ∉ seen → into.Blank field →
    readMembers ⟨seen, into⟩ (b.writtenField field) =
      .ok ⟨if b.writtenField field = [] then seen else field :: seen, b.copyField into field⟩

theorem readable_of_single {b : Blueprint} {field : Field} {json : Json}
    (written : b.writtenField field = [(field.name, json)])
    (read : ∀ into, readField into field json = .ok (b.copyField into field)) : b.Readable field := by
  intro seen into fresh _
  rw [written, readMembers_single fresh (read into), if_neg (List.cons_ne_nil _ _)]

theorem readable_of_absent {b : Blueprint} {field : Field} (absent : b.writtenField field = [])
    (same : ∀ into, b.copyField into field = (ofKind "").copyField into field) :
    b.Readable field := by
  intro seen into _ blank
  rw [absent, if_pos rfl, readMembers, same, blank]

theorem readable_of_text {b : Blueprint} {field : Field} {text : Option String}
    (written : b.writtenField field = textField field.name text)
    (read : ∀ s, text = some s → ∀ into, readField into field (.string s) = .ok (b.copyField into field))
    (same : text = none → ∀ into, b.copyField into field = (ofKind "").copyField into field) :
    b.Readable field := by
  cases text with
  | none => exact readable_of_absent written (same rfl)
  | some s => exact readable_of_single written (read s rfl)

theorem readable_of_flag {b : Blueprint} {field : Field} {flag : Bool}
    (written : b.writtenField field = flagField field.name flag)
    (read : flag = true → ∀ into, readField into field (.bool true) = .ok (b.copyField into field))
    (same : flag = false → ∀ into, b.copyField into field = (ofKind "").copyField into field) :
    b.Readable field := by
  cases flag with
  | false => exact readable_of_absent written (same rfl)
  | true => exact readable_of_single written (read rfl)

theorem readable_of_list {b : Blueprint} {field : Field} {items : List Json}
    (written : b.writtenField field = listField field.name items)
    (read : ∀ into, readField into field (.array items) = .ok (b.copyField into field))
    (same : items = [] → ∀ into, b.copyField into field = (ofKind "").copyField into field) :
    b.Readable field := by
  cases items with
  | nil => exact readable_of_absent written (same rfl)
  | cons item rest => exact readable_of_single written read

theorem mapM_readText (texts : List String) :
    (texts.map Json.string).mapM Traits.readText = .ok texts := by
  rw [Outcome.mapM_eq_ok_iff, List.forall₂_map_left_iff, List.forall₂_same]
  exact fun _ _ => rfl

theorem readable_traits {b : Blueprint} {field : Field} (noChildren : field ≠ .children)
    (noHolder : ∀ role, field ≠ .holder role) : b.Readable field := by
  cases field with
  | children => exact absurd rfl noChildren
  | holder role => exact absurd rfl (noHolder role)
  | kind => exact readable_of_single rfl fun _ => rfl
  | dataPath =>
    by_cases empty : b.traits.dataPath = ""
    · have absent : b.writtenField .dataPath = [] := if_pos empty
      refine readable_of_absent absent fun into => ?_
      rw [copyField, empty]
      rfl
    · have written : b.writtenField .dataPath = [(Field.dataPath.name, .string b.traits.dataPath)] :=
        if_neg empty
      exact readable_of_single written fun _ => rfl
  | validators =>
    refine readable_of_list rfl (fun into => ?_) fun unset into => ?_
    · simp only [readField, Traits.read, Traits.readTexts, mapM_readText]
      rfl
    · rw [copyField, List.map_eq_nil_iff.1 unset]
      rfl
  | hidden | hideIfEmpty | hideIfUndefined | required =>
    refine readable_of_flag rfl (fun set into => ?_) fun set into => ?_
    · rw [copyField, set]
      rfl
    · rw [copyField, set]
      rfl
  | key | label | title | text | component | action =>
    refine readable_of_text rfl (fun s set into => ?_) fun unset into => ?_
    · rw [copyField, set]
      rfl
    · rw [copyField, unset]
      rfl

theorem readable_children {b : Blueprint} (read : readList (childrenJson b.children) = .ok b.children) :
    b.Readable .children := by
  refine readable_of_list rfl (fun into => ?_) fun unset into => ?_
  · rw [readField, read]
    rfl
  · have empty : b.children = [] := by
      cases children : b.children with
      | nil => rfl
      | cons =>
        rw [children] at unset
        cases unset
    rw [copyField, empty]
    rfl

theorem readable_holder {b : Blueprint} {role : Role}
    (read : ∀ holder, b.holder? role = some holder → ofJson holder.toJson = .ok holder) :
    b.Readable (.holder role) := by
  cases plays : b.holder? role with
  | none =>
    refine readable_of_absent ?_ fun into => ?_
    · rw [writtenField, plays, holderField]
    · rw [copyField, copyField, plays]
      cases role <;> rfl
  | some holder =>
    have written : b.writtenField (.holder role) = [((Field.holder role).name, holder.toJson)] := by
      rw [writtenField, plays, holderField]
      rfl
    refine readable_of_single written ?_
    intro into
    have members := holder.toJson_eq
    replace read := read holder plays
    rw [members] at read ⊢
    rw [ofJson] at read
    rw [readField, ← bind_assoc, read, copyField, plays]
    rfl

/-- Fields that are all readable and blank are read one after the other. -/
theorem readMembers_fields {b into : Blueprint} {fields seen : List Field} (distinct : fields.Nodup)
    (readable : ∀ field ∈ fields, b.Readable field)
    (fresh : ∀ field ∈ fields, field ∉ seen ∧ into.Blank field) :
    ∃ read, readMembers ⟨seen, into⟩ (fields.flatMap b.writtenField) =
      .ok ⟨read, fields.foldl (copyField b) into⟩ ∧ seen ⊆ read ∧
      ∀ field ∈ fields, b.writtenField field ≠ [] → field ∈ read := by
  induction fields generalizing seen into with
  | nil => exact ⟨seen, rfl, List.Subset.refl _, by simp⟩
  | cons field rest ih =>
    obtain ⟨first, later⟩ := List.nodup_cons.1 distinct
    obtain ⟨new, blank⟩ := fresh field List.mem_cons_self
    rw [List.flatMap_cons, readMembers_append, readable field List.mem_cons_self seen into new blank,
      Outcome.ok_bind]
    have differ : ∀ other ∈ rest, field ≠ other := by
      rintro other inside rfl
      exact first inside
    have fresh' : ∀ other ∈ rest,
        other ∉ (if b.writtenField field = [] then seen else field :: seen) ∧
          (b.copyField into field).Blank other := by
      intro other inside
      obtain ⟨new, blank⟩ := fresh other (List.mem_cons_of_mem _ inside)
      refine ⟨?_, blank.copyField (differ other inside) b⟩
      split
      case isTrue => exact new
      case isFalse => exact List.not_mem_cons_of_ne_of_not_mem (differ other inside).symm new
    obtain ⟨read, run, grows, all⟩ :=
      ih later (fun other inside => readable other (List.mem_cons_of_mem _ inside)) fresh'
    refine ⟨read, run, fun other inside => grows ?_, fun other inside written => ?_⟩
    · split
      case isTrue => exact inside
      case isFalse => exact List.mem_cons_of_mem _ inside
    · rcases List.mem_cons.1 inside with rfl | inside
      · apply grows
        rw [if_neg written]
        exact List.mem_cons_self
      · exact all other inside written

theorem ofJson_toJson_of_owned {b : Blueprint}
    (children : readList (childrenJson b.children) = .ok b.children)
    (holders : ∀ role holder, b.holder? role = some holder → ofJson holder.toJson = .ok holder) :
    ofJson b.toJson = .ok b := by
  have readable : ∀ field, b.Readable field := by
    intro field
    cases field with
    | children => exact readable_children children
    | holder role => exact readable_holder (holders role)
    | _ => exact readable_traits (by simp) (by simp)
  have fresh : ∀ field ∈ writingOrder, field ∉ [] ∧ (ofKind "").Blank field := by
    intro field _
    refine ⟨List.not_mem_nil, ?_⟩
    cases field with
    | holder role => cases role <;> rfl
    | _ => rfl
  obtain ⟨read, run, _, all⟩ :=
    readMembers_fields (by decide) (fun field _ => readable field) fresh
  have known : Field.kind ∈ read := all .kind (by decide) (List.cons_ne_nil _ _)
  rw [toJson_eq, ofJson, run, Outcome.ok_bind, Draft.complete, if_pos known,
    foldl_copyField_writingOrder]

mutual

theorem ofJson_toJson : (b : Blueprint) → ofJson b.toJson = .ok b
  | ⟨traits, children, header, footer, possibleValues, details⟩ => by
    refine ofJson_toJson_of_owned (readList_childrenJson children) fun role holder plays => ?_
    cases role with
    | header => exact ofJson_toJson_holder header holder plays
    | footer => exact ofJson_toJson_holder footer holder plays
    | possibleValues => exact ofJson_toJson_holder possibleValues holder plays
    | details => exact ofJson_toJson_holder details holder plays

theorem readList_childrenJson : (children : List Blueprint) →
    readList (childrenJson children) = .ok children
  | [] => rfl
  | child :: rest => by
    rw [childrenJson, readList, ofJson_toJson child, readList_childrenJson rest]
    rfl

theorem ofJson_toJson_holder : (plays : Option Blueprint) →
    ∀ holder, plays = some holder → ofJson holder.toJson = .ok holder
  | none, _, absent => by cases absent
  | some b, _, same => by
    cases same
    exact ofJson_toJson b

end

end DataBinding.Blueprint
