import DataBinding.Proofs.Blueprint.Objects
import DataBinding.Proofs.Json.Ordered
import Mathlib.Logic.Relation

/-!
# Other spellings of blueprints

What was written of a blueprint may be changed: members get their older names, unknown ones are put
in, and all of them may come in another order, at the blueprint itself and at any that is nested in
it. No such change is noticed when it is read again, so the blueprint comes back.
-/

namespace DataBinding

namespace Members

variable {α : Type} {name : String} {value : α} {members front back : Members α}

theorem exists_split (found : members.get? name = some value) : ∃ front back,
    members = front ++ (name, value) :: back ∧ ∀ member ∈ front, member.1 ≠ name := by
  induction members with
  | nil => cases found
  | cons member rest ih =>
    obtain ⟨key, other⟩ := member
    by_cases same : key = name
    · simp only [get?, same, if_true, Option.some.injEq] at found
      exact ⟨[], rest, by rw [same, found, List.nil_append], by simp⟩
    · rw [get?, if_neg same] at found
      obtain ⟨front, back, rfl, apart⟩ := ih found
      exact ⟨(key, other) :: front, back, rfl, List.forall_mem_cons.2 ⟨same, apart⟩⟩

theorem replace_split (apart : ∀ member ∈ front, member.1 ≠ name) (other : α) :
    replace name other (front ++ (name, value) :: back) = front ++ (name, other) :: back := by
  induction front with
  | nil => simp [replace]
  | cons member rest ih =>
    rw [List.forall_mem_cons] at apart
    rw [List.cons_append, replace, if_neg apart.1, ih apart.2, List.cons_append]

theorem erase_split (apart : ∀ member ∈ front ++ back, member.1 ≠ name) :
    erase name (front ++ (name, value) :: back) = front ++ back := by
  have kept : ∀ members : Members α, (∀ member ∈ members, member.1 ≠ name) →
      erase name members = members := by
    intro members apart
    rw [erase, List.filter_eq_self]
    simpa using apart
  rw [List.forall_mem_append] at apart
  rw [erase, List.filter_append, List.filter_cons_of_neg (by simp), ← erase, ← erase,
    kept front apart.1, kept back apart.2]

theorem insert_perm (absent : ∀ member ∈ members, member.1 ≠ name) (value : α) :
    (insert name value members).Perm ((name, value) :: members) := by
  induction members with
  | nil => exact .refl _
  | cons member rest ih =>
    obtain ⟨key, other⟩ := member
    rw [List.forall_mem_cons] at absent
    rw [insert, if_neg absent.1]
    split
    case isTrue => exact .refl _
    case isFalse => exact ((ih absent.2).cons _).trans (.swap ..)

end Members

namespace Blueprint

def oldNames : List (String × String) :=
  [("kind", "type"), ("dataPath", "path")]

/-- One change of spelling to a definition or to one of the definitions nested in it: a member gets
its older name, an unknown one is put in, or the members come in another order. -/
inductive Respelling : Json → Json → Prop
  | renamed {members : Members Json} {name old : String} {value : Json}
    (older : (name, old) ∈ oldNames) (found : members.get? name = some value) :
    Respelling (.object members) (.object ((members.erase name).insert old value))
  | unknown {members : Members Json} {name : String} (value : Json)
    (noField : ∀ field : Field, field.name ≠ name) (noOld : ∀ pair ∈ oldNames, pair.2 ≠ name) :
    Respelling (.object members) (.object (members.insert name value))
  | reordered {members others : Members Json} (same : members.Perm others) :
    Respelling (.object members) (.object others)
  | child {members : Members Json} {front back : List Json} {json changed : Json}
    (found : members.get? "children" = some (.array (front ++ json :: back)))
    (below : Respelling json changed) :
    Respelling (.object members)
      (.object (members.replace "children" (.array (front ++ changed :: back))))
  | holder {members : Members Json} {role : Role} {json changed : Json}
    (found : members.get? role.name = some json) (below : Respelling json changed) :
    Respelling (.object members) (.object (members.replace role.name changed))

section Changes

variable {b : Blueprint} {field : Field} {name old : String} {value : Json}
  {members front back : Members Json}

theorem ofName?_of_unknown (noField : ∀ field : Field, field.name ≠ name)
    (noOld : ∀ pair ∈ oldNames, pair.2 ≠ name) : Field.ofName? name = none := by
  have noType : "type" ≠ name := noOld ("kind", "type") (by decide)
  have noPath : "path" ≠ name := noOld ("dataPath", "path") (by decide)
  rw [Field.ofName?, List.find?_eq_none.2 (by simpa using fun field _ => noField field)]
  show Field.ofOldName? name = none
  unfold Field.ofOldName?
  split
  · exact absurd rfl noType
  · exact absurd rfl noPath
  · rfl

theorem exists_field_of_older (older : (name, old) ∈ oldNames) :
    ∃ field, Field.ofName? name = some field ∧ Field.ofName? old = some field := by
  rcases List.mem_cons.1 older with same | later
  · cases same
    exact ⟨.kind, by decide, by decide⟩
  · cases List.mem_singleton.1 later
    exact ⟨.dataPath, by decide, by decide⟩

theorem knownMembers_append (front back : Members Json) :
    knownMembers (front ++ back) = knownMembers front ++ knownMembers back :=
  List.filterMap_append

theorem knownMembers_cons (named : Field.ofName? name = some field) (value : Json)
    (rest : Members Json) :
    knownMembers ((name, value) :: rest) = (field, value) :: knownMembers rest :=
  List.filterMap_cons_some (by rw [named]; rfl)

theorem knownMembers_insert_of_unknown (unknown : Field.ofName? name = none) (value : Json)
    (members : Members Json) : knownMembers (members.insert name value) = knownMembers members := by
  have skipped : ∀ (value : Json) rest, knownMembers ((name, value) :: rest) = knownMembers rest :=
    fun value rest => List.filterMap_cons_none (by rw [unknown]; rfl)
  induction members with
  | nil => exact skipped value []
  | cons member rest ih =>
    obtain ⟨key, other⟩ := member
    rw [Members.insert]
    split
    case isTrue same => rw [same, skipped, skipped]
    case isFalse =>
      split
      case isTrue => exact skipped value _
      case isFalse =>
        rw [← List.singleton_append, knownMembers_append, ih, ← knownMembers_append,
          List.singleton_append]

theorem Spells.alone (spelt : b.Spells (knownMembers (front ++ (name, value) :: back)))
    (named : Field.ofName? name = some field) {other : String}
    (same : Field.ofName? other = some field) : ∀ member ∈ front ++ back, member.1 ≠ other := by
  rintro ⟨_, json⟩ inside rfl
  have distinct := spelt.distinct
  rw [knownMembers_append, knownMembers_cons named, (List.perm_middle.map _).nodup_iff,
    List.map_cons, List.nodup_cons, ← knownMembers_append] at distinct
  refine distinct.1 (List.mem_map.2 ⟨(field, json), ?_, rfl⟩)
  exact List.mem_filterMap.2 ⟨_, inside, by rw [same]; rfl⟩

/-- An object reads the same after one of its known members tells the same in another way. -/
theorem ofJson_replace (read : ofJson (.object members) = .ok b)
    (found : members.get? name = some value) (named : Field.ofName? name = some field) {new : Json}
    (tells : b.Tells field value → b.Tells field new) :
    ofJson (.object (members.replace name new)) = .ok b := by
  rw [ofJson_object_eq_ok_iff] at read ⊢
  obtain ⟨front, back, rfl, apart⟩ := Members.exists_split found
  rw [Members.replace_split apart, knownMembers_append, knownMembers_cons named]
  rw [knownMembers_append, knownMembers_cons named] at read
  exact read.change tells

theorem readList_change {front back : List Json} {json changed : Json}
    (below : ∀ c, ofJson json = .ok c → ofJson changed = .ok c) {children : List Blueprint}
    (read : readList (front ++ json :: back) = .ok children) :
    readList (front ++ changed :: back) = .ok children := by
  induction front generalizing children with
  | nil =>
    rw [List.nil_append, readList, Outcome.bind_eq_ok_iff] at read ⊢
    obtain ⟨c, first, rest⟩ := read
    exact ⟨c, below c first, rest⟩
  | cons item front ih =>
    rw [List.cons_append, readList, Outcome.bind_eq_ok_iff] at read ⊢
    obtain ⟨c, first, rest⟩ := read
    obtain ⟨others, later, same⟩ := Outcome.bind_eq_ok_iff.1 rest
    exact ⟨c, first, Outcome.bind_eq_ok_iff.2 ⟨others, ih later, same⟩⟩

theorem Respelling.ofJson_eq {json changed : Json} (change : Respelling json changed)
    (read : ofJson json = .ok b) : ofJson changed = .ok b := by
  induction change generalizing b with
  | @renamed members name old value older found =>
    obtain ⟨field, named, namedOld⟩ := exists_field_of_older older
    rw [ofJson_object_eq_ok_iff] at read ⊢
    obtain ⟨front, back, rfl, _⟩ := Members.exists_split found
    rw [Members.erase_split (read.alone named named)]
    have moved := (Members.insert_perm (read.alone named namedOld) value).filterMap
      fun member => (Field.ofName? member.1).map (·, member.2)
    refine read.perm (.trans ?_ moved.symm)
    show (knownMembers _).Perm (knownMembers _)
    rw [knownMembers_append, knownMembers_cons named, knownMembers_cons namedOld,
      knownMembers_append]
    exact List.perm_middle
  | @unknown members name value noField noOld =>
    rw [ofJson_object_eq_ok_iff] at read ⊢
    rwa [knownMembers_insert_of_unknown (ofName?_of_unknown noField noOld)]
  | reordered same =>
    rw [ofJson_object_eq_ok_iff] at read ⊢
    exact read.perm (same.filterMap _)
  | @child members front back json changed found _ ih =>
    refine ofJson_replace read found (ofName?_name .children) fun tells into => ?_
    have listed := tells into
    rw [readField, Outcome.bind_eq_ok_iff] at listed ⊢
    obtain ⟨children, run, last⟩ := listed
    exact ⟨children, readList_change (fun _ => ih) run, last⟩
  | @holder members role json changed found below ih =>
    refine ofJson_replace read found (ofName?_name (.holder role)) fun tells into => ?_
    have objects : ∃ before after, json = .object before ∧ changed = .object after := by
      cases below <;> exact ⟨_, _, rfl, rfl⟩
    obtain ⟨before, after, rfl, rfl⟩ := objects
    have held := tells into
    rw [readField_holder_object, Outcome.map_eq_ok_iff] at held ⊢
    obtain ⟨owned, run, last⟩ := held
    exact ⟨owned, ih run, last⟩

/-- What is written of a blueprint is read back as it, after any number of changes of spelling to its
definition and to those nested in it. -/
theorem respelt_reads_back (b : Blueprint) {json : Json}
    (changes : Relation.ReflTransGen Respelling b.toJson json) : ofJson json = .ok b := by
  induction changes with
  | refl => exact ofJson_toJson b
  | tail _ change ih => exact change.ofJson_eq ih

private def keyedForm : Blueprint :=
  { traits := { kind := "form", key := some "", dataPath := "%0%.a" }
    children := [{ traits := { kind := "input", dataPath := "b" } }]
    header := some { traits := { kind := "textItem", text := some "" } } }

/-- What is written of that form, with the members of the input and of the header, and with the name
under which the kind of the form is given. -/
private def keyedFormJson (input header : Members Json) (kind : String) : Json :=
  .object [("children", .array [.object input]), ("dataPath", .string "%0%.a"),
    ("header", .object header), ("key", .string ""), (kind, .string "form")]

theorem respelt_reads_back_of_form : ∃ json, json = keyedFormJson
      [("kind", .string "input"), ("path", .string "b")]
      [("kind", .string "textItem"), ("note", .array [.null]), ("text", .string "")] "type" ∧
    Relation.ReflTransGen Respelling keyedForm.toJson json ∧ ofJson json = .ok keyedForm := by
  have unknown : ∀ field : Field, field.name ≠ "note" := by
    intro field
    cases field with
    | holder role => cases role <;> decide
    | _ => decide
  let input : Members Json := [("kind", .string "input"), ("path", .string "b")]
  let header : Members Json := [("kind", .string "textItem"), ("text", .string "")]
  let noted : Members Json := header.insert "note" (.array [.null])
  have first : Respelling keyedForm.toJson (keyedFormJson input header "kind") :=
    @Respelling.child _ [] [] _ _ rfl (@Respelling.renamed _ "dataPath" "path" _ (by decide) rfl)
  have second : Respelling (keyedFormJson input header "kind") (keyedFormJson input noted "kind") :=
    @Respelling.holder _ .header _ _ rfl (.unknown _ unknown (by decide))
  have third : Respelling (keyedFormJson input noted "kind") (keyedFormJson input noted "type") :=
    @Respelling.renamed _ "kind" "type" _ (by decide) rfl
  have changes := ((Relation.ReflTransGen.single first).tail second).tail third
  exact ⟨_, rfl, changes, respelt_reads_back _ changes⟩

end Changes

end Blueprint

end DataBinding
