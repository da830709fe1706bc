import DataBinding.Proofs.Blueprint.RoundTrip

/-!
# Objects as blueprints

An object is read as a blueprint member by member, in whatever order these come. What it comes to is
said here without an order: no field is named twice, the kind is, each member tells what is in its
field, and nothing is in the other fields.
-/

namespace DataBinding.Blueprint

/-! ### Fields of a blueprint -/

def Agree (a b : Blueprint) (field : Field) : Prop :=
  ∀ into, copyField a into field = copyField b into field

theorem agree_copyField (a into : Blueprint) (field : Field) :
    Agree (copyField a into field) a field := by
  intro other
  cases field with
  | holder role => cases role <;> rfl
  | _ => rfl

theorem agree_copyField_of_ne {x y : Field} (differ : x ≠ y) (a into : Blueprint) :
    Agree (copyField a into x) into y := by
  intro other
  cases x <;> (try cases ‹Role›) <;> cases y <;> (try cases ‹Role›) <;>
    first | rfl | exact absurd rfl differ

theorem eq_of_agree {a b : Blueprint} (agree : ∀ field, Agree a b field) : a = b := by
  have same : copyField a = copyField b := by
    funext into field
    exact agree field into
  rw [← foldl_copyField_writingOrder a, same, foldl_copyField_writingOrder]

/-! ### What one member tells -/

/-- A value read as a field gives what the blueprint has there, whatever it is read into. -/
def Tells (b : Blueprint) (field : Field) (json : Json) : Prop :=
  ∀ into, readField into field json = .ok (copyField b into field)

theorem readField_holder_object (into : Blueprint) (role : Role) (members : Members Json) :
    readField into (.holder role) (.object members) =
      (ofJson (.object members)).map fun owned => into.setHolder role (some owned) := by
  rw [readField, ofJson]
  cases readMembers {} members with
  | error e => rfl
  | ok draft =>
    simp only [Outcome.ok_bind]
    cases draft.complete <;> rfl

theorem readField_eq_map (into : Blueprint) (field : Field) (json : Json) :
    readField into field json =
      (readField (ofKind "") field json).map fun read => copyField read into field := by
  cases json with
  | array items =>
    cases field with
    | children =>
      simp only [readField]
      cases readList items <;> rfl
    | holder role =>
      simp only [readField]
      cases readRow items.length Field.all (ofKind "") items <;> cases role <;> rfl
    | validators =>
      simp only [readField, Traits.read]
      cases Traits.readTexts (.array items) <;> rfl
    | _ => rfl
  | object members =>
    cases field with
    | holder role =>
      rw [readField_holder_object, readField_holder_object]
      cases ofJson (.object members) <;> cases role <;> rfl
    | _ => rfl
  | null | bool | number | string =>
    cases field with
    | holder role => cases role <;> rfl
    | _ => rfl

section Reading

variable {into b c : Blueprint} {field : Field} {json : Json}

theorem tells_of_readField (read : readField into field json = .ok c) : c.Tells field json := by
  intro other
  rw [readField_eq_map] at read ⊢
  obtain ⟨r, first, rfl⟩ := Outcome.map_eq_ok_iff.1 read
  rw [first, agree_copyField r into field other]
  rfl

theorem agree_of_readField (read : readField into field json = .ok c) {other : Field}
    (differ : field ≠ other) : Agree c into other := by
  rw [readField_eq_map] at read
  obtain ⟨r, _, rfl⟩ := Outcome.map_eq_ok_iff.1 read
  exact agree_copyField_of_ne differ r into

theorem Tells.congr (tells : b.Tells field json) (agree : Agree c b field) :
    c.Tells field json := by
  intro into
  rw [tells into, agree into]

/-! ### What an object says -/

def knownMembers (members : Members Json) : List (Field × Json) :=
  members.filterMap fun member => (Field.ofName? member.1).map (·, member.2)

def readKnown (draft : Draft) : List (Field × Json) → Except BlueprintError Draft
  | [] => .ok draft
  | (field, json) :: rest =>
    if field ∈ draft.seen then .error (.duplicateField field)
    else do
      let blueprint ← readField draft.blueprint field json
      readKnown ⟨field :: draft.seen, blueprint⟩ rest

theorem readMembers_eq_readKnown (draft : Draft) (members : Members Json) :
    readMembers draft members = readKnown draft (knownMembers members) := by
  induction members generalizing draft with
  | nil => rw [readMembers, knownMembers, List.filterMap_nil, readKnown]
  | cons member rest ih =>
    obtain ⟨name, json⟩ := member
    rw [readMembers, knownMembers]
    cases named : Field.ofName? name with
    | none =>
      rw [List.filterMap_cons_none (by rw [named]; rfl)]
      exact ih draft
    | some field =>
      rw [List.filterMap_cons_some (by rw [named]; rfl), readKnown]
      simp only [ih, knownMembers]

/-- Known members are read when no field is given twice and each can be read by itself. Then every
field is what its member tells, or what it was before if it has none. -/
theorem readKnown_eq_ok_iff {seen : List Field} {read : Draft} {members : List (Field × Json)} :
    readKnown ⟨seen, into⟩ members = .ok read ↔
      (members.map (·.1)).Nodup ∧ (∀ field ∈ members.map (·.1), field ∉ seen) ∧
      read.seen = (members.map (·.1)).reverse ++ seen ∧
      (∀ member ∈ members, read.blueprint.Tells member.1 member.2) ∧
      ∀ field, field ∉ members.map (·.1) → Agree read.blueprint into field := by
  induction members generalizing seen into with
  | nil =>
    obtain ⟨others, b⟩ := read
    simp only [readKnown, List.map_nil, List.nodup_nil, List.not_mem_nil, not_false_eq_true,
      false_implies, implies_true, forall_const, true_and, Except.ok.injEq, Draft.mk.injEq,
      List.reverse_nil, List.nil_append]
    constructor
    · rintro ⟨rfl, rfl⟩
      exact ⟨rfl, fun _ _ => rfl⟩
    · rintro ⟨rfl, agree⟩
      exact ⟨rfl, (eq_of_agree agree).symm⟩
  | cons member rest ih =>
    obtain ⟨field, json⟩ := member
    rw [readKnown, List.map_cons, List.nodup_cons, List.forall_mem_cons, List.forall_mem_cons]
    by_cases again : field ∈ seen
    · simp [again]
    simp only [again, if_false, Outcome.bind_eq_ok_iff, ih]
    constructor
    · rintro ⟨c, first, distinct, fresh, order, told, silent⟩
      have absent : field ∉ rest.map (·.1) := fun inside => fresh field inside List.mem_cons_self
      refine ⟨⟨absent, distinct⟩, ⟨not_false, fun other inside found =>
        fresh other inside (List.mem_cons_of_mem _ found)⟩, ?_,
        ⟨(tells_of_readField first).congr (silent field absent), told⟩, fun other outside => ?_⟩
      · rw [order, List.reverse_cons, List.append_assoc, List.singleton_append]
      · obtain ⟨differ, later⟩ := not_or.1 (List.mem_cons.not.1 outside)
        exact fun t => (silent other later t).trans (agree_of_readField first (Ne.symm differ) t)
    · rintro ⟨⟨absent, distinct⟩, ⟨_, fresh⟩, order, ⟨first, told⟩, silent⟩
      refine ⟨_, first into, distinct, fun other inside => ?_, ?_, told, fun other outside => ?_⟩
      · exact List.not_mem_cons_of_ne_of_not_mem (fun same => absent (same ▸ inside))
          (fresh other inside)
      · rw [order, List.reverse_cons, List.append_assoc, List.singleton_append]
      · by_cases same : other = field
        · rw [same]
          exact fun t => (agree_copyField read.blueprint into field t).symm
        · have before := silent other (List.not_mem_cons_of_ne_of_not_mem same outside)
          have kept := agree_copyField_of_ne (Ne.symm same) read.blueprint into
          exact fun t => (before t).trans (kept t).symm

/-- Known members spell a blueprint: none is there twice, the kind is among them, each tells what the
blueprint has in its field, and a field without a member has nothing in it. -/
structure Spells (b : Blueprint) (members : List (Field × Json)) : Prop where
  distinct : (members.map (·.1)).Nodup
  kind : Field.kind ∈ members.map (·.1)
  told : ∀ member ∈ members, b.Tells member.1 member.2
  silent : ∀ field, field ∉ members.map (·.1) → Agree b (ofKind "") field

theorem ofJson_object_eq_ok_iff {members : Members Json} :
    ofJson (.object members) = .ok b ↔ b.Spells (knownMembers members) := by
  rw [ofJson, readMembers_eq_readKnown, Outcome.bind_eq_ok_iff]
  constructor
  · rintro ⟨read, run, complete⟩
    obtain ⟨distinct, _, order, told, silent⟩ := readKnown_eq_ok_iff.1 run
    rw [Draft.complete] at complete
    split at complete
    case isFalse => cases complete
    case isTrue kind =>
      cases complete
      refine ⟨distinct, ?_, told, silent⟩
      rw [order, List.append_nil, List.mem_reverse] at kind
      exact kind
  · rintro ⟨distinct, kind, told, silent⟩
    refine ⟨⟨((knownMembers members).map (·.1)).reverse, b⟩, readKnown_eq_ok_iff.2
      ⟨distinct, fun _ _ => List.not_mem_nil, (List.append_nil _).symm, told, silent⟩, ?_⟩
    rw [Draft.complete, if_pos (List.mem_reverse.2 kind)]

namespace Spells

variable {members others front back : List (Field × Json)} {old new : Json}

theorem perm (spelt : b.Spells members) (same : members.Perm others) : b.Spells others := by
  have fields := same.map (·.1)
  exact ⟨fields.nodup spelt.distinct, fields.subset spelt.kind,
    fun member inside => spelt.told member (same.symm.subset inside),
    fun field absent => spelt.silent field fun inside => absent (fields.subset inside)⟩

theorem change (spelt : b.Spells (front ++ (field, old) :: back))
    (tells : b.Tells field old → b.Tells field new) : b.Spells (front ++ (field, new) :: back) := by
  obtain ⟨distinct, kind, told, silent⟩ := spelt
  have fields : (front ++ (field, old) :: back).map (·.1) =
      (front ++ (field, new) :: back).map (·.1) := by
    simp
  rw [fields] at distinct kind silent
  refine ⟨distinct, kind, fun member inside => ?_, silent⟩
  rcases List.mem_append.1 inside with before | later
  · exact told member (List.mem_append_left _ before)
  · rcases List.mem_cons.1 later with rfl | after
    · exact tells (told (field, old) (by simp))
    · exact told member (by simp [after])

end Spells

end Reading

end DataBinding.Blueprint
