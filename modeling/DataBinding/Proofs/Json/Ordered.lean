import DataBinding.Json.Reader
import DataBinding.Json.Write
import DataBinding.Proofs.Outcome

/-!
# Ordered JSON values

Members of an object stand in the order of their names, each name once. What is read from text is
ordered all through, and setting or removing a member or an item keeps it so. In ordered members
there is one place for each name: a member that was removed and is set again comes back to where it
was.
-/

namespace DataBinding

namespace Members

variable {α : Type} {name : String} {value : α} {members others : Members α}

/-- Names ascend, so none of them comes twice. -/
def Sorted (members : Members α) : Prop :=
  members.Pairwise fun a b => a.1 < b.1

theorem mem_insert {member : String × α} (inside : member ∈ insert name value members) :
    member = (name, value) ∨ member ∈ members := by
  induction members with
  | nil => exact .inl (List.mem_singleton.1 inside)
  | cons first rest ih =>
    rw [insert] at inside
    split at inside
    · exact (List.mem_cons.1 inside).imp_right (List.mem_cons_of_mem _)
    split at inside
    · exact List.mem_cons.1 inside
    rcases List.mem_cons.1 inside with same | later
    · exact .inr (List.mem_cons.2 (.inl same))
    · exact (ih later).imp_right (List.mem_cons_of_mem _)

theorem mem_of_get? (found : members.get? name = some value) : (name, value) ∈ members := by
  induction members with
  | nil => cases found
  | cons first rest ih =>
    rw [get?] at found
    split at found
    case isTrue same =>
      cases found
      rw [← same]
      exact List.mem_cons_self
    case isFalse => exact List.mem_cons_of_mem _ (ih found)

theorem get?_filter {keep : String → Bool} (kept : keep name = true) (members : Members α) :
    get? name (members.filter fun member => keep member.1) = members.get? name := by
  induction members with
  | nil => rfl
  | cons member rest ih =>
    by_cases same : member.1 = name
    · simp [get?, same, kept]
    · by_cases stays : keep member.1 = true <;> simp [get?, same, stays, ih]

theorem mem_replace {member : String × α} (inside : member ∈ replace name value members) :
    member = (name, value) ∨ member ∈ members := by
  induction members with
  | nil => cases inside
  | cons first rest ih =>
    rw [replace] at inside
    split at inside
    · exact (List.mem_cons.1 inside).imp_right (List.mem_cons_of_mem _)
    rcases List.mem_cons.1 inside with same | later
    · exact .inr (List.mem_cons.2 (.inl same))
    · exact (ih later).imp_right (List.mem_cons_of_mem _)

theorem keys_replace (name : String) (value : α) (members : Members α) :
    (replace name value members).keys = members.keys := by
  induction members with
  | nil => rfl
  | cons first rest ih =>
    rw [replace]
    split
    case isTrue same => rw [keys, keys, List.map_cons, List.map_cons, same]
    case isFalse => exact congrArg (first.1 :: ·) ih

theorem sorted_iff_keys : members.Sorted ↔ members.keys.Pairwise (· < ·) :=
  List.pairwise_map.symm

namespace Sorted

theorem insert (sorted : members.Sorted) (name : String) (value : α) :
    (Members.insert name value members).Sorted := by
  induction members with
  | nil => exact List.pairwise_singleton _ _
  | cons first rest ih =>
    obtain ⟨least, later⟩ := List.pairwise_cons.1 sorted
    rw [Members.insert]
    split
    case isTrue same =>
      exact List.pairwise_cons.2 ⟨fun member inside => same ▸ least member inside, later⟩
    case isFalse differs =>
      split
      case isTrue before =>
        refine List.pairwise_cons.2 ⟨fun member inside => ?_, sorted⟩
        rcases List.mem_cons.1 inside with rfl | inside
        · exact before
        · exact String.lt_trans before (least member inside)
      case isFalse behind =>
        have after : first.1 < name := by
          rcases String.le_total name first.1 with le | le
          · exact absurd (String.le_antisymm (String.not_lt.1 behind) le) differs
          · exact String.not_le.1 fun ge => differs (String.le_antisymm le ge)
        refine List.pairwise_cons.2 ⟨fun member inside => ?_, ih later⟩
        rcases mem_insert inside with rfl | inside
        · exact after
        · exact least member inside

theorem erase (sorted : members.Sorted) (name : String) : (Members.erase name members).Sorted :=
  sorted.filter _

theorem replace (sorted : members.Sorted) (name : String) (value : α) :
    (Members.replace name value members).Sorted := by
  rw [sorted_iff_keys, keys_replace, ← sorted_iff_keys]
  exact sorted

theorem get?_eq_some_iff (sorted : members.Sorted) :
    members.get? name = some value ↔ (name, value) ∈ members := by
  refine ⟨mem_of_get?, fun inside => ?_⟩
  induction members with
  | nil => cases inside
  | cons first rest ih =>
    obtain ⟨least, later⟩ := List.pairwise_cons.1 sorted
    rcases List.mem_cons.1 inside with rfl | behind
    · simp [get?]
    · have less : first.1 < name := least (name, value) behind
      have differs : first.1 ≠ name := fun same => String.lt_irrefl name (same ▸ less)
      rw [get?, if_neg differs, ih later behind]

/-- Sorted members are known by what each name is set to. -/
theorem ext (sorted : members.Sorted) (sorted' : others.Sorted)
    (same : ∀ name, members.get? name = others.get? name) : members = others := by
  have distinct : ∀ {members : Members α}, members.Sorted → members.Nodup := fun sorted =>
    List.Pairwise.imp (fun {a b} less (equal : a = b) => String.lt_irrefl b.1 (equal ▸ less)) sorted
  have perm : members.Perm others := by
    rw [List.perm_ext_iff_of_nodup (distinct sorted) (distinct sorted')]
    rintro ⟨name, value⟩
    rw [← sorted.get?_eq_some_iff, ← sorted'.get?_eq_some_iff, same]
  exact perm.eq_of_pairwise
    (fun a b _ _ less more => absurd (String.lt_trans less more) (String.lt_irrefl a.1)) sorted sorted'

theorem filter_eq_filter_iff (sorted : members.Sorted) (sorted' : others.Sorted)
    (keep : String → Bool) :
    members.filter (fun member => keep member.1) = others.filter (fun member => keep member.1) ↔
      ∀ name, keep name = true → members.get? name = others.get? name := by
  constructor
  · intro same name kept
    rw [← get?_filter kept members, same, get?_filter kept others]
  · intro same
    refine ext (sorted.filter _) (sorted'.filter _) fun name => Option.ext fun value => ?_
    rw [get?_eq_some_iff (sorted.filter _), get?_eq_some_iff (sorted'.filter _), List.mem_filter,
      List.mem_filter, ← sorted.get?_eq_some_iff, ← sorted'.get?_eq_some_iff]
    exact and_congr_left fun stays => by rw [same name stays]

end Sorted

theorem sorted_ofList (members : List (String × α)) : (ofList members).Sorted :=
  List.foldlRecOn members _ .nil fun _ sorted _ _ => sorted.insert _ _

theorem mem_ofList {listed : List (String × α)} {member : String × α}
    (inside : member ∈ ofList listed) : member ∈ listed := by
  have each : ∀ member ∈ ofList listed, member ∈ listed := by
    refine List.foldlRecOn (motive := fun all => ∀ member ∈ all, member ∈ listed) listed _
      (by simp) ?_
    intro all known next there member inside
    rcases mem_insert inside with rfl | earlier
    · exact there
    · exact known member earlier
  exact each member inside

theorem erase_insert (name : String) (value : α) (members : Members α) :
    erase name (insert name value members) = erase name members := by
  induction members with
  | nil => simp [insert, erase]
  | cons first rest ih =>
    rw [insert]
    split
    case isTrue same => simp [erase, same]
    case isFalse differs =>
      split
      case isTrue => simp [erase]
      case isFalse => simpa [erase, differs] using ih

theorem erase_of_lt (less : ∀ member ∈ members, name < member.1) : erase name members = members :=
  List.filter_eq_self.2 fun member inside =>
    decide_eq_true fun same => String.lt_irrefl name (same ▸ less member inside)

theorem insert_erase (sorted : members.Sorted) (name : String) (value : α) :
    insert name value (erase name members) = insert name value members := by
  induction members with
  | nil => rfl
  | cons first rest ih =>
    obtain ⟨least, later⟩ := List.pairwise_cons.1 sorted
    obtain ⟨key, old⟩ := first
    by_cases same : key = name
    · subst same
      have gone : erase key ((key, old) :: rest) = rest := by
        rw [erase, List.filter_cons_of_neg (by simp)]
        exact erase_of_lt least
      rw [gone, insert, if_pos rfl]
      -- what follows comes behind the name, so the member is set in front of it
      cases rest with
      | nil => rfl
      | cons second more =>
        have behind : key < second.1 := least second List.mem_cons_self
        have differs : second.1 ≠ key := fun same => String.lt_irrefl key (same ▸ behind)
        rw [insert, if_neg differs, if_pos behind]
    · have kept : erase name ((key, old) :: rest) = (key, old) :: erase name rest := by
        rw [erase, List.filter_cons_of_pos (by simpa using same)]
        rfl
      rw [kept, insert, insert, if_neg same, if_neg same]
      split
      case isTrue before =>
        rw [erase_of_lt fun member inside => String.lt_trans before (least member inside)]
      case isFalse => rw [ih later]

theorem replace_replace (name : String) (first second : α) (members : Members α) :
    replace name second (replace name first members) = replace name second members := by
  induction members with
  | nil => rfl
  | cons member rest ih =>
    by_cases same : member.1 = name
    · simp [replace, same]
    · simp [replace, same, ih]

theorem replace_insert (name : String) (first second : α) (members : Members α) :
    replace name second (insert name first members) = insert name second members := by
  induction members with
  | nil => simp [insert, replace]
  | cons member rest ih =>
    by_cases same : member.1 = name
    · simp [insert, replace, same]
    · by_cases before : name < member.1
      · simp [insert, replace, same, before]
      · simp [insert, replace, same, before, ih]

end Members

namespace Json

inductive Ordered : Json → Prop
  | null : Ordered .null
  | bool (b : Bool) : Ordered (.bool b)
  | number (n : JsonNumber) : Ordered (.number n)
  | string (s : String) : Ordered (.string s)
  | array {items : List Json} (each : ∀ item ∈ items, Ordered item) : Ordered (.array items)
  | object {members : Members Json} (sorted : members.Sorted)
    (each : ∀ member ∈ members, Ordered member.2) : Ordered (.object members)

theorem ordered_object_nil : Ordered (.object []) :=
  .object .nil (by simp)

private theorem ordered_of_number {depth : Nat} {literal : NumberLiteral} {json : Json}
    (read : RawJson.toJson depth (.number literal) = .ok json) : json.Ordered := by
  rw [RawJson.toJson] at read
  split at read
  case h_1 n _ =>
    cases read
    exact .number n
  case h_2 => cases read

private theorem ordered_of_string {depth : Nat} {pieces : List StringPiece} {json : Json}
    (read : RawJson.toJson depth (.string pieces) = .ok json) : json.Ordered := by
  rw [RawJson.toJson] at read
  obtain ⟨s, _, rfl⟩ := Outcome.map_eq_ok_iff.1 read
  exact .string s

theorem ordered_of_toJson {depth : Nat} {raw : RawJson} {json : Json}
    (read : raw.toJson depth = .ok json) : json.Ordered := by
  induction depth generalizing raw json with
  | zero =>
    cases raw with
    | number literal => exact ordered_of_number read
    | string pieces => exact ordered_of_string read
    | _ => cases read <;> constructor
  | succ depth ih =>
    cases raw with
    | number literal => exact ordered_of_number read
    | string pieces => exact ordered_of_string read
    | array raws =>
      obtain ⟨items, run, rfl⟩ := Outcome.map_eq_ok_iff.1 read
      refine .array fun item inside => ?_
      obtain ⟨raw, _, reads⟩ := Outcome.exists_of_mem_mapM run inside
      exact ih reads
    | object raws =>
      obtain ⟨members, run, last⟩ := Outcome.bind_eq_ok_iff.1 read
      cases last
      refine .object (Members.sorted_ofList members) fun member inside => ?_
      obtain ⟨⟨pieces, raw⟩, _, whole⟩ :=
        Outcome.exists_of_mem_mapM run (Members.mem_ofList inside)
      obtain ⟨name, _, behind⟩ := Outcome.bind_eq_ok_iff.1 whole
      obtain ⟨value, reads, last⟩ := Outcome.bind_eq_ok_iff.1 behind
      obtain rfl := Except.ok.inj last
      exact ih reads
    | _ =>
      cases read
      constructor

theorem ordered_of_read {text : String} {depth : Nat} {json : Json}
    (run : read text depth = .ok json) : json.Ordered := by
  obtain ⟨raw, _, meaning⟩ := Outcome.bind_eq_ok_iff.1 run
  exact ordered_of_toJson meaning

namespace Ordered

variable {json inner : Json} {path segment : String} {value : Option Json}

theorem of_child? (ordered : json.Ordered) (found : child? segment json = some inner) :
    inner.Ordered := by
  cases ordered with
  | array each =>
    obtain ⟨index, _, there⟩ := Option.bind_eq_some_iff.1 found
    exact each inner (List.mem_of_getElem? there)
  | object sorted each => exact each _ (Members.mem_of_get? found)
  | _ => cases found

theorem set {items : List Json} (ordered : ∀ item ∈ items, item.Ordered) (index : Nat)
    (new : inner.Ordered) : Ordered (.array (items.set index inner)) := by
  refine .array fun item inside => ?_
  rcases List.mem_or_eq_of_mem_set inside with old | rfl
  · exact ordered item old
  · exact new

theorem setChild (ordered : json.Ordered)
    (new : ∀ written, value = some written → written.Ordered) :
    (json.setChild path segment value).json.Ordered := by
  cases ordered with
  | object sorted each =>
    cases value with
    | none =>
      exact .object (sorted.erase _) fun member inside =>
        each member (List.mem_of_mem_filter inside)
    | some written =>
      refine .object (sorted.insert _ _) fun member inside => ?_
      rcases Members.mem_insert inside with rfl | old
      · exact new written rfl
      · exact each member old
  | array each =>
    rw [Json.setChild]
    split
    case h_1 index _ =>
      refine set each index ?_
      cases value with
      | none => exact .null
      | some written => exact new written rfl
    case h_2 => exact .array each
  | _ => constructor

theorem writeAt (ordered : json.Ordered) (segments : List String)
    (new : ∀ written, value = some written → written.Ordered) :
    (Json.writeAt path value segments json).json.Ordered := by
  induction segments generalizing json with
  | nil => exact ordered
  | cons segment rest ih =>
    cases rest with
    | nil => exact ordered.setChild new
    | cons next more =>
      cases ordered with
      | @object members sorted each =>
        rw [Json.writeAt]
        cases there : Members.get? segment members with
        | none =>
          refine .object (sorted.insert _ _) fun member inside => ?_
          rcases Members.mem_insert inside with rfl | old
          · exact ih ordered_object_nil
          · exact each member old
        | some inner =>
          refine .object (sorted.replace _ _) fun member inside => ?_
          rcases Members.mem_replace inside with rfl | old
          · exact ih (each _ (Members.mem_of_get? there))
          · exact each member old
      | @array items each =>
        rw [Json.writeAt]
        split
        case h_1 inner index found _ =>
          exact set each index (ih ((Ordered.array each).of_child? found))
        case h_2 => exact .array each
      | _ => constructor

/-- Whatever ordered value is written, at whatever path, and whether or not it fails. -/
theorem assign (ordered : json.Ordered) (path : String) (v : Value)
    (new : ∀ written, v.toJson? = some written → written.Ordered) :
    (json.assign path v).json.Ordered :=
  ordered.writeAt (segments path) new

end Ordered

end Json

end DataBinding
