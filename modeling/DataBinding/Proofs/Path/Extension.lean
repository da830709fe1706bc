import DataBinding.Binding.Pruning
import DataBinding.Proofs.Path.Scope

/-!
# Extended paths

A path extends another one when it is that path or goes on behind a dot. Whatever an extended path
reads lies in the same element as what the shorter one reads, and in the same member of it; where the
shorter one cannot be read, neither can the other.
-/

namespace DataBinding.Path

/-- The same path, or one that goes on behind a dot. -/
def Extends (path longer : String) : Prop :=
  longer = path ∨ ∃ rest, longer = path ++ "." ++ rest

theorem Extends.refl (path : String) : Extends path path :=
  .inl rfl

theorem Extends.trans {a b c : String} (first : Extends a b) (second : Extends b c) :
    Extends a c := by
  rcases first with rfl | ⟨rest, rfl⟩
  · exact second
  · rcases second with rfl | ⟨more, rfl⟩
    · exact .inr ⟨rest, rfl⟩
    · exact .inr ⟨rest ++ "." ++ more, by simp only [String.append_assoc]⟩

theorem Extends.join {path : String} (nonempty : path ≠ "") (part : String) :
    Extends path (join path part) := by
  unfold Path.join
  rw [if_neg nonempty]
  split
  · exact .refl path
  · exact .inr ⟨part, rfl⟩

theorem anchor_of_relative {path part : String} (settled : Settled path)
    (relative : isAnchored part = false) : anchor (some path) part = join path part := by
  have inside : below (some path) part = join path part := by simp [below, relative]
  rw [anchor, inside, if_pos]
  rw [join, if_neg settled.ne_empty]
  split
  · exact settled.anchored
  · rw [String.append_assoc]
    exact isAnchored_append settled.anchored _

end DataBinding.Path

namespace DataBinding

open DataBinding.Path

theorem Text.index?_of_dot {cs : List Char} (dot : '.' ∈ cs) : Text.index? cs = none := by
  have unsigned : ∀ digits : List Char, '.' ∈ digits → digits.all Char.isDigit = false := by
    intro digits inside
    rw [List.all_eq_false]
    exact ⟨'.', inside, by decide⟩
  unfold Text.index?
  split
  case h_1 rest =>
    have later : '.' ∈ rest := by
      rcases List.mem_cons.1 dot with same | later
      · exact absurd same (by decide)
      · exact later
    show (if _ then none else _) = none
    rw [unsigned rest later, Bool.not_false, Bool.or_true, if_pos rfl]
  case h_2 =>
    show (if _ then none else _) = none
    rw [unsigned cs dot, Bool.not_false, Bool.or_true, if_pos rfl]

theorem firstSegment_append (front back : List Char) :
    firstSegment (String.ofList (front ++ '.' :: back)) = firstSegment (String.ofList front) := by
  rw [firstSegment, firstSegment, Text.split, Text.split, String.toList_ofList, String.toList_ofList,
    Text.splitList_append_cons, Text.splitList]
  rfl

theorem parseAnchor_eq_element_iff {path : String} {body : List Char} {index : UInt64}
    {inside : String} :
    Address.parseAnchor path body = .ok (.element index inside) ↔
      ∃ digits tail, Text.cutFirst? '%' body = some (digits, tail) ∧
        Text.index? digits = some index ∧ inside = String.ofList (Address.dropDot tail) := by
  rw [Address.parseAnchor]
  cases found : Text.cutFirst? '%' body with
  | none => simp
  | some cut =>
    obtain ⟨digits, tail⟩ := cut
    cases number : Text.index? digits with
    | none => simp [number]
    | some n =>
      simp only [number, Except.ok.injEq, Address.element.injEq, Option.some.injEq, Prod.mk.injEq]
      constructor
      · rintro ⟨rfl, rfl⟩
        exact ⟨digits, tail, ⟨rfl, rfl⟩, number, rfl⟩
      · rintro ⟨_, _, ⟨rfl, rfl⟩, again, rfl⟩
        rw [number] at again
        cases again
        exact ⟨rfl, rfl⟩

/-- The tokens make no difference: neither has an index between its percent signs. -/
theorem parse_eq_element_iff {path : String} {body : List Char} (shape : path.toList = '%' :: body)
    {index : UInt64} {inside : String} :
    Address.parse path = .ok (.element index inside) ↔
      Address.parseAnchor path body = .ok (.element index inside) := by
  by_cases null : path = Address.nullToken
  · have body' : body = "null%".toList := by
      rw [null] at shape
      exact (List.cons.inj shape).2.symm
    rw [null, body']
    constructor <;> intro reads <;> cases reads
  by_cases skip : path = Address.skipToken
  · have body' : body = ['%'] := by
      rw [skip] at shape
      exact (List.cons.inj shape).2.symm
    rw [skip, body']
    constructor <;> intro reads <;> cases reads
  have nonempty : path ≠ "" := by
    rintro rfl
    cases shape
  rw [Address.parse, if_neg nonempty, if_neg null, if_neg skip, shape]
  exact Iff.rfl

theorem exists_cut_of_dot {body rest digits tail : List Char} {index : UInt64}
    (cut : Text.cutFirst? '%' (body ++ '.' :: rest) = some (digits, tail))
    (number : Text.index? digits = some index) :
    ∃ more, Text.cutFirst? '%' body = some (digits, more) ∧ tail = more ++ '.' :: rest := by
  obtain ⟨split, absent⟩ := Text.cutFirst?_eq_some_iff.1 cut
  rcases List.append_eq_append_iff.1 split with ⟨more, rfl, back⟩ | ⟨more, rfl, back⟩
  · cases more with
    | nil =>
      rw [List.nil_append] at back
      exact absurd (List.cons.inj back).1 (by decide)
    | cons c more =>
      rw [List.cons_append] at back
      have dot : '.' ∈ body ++ c :: more := by
        rw [(List.cons.inj back).1]
        exact List.mem_append_right _ List.mem_cons_self
      rw [Text.index?_of_dot dot] at number
      cases number
  · cases more with
    | nil =>
      rw [List.nil_append] at back
      exact absurd (List.cons.inj back).1 (by decide)
    | cons c more =>
      rw [List.cons_append] at back
      obtain ⟨rfl, rfl⟩ := List.cons.inj back
      exact ⟨more, Text.cutFirst?_eq_some_iff.2 ⟨rfl, absent⟩, rfl⟩

theorem firstSegment_dropDot (more rest : List Char) :
    firstSegment (String.ofList (Address.dropDot more)) = "" ∨
      firstSegment (String.ofList (Address.dropDot more)) =
        firstSegment (String.ofList (Address.dropDot (more ++ '.' :: rest))) := by
  cases more with
  | nil => exact .inl rfl
  | cons c more =>
    by_cases dot : c = '.'
    · subst dot
      exact .inr (firstSegment_append more rest).symm
    · have kept : ∀ back, Address.dropDot (c :: back) = c :: back := by
        intro back
        unfold Address.dropDot
        split
        case h_1 same => exact absurd (List.cons.inj same).1 dot
        case h_2 => rfl
      rw [List.cons_append, kept, kept, ← List.cons_append]
      exact .inr (firstSegment_append (c :: more) rest).symm

/-- An element that an extended path leads into is the one that the shorter path leads to, and the
shorter path names the whole of it or the same member. -/
theorem exists_element_of_extends {path longer : String} (anchored : isAnchored path = true)
    (extension : Extends path longer) {index : UInt64} {inside : String}
    (reads : Address.parse longer = .ok (.element index inside)) :
    ∃ upper, Address.parse path = .ok (.element index upper) ∧
      (firstSegment upper = "" ∨ firstSegment upper = firstSegment inside) := by
  obtain ⟨body, shape⟩ : ∃ body, path.toList = '%' :: body := by
    rw [isAnchored_iff] at anchored
    cases chars : path.toList with
    | nil => simp [chars] at anchored
    | cons c rest =>
      rw [chars] at anchored
      cases anchored
      exact ⟨rest, rfl⟩
  rcases extension with rfl | ⟨rest, rfl⟩
  · exact ⟨inside, reads, .inr rfl⟩
  have longShape : (path ++ "." ++ rest).toList = '%' :: (body ++ '.' :: rest.toList) := by
    rw [String.toList_append, String.toList_append, shape]
    simp
  rw [parse_eq_element_iff longShape, parseAnchor_eq_element_iff] at reads
  obtain ⟨digits, tail, cut, number, rfl⟩ := reads
  obtain ⟨more, shorter, rfl⟩ := exists_cut_of_dot cut number
  refine ⟨_, ?_, firstSegment_dropDot more rest.toList⟩
  rw [parse_eq_element_iff shape, parseAnchor_eq_element_iff]
  exact ⟨digits, more, shorter, number, rfl⟩

end DataBinding
