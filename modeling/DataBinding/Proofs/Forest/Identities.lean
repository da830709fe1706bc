import DataBinding.Proofs.Forest.Reachable
import DataBinding.Proofs.Path.Addresses
import DataBinding.Proofs.Text.Parts

/-!
# Positions as addresses

A definition without a key is identified by the way down to it. That way can be followed: a number
leads to the child in that position, the name of a role to whoever plays it. So nobody else under the
same top has the same identity.
-/

namespace DataBinding

/-! ### Segments -/

namespace Text

def Plain (segment : String) : Prop :=
  segment ≠ "" ∧ '/' ∉ segment.toList

def slashed? (text : String) : Option (List String) :=
  match text.toList with
  | '/' :: rest => some (if rest = [] then [] else split '/' (String.ofList rest))
  | _ => none

theorem slashed?_join {segments : List String} (plain : ∀ segment ∈ segments, Plain segment) :
    slashed? ("/" ++ String.intercalate "/" segments) = some segments := by
  have shape : ("/" ++ String.intercalate "/" segments).toList =
      '/' :: (String.intercalate "/" segments).toList := by
    rw [String.toList_append]
    rfl
  simp only [slashed?, shape, String.ofList_toList, Option.some.injEq]
  cases segments with
  | nil => rfl
  | cons segment rest =>
    have whole : split '/' (String.intercalate "/" (segment :: rest)) = segment :: rest :=
      split_intercalate rfl (List.cons_ne_nil segment rest) fun part inside => (plain part inside).2
    rw [whole, if_neg]
    intro blank
    -- blank text has no part but blank text
    rw [String.toList_eq_nil_iff.1 blank] at whole
    cases whole
    exact (plain "" List.mem_cons_self).1 rfl

theorem plain_repr (n : Nat) : Plain (Nat.repr n) := by
  refine ⟨fun blank => ?_, fun slash => ?_⟩
  · have hnil := congrArg String.toList blank
    rw [toList_repr] at hnil
    exact Nat.toDigits_ne_nil hnil
  · exact absurd (isDigit_of_mem_repr slash) (by decide)

end Text

namespace Role

theorem ofName?_name (role : Role) : ofName? role.name = some role := by
  cases role <;> decide +kernel

theorem plain_name (role : Role) : Text.Plain role.name := by
  cases role <;> simp [Text.Plain, name]

end Role

/-! ### One step -/

namespace Definition

variable {F : Type} {h : Handle}

/-- Who is found in a definition under a segment: the child in a position that is written in digits, or
whoever plays the role of that name. -/
def under? (d : Definition F) (segment : String) : Option Handle :=
  if !segment.toList.isEmpty && segment.toList.all Char.isDigit then
    d.children[Text.decimalValue segment.toList]?
  else (Role.ofName? segment).bind d.content.holder?

theorem under?_repr (d : Definition F) (n : Nat) : d.under? (Nat.repr n) = d.children[n]? := by
  have digits : (Nat.repr n).toList.all Char.isDigit = true :=
    List.all_eq_true.2 fun c inside => Text.isDigit_of_mem_repr inside
  have hne : (Nat.repr n).toList.isEmpty = false := by
    rw [List.isEmpty_eq_false_iff, Ne, String.toList_eq_nil_iff]
    exact (Text.plain_repr n).1
  rw [under?, digits, hne, Text.decimalValue_repr]
  rfl

theorem under?_name (d : Definition F) (role : Role) :
    d.under? role.name = d.content.holder? role := by
  have letters : role.name.toList.all Char.isDigit = false := by
    cases role <;> decide +kernel
  rw [under?, letters, Bool.and_false, if_neg Bool.false_ne_true, Role.ofName?_name, Option.bind_some]

theorem under?_segment {d : Definition F} (owned : h ∈ d.belongings) :
    Text.Plain (d.segment h) ∧ d.under? (d.segment h) = some h := by
  cases listed : d.children.idxOf? h with
  | some position =>
    have segment : d.segment h = Nat.repr position := by rw [Definition.segment, listed]
    obtain ⟨inside, same, _⟩ := List.idxOf?_eq_some_iff.1 listed
    rw [segment, under?_repr, List.getElem?_eq_getElem inside]
    exact ⟨Text.plain_repr position, congrArg some (by simpa using same)⟩
  | none =>
    rw [List.idxOf?_eq_none_iff] at listed
    rw [belongings_eq] at owned
    obtain ⟨⟨role, h'⟩, held, rfl⟩ := List.mem_map.1 ((List.mem_append.1 owned).resolve_left listed)
    cases search : d.content.holders.find? fun holder => holder.2 = h' with
    | none => simpa using List.find?_eq_none.1 search _ held
    | some holder =>
      have segment : d.segment h' = holder.1.name := by
        rw [Definition.segment, List.idxOf?_eq_none_iff.2 listed, search]
      have plays : holder.2 = h' := by simpa using List.find?_some search
      rw [segment, under?_name]
      exact ⟨Role.plain_name _, Content.mem_holders.1 (plays ▸ List.mem_of_find?_eq_some search)⟩

def Unkeyed (d : Definition F) : Prop :=
  ∀ key, d.key = some key → key = ""

end Definition

namespace Forest

variable {f : Forest} {h top : Handle} {d : Entry} {hs : List Handle}

/-! ### The way down -/

def follow? (f : Forest) (top : Handle) (segments : List String) : Option Handle :=
  segments.foldlM (fun h segment => (f.get? h).bind (·.under? segment)) top

/-- The segments on the way up lead back down. -/
theorem WellFormed.follow?_segmentsUp (wf : f.WellFormed) (climb : f.Climb h hs)
    (last : hs.getLast? = some top) : ∃ segments, f.segmentsUp hs = .ok segments ∧
      (∀ segment ∈ segments, Text.Plain segment) ∧ f.follow? top segments.reverse = some h := by
  induction climb with
  | top found free =>
    cases last
    exact ⟨[], rfl, by simp, rfl⟩
  | @up h owner d above found owned rest ih =>
    obtain ⟨onward, rfl⟩ := rest.eq_cons
    obtain ⟨segments, run, plain, follows⟩ := ih (by rwa [List.getLast?_cons_cons] at last)
    obtain ⟨o, there⟩ := rest.found
    obtain ⟨plainFirst, leads⟩ := Definition.under?_segment (wf.mem_belongings found owned there)
    refine ⟨o.segment h :: segments, ?_, List.forall_mem_cons.2 ⟨plainFirst, plain⟩, ?_⟩
    · rw [segmentsUp, find_eq_ok_iff.2 there, run]
      rfl
    · rw [follow?] at follows
      rw [List.reverse_cons, follow?, List.foldlM_append, follows]
      simp [there, leads]

theorem identity_eq (found : f.get? h = some d) (unkeyed : d.Unkeyed) {segments : List String}
    (above : f.lineage h = .ok hs) (run : f.segmentsUp hs = .ok segments) :
    f.identity h = .ok ("/" ++ String.intercalate "/" segments.reverse) := by
  have hkey : d.key.filter (· ≠ "") = none := by
    rw [Option.filter_eq_none_iff]
    intro key there
    simp [unkeyed key there]
  simp only [identity, find_eq_ok_iff.2 found, hkey, above, run, Outcome.ok_bind]
  rfl

theorem WellFormed.exists_address (wf : f.WellFormed) (found : f.get? h = some d)
    (unkeyed : d.Unkeyed) : ∃ hs top identity segments, f.lineage h = .ok hs ∧
      hs.getLast? = some top ∧ f.identity h = .ok identity ∧ Text.slashed? identity = some segments ∧
      f.follow? top segments = some h := by
  obtain ⟨hs, climb⟩ := wf.climbs found
  obtain ⟨top, _, last, _⟩ := climb.exists_top
  obtain ⟨segments, run, plain, follows⟩ := wf.follow?_segmentsUp climb last
  refine ⟨hs, top, _, segments.reverse, climb.lineage_eq, last,
    identity_eq found unkeyed climb.lineage_eq run, ?_, follows⟩
  exact Text.slashed?_join fun segment inside => plain segment (List.mem_reverse.1 inside)

/-! ### Looking up an identity -/

/-- The first definition with an identity, in the order in which definitions were added. -/
structure FirstNamed (f : Forest) (identity : String) (h : Handle) : Prop where
  found : ∃ d, f.get? h = some d
  named : f.identity h = .ok identity
  earlier : ∀ x d, f.get? x = some d → x.index < h.index → f.identity x ≠ .ok identity

theorem FirstNamed.unique {identity : String} {x : Handle} (first : f.FirstNamed identity h)
    (other : f.FirstNamed identity x) : h = x := by
  obtain ⟨d, found⟩ := first.found
  obtain ⟨e, there⟩ := other.found
  obtain ⟨index⟩ := h
  obtain ⟨index'⟩ := x
  rcases Nat.lt_trichotomy index index' with before | same | behind
  · exact absurd first.named (other.earlier _ d found before)
  · exact congrArg Handle.mk same
  · exact absurd other.named (first.earlier _ e there behind)

/-- The identity of a definition without a key leads from the top to it, so nobody else without a key
has it under that top. -/
theorem Reachable.identity_leads_back (reached : Reachable f) (found : f.get? h = some d)
    (unkeyed : d.Unkeyed) : ∃ hs top identity segments, f.lineage h = .ok hs ∧
      hs.getLast? = some top ∧ f.identity h = .ok identity ∧ Text.slashed? identity = some segments ∧
      f.follow? top segments = some h ∧
      ∀ x e others, f.get? x = some e → e.Unkeyed → f.lineage x = .ok others →
        others.getLast? = some top → x ≠ h → f.identity x ≠ .ok identity := by
  have wf := reached.consistent.links
  obtain ⟨hs, top, identity, segments, above, last, named, parts, follows⟩ :=
    wf.exists_address found unkeyed
  refine ⟨hs, top, identity, segments, above, last, named, parts, follows, ?_⟩
  intro x e others there unkeyed' above' last' differs same
  obtain ⟨hs', top', identity', segments', again, last'', named', parts', follows'⟩ :=
    wf.exists_address there unkeyed'
  -- the same segments from the same top lead to the same definition
  cases above'.symm.trans again
  cases last'.symm.trans last''
  cases same.symm.trans named'
  cases parts.symm.trans parts'
  exact differs (Option.some.inj (follows'.symm.trans follows))

private def positionedForm : Forest :=
  empty.afterAll
    [.insert (.form "" none none) "" (Content.holders_form ""),
      .insert (.panel "") "" (Content.holders_panel ""),
      .insert (.input "" false) "" (Content.holders_input "" false),
      .insert (.panel "") "" (Content.holders_panel ""),
      .insert (.input "" false) "" (Content.holders_input "" false),
      .attach ⟨0⟩ .header ⟨1⟩, .setParent ⟨2⟩ ⟨1⟩, .setParent ⟨3⟩ ⟨0⟩, .setParent ⟨4⟩ ⟨3⟩]

/-- The input in the header is found there, and the other input is not called the same. -/
theorem Reachable.identity_leads_back_of_form : ∃ f d, Reachable f ∧ f.get? ⟨2⟩ = some d ∧ d.Unkeyed ∧
    f.lineage ⟨2⟩ = .ok [⟨2⟩, ⟨1⟩, ⟨0⟩] ∧ f.identity ⟨2⟩ = .ok "/header/0" ∧
    Text.slashed? "/header/0" = some ["header", "0"] ∧ f.follow? ⟨0⟩ ["header", "0"] = some ⟨2⟩ ∧
    f.lineage ⟨4⟩ = .ok [⟨4⟩, ⟨3⟩, ⟨0⟩] ∧ f.identity ⟨4⟩ ≠ .ok "/header/0" := by
  have reached : Reachable positionedForm := .afterAll .empty _ (by simp [Call.others])
  obtain ⟨d, found, unkeyed⟩ : ∃ d, positionedForm.get? ⟨2⟩ = some d ∧ d.key = none := ⟨_, rfl, rfl⟩
  obtain ⟨e, there, unkeyed'⟩ : ∃ d, positionedForm.get? ⟨4⟩ = some d ∧ d.key = none := ⟨_, rfl, rfl⟩
  have above : positionedForm.lineage ⟨2⟩ = .ok [⟨2⟩, ⟨1⟩, ⟨0⟩] := by decide +kernel
  have above' : positionedForm.lineage ⟨4⟩ = .ok [⟨4⟩, ⟨3⟩, ⟨0⟩] := by decide +kernel
  have named : positionedForm.identity ⟨2⟩ = .ok "/header/0" := by decide +kernel
  have parts : Text.slashed? "/header/0" = some ["header", "0"] := by decide +kernel
  obtain ⟨hs, top, identity, segments, lineage, last, called, read, follows, apart⟩ :=
    Reachable.identity_leads_back reached found (by simp [Definition.Unkeyed, unkeyed])
  cases above.symm.trans lineage
  cases last
  cases named.symm.trans called
  cases parts.symm.trans read
  exact ⟨_, d, reached, found, by simp [Definition.Unkeyed, unkeyed], above, named, parts, follows, above',
    apart _ _ _ there (by simp [Definition.Unkeyed, unkeyed']) above' rfl (by decide)⟩

end Forest

end DataBinding
