import DataBinding.Proofs.Forest.Inheritance
import DataBinding.Proofs.Forest.Reachable
import DataBinding.Proofs.Json.Lookup

/-!
# Narrowing

A part without an anchor is scoped by writing it behind the first path of the owner, and that path is
taken apart again when it is read. In between the two texts run together; what is read is nevertheless
what the part leads to inside of what the owner's path leads to.
-/

namespace DataBinding

open DataBinding.Path

namespace Address

/-- An index between percent signs, and behind them the path inside, with one dot at most left out. -/
theorem parse_eq_element_iff_exists {path : String} {index : UInt64} {inside : String} :
    parse path = .ok (.element index inside) ↔ ∃ digits tail,
      path.toList = '%' :: (digits ++ '%' :: tail) ∧ '%' ∉ digits ∧
        Text.index? digits = some index ∧ inside = String.ofList (dropDot tail) := by
  constructor
  · intro parsed
    obtain ⟨body, shape⟩ : ∃ body, path.toList = '%' :: body := by
      unfold parse at parsed
      split at parsed
      · cases parsed
      split at parsed
      · cases parsed
      split at parsed
      · cases parsed
      split at parsed
      case h_1 body shape => exact ⟨body, shape⟩
      case h_2 => cases parsed
    rw [parse_eq_element_iff shape, parseAnchor_eq_element_iff] at parsed
    obtain ⟨digits, tail, cut, number, rfl⟩ := parsed
    obtain ⟨split, absent⟩ := Text.cutFirst?_eq_some_iff.1 cut
    exact ⟨digits, tail, by rw [shape, split], absent, number, rfl⟩
  · rintro ⟨digits, tail, shape, absent, number, rfl⟩
    rw [parse_eq_element_iff shape, parseAnchor_eq_element_iff]
    exact ⟨digits, tail, Text.cutFirst?_eq_some_iff.2 ⟨rfl, absent⟩, number, rfl⟩

theorem segments_dropDot (tail : List Char) :
    Json.segments (String.ofList (dropDot tail)) = Json.segments (String.ofList tail) := by
  unfold dropDot
  split
  case h_1 rest =>
    have dot := Json.segments_ofList_append [] rest
    rw [List.nil_append, String.ofList_nil, Json.segments_empty, List.nil_append] at dot
    exact dot.symm
  case h_2 => rfl

theorem exists_parse_join {path inside : String} {index : UInt64}
    (parsed : parse path = .ok (.element index inside)) (part : String) :
    ∃ further, parse (join path part) = .ok (.element index further) ∧
      Json.segments further = Json.segments inside ++ Json.segments part := by
  obtain ⟨digits, tail, shape, absent, number, rfl⟩ := parse_eq_element_iff_exists.1 parsed
  have nonempty : path ≠ "" := by
    rintro rfl
    cases shape
  rw [join, if_neg nonempty]
  split
  case isTrue hpart => exact ⟨_, parsed, by rw [hpart, Json.segments_empty, List.append_nil]⟩
  case isFalse =>
    refine ⟨_, parse_eq_element_iff_exists.2
      ⟨digits, tail ++ '.' :: part.toList, by simp [shape], absent, number, rfl⟩, ?_⟩
    rw [segments_dropDot, segments_dropDot, Json.segments_ofList_append, String.ofList_toList]

end Address

namespace Data

variable {data : Data} {path inside : String} {index : UInt64}

theorem toValue_readingOf (inside : String) (json : Json) :
    (readingOf inside json).toValue = json.valueAt inside := by
  unfold readingOf
  split
  case isTrue empty =>
    rw [empty, Json.valueAt_empty]
    rfl
  case isFalse => rfl

theorem exists_resolve_of_element (parsed : Address.parse path = .ok (.element index inside))
    {json : Json} (there : data[index.toNat]? = some (some json)) :
    ∃ reading, data.resolve path = ⟨reading, none⟩ ∧ reading.toValue = json.valueAt inside := by
  refine ⟨readingOf inside json, ?_, toValue_readingOf inside json⟩
  simp only [resolve, readPath, parsed, readAddress, elementAt, there]
  rfl

theorem exists_resolve_of_missing (parsed : Address.parse path = .ok (.element index inside))
    (missing : (data[index.toNat]?).join = none) : ∃ problem, data.elementAt index = .error problem ∧
      data.resolve path = ⟨.null, some (.unresolvedPath path data.length problem)⟩ := by
  have problem : ∃ problem, data.elementAt index = .error problem := by
    unfold elementAt
    split
    case h_1 json there => simp [there] at missing
    case h_2 => exact ⟨_, rfl⟩
    case h_3 => exact ⟨_, rfl⟩
  obtain ⟨problem, fails⟩ := problem
  refine ⟨problem, fails, ?_⟩
  simp only [resolve, readPath, parsed, readAddress, fails]
  rfl

end Data

namespace Forest

variable {f : Forest}

/-- At position `k` a definition reads the element at an index, narrowed along several paths one
after the other. Where the element is missing it reads null, and that one path is reported. -/
def NarrowsAt (f : Forest) (h : Handle) (k : Nat) (index : UInt64) (paths : List String) : Prop :=
  ∃ d own, f.get? h = some d ∧ d.paths[k]? = some own ∧ ∀ data : Data, ∃ resolved : List Resolved,
    f.readings h data = .ok (resolved.map (·.reading)) ∧
    f.diagnostics h data = .ok (resolved.filterMap (·.diagnostic)) ∧
    (∀ json, data[index.toNat]? = some (some json) → ∃ reading,
      resolved[k]? = some ⟨reading, none⟩ ∧ reading.toValue = json.narrowed paths) ∧
    ((data[index.toNat]?).join = none → ∃ problem, data.elementAt index = .error problem ∧
      resolved[k]? = some ⟨.null, some (.unresolvedPath own data.length problem)⟩)

/-- From `top` down to a definition everyone goes on from the owner, with these first parts. -/
inductive Leads (f : Forest) (top : Handle) : Handle → List String → Prop
  | here : Leads f top top []
  | on {x owner : Handle} {d : Entry} {steps : List String} (found : f.get? x = some d)
    (owned : d.parent = some owner) (goesOn : d.GoesOn) (upper : Leads f top owner steps) :
    Leads f top x (steps ++ [(parts d.dataPath).headD ""])

theorem narrowsAt_of_path {h : Handle} {d : Entry} {k : Nat} {own inside : String} {index : UInt64}
    {paths : List String} (found : f.get? h = some d) (there : d.paths[k]? = some own)
    (parsed : Address.parse own = .ok (.element index inside))
    (split : Json.segments inside = paths.flatMap Json.segments) : f.NarrowsAt h k index paths := by
  refine ⟨d, own, found, there, fun data => ⟨data.resolveAll d.paths, ?_, ?_, fun json present => ?_,
    fun missing => ?_⟩⟩
  · rw [readings, find_eq_ok_iff.2 found]
    rfl
  · rw [diagnostics, find_eq_ok_iff.2 found]
    rfl
  all_goals
    have hpaths : d.paths.isEmpty = false := by
      cases paths' : d.paths with
      | nil => simp [paths'] at there
      | cons => rfl
    have resolved : (data.resolveAll d.paths)[k]? = some (data.resolve own) := by
      rw [Data.resolveAll, if_neg (by simp [hpaths]), List.getElem?_map, there]
      rfl
  · obtain ⟨reading, reads, value⟩ := Data.exists_resolve_of_element parsed present
    exact ⟨reading, by rw [resolved, reads], by rw [value, Json.valueAt_eq_narrowed split]⟩
  · obtain ⟨problem, fails, reads⟩ := Data.exists_resolve_of_missing parsed missing
    exact ⟨problem, fails, by rw [resolved, reads]⟩

namespace Consistent

variable {c p owner : Handle} {d e o : Entry}

theorem getElem?_paths_of_relative (consistent : f.Consistent) (found : f.get? c = some d)
    (owned : d.parent = some p) (ownerFound : f.get? p = some o) {first : String}
    (scope : o.scope = some first) (present : d.hasDataPath = true) {k : Nat} {part : String}
    (there : (parts d.dataPath)[k]? = some part) (relative : isAnchored part = false) :
    d.paths[k]? = some (join first part) := by
  have settled := consistent.settled ownerFound first (List.mem_of_mem_head? scope)
  rw [consistent.paths_of_owner found owned ownerFound present scope, List.getElem?_map, there,
    Option.map_some, anchor_of_relative settled relative]

/-- Going on leads into the element that the first path at the top leads into, part by part. -/
theorem exists_scope_of_leads (consistent : f.Consistent) {top : Handle} {steps : List String}
    (leads : f.Leads top p steps) (found : f.get? top = some e) {path inside : String}
    {index : UInt64} (scope : e.scope = some path)
    (parsed : Address.parse path = .ok (.element index inside)) (there : f.get? p = some o) :
    ∃ first further, o.scope = some first ∧ Address.parse first = .ok (.element index further) ∧
      Json.segments further = (inside :: steps).flatMap Json.segments := by
  induction leads generalizing o with
  | here =>
    rw [found] at there
    cases there
    exact ⟨path, inside, scope, parsed, by simp⟩
  | @on x owner d steps again owned goesOn upper ih =>
    rw [again] at there
    cases there
    obtain ⟨o', ownerFound, _⟩ := consistent.links.owner_lists_once again owned
    obtain ⟨first, further, ownerScope, reads, split⟩ := ih ownerFound
    obtain ⟨present, relative⟩ := goesOn
    obtain ⟨part, more, listed⟩ := List.exists_cons_of_ne_nil (parts_ne_nil d.dataPath)
    rw [listed, List.headD_cons] at relative ⊢
    have own := consistent.getElem?_paths_of_relative again owned ownerFound ownerScope present
      (k := 0) (by rw [listed]; rfl) relative
    obtain ⟨deeper, reads', split'⟩ := Address.exists_parse_join reads part
    refine ⟨_, deeper, by rw [Definition.scope, List.head?_eq_getElem?, own], reads', ?_⟩
    rw [split', split, ← List.cons_append, List.flatMap_append]
    simp

end Consistent

/-- A part without an anchor reads what it leads to inside of what the owner's first path leads to,
and null with one report where the element is missing. So along owners that all go on in this way, the
element is narrowed step by step. -/
theorem Reachable.reads_narrowed (reached : Reachable f) {c p : Handle} {d : Entry}
    (found : f.get? c = some d) (owned : d.parent = some p) (present : d.hasDataPath = true)
    {k : Nat} {part : String} (there : (parts d.dataPath)[k]? = some part)
    (relative : isAnchored part = false) :
    (∀ o path index inside, f.get? p = some o → o.scope = some path →
      Address.parse path = .ok (.element index inside) → f.NarrowsAt c k index [inside, part]) ∧
    ∀ top steps e path index inside, f.Leads top p steps → f.get? top = some e →
      e.scope = some path → Address.parse path = .ok (.element index inside) →
      f.NarrowsAt c k index (inside :: steps ++ [part]) := by
  have consistent := reached.consistent
  obtain ⟨o, ownerFound, _⟩ := consistent.links.owner_lists_once found owned
  have narrows : ∀ top steps e path index inside, f.Leads top p steps → f.get? top = some e →
      e.scope = some path → Address.parse path = .ok (.element index inside) →
      f.NarrowsAt c k index (inside :: steps ++ [part]) := by
    intro top steps e path index inside leads topFound scope parsed
    obtain ⟨first, further, ownerScope, reads, split⟩ :=
      consistent.exists_scope_of_leads leads topFound scope parsed ownerFound
    obtain ⟨deeper, reads', split'⟩ := Address.exists_parse_join reads part
    refine narrowsAt_of_path found (consistent.getElem?_paths_of_relative found owned ownerFound
      ownerScope present there relative) reads' ?_
    rw [split', split, List.flatMap_append]
    simp
  refine ⟨fun o path index inside ownerFound scope parsed => ?_, narrows⟩
  exact narrows p [] o path index inside .here ownerFound scope parsed

private def stacked : Forest :=
  empty.afterAll
    [.insert (.panel "upper") "%1%a" rfl, .insert (.panel "lower") "b" rfl,
      .insert (.input "first" false) "%0%.x, .0" rfl, .setParent ⟨2⟩ ⟨1⟩, .setParent ⟨1⟩ ⟨0⟩]

private theorem leads_stacked : stacked.Leads ⟨0⟩ ⟨1⟩ ["b"] := by
  obtain ⟨d, found, owned, dataPath⟩ : ∃ d, stacked.get? ⟨1⟩ = some d ∧ d.parent = some ⟨0⟩ ∧
      d.dataPath = "b" := ⟨_, rfl, rfl, rfl⟩
  have first : (parts d.dataPath).headD "" = "b" := by
    rw [dataPath]
    decide +kernel
  have goesOn : d.GoesOn := by
    rw [Definition.GoesOn, Definition.hasDataPath, first, dataPath]
    decide +kernel
  rw [← first]
  exact .on found owned goesOn .here

/-- The input reads the first item of a list, past a stray dot and none behind an index; its other
part has an anchor of its own. -/
theorem Reachable.reads_narrowed_of_panels : ∃ f, Reachable f ∧
    f.NarrowsAt ⟨2⟩ 1 1 ["a.b", ".0"] ∧ f.NarrowsAt ⟨2⟩ 1 1 ["a", "b", ".0"] ∧
    f.readings ⟨2⟩ [none, some (.object [("a", .object [("b", .array [.string "text"])])])] =
      .ok [.null, .value (.string "text")] := by
  have reached : Reachable stacked := .afterAll .empty _ (by simp [Call.others])
  have there : (parts "%0%.x, .0")[1]? = some ".0" := by decide +kernel
  obtain ⟨below, along⟩ := Reachable.reads_narrowed (c := ⟨2⟩) (p := ⟨1⟩) reached rfl rfl rfl there
    (by decide)
  exact ⟨stacked, reached, below _ _ 1 "a.b" rfl rfl rfl,
    along ⟨0⟩ ["b"] _ _ 1 "a" leads_stacked rfl rfl rfl, rfl⟩

end Forest

end DataBinding
