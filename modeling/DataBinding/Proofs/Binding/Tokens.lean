import DataBinding.Proofs.Binding.Narrowing
import DataBinding.Proofs.Forest.Paths

/-!
# Paths below a token

A token stands for a place of its own and leads nowhere, so nothing can be read behind it. A part that
is scoped under a token, and every part that goes on from there, comes out as a path with a malformed
index. No other part does, as long as the anchored ones can be read as they are written.
-/

namespace DataBinding

open DataBinding.Path

namespace Address

variable {path token : String}

def IsToken (path : String) : Prop :=
  path = nullToken ∨ path = skipToken

/-- A token, or a path that leads into an element. -/
def Readable (path : String) : Prop :=
  IsToken path ∨ ∃ index inside, parse path = .ok (.element index inside)

theorem parse_of_dot {body : List Char} (shape : path.toList = '%' :: body) (dot : '.' ∈ body) :
    parse path = parseAnchor path body := by
  have dotted : '.' ∈ path.toList := by
    rw [shape]
    exact List.mem_cons_of_mem _ dot
  have apart : ∀ other : String, '.' ∉ other.toList → path ≠ other := by
    rintro other undotted rfl
    exact undotted dotted
  rw [parse, if_neg (apart "" (by decide)), if_neg (apart nullToken (by decide)),
    if_neg (apart skipToken (by decide)), shape]
  rfl

/-- Behind a token nothing can be read: what the token has between its percent signs is no index. -/
theorem IsToken.parse_append (isToken : IsToken token) (rest : String) :
    parse (token ++ "." ++ rest) = .error (.malformedIndex (token ++ "." ++ rest)
      (if token = nullToken then "null" else "")) := by
  obtain ⟨digits, shape, absent, number, between⟩ : ∃ digits, token.toList = '%' :: (digits ++ ['%']) ∧
      '%' ∉ digits ∧ Text.index? digits = none ∧
      String.ofList digits = if token = nullToken then "null" else "" := by
    rcases isToken with rfl | rfl
    · exact ⟨"null".toList, by decide, by decide, by decide, by decide⟩
    · exact ⟨[], by decide, by decide, by decide, by decide⟩
  have longShape : (token ++ "." ++ rest).toList = '%' :: (digits ++ '%' :: '.' :: rest.toList) := by
    simp [shape]
  have cut : Text.cutFirst? '%' (digits ++ '%' :: '.' :: rest.toList) =
      some (digits, '.' :: rest.toList) := Text.cutFirst?_eq_some_iff.2 ⟨rfl, absent⟩
  rw [parse_of_dot longShape (by simp), parseAnchor, cut]
  simp only [number, between]

theorem Readable.exists_parse (readable : Readable path) : ∃ address, parse path = .ok address := by
  rcases readable with (rfl | rfl) | ⟨index, inside, parsed⟩
  · exact ⟨.null, by decide⟩
  · exact ⟨.skip, by decide⟩
  · exact ⟨_, parsed⟩

theorem readable_iff (anchored : isAnchored path = true) :
    Readable path ↔ ∃ address, parse path = .ok address := by
  refine ⟨Readable.exists_parse, fun ⟨address, parsed⟩ => ?_⟩
  by_cases isToken : IsToken path
  · exact .inl isToken
  obtain ⟨null, skip⟩ := not_or.1 isToken
  have nonempty : path ≠ "" := by
    rintro rfl
    cases anchored
  rw [parse, if_neg nonempty, if_neg null, if_neg skip] at parsed
  refine .inr ?_
  rw [parse, if_neg nonempty, if_neg null, if_neg skip]
  split at parsed
  case h_2 => cases parsed
  case h_1 body shape =>
    rw [parseAnchor] at parsed ⊢
    split at parsed
    · cases parsed
    split at parsed
    · cases parsed
    · exact ⟨_, _, rfl⟩

theorem parse_implicitAnchor : parse implicitAnchor = .ok (.element 0 "") := by
  decide +kernel

theorem readable_join {index : UInt64} {inside : String}
    (parsed : parse path = .ok (.element index inside)) (part : String) :
    Readable (join path part) := by
  obtain ⟨further, leads, _⟩ := exists_parse_join parsed part
  exact .inr ⟨index, further, leads⟩

theorem readable_anchor_or {above : Option String} {part : String}
    (anchors : isAnchored part = true → ∃ address, parse part = .ok address) :
    Readable (anchor above part) ∨ isAnchored part = false ∧ ∃ first, above = some first := by
  cases anchored : isAnchored part with
  | true =>
    rw [anchor_of_isAnchored anchored]
    exact .inl ((readable_iff anchored).2 (anchors anchored))
  | false =>
    cases above with
    | some first => exact .inr ⟨rfl, first, rfl⟩
    | none =>
      have free : below none part = part := by simp [below]
      rw [anchor, free, anchored, if_neg Bool.false_ne_true]
      exact .inl (readable_join parse_implicitAnchor part)

end Address

open DataBinding.Address

theorem Path.exists_join_append (token rest part : String) :
    ∃ more, join (token ++ "." ++ rest) part = token ++ "." ++ more := by
  have nonempty : token ++ "." ++ rest ≠ "" := by simp
  rw [join, if_neg nonempty]
  split
  · exact ⟨rest, rfl⟩
  · exact ⟨rest ++ "." ++ part, by simp only [String.append_assoc]⟩

namespace Data

theorem readAddress_ne_address (data : Data) (address : Address) (cause : AddressError) :
    data.readAddress address ≠ .error (.address cause) := by
  cases address with
  | element index inside =>
    rw [readAddress, elementAt]
    split <;> simp [Except.map]
  | _ => simp [readAddress]

theorem diagnostic_resolve_eq_some_iff {data : Data} {own path : String} {n : Nat}
    {cause : AddressError} :
    (data.resolve own).diagnostic = some (.unresolvedPath path n (.address cause)) ↔
      path = own ∧ n = data.length ∧ parse own = .error cause := by
  rw [resolve, readPath]
  cases parsed : parse own with
  | error problem => simp [eq_comm]
  | ok address =>
    cases read : data.readAddress address with
    | ok reading => simp [read]
    | error problem =>
      have other : problem ≠ .address cause := fun same =>
        data.readAddress_ne_address address cause (same ▸ read)
      simp [read, other]

/-- A path is reported as malformed whenever it is, whatever the data. -/
theorem unresolvedPath_mem_diagnostics_iff {data : Data} {paths : List String} {path : String} {n : Nat}
    {cause : AddressError} :
    .unresolvedPath path n (.address cause) ∈ data.diagnostics paths ↔
      path ∈ paths ∧ n = data.length ∧ parse path = .error cause := by
  rw [diagnostics, resolveAll, List.mem_filterMap]
  split
  case isTrue hnil =>
    rw [List.isEmpty_iff.1 hnil]
    constructor
    · rintro ⟨resolved, read, reported⟩
      obtain ⟨json, _, rfl⟩ := List.mem_map.1 read
      cases json <;> cases reported
    · rintro ⟨listed, _⟩
      cases listed
  case isFalse =>
    constructor
    · rintro ⟨resolved, read, reported⟩
      obtain ⟨own, listed, rfl⟩ := List.mem_map.1 read
      obtain ⟨rfl, rfl, fails⟩ := diagnostic_resolve_eq_some_iff.1 reported
      exact ⟨listed, rfl, fails⟩
    · rintro ⟨listed, rfl, fails⟩
      exact ⟨_, List.mem_map_of_mem listed, diagnostic_resolve_eq_some_iff.2 ⟨rfl, rfl, fails⟩⟩

end Data

namespace Forest

variable {f : Forest} {x y owner : Handle} {d o : Entry} {path token : String}

def AnchorsRead (f : Forest) : Prop :=
  ∀ x d, f.get? x = some d → ∀ part ∈ parts d.dataPath, isAnchored part = true →
    ∃ address, parse part = .ok address

instance (f : Forest) : Decidable f.AnchorsRead :=
  decidable_of_iff (∀ k < f.capacity, ((f.get? ⟨k⟩).all fun d => (parts d.dataPath).all fun part =>
    !isAnchored part || (parse part).isOk) = true) <| by
    simp only [AnchorsRead, Option.all_eq_true, List.all_eq_true, Bool.or_eq_true, Bool.not_eq_true',
      ← Bool.not_eq_true, ← imp_iff_not_or, Outcome.isOk_eq_true_iff]
    exact ⟨fun all x d found => all x.index (index_lt_of_get? found) d found,
      fun all k _ d found => all ⟨k⟩ d found⟩

/-- The data path at `x` has a part that is scoped under a token. -/
def LeavesToken (f : Forest) (x : Handle) (token : String) : Prop :=
  ∃ d owner o, f.get? x = some d ∧ d.parent = some owner ∧ f.get? owner = some o ∧
    o.scope = some token ∧ IsToken token ∧
    ∃ part ∈ parts d.dataPath, part ≠ "" ∧ isAnchored part = false

theorem Consistent.exists_path_of_leavesToken (consistent : f.Consistent)
    (leaves : f.LeavesToken x token) (found : f.get? x = some d) :
    ∃ rest, token ++ "." ++ rest ∈ d.paths := by
  obtain ⟨d', owner, o, again, owned, ownerFound, scope, isToken, part, inside, nonempty, relative⟩ :=
    leaves
  rw [found] at again
  cases again
  have present : d.hasDataPath = true := by
    rw [Definition.hasDataPath, allBlank_of_mem_parts inside nonempty]
    rfl
  have settled := consistent.settled ownerFound token (List.mem_of_mem_head? scope)
  refine ⟨part, ?_⟩
  rw [consistent.paths_of_owner found owned ownerFound present scope]
  refine List.mem_map.2 ⟨part, inside, ?_⟩
  rw [anchor_of_relative settled relative, join_of_ne_empty settled.ne_empty nonempty]

/-- A path can be read, or goes on behind a token that someone on the way up has left. -/
theorem Consistent.readable_or (consistent : f.Consistent) (anchors : f.AnchorsRead)
    (found : f.get? x = some d) (inside : path ∈ d.paths) : Readable path ∨
      ∃ y token rest, f.Within y x ∧ f.LeavesToken y token ∧ path = token ++ "." ++ rest := by
  obtain ⟨hs, climb⟩ := consistent.links.climbs found
  -- from the top down: a part without an anchor goes on from a path above
  induction climb generalizing d path with
  | @top x e there free =>
    rw [there] at found
    cases found
    rw [consistent.paths.paths_eq there, free] at inside
    obtain ⟨part, listed, rfl⟩ := exists_part_of_mem_normalize inside
    obtain readable | ⟨_, first, above⟩ := readable_anchor_or (anchors x e there part listed)
    · exact .inl readable
    · cases above
  | @up x owner e above there owned rest ih =>
    rw [there] at found
    cases found
    obtain ⟨o, ownerFound⟩ := rest.found
    rw [consistent.paths.paths_eq there, owned, Option.bind_some, ownerFound, Option.bind_some]
      at inside
    obtain ⟨part, listed, rfl⟩ := exists_part_of_mem_normalize inside
    obtain readable | ⟨relative, first, scope⟩ := readable_anchor_or (anchors x e there part listed)
    · exact .inl readable
    have upper : first ∈ o.paths := List.mem_of_mem_head? scope
    have settled := consistent.settled ownerFound first upper
    rw [scope, anchor_of_relative settled relative]
    obtain (isToken | ⟨index, within, parsed⟩) | ⟨y, token, behind, passed, leaves, rfl⟩ :=
      ih ownerFound upper
    · by_cases hpart : part = ""
      · rw [hpart, join_empty]
        exact .inl (.inl isToken)
      · refine .inr ⟨x, first, part, .refl (.up there owned rest), ?_, ?_⟩
        · exact ⟨e, owner, o, there, owned, ownerFound, scope, isToken, part, listed, hpart, relative⟩
        · exact join_of_ne_empty settled.ne_empty hpart
    · exact .inl (readable_join parsed part)
    · obtain ⟨more, further⟩ := exists_join_append token behind part
      exact .inr ⟨y, token, more, .of_owner there owned passed, leaves, further⟩

theorem Consistent.parse_iff_leavesToken (consistent : f.Consistent) (anchors : f.AnchorsRead) :
    (∀ x d path, f.get? x = some d → path ∈ d.paths → ∃ address, parse path = .ok address) ↔
      ∀ x token, ¬ f.LeavesToken x token := by
  constructor
  · intro reads x token leaves
    have ⟨d, _, _, found, _, _, _, isToken, _⟩ := leaves
    obtain ⟨rest, inside⟩ := consistent.exists_path_of_leavesToken leaves found
    obtain ⟨address, parsed⟩ := reads x d _ found inside
    rw [isToken.parse_append] at parsed
    cases parsed
  · intro stays x d path found inside
    obtain readable | ⟨y, token, _, _, leaves, _⟩ := consistent.readable_or anchors found inside
    · exact readable.exists_parse
    · exact absurd leaves (stays y token)

theorem silent_iff_parse :
    (∀ x data reports, f.diagnostics x data = .ok reports →
        ∀ path n cause, .unresolvedPath path n (.address cause) ∉ reports) ↔
      ∀ x d path, f.get? x = some d → path ∈ d.paths → ∃ address, parse path = .ok address := by
  constructor
  · intro silent x d path found inside
    cases parsed : parse path with
    | ok address => exact ⟨address, rfl⟩
    | error cause =>
      have run : f.diagnostics x [] = .ok (Data.diagnostics [] d.paths) := by
        rw [diagnostics, find_eq_ok_iff.2 found]
        rfl
      exact absurd (Data.unresolvedPath_mem_diagnostics_iff.2 ⟨inside, rfl, parsed⟩)
        (silent x [] _ run path 0 cause)
  · intro reads x data reports run path n cause reported
    obtain ⟨d, found, rfl⟩ := Outcome.map_eq_ok_iff.1 run
    obtain ⟨inside, _, fails⟩ := Data.unresolvedPath_mem_diagnostics_iff.1 reported
    obtain ⟨address, parsed⟩ := reads x d path (find_eq_ok_iff.1 found) inside
    rw [fails] at parsed
    cases parsed

/-- Where all anchored parts can be read as they are written, a kept path is a token, leads into an
element, or goes on behind a token that someone on the way up has left, and then has a malformed index.
So all kept paths can be read, and resolving reports none of them as malformed, if and only if nobody
leaves a token. -/
theorem Reachable.paths_read_iff (reached : Reachable f) (anchors : f.AnchorsRead) :
    (∀ x d path, f.get? x = some d → path ∈ d.paths →
      path = nullToken ∨ path = skipToken ∨
      (∃ index inside, parse path = .ok (.element index inside)) ∨
      ∃ y token rest, f.Within y x ∧ f.LeavesToken y token ∧ path = token ++ "." ++ rest ∧
        parse path = .error (.malformedIndex path (if token = nullToken then "null" else ""))) ∧
    ((∀ x d path, f.get? x = some d → path ∈ d.paths → ∃ address, parse path = .ok address) ↔
      ∀ x token, ¬ f.LeavesToken x token) ∧
    ((∀ x data reports, f.diagnostics x data = .ok reports →
        ∀ path n cause, .unresolvedPath path n (.address cause) ∉ reports) ↔
      ∀ x token, ¬ f.LeavesToken x token) := by
  have consistent := reached.consistent
  have parses := consistent.parse_iff_leavesToken anchors
  refine ⟨fun x d path found inside => ?_, parses, silent_iff_parse.trans parses⟩
  obtain ((null | skip) | leads) | ⟨y, token, rest, passed, leaves, rfl⟩ :=
    consistent.readable_or anchors found inside
  · exact .inl null
  · exact .inr (.inl skip)
  · exact .inr (.inr (.inl leads))
  · have ⟨_, _, _, _, _, _, _, isToken, _⟩ := leaves
    exact .inr (.inr (.inr ⟨y, token, rest, passed, leaves, rfl, isToken.parse_append rest⟩))

private def inputBelowNull : Forest :=
  empty.afterAll
    [.insert (.panel "") "%null%" (Content.holders_panel ""),
      .insert (.input "" false) "a, %1%.b, " (Content.holders_input "" false), .setParent ⟨1⟩ ⟨0⟩]

private theorem parse_belowNull :
    parse "%null%.a" = .error (.malformedIndex "%null%.a" "null") := by
  decide +kernel

/-- The first part of the input has a malformed index, which is reported. With only the other two parts
everything can be read. -/
theorem Reachable.paths_read_iff_of_input : ∃ f g d, Reachable f ∧ f.AnchorsRead ∧
    f.get? ⟨1⟩ = some d ∧ d.paths = ["%null%.a", "%1%.b", "%null%"] ∧
    parse "%null%.a" = .error (.malformedIndex "%null%.a" "null") ∧
    (∃ y, f.Within y ⟨1⟩ ∧ f.LeavesToken y nullToken) ∧
    f.setDataPath ⟨1⟩ "%1%.b, " = .ok g ∧ Reachable g ∧ g.AnchorsRead ∧
    (∀ x token, ¬ g.LeavesToken x token) ∧
    ∀ x data reports, g.diagnostics x data = .ok reports →
      ∀ path n cause, .unresolvedPath path n (.address cause) ∉ reports := by
  have reached : Reachable inputBelowNull := .afterAll .empty _ (by simp [Call.others])
  have anchors : inputBelowNull.AnchorsRead := by decide +kernel
  obtain ⟨d, found, paths⟩ : ∃ d, inputBelowNull.get? ⟨1⟩ = some d ∧
    d.paths = ["%null%.a", "%1%.b", "%null%"] := ⟨_, rfl, rfl⟩
  obtain ⟨kept, _⟩ := Reachable.paths_read_iff reached anchors
  have left : ∃ y, inputBelowNull.Within y ⟨1⟩ ∧ inputBelowNull.LeavesToken y nullToken := by
    obtain null | skip | ⟨_, _, leads⟩ | ⟨y, token, _, passed, leaves, _, malformed⟩ :=
      kept ⟨1⟩ d "%null%.a" found (by simp [paths])
    · exact absurd null (by decide)
    · exact absurd skip (by decide)
    · rw [parse_belowNull] at leads
      cases leads
    · have same : token = nullToken := by
        by_contra other
        rw [parse_belowNull, if_neg other] at malformed
        simp at malformed
      exact ⟨y, passed, same ▸ leaves⟩
  let tidy := inputBelowNull.after (.setDataPath ⟨1⟩ "%1%.b, ")
  have tidyReached : Reachable tidy := .call _ reached (by simp [Call.others])
  have tidyAnchors : tidy.AnchorsRead := by decide +kernel
  have checked : ∀ k < tidy.capacity, ((tidy.get? ⟨k⟩).all fun d =>
      d.paths.all fun path => (parse path).isOk) = true := by decide +kernel
  have reads : ∀ x d path, tidy.get? x = some d → path ∈ d.paths →
      ∃ address, parse path = .ok address := fun x d path there inside =>
    Outcome.isOk_eq_true_iff.1 (List.all_eq_true.1
      (Option.all_eq_true _ _ |>.1 (checked x.index (index_lt_of_get? there)) d there) path inside)
  obtain ⟨_, stays, silent⟩ := Reachable.paths_read_iff tidyReached tidyAnchors
  exact ⟨inputBelowNull, tidy, d, reached, anchors, found, paths, parse_belowNull, left, rfl, tidyReached,
    tidyAnchors, stays.1 reads, silent.2 (stays.1 reads)⟩

/-- An input below a null keeps a path that cannot be read, although neither data path has an anchor
that is malformed. -/
theorem paths_not_read : ¬ ∀ (f : Forest) (x : Handle) (d : Entry) (path : String), Reachable f →
    f.AnchorsRead → f.get? x = some d → path ∈ d.paths → ∃ address, parse path = .ok address := by
  intro reads
  obtain ⟨address, parsed⟩ := reads inputBelowNull ⟨1⟩ _ "%null%.a"
    (.afterAll .empty _ (by simp [Call.others])) (by decide +kernel) rfl (by decide +kernel)
  rw [parse_belowNull] at parsed
  cases parsed

end Forest

end DataBinding
