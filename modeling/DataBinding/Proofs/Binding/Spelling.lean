import DataBinding.Proofs.Binding.WriteBack
import DataBinding.Proofs.Json.Spelling
import DataBinding.Proofs.Path.Addresses

/-!
# Writes through different spellings

Two definitions whose paths differ in nothing but dots read the same. What is written through them
ends in the same place too, with one exception: behind a dot at the end of its path a definition
asks whether the value itself is a container, not what the value is in, and writes over nothing
else.
-/

namespace DataBinding

open Text (EndsInDot)

namespace Data

variable {data : Data} {index : UInt64} {p q path inside : String} {json : Json}

/-- The path ends in a dot, and no container is there that could take a member or an item. -/
def Blocks (data : Data) (index : UInt64) (inside : String) : Prop :=
  EndsInDot inside ∧ ∃ json, data[index.toNat]? = some (some json) ∧
    (json.valueAt inside).isContainer = false

theorem isContainer_of_not_blocks (free : ¬ data.Blocks index inside)
    (there : data[index.toNat]? = some (some json)) (dot : EndsInDot inside) :
    (json.valueAt inside).isContainer = true :=
  Bool.of_not_eq_false fun closed => free ⟨dot, json, there, closed⟩

theorem readPath_respelt {other : String} (parsed : Address.parse path = .ok (.element index p))
    (parsed' : Address.parse other = .ok (.element index q)) (nonempty : p ≠ "")
    (nonempty' : q ≠ "") (same : Json.segments p = Json.segments q) (data : Data) :
    data.readPath path = data.readPath other := by
  have reads : readingOf p = readingOf q := by
    funext json
    rw [readingOf, readingOf, if_neg nonempty, if_neg nonempty', Json.valueAt_of_segments_eq same]
  rw [readPath, readPath, parsed, parsed']
  show (data.elementAt index).map (readingOf p) = (data.elementAt index).map (readingOf q)
  rw [reads]

theorem readings_singleton (data : Data) (path : String) : data.readings [path] =
    [match data.readPath path with
      | .ok reading => reading
      | .error _ => .null] := by
  show [(data.resolve path).reading] = _
  rw [resolve]
  cases data.readPath path <;> rfl

theorem write_of_path (parsed : Address.parse path = .ok (.element index inside))
    (hne : inside ≠ "") (v : Value) : data.write [path] v =
      match data.elementFor index with
      | .error cause => ⟨.obstacle cause, data⟩
      | .ok json => data.writeInside index inside json v := by
  have target : writeTarget [path] = .ok (index, inside) :=
    writeTarget_eq_ok_iff.2 ⟨path, rfl, hne, parsed⟩
  cases element : data.elementFor index <;> simp only [write, target, element]

theorem writeInside_of_blocks (blocked : data.Blocks index inside)
    (there : data[index.toNat]? = some (some json)) (v : Value) :
    (data.writeInside index inside json v).result.kind = .skipped ∧
      (data.writeInside index inside json v).data = data := by
  obtain ⟨dot, found, again, closed⟩ := blocked
  rw [there] at again
  cases again
  simp [writeInside, Json.holder_of_endsInDot dot, closed, WriteResult.kind]

/-- Both ask the same container, compare with the same value and set the same place. -/
theorem writeInside_respelt (hne : Json.segments p ≠ []) (same : Json.segments p = Json.segments q)
    (there : data[index.toNat]? = some (some json)) (pFree : ¬ data.Blocks index p)
    (qFree : ¬ data.Blocks index q) (v : Value) :
    (data.writeInside index p json v).result.kind = (data.writeInside index q json v).result.kind ∧
      (data.writeInside index p json v).data = (data.writeInside index q json v).data := by
  obtain ⟨front, last, split⟩ := (List.eq_nil_or_concat' (Json.segments p)).resolve_left hne
  have holder : (json.holder p).value.isContainer = (json.holder q).value.isContainer := by
    rw [Bool.eq_iff_iff, Json.isContainer_holder_iff split (isContainer_of_not_blocks pFree there),
      Json.isContainer_holder_iff (same ▸ split) (isContainer_of_not_blocks qFree there)]
  unfold writeInside
  dsimp only
  rw [holder, Json.valueAt_of_segments_eq same, Json.json_assign_eq same]
  by_cases holds : (json.holder q).value.isContainer = true
  · by_cases equal : (json.valueAt q).blankReduced.same v.blankReduced = true
    · simp [holds, equal]
    · have fails := Json.failure_assign_eq_none_iff same v json
      cases first : (json.assign p v).failure <;> cases second : (json.assign q v).failure <;>
        simp_all [WriteResult.kind]
  · simp [holds, WriteResult.kind]

end Data

namespace Forest

variable {f g : Forest} {h k : Handle} {d e : Entry}

/-- Two definitions are bound to paths inside one element that have the same segments. They read the
same, and what is written through either comes to the same and leaves the same data, unless one of
the paths ends in a dot and there is no container at it: then nothing is written through that one.
For a path without a dot at its end the holder, which has to be a container, is what all segments
but the last one lead to; for any other it is what the path itself leads to. -/
theorem Reachable.respelt (reached : Reachable f) (reached' : Reachable g)
    (found : f.get? h = some d) (found' : g.get? k = some e) {n : UInt64} {p q : String}
    (bound : d.paths = [Address.anchorText n ++ "." ++ p])
    (bound' : e.paths = [Address.anchorText n ++ "." ++ q]) (hne : Json.segments p ≠ [])
    (same : Json.segments p = Json.segments q) (data : Data) :
    (∃ readings, f.readings h data = .ok readings ∧ g.readings k data = .ok readings) ∧
    (∀ v, ∃ one other, f.assign h data v = .ok one ∧ g.assign k data v = .ok other ∧
      (¬ data.Blocks n p → ¬ data.Blocks n q →
        one.outcome.kind = other.outcome.kind ∧ one.data = other.data) ∧
      (data.Blocks n p → one.outcome.kind = .skipped ∧ one.data = data) ∧
      (data.Blocks n q → other.outcome.kind = .skipped ∧ other.data = data)) ∧
    ∀ front last json, Json.segments p = front ++ [last] → (json.holder p).value =
      if EndsInDot p then json.valueAt p
      else match Json.lookup? front json with
        | some container => .ofJson container
        | none => .undefined := by
  have parsed := Address.parse_anchorText_append n p
  have parsed' := Address.parse_anchorText_append n q
  have nonempty : p ≠ "" := fun empty => hne (by rw [empty, Json.segments_empty])
  have nonempty' : q ≠ "" := fun empty => hne (by rw [same, empty, Json.segments_empty])
  refine ⟨⟨d.readings data, ?_, ?_⟩, fun v => ?_, fun front last json split => ?_⟩
  · rw [readings, find_eq_ok_iff.2 found]
    rfl
  · rw [readings, find_eq_ok_iff.2 found']
    show Except.ok (Data.readings data e.paths) = .ok (Data.readings data d.paths)
    rw [bound, bound', Data.readings_singleton, Data.readings_singleton,
      Data.readPath_respelt parsed parsed' nonempty nonempty' same]
  · obtain ⟨one, run, kind, left, _⟩ := reached.consistent.links.exists_assign found data v
    obtain ⟨other, run', kind', left', _⟩ := reached'.consistent.links.exists_assign found' data v
    rw [bound, Data.write_of_path parsed nonempty] at kind left
    rw [bound', Data.write_of_path parsed' nonempty'] at kind' left'
    refine ⟨one, other, run, run', ?_⟩
    cases element : data.elementFor n with
    | error cause =>
      simp only [element] at kind left kind' left'
      have missing : ∀ inside, ¬ data.Blocks n inside := by
        rintro inside ⟨_, json, there, _⟩
        rw [Data.elementFor_eq_ok_iff.2 there] at element
        cases element
      exact ⟨fun _ _ => ⟨kind.trans kind'.symm, left.trans left'.symm⟩,
        fun blocked => absurd blocked (missing p), fun blocked => absurd blocked (missing q)⟩
    | ok json =>
      simp only [element] at kind left kind' left'
      have there := Data.elementFor_eq_ok_iff.1 element
      rw [kind, left, kind', left']
      exact ⟨fun pFree qFree => Data.writeInside_respelt hne same there pFree qFree v,
        fun blocked => Data.writeInside_of_blocks blocked there v,
        fun blocked => Data.writeInside_of_blocks blocked there v⟩
  · split
    case isTrue dot => exact Json.holder_of_endsInDot dot json
    case isFalse whole => exact Json.holder_of_not_endsInDot whole split json

private def respeltInputs : Forest :=
  empty.afterAll
    [.insert (.input "" false) "%0%..a..b" (Content.holders_input "" false),
      .insert (.input "" false) "%0%.a.b." (Content.holders_input "" false)]

private theorem paths_respeltInputs : ∃ d e, respeltInputs.get? ⟨0⟩ = some d ∧
    respeltInputs.get? ⟨1⟩ = some e ∧ d.paths = [Address.anchorText 0 ++ "." ++ ".a..b"] ∧
    e.paths = [Address.anchorText 0 ++ "." ++ "a.b."] :=
  ⟨_, _, rfl, rfl, by decide +kernel, by decide +kernel⟩

/-- Stray dots make no difference to a member that is an object. Where it is none, the input with
the dot at the end of its path does not write. -/
theorem Reachable.respelt_of_inputs : ∃ f one other blocked, Reachable f ∧
    f.assign ⟨0⟩ [some (.object [("a", .object [("b", .object [])])])] (.bool true) = .ok one ∧
    f.assign ⟨1⟩ [some (.object [("a", .object [("b", .object [])])])] (.bool true) = .ok other ∧
    one.outcome.kind = .written ∧ other.outcome.kind = .written ∧ one.data = other.data ∧
    f.assign ⟨1⟩ [some (.object [("a", .object [("b", .bool true)])])] .undefined = .ok blocked ∧
    blocked.outcome.kind = .skipped := by
  have reached : Reachable respeltInputs := .afterAll .empty _ (by simp [Call.others])
  obtain ⟨d, e, found, found', bound, bound'⟩ := paths_respeltInputs
  have respelt := Reachable.respelt reached reached found found' bound bound' (by decide +kernel)
    (by decide +kernel)
  obtain ⟨_, writes, _⟩ := respelt [some (.object [("a", .object [("b", .object [])])])]
  obtain ⟨one, other, run, run', same, _⟩ := writes (.bool true)
  obtain ⟨kinds, agree⟩ := same (fun blocked => absurd blocked.1 (by decide +kernel)) (by
    rintro ⟨_, json, there, closed⟩
    cases there
    exact absurd closed (by decide +kernel))
  have kind : one.outcome.kind = .written := by
    have computed : (respeltInputs.assign ⟨0⟩
      [some (.object [("a", .object [("b", .object [])])])] (.bool true)).toOption.map
        (·.outcome.kind) = some .written := by decide +kernel
    rw [run] at computed
    exact Option.some.inj computed
  obtain ⟨_, writes', _⟩ := respelt [some (.object [("a", .object [("b", .bool true)])])]
  obtain ⟨_, blocked, _, again, _, _, stops⟩ := writes' .undefined
  obtain ⟨skipped, _⟩ := stops ⟨by decide +kernel, _, rfl, by decide +kernel⟩
  exact ⟨respeltInputs, one, other, blocked, reached, run, run', kind, kinds ▸ kind, agree, again,
    skipped⟩

/-- A member that is there is set through its name, but not with a dot behind it. -/
theorem respelt_not_alike : ¬ ∀ (f : Forest) (h k : Handle) (d e : Entry) (n : UInt64)
    (p q : String) (data : Data) (v : Value) (one other : Assigned), Reachable f → f.get? h = some d →
      f.get? k = some e → d.paths = [Address.anchorText n ++ "." ++ p] →
      e.paths = [Address.anchorText n ++ "." ++ q] → Json.segments p ≠ [] →
      Json.segments p = Json.segments q → f.assign h data v = .ok one →
      f.assign k data v = .ok other → one.outcome.kind = other.outcome.kind := by
  intro alike
  let f := empty.afterAll
    [.insert (.input "" false) "%0%.a" rfl, .insert (.input "" false) "%0%.a." rfl]
  let data : Data := [some (.object [("a", .bool true)])]
  have reached : Reachable f := .afterAll .empty _ (by simp [Call.others])
  obtain ⟨d, e, found, found', bound, bound'⟩ : ∃ d e, f.get? ⟨0⟩ = some d ∧ f.get? ⟨1⟩ = some e ∧
      d.paths = [Address.anchorText 0 ++ "." ++ "a"] ∧
      e.paths = [Address.anchorText 0 ++ "." ++ "a."] :=
    ⟨_, _, rfl, rfl, by decide +kernel, by decide +kernel⟩
  obtain ⟨one, run, _⟩ := reached.consistent.links.exists_assign found data (.string "x")
  obtain ⟨other, run', _⟩ := reached.consistent.links.exists_assign found' data (.string "x")
  have same := alike f ⟨0⟩ ⟨1⟩ d e 0 "a" "a." data (.string "x") one other reached found found'
    bound bound' (by decide +kernel) (by decide +kernel) run run'
  have computed : (f.assign ⟨0⟩ data (.string "x")).toOption.map (·.outcome.kind) ≠
      (f.assign ⟨1⟩ data (.string "x")).toOption.map (·.outcome.kind) := by decide +kernel
  rw [run, run'] at computed
  exact computed (congrArg some same)

end Forest

end DataBinding
