import DataBinding.Proofs.Path.Extension
import Mathlib.Data.List.Forall2

/-!
# Positions of parts

Scoping goes part by part: what comes out in a position depends on the raw part in that position and
on the path above, and on nothing else. It comes out in a form that scoping leaves alone under any
other path, so a scoped data path may be written down and scoped again.
-/

namespace DataBinding.Path

/-- A path that scoping gives, under nothing or under a path that it has given before. -/
inductive Produced : String → Prop
  | alone {dataPath path : String} (part : path ∈ normalize dataPath none) : Produced path
  | under {above dataPath path : String} (earlier : Produced above)
    (part : path ∈ normalize dataPath (some above)) : Produced path

structure Scoped (above : Option String) (raw path : String) : Prop where
  nonempty : path ≠ ""
  anchored : path.toList.head? = some '%'
  whole : ',' ∉ path.toList
  tight : Text.trim path = path
  kept : (Text.trim raw).toList.head? = some '%' → path = Text.trim raw
  joined : (Text.trim raw).toList.head? ≠ some '%' →
    path = join (above.getD implicitAnchor) (Text.trim raw)

variable {above : Option String} {dataPath path raw : String}

theorem Produced.settled (produced : Produced path) : Settled path := by
  induction produced with
  | alone part => exact settled_of_mem_normalize (fun _ absent => by cases absent) part
  | under _ part ih =>
    refine settled_of_mem_normalize (fun path same => ?_) part
    cases same
    exact ih

theorem anchor_of_unanchored (under : ∀ path, above = some path → Settled path) {part : String}
    (relative : isAnchored part = false) :
    anchor above part = join (above.getD implicitAnchor) part := by
  cases above with
  | none =>
    have free : below none part = part := by simp [below]
    rw [anchor, free, relative, if_neg Bool.false_ne_true, Option.getD_none]
  | some path => exact anchor_of_relative (under path rfl) relative

theorem scoped_anchor (under : ∀ path, above = some path → Settled path)
    (whole : ',' ∉ raw.toList) : Scoped above raw (anchor above (Text.trim raw)) := by
  have settled := settled_anchor under whole
  refine ⟨settled.ne_empty, isAnchored_iff.1 settled.anchored, settled.whole,
    Text.trim_eq_self_iff.2 settled.tight, fun own => ?_, fun relative => ?_⟩
  · exact anchor_of_isAnchored (isAnchored_iff.2 own) above
  · refine anchor_of_unanchored under ?_
    rwa [Bool.eq_false_iff, Ne, isAnchored_iff]

theorem forall₂_scoped (under : ∀ path, above = some path → Settled path)
    (present : Text.allBlank dataPath = false) :
    List.Forall₂ (Scoped above) (Text.split ',' dataPath) (normalize dataPath above) := by
  rw [normalize, if_neg (by rw [present]; exact Bool.false_ne_true)]
  refine List.forall₂_map_right_iff.2 (List.forall₂_same.2 fun raw listed => ?_)
  obtain ⟨chars, cut, rfl⟩ := List.mem_map.1 listed
  refine scoped_anchor under ?_
  rw [String.toList_ofList]
  exact Text.not_mem_of_mem_splitList cut

theorem normalize_eq_nil_iff : normalize dataPath above = [] ↔ Text.allBlank dataPath = true := by
  refine ⟨fun hnil => ?_, fun blank => normalize_of_allBlank blank above⟩
  exact Bool.of_not_eq_false fun present => normalize_ne_nil present hnil

theorem normalize_normalize (under : ∀ path, above = some path → Settled path) (dataPath : String)
    (other : Option String) :
    normalize (String.intercalate "," (normalize dataPath above)) other =
      normalize dataPath above := by
  by_cases blank : normalize dataPath above = []
  · rw [blank]
    rfl
  · exact normalize_intercalate blank (fun _ inside => settled_of_mem_normalize under inside) other

/-- Only a blank data path has no parts. Any other one comes out part by part, and what comes out stays
as it is when it is joined and scoped again, whatever is above it then. -/
theorem normalize_positional (under : ∀ path, above = some path → Produced path)
    (dataPath : String) :
    (normalize dataPath above = [] ↔ ∀ c ∈ dataPath.toList, Text.isBlank c = true) ∧
    (normalize dataPath above ≠ [] →
      List.Forall₂ (Scoped above) (Text.split ',' dataPath) (normalize dataPath above)) ∧
    ∀ other, normalize (String.intercalate "," (normalize dataPath above)) other =
      normalize dataPath above := by
  replace under : ∀ path, above = some path → Settled path :=
    fun path same => (under path same).settled
  refine ⟨?_, fun present => forall₂_scoped under ?_, normalize_normalize under dataPath⟩
  · rw [normalize_eq_nil_iff, Text.allBlank, List.all_eq_true]
  · rwa [Bool.eq_false_iff, Ne, ← normalize_eq_nil_iff]

theorem normalize_positional_of_parts : Produced "%1%.a.b" ∧
    normalize " c.d ,, %null%" (some "%1%.a.b") = ["%1%.a.b.c.d", "%1%.a.b", "%null%"] ∧
    List.Forall₂ (Scoped (some "%1%.a.b")) [" c.d ", "", " %null%"]
      ["%1%.a.b.c.d", "%1%.a.b", "%null%"] ∧
    normalize "%1%.a.b.c.d,%1%.a.b,%null%" (some "other") =
      ["%1%.a.b.c.d", "%1%.a.b", "%null%"] := by
  have first : "%1%.a" ∈ normalize "x,%1%.a" none := by decide +kernel
  have second : "%1%.a.b" ∈ normalize " b" (some "%1%.a") := by decide +kernel
  have produced : Produced "%1%.a.b" := .under (.alone first) second
  have under : ∀ path, some "%1%.a.b" = some path → Produced path := by
    rintro _ ⟨⟩
    exact produced
  have comes : normalize " c.d ,, %null%" (some "%1%.a.b") =
      ["%1%.a.b.c.d", "%1%.a.b", "%null%"] := by
    decide +kernel
  obtain ⟨_, parts, again⟩ := normalize_positional under " c.d ,, %null%"
  rw [comes] at parts again
  exact ⟨produced, comes, parts (by decide), again (some "other")⟩

end DataBinding.Path
