import DataBinding.Path.Scope
import DataBinding.Proofs.Text.Parts

/-!
# Anchored parts

The parts that scoping gives have an anchor, no comma and no white space around them. Such parts,
joined with commas and scoped anew under nothing, come back as they were.
-/

namespace DataBinding.Path

structure Settled (path : String) : Prop where
  anchored : isAnchored path = true
  whole : ',' ∉ path.toList
  tight : Text.Tight path.toList

theorem settled_implicitAnchor : Settled implicitAnchor := by
  refine ⟨by decide, by decide, ?_⟩
  rw [← Text.trim_eq_self_iff]
  decide

theorem Settled.ne_empty {path : String} (settled : Settled path) : path ≠ "" := by
  rintro rfl
  have anchored := settled.anchored
  exact absurd anchored (by decide)

theorem join_empty (path : String) : join path "" = path := by
  rw [join]
  split
  case isTrue hpart => exact hpart.symm
  case isFalse => rfl

theorem join_of_ne_empty {path part : String} (hpath : path ≠ "") (hpart : part ≠ "") :
    join path part = path ++ "." ++ part := by
  rw [join, if_neg hpath, if_neg hpart]

theorem Settled.join {path part : String} (settled : Settled path) (whole : ',' ∉ part.toList)
    (tight : Text.Tight part.toList) : Settled (join path part) := by
  unfold Path.join
  rw [if_neg settled.ne_empty]
  split
  case isTrue => exact settled
  case isFalse nonempty =>
    rw [String.append_assoc]
    refine ⟨isAnchored_append settled.anchored _, ?_, ?_⟩
    · simp only [String.toList_append, List.mem_append, not_or]
      exact ⟨settled.whole, by decide, whole⟩
    · have dot : Text.Tight ".".toList := Text.trim_eq_self_iff.1 (by decide)
      rw [String.toList_append, String.toList_append]
      exact Text.tight_append settled.tight (Text.tight_append dot tight)

/-- Under nothing, or under a part that scoping has left, every part comes out as scoping leaves
them. -/
theorem settled_anchor {above : Option String} {part : String}
    (under : ∀ path, above = some path → Settled path) (whole : ',' ∉ part.toList) :
    Settled (anchor above (Text.trim part)) := by
  have tight := Text.tight_trim part
  replace whole : ',' ∉ (Text.trim part).toList := by
    rw [Text.trim, String.toList_ofList]
    exact fun inside => whole (Text.mem_of_mem_trimChars inside)
  generalize Text.trim part = part at whole tight
  by_cases anchored : isAnchored part = true
  · rw [anchor_of_isAnchored anchored]
    exact ⟨anchored, whole, tight⟩
  · cases above with
    | none =>
      have free : below none part = part := by simp [below]
      rw [anchor, free, if_neg anchored]
      exact settled_implicitAnchor.join whole tight
    | some path =>
      have inside : below (some path) part = join path part := by simp [below, anchored]
      have settled := (under path rfl).join whole tight
      rw [anchor, inside, if_pos settled.anchored]
      exact settled

theorem settled_of_mem_normalize {dataPath path : String} {above : Option String}
    (under : ∀ path, above = some path → Settled path) (inside : path ∈ normalize dataPath above) :
    Settled path := by
  unfold normalize at inside
  split at inside
  · cases inside
  · obtain ⟨part, listed, rfl⟩ := List.mem_map.1 inside
    obtain ⟨chars, cut, rfl⟩ := List.mem_map.1 listed
    refine settled_anchor under ?_
    rw [String.toList_ofList]
    exact Text.not_mem_of_mem_splitList cut

theorem normalize_ne_nil {dataPath : String} {above : Option String}
    (present : Text.allBlank dataPath = false) : normalize dataPath above ≠ [] := by
  rw [normalize, if_neg (by rw [present]; exact Bool.false_ne_true), Text.split, Text.splitList]
  exact List.cons_ne_nil _ _

theorem allBlank_of_isAnchored {path : String} (anchored : isAnchored path = true) :
    Text.allBlank path = false := by
  rw [isAnchored_iff] at anchored
  rw [Text.allBlank]
  cases chars : path.toList with
  | nil =>
    rw [chars] at anchored
    cases anchored
  | cons c rest =>
    rw [chars] at anchored
    cases anchored
    rfl

theorem normalize_intercalate {paths : List String} (hne : paths ≠ [])
    (settled : ∀ path ∈ paths, Settled path) (above : Option String) :
    normalize (String.intercalate "," paths) above = paths := by
  have present : Text.allBlank (String.intercalate "," paths) = false := by
    obtain ⟨path, rest, rfl⟩ := List.exists_cons_of_ne_nil hne
    have anchored := (settled path List.mem_cons_self).anchored
    apply allBlank_of_isAnchored
    cases rest with
    | nil =>
      rw [String.intercalate_singleton]
      exact anchored
    | cons next later =>
      rw [String.intercalate_cons_cons, String.append_assoc]
      exact isAnchored_append anchored _
  rw [normalize, if_neg (by rw [present]; exact Bool.false_ne_true),
    Text.split_intercalate rfl hne fun path inside => (settled path inside).whole]
  refine List.map_congr_left (g := id) ?_ |>.trans (List.map_id _)
  intro path inside
  rw [Text.trim_eq_self_iff.2 (settled path inside).tight,
    anchor_of_isAnchored (settled path inside).anchored, id]

def parts (dataPath : String) : List String :=
  (Text.split ',' dataPath).map Text.trim

theorem parts_ne_nil (dataPath : String) : parts dataPath ≠ [] := by
  rw [parts, Text.split, Text.splitList]
  exact List.cons_ne_nil _ _

theorem normalize_of_present {dataPath : String} (present : Text.allBlank dataPath = false)
    (above : Option String) : normalize dataPath above = (parts dataPath).map (anchor above) := by
  rw [normalize, if_neg (by rw [present]; exact Bool.false_ne_true), parts, List.map_map,
    Function.comp_def]

theorem allBlank_of_mem_parts {dataPath part : String} (inside : part ∈ parts dataPath)
    (nonempty : part ≠ "") : Text.allBlank dataPath = false := by
  rw [Bool.eq_false_iff]
  intro blank
  rw [Text.allBlank, List.all_eq_true] at blank
  have whole : ',' ∉ dataPath.toList := fun comma => absurd (blank ',' comma) (by decide)
  have only : parts dataPath = [Text.trim dataPath] := by
    rw [parts, Text.split, Text.splitList_of_not_mem whole, List.map_singleton, List.map_singleton,
      String.ofList_toList]
  rw [only, List.mem_singleton] at inside
  apply nonempty
  rw [inside, Text.trim, Text.trimChars, List.dropWhile_eq_nil_iff.2 blank]
  rfl

theorem exists_part_of_mem_normalize {dataPath path : String} {above : Option String}
    (inside : path ∈ normalize dataPath above) :
    ∃ part ∈ parts dataPath, path = anchor above part := by
  cases blank : Text.allBlank dataPath with
  | true =>
    rw [normalize_of_allBlank blank] at inside
    cases inside
  | false =>
    rw [normalize_of_present blank] at inside
    obtain ⟨part, listed, rfl⟩ := List.mem_map.1 inside
    exact ⟨part, listed, rfl⟩

/-- The paths at the lower end of a chain of data paths, the lowest first. -/
def along : List String → List String
  | [] => []
  | dataPath :: above => normalize dataPath (along above).head?

end DataBinding.Path
