import DataBinding.Text.Basic

/-!
# Scoping of data paths

A definition is authored with a raw data path: parts between commas, each either anchored at an
element of the data with `%`, or relative to the definition above. Scoping turns every part into an
anchored path. A part that stays relative is anchored at the first element.
-/

namespace DataBinding.Path

/-- The anchor of parts that have no other. -/
def implicitAnchor : String :=
  "%0%"

def isAnchored (path : String) : Bool :=
  path.toList.head? = some '%'

/-- Two paths with a dot between them, or one of them alone if the other is empty. -/
def join (head tail : String) : String :=
  if head = "" then tail
  else if tail = "" then head
  else head ++ "." ++ tail

/-- A part below the path of the definition above, unless it has an anchor of its own. -/
def below (above : Option String) (part : String) : String :=
  if isAnchored part then part
  else match above with
    | some path => join path part
    | none => part

/-- A part with an anchor: its own, the one of the path above, or the implicit one. -/
def anchor (above : Option String) (part : String) : String :=
  if isAnchored (below above part) then below above part
  else join implicitAnchor (below above part)

/-- The anchored parts of a raw data path in order. A blank path has none. -/
def normalize (dataPath : String) (above : Option String) : List String :=
  if Text.allBlank dataPath then []
  else (Text.split ',' dataPath).map fun part => anchor above (Text.trim part)

theorem isAnchored_iff {path : String} : isAnchored path = true ↔ path.toList.head? = some '%' := by
  simp [isAnchored]

theorem isAnchored_append {path : String} (anchored : isAnchored path = true) (tail : String) :
    isAnchored (path ++ tail) = true := by
  rw [isAnchored_iff] at anchored ⊢
  rw [String.toList_append, List.head?_append, anchored]
  rfl

/-- A part always comes out anchored. -/
theorem isAnchored_anchor (above : Option String) (part : String) :
    isAnchored (anchor above part) = true := by
  unfold anchor
  split
  · assumption
  · unfold join
    rw [if_neg (by decide)]
    split
    · decide
    · rw [String.append_assoc]
      exact isAnchored_append (by decide) _

/-- A part with an anchor of its own stays as it is. -/
theorem anchor_of_isAnchored {part : String} (anchored : isAnchored part = true)
    (above : Option String) : anchor above part = part := by
  simp [anchor, below, anchored]

theorem normalize_of_allBlank {dataPath : String} (blank : Text.allBlank dataPath = true)
    (above : Option String) : normalize dataPath above = [] := by
  simp [normalize, blank]

end DataBinding.Path
