import DataBinding.Forest.Basic

/-!
# Lineage and identity

The lineage of a definition runs from itself up to a definition without an owner. A definition is
identified by its key, or without one by the way down to it: the positions and roles that lead from
the top.
-/

namespace DataBinding

namespace Definition

variable {F : Type}

/-- Where a definition is found in its owner: its position among the children or its role. -/
def segment (owner : Definition F) (h : Handle) : String :=
  match owner.children.idxOf? h with
  | some position => Nat.repr position
  | none =>
    match owner.content.holders.find? fun holder => holder.2 = h with
    | some (role, _) => role.name
    | none => ""

end Definition

namespace Forest

def lineageWithin (f : Forest) : Nat → Handle → Except Fault (List Handle)
  | 0, h => .error (.endless h)
  | length + 1, h =>
    match (f.get? h).bind (·.parent) with
    | none => .ok [h]
    | some parent => (f.lineageWithin length parent).map (h :: ·)

/-- A definition, its owner, the owner of that one, and so on. -/
def lineage (f : Forest) (h : Handle) : Except Fault (List Handle) :=
  f.lineageWithin (f.capacity + 1) h

/-- The segments along a lineage, from the bottom up. -/
def segmentsUp (f : Forest) : List Handle → Except Fault (List String)
  | h :: owner :: rest => do
    let d ← f.find owner
    let above ← f.segmentsUp (owner :: rest)
    return d.segment h :: above
  | _ => .ok []

/-- The key, or the segments from the top behind slashes. -/
def identity (f : Forest) (h : Handle) : Except Fault String := do
  let d ← f.find h
  match d.key.filter (· ≠ "") with
  | some key => return key
  | none =>
    let segments ← f.segmentsUp (← f.lineage h)
    return "/" ++ String.intercalate "/" segments.reverse

/-- The first definition with an identity. -/
def withIdentity? (f : Forest) (identity : String) : Except Fault (Option Handle) :=
  f.handles.findM? fun h => do return (← f.identity h) = identity

end Forest

end DataBinding
