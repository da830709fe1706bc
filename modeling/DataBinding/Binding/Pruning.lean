import DataBinding.Forest.Basic
import DataBinding.Json.Basic
import DataBinding.Json.Lookup
import DataBinding.Path.Address

/-!
# Pruning data

Data is reduced to what a list of paths reads. A member of an element survives when some path
anchored at that element starts with its name; segments are compared whole. A path that names the
element alone keeps all of it.
-/

namespace DataBinding

/-- The text before the first dot. -/
def firstSegment (inside : String) : String :=
  (Text.split '.' inside).headD ""

namespace Data

/-- First segments of the paths anchored at an element. -/
def heads (paths : List String) (index : Nat) : List String :=
  paths.filterMap fun path =>
    match Address.parse path with
    | .ok (.element anchor inside) =>
      if anchor.toNat = index then some (firstSegment inside) else none
    | _ => none

/-- Erases the members that none of the segments names, unless one of them is empty. -/
def pruneElement (heads : List String) (json : Json) : Json :=
  if "" ∈ heads then json
  else (json.keys.filter fun key => key ∉ heads).foldl (fun json key => json.eraseKey key) json

/-- Without paths everything is kept. -/
def prune (paths : List String) (data : Data) : Data :=
  if paths.isEmpty then data
  else data.mapIdx fun index element => element.map (pruneElement (heads paths index))

end Data

namespace Forest

/-- The data that a definition reads. -/
def prune (f : Forest) (h : Handle) (data : Data) : Except Fault Data :=
  (f.find h).map fun d => Data.prune d.paths data

end Forest

end DataBinding
