import DataBinding.Json.Write
import DataBinding.Path.Address
import DataBinding.Text.Quoted

/-!
# Diagnostics

What can go wrong between definitions and data without stopping anything: the forest stays usable,
and the host may show or log what happened.
-/

namespace DataBinding

/-- Why an anchored path found no element. -/
inductive PathProblem where
  | address (cause : AddressError)
  | emptyElement (index : UInt64)
  | outOfRange (index : UInt64)
deriving DecidableEq

/-- Why nothing was written through a definition. -/
inductive WriteObstacle where
  | pathCount (count : Nat)
  | notIndexed (path : String)
  | address (cause : AddressError)
  | wholeElement (index : UInt64)
  | noElement (index : UInt64) (available : Nat)
  | noContainer (inside last : String)
  | refused (cause : WriteError)
deriving DecidableEq

inductive Diagnostic where
  | unresolvedPath (path : String) (available : Nat) (problem : PathProblem)
  | missingCapability (capability definition : String)
  | skippedWrite (definition : String) (obstacle : WriteObstacle)
deriving DecidableEq

private def decimal (n : UInt64) : String :=
  Nat.repr n.toNat

namespace PathProblem

def message : PathProblem → String
  | .address cause => cause.message
  | .emptyElement index => "element " ++ decimal index ++ " is empty"
  | .outOfRange index => "index " ++ decimal index ++ " is out of range"

end PathProblem

namespace WriteObstacle

def message : WriteObstacle → String
  | .pathCount count => "expected exactly one path, found " ++ Nat.repr count
  | .notIndexed path => "path '" ++ path ++ "' is not indexed"
  | .address cause => cause.message
  | .wholeElement index => "path '" ++ Address.anchorText index ++ "' addresses a whole element"
  | .noElement index available =>
    "no data element at index " ++ decimal index ++ " of " ++ Nat.repr available
  | .noContainer inside last => "'" ++ inside ++ "' has no container for '" ++ last ++ "'"
  | .refused cause => cause.message

end WriteObstacle

namespace Diagnostic

def message : Diagnostic → String
  | .unresolvedPath path available problem =>
    "Path '" ++ path ++ "' could not be resolved against " ++ Nat.repr available ++
      " data object(s): " ++ problem.message
  | .missingCapability capability definition =>
    "Observer capability '" ++ capability ++ "' is not available on definition '" ++
      definition ++ "'"
  | .skippedWrite definition obstacle =>
    "Cannot assign through definition '" ++ definition ++ "': " ++ obstacle.message

end Diagnostic

end DataBinding
