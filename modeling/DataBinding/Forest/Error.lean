import DataBinding.Blueprint.Field
import DataBinding.Forest.Basic

/-!
# Errors of structural changes

Why a blueprint is not taken into a forest, or a change of ownership is refused.
-/

namespace DataBinding

inductive DefinitionError where
  | malformed (cause : BlueprintError)
  | unknownKind (key : Option String) (kind : String)
  | alreadyParented (child current requested : Handle)
  | cyclicParent (child parent : Handle)
  | unknownDefinition (h : Handle)
  | notAContainer (h : Handle)
  | noSuchRole (owner : Handle) (role : Role)
  | nothingToGraft
  | fault (cause : Fault)

namespace DefinitionError

private def number (h : Handle) : String :=
  Nat.repr h.index

def message : DefinitionError → String
  | .malformed cause => "Failed to parse definition JSON: " ++ cause.message
  | .unknownKind key kind =>
    "Definition '" ++ key.getD "N/A" ++ "' has an unregistered or invalid kind: '" ++ kind ++ "'"
  | .alreadyParented child current requested =>
    "Definition " ++ number child ++ " already has parent " ++ number current ++
      ", refusing to re-parent it under " ++ number requested
  | .cyclicParent child parent =>
    "Definition " ++ number parent ++ " lies inside the subtree of " ++ number child ++
      " and cannot become its parent"
  | .unknownDefinition h => "Definition " ++ number h ++ " does not exist in this tree"
  | .notAContainer h => "Definition " ++ number h ++ " is not a container and cannot own children"
  | .noSuchRole owner role =>
    "Definition " ++ number owner ++ " has no auxiliary slot named '" ++ role.name ++ "'"
  | .nothingToGraft => "Invalid custom definition: cannot graft an empty definition tree"
  | .fault cause => cause.message

end DefinitionError

/-- A fault met during a structural change is one way for it to fail. -/
def Fault.lift {α : Type} : Except Fault α → Except DefinitionError α
  | .ok a => .ok a
  | .error cause => .error (.fault cause)

instance : MonadLift (Except Fault) (Except DefinitionError) where
  monadLift := Fault.lift

end DataBinding
