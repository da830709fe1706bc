import DataBinding.Definition.Kind

/-!
# Blueprints

A blueprint is the nested form in which definitions are produced and stored: all fields that any
kind may have, and the blueprints of what the definition owns.
-/

namespace DataBinding

/-- The fields of a blueprint that hold no other blueprint. -/
structure Traits where
  kind : String
  key : Option String := none
  dataPath : String := ""
  hidden : Bool := false
  hideIfEmpty : Bool := false
  hideIfUndefined : Bool := false
  label : Option String := none
  title : Option String := none
  text : Option String := none
  required : Bool := false
  component : Option String := none
  action : Option String := none
  validators : List String := []
deriving DecidableEq, Inhabited

structure Blueprint where
  traits : Traits
  children : List Blueprint := []
  header : Option Blueprint := none
  footer : Option Blueprint := none
  possibleValues : Option Blueprint := none
  details : Option Blueprint := none
deriving Inhabited

namespace Blueprint

/-- A blueprint of a kind with nothing else set. -/
def ofKind (kind : String) : Blueprint :=
  { traits := { kind } }

/-- Gives a role to a blueprint. -/
def setHolder (b : Blueprint) (role : Role) (holder : Option Blueprint) : Blueprint :=
  match role with
  | .header => { b with header := holder }
  | .footer => { b with footer := holder }
  | .possibleValues => { b with possibleValues := holder }
  | .details => { b with details := holder }

/-- Who plays a role for a blueprint. -/
def holder? (b : Blueprint) : Role → Option Blueprint
  | .header => b.header
  | .footer => b.footer
  | .possibleValues => b.possibleValues
  | .details => b.details

end Blueprint

end DataBinding
