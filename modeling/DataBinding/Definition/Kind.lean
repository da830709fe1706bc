/-!
# Kinds of definitions

The kind of a definition decides whether it owns an ordered list of children and which roles other
definitions can play for it beside that list.
-/

namespace DataBinding

/-- What a definition can be to its owner when it is not one of the children. -/
inductive Role where
  | header
  | footer
  | possibleValues
  | details
deriving DecidableEq

namespace Role

def all : List Role :=
  [.header, .footer, .possibleValues, .details]

def name : Role → String
  | .header => "header"
  | .footer => "footer"
  | .possibleValues => "possibleValues"
  | .details => "details"

def ofName? (name : String) : Option Role :=
  all.find? fun role => role.name = name

end Role

inductive Kind where
  | textItem
  | input
  | dropdown
  | checkbox
  | button
  | component
  | form
  | panel
  | table
  | tree
  | definitionList
deriving DecidableEq

namespace Kind

def all : List Kind :=
  [.textItem, .input, .dropdown, .checkbox, .button, .component, .form, .panel, .table, .tree,
    .definitionList]

def name : Kind → String
  | .textItem => "textItem"
  | .input => "input"
  | .dropdown => "dropdown"
  | .checkbox => "checkbox"
  | .button => "button"
  | .component => "component"
  | .form => "form"
  | .panel => "panel"
  | .table => "table"
  | .tree => "tree"
  | .definitionList => "definitionList"

def ofName? (name : String) : Option Kind :=
  all.find? fun kind => kind.name = name

/-- Containers own children. -/
def isContainer : Kind → Bool
  | .form | .panel | .table | .tree | .definitionList => true
  | _ => false

/-- The roles that definitions can play for this kind, in their fixed order. -/
def roles : Kind → List Role
  | .dropdown => [.possibleValues]
  | .form => [.header, .footer]
  | .table => [.header, .details]
  | .tree => [.details]
  | _ => []

end Kind

end DataBinding
