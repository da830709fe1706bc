import DataBinding.Definition.Kind

/-!
# Content of definitions

What a definition carries because of its kind: its texts and flags, and the definitions that play a
role for it.
-/

namespace DataBinding

/-- Place of a definition in its forest. Places are never used again. -/
structure Handle where
  index : Nat
deriving DecidableEq, Inhabited

namespace Handle

def text (h : Handle) : String :=
  "#" ++ Nat.repr h.index

end Handle

inductive Content where
  | textItem (text : String)
  | input (label : String) (required : Bool)
  | dropdown (label : String) (required : Bool) (possibleValues : Option Handle)
  | checkbox (label : String)
  | button (label : String) (action : Option String)
  | component (name : String)
  | form (title : String) (header footer : Option Handle)
  | panel (title : String)
  | table (header details : Option Handle)
  | tree (details : Option Handle)
  | definitionList
deriving DecidableEq, Inhabited

namespace Content

def kind : Content → Kind
  | .textItem .. => .textItem
  | .input .. => .input
  | .dropdown .. => .dropdown
  | .checkbox .. => .checkbox
  | .button .. => .button
  | .component .. => .component
  | .form .. => .form
  | .panel .. => .panel
  | .table .. => .table
  | .tree .. => .tree
  | .definitionList => .definitionList

def isContainer (content : Content) : Bool :=
  content.kind.isContainer

/-- The text shown to people, of the kinds that have one. -/
def label? : Content → Option String
  | .input label _ | .dropdown label _ _ | .checkbox label | .button label _ => some label
  | .form title _ _ | .panel title => some title
  | .textItem text => some text
  | _ => none

/-- Must have a value. -/
def isRequired : Content → Bool
  | .input _ required | .dropdown _ required _ => required
  | _ => false

/-- Who plays a role. -/
def holder? : Content → Role → Option Handle
  | .dropdown _ _ possibleValues, .possibleValues => possibleValues
  | .form _ header _, .header | .table header _, .header => header
  | .form _ _ footer, .footer => footer
  | .table _ details, .details | .tree details, .details => details
  | _, _ => none

/-- Gives a role to a definition or to nobody, if the kind has that role. -/
def setHolder? : Content → Role → Option Handle → Option Content
  | .dropdown label required _, .possibleValues, h => some (.dropdown label required h)
  | .form title _ footer, .header, h => some (.form title h footer)
  | .form title header _, .footer, h => some (.form title header h)
  | .table _ details, .header, h => some (.table h details)
  | .table header _, .details, h => some (.table header h)
  | .tree _, .details, h => some (.tree h)
  | _, _, _ => none

/-- Every filled role with who fills it, in the order of the roles. -/
def holders (content : Content) : List (Role × Handle) :=
  content.kind.roles.filterMap fun role => (content.holder? role).map fun h => (role, h)

/-- Every filled role is passed on or given up. -/
def mapHolders (f : Handle → Option Handle) : Content → Content
  | .dropdown label required possibleValues => .dropdown label required (possibleValues.bind f)
  | .form title header footer => .form title (header.bind f) (footer.bind f)
  | .table header details => .table (header.bind f) (details.bind f)
  | .tree details => .tree (details.bind f)
  | content => content

end Content

end DataBinding
