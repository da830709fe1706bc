import DataBinding.Blueprint.Basic
import DataBinding.Json.Basic

/-!
# Writing blueprints as JSON

Every field has a member of its own; the kind is always written, and other fields only when they are
set. Members come in the order of their names.
-/

namespace DataBinding.Blueprint

def textField (name : String) : Option String → Members Json
  | some s => [(name, .string s)]
  | none => []

def flagField (name : String) (flag : Bool) : Members Json :=
  if flag then [(name, .bool true)] else []

def listField (name : String) : List Json → Members Json
  | [] => []
  | items => [(name, .array items)]

def pathField (path : String) : Members Json :=
  if path = "" then [] else [("dataPath", .string path)]

mutual

def toJson : Blueprint → Json
  | ⟨t, children, header, footer, possibleValues, details⟩ =>
    .object <|
      textField "action" t.action ++
      listField "children" (childrenJson children) ++
      textField "component" t.component ++
      pathField t.dataPath ++
      holderField "details" details ++
      holderField "footer" footer ++
      holderField "header" header ++
      flagField "hidden" t.hidden ++
      flagField "hideIfEmpty" t.hideIfEmpty ++
      flagField "hideIfUndefined" t.hideIfUndefined ++
      textField "key" t.key ++
      [("kind", .string t.kind)] ++
      textField "label" t.label ++
      holderField "possibleValues" possibleValues ++
      flagField "required" t.required ++
      textField "text" t.text ++
      textField "title" t.title ++
      listField "validators" (t.validators.map .string)

def childrenJson : List Blueprint → List Json
  | [] => []
  | child :: rest => child.toJson :: childrenJson rest

def holderField (name : String) : Option Blueprint → Members Json
  | none => []
  | some holder => [(name, holder.toJson)]

end

end DataBinding.Blueprint
