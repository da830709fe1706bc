import DataBinding.Blueprint.Writer
import DataBinding.Forest.Branch

/-!
# Surveying branches

The blueprint of a branch: what planting would need to build it again.
-/

namespace DataBinding

namespace Traits

/-- The fields that come from the content. -/
def withContent (t : Traits) : Content → Traits
  | .textItem text => { t with text := some text }
  | .input label required | .dropdown label required _ => { t with label := some label, required }
  | .checkbox label => { t with label := some label }
  | .button label action => { t with label := some label, action }
  | .component name => { t with component := some name }
  | .form title _ _ | .panel title => { t with title := some title }
  | .table .. | .tree _ | .definitionList => t

def ofDefinition (d : Entry) : Traits :=
  withContent
    { kind := d.kind.name
      key := d.key
      dataPath := d.dataPath
      hidden := d.hidden
      hideIfEmpty := d.hideIfEmpty
      hideIfUndefined := d.hideIfUndefined
      validators := d.validators }
    d.content

end Traits

def Branch.blueprint (branch : Branch) : Blueprint :=
  branch.fold fun _ _ d below =>
    { traits := .ofDefinition d
      children := below.children
      header := below.holder? .header
      footer := below.holder? .footer
      possibleValues := below.holder? .possibleValues
      details := below.holder? .details }

namespace Forest

def blueprint (f : Forest) (h : Handle) : Except Fault Blueprint :=
  (f.branch h).map Branch.blueprint

/-- The JSON form of a branch. -/
def toJson (f : Forest) (h : Handle) : Except Fault Json :=
  (f.blueprint h).map Blueprint.toJson

end Forest

end DataBinding
