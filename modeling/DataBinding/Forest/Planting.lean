import DataBinding.Blueprint.Reader
import DataBinding.Forest.Ownership

/-!
# Planting blueprints

A blueprint is planted from the top down: each definition has its owner, and its paths their scope,
before anything it owns is planted. A vocabulary says which kind a producer means by a name. When
planting fails, everything planted for that blueprint is removed again.
-/

namespace DataBinding

/-- Kind names of producers, the latest first. They go before the names of the kinds themselves. -/
structure Vocabulary where
  aliases : List (String × Kind) := []
deriving Inhabited

namespace Vocabulary

/-- Adds a name for a kind; an unknown kind adds nothing. -/
def add (v : Vocabulary) (producer kind : String) : Vocabulary :=
  match Kind.ofName? kind with
  | some kind => ⟨(producer, kind) :: v.aliases⟩
  | none => v

def kind? (v : Vocabulary) (name : String) : Option Kind :=
  v.aliases.lookup name <|> Kind.ofName? name

def kindOf (v : Vocabulary) (t : Traits) : Except DefinitionError Kind :=
  match v.kind? t.kind with
  | some kind => .ok kind
  | none => .error (.unknownKind t.key t.kind)

end Vocabulary

namespace Traits

def title? (t : Traits) : Option String :=
  t.title <|> t.label

def text? (t : Traits) : Option String :=
  t.text <|> t.label

/-- The content of a kind. Fields that the kind does not have are left out; a missing title or text
is taken from the label. -/
def content (t : Traits) : Kind → Content
  | .textItem => .textItem (t.text?.getD "")
  | .input => .input (t.label.getD "") t.required
  | .dropdown => .dropdown (t.label.getD "") t.required none
  | .checkbox => .checkbox (t.label.getD "")
  | .button => .button (t.label.getD "") t.action
  | .component => .component (t.component.getD "")
  | .form => .form (t.title?.getD "") none none
  | .panel => .panel (t.title?.getD "")
  | .table => .table none none
  | .tree => .tree none
  | .definitionList => .definitionList

def definition (t : Traits) (kind : Kind) : Entry :=
  { Definition.make (t.content kind) t.dataPath with
    key := t.key
    hidden := t.hidden
    hideIfEmpty := t.hideIfEmpty
    hideIfUndefined := t.hideIfUndefined
    validators := t.validators }

end Traits

/-- The owner of a definition to be planted, and the role it is to play. -/
abbrev Owner := Option (Handle × Option Role)

namespace Forest

/-- Gives a definition its owner. -/
def settle (f : Forest) (h : Handle) : Owner → Except DefinitionError Forest
  | none => .ok f
  | some (owner, none) => f.setParent h owner
  | some (owner, some role) => f.attach owner role h

/-- Result of planting: the forest even when planting failed, and what came of it. -/
abbrev Planted (α : Type) := Forest × Except DefinitionError α

/-- Removes a definition whose planting failed. -/
def withdraw {α : Type} (f : Forest) (h : Handle) (e : DefinitionError) : Planted α :=
  match f.remove h with
  | .ok f => (f, .error e)
  | .error cause => (f, .error (.fault cause))

/-- Continues with a forest in which everything so far has been planted. -/
def andThen {α β : Type} (planted : Planted α) (next : Forest → Planted β) : Planted β :=
  match planted with
  | (f, .ok _) => next f
  | (f, .error e) => (f, .error e)

mutual

def plantUnder (v : Vocabulary) (owner : Owner) (f : Forest) : Blueprint → Planted Handle
  | ⟨traits, children, header, footer, possibleValues, details⟩ =>
    match v.kindOf traits with
    | .error e => (f, .error e)
    | .ok kind =>
      let (h, f) := f.insert (traits.definition kind)
      match f.settle h owner with
      | .error e => f.withdraw h e
      | .ok f =>
        let planted :=
          andThen (plantChildren v h f children) fun f =>
          andThen (plantHolder v h .header f header) fun f =>
          andThen (plantHolder v h .footer f footer) fun f =>
          andThen (plantHolder v h .possibleValues f possibleValues) fun f =>
          plantHolder v h .details f details
        match planted with
        | (f, .ok _) => (f, .ok h)
        | (f, .error e) => f.withdraw h e

def plantChildren (v : Vocabulary) (owner : Handle) (f : Forest) : List Blueprint → Planted Unit
  | [] => (f, .ok ())
  | child :: rest =>
    andThen (plantUnder v (some (owner, none)) f child) fun f => plantChildren v owner f rest

def plantHolder (v : Vocabulary) (owner : Handle) (role : Role) (f : Forest) :
    Option Blueprint → Planted Unit
  | none => (f, .ok ())
  | some holder => andThen (plantUnder v (some (owner, some role)) f holder) fun f => (f, .ok ())

end

/-- Plants a blueprint without an owner. -/
def plant (f : Forest) (v : Vocabulary) (b : Blueprint) : Planted Handle :=
  plantUnder v none f b

/-- The forest of one blueprint. -/
def ofBlueprint (v : Vocabulary) (b : Blueprint) : Except DefinitionError Forest :=
  match empty.plant v b with
  | (f, .ok _) => .ok f
  | (_, .error e) => .error e

def ofRead (v : Vocabulary) :
    Except BlueprintError Blueprint → Except DefinitionError Forest
  | .ok b => ofBlueprint v b
  | .error cause => .error (.malformed cause)

/-- The forest of a blueprint given as JSON. -/
def ofJson (v : Vocabulary) (json : Json) : Except DefinitionError Forest :=
  ofRead v (Blueprint.ofJson json)

/-- The forest of a blueprint given as JSON text. -/
def ofText (v : Vocabulary) (text : String) : Except DefinitionError Forest :=
  ofRead v (Blueprint.ofText text)

end Forest

end DataBinding
