import DataBinding.Binding.Diagnostic
import DataBinding.Binding.Pruning
import DataBinding.Binding.WriteBack
import DataBinding.Forest.Graft
import DataBinding.Host.Bundle
import DataBinding.Value.Text

/-!
# Observers

An observer is a bag of optional capabilities that the host injects. Lookups fall back to a neutral
answer when there is no observer or it lacks the capability; requests to the host are then reported
as missing and yield nothing. The host runs capabilities in a monad of its own.
-/

namespace DataBinding

/-- A definition with the data it reads, on its own. -/
structure Request where
  definition : Forest
  data : Data

/-- The bundle with which a request can be made again. -/
def Request.bundle (request : Request) : Bundle Forest :=
  { definition := request.definition, data := request.data }

/-- A definition that the host produced, with its data. -/
structure Remote where
  definition : Forest
  data : Data

/-- Says why a value is rejected, if it is. -/
abbrev Validator := Value → Option String

structure Observer (m : Type → Type) where
  getComponent : Option (String → Option String) := none
  getValidator : Option (String → Option Validator) := none
  openDefinition : Option (Request → m (List Value)) := none
  closeDefinition : Option (Forest → Handle → m Unit) := none
  definitionClosed : Option (Forest → Handle → Bool → m Unit) := none
  resolveDefinition : Option (Request → m (List Remote)) := none
  getDefaultRtc : Option (Option String) := none
  startOrder : Option (String → Request → m (List Value)) := none
  translate : Option (String → String) := none
  afterSetObserver : Option (Forest → Handle → m Unit) := none

/-- The observers behind their names. -/
abbrev Observers (m : Type → Type) := ObserverId → Observer m

namespace Observer

variable {m : Type → Type}

/-- Names of the capabilities that are there. -/
def capabilities (o : Observer m) : List String :=
  [("get_component", o.getComponent.isSome),
    ("get_validator", o.getValidator.isSome),
    ("open_definition", o.openDefinition.isSome),
    ("close_definition", o.closeDefinition.isSome),
    ("definition_closed", o.definitionClosed.isSome),
    ("resolve_definition", o.resolveDefinition.isSome),
    ("get_default_rtc", o.getDefaultRtc.isSome),
    ("start_order", o.startOrder.isSome),
    ("translate", o.translate.isSome),
    ("after_set_observer", o.afterSetObserver.isSome)].filterMap fun (name, there) =>
      if there then some name else none

def text (o : Observer m) : String :=
  "[" ++ String.intercalate ", " (o.capabilities.map Text.quote) ++ "]"

end Observer

/-- Tells an observer what it is to be told, if it listens. -/
def Notice.deliver {m : Type → Type} [Monad m] (observers : Observers m) : Notice → m Unit
  | .observing o f h =>
    match (observers o).afterSetObserver with
    | some hook => hook f h
    | none => pure ()
  | .closing o f h =>
    match (observers o).closeDefinition with
    | some hook => hook f h
    | none => pure ()
  | .closed o f h discarded =>
    match (observers o).definitionClosed with
    | some hook => hook f h discarded
    | none => pure ()

namespace Forest

variable {m : Type → Type}

/-- A capability of the observer that a definition holds. -/
def capability {α : Type} (f : Forest) (observers : Observers m) (h : Handle)
    (pick : Observer m → Option α) : Except Fault (Option α) :=
  (f.find h).map fun d => d.observer.bind fun o => pick (observers o)

/-- Without translation a text stands for itself. -/
def translate (f : Forest) (observers : Observers m) (h : Handle) (text : String) :
    Except Fault String := do
  match ← f.capability observers h (·.translate) with
  | some translation => return translation text
  | none => return text

/-- The component behind a definition that shows one. -/
def component (f : Forest) (observers : Observers m) (h : Handle) :
    Except Fault (Option String) := do
  match (← f.find h).content with
  | .component name =>
    return (← f.capability observers h (·.getComponent)).bind fun lookup => lookup name
  | _ => return none

def validator (f : Forest) (observers : Observers m) (h : Handle) (name : String) :
    Except Fault (Option Validator) := do
  return (← f.capability observers h (·.getValidator)).bind fun lookup => lookup name

def defaultRtc (f : Forest) (observers : Observers m) (h : Handle) :
    Except Fault (Option String) := do
  return (← f.capability observers h (·.getDefaultRtc)).join

/-- A snapshot of a definition with the data it reads. -/
def request (f : Forest) (h : Handle) (data : Data) : Except Fault Request := do
  return ⟨← f.extract h, ← f.prune h data⟩

/-- What a request to the host comes to: it runs, or the capability for it is missing. -/
inductive Asked (m : Type → Type) (α : Type) where
  | running (results : m (List α))
  | missing (diagnostic : Diagnostic)

/-- Runs a capability on the request of a definition. -/
def ask {α : Type} (f : Forest) (observers : Observers m) (h : Handle) (data : Data)
    (name : String) (pick : Observer m → Option (Request → m (List α))) :
    Except Fault (Asked m α) := do
  match ← f.capability observers h pick with
  | some run => return .running (run (← f.request h data))
  | none => return .missing (.missingCapability name (← f.identity h))

def openDefinition (f : Forest) (observers : Observers m) (h : Handle) (data : Data) :
    Except Fault (Asked m Value) :=
  f.ask observers h data "open_definition" (·.openDefinition)

def startOrder (f : Forest) (observers : Observers m) (h : Handle) (order : String) (data : Data) :
    Except Fault (Asked m Value) :=
  f.ask observers h data "start_order" fun o => o.startOrder.map fun start => start order

/-- Installs a bundle at the first branch of what the host produced. -/
def installBundle (b : Bundle Forest) (produced : Remote) : Remote :=
  match produced.definition.root? with
  | none => produced
  | some root =>
    match produced.definition.setBundle root b with
    | .ok definition => { produced with definition }
    | .error _ => produced

/-- Asks the host to resolve a definition. Everything it produces gets the bundle of the request, so
that it can be entered again. -/
def resolveDefinition [Monad m] (f : Forest) (observers : Observers m) (h : Handle) (data : Data) :
    Except Fault (Asked m Remote) :=
  f.ask observers h data "resolve_definition" fun o =>
    o.resolveDefinition.map fun resolve request =>
      return (← resolve request).map (installBundle request.bundle)

/-- Closes the surface that shows a definition; its edits may be discarded first. -/
def close (f : Forest) (h : Handle) (discarding : Bool) : Except Fault (Forest × List Notice) := do
  let f ← if discarding then f.clearEdits h else pure f
  match (← f.find h).observer with
  | some o => return (f, [.closing o f h, .closed o f h discarding])
  | none => return (f, [])

end Forest

end DataBinding
