import DataBinding.Forest.Planting
import DataBinding.Proofs.Forest.Roles

/-!
# Plantings

Planting adds definitions without links, gives them their owner, and on failure removes what it has
added. What all of that keeps, planting keeps wherever it stops. In particular it keeps a forest
consistent.
-/

namespace DataBinding

theorem Traits.definition_bare (t : Traits) (kind : Kind) :
    (t.definition kind).belongings = [] ∧ (t.definition kind).parent = none ∧
      (t.definition kind).paths = Path.normalize (t.definition kind).dataPath none := by
  refine ⟨?_, rfl, rfl⟩
  cases kind <;> rfl

namespace Forest

variable {f g : Forest}

theorem Consistent.insert (consistent : f.Consistent) {d : Entry} (free : d.parent = none)
    (bare : d.belongings = []) (paths : d.paths = Path.normalize d.dataPath none) :
    (f.insert d).2.Consistent := by
  refine ⟨consistent.links.insert free bare, fun h e now => ?_⟩
  rcases cases_insert now with ⟨_, rfl⟩ | old
  · exact ⟨none, scopeAbove_of_free free, paths⟩
  · obtain ⟨above, under, anchored⟩ := consistent.paths h e old
    refine ⟨above, scopeAbove_congr under rfl fun owner owned => ?_, anchored⟩
    obtain ⟨o, there, _⟩ := consistent.links.owner_lists_once old owned
    rw [get?_insert_of_found there, there]

theorem Consistent.settle {h : Handle} {owner : Owner} (consistent : f.Consistent)
    (run : f.settle h owner = .ok g) : g.Consistent := by
  match owner with
  | none =>
    cases run
    exact consistent
  | some (owner, none) => exact consistent.setParent run
  | some (owner, some role) => exact consistent.attach run

/-- What planting cannot lose: new definitions without links, their settling and their removal keep
it. -/
structure Lasting (good : Forest → Prop) : Prop where
  insert : ∀ {f : Forest} (t : Traits) (kind : Kind), good f → good (f.insert (t.definition kind)).2
  settle : ∀ {f g : Forest} {h : Handle} {owner : Owner}, good f → f.settle h owner = .ok g → good g
  remove : ∀ {f g : Forest} {h : Handle}, good f → f.remove h = .ok g → good g

theorem lasting_consistent : Lasting Consistent where
  insert t kind consistent := by
    obtain ⟨bare, free, paths⟩ := t.definition_bare kind
    exact consistent.insert free bare paths
  settle := .settle
  remove := .remove

theorem andThen_keeps {α β : Type} {good : Forest → Prop} {planted : Planted α}
    {next : Forest → Planted β} (first : good planted.1)
    (later : ∀ {f}, good f → good (next f).1) : good (andThen planted next).1 := by
  obtain ⟨f, outcome⟩ := planted
  cases outcome with
  | ok a => exact later first
  | error e => exact first

theorem andThen_done (planted : Planted Unit) : andThen planted (fun f => (f, .ok ())) = planted := by
  obtain ⟨f, outcome⟩ := planted
  cases outcome <;> rfl

def plantHolders (v : Vocabulary) (h : Handle) (b : Blueprint) : Forest → List Role → Planted Unit
  | f, [] => (f, .ok ())
  | f, role :: rest =>
    andThen (plantHolder v h role f (b.holder? role)) fun f => plantHolders v h b f rest

def plantOwned (v : Vocabulary) (h : Handle) (f : Forest) (b : Blueprint) : Planted Unit :=
  andThen (plantChildren v h f b.children) fun f => plantHolders v h b f Role.all

def keep (h : Handle) (planted : Planted Unit) : Planted Handle :=
  match planted with
  | (f, .ok _) => (f, .ok h)
  | (f, .error e) => f.withdraw h e

theorem plantUnder_eq (v : Vocabulary) (owner : Owner) (f : Forest) (b : Blueprint) :
    plantUnder v owner f b =
      match v.kindOf b.traits with
      | .error e => (f, .error e)
      | .ok kind =>
        match (f.insert (b.traits.definition kind)).2.settle ⟨f.capacity⟩ owner with
        | .error e => (f.insert (b.traits.definition kind)).2.withdraw ⟨f.capacity⟩ e
        | .ok settled => keep ⟨f.capacity⟩ (plantOwned v ⟨f.capacity⟩ settled b) := by
  obtain ⟨traits, children, header, footer, possibleValues, details⟩ := b
  rw [plantUnder]
  simp only [plantOwned, plantHolders, Role.all, andThen_done]
  rfl

namespace Lasting

variable {good : Forest → Prop}

theorem withdraw (lasting : Lasting good) {α : Type} (now : good f) (h : Handle)
    (e : DefinitionError) : good (f.withdraw h e : Planted α).1 := by
  unfold Forest.withdraw
  split
  case h_1 removed run => exact lasting.remove now run
  case h_2 => exact now

theorem keep (lasting : Lasting good) {h : Handle} {planted : Planted Unit} (now : good planted.1) :
    good (keep h planted).1 := by
  obtain ⟨f, outcome⟩ := planted
  cases outcome with
  | ok a => exact now
  | error e => exact lasting.withdraw now h e

mutual

theorem plantUnder (lasting : Lasting good) (v : Vocabulary) (owner : Owner) {f : Forest}
    (now : good f) : (b : Blueprint) → good (plantUnder v owner f b).1
  | ⟨traits, children, header, footer, possibleValues, details⟩ => by
    rw [plantUnder_eq]
    cases v.kindOf traits with
    | error e => exact now
    | ok kind =>
      have inserted := lasting.insert traits kind now
      cases run : (f.insert (traits.definition kind)).2.settle ⟨f.capacity⟩ owner with
      | error e => simpa only [run] using lasting.withdraw inserted _ e
      | ok settled =>
        simp only [run]
        have settles := lasting.settle inserted run
        refine lasting.keep (andThen_keeps (plantChildren lasting v _ settles children) fun first => ?_)
        refine andThen_keeps (plantHolder lasting v _ .header first header) fun second => ?_
        refine andThen_keeps (plantHolder lasting v _ .footer second footer) fun third => ?_
        refine andThen_keeps (plantHolder lasting v _ _ third possibleValues) fun fourth => ?_
        exact andThen_keeps (plantHolder lasting v _ .details fourth details) id

theorem plantChildren (lasting : Lasting good) (v : Vocabulary) (owner : Handle) {f : Forest}
    (now : good f) : (children : List Blueprint) → good (plantChildren v owner f children).1
  | [] => now
  | child :: rest => by
    rw [Forest.plantChildren]
    exact andThen_keeps (plantUnder lasting v _ now child) fun settled =>
      plantChildren lasting v owner settled rest

theorem plantHolder (lasting : Lasting good) (v : Vocabulary) (owner : Handle) (role : Role)
    {f : Forest} (now : good f) :
    (holder : Option Blueprint) → good (plantHolder v owner role f holder).1
  | none => now
  | some holder => by
    rw [Forest.plantHolder]
    exact andThen_keeps (plantUnder lasting v _ now holder) id

end

end Lasting

theorem Consistent.plantUnder (v : Vocabulary) (owner : Owner) (consistent : f.Consistent)
    (b : Blueprint) : (Forest.plantUnder v owner f b).1.Consistent :=
  lasting_consistent.plantUnder v owner consistent b

end Forest

end DataBinding
