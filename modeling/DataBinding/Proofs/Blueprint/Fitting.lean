import DataBinding.Proofs.Blueprint.Canonical

/-!
# Blueprints that fit

What the names of kinds mean once a producer has added words of its own, which blueprints can be
planted with that meaning, what the first thing is that is wrong with one that cannot, and how a
blueprint reads with everything said in full. None of this looks at a forest.
-/

namespace DataBinding

abbrev Meaning := String → Option Kind

/-- The meaning of names to a producer who has added words, each for the name of a kind. The last word
for a kind that is known counts, and it goes before a kind of that name. -/
def meaning (words : List (String × String)) : Meaning := fun name =>
  (words.reverse.findSome? fun word => if word.1 = name then Kind.ofName? word.2 else none).or
    (Kind.ofName? name)

/-- The latest word for a known kind counts, and a word may take the name of another kind. -/
example : meaning [("input", "panel"), ("input", "form"), ("input", "unheard")] "input" =
    some .form := by
  decide

namespace Vocabulary

/-- The vocabulary of a producer who adds words one after the other. -/
def ofWords (words : List (String × String)) : Vocabulary :=
  words.foldl (fun v word => v.add word.1 word.2) {}

theorem lookup_aliases_add (v : Vocabulary) (word : String × String) (name : String) :
    (v.add word.1 word.2).aliases.lookup name =
      (if word.1 = name then Kind.ofName? word.2 else none).or (v.aliases.lookup name) := by
  unfold add
  cases Kind.ofName? word.2 with
  | none => simp
  | some kind =>
    by_cases same : word.1 = name
    · simp [same]
    · have differ : (name == word.1) = false := beq_eq_false_iff_ne.2 (Ne.symm same)
      simp [same, List.lookup_cons, differ]

theorem lookup_aliases_foldl (words : List (String × String)) (v : Vocabulary) (name : String) :
    (words.foldl (fun v word => v.add word.1 word.2) v).aliases.lookup name =
      (words.reverse.findSome? fun word => if word.1 = name then Kind.ofName? word.2 else none).or
        (v.aliases.lookup name) := by
  induction words generalizing v with
  | nil => rfl
  | cons word rest ih =>
    rw [List.foldl_cons, ih, lookup_aliases_add, List.reverse_cons, List.findSome?_append,
      List.findSome?_singleton, Option.or_assoc]

theorem kind?_ofWords (words : List (String × String)) :
    (ofWords words).kind? = meaning words := by
  funext name
  rw [kind?, ofWords, lookup_aliases_foldl, Option.orElse_eq_orElse, Option.orElse_eq_or]
  show (Option.or _ none).or _ = _
  rw [Option.or_none]
  rfl

end Vocabulary

namespace Traits

/-- The traits under the name of a kind: the fields that the kind has, filled where nothing is given,
and none of the others. A title or text that is missing is taken from the label. -/
def fitted (kind : Kind) (t : Traits) : Traits :=
  { kind := kind.name
    key := t.key
    dataPath := t.dataPath
    hidden := t.hidden
    hideIfEmpty := t.hideIfEmpty
    hideIfUndefined := t.hideIfUndefined
    label := if kind ∈ [.input, .dropdown, .checkbox, .button] then some (t.label.getD "") else none
    title := if kind ∈ [.form, .panel] then some ((t.title.or t.label).getD "") else none
    text := if kind = .textItem then some ((t.text.or t.label).getD "") else none
    required := if kind ∈ [.input, .dropdown] then t.required else false
    component := if kind = .component then some (t.component.getD "") else none
    action := if kind = .button then t.action else none
    validators := t.validators }

def understood (known : Meaning) (t : Traits) : Traits :=
  match known t.kind with
  | some kind => t.fitted kind
  | none => t

theorem ofDefinition_definition (t : Traits) (kind : Kind) :
    ofDefinition (t.definition kind) = t.fitted kind := by
  obtain ⟨_, _, _, _, _, _, label, title, text⟩ := t
  cases kind <;> cases label <;> cases title <;> cases text <;> rfl

theorem canonical_eq_understood (v : Vocabulary) (t : Traits) :
    t.canonical v = t.understood v.kind? := by
  rw [canonical, understood, Vocabulary.kindOf]
  cases v.kind? t.kind with
  | some kind => exact ofDefinition_definition t kind
  | none => rfl

end Traits

/-! ### Blueprints said in full -/

namespace Blueprint

mutual

def mapTraits (change : Traits → Traits) : Blueprint → Blueprint
  | ⟨t, children, header, footer, possibleValues, details⟩ =>
    { traits := change t
      children := mapChildren change children
      header := mapHolder change header
      footer := mapHolder change footer
      possibleValues := mapHolder change possibleValues
      details := mapHolder change details }

def mapChildren (change : Traits → Traits) : List Blueprint → List Blueprint
  | [] => []
  | child :: rest => child.mapTraits change :: mapChildren change rest

def mapHolder (change : Traits → Traits) : Option Blueprint → Option Blueprint
  | none => none
  | some holder => some (holder.mapTraits change)

end

section Canonical

variable (v : Vocabulary)

mutual

theorem canonical_eq_mapTraits : (b : Blueprint) →
    b.canonical v = b.mapTraits (Traits.understood v.kind?)
  | ⟨t, children, header, footer, possibleValues, details⟩ => by
    rw [canonical, mapTraits, Traits.canonical_eq_understood, canonicalChildren_eq_mapChildren,
      canonicalHolder_eq_mapHolder header, canonicalHolder_eq_mapHolder footer,
      canonicalHolder_eq_mapHolder possibleValues, canonicalHolder_eq_mapHolder details]

theorem canonicalChildren_eq_mapChildren : (children : List Blueprint) →
    canonicalChildren v children = mapChildren (Traits.understood v.kind?) children
  | [] => rfl
  | child :: rest => by
    rw [canonicalChildren, mapChildren, canonical_eq_mapTraits child,
      canonicalChildren_eq_mapChildren rest]

theorem canonicalHolder_eq_mapHolder : (holder : Option Blueprint) →
    canonicalHolder v holder = mapHolder (Traits.understood v.kind?) holder
  | none => rfl
  | some holder => by rw [canonicalHolder, mapHolder, canonical_eq_mapTraits holder]

end

end Canonical

/-! ### What fits -/

/-- A blueprint by itself has a kind that is known, and owns only what the kind has room for. -/
def Fits (known : Meaning) (b : Blueprint) : Prop :=
  ∃ kind, known b.traits.kind = some kind ∧ (b.children ≠ [] → kind.isContainer = true) ∧
    ∀ role, (b.holder? role).isSome → role ∈ kind.roles

inductive Nested : Blueprint → Blueprint → Prop
  | self (b : Blueprint) : Nested b b
  | owned {b c : Blueprint} {piece : Option Role × Blueprint} (inside : piece ∈ b.pieces)
    (nested : Nested c piece.2) : Nested c b

def WellFormed (known : Meaning) (b : Blueprint) : Prop :=
  ∀ c, Nested c b → c.Fits known

theorem wellFormed_iff {known : Meaning} {b : Blueprint} :
    b.WellFormed known ↔ b.Fits known ∧ ∀ piece ∈ b.pieces, piece.2.WellFormed known := by
  constructor
  · intro all
    exact ⟨all b (.self b), fun piece inside c nested => all c (.owned inside nested)⟩
  · rintro ⟨own, below⟩ c nested
    cases nested with
    | self => exact own
    | owned inside nested => exact below _ inside c nested

end Blueprint

/-! ### The first thing wrong -/

/-- The owner of a blueprint: its place, its traits, and the role that it gives to the blueprint. -/
structure Above where
  place : Nat
  traits : Traits
  role : Option Role

/-- Where a blueprint stands among others: its traits and its owner. -/
structure Site where
  traits : Traits
  above : Option Above

def Above.refusal? (known : Meaning) (above : Above) : Option DefinitionError :=
  (known above.traits.kind).bind fun kind =>
    match above.role with
    | none => if kind.isContainer then none else some (.notAContainer ⟨above.place⟩)
    | some role => if role ∈ kind.roles then none else some (.noSuchRole ⟨above.place⟩ role)

def Site.problem? (known : Meaning) (site : Site) : Option DefinitionError :=
  match known site.traits.kind with
  | none => some (.unknownKind site.traits.key site.traits.kind)
  | some _ => site.above.bind fun above => above.refusal? known

namespace Blueprint

mutual

/-- The sites of a blueprint and of all that it owns, each before what it owns in turn. They take
places one after the other. -/
def sitesFrom (above : Option Above) (place : Nat) : Blueprint → List Site
  | ⟨t, children, header, footer, possibleValues, details⟩ =>
    holderSites place t .details details <|
    holderSites place t .possibleValues possibleValues <|
    holderSites place t .footer footer <|
    holderSites place t .header header <|
    childSites place t children [⟨t, above⟩]

def childSites (place : Nat) (t : Traits) : List Blueprint → List Site → List Site
  | [], sites => sites
  | child :: rest, sites =>
    childSites place t rest
      (sites ++ sitesFrom (some ⟨place, t, none⟩) (place + sites.length) child)

def holderSites (place : Nat) (t : Traits) (role : Role) : Option Blueprint → List Site → List Site
  | none, sites => sites
  | some holder, sites =>
    sites ++ sitesFrom (some ⟨place, t, some role⟩) (place + sites.length) holder

end

def sites (b : Blueprint) : List Site :=
  b.sitesFrom none 0

def problem? (known : Meaning) (b : Blueprint) : Option DefinitionError :=
  b.sites.findSome? (Site.problem? known)

def pieceSites (place : Nat) (t : Traits) (sites : List Site) (piece : Option Role × Blueprint) :
    List Site :=
  sites ++ piece.2.sitesFrom (some ⟨place, t, piece.1⟩) (place + sites.length)

theorem childSites_eq_foldl (place : Nat) (t : Traits) (children : List Blueprint)
    (sites : List Site) : childSites place t children sites =
      (children.map (none, ·)).foldl (pieceSites place t) sites := by
  induction children generalizing sites with
  | nil => rfl
  | cons child rest ih => rw [childSites, ih, List.map_cons, List.foldl_cons, pieceSites]

theorem holderSites_eq_foldl (place : Nat) (t : Traits) (role : Role) (holder : Option Blueprint)
    (sites : List Site) : holderSites place t role holder sites =
      (holder.map (some role, ·)).toList.foldl (pieceSites place t) sites := by
  cases holder <;> rfl

theorem sitesFrom_eq_foldl (above : Option Above) (place : Nat) (b : Blueprint) :
    b.sitesFrom above place =
      b.pieces.foldl (pieceSites place b.traits) [⟨b.traits, above⟩] := by
  obtain ⟨t, children, header, footer, possibleValues, details⟩ := b
  have holders : (Blueprint.mk t children header footer possibleValues details).pieces =
      children.map (none, ·) ++ (header.map (some .header, ·)).toList ++
        (footer.map (some .footer, ·)).toList ++
        (possibleValues.map (some .possibleValues, ·)).toList ++
        (details.map (some .details, ·)).toList := by
    simp only [pieces, Role.all, holder?]
    cases header <;> cases footer <;> cases possibleValues <;> cases details <;> simp
  rw [sitesFrom, holders]
  simp only [List.foldl_append, childSites_eq_foldl, holderSites_eq_foldl]

section Problems

variable {known : Meaning} {place : Nat} {t : Traits}

theorem findSome?_foldl_pieceSites {pieces : List (Option Role × Blueprint)} {sites : List Site}
    {e : DefinitionError} (wrong : sites.findSome? (Site.problem? known) = some e) :
    (pieces.foldl (pieceSites place t) sites).findSome? (Site.problem? known) = some e := by
  induction pieces generalizing sites with
  | nil => exact wrong
  | cons piece rest ih =>
    refine ih ?_
    rw [pieceSites, List.findSome?_append, wrong, Option.some_or]

/-- Pieces of which each fits, and which their owner has room for, add nothing wrong. -/
theorem findSome?_foldl_pieceSites_eq_none_iff {pieces : List (Option Role × Blueprint)}
    (each : ∀ piece ∈ pieces, ∀ above place,
      (piece.2.sitesFrom above place).findSome? (Site.problem? known) = none ↔
        above.bind (·.refusal? known) = none ∧ piece.2.WellFormed known)
    (sites : List Site) :
    (pieces.foldl (pieceSites place t) sites).findSome? (Site.problem? known) = none ↔
      sites.findSome? (Site.problem? known) = none ∧ ∀ piece ∈ pieces,
        Above.refusal? known ⟨place, t, piece.1⟩ = none ∧ piece.2.WellFormed known := by
  induction pieces generalizing sites with
  | nil => simp
  | cons piece rest ih =>
    rw [List.forall_mem_cons] at each
    rw [List.foldl_cons, ih each.2, pieceSites, List.findSome?_append, Option.or_eq_none_iff,
      each.1, Option.bind_some, List.forall_mem_cons, and_assoc]

theorem fits_iff {kind : Kind} {b : Blueprint} (understood : known b.traits.kind = some kind)
    (place : Nat) :
    b.Fits known ↔
      ∀ piece ∈ b.pieces, Above.refusal? known ⟨place, b.traits, piece.1⟩ = none := by
  have refusal : ∀ role, Above.refusal? known ⟨place, b.traits, role⟩ = none ↔
      match role with
      | none => kind.isContainer = true
      | some role => role ∈ kind.roles := by
    intro role
    rw [Above.refusal?, understood, Option.bind_some]
    cases role <;> simp
  have fits : b.Fits known ↔ (b.children ≠ [] → kind.isContainer = true) ∧
      ∀ role, (b.holder? role).isSome → role ∈ kind.roles := by
    simp [Fits, understood]
  rw [fits]
  constructor
  · rintro ⟨children, holders⟩ ⟨role, piece⟩ inside
    rcases mem_pieces.1 inside with ⟨rfl, child⟩ | ⟨role, rfl, plays⟩
    · exact (refusal none).2 (children (List.ne_nil_of_mem child))
    · exact (refusal (some role)).2 (holders role (Option.isSome_of_eq_some plays))
  · intro room
    refine ⟨fun hne => ?_, fun role plays => ?_⟩
    · obtain ⟨child, inside⟩ := List.exists_mem_of_ne_nil _ hne
      exact (refusal none).1 (room (none, child) (mem_pieces.2 (.inl ⟨rfl, inside⟩)))
    · obtain ⟨holder, plays⟩ := Option.isSome_iff_exists.1 plays
      exact (refusal (some role)).1 (room (some role, holder) (mem_pieces.2 (.inr ⟨role, rfl, plays⟩)))

theorem findSome?_sitesFrom_eq_none_iff (above : Option Above) (place : Nat) (b : Blueprint) :
    (b.sitesFrom above place).findSome? (Site.problem? known) = none ↔
      above.bind (·.refusal? known) = none ∧ b.WellFormed known := by
  induction b generalizing above place with
  | owner b each =>
    rw [sitesFrom_eq_foldl,
      findSome?_foldl_pieceSites_eq_none_iff
        fun piece inside above place => each piece inside above place,
      wellFormed_iff, List.findSome?_singleton, Site.problem?]
    cases understood : known b.traits.kind with
    | none =>
      have misfit : ¬ b.Fits known := by
        rintro ⟨kind, same, _⟩
        rw [understood] at same
        cases same
      simp [misfit]
    | some kind =>
      rw [fits_iff understood place, ← forall₂_and]

theorem problem?_eq_none_iff {b : Blueprint} : b.problem? known = none ↔ b.WellFormed known := by
  rw [problem?, sites, findSome?_sitesFrom_eq_none_iff]
  simp

end Problems

end Blueprint

end DataBinding
