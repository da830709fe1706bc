import DataBinding.Proofs.Forest.Mirrors

/-!
# What grows from a blueprint

A blueprint that could be planted stands in the places behind as a branch, and the branch surveys to
the canonical form of the blueprint. Owners take in what is planted for them in the order in which
they list it: the children before all roles, the roles in their fixed order.
-/

namespace DataBinding

/-- Where something owned is listed: the children before all roles. -/
def Role.rank : Option Role → Nat
  | none => 0
  | some role => all.idxOf role + 1

namespace Content

variable {content renewed : Content} {role : Role} {h : Handle}

theorem holders_eq_nil (vacant : ∀ role, content.holder? role = none) : content.holders = [] := by
  rw [holders, List.filterMap_eq_nil_iff]
  intro role _
  rw [vacant, Option.map_none]

/-- Whoever gets a role is listed last when the later roles are vacant. -/
theorem holders_of_setHolder? (set : content.setHolder? role (some h) = some renewed)
    (vacant : ∀ later, Role.rank (some role) ≤ Role.rank (some later) → content.holder? later = none) :
    renewed.holders = content.holders ++ [(role, h)] := by
  cases content with
  | dropdown label required possibleValues =>
    cases role with
    | possibleValues =>
      cases set
      cases (vacant .possibleValues (Nat.le_refl _) : possibleValues = none)
      rfl
    | _ => cases set
  | form title header footer =>
    cases role with
    | header =>
      cases set
      cases (vacant .header (Nat.le_refl _) : header = none)
      cases (vacant .footer (by decide) : footer = none)
      rfl
    | footer =>
      cases set
      cases (vacant .footer (Nat.le_refl _) : footer = none)
      cases header <;> rfl
    | _ => cases set
  | table header details =>
    cases role with
    | header =>
      cases set
      cases (vacant .header (Nat.le_refl _) : header = none)
      cases (vacant .details (by decide) : details = none)
      rfl
    | details =>
      cases set
      cases (vacant .details (Nat.le_refl _) : details = none)
      cases header <;> rfl
    | _ => cases set
  | tree details =>
    cases role with
    | details =>
      cases set
      cases (vacant .details (Nat.le_refl _) : details = none)
      rfl
    | _ => cases set
  | _ => cases set

end Content

namespace Definition

variable {F : Type} {d : Definition F} {h : Handle} {role : Option Role}

def Awaits (role : Option Role) (d : Definition F) : Prop :=
  ∀ later, Role.rank role ≤ Role.rank (some later) → d.content.holder? later = none

theorem owned_adopt (awaits : d.Awaits role) (room : d.HasRoom role) :
    (d.adopt role h).owned = d.owned ++ [(role, h)] := by
  cases role with
  | none =>
    have alone : d.content.holders = [] := Content.holders_eq_nil fun role => awaits role (Nat.zero_le _)
    simp [owned, adopt, alone]
  | some role =>
    obtain ⟨renewed, set⟩ := Option.isSome_iff_exists.1
      (Content.setHolder?_isSome_iff (h := some h).2 room.1)
    rw [owned, adopt, set, Option.getD_some, Content.holders_of_setHolder? set awaits, owned,
      List.map_append, List.append_assoc]
    rfl

theorem Awaits.adopt {later : Option Role} (awaits : d.Awaits later)
    (order : role = none ∨ Role.rank role < Role.rank later) : (d.adopt role h).Awaits later := by
  intro other behind
  cases role with
  | none => exact awaits other behind
  | some role =>
    cases set : d.content.setHolder? role (some h) with
    | none =>
      rw [Definition.adopt, set]
      exact awaits other behind
    | some renewed =>
      have differ : other ≠ role := by
        rintro rfl
        rcases order with plain | before
        · cases plain
        · omega
      rw [Definition.adopt, set, Option.getD_some, Content.holder?_of_setHolder? set, if_neg differ]
      exact awaits other behind

end Definition

theorem Traits.holder?_definition (t : Traits) (kind : Kind) (role : Role) :
    (t.definition kind).content.holder? role = none := by
  cases kind <;> cases role <;> rfl

theorem Traits.ofDefinition_adopt (d : Entry) (role : Option Role) (h : Handle) :
    ofDefinition (d.adopt role h) = ofDefinition d := by
  cases role with
  | none => rfl
  | some role =>
    obtain ⟨key, content⟩ := d
    cases content <;> cases role <;> rfl

theorem Blueprint.pieces_ordered (b : Blueprint) :
    b.pieces.Pairwise fun first later => first.1 = none ∨ Role.rank first.1 < Role.rank later.1 := by
  have roles : Role.all.Pairwise fun first later => Role.rank (some first) < Role.rank (some later) := by
    decide
  rw [pieces, List.pairwise_append]
  refine ⟨List.pairwise_map.2 (List.pairwise_of_forall fun _ _ => .inl rfl), ?_, ?_⟩
  · rw [List.pairwise_filterMap]
    refine roles.imp fun {first later} before piece left other right => .inr ?_
    obtain ⟨_, _, rfl⟩ := Option.map_eq_some_iff.1 left
    obtain ⟨_, _, rfl⟩ := Option.map_eq_some_iff.1 right
    exact before
  · intro piece child other _
    obtain ⟨_, _, rfl⟩ := List.mem_map.1 child
    exact .inl rfl

namespace Forest

variable {f g k : Forest} {v : Vocabulary} {b : Blueprint} {h : Handle} {owner : Owner}

/-- An owner lists nothing as late as what it is to take in. -/
def Awaits (g : Forest) : Owner → Prop
  | none => True
  | some (o, role) => ∀ e, g.get? o = some e → e.Awaits role

/-- `k` is `g` with a blueprint planted behind: a branch that surveys to the canonical form. Of the
others only the owner has changed. -/
structure Stands (v : Vocabulary) (owner : Owner) (b : Blueprint) (g k : Forest) (t : Branch) :
    Prop where
  hosts : g.Hosts owner
  reads : k.Reads t
  role : t.role = owner.bind (·.2)
  handle : t.handle = ⟨g.capacity⟩
  parent : t.definition.parent = owner.map (·.1)
  blueprint : t.blueprint = b.canonical v
  behind : ∀ x ∈ t.handles, g.capacity ≤ x.index
  old : ∀ y, y.index < g.capacity → k.get? y = (g.get? y).map (hosted owner ⟨g.capacity⟩ y)

/-- `k` is `g` with pieces of a blueprint planted behind, each as a branch that `top` has taken in. -/
structure Holds (v : Vocabulary) (top : Handle) (e : Entry) (pieces : List (Option Role × Blueprint))
    (g k : Forest) (owned : List Branch) : Prop where
  found : ∃ now, k.get? top = some now ∧
    now.owned = e.owned ++ owned.map (fun t => (t.role, t.handle)) ∧
    Traits.ofDefinition now = Traits.ofDefinition e ∧ now.parent = e.parent
  reads : ∀ t ∈ owned, k.Reads t
  blueprints : owned.map (fun t => (t.role, t.blueprint)) =
    pieces.map fun piece => (piece.1, piece.2.canonical v)
  behind : ∀ t ∈ owned, ∀ x ∈ t.handles, g.capacity ≤ x.index
  old : ∀ y, y.index < g.capacity → y ≠ top → k.get? y = g.get? y

theorem withdraw_ne_ok {α : Type} {e : DefinitionError} {a : α} : f.withdraw h e ≠ (k, .ok a) := by
  intro same
  rw [withdraw] at same
  split at same <;> cases same

theorem keep_eq_ok {planted : Planted Unit} {x : Handle} (kept : keep h planted = (k, .ok x)) :
    planted = (k, .ok ()) ∧ x = h := by
  obtain ⟨f, outcome⟩ := planted
  cases outcome with
  | ok done =>
    cases kept
    exact ⟨rfl, rfl⟩
  | error e => exact absurd kept withdraw_ne_ok

theorem andThen_eq_ok {α β : Type} {planted : Planted α} {next : Forest → Planted β} {b : β}
    (run : andThen planted next = (k, .ok b)) :
    ∃ f a, planted = (f, .ok a) ∧ next f = (k, .ok b) := by
  obtain ⟨f, outcome⟩ := planted
  cases outcome with
  | ok a => exact ⟨f, a, rfl, run⟩
  | error e => cases run

theorem plantUnder_eq_ok (run : plantUnder v owner g b = (k, .ok h)) :
    ∃ kind settled, v.kindOf b.traits = .ok kind ∧
      (g.insert (b.traits.definition kind)).2.settle ⟨g.capacity⟩ owner = .ok settled ∧
      plantPieces v ⟨g.capacity⟩ settled b.pieces = (k, .ok ()) ∧ h = ⟨g.capacity⟩ := by
  rw [plantUnder_eq] at run
  cases known : v.kindOf b.traits with
  | error e =>
    rw [known] at run
    cases run
  | ok kind =>
    simp only [known] at run
    cases settles : (g.insert (b.traits.definition kind)).2.settle ⟨g.capacity⟩ owner with
    | error e =>
      simp only [settles] at run
      exact absurd run withdraw_ne_ok
    | ok settled =>
      simp only [settles, plantOwned_eq_plantPieces] at run
      obtain ⟨planted, place⟩ := keep_eq_ok run
      exact ⟨kind, settled, rfl, settles, planted, place⟩

theorem Consistent.hosts_of_settle (consistent : g.Consistent) {d : Entry} (free : d.parent = none)
    (bare : d.belongings = []) (paths : d.paths = Path.normalize d.dataPath none)
    (awaits : g.Awaits owner) (run : (g.insert d).2.settle ⟨g.capacity⟩ owner = .ok k) :
    g.Hosts owner := by
  have wf := (consistent.insert free bare paths).links
  have new : (g.insert d).2.get? ⟨g.capacity⟩ = some d := get?_insert_self g d
  -- nobody takes in itself, so the owner was there before
  have old : ∀ {o : Handle} {e : Entry}, (g.insert d).2.get? o = some e →
      ¬ (g.insert d).2.Within ⟨g.capacity⟩ o → g.get? o = some e := by
    intro o e found apart
    rcases cases_insert found with ⟨rfl, _⟩ | there
    · exact absurd (wf.within_refl found) apart
    · exact there
  match owner with
  | none => trivial
  | some (o, none) =>
    obtain ⟨c, e, childFound, found, outcome⟩ := (setParent_eq_ok_iff wf).1 run
    rw [new] at childFound
    cases childFound
    rcases outcome with ⟨named, _⟩ | ⟨_, container, apart, _⟩
    · rw [free] at named
      cases named
    · exact ⟨e, old found apart, container⟩
  | some (o, some role) =>
    obtain ⟨c, e, renewed, _, found, _, apart, set, _⟩ := (attach_eq_ok_iff wf).1 run
    have has := Content.setHolder?_isSome_iff.1 (Option.isSome_of_eq_some set)
    have there := old found apart
    exact ⟨e, there, has, awaits e there role (Nat.le_refl _)⟩

section Step

variable {middle : Forest} {top : Handle} {e : Entry} {role : Option Role} {t : Branch}

theorem Stands.capacity_lt (stands : Stands v owner b g k t) : g.capacity < k.capacity := by
  have inside := index_lt_of_get? stands.reads.get?_handle
  rwa [stands.handle] at inside

theorem Stands.get?_owner (stands : Stands v (some (top, role)) b g middle t)
    (found : g.get? top = some e) : middle.get? top = some (e.adopt role ⟨g.capacity⟩) := by
  rw [stands.old top (index_lt_of_get? found), found, Option.map_some, hosted, if_pos rfl]

theorem Stands.holds {rest : List (Option Role × Blueprint)} {owned : List Branch}
    (stands : Stands v (some (top, role)) b g middle t) (consistent : middle.Consistent)
    (found : g.get? top = some e) (awaits : e.Awaits role)
    (holds : Holds v top (e.adopt role ⟨g.capacity⟩) rest middle k owned) :
    Holds v top e ((role, b) :: rest) g k (t :: owned) := by
  have grows := stands.capacity_lt
  obtain ⟨now, topNow, listed, traits, parent⟩ := holds.found
  constructor
  case found =>
    obtain ⟨e', again, room⟩ := stands.hosts
    rw [found] at again
    cases again
    refine ⟨now, topNow, ?_, ?_, ?_⟩
    · rw [listed, Definition.owned_adopt awaits room, List.map_cons, stands.role, stands.handle,
        List.append_assoc]
      rfl
    · rw [traits, Traits.ofDefinition_adopt]
    · rw [parent]
      cases role <;> rfl
  case reads =>
    rw [List.forall_mem_cons]
    refine ⟨stands.reads.congr fun x shown => ?_, holds.reads⟩
    obtain ⟨d, there⟩ := ((stands.reads.mem_handles_iff consistent.links).1 shown).found
    have behind := stands.behind x shown
    have before := index_lt_of_get? found
    refine holds.old x (index_lt_of_get? there) ?_
    rintro rfl
    omega
  case blueprints =>
    rw [List.map_cons, List.map_cons, holds.blueprints, stands.role, stands.blueprint]
    rfl
  case behind =>
    rw [List.forall_mem_cons]
    refine ⟨stands.behind, fun t inside x shown => ?_⟩
    have behind := holds.behind t inside x shown
    omega
  case old =>
    intro y inside notTop
    rw [holds.old y (inside.trans grows) notTop, stands.old y inside, map_hosted_of_ne notTop]

end Step

theorem exists_holds {top : Handle} {e : Entry} {pieces : List (Option Role × Blueprint)}
    (each : ∀ piece ∈ pieces, ∀ {g k : Forest} {owner : Owner} {h : Handle}, g.Consistent →
      g.Awaits owner → plantUnder v owner g piece.2 = (k, .ok h) →
        ∃ t, Stands v owner piece.2 g k t)
    (ordered : pieces.Pairwise fun first later =>
      first.1 = none ∨ Role.rank first.1 < Role.rank later.1)
    (consistent : g.Consistent) (found : g.get? top = some e)
    (awaits : ∀ piece ∈ pieces, e.Awaits piece.1) (run : plantPieces v top g pieces = (k, .ok ())) :
    ∃ owned, Holds v top e pieces g k owned := by
  induction pieces generalizing g e with
  | nil =>
    cases run
    refine ⟨[], ⟨e, found, ?_, rfl, rfl⟩, ?_, rfl, ?_, fun _ _ _ => rfl⟩
    · rw [List.map_nil, List.append_nil]
    · simp
    · simp
  | cons piece rest ih =>
    obtain ⟨role, b⟩ := piece
    rw [List.forall_mem_cons] at each awaits
    obtain ⟨before, ordered⟩ := List.pairwise_cons.1 ordered
    obtain ⟨middle, h, first, later⟩ := andThen_eq_ok run
    have ready : g.Awaits (some (top, role)) := by
      intro e' again
      rw [found] at again
      cases again
      exact awaits.1
    obtain ⟨t, stands⟩ := each.1 consistent ready first
    have settled := Consistent.plantUnder v (some (top, role)) consistent b
    rw [first] at settled
    obtain ⟨owned, holds⟩ := ih each.2 ordered settled (stands.get?_owner found)
      (fun piece inside => (awaits.2 piece inside).adopt (before piece inside)) later
    exact ⟨t :: owned, stands.holds settled found awaits.1 holds⟩

/-- Whatever has been planted stands behind all that was there before. -/
theorem Consistent.exists_stands (consistent : g.Consistent) (awaits : g.Awaits owner)
    (run : Forest.plantUnder v owner g b = (k, .ok h)) :
    h = ⟨g.capacity⟩ ∧ ∃ t, Stands v owner b g k t := by
  induction b generalizing owner g k h with
  | owner b each =>
    obtain ⟨kind, settled, known, settles, planted, rfl⟩ := plantUnder_eq_ok run
    obtain ⟨bare, free, paths⟩ := b.traits.definition_bare kind
    have hosts := consistent.hosts_of_settle free bare paths awaits settles
    obtain ⟨_, anchored, again, capacity, new, old⟩ := consistent.exists_settle free bare paths hosts
    rw [settles] at again
    cases again
    have settledConsistent := (consistent.insert free bare paths).settle settles
    obtain ⟨owned, holds⟩ := exists_holds (fun piece inside _ _ _ _ consistent awaits run =>
      (each piece inside consistent awaits run).2) b.pieces_ordered settledConsistent new
      (fun _ _ later _ => b.traits.holder?_definition kind later) planted
    obtain ⟨now, found, listed, traits, parent⟩ := holds.found
    refine ⟨rfl, .mk (owner.bind (·.2)) ⟨g.capacity⟩ now owned, hosts, .mk found ?_ holds.reads,
      rfl, rfl, parent, ?_, fun x shown => ?_, fun y inside => ?_⟩
    · have nothing : (b.traits.definition kind).owned = [] := List.map_eq_nil_iff.1 bare
      rw [listed]
      show _ = (b.traits.definition kind).owned ++ _
      rw [nothing, List.nil_append]
    · have surveyed : Traits.ofDefinition now = (b.canonical v).traits := by
        rw [traits, Blueprint.traits_canonical, Traits.canonical_of_kindOf known]
        rfl
      rw [Branch.blueprint_mk, ← Blueprint.ofPieces_pieces (b.canonical v),
        Blueprint.pieces_canonical, ← holds.blueprints, ← surveyed]
      rfl
    · rcases Branch.mem_handles_mk.1 shown with rfl | ⟨t, inside, shown⟩
      · exact Nat.le_refl _
      · have behind := holds.behind t inside x shown
        omega
    · rw [holds.old y (by omega) (ne_new_of_lt inside), old y inside]

/-- The forest of a blueprint shows its canonical form, and is the forest of that form, too. -/
theorem root_of_ofBlueprint (run : ofBlueprint v b = .ok f) :
    f.root? = some ⟨0⟩ ∧ f.blueprint ⟨0⟩ = .ok (b.canonical v) ∧
      ofBlueprint ⟨[]⟩ (b.canonical v) = .ok f := by
  rw [ofBlueprint, plant] at run
  have same : empty.plant ⟨[]⟩ (b.canonical v) = plantUnder v none empty b :=
    plantUnder_canonical v none empty b
  cases planted : plantUnder v none empty b with
  | mk k outcome =>
    rw [planted] at run same
    cases outcome with
    | error e => cases run
    | ok h =>
      cases run
      have consistent := Consistent.plantUnder v none .empty b
      rw [planted] at consistent
      have ready : empty.Awaits none := trivial
      obtain ⟨_, t, stands⟩ := Consistent.empty.exists_stands ready planted
      have found := stands.reads.get?_handle
      rw [stands.handle] at found
      obtain ⟨c, read, reads, role, handle⟩ := consistent.links.exists_branch found
      have unique : c = t :=
        reads.unique stands.reads (role.trans stands.role.symm) (handle.trans stands.handle.symm)
      refine ⟨root?_of_first found stands.parent, ?_, ?_⟩
      · show (f.branch ⟨empty.capacity⟩).map Branch.blueprint = _
        rw [read, unique]
        exact congrArg Except.ok stands.blueprint
      · rw [ofBlueprint, same]

/-- What was read from JSON, under whatever names, is written so that everyone reads it back. -/
theorem exists_toJson_of_ofJson {json : Json} (read : ofJson v json = .ok f) :
    ∃ stored, f.root? = some ⟨0⟩ ∧ f.toJson ⟨0⟩ = .ok stored ∧ stored ≠ .null ∧
      ofJson ⟨[]⟩ stored = .ok f := by
  rw [ofJson] at read
  cases given : Blueprint.ofJson json with
  | error cause =>
    rw [given] at read
    cases read
  | ok b =>
    rw [given] at read
    obtain ⟨root, shown, again⟩ := root_of_ofBlueprint read
    refine ⟨(b.canonical v).toJson, root, ?_, ?_, ?_⟩
    · rw [toJson, shown]
      rfl
    · rw [Blueprint.toJson_eq]
      exact Json.noConfusion
    · rw [ofJson, Blueprint.ofJson_toJson]
      exact again

end Forest

end DataBinding
