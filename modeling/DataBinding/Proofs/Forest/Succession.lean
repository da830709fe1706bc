import DataBinding.Proofs.Forest.Growth
import DataBinding.Proofs.Forest.Reachable

/-!
# Earlier and later states

Handles are stable: as a forest is changed, an empty place stays empty, and who is still there has
the kind and the owner that it had before. This is a relation between any two states of a forest, so
it is enough that every single change is related to what it started from, well formed or not.
-/

namespace DataBinding

namespace Forest

/-- The handle has been given out, whether or not its definition is still there. -/
def Allocated (f : Forest) (h : Handle) : Prop :=
  h.index < f.capacity

instance (f : Forest) (h : Handle) : Decidable (f.Allocated h) :=
  inferInstanceAs (Decidable (h.index < f.capacity))

/-- `g` may be a later state of `f`. -/
structure Precedes (f g : Forest) : Prop where
  capacity : f.capacity ≤ g.capacity
  gone : ∀ {h : Handle}, f.Allocated h → f.get? h = none → g.get? h = none
  stays : ∀ {h : Handle} {d e : Entry}, f.get? h = some d → g.get? h = some e →
    e.kind = d.kind ∧ ∀ owner, d.parent = some owner → e.parent = some owner

variable {f g : Forest} {h : Handle}

namespace Precedes

theorem refl (f : Forest) : f.Precedes f where
  capacity := Nat.le_refl _
  gone _ empty := empty
  stays found again := by
    rw [found] at again
    cases again
    exact ⟨rfl, fun _ owned => owned⟩

theorem allocated (later : f.Precedes g) (given : f.Allocated h) : g.Allocated h :=
  Nat.lt_of_lt_of_le given later.capacity

theorem trans {k : Forest} (first : f.Precedes g) (second : g.Precedes k) : f.Precedes k where
  capacity := Nat.le_trans first.capacity second.capacity
  gone given empty := second.gone (first.allocated given) (first.gone given empty)
  stays {h d e} found now := by
    cases between : g.get? h with
    | none =>
      rw [second.gone (first.allocated (index_lt_of_get? found)) between] at now
      cases now
    | some middle =>
      obtain ⟨kind, owner⟩ := first.stays found between
      obtain ⟨kind', owner'⟩ := second.stays between now
      exact ⟨kind'.trans kind, fun p owned => owner' p (owner p owned)⟩

theorem of_old (capacity : f.capacity ≤ g.capacity)
    (old : ∀ x : Handle, x.index < f.capacity → g.get? x = f.get? x) : f.Precedes g where
  capacity := capacity
  gone {h} given empty := by rw [old h given, empty]
  stays {h d e} found now := by
    rw [old h (index_lt_of_get? found)] at now
    exact (refl f).stays found now

theorem insert (f : Forest) (d : Entry) : f.Precedes (f.insert d).2 := by
  refine of_old ?_ fun x inside => get?_insert_of_lt inside d
  rw [capacity_insert]
  exact Nat.le_succ _

theorem put {d e : Entry} (found : f.get? h = some d) (kind : e.kind = d.kind)
    (owner : ∀ p, d.parent = some p → e.parent = some p) : f.Precedes (f.put h (some e)) where
  capacity := Nat.le_of_eq (capacity_put f h _).symm
  gone {x} _ empty := by
    rw [get?_put_of_ne, empty]
    rintro rfl
    rw [found] at empty
    cases empty
  stays {x d' e'} there now := by
    rw [get?_put_of_found found] at now
    split at now
    case isTrue same =>
      rw [same, found] at there
      cases there
      cases now
      exact ⟨kind, owner⟩
    case isFalse => exact (refl f).stays there now

theorem modify {change : Entry → Entry} (run : f.modify h change = .ok g)
    (keeps : ∀ d, f.get? h = some d →
      (change d).kind = d.kind ∧ ∀ p, d.parent = some p → (change d).parent = some p) :
    f.Precedes g := by
  obtain ⟨d, found, rfl⟩ := modify_eq_ok_iff.1 run
  exact put found (keeps d found).1 (keeps d found).2

theorem foldlM {α : Type} {step : Forest → α → Except Fault Forest} {xs : List α}
    (each : ∀ {f g : Forest} {x : α}, step f x = .ok g → f.Precedes g)
    (run : xs.foldlM step f = .ok g) : f.Precedes g := by
  induction xs generalizing f with
  | nil =>
    cases run
    exact refl _
  | cons x rest ih =>
    obtain ⟨middle, first, later⟩ := Outcome.bind_eq_ok_iff.1 run
    exact (each first).trans (ih later)

theorem was_of_discard (run : f.discard h = .ok g) {x : Handle} {e : Entry}
    (now : g.get? x = some e) : f.get? x = some e := by
  obtain ⟨order, _, last⟩ := Outcome.bind_eq_ok_iff.1 run
  cases last
  rw [get?_foldl_vacate] at now
  split at now
  case isTrue => cases now
  case isFalse => exact now

theorem discard (run : f.discard h = .ok g) : f.Precedes g where
  capacity := by
    obtain ⟨order, _, last⟩ := Outcome.bind_eq_ok_iff.1 run
    cases last
    exact Nat.le_of_eq (capacity_foldl_vacate f order).symm
  gone {x} _ empty := by
    rw [Option.eq_none_iff_forall_ne_some] at empty ⊢
    exact fun e now => empty e (was_of_discard run now)
  stays found now := (refl f).stays found (was_of_discard run now)

theorem name {owner : Handle} (free : ∀ d, f.get? h = some d → d.parent = none)
    (run : f.modify h (fun d => { d with parent := some owner }) = .ok g) : f.Precedes g := by
  refine modify run fun d found => ⟨rfl, fun p owned => ?_⟩
  rw [free d found] at owned
  cases owned

/-! ### Changes of ownership -/

theorem rescope (run : f.rescope h = .ok g) : f.Precedes g := by
  obtain ⟨order, _, folds⟩ := Outcome.bind_eq_ok_iff.1 run
  refine foldlM (fun {f g x} step => ?_) folds
  obtain ⟨d, _, rest⟩ := Outcome.bind_eq_ok_iff.1 step
  obtain ⟨above, _, change⟩ := Outcome.bind_eq_ok_iff.1 rest
  exact modify change fun _ _ => ⟨rfl, fun _ => id⟩

theorem setParent {child owner : Handle} (run : f.setParent child owner = .ok g) : f.Precedes g := by
  simp only [Forest.setParent, Outcome.monadLift_eq, Outcome.bind_eq_ok_iff,
    Outcome.lift_eq_ok_iff, find_eq_ok_iff] at run
  obtain ⟨_, _, _, _, c, found, run⟩ := run
  cases free : c.parent with
  | some current =>
    simp only [free] at run
    split at run
    · cases run
      exact refl f
    · cases run
  | none =>
    simp only [free, Outcome.bind_eq_ok_iff] at run
    obtain ⟨d, _, run⟩ := run
    split at run
    · cases run
    · simp only [Outcome.bind_eq_ok_iff, Outcome.lift_eq_ok_iff] at run
      obtain ⟨_, _, named, names, listed, lists, rescopes⟩ := run
      refine trans (name (fun c' again => ?_) names)
        ((modify lists fun _ _ => ⟨rfl, fun _ => id⟩).trans (rescope rescopes))
      rw [found] at again
      cases again
      exact free

theorem attach {owner child : Handle} {role : Role} (run : f.attach owner role child = .ok g) :
    f.Precedes g := by
  simp only [Forest.attach, Outcome.monadLift_eq, Outcome.bind_eq_ok_iff, Outcome.lift_eq_ok_iff,
    find_eq_ok_iff] at run
  obtain ⟨_, _, _, _, c, found, run⟩ := run
  cases free : c.parent with
  | some current =>
    simp only [free] at run
    cases run
  | none =>
    simp only [free, Outcome.bind_eq_ok_iff, Outcome.lift_eq_ok_iff, find_eq_ok_iff] at run
    obtain ⟨_, _, d, ownerFound, run⟩ := run
    cases set : d.content.setHolder? role (some child) with
    | none =>
      rw [set] at run
      cases run
    | some renewed =>
      simp only [set, Outcome.bind_eq_ok_iff, Outcome.lift_eq_ok_iff] at run
      obtain ⟨recast, recasts, run⟩ := run
      have first : f.Precedes recast := modify recasts fun d' again => by
        rw [ownerFound] at again
        cases again
        exact ⟨Content.kind_of_setHolder? set, fun _ => id⟩
      have stillFree : ∀ c', recast.get? child = some c' → c'.parent = none := by
        intro c' now
        rw [get?_modify recasts] at now
        split at now
        case isTrue same =>
          rw [← same, found] at now
          cases now
          exact free
        case isFalse =>
          rw [found] at now
          cases now
          exact free
      cases filled : d.content.holder? role with
      | none =>
        simp only [filled, Outcome.bind_eq_ok_iff, Outcome.lift_eq_ok_iff] at run
        obtain ⟨_, same, named, names, rescopes⟩ := run
        cases same
        exact first.trans ((name stillFree names).trans (rescope rescopes))
      | some previous =>
        simp only [filled, Outcome.bind_eq_ok_iff, Outcome.lift_eq_ok_iff] at run
        obtain ⟨discarded, discards, named, names, rescopes⟩ := run
        refine first.trans ((discard discards).trans (trans (name ?_ names) (rescope rescopes)))
        exact fun c' now => stillFree c' (was_of_discard discards now)

theorem setDataPath {dataPath : String} (run : f.setDataPath h dataPath = .ok g) : f.Precedes g := by
  obtain ⟨middle, change, rescopes⟩ := Outcome.bind_eq_ok_iff.1 run
  exact (modify change fun _ _ => ⟨rfl, fun _ => id⟩).trans (rescope rescopes)

theorem remove (run : f.remove h = .ok g) : f.Precedes g := by
  rw [Forest.remove] at run
  cases found : f.get? h with
  | none =>
    rw [found] at run
    cases run
    exact refl _
  | some d =>
    simp only [found] at run
    cases owner : d.parent with
    | none =>
      rw [owner] at run
      exact discard run
    | some owner =>
      simp only [owner, Outcome.bind_eq_ok_iff] at run
      obtain ⟨middle, releases, discards⟩ := run
      exact (modify releases fun o _ => ⟨o.kind_release h, fun _ => id⟩).trans (discard discards)

/-! ### Observers and copies -/

theorem setObserver {observer : ObserverId} {notices : List Notice}
    (run : f.setObserver h observer = .ok (g, notices)) : f.Precedes g := by
  obtain ⟨order, _, rest⟩ := Outcome.bind_eq_ok_iff.1 run
  obtain ⟨k, changes, last⟩ := Outcome.bind_eq_ok_iff.1 rest
  cases last
  refine foldlM (fun change => ?_) changes
  exact modify change fun _ _ => ⟨rfl, fun _ => id⟩

theorem copyBranch {source : Forest} {top : Handle} (run : f.copyBranch source h = .ok (top, g)) :
    f.Precedes g := by
  obtain ⟨order, _, rest⟩ := Outcome.bind_eq_ok_iff.1 run
  obtain ⟨k, copies, last⟩ := Outcome.bind_eq_ok_iff.1 rest
  cases last
  obtain ⟨added, _, last⟩ := Outcome.bind_eq_ok_iff.1 copies
  cases last
  refine of_old ?_ fun x inside => ?_
  · show f.places.size ≤ (f.places ++ _).size
    rw [Array.size_append]
    exact Nat.le_add_right _ _
  · rw [get?, get?, Array.getElem?_append_left inside]

theorem graft {container : Handle} {other : Forest} {grafted : Grafted}
    (run : f.graft container other = .ok grafted) : f.Precedes grafted.forest := by
  obtain ⟨root, copy, placed, _, copies, settles, last⟩ := exists_of_graft run
  have settled := (copyBranch copies).trans (setParent settles)
  rcases last with same | ⟨observer, hands⟩
  · rwa [same]
  · exact settled.trans (setObserver hands)

theorem graftAll (f : Forest) (container : Handle) (others : List Forest) :
    f.Precedes (f.graftAll container others).forest := by
  induction others generalizing f with
  | nil => exact refl f
  | cons other rest ih =>
    rw [Forest.graftAll]
    cases run : f.graft container other with
    | error e => exact refl f
    | ok grafted => exact (graft run).trans (ih grafted.forest)

/-- Nothing happens, or replacements are grafted one after the other into a later state. -/
theorem replaceChildren_cases (f : Forest) (container : Handle) (others : List Forest) :
    (∃ e, f.replaceChildren container others = ⟨f, [], .error e⟩) ∨
      ∃ middle, f.Precedes middle ∧
        f.replaceChildren container others = middle.graftAll container others := by
  rw [Forest.replaceChildren]
  split
  case h_1 e _ => exact .inl ⟨e, rfl⟩
  case h_2 middle clears =>
    refine .inr ⟨middle, ?_, rfl⟩
    simp only [Outcome.monadLift_eq, Outcome.bind_eq_ok_iff, Outcome.lift_eq_ok_iff] at clears
    obtain ⟨_, _, d, _, clears⟩ := clears
    split at clears
    · cases clears
    · exact foldlM remove (Outcome.lift_eq_ok_iff.1 clears)

theorem replaceChildren (f : Forest) (container : Handle) (others : List Forest) :
    f.Precedes (f.replaceChildren container others).forest := by
  rcases replaceChildren_cases f container others with ⟨e, refused⟩ | ⟨middle, later, replaced⟩
  · rw [refused]
    exact refl f
  · rw [replaced]
    exact later.trans (graftAll middle container others)

/-! ### Planting and calls -/

theorem settle {owner : Owner} (run : f.settle h owner = .ok g) : f.Precedes g := by
  match owner with
  | none =>
    cases run
    exact refl _
  | some (owner, none) => exact setParent run
  | some (owner, some role) => exact attach run

theorem lasting (f : Forest) : Lasting f.Precedes where
  insert _ _ later := later.trans (insert _ _)
  settle later run := later.trans (settle run)
  remove later run := later.trans (remove run)

theorem orSame {ε : Type} {outcome : Except ε Forest} (changed : ∀ g, outcome = .ok g → f.Precedes g) :
    f.Precedes (f.orSame outcome) := by
  cases outcome with
  | ok g => exact changed g rfl
  | error _ => exact refl f

/-- Every call, refused or not, leads to a later state. -/
theorem after (f : Forest) (c : Call) : f.Precedes (f.after c) := by
  cases c with
  | insert content dataPath bare => exact insert f _
  | annotate h notes => exact orSame fun g run => modify run fun _ _ => ⟨rfl, fun _ => id⟩
  | setParent child owner => exact orSame fun g run => setParent run
  | attach owner role child => exact orSame fun g run => attach run
  | setDataPath h dataPath => exact orSame fun g run => setDataPath run
  | remove h => exact orSame fun g run => remove run
  | setObserver h observer =>
    refine orSame fun g run => ?_
    obtain ⟨⟨k, notices⟩, hands, rfl⟩ := Outcome.map_eq_ok_iff.1 run
    exact setObserver hands
  | graft container other =>
    refine orSame fun g run => ?_
    obtain ⟨grafted, grafts, rfl⟩ := Outcome.map_eq_ok_iff.1 run
    exact graft grafts
  | replaceChildren container others => exact replaceChildren f container others
  | plant v b => exact (lasting f).plantUnder v none (refl f) b

end Precedes

/-! ### Handles given out -/

/-- Between two states a list of handles was given out, none of them twice or before. -/
structure Issues (f g : Forest) (hs : List Handle) : Prop where
  later : f.Precedes g
  distinct : hs.Nodup
  new : ∀ h ∈ hs, ¬ f.Allocated h ∧ g.Allocated h

namespace Issues

theorem none (later : f.Precedes g) : f.Issues g [] where
  later := later
  distinct := List.nodup_nil
  new := by simp

theorem next (later : f.Precedes g) (given : g.Allocated ⟨f.capacity⟩) :
    f.Issues g [⟨f.capacity⟩] where
  later := later
  distinct := List.nodup_singleton _
  new h among := by
    rw [List.mem_singleton.1 among]
    exact ⟨Nat.lt_irrefl _, given⟩

theorem append {k : Forest} {hs others : List Handle} (first : f.Issues g hs)
    (second : g.Issues k others) : f.Issues k (hs ++ others) where
  later := first.later.trans second.later
  distinct := by
    refine List.nodup_append.2 ⟨first.distinct, second.distinct, fun x among y amongLater => ?_⟩
    rintro rfl
    exact (second.new x amongLater).1 (first.new x among).2
  new h among := by
    rcases List.mem_append.1 among with early | late
    · exact ⟨(first.new h early).1, second.later.allocated (first.new h early).2⟩
    · exact ⟨fun given => (second.new h late).1 (first.later.allocated given), (second.new h late).2⟩

theorem of_graft {container : Handle} {other : Forest} {grafted : Grafted}
    (run : f.graft container other = .ok grafted) : f.Issues grafted.forest [grafted.handle] := by
  have later := Precedes.graft run
  obtain ⟨root, copy, placed, _, copies, settles, last⟩ := exists_of_graft run
  have top : grafted.handle = ⟨f.capacity⟩ := by
    obtain ⟨order, _, rest⟩ := Outcome.bind_eq_ok_iff.1 copies
    obtain ⟨k, _, same⟩ := Outcome.bind_eq_ok_iff.1 rest
    exact (Prod.mk.inj (Except.ok.inj same)).1.symm
  -- a definition that could be handed to the container has its place
  obtain ⟨_, checked, _⟩ := Outcome.bind_eq_ok_iff.1 settles
  obtain ⟨c, found⟩ := found_of_check checked
  have given : grafted.forest.Allocated grafted.handle := by
    have settled := (Precedes.setParent settles).allocated (index_lt_of_get? found)
    rcases last with same | ⟨observer, hands⟩
    · rwa [same]
    · exact (Precedes.setObserver hands).allocated settled
  rw [top] at given ⊢
  exact next later given

theorem of_graftAll (f : Forest) (container : Handle) (others : List Forest) :
    f.Issues (f.graftAll container others).forest
      ((f.graftAll container others).outcome.toOption.getD []) := by
  induction others generalizing f with
  | nil => exact none (.refl f)
  | cons other rest ih =>
    have all := Precedes.graftAll f container (other :: rest)
    rw [graftAll] at all ⊢
    cases run : f.graft container other with
    | error e => exact none (.refl f)
    | ok grafted =>
      simp only [run] at all ⊢
      have later := (of_graft run).append (ih grafted.forest)
      cases outcome : (grafted.forest.graftAll container rest).outcome with
      | error e => exact none all
      | ok hs =>
        rw [outcome] at later
        exact later

theorem of_replaceChildren (f : Forest) (container : Handle) (others : List Forest) :
    f.Issues (f.replaceChildren container others).forest
      ((f.replaceChildren container others).outcome.toOption.getD []) := by
  rcases Precedes.replaceChildren_cases f container others with ⟨e, refused⟩ |
    ⟨middle, later, replaced⟩
  · rw [refused]
    exact none (.refl f)
  · rw [replaced]
    exact (none later).append (of_graftAll middle container others)

theorem of_plant {v : Vocabulary} {b : Blueprint} (run : f.plant v b = (g, .ok h)) :
    f.Issues g [h] := by
  obtain ⟨kind, settled, _, settles, planted, rfl⟩ := plantUnder_eq_ok run
  cases settles
  have inserted := Precedes.insert f (b.traits.definition kind)
  have later : (f.insert (b.traits.definition kind)).2.Precedes g := by
    have kept := (Precedes.lasting (f.insert (b.traits.definition kind)).2).plantPieces
      (v := v) (h := ⟨f.capacity⟩) (.refl _) b.pieces
    rwa [planted] at kept
  refine next (inserted.trans later) (later.allocated ?_)
  exact index_lt_of_get? (get?_insert_self f _)

end Issues

end Forest

/-- Something done to a forest: one of the calls, or adding any definition at all. -/
inductive Act where
  | add (d : Entry)
  | call (c : Call)

namespace Forest

def act (f : Forest) : Act → Forest
  | .add d => (f.insert d).2
  | .call c => f.after c

/-- The handles that the caller gets for what an act has added. -/
def issued (f : Forest) : Act → List Handle
  | .add d => [(f.insert d).1]
  | .call (.insert content dataPath _) => [(f.insert (.make content dataPath)).1]
  | .call (.graft container other) =>
    ((f.graft container other).map fun grafted => [grafted.handle]).toOption.getD []
  | .call (.replaceChildren container others) =>
    (f.replaceChildren container others).outcome.toOption.getD []
  | .call (.plant v b) => ((f.plant v b).2.map fun h => [h]).toOption.getD []
  | .call _ => []

def acted (f : Forest) (run : List Act) : Forest :=
  run.foldl act f

def issuedBy (f : Forest) : List Act → List Handle
  | [] => []
  | first :: rest => f.issued first ++ (f.act first).issuedBy rest

theorem issues_act (f : Forest) (a : Act) : f.Issues (f.act a) (f.issued a) := by
  have inserts : ∀ d : Entry, f.Issues (f.insert d).2 [(f.insert d).1] := fun d =>
    .next (.insert f d) (index_lt_of_get? (get?_insert_self f d))
  match a with
  | .add d => exact inserts d
  | .call c =>
    have later := Precedes.after f c
    cases c with
    | insert content dataPath bare => exact inserts _
    | graft container other =>
      rw [issued]
      cases run : f.graft container other with
      | error e => exact .none later
      | ok grafted =>
        rw [act, after, run]
        exact .of_graft run
    | replaceChildren container others => exact .of_replaceChildren f container others
    | plant v b =>
      cases run : f.plant v b with
      | mk g outcome =>
        cases outcome with
        | error e =>
          rw [issued, run]
          exact .none later
        | ok h =>
          rw [issued, act, after, run]
          exact .of_plant run
    | _ => exact .none later

theorem issues_acted (f : Forest) (run : List Act) : f.Issues (f.acted run) (f.issuedBy run) := by
  induction run generalizing f with
  | nil => exact .none (.refl f)
  | cons first rest ih => exact (issues_act f first).append (ih (f.act first))

/-- Over any run a handle means the same definition or none. Whatever is gone stays gone, whoever is
still there has the same kind and the owner that it had, and the handles given out are all different
and were never given out before. -/
theorem handles_stable (f : Forest) (run : List Act) :
    (∀ h, f.Allocated h →
      (f.acted run).Allocated h ∧ (f.get? h = none → (f.acted run).get? h = none)) ∧
    (∀ h d e, f.get? h = some d → (f.acted run).get? h = some e →
      e.kind = d.kind ∧ ∀ owner, d.parent = some owner → e.parent = some owner) ∧
    (f.issuedBy run).Nodup ∧
    ∀ h ∈ f.issuedBy run, ¬ f.Allocated h ∧ (f.acted run).Allocated h := by
  obtain ⟨later, distinct, new⟩ := issues_acted f run
  exact ⟨fun h given => ⟨later.allocated given, later.gone given⟩,
    fun h d e found now => later.stays found now, distinct, new⟩

/-- A form gets another header and another child, and in between a blueprint of no known kind. The
handles that were given out differ, and that of the first header leads nowhere ever after. -/
theorem handles_stable_of_form : ∃ (f : Forest) (run : List Act),
    (f.get? ⟨0⟩).map (·.belongings) = some [⟨2⟩, ⟨1⟩] ∧
    ((f.acted run).get? ⟨0⟩).map (·.belongings) = some [⟨5⟩, ⟨3⟩] ∧ f.issuedBy run = [⟨3⟩, ⟨5⟩] ∧
    (∀ h ∈ [(⟨3⟩ : Handle), ⟨5⟩], ¬ f.Allocated h) ∧
    ∀ later, ((f.acted run).acted later).get? ⟨1⟩ = none := by
  let f := empty.acted [.add (.make (.form "" none none) ""), .add (.make (.textItem "") ""),
    .add (.make (.input "" false) ""), .call (.attach ⟨0⟩ .header ⟨1⟩), .call (.setParent ⟨2⟩ ⟨0⟩)]
  let panel := empty.acted [.add (.make (.panel "") "")]
  let run : List Act := [.add (.make (.textItem "") ""), .call (.attach ⟨0⟩ .header ⟨3⟩),
    .call (.plant ⟨[]⟩ { traits := { kind := "form" }, children := [.ofKind "unknown"] }),
    .call (.replaceChildren ⟨0⟩ [panel])]
  have issued : f.issuedBy run = [⟨3⟩, ⟨5⟩] := by decide +kernel
  have gone : (f.acted run).get? ⟨1⟩ = none := Option.isNone_iff_eq_none.1 (by decide +kernel)
  obtain ⟨_, _, _, new⟩ := handles_stable f run
  rw [issued] at new
  refine ⟨f, run, by decide +kernel, by decide +kernel, issued, fun h among => (new h among).1,
    fun later => ?_⟩
  obtain ⟨steady, _⟩ := handles_stable (f.acted run) later
  exact (steady ⟨1⟩ (by decide +kernel)).2 gone

end Forest

end DataBinding
