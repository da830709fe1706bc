import DataBinding.Proofs.Forest.Replacement

/-!
# Footprints

What each change of ownership touches. Removing a definition empties the places of its branch, a role
that is given anew those of whoever played it before, and replaced children those of their branches.
Grafts fill new places. Whoever is left is what it was, but for the owner, which lists others now, and
for a branch that has got an owner.
-/

namespace DataBinding.Forest

variable {f g k other : Forest} {h x owner child container top : Handle} {d e : Entry} {role : Role}

def Spans (f : Forest) (h x : Handle) : Prop :=
  ∃ order, f.subtree h = .ok order ∧ x ∈ order

theorem WellFormed.spans_iff_within (wf : f.WellFormed) : f.Spans h x ↔ f.Within h x := by
  constructor
  · rintro ⟨order, shown, inside⟩
    obtain ⟨b, read, rfl⟩ := Outcome.map_eq_ok_iff.1 shown
    obtain ⟨reads, _, rfl⟩ := reads_of_branchWithin read
    exact (reads.mem_handles_iff wf).1 inside
  · intro within
    obtain ⟨hs, climb, met⟩ := id within
    obtain ⟨d, found⟩ := climb.found_of_mem met
    obtain ⟨order, shown, members, _⟩ := wf.exists_subtree found
    exact ⟨order, shown, (members x).2 within⟩

/-- From `f` to `g` some definitions are gone, some may have changed, and some have come. All others are
what they were. -/
structure Footprint (f g : Forest) (gone changed new : Handle → Prop) : Prop where
  dies : ∀ {x : Handle} {d : Entry}, f.get? x = some d → (g.get? x = none ↔ gone x)
  stays : ∀ {x : Handle} {d : Entry}, f.get? x = some d → ¬ gone x → ¬ changed x → g.get? x = some d
  comes : ∀ {x : Handle}, f.get? x = none → (g.get? x ≠ none ↔ new x)

theorem WellFormed.found_of_spans (wf : f.WellFormed) (spans : f.Spans h x) :
    (∃ d, f.get? h = some d) ∧ ∃ e, f.get? x = some e := by
  obtain ⟨hs, climb, met⟩ := wf.spans_iff_within.1 spans
  exact ⟨climb.found_of_mem met, climb.found⟩

/-! ### Removal -/

/-- `g` is `f` without the branch of `h`, which its owner has let go of. -/
structure Removed (f g : Forest) (h : Handle) : Prop where
  footprint : f.Footprint g (f.Spans h) (fun x => ∃ d, f.get? h = some d ∧ d.parent = some x)
    fun _ => False
  owner : ∀ {o : Handle} {d e : Entry}, f.get? h = some d → d.parent = some o → f.get? o = some e →
    g.get? o = some (e.release h)

theorem Without.removed (wf : f.WellFormed) (found : f.get? h = some d) (without : f.Without g h) :
    f.Removed g h := by
  refine ⟨⟨fun {x e} there => ?_, fun {x e} there outside notOwner => ?_, fun {x} missing => ?_⟩,
    fun {o d' e} again owned there => ?_⟩
  · rw [wf.spans_iff_within]
    constructor
    · intro dead
      by_contra outside
      rw [without.kept x outside, there] at dead
      cases dead
    · exact without.vacated x
  · rw [wf.spans_iff_within] at outside
    rw [without.kept x outside, wf.map_release found fun named => notOwner ⟨d, found, named⟩, there]
  · have outside : ¬ f.Within h x := fun within => by
      obtain ⟨e, there⟩ := within.found
      rw [missing] at there
      cases there
    simp [without.kept x outside, missing]
  · rw [found] at again
    cases again
    rw [without.kept o (Within.not_owner found owned), there, Option.map_some]

theorem WellFormed.exists_removed (wf : f.WellFormed) (h : Handle) :
    ∃ g, f.remove h = .ok g ∧ f.Removed g h := by
  cases found : f.get? h with
  | none =>
    have empty : ∀ x, ¬ f.Spans h x := by
      intro x spans
      obtain ⟨⟨d, there⟩, _⟩ := wf.found_of_spans spans
      rw [found] at there
      cases there
    refine ⟨f, by rw [remove, found], ⟨?_, fun there _ _ => there, ?_⟩, ?_⟩
    · simp +contextual [empty]
    · simp
    · simp [found]
  | some d =>
    obtain ⟨g, run, without⟩ := wf.exists_remove found
    exact ⟨g, run, without.removed wf found⟩

/-! ### Roles -/

def Plays (f : Forest) (owner : Handle) (role : Role) (x : Handle) : Prop :=
  ∃ d previous, f.get? owner = some d ∧ d.content.holder? role = some previous ∧ f.Spans previous x

/-- `child` has the role in `g`, and whoever played it in `f` is gone with its branch. -/
structure Attached (f g : Forest) (owner : Handle) (role : Role) (child : Handle) : Prop where
  footprint : f.Footprint g (f.Plays owner role) (fun x => x = owner ∨ f.Spans child x) fun _ => False
  held : ∃ d renewed, f.get? owner = some d ∧ d.content.setHolder? role (some child) = some renewed ∧
    g.get? owner = some { d with content := renewed }
  branch : ∀ {x : Handle} {d : Entry}, f.get? x = some d → f.Spans child x → ∃ paths, g.get? x =
    some { d with parent := if x = child then some owner else d.parent, paths := paths }

theorem WellFormed.get?_recast (wf : f.WellFormed) (found : f.get? owner = some d) {renewed : Content}
    (recasts : f.recast owner d role renewed = .ok g) (x : Handle) :
    (f.Plays owner role x → g.get? x = none) ∧
      (¬ f.Plays owner role x →
        g.get? x = if x = owner then some { d with content := renewed } else f.get? x) := by
  have now := get?_put_of_found found (some { d with content := renewed })
  simp only [Plays, found, Option.some.injEq, exists_and_left, exists_eq_left', wf.spans_iff_within]
  cases filled : d.content.holder? role with
  | none =>
    rw [recast, filled] at recasts
    cases recasts
    simp [now]
  | some previous =>
    obtain ⟨_, e, k, _, _, run, vacated, kept⟩ :=
      wf.exists_discard_holder found filled { d with content := renewed }
    rw [recast, filled] at recasts
    cases recasts.symm.trans run
    simp only [Option.some.injEq, exists_eq_left']
    exact ⟨vacated x, fun outside => by rw [kept x outside, now]⟩

/-- Whoever is to play a role has nobody in common with whoever plays it. -/
theorem WellFormed.not_plays (wf : f.WellFormed) {c : Entry} (childFound : f.get? child = some c)
    (free : c.parent = none) (apart : ¬ f.Within child owner) (below : f.Within child x) :
    ¬ f.Plays owner role x := by
  rintro ⟨d, previous, ownerFound, filled, spans⟩
  obtain ⟨e, there, named⟩ := wf.holder_names_owner ownerFound filled
  have differ : previous ≠ child := by
    rintro rfl
    rw [childFound] at there
    cases there
    rw [free] at named
    cases named
  rcases below.total (wf.spans_iff_within.1 spans) with upper | lower
  · rcases upper.cases_owner there with same | ⟨o, owned, above⟩
    · exact differ same
    · rw [named] at owned
      cases owned
      exact apart above
  · rcases lower.cases_owner childFound with same | ⟨o, owned, _⟩
    · exact differ same.symm
    · rw [free] at owned
      cases owned

/-- `g` is `f` after a role has changed hands, before any path is scoped again. -/
structure Handed (f g : Forest) (owner : Handle) (role : Role) (child : Handle) (renewed : Content) :
    Prop where
  gone : ∀ x, f.Plays owner role x → g.get? x = none
  kept : ∀ x, ¬ f.Plays owner role x → g.get? x = (f.get? x).map fun e =>
    if x = child then { e with parent := some owner }
    else if x = owner then { e with content := renewed } else e

theorem Consistent.exists_handed (consistent : f.Consistent)
    (run : f.attach owner role child = .ok g) : ∃ c d renewed linked, f.get? child = some c ∧
      f.get? owner = some d ∧ c.parent = none ∧ ¬ f.Within child owner ∧
      d.content.setHolder? role (some child) = some renewed ∧ f.Handed linked owner role child renewed ∧
      linked.Rescoped g (linked.Within child) := by
  have wf := consistent.links
  obtain ⟨c, d, renewed, childFound, ownerFound, free, apart, set, recasted, linked, recasts, named,
    rescopes⟩ := (attach_eq_ok_iff wf).1 run
  obtain ⟨middle, settled, adopts, middleApart, _⟩ :=
    consistent.exists_adopts childFound ownerFound free apart set recasts named
  obtain ⟨c', childNow, rfl⟩ := modify_eq_ok_iff.1 named
  have recast := wf.get?_recast ownerFound recasts
  have linked := get?_put_of_found childNow (some { c' with parent := some owner })
  have childSelf := wf.within_refl childFound
  have fresh : ¬ f.Plays owner role child := wf.not_plays childFound free apart childSelf
  have differ : child ≠ owner := by
    rintro rfl
    exact apart childSelf
  have childKept := (recast child).2 fresh
  rw [if_neg differ, childNow, childFound] at childKept
  cases childKept
  obtain ⟨k, again, rescoped⟩ := (settled.links.adopt adopts middleApart).exists_rescope
    ((linked child).trans (if_pos rfl))
  rw [rescopes] at again
  cases again
  refine ⟨c, d, renewed, _, childFound, ownerFound, free, apart, set,
    ⟨fun x plays => ?_, fun x kept => ?_⟩, rescoped⟩
  · rw [linked, if_neg, (recast x).1 plays]
    rintro rfl
    exact fresh plays
  · rw [linked, (recast x).2 kept]
    by_cases isChild : x = child
    · simp [isChild, childFound]
    · by_cases isOwner : x = owner
      · simp [isOwner, differ.symm, ownerFound]
      · simp [isChild, isOwner]

theorem Handed.within_child {renewed : Content} (handed : f.Handed g owner role child renewed)
    (there : f.Within child child) (within : g.Within child x) : f.Within child x := by
  refine within.of_kept_owners there fun y e notChild now => ?_
  have kept : ¬ f.Plays owner role y := fun plays => by
    rw [handed.gone y plays] at now
    cases now
  rw [handed.kept y kept, Option.map_eq_some_iff] at now
  obtain ⟨d, found, rfl⟩ := now
  refine ⟨d, found, ?_⟩
  rw [if_neg notChild]
  split <;> rfl

theorem WellFormed.not_plays_owner (wf : f.WellFormed) : ¬ f.Plays owner role owner := by
  rintro ⟨d, previous, found, filled, spans⟩
  obtain ⟨e, there, named⟩ := wf.holder_names_owner found filled
  exact Within.not_owner there named (wf.spans_iff_within.1 spans)

theorem Consistent.attached (consistent : f.Consistent) (run : f.attach owner role child = .ok g) :
    f.Attached g owner role child := by
  have wf := consistent.links
  obtain ⟨c, d, renewed, linked, childFound, ownerFound, free, apart, set, handed, rescoped⟩ :=
    consistent.exists_handed run
  have childSelf := wf.within_refl childFound
  have ownerApart : owner ≠ child := by
    rintro rfl
    exact apart childSelf
  have outside : ∀ {x}, ¬ f.Within child x → g.get? x = linked.get? x := fun outside =>
    rescoped.outside _ fun within => outside (handed.within_child childSelf within)
  refine ⟨⟨fun {x e} found => ⟨fun dead => ?_, fun plays => rescoped.missing (handed.gone x plays)⟩,
    fun {x e} found kept apart => ?_, fun {x} missing => ?_⟩, ⟨d, renewed, ownerFound, set, ?_⟩,
    fun {x e} found spans => ?_⟩
  · by_contra kept
    have now := handed.kept x kept
    rw [found] at now
    obtain ⟨paths, later⟩ := rescoped.inside now
    rw [later] at dead
    cases dead
  · rw [not_or, wf.spans_iff_within] at apart
    have notChild : x ≠ child := by
      rintro rfl
      exact apart.2 childSelf
    rw [outside apart.2, handed.kept x kept, found, Option.map_some, if_neg notChild, if_neg apart.1]
  · have dead : linked.get? x = none := by
      by_cases plays : f.Plays owner role x
      · exact handed.gone x plays
      · rw [handed.kept x plays, missing, Option.map_none]
    simp [rescoped.missing dead]
  · rw [outside apart, handed.kept owner wf.not_plays_owner, ownerFound, Option.map_some,
      if_neg ownerApart, if_pos rfl]
  · have below := wf.spans_iff_within.1 spans
    have notOwner : x ≠ owner := by
      rintro rfl
      exact apart below
    have now := handed.kept x (wf.not_plays childFound free apart below)
    rw [found, Option.map_some, if_neg notOwner] at now
    obtain ⟨paths, later⟩ := rescoped.inside now
    refine ⟨paths, later.trans ?_⟩
    split <;> rfl

/-! ### Grafts -/

/-- A container of `f`, which is `d` there, has dropped its first children for copies in `g` of the first
branches of other forests. -/
structure Furnished (f g : Forest) (container : Handle) (d : Entry) (dropped left : List Handle)
    (others : List Forest) (tops : List Handle) : Prop where
  found : f.get? container = some d
  children : d.children = dropped ++ left
  host : g.get? container = some { d with children := left ++ tops }
  copies : List.Forall₂ (fun other top => ∃ root order,
    other.StandsIn g container top d.observer root order) others tops
  footprint : f.Footprint g (fun x => ∃ c ∈ dropped, f.Spans c x) (· = container)
    fun x => ∃ top ∈ tops, g.Spans top x

theorem Drops.footprint {cleared : Forest} {dropped left tops : List Handle} {others : List Forest}
    {watch : Option ObserverId} {notices : List Notice} (wf : f.WellFormed) (settled : cleared.Consistent)
    (drops : f.Drops cleared container dropped left)
    (grafts : Grafts container watch cleared others g tops notices) :
    f.Footprint g (fun x => ∃ c ∈ dropped, f.Spans c x) (· = container)
      fun x => ∃ top ∈ tops, g.Spans top x := by
  obtain ⟨d, found, children, hostCleared⟩ := drops.host
  have hostNow := grafts.host hostCleared
  have notHost : ∀ {c x}, c ∈ dropped → f.Within c x → x ≠ container := by
    rintro c x among within rfl
    have owned : c ∈ d.children := by simp [children, among]
    obtain ⟨e, there, named⟩ := wf.child_names_owner found owned
    exact Within.not_owner there named within
  have kept : ∀ {x}, f.Allocated x → (¬ ∃ c ∈ dropped, f.Spans c x) → x ≠ container →
      g.get? x = f.get? x := by
    intro x given stays differs
    rw [grafts.old (by rwa [drops.capacity]) differs, drops.kept x (fun c among within => stays
      ⟨c, among, wf.spans_iff_within.2 within⟩) differs]
  refine ⟨fun {x e} there => ⟨fun dead => ?_, ?_⟩, fun {x e} there stays differs => ?_,
    fun {x} missing => ⟨fun live => ?_, ?_⟩⟩
  · by_contra stays
    by_cases isHost : x = container
    · rw [isHost, hostNow] at dead
      cases dead
    · rw [kept (index_lt_of_get? there) stays isHost, there] at dead
      cases dead
  · rintro ⟨c, among, spans⟩
    have within := wf.spans_iff_within.1 spans
    rw [grafts.old (by rw [drops.capacity]; exact index_lt_of_get? there) (notHost among within),
      drops.gone c among x within]
  · rw [kept (index_lt_of_get? there) stays differs, there]
  · obtain ⟨e, now⟩ := Option.ne_none_iff_exists'.1 live
    by_cases given : f.Allocated x
    · rw [kept given, missing] at now
      · cases now
      · rintro ⟨c, _, spans⟩
        obtain ⟨_, e, there⟩ := wf.found_of_spans spans
        rw [missing] at there
        cases there
      · rintro rfl
        rw [missing] at found
        cases found
    · refine grafts.new (index_lt_of_get? hostCleared) ?_ (index_lt_of_get? now)
      rw [drops.capacity]
      exact Nat.not_lt.1 given
  · rintro ⟨top, _, spans⟩
    obtain ⟨_, e, there⟩ := (grafts.consistent settled).links.found_of_spans spans
    simp [there]

theorem Drops.furnished {cleared : Forest} {dropped left tops : List Handle} {others : List Forest}
    {notices : List Notice} (wf : f.WellFormed) (settled : cleared.Consistent)
    (found : f.get? container = some d) (drops : f.Drops cleared container dropped left)
    (grafts : Grafts container d.observer cleared others g tops notices) :
    f.Furnished g container d dropped left others tops := by
  obtain ⟨d', again, children, hostCleared⟩ := drops.host
  rw [found] at again
  cases again
  exact ⟨found, children, grafts.host hostCleared,
    grafts.stands (index_lt_of_get? hostCleared), drops.footprint wf settled grafts⟩

/-- Changes of ownership touch what they are about and nothing else. -/
theorem Reachable.footprints (reached : Reachable f) :
    (∀ h, ∃ g, f.remove h = .ok g ∧ f.Removed g h) ∧
    (∀ owner role child g, f.attach owner role child = .ok g → f.Attached g owner role child) ∧
    (∀ container other grafted, Reachable other → f.graft container other = .ok grafted →
      ∃ d, f.Furnished grafted.forest container d [] d.children [other] [grafted.handle]) ∧
    ∀ container others g notices tops, (∀ other ∈ others, Reachable other) →
      f.replaceChildren container others = ⟨g, notices, .ok tops⟩ →
      ∃ d, f.Furnished g container d d.children [] others tops := by
  have consistent := reached.consistent
  have wf := consistent.links
  refine ⟨wf.exists_removed, fun owner role child g run => consistent.attached run,
    fun container other grafted otherReached run => ?_,
    fun container others g notices tops othersReached run => ?_⟩
  · obtain ⟨d, root, order, found, first, top, bears, _⟩ :=
      consistent.bears_of_graft otherReached.consistent run
    have settled := consistent.graft otherReached.consistent run
    refine ⟨d, ?_⟩
    rw [top]
    exact (Drops.nil found).furnished wf consistent found (.cons first bears settled (.nil _))
  · rcases consistent.replaceChildren_runs fun other inside => (othersReached other inside).consistent with
      ⟨e, refused⟩ | ⟨d, cleared, before, rest, k, hs, told, found, settled, drops, parts, grafts,
        ⟨rfl, ran⟩ | ⟨_, stops⟩⟩
    · rw [run] at refused
      cases refused
    · rw [run] at ran
      cases ran
      rw [List.append_nil] at parts
      subst parts
      exact ⟨d, drops.furnished wf settled found grafts⟩
    · rw [run] at stops
      cases stops

private def furnishedForm : Forest :=
  empty.afterAll
    [.insert (.form "" none none) "" (Content.holders_form ""),
      .insert (.panel "") "" (Content.holders_panel ""),
      .insert (.input "" false) "" (Content.holders_input "" false),
      .insert (.panel "") "" (Content.holders_panel ""),
      .insert (.input "" false) "" (Content.holders_input "" false),
      .insert (.panel "") "" (Content.holders_panel ""),
      .insert (.input "" false) "" (Content.holders_input "" false),
      .attach ⟨0⟩ .header ⟨1⟩, .setParent ⟨2⟩ ⟨1⟩, .setParent ⟨4⟩ ⟨3⟩, .setParent ⟨5⟩ ⟨0⟩,
      .setParent ⟨6⟩ ⟨5⟩]

/-- The other panel goes with its input, so does the former header, and a text comes beside an input or in
its place. -/
theorem Reachable.footprints_of_form : ∃ f text removed attached grafted replaced notices tops,
    Reachable f ∧ Reachable text ∧
    f.remove ⟨5⟩ = .ok removed ∧ f.Removed removed ⟨5⟩ ∧ removed.get? ⟨6⟩ = none ∧
    f.attach ⟨0⟩ .header ⟨3⟩ = .ok attached ∧ f.Attached attached ⟨0⟩ .header ⟨3⟩ ∧
    attached.get? ⟨2⟩ = none ∧
    f.graft ⟨5⟩ text = .ok grafted ∧
    (∃ d, f.Furnished grafted.forest ⟨5⟩ d [] d.children [text] [grafted.handle]) ∧
    f.replaceChildren ⟨5⟩ [text] = ⟨replaced, notices, .ok tops⟩ ∧
    ∃ d, f.Furnished replaced ⟨5⟩ d d.children [] [text] tops := by
  have reached : Reachable furnishedForm := .afterAll .empty _ (by simp [Call.others])
  let text := Forest.empty.afterAll [.insert (.textItem "") "" rfl]
  have single : Reachable text := .afterAll .empty _ (by simp [Call.others])
  obtain ⟨removes, attaches, grafts, replaces⟩ := Reachable.footprints reached
  obtain ⟨removed, removal, without⟩ := removes ⟨5⟩
  obtain ⟨attached, attachment⟩ : ∃ g, furnishedForm.attach ⟨0⟩ .header ⟨3⟩ = .ok g := ⟨_, rfl⟩
  obtain ⟨grafted, graft⟩ : ∃ g, furnishedForm.graft ⟨5⟩ text = .ok g := ⟨_, rfl⟩
  obtain ⟨replaced, notices, tops, replacement⟩ : ∃ g notices tops,
    furnishedForm.replaceChildren ⟨5⟩ [text] = ⟨g, notices, .ok tops⟩ := ⟨_, _, _, rfl⟩
  have handed := attaches _ _ _ _ attachment
  have inputOfPanel : furnishedForm.Spans ⟨5⟩ ⟨6⟩ := ⟨[⟨5⟩, ⟨6⟩], rfl, by simp⟩
  have inputOfHeader : furnishedForm.Spans ⟨1⟩ ⟨2⟩ := ⟨[⟨1⟩, ⟨2⟩], rfl, by simp⟩
  refine ⟨furnishedForm, text, removed, attached, grafted, replaced, notices, tops, reached, single,
    removal, without, (without.footprint.dies rfl).2 inputOfPanel, attachment, handed,
    (handed.footprint.dies rfl).2 ⟨_, ⟨1⟩, rfl, rfl, inputOfHeader⟩, graft,
    grafts _ _ _ single graft, replacement, replaces _ _ _ _ _ (by simp [single]) replacement⟩

end DataBinding.Forest
