import DataBinding.Binding.Resolution
import DataBinding.Proofs.Forest.Branches
import DataBinding.Proofs.Forest.Reachable

/-!
# Visible chains

A definition is visible exactly when a chain leads down from it, child by child, through definitions
that show by themselves. A container that hides when empty hands the question on to one of its
children, and any other definition ends the chain. Whoever plays a role is in no chain.
-/

namespace DataBinding

namespace Definition

variable {F : Type} {d : Definition F} {data : Data}

/-- Neither the definition itself nor any of its readings asks for hiding. -/
structure Shows (d : Definition F) (data : Data) : Prop where
  unflagged : d.hidden = false
  untripped : d.hasDataPath = true → ∀ reading ∈ d.readings data,
    ¬ (d.hideIfEmpty = true ∧ reading.isEmpty = true) ∧
      ¬ (d.hideIfUndefined = true ∧ reading.isUndefined = true)

def asksChildren (d : Definition F) : Bool :=
  d.isContainer && d.hideIfEmpty

theorem shows_iff : d.Shows data ↔ d.hidden = false ∧ d.trips data = false := by
  have untripped : d.trips data = false ↔ (d.hasDataPath = true → ∀ reading ∈ d.readings data,
      ¬ (d.hideIfEmpty = true ∧ reading.isEmpty = true) ∧
        ¬ (d.hideIfUndefined = true ∧ reading.isUndefined = true)) := by
    simp only [trips, Bool.and_eq_false_imp, List.any_eq_false, Bool.or_eq_true, Bool.and_eq_true,
      not_or]
  rw [untripped]
  exact ⟨fun shows => ⟨shows.unflagged, shows.untripped⟩,
    fun ⟨unflagged, untripped⟩ => ⟨unflagged, untripped⟩⟩

end Definition

namespace Branch

variable {data : Data}

theorem Below.mem_children {α : Type} {below : Below α} {result : α} :
    result ∈ below.children ↔ (none, result) ∈ below := by
  simp [children, Prod.exists]

/-- A branch is visible when its definition shows and, if that asks the children, one of them is. -/
theorem isHidden_eq_false_iff {role : Option Role} {h : Handle} {d : Entry} {owned : List Branch} :
    (Branch.mk role h d owned).isHidden data = false ↔ d.Shows data ∧ (d.asksChildren = true →
      ∃ branch ∈ owned, branch.role = none ∧ branch.isHidden data = false) := by
  rw [isHidden, fold_mk, Bool.or_eq_false_iff, Bool.or_eq_false_iff, ← Definition.shows_iff,
    ← Definition.asksChildren, Bool.and_eq_false_imp]
  refine and_congr_right fun _ => imp_congr_right fun _ => ?_
  rw [List.all_eq_false]
  constructor
  · rintro ⟨_, inside, visible⟩
    obtain ⟨branch, owns, same⟩ := List.mem_map.1 (Below.mem_children.1 inside)
    obtain ⟨child, rfl⟩ := Prod.mk.inj same
    exact ⟨branch, owns, child, Bool.eq_false_iff.2 visible⟩
  · rintro ⟨branch, owns, child, visible⟩
    refine ⟨branch.isHidden data, Below.mem_children.2 ?_, Bool.eq_false_iff.1 visible⟩
    exact List.mem_map.2 ⟨branch, owns, Prod.ext child rfl⟩

end Branch

namespace Forest

variable {f : Forest} {data : Data} {h c : Handle} {d : Entry}

def Lists (f : Forest) (owner child : Handle) : Prop :=
  ∃ d, f.get? owner = some d ∧ child ∈ d.children ∧ ∀ role, d.content.holder? role ≠ some child

/-- A chain of definitions, each a child of the one before it, that shows the first one. -/
structure VisibleChain (f : Forest) (data : Data) (h : Handle) (chain : List Handle) : Prop where
  starts : chain.head? = some h
  descends : chain.IsChain f.Lists
  shows : ∀ x ∈ chain, ∃ d, f.get? x = some d ∧ d.Shows data
  asks : ∀ x ∈ chain.dropLast, ∃ d, f.get? x = some d ∧ d.asksChildren = true
  ends : ∃ last d, chain.getLast? = some last ∧ f.get? last = some d ∧ d.asksChildren = false

namespace VisibleChain

variable {chain : List Handle}

theorem single (found : f.get? h = some d) (shows : d.Shows data)
    (settled : d.asksChildren = false) : f.VisibleChain data h [h] where
  starts := rfl
  descends := .singleton h
  shows := by simpa using ⟨d, found, shows⟩
  asks := by simp
  ends := ⟨h, d, rfl, found, settled⟩

theorem cons (rest : f.VisibleChain data c chain) (found : f.get? h = some d)
    (shows : d.Shows data) (asks : d.asksChildren = true) (lists : f.Lists h c) :
    f.VisibleChain data h (h :: chain) := by
  obtain ⟨starts, descends, restShows, restAsks, last, e, ends⟩ := rest
  obtain ⟨tail, rfl⟩ := List.head?_eq_some_iff.1 starts
  refine ⟨rfl, descends.cons_cons lists, ?_, ?_, last, e, ?_⟩
  · exact List.forall_mem_cons.2 ⟨⟨d, found, shows⟩, restShows⟩
  · rw [List.dropLast_cons_cons]
    exact List.forall_mem_cons.2 ⟨⟨d, found, asks⟩, restAsks⟩
  · rwa [List.getLast?_cons_cons]

theorem cases_head (shown : f.VisibleChain data h chain) (found : f.get? h = some d) :
    d.Shows data ∧
      (d.asksChildren = true → ∃ c rest, f.Lists h c ∧ f.VisibleChain data c rest) := by
  obtain ⟨starts, descends, shows, asks, last, e, ends, there, settled⟩ := shown
  obtain ⟨tail, rfl⟩ := List.head?_eq_some_iff.1 starts
  obtain ⟨⟨d', found', first⟩, shows⟩ := List.forall_mem_cons.1 shows
  rw [found] at found'
  cases found'
  refine ⟨first, fun asking => ?_⟩
  cases tail with
  | nil =>
    obtain rfl : h = last := Option.some.inj ends
    rw [found] at there
    cases there
    rw [asking] at settled
    cases settled
  | cons c rest =>
    rw [List.dropLast_cons_cons] at asks
    rw [List.getLast?_cons_cons] at ends
    rw [List.isChain_cons_cons] at descends
    exact ⟨c, c :: rest, descends.1, rfl, descends.2, shows,
      fun x inside => asks x (List.mem_cons_of_mem _ inside), last, e, ends, there, settled⟩

end VisibleChain

theorem exists_visibleChain_iff (found : f.get? h = some d) :
    (∃ chain, f.VisibleChain data h chain) ↔ d.Shows data ∧ (d.asksChildren = true →
      ∃ c, f.Lists h c ∧ ∃ chain, f.VisibleChain data c chain) := by
  constructor
  · rintro ⟨chain, shown⟩
    obtain ⟨shows, children⟩ := shown.cases_head found
    refine ⟨shows, fun asks => ?_⟩
    obtain ⟨c, rest, lists, below⟩ := children asks
    exact ⟨c, lists, rest, below⟩
  · rintro ⟨shows, children⟩
    by_cases asks : d.asksChildren = true
    · obtain ⟨c, lists, rest, below⟩ := children asks
      exact ⟨h :: rest, below.cons found shows asks lists⟩
    · exact ⟨[h], .single found shows (Bool.not_eq_true _ ▸ asks)⟩

theorem Reads.lists_iff (wf : f.WellFormed) {role : Option Role} {owned : List Branch}
    (reads : f.Reads (.mk role h d owned)) :
    f.Lists h c ↔ ∃ branch ∈ owned, branch.role = none ∧ branch.handle = c := by
  obtain ⟨found, listed, _⟩ := reads
  have child : c ∈ d.children ↔ ∃ branch ∈ owned, branch.role = none ∧ branch.handle = c := by
    have piece : c ∈ d.children ↔ (none, c) ∈ d.owned := by simp [Definition.owned]
    rw [piece, ← listed, List.mem_map]
    simp only [Prod.mk.injEq]
  rw [← child]
  constructor
  · rintro ⟨d', found', inside, _⟩
    rw [found] at found'
    cases found'
    exact inside
  · intro inside
    refine ⟨d, found, inside, fun role filled => ?_⟩
    have distinct := wf.nodup_belongings found
    rw [Definition.belongings_eq, List.nodup_append] at distinct
    exact distinct.2.2 c inside c (List.mem_map_of_mem (Content.mem_holders.2 filled)) rfl

/-- A branch is visible when a chain shows the definition that it is of. -/
theorem Reads.isHidden_eq_false_iff (wf : f.WellFormed) {b : Branch} (reads : f.Reads b) :
    b.isHidden data = false ↔ ∃ chain, f.VisibleChain data b.handle chain := by
  -- both sides ask the same of the definition and then of some child, whose branch is smaller
  induction reads with
  | @mk role h d owned found listed each ih =>
    have whole : f.Reads (.mk role h d owned) := .mk found listed each
    rw [Branch.isHidden_eq_false_iff, Branch.handle, exists_visibleChain_iff found]
    refine and_congr_right fun _ => imp_congr_right fun _ => ?_
    constructor
    · rintro ⟨branch, inside, child, visible⟩
      exact ⟨branch.handle, (whole.lists_iff wf).2 ⟨branch, inside, child, rfl⟩,
        (ih branch inside).1 visible⟩
    · rintro ⟨c, lists, below⟩
      obtain ⟨branch, inside, child, rfl⟩ := (whole.lists_iff wf).1 lists
      exact ⟨branch, inside, child, (ih branch inside).2 below⟩

/-- Whether a definition of a reachable forest is hidden has an answer, and it is not hidden exactly
when a chain shows it. -/
theorem Reachable.isHidden_eq_false_iff_exists_chain (reached : Reachable f)
    (found : f.get? h = some d) (data : Data) :
    ∃ hidden, f.isHidden h data = .ok hidden ∧
      (hidden = false ↔ ∃ chain, f.VisibleChain data h chain) := by
  have wf := reached.consistent.links
  obtain ⟨b, read, reads, _, rfl⟩ := wf.exists_branch found
  refine ⟨b.isHidden data, ?_, reads.isHidden_eq_false_iff wf⟩
  rw [isHidden, read]
  rfl

private def whenEmpty : Notes where
  key := none
  hidden := false
  hideIfEmpty := true
  hideIfUndefined := false
  validators := []
  edited := false
  observer := none
  bundle := none

/-- A form with a header and with an input in a panel. All but the header hide when empty. -/
private def emptiableForm : Forest :=
  empty.afterAll
    [.insert (.form "" none none) "" rfl, .insert (.textItem "") "" rfl,
      .insert (.panel "") "" (Content.holders_panel ""),
      .insert (.input "" false) "%0%.a" (Content.holders_input "" false),
      .attach ⟨0⟩ .header ⟨1⟩, .setParent ⟨2⟩ ⟨0⟩, .setParent ⟨3⟩ ⟨2⟩,
      .annotate ⟨0⟩ whenEmpty, .annotate ⟨2⟩ whenEmpty, .annotate ⟨3⟩ whenEmpty]

/-- With something in the input the form is visible through the panel. With nothing in it no chain
shows the form, although its header is visible. -/
theorem Reachable.isHidden_eq_false_iff_exists_chain_of_form : ∃ f, Reachable f ∧
    (∃ chain, f.VisibleChain [some (.object [("a", .bool true)])] ⟨0⟩ chain) ∧
    f.isHidden ⟨0⟩ [some (.object [])] = .ok true ∧
    (¬ ∃ chain, f.VisibleChain [some (.object [])] ⟨0⟩ chain) ∧
    ∃ chain, f.VisibleChain [some (.object [])] ⟨1⟩ chain := by
  have reached : Reachable emptiableForm := .afterAll .empty _ (by simp [Call.others])
  obtain ⟨form, found⟩ : ∃ d, emptiableForm.get? ⟨0⟩ = some d := ⟨_, rfl⟩
  obtain ⟨header, there⟩ : ∃ d, emptiableForm.get? ⟨1⟩ = some d := ⟨_, rfl⟩
  have visible : emptiableForm.isHidden ⟨0⟩ [some (.object [("a", .bool true)])] = .ok false := by
    decide +kernel
  have hidden : emptiableForm.isHidden ⟨0⟩ [some (.object [])] = .ok true := by decide +kernel
  have apart : emptiableForm.isHidden ⟨1⟩ [some (.object [])] = .ok false := by decide +kernel
  obtain ⟨_, shown, through⟩ := Reachable.isHidden_eq_false_iff_exists_chain reached found
    [some (.object [("a", .bool true)])]
  obtain ⟨_, hides, empty⟩ := Reachable.isHidden_eq_false_iff_exists_chain reached found
    [some (.object [])]
  obtain ⟨_, stays, own⟩ := Reachable.isHidden_eq_false_iff_exists_chain reached there
    [some (.object [])]
  cases shown.symm.trans visible
  cases hides.symm.trans hidden
  cases stays.symm.trans apart
  exact ⟨emptiableForm, reached, through.1 rfl, hidden, mt empty.2 (by decide), own.1 rfl⟩

end Forest

end DataBinding
