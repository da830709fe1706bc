import DataBinding.Forest.Lineage
import DataBinding.Proofs.Outcome
import Mathlib.Data.List.Nodup
import Mathlib.Data.List.Perm.Subperm

/-!
# Climbing to the top

The lineage of a definition as a relation. A climb ends at a definition without an owner, visits no
definition twice and is the only one from where it starts, so it fits into the places of the forest
and is what the walk along the owners returns.
-/

namespace DataBinding.Forest

/-- A definition, its owner, the owner of that one, up to a definition without an owner. -/
inductive Climb (f : Forest) : Handle → List Handle → Prop
  | top {h : Handle} {d : Entry} (found : f.get? h = some d) (free : d.parent = none) :
    Climb f h [h]
  | up {h owner : Handle} {d : Entry} {above : List Handle} (found : f.get? h = some d)
    (owned : d.parent = some owner) (rest : Climb f owner above) : Climb f h (h :: above)

def Within (f : Forest) (h x : Handle) : Prop :=
  ∃ hs, f.Climb x hs ∧ h ∈ hs

/-- No more definitions can be listed once each than the forest has places. -/
theorem length_le_capacity_of_nodup {f : Forest} {hs : List Handle} (distinct : hs.Nodup)
    (live : ∀ x ∈ hs, ∃ d, f.get? x = some d) : hs.length ≤ f.capacity := by
  have inside : hs.map Handle.index ⊆ List.range f.capacity := by
    intro index met
    obtain ⟨x, there, rfl⟩ := List.mem_map.1 met
    obtain ⟨d, found⟩ := live x there
    exact List.mem_range.2 (index_lt_of_get? found)
  have apart : (hs.map Handle.index).Nodup :=
    distinct.map fun a b same => by cases a; cases b; exact congrArg Handle.mk same
  have short := (apart.subperm inside).length_le
  rwa [List.length_map, List.length_range] at short

namespace Climb

variable {f g : Forest} {h x : Handle} {hs : List Handle}

theorem found (climb : f.Climb h hs) : ∃ d, f.get? h = some d := by
  cases climb with
  | top found _ => exact ⟨_, found⟩
  | up found _ _ => exact ⟨_, found⟩

theorem eq_cons (climb : f.Climb h hs) : ∃ above, hs = h :: above := by
  cases climb with
  | top _ _ => exact ⟨[], rfl⟩
  | up _ _ _ => exact ⟨_, rfl⟩

theorem mem_self (climb : f.Climb h hs) : h ∈ hs := by
  obtain ⟨above, rfl⟩ := climb.eq_cons
  exact List.mem_cons_self

theorem unique (climb : f.Climb h hs) {others : List Handle} (other : f.Climb h others) :
    hs = others := by
  induction climb generalizing others with
  | top found free =>
    cases other with
    | top _ _ => rfl
    | up again owned _ =>
      rw [found] at again
      cases again
      rw [free] at owned
      cases owned
  | up found owned _ ih =>
    cases other with
    | top again free =>
      rw [found] at again
      cases again
      rw [free] at owned
      cases owned
    | up again owned' rest =>
      rw [found] at again
      cases again
      rw [owned] at owned'
      cases owned'
      rw [ih rest]

theorem exists_suffix (climb : f.Climb h hs) (met : x ∈ hs) :
    ∃ before rest, hs = before ++ rest ∧ f.Climb x rest := by
  induction climb with
  | top found free =>
    rw [List.mem_singleton] at met
    subst met
    exact ⟨[], _, rfl, .top found free⟩
  | @up h owner d above found owned rest ih =>
    rcases List.mem_cons.1 met with rfl | later
    · exact ⟨[], _, rfl, .up found owned rest⟩
    · obtain ⟨before, after, rfl, onward⟩ := ih later
      exact ⟨h :: before, after, rfl, onward⟩

theorem found_of_mem (climb : f.Climb h hs) (met : x ∈ hs) : ∃ d, f.get? x = some d := by
  obtain ⟨_, _, _, onward⟩ := climb.exists_suffix met
  exact onward.found

theorem nodup (climb : f.Climb h hs) : hs.Nodup := by
  induction climb with
  | top _ _ => exact List.nodup_singleton _
  | @up h owner d above found owned rest ih =>
    refine List.nodup_cons.2 ⟨fun again => ?_, ih⟩
    -- a second visit would climb the whole way again in fewer steps
    obtain ⟨before, after, split, onward⟩ := rest.exists_suffix again
    have same : h :: above = after := (Climb.up found owned rest).unique onward
    have lengths : above.length = before.length + after.length := by rw [split, List.length_append]
    rw [← same, List.length_cons] at lengths
    omega

theorem length_le_capacity (climb : f.Climb h hs) : hs.length ≤ f.capacity :=
  length_le_capacity_of_nodup climb.nodup fun _ met => climb.found_of_mem met

/-- A forest in which everyone met on the way is there with the same owner has the same climb. -/
theorem carry (climb : f.Climb h hs) (kept : ∀ x ∈ hs, ∀ d, f.get? x = some d →
    ∃ e, g.get? x = some e ∧ e.parent = d.parent) : g.Climb h hs := by
  induction climb with
  | @top h d found free =>
    obtain ⟨e, there, parent⟩ := kept h List.mem_cons_self d found
    exact .top there (parent.trans free)
  | @up h owner d above found owned rest ih =>
    obtain ⟨e, there, parent⟩ := kept h List.mem_cons_self d found
    exact .up there (parent.trans owned) (ih fun x later => kept x (List.mem_cons_of_mem _ later))

theorem lineageWithin_eq (climb : f.Climb h hs) {length : Nat} (enough : hs.length ≤ length) :
    f.lineageWithin length h = .ok hs := by
  induction climb generalizing length with
  | @top h d found free =>
    obtain ⟨length, rfl⟩ : ∃ n, length = n + 1 := ⟨length - 1, by simp at enough; omega⟩
    rw [lineageWithin, found, Option.bind_some, free]
  | @up h owner d above found owned rest ih =>
    obtain ⟨length, rfl⟩ : ∃ n, length = n + 1 := ⟨length - 1, by simp at enough; omega⟩
    have shorter : above.length ≤ length := by simpa using enough
    rw [lineageWithin, found, Option.bind_some, owned]
    simp only [ih shorter, Except.map]

theorem lineage_eq (climb : f.Climb h hs) : f.lineage h = .ok hs :=
  climb.lineageWithin_eq (Nat.le_succ_of_le climb.length_le_capacity)

theorem exists_top (climb : f.Climb h hs) :
    ∃ top d, hs.getLast? = some top ∧ f.get? top = some d ∧ d.parent = none := by
  induction climb with
  | @top h d found free => exact ⟨h, d, rfl, found, free⟩
  | @up h owner d above found owned rest ih =>
    obtain ⟨top, e, last, there, free⟩ := ih
    obtain ⟨onward, rfl⟩ := rest.eq_cons
    exact ⟨top, e, by rw [List.getLast?_cons_cons, last], there, free⟩

theorem exists_segmentsUp (climb : f.Climb h hs) : ∃ segments, f.segmentsUp hs = .ok segments := by
  induction climb with
  | top _ _ => exact ⟨[], rfl⟩
  | @up h owner d above found owned rest ih =>
    obtain ⟨segments, upper⟩ := ih
    obtain ⟨onward, rfl⟩ := rest.eq_cons
    obtain ⟨o, there⟩ := rest.found
    refine ⟨o.segment h :: segments, ?_⟩
    rw [segmentsUp, find_eq_ok_iff.2 there, upper]
    rfl

theorem exists_identity (climb : f.Climb h hs) : ∃ identity, f.identity h = .ok identity := by
  obtain ⟨d, there⟩ := climb.found
  obtain ⟨segments, upwards⟩ := climb.exists_segmentsUp
  simp only [identity, find_eq_ok_iff.2 there, climb.lineage_eq, Outcome.ok_bind, upwards]
  split
  · exact ⟨_, rfl⟩
  · exact ⟨_, rfl⟩

end Climb

namespace Within

variable {f g : Forest} {h x y : Handle}

theorem refl {hs : List Handle} (climb : f.Climb h hs) : f.Within h h :=
  ⟨hs, climb, climb.mem_self⟩

theorem found (within : f.Within h x) : ∃ d, f.get? x = some d := by
  obtain ⟨hs, climb, _⟩ := within
  exact climb.found

theorem trans (lower : f.Within y x) (upper : f.Within h y) : f.Within h x := by
  obtain ⟨hs, climb, met⟩ := lower
  obtain ⟨others, onward, there⟩ := upper
  obtain ⟨before, rest, rfl, again⟩ := climb.exists_suffix met
  rw [onward.unique again] at there
  exact ⟨_, climb, List.mem_append_right _ there⟩

theorem carry (within : f.Within h x) (kept : ∀ z d, f.Within z x → f.get? z = some d →
    ∃ e, g.get? z = some e ∧ e.parent = d.parent) : g.Within h x := by
  obtain ⟨hs, climb, met⟩ := within
  exact ⟨hs, climb.carry fun z passed d there => kept z d ⟨hs, climb, passed⟩ there, met⟩

theorem cases_owner (within : f.Within h x) {d : Entry} (found : f.get? x = some d) :
    x = h ∨ ∃ owner, d.parent = some owner ∧ f.Within h owner := by
  obtain ⟨hs, climb, met⟩ := within
  cases climb with
  | top _ _ => exact .inl (List.mem_singleton.1 met).symm
  | up again owned rest =>
    rw [found] at again
    cases again
    rcases List.mem_cons.1 met with rfl | later
    · exact .inl rfl
    · exact .inr ⟨_, owned, _, rest, later⟩

theorem of_owner {owner : Handle} {d : Entry} (found : f.get? x = some d)
    (owned : d.parent = some owner) (within : f.Within h owner) : f.Within h x := by
  obtain ⟨hs, climb, met⟩ := within
  exact ⟨x :: hs, .up found owned climb, List.mem_cons_of_mem _ met⟩

theorem not_owner {owner : Handle} {d : Entry} (found : f.get? x = some d)
    (owned : d.parent = some owner) : ¬ f.Within x owner := by
  intro within
  obtain ⟨hs, climb, met⟩ := within
  exact (List.nodup_cons.1 (Climb.up found owned climb).nodup).1 met

/-- Whoever is below a definition was below it before if nobody on the way up has changed owners. -/
theorem of_kept_owners {f g : Forest} {h x : Handle} (within : g.Within h x) (there : f.Within h h)
    (kept : ∀ y e, y ≠ h → g.get? y = some e → ∃ d, f.get? y = some d ∧ d.parent = e.parent) :
    f.Within h x := by
  obtain ⟨hs, climb, met⟩ := within
  induction climb with
  | top found free =>
    rw [List.mem_singleton] at met
    exact met ▸ there
  | @up x owner e above found owned rest ih =>
    by_cases same : x = h
    · exact same ▸ there
    · obtain ⟨d, was, parent⟩ := kept x e same found
      have later := (List.mem_cons.1 met).resolve_left (Ne.symm same)
      exact .of_owner was (parent.trans owned) (ih later)

theorem antisymm (first : f.Within h x) (second : f.Within x h) : x = h := by
  obtain ⟨d, found⟩ := first.found
  rcases first.cases_owner found with same | ⟨owner, owned, above⟩
  · exact same
  · exact absurd (above.trans second) (not_owner found owned)

end Within

end DataBinding.Forest
