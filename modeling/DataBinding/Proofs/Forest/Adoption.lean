import DataBinding.Proofs.Forest.Liveness

/-!
# Giving a child to a container

When a definition is given an owner it becomes the last child there, or it had that owner already and
nothing changes. In the second case it need not be a child: whoever plays a role names the owner as
well, and is left in that role. A change that is refused leaves the forest as it was.
-/

namespace DataBinding

namespace Content

variable {content : Content} {h : Handle}

theorem role_unique (distinct : (content.holders.map (·.2)).Nodup) {role other : Role}
    (filled : content.holder? role = some h) (filled' : content.holder? other = some h) :
    role = other := by
  have same := List.inj_on_of_nodup_map distinct (mem_holders.2 filled) (mem_holders.2 filled') rfl
  exact congrArg Prod.fst same

end Content

namespace Forest

variable {f g : Forest} {child owner : Handle} {c d : Entry}

/-- What an owner has is one of its children or plays one role for it, and never both. -/
theorem WellFormed.cases_owned (wf : f.WellFormed) (found : f.get? child = some c)
    (owned : c.parent = some owner) (ownerFound : f.get? owner = some d) :
    d.isContainer = true ∧ d.children.count child = 1 ∧
        (∀ role, d.content.holder? role ≠ some child) ∨
      child ∉ d.children ∧ ∃! role, d.content.holder? role = some child := by
  have distinct := wf.nodup_belongings ownerFound
  have listed := wf.mem_belongings found owned ownerFound
  rw [Definition.belongings_eq] at distinct listed
  obtain ⟨once, roles, apart⟩ := List.nodup_append'.1 distinct
  have plays : ∀ {role}, d.content.holder? role = some child → child ∈ d.content.holders.map (·.2) :=
    fun filled => List.mem_map_of_mem (Content.mem_holders.2 filled)
  rcases List.mem_append.1 listed with isChild | holds
  · refine .inl ⟨wf.isContainer_of_children ownerFound (List.ne_nil_of_mem isChild),
      List.count_eq_one_of_mem once isChild, fun role filled => apart isChild (plays filled)⟩
  · obtain ⟨⟨role, h⟩, inside, rfl⟩ := List.mem_map.1 holds
    exact .inr ⟨fun isChild => apart isChild holds, role, Content.mem_holders.1 inside,
      fun other filled => Content.role_unique roles filled (Content.mem_holders.1 inside)⟩

theorem WellFormed.get?_owner_of_setParent (wf : f.WellFormed) (found : f.get? child = some c)
    (ownerFound : f.get? owner = some d) (free : c.parent = none)
    (run : f.setParent child owner = .ok g) : d.isContainer = true ∧
      g.get? owner = some { d with children := d.children ++ [child] } ∧
      ∃ c', g.get? child = some c' ∧ c'.parent = some owner := by
  obtain ⟨c', d', again, there, outcome⟩ := (setParent_eq_ok_iff wf).1 run
  rw [found] at again
  rw [ownerFound] at there
  cases again
  cases there
  obtain ⟨container, apart, _⟩ := (outcome.resolve_left fun ⟨named, _⟩ => by simp [free] at named).2
  obtain ⟨g', again, rescoped⟩ := wf.exists_setParent found ownerFound free container apart
  rw [run] at again
  cases again
  have differ : child ≠ owner := by
    rintro rfl
    exact apart (wf.within_refl found)
  have lookup := get?_linkChild found ownerFound
  have named : (f.linkChild child owner c d).get? child = some { c with parent := some owner } := by
    rw [lookup, if_neg differ, if_pos rfl]
  obtain ⟨paths, now⟩ := rescoped.inside named
  refine ⟨container, ?_, _, now, rfl⟩
  rw [rescoped.outside owner (Within.not_owner named rfl), lookup, if_pos rfl]

/-- Giving a definition an owner succeeds in two cases. Either it had none, and is now the last child of
a container, once. Or it had this owner, and nothing changes; it is then a child of a container, once,
or it plays one role there and is no child. When it fails the forest stays, and the reason is not a
fault. -/
theorem Reachable.setParent_delivers (reached : Reachable f) (child owner : Handle) :
    (∀ g, f.setParent child owner = .ok g →
      ∃ c d, f.get? child = some c ∧ f.get? owner = some d ∧
        (c.parent = none ∧ d.isContainer = true ∧ (d.children ++ [child]).count child = 1 ∧
            g.get? owner = some { d with children := d.children ++ [child] } ∧
            (∃ c', g.get? child = some c' ∧ c'.parent = some owner) ∨
          c.parent = some owner ∧ g = f ∧
            (d.isContainer = true ∧ d.children.count child = 1 ∧
                (∀ role, d.content.holder? role ≠ some child) ∨
              child ∉ d.children ∧ ∃! role, d.content.holder? role = some child))) ∧
    ∀ e, f.setParent child owner = .error e →
      (∀ cause, e ≠ .fault cause) ∧ f.after (.setParent child owner) = f := by
  have wf := reached.consistent.links
  refine ⟨fun g run => ?_, fun e fails => ⟨?_, ?_⟩⟩
  · obtain ⟨c, d, found, ownerFound, outcome⟩ := (setParent_eq_ok_iff wf).1 run
    refine ⟨c, d, found, ownerFound, ?_⟩
    rcases outcome with ⟨named, same⟩ | ⟨free, _⟩
    · exact .inr ⟨named, same, wf.cases_owned found named ownerFound⟩
    · obtain ⟨container, ownerNow, childNow⟩ :=
        wf.get?_owner_of_setParent found ownerFound free run
      have absent : child ∉ d.children := fun isChild =>
        wf.notMem_belongings_of_free ownerFound found free
          (by rw [Definition.belongings_eq]; exact List.mem_append_left _ isChild)
      refine .inl ⟨free, container, ?_, ownerNow, childNow⟩
      rw [List.count_append, List.count_eq_zero.2 absent, List.count_singleton_self]
  · rintro cause rfl
    exact wf.faultless_setParent child owner cause fails
  · rw [after, fails, orSame]

private def headedForm : Forest :=
  empty.afterAll
    [.insert (.form "" none none) "" (Content.holders_form ""),
      .insert (.input "header" false) "" (Content.holders_input "header" false),
      .insert (.input "" false) "" (Content.holders_input "" false), .attach ⟨0⟩ .header ⟨1⟩]

/-- The input becomes the child of the form. The header is there already, and does not become one. -/
theorem Reachable.setParent_delivers_of_form : ∃ f g d, Reachable f ∧
    f.setParent ⟨2⟩ ⟨0⟩ = .ok g ∧ (g.get? ⟨0⟩).map (·.children) = some [⟨2⟩] ∧
    f.setParent ⟨1⟩ ⟨0⟩ = .ok f ∧ f.get? ⟨0⟩ = some d ∧ ⟨1⟩ ∉ d.children ∧
    (∃! role, d.content.holder? role = some ⟨1⟩) ∧
    f.setParent ⟨0⟩ ⟨2⟩ = .error (.notAContainer ⟨2⟩) ∧ f.after (.setParent ⟨0⟩ ⟨2⟩) = f := by
  have reached : Reachable headedForm := .afterAll .empty _ (by simp [Call.others])
  obtain ⟨form, found, bare, header⟩ : ∃ d, headedForm.get? ⟨0⟩ = some d ∧ d.children = [] ∧
    d.content.holder? .header = some ⟨1⟩ := ⟨_, rfl, rfl, rfl⟩
  obtain ⟨g, run⟩ : ∃ g, headedForm.setParent ⟨2⟩ ⟨0⟩ = .ok g := ⟨_, rfl⟩
  have again : headedForm.setParent ⟨1⟩ ⟨0⟩ = .ok headedForm := rfl
  have refused : headedForm.setParent ⟨0⟩ ⟨2⟩ = .error (.notAContainer ⟨2⟩) := rfl
  obtain ⟨adopts, _⟩ := Reachable.setParent_delivers reached ⟨2⟩ ⟨0⟩
  obtain ⟨keeps, _⟩ := Reachable.setParent_delivers reached ⟨1⟩ ⟨0⟩
  obtain ⟨_, stops⟩ := Reachable.setParent_delivers reached ⟨0⟩ ⟨2⟩
  obtain ⟨c, d, input, there, ⟨_, _, _, now, _⟩ | ⟨named, _⟩⟩ := adopts g run
  · rw [found] at there
    cases there
    obtain ⟨c', d', held, there, ⟨free, _⟩ | ⟨_, _, ⟨_, _, apart⟩ | ⟨noChild, plays⟩⟩⟩ := keeps _ again
    · cases held
      cases free
    · rw [found] at there
      cases there
      exact absurd header (apart .header)
    · rw [found] at there
      cases there
      refine ⟨headedForm, g, form, reached, run, ?_, again, found, noChild, plays, refused,
        (stops _ refused).2⟩
      rw [now, bare]
      rfl
  · cases input
    cases named

/-- Whoever offers the values of a dropdown has it as its owner, but is no child of it. -/
theorem setParent_not_child : ¬ ∀ (f g : Forest) (child owner : Handle), Reachable f →
    f.setParent child owner = .ok g →
    ∃ d, g.get? owner = some d ∧ d.isContainer = true ∧ d.children.count child = 1 := by
  intro delivers
  have reached := Reachable.empty.afterAll
    [.insert (.dropdown "" false none) "" rfl, .insert .definitionList "" rfl,
      .attach ⟨0⟩ .possibleValues ⟨1⟩] (by simp [Call.others])
  obtain ⟨d, found, container, _⟩ := delivers _ _ ⟨1⟩ ⟨0⟩ reached rfl
  cases found
  cases container

end Forest

end DataBinding
