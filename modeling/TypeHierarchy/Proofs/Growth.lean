import TypeHierarchy.Proofs.Reachable

/-!
# What a run leaves as it was

Nothing that is registered ever goes away.  A type keeps its place, its name and its shape, except
that a union may get further members and a record further fields, always behind the ones it has
(`Shape.Extends`).  Every change of an environment keeps to this (`Change.grows`), and beyond it adds
at most one type (`Change.entry_cases`).  So does every action, and hence every sequence of actions
(`Workspace.grows_run`).
-/

namespace TypeHierarchy

/-- The second shape is the first one, up to members or fields added at the end. -/
inductive Shape.Extends : Shape → Shape → Prop
  | constant (kind : Kind) : Extends (.constant kind) (.constant kind)
  | subset (base : Handle) (primitive : Bool) :
      Extends (.subset base primitive) (.subset base primitive)
  | union (members more : List Handle) : Extends (.union members) (.union (members ++ more))
  | record (fields more : List Field) : Extends (.record fields) (.record (fields ++ more))

theorem Shape.Extends.refl (s : Shape) : s.Extends s := by
  cases s with
  | constant kind => exact .constant kind
  | subset base primitive => exact .subset base primitive
  | union members => simpa using Extends.union members []
  | record fields => simpa using Extends.record fields []

theorem Shape.Extends.trans {s t u : Shape} (st : s.Extends t) (tu : t.Extends u) :
    s.Extends u := by
  cases st with
  | constant | subset => exact tu
  | union members more =>
    cases tu with
    | union _ more' => simpa using Extends.union members (more ++ more')
  | record fields more =>
    cases tu with
    | record _ more' => simpa using Extends.record fields (more ++ more')

namespace Environment

/-- The second environment still has every type of the first, in its place and under its name. -/
structure Grows (env env' : Environment) : Prop where
  id : env'.id = env.id
  entries : ∀ {i : Nat} {e : Entry}, env.entries[i]? = some e →
    ∃ s, env'.entries[i]? = some ⟨e.name, s⟩ ∧ e.shape.Extends s

variable {env env' env'' : Environment} {target : Handle} {old s : Shape} {i : Nat} {e : Entry}

theorem Grows.refl (env : Environment) : env.Grows env where
  id := rfl
  entries found := ⟨_, found, .refl _⟩

theorem Grows.trans (first : env.Grows env') (second : env'.Grows env'') : env.Grows env'' where
  id := second.id.trans first.id
  entries found := by
    obtain ⟨s, found', extends_s⟩ := first.entries found
    obtain ⟨t, found'', extends_t⟩ := second.entries found'
    exact ⟨t, found'', extends_s.trans extends_t⟩

theorem Grows.entry_before (grows : env.Grows env') (before : i < env.size)
    (found : env'.entries[i]? = some e) :
    ∃ s, env.entries[i]? = some ⟨e.name, s⟩ ∧ s.Extends e.shape := by
  have present : env.entries[i]? = some env.entries[i] := Array.getElem?_eq_getElem before
  obtain ⟨s, found', extends_s⟩ := grows.entries present
  cases found.symm.trans found'
  exact ⟨_, present, extends_s⟩

/-! ## Changes of one environment -/

theorem grows_push (env : Environment) (entry : Entry) :
    env.Grows { env with entries := env.entries.push entry } where
  id := rfl
  entries {i e} found := by
    obtain ⟨bound, -⟩ := Array.getElem?_eq_some_iff.mp found
    refine ⟨e.shape, ?_, .refl _⟩
    rw [Array.getElem?_push, if_neg (Nat.ne_of_lt bound)]
    exact found

theorem grows_setShape (hs : env.shape target = .ok old) (extends_old : old.Extends s) :
    env.Grows (env.setShape target s) where
  id := rfl
  entries {i e} found := by
    rw [setShape, Array.getElem?_modify]
    by_cases at_target : target.index = i
    · subst at_target
      obtain ⟨-, name, found'⟩ := shape_eq_ok_iff.mp hs
      cases found.symm.trans found'
      rw [if_pos rfl, found]
      exact ⟨s, rfl, extends_old⟩
    · rw [if_neg at_target]
      exact ⟨e.shape, found, .refl _⟩

theorem Change.grows (change : env.Change env') : env.Grows env' := by
  cases change with
  | declare => exact env.grows_push _
  | addMember shape => exact grows_setShape shape (.union _ _)
  | addField shape => exact grows_setShape shape (.record _ _)

/-- A type found after a change was there before, or is the one type that was declared. -/
theorem Change.entry_cases (change : env.Change env') (found : env'.entries[i]? = some e) :
    (∃ s, env.entries[i]? = some ⟨e.name, s⟩ ∧ s.Extends e.shape) ∨
    (i = env.size ∧ env.isRegistered e.name = false ∧ ∃ declaration : Declaration,
      e.shape = declaration.shape ∧ ∀ r ∈ declaration.shape.references, env.owns r = true) := by
  by_cases before : i < env.size
  · exact .inl (change.grows.entry_before before found)
  have bound : i < env'.size := (Array.getElem?_eq_some_iff.mp found).1
  cases change with
  | @declare name declaration free own =>
    have last : i = env.size := by
      simp only [size, Array.size_push] at bound before ⊢
      omega
    subst last
    rw [size, Array.getElem?_push, if_pos rfl] at found
    cases found
    exact .inr ⟨rfl, free, declaration, rfl, own⟩
  | addMember => exact absurd (size_setShape _ ▸ bound) before
  | addField => exact absurd (size_setShape _ ▸ bound) before

end Environment

/-! ## Actions -/

namespace Workspace

/-- The second workspace still has every environment of the first, grown. -/
def Grows (w w' : Workspace) : Prop :=
  ∀ (slot : Nat) (env : Environment), w.environments[slot]? = some env →
    ∃ env', w'.environments[slot]? = some env' ∧ env.Grows env'

variable {w w' w'' : Workspace} {slot : Nat} {env env' : Environment}

theorem Grows.refl (w : Workspace) : w.Grows w := fun _ _ found => ⟨_, found, .refl _⟩

theorem Grows.trans (first : w.Grows w') (second : w'.Grows w'') : w.Grows w'' := by
  intro slot env found
  obtain ⟨env', found', grows⟩ := first slot env found
  obtain ⟨env'', found'', grows'⟩ := second slot env' found'
  exact ⟨env'', found'', grows.trans grows'⟩

theorem getElem?_push_environments :
    (w.push env).environments[slot]? =
      if slot = w.environments.size then some env else w.environments[slot]? :=
  Array.getElem?_push

theorem getElem?_set_environments {other : Nat} (found : w.environment slot = .ok env) :
    (w.set slot env').environments[other]? =
      if slot = other then some env' else w.environments[other]? := by
  obtain ⟨bound, -⟩ := Array.getElem?_eq_some_iff.mp (getElem?_of_environment found)
  rw [set, Array.getElem?_setIfInBounds, if_pos bound]

theorem grows_push (w : Workspace) (env : Environment) : w.Grows (w.push env) := by
  intro slot env' found
  obtain ⟨bound, -⟩ := Array.getElem?_eq_some_iff.mp found
  rw [getElem?_push_environments, if_neg (Nat.ne_of_lt bound)]
  exact ⟨env', found, .refl _⟩

theorem Step.grows (step : w.Step w') : w.Grows w' := by
  cases step with
  | keep => exact .refl w
  | create => exact w.grows_push _
  | clone => exact w.grows_push _
  | @change slot env env' found change =>
    intro other env'' found''
    rw [getElem?_set_environments found]
    by_cases here : slot = other
    · subst here
      cases (getElem?_of_environment found).symm.trans found''
      rw [if_pos rfl]
      exact ⟨env', rfl, change.grows⟩
    · rw [if_neg here]
      exact ⟨env'', found'', .refl _⟩

/-- An environment found after an action was there before, is a new one, or has been changed. -/
theorem Step.environment_cases (step : w.Step w') (found : w'.environments[slot]? = some env') :
    w.environments[slot]? = some env' ∨
    (slot = w.environments.size ∧ (env' = .initial w.nextId ∨
      ∃ env ∈ w.environments, env' = env.rebind w.nextId)) ∨
    ∃ env, w.environments[slot]? = some env ∧ env.Change env' := by
  cases step with
  | keep => exact .inl found
  | create =>
    rw [getElem?_push_environments] at found
    split at found
    · cases found
      exact .inr (.inl ⟨‹_›, .inl rfl⟩)
    · exact .inl found
  | clone mem =>
    rw [getElem?_push_environments] at found
    split at found
    · cases found
      exact .inr (.inl ⟨‹_›, .inr ⟨_, mem, rfl⟩⟩)
    · exact .inl found
  | change found' change =>
    rw [getElem?_set_environments found'] at found
    split at found
    · rename_i here
      cases found
      exact .inr (.inr ⟨_, here ▸ getElem?_of_environment found', change⟩)
    · exact .inl found

theorem grows_run (w : Workspace) (actions : List Action) : w.Grows (w.run actions) := by
  induction actions generalizing w with
  | nil => exact .refl w
  | cons action rest ih => exact (Step.of_perform w action).grows.trans (ih _)

end Workspace

end TypeHierarchy
