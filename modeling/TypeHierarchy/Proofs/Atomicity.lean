import TypeHierarchy.Proofs.Clone

/-!
# All or nothing

A declaration or an addition is made exactly when it is allowed, and changes one thing: there is one
more type, or one list has one more element (`ChangesExactly`).  Otherwise nothing changes at all, though
an update that fails hands on whatever it has made of the state: no check comes after a change
(`atomic_perform`).  So a sequence of actions may be stripped of those that fail: the others meet the
same workspaces and get the same answers, and the last workspace is the same
(`Workspace.changes_atomic`).
-/

namespace TypeHierarchy

namespace Environment

/-- The second environment is the first one with one more type. -/
structure Gains (env : Environment) (h : Handle) (entry : Entry) (env' : Environment) : Prop where
  id : env'.id = env.id
  fresh : env.owns h = false
  handles : env'.handles = env.handles ++ [h]
  found : env'.entry h = .ok entry
  others : ∀ x, x ≠ h → env'.entry x = env.entry x
  named : env'.find? entry.name = some h
  names : ∀ name, name ≠ entry.name → env'.find? name = env.find? name

/-- The second environment is the first one with another shape for one of its types. -/
structure Reshapes (env : Environment) (h : Handle) (s : Shape) (env' : Environment) : Prop where
  id : env'.id = env.id
  handles : env'.handles = env.handles
  found : ∃ name, env.name h = .ok name ∧ env'.entry h = .ok ⟨name, s⟩
  others : ∀ x, x ≠ h → env'.entry x = env.entry x
  names : ∀ name, env'.find? name = env.find? name

/-- Changes are made exactly when they are allowed, each of them changes one thing, and a change that
is not made leaves the environment as it was. -/
structure ChangesExactly (env : Environment) : Prop where
  /-- A foreign base is refused, even under a name that is taken. -/
  foreign : ∀ (name : String) (declaration : Declaration) (base : Handle),
    (env.tryDeclare name declaration).outcome = .error (.foreignType base) ↔
      declaration = .subset base ∧ env.owns base = false
  taken : ∀ (name : String) (declaration : Declaration),
    (env.tryDeclare name declaration).outcome = .error (.duplicateName name) ↔
      (∀ base, declaration = .subset base → env.owns base = true) ∧ ∃ h, env.name h = .ok name
  declared : ∀ (name : String) (declaration : Declaration),
    (∃ h env', (env.tryDeclare name declaration).Gives h env' ∧
      env.Gains h ⟨name, declaration.shape⟩ env') ↔
      (∀ base, declaration = .subset base → env.owns base = true) ∧ ∀ h, env.name h ≠ .ok name
  refused : ∀ (name : String) (declaration : Declaration) (error : RegistryError),
    (env.tryDeclare name declaration).outcome = .error error →
      (env.tryDeclare name declaration).state = env
  /-- A declaration that must not fail is stopped where another one is refused. -/
  strict : ∀ (name : String) (declaration : Declaration),
    (env.declare name declaration).outcome =
      (env.tryDeclare name declaration).outcome.mapError .registry ∧
    (env.declare name declaration).state = (env.tryDeclare name declaration).state
  member_iff : ∀ union member : Handle,
    (∃ n env', (env.addMember union member).Gives n env') ↔
      env.owns union = true ∧ env.owns member = true ∧
        ∃ members, env.shape union = .ok (.union members)
  member : ∀ (union member : Handle) (n : Nat) (env' : Environment),
    (env.addMember union member).Gives n env' →
      ∃ members, env.shape union = .ok (.union members) ∧ n = members.length + 1 ∧
        env.Reshapes union (.union (members ++ [member])) env'
  member_stopped : ∀ (union member : Handle) (violation : Violation),
    (env.addMember union member).outcome = .error violation →
      (env.addMember union member).state = env
  field_iff : ∀ (record : Handle) (name : String) (type : Handle),
    (∃ n env', (env.addField record name type).Gives n env') ↔
      env.owns record = true ∧ env.owns type = true ∧
        ∃ fields, env.shape record = .ok (.record fields)
  field : ∀ (record : Handle) (name : String) (type : Handle) (n : Nat) (env' : Environment),
    (env.addField record name type).Gives n env' →
      ∃ fields, env.shape record = .ok (.record fields) ∧ n = fields.length + 1 ∧
        env.Reshapes record (.record (fields ++ [⟨name, type⟩])) env'
  field_stopped : ∀ (record : Handle) (name : String) (type : Handle) (violation : Violation),
    (env.addField record name type).outcome = .error violation →
      (env.addField record name type).state = env

variable {env env' : Environment} {h target : Handle} {s old : Shape} {entry : Entry} {name : String}
  {declaration : Declaration}

/-! ## One more type -/

theorem isRegistered_iff : env.isRegistered name = true ↔ ∃ h, env.name h = .ok name := by
  constructor
  · intro registered
    obtain ⟨h, found⟩ := Option.isSome_iff_exists.mp registered
    exact ⟨h, name_of_find? found⟩
  · rintro ⟨h, named⟩
    obtain ⟨-, s, found⟩ := name_eq_ok_iff.mp named
    exact isRegistered_of_entry found

theorem isRegistered_eq_false_iff : env.isRegistered name = false ↔ ∀ h, env.name h ≠ .ok name := by
  rw [← Bool.not_eq_true, isRegistered_iff, not_exists]

theorem find?_push (env : Environment) (entry : Entry) (name : String) :
    ({ env with entries := env.entries.push entry } : Environment).find? name =
      (env.find? name).or (if entry.name = name then some (env.handle env.size) else none) := by
  simp only [find?, Array.findIdx?_push, decide_eq_true_iff]
  cases env.entries.findIdx? fun entry => entry.name = name with
  | some i => rfl
  | none =>
    by_cases same : entry.name = name
    · simp only [same, if_true]
      rfl
    · simp only [same, if_false]
      rfl

theorem gains_push (free : env.isRegistered entry.name = false) :
    env.Gains (env.handle env.size) entry { env with entries := env.entries.push entry } where
  id := rfl
  fresh := by simp [owns, handle]
  handles := by
    simp only [handles, size, Array.size_push, List.range_succ, List.map_append, List.map_singleton]
    rfl
  found := by simp [Environment.entry, handle, size]
  others x other := by
    unfold Environment.entry
    by_cases here : x.env = env.id
    · have apart : x.index ≠ env.entries.size := by
        intro last
        rw [eq_handle here, last] at other
        exact other rfl
      simp only [Array.getElem?_push, if_neg apart]
    · exact (if_neg here).trans (if_neg here).symm
  named := by
    have missing : env.find? entry.name = none := by simpa [isRegistered] using free
    rw [find?_push, missing, if_pos rfl, Option.none_or]
  names name other := by rw [find?_push, if_neg other.symm, Option.or_none]

theorem forall_references_iff :
    (∀ r ∈ declaration.shape.references, env.owns r = true) ↔
      ∀ base, declaration = .subset base → env.owns base = true := by
  cases declaration <;> simp [Declaration.shape, Shape.references]

theorem outcome_tryDeclare_foreign_iff {base : Handle} :
    (env.tryDeclare name declaration).outcome = .error (.foreignType base) ↔
      declaration = .subset base ∧ env.owns base = false := by
  constructor
  · intro refused
    rcases env.foreign_or_own declaration with ⟨other, rfl, foreign⟩ | own
    · rw [tryDeclare_of_foreign foreign] at refused
      cases refused
      exact ⟨rfl, foreign⟩
    · rw [tryDeclare_of_own own] at refused
      cases taken : env.isRegistered name with
      | true => simp [register_of_taken taken] at refused
      | false => simp [register_of_free taken] at refused
  · rintro ⟨rfl, foreign⟩
    rw [tryDeclare_of_foreign foreign]

theorem outcome_tryDeclare_duplicate_iff :
    (env.tryDeclare name declaration).outcome = .error (.duplicateName name) ↔
      (∀ r ∈ declaration.shape.references, env.owns r = true) ∧ env.isRegistered name = true := by
  constructor
  · intro refused
    rcases env.foreign_or_own declaration with ⟨base, rfl, foreign⟩ | own
    · simp [tryDeclare_of_foreign foreign] at refused
    · rw [tryDeclare_of_own own] at refused
      cases taken : env.isRegistered name with
      | true => exact ⟨own, rfl⟩
      | false => simp [register_of_free taken] at refused
  · rintro ⟨own, taken⟩
    rw [tryDeclare_of_own own, register_of_taken taken]

/-! ## One more element -/

theorem find?_eq_findIdx?_names (env : Environment) (name : String) :
    env.find? name = ((env.entries.map Entry.name).findIdx? (· = name)).map env.handle := by
  rw [Array.findIdx?_map]
  rfl

theorem names_setShape (env : Environment) (target : Handle) (s : Shape) :
    (env.setShape target s).entries.map Entry.name = env.entries.map Entry.name := by
  refine Array.ext_getElem? fun i => ?_
  simp only [setShape, Array.getElem?_map, Array.getElem?_modify]
  split
  · cases env.entries[i]? <;> rfl
  · rfl

theorem reshapes_setShape (hs : env.shape target = .ok old) :
    env.Reshapes target s (env.setShape target s) where
  id := rfl
  handles := by
    unfold handles
    rw [size_setShape]
    rfl
  found := by
    obtain ⟨same, name, found⟩ := shape_eq_ok_iff.mp hs
    refine ⟨name, name_eq_ok_iff.mpr ⟨same, old, found⟩, entry_eq_ok_iff.mpr ⟨same, ?_⟩⟩
    rw [setShape, Array.getElem?_modify, if_pos rfl, found]
    rfl
  others x other := entry_setShape_of_ne (owns_of_shape hs) other
  names name := by
    rw [find?_eq_findIdx?_names, names_setShape, find?_eq_findIdx?_names]
    rfl

/-- Nothing but the shape of the larger type and the owner of its part decides about an addition. -/
theorem exists_appended_iff {α : Type} {part : Handle} {list : List α → Shape} {count : List α → Nat}
    {made : List α → Environment} :
    (∃ n env', ∃ parts, env.shape target = .ok (list parts) ∧ env.owns part = true ∧
      n = count parts ∧ env' = made parts) ↔
      env.owns target = true ∧ env.owns part = true ∧
        ∃ parts, env.shape target = .ok (list parts) := by
  constructor
  · rintro ⟨_, _, parts, shape, own, -, -⟩
    exact ⟨owns_of_shape shape, own, parts, shape⟩
  · rintro ⟨-, own, parts, shape⟩
    exact ⟨_, _, parts, shape, own, rfl, rfl⟩

theorem changesExactly (env : Environment) : env.ChangesExactly where
  foreign _ _ _ := outcome_tryDeclare_foreign_iff
  taken name declaration := by
    rw [outcome_tryDeclare_duplicate_iff, forall_references_iff, isRegistered_iff]
  declared name declaration := by
    rw [← forall_references_iff, ← isRegistered_eq_false_iff]
    constructor
    · rintro ⟨h, env', declared, -⟩
      obtain ⟨free, own, -, -⟩ := gives_tryDeclare_iff.mp declared
      exact ⟨own, free⟩
    · rintro ⟨own, free⟩
      exact ⟨_, _, gives_tryDeclare_iff.mpr ⟨free, own, rfl, rfl⟩, gains_push free⟩
  refused name declaration := atomic_tryDeclare name declaration env
  strict name declaration := by
    refine ⟨?_, rfl⟩
    rw [declare, Update.mapError, Changed.map]
    cases (env.tryDeclare name declaration).outcome <;> rfl
  member_iff union member := by
    simp only [gives_addMember_iff]
    exact exists_appended_iff
  member union member n env' added := by
    obtain ⟨members, shape, -, count, rfl⟩ := gives_addMember_iff.mp added
    exact ⟨members, shape, count, reshapes_setShape shape⟩
  member_stopped union member := atomic_addMember union member env
  field_iff record name type := by
    simp only [gives_addField_iff]
    exact exists_appended_iff
  field record name type n env' added := by
    obtain ⟨fields, shape, -, count, rfl⟩ := gives_addField_iff.mp added
    exact ⟨fields, shape, count, reshapes_setShape shape⟩
  field_stopped record name type := atomic_addField record name type env

end Environment

/-! ## Sequences of actions -/

namespace Workspace

/-- One action in a sequence: the workspace that it met, and what it answered. -/
structure Moment where
  before : Workspace
  action : Action
  answer : Except Violation Reply

/-- The action was neither stopped nor refused. -/
def Moment.succeeded (moment : Moment) : Bool :=
  match moment.answer with
  | .ok (.refused _) => false
  | .ok _ => true
  | .error _ => false

/-- The moment of an action in a workspace. -/
def moment (w : Workspace) (action : Action) : Moment := ⟨w, action, (w.perform action).outcome⟩

/-- The moments of a sequence of actions, one after the other. -/
def history (w : Workspace) : List Action → List Moment
  | [] => []
  | action :: rest => w.moment action :: (w.perform action).state.history rest

/-- The actions of a sequence that succeed. -/
def effective (w : Workspace) (actions : List Action) : List Action :=
  ((w.history actions).filter Moment.succeeded).map Moment.action

/-- The slot of the environment that an action is addressed to, or opens. -/
def slotOf (w : Workspace) : Action → Nat
  | .create | .clone _ => w.environments.size
  | .declare slot .. | .tryDeclare slot .. | .addMember slot .. | .addField slot .. => slot

open Update Environment

variable {α : Type} {w : Workspace} {action : Action} {slot : Nat}

/-! ## Failed actions -/

/-- A failed update of an environment puts into the slot what was there before. -/
theorem atomic_inSlot {x : Update Violation Environment α} (slot : Nat) (atomic : Atomic x) :
    Atomic (inSlot slot x) := by
  intro w violation failed
  cases found : w.environment slot with
  | error violation => rw [inSlot_of_missing x found]
  | ok env =>
    rw [inSlot_of_found x found] at failed ⊢
    rw [atomic env violation failed, set_self found]

theorem atomic_perform (action : Action) : Atomic (perform action) := by
  cases action with
  | create => exact Succeeds.atomic fun w => ⟨_, rfl⟩
  | clone slot =>
    refine keeps_get.bind_atomic fun w => (keeps_lift _).bind_atomic fun env => Succeeds.atomic ?_
    exact (succeeds_set _).bind fun _ => succeeds_pure _
  | declare slot name declaration =>
    refine (atomic_inSlot slot ?_).bind_succeeds fun _ => succeeds_pure _
    exact (atomic_tryDeclare name declaration).mapError
  | tryDeclare slot name declaration =>
    refine (atomic_inSlot slot (succeeds_attempt _).atomic).bind_succeeds fun answer => ?_
    cases answer <;> exact succeeds_pure _
  | addMember slot union member =>
    exact (atomic_inSlot slot (atomic_addMember union member)).bind_succeeds fun _ => succeeds_pure _
  | addField slot record name type =>
    exact (atomic_inSlot slot (atomic_addField record name type)).bind_succeeds
      fun _ => succeeds_pure _

/-- A refusal is an answer, so the update of the workspace goes on behind it. -/
theorem state_of_refused {error : RegistryError}
    (refused : (w.perform action).outcome = .ok (.refused error)) :
    (w.perform action).state = w := by
  have given : (w.perform action).Gives (.refused error) (w.perform action).state := ⟨refused, rfl⟩
  cases action with
  | tryDeclare slot name declaration =>
    obtain ⟨answer, _, attempted, rest⟩ := gives_bind_iff.mp given
    obtain ⟨env, env', found, tried, rfl⟩ := gives_inSlot_iff.mp attempted
    cases answer with
    | ok h => cases (gives_pure_iff.mp rest).1
    | error e =>
      have failed : (env.tryDeclare name declaration).outcome = .error e :=
        Except.ok.inj tried.outcome
      have kept : env' = env :=
        tried.state.symm.trans (atomic_tryDeclare name declaration env e failed)
      rw [(gives_pure_iff.mp rest).2, kept, set_self found]
  | create => cases refused
  | clone | declare | addMember | addField => simp [perform, gives_bind_iff] at given

/-- What fails changes nothing. -/
theorem state_of_failed (failed : (w.moment action).succeeded = false) :
    (w.perform action).state = w := by
  cases outcome : (w.perform action).outcome with
  | error violation => exact atomic_perform action w violation outcome
  | ok reply =>
    cases reply with
    | refused error => exact state_of_refused outcome
    | opened | declared | count =>
      rw [moment, outcome] at failed
      cases failed

/-! ## The other environments -/

theorem getElem?_inSlot_of_ne (x : Update Violation Environment α) {other : Nat}
    (apart : other ≠ slot) :
    (inSlot slot x w).state.environments[other]? = w.environments[other]? := by
  cases found : w.environment slot with
  | error violation => rw [inSlot_of_missing x found]
  | ok env =>
    rw [inSlot_of_found x found]
    exact (getElem?_set_environments found).trans (if_neg apart.symm)

/-- An action leaves the environments in other slots as they are. -/
theorem getElem?_perform_of_ne (apart : slot ≠ w.slotOf action) :
    (w.perform action).state.environments[slot]? = w.environments[slot]? := by
  cases action with
  | create => exact getElem?_push_environments.trans (if_neg apart)
  | clone origin =>
    rw [perform, get_bind]
    cases w.environment origin with
    | error violation => rfl
    | ok env => exact getElem?_push_environments.trans (if_neg apart)
  | declare | addMember | addField =>
    rw [perform, state_bind_of_keeps fun _ => keeps_pure _]
    exact getElem?_inSlot_of_ne _ apart
  | tryDeclare =>
    rw [perform, state_bind_of_keeps fun answer => by cases answer <;> exact keeps_pure _]
    exact getElem?_inSlot_of_ne _ apart

/-! ## Without the actions that fail -/

theorem history_effective (w : Workspace) (actions : List Action) :
    w.run (w.effective actions) = w.run actions ∧
      w.history (w.effective actions) = (w.history actions).filter Moment.succeeded := by
  induction actions generalizing w with
  | nil => exact ⟨rfl, rfl⟩
  | cons action rest ih =>
    obtain ⟨run_rest, history_rest⟩ := ih (w.perform action).state
    cases outcome : (w.moment action).succeeded with
    | true =>
      have kept : w.effective (action :: rest) =
          action :: (w.perform action).state.effective rest := by
        rw [effective, history, List.filter_cons_of_pos outcome, List.map_cons, ← effective,
          moment]
      rw [kept, run, run, run_rest, history, history, history_rest, List.filter_cons_of_pos outcome]
      exact ⟨rfl, rfl⟩
    | false =>
      have same : (w.perform action).state = w := state_of_failed outcome
      have dropped : w.effective (action :: rest) = w.effective rest := by
        rw [effective, history, List.filter_cons_of_neg (by simp [outcome]), ← effective, same]
      rw [same] at run_rest history_rest
      rw [dropped, run, same, run_rest, history_rest, history, same,
        List.filter_cons_of_neg (by simp [outcome])]
      exact ⟨rfl, rfl⟩

/-- Every environment makes the changes that are allowed, one thing at a time, and is left as it was by
all others.  In a workspace an action leaves the environments in other slots alone, and one that fails
leaves everything alone.  Without the actions that fail, a sequence leads to the same workspace, and
the others meet the same workspaces and get the same answers as before. -/
theorem changes_atomic :
    (∀ env : Environment, env.ChangesExactly) ∧
    (∀ (w : Workspace) (action : Action),
      (∀ slot, slot ≠ w.slotOf action →
        (w.perform action).state.environments[slot]? = w.environments[slot]?) ∧
      ((w.moment action).succeeded = false → (w.perform action).state = w)) ∧
    ∀ (w : Workspace) (actions : List Action),
      w.run (w.effective actions) = w.run actions ∧
      w.history (w.effective actions) = (w.history actions).filter Moment.succeeded :=
  ⟨changesExactly, fun _ _ => ⟨fun _ => getElem?_perform_of_ne, state_of_failed⟩, history_effective⟩

/-- A union that becomes a member of itself, and a subset of it.  In between come a foreign base under
the name of the union, that name once more, a foreign member and a field for the union. -/
def clumsyActions : List Action :=
  [.create, .create, .declare 0 "Tree" .union, .tryDeclare 0 "Tree" (.subset ⟨⟨1⟩, 4⟩),
    .tryDeclare 0 "Tree" .record, .addMember 0 ⟨⟨0⟩, 8⟩ ⟨⟨1⟩, 4⟩, .addMember 0 ⟨⟨0⟩, 8⟩ ⟨⟨0⟩, 8⟩,
    .addField 0 ⟨⟨0⟩, 8⟩ "size" ⟨⟨0⟩, 4⟩, .tryDeclare 0 "Leaf" (.subset ⟨⟨0⟩, 8⟩)]

/-- Five of the nine actions lead to the same workspace.  The foreign base is what is wrong with the
declaration, though the name is taken as well.  The field for the union is announced before it turns
out that there is no record, and the environment is the same after that. -/
theorem changes_atomic_clumsyActions :
    effective {} clumsyActions =
      [.create, .create, .declare 0 "Tree" .union, .addMember 0 ⟨⟨0⟩, 8⟩ ⟨⟨0⟩, 8⟩,
        .tryDeclare 0 "Leaf" (.subset ⟨⟨0⟩, 8⟩)] ∧
    run {} [.create, .create, .declare 0 "Tree" .union, .addMember 0 ⟨⟨0⟩, 8⟩ ⟨⟨0⟩, 8⟩,
      .tryDeclare 0 "Leaf" (.subset ⟨⟨0⟩, 8⟩)] = run {} clumsyActions ∧
    ((Environment.after [.declare 0 "Tree" .union]).tryDeclare "Tree"
      (.subset ⟨⟨1⟩, 4⟩)).outcome = .error (.foreignType ⟨⟨1⟩, 4⟩) ∧
    ((Environment.after [.declare 0 "Tree" .union]).addField ⟨⟨0⟩, 8⟩ "size" ⟨⟨0⟩, 4⟩).lines =
      [.event (.addingField 8 "size")] ∧
    ((Environment.after [.declare 0 "Tree" .union]).addField ⟨⟨0⟩, 8⟩ "size" ⟨⟨0⟩, 4⟩).state =
      Environment.after [.declare 0 "Tree" .union] := by
  have kept : effective {} clumsyActions =
      [.create, .create, .declare 0 "Tree" .union, .addMember 0 ⟨⟨0⟩, 8⟩ ⟨⟨0⟩, 8⟩,
        .tryDeclare 0 "Leaf" (.subset ⟨⟨0⟩, 8⟩)] := by decide +kernel
  obtain ⟨exactly, -, erased⟩ := changes_atomic
  obtain ⟨same, -⟩ := erased {} clumsyActions
  refine ⟨kept, kept ▸ same, ?_, by decide +kernel,
    (exactly _).field_stopped ⟨⟨0⟩, 8⟩ "size" ⟨⟨0⟩, 4⟩ (.notRecord "union") (by decide +kernel)⟩
  exact ((exactly _).foreign "Tree" (.subset ⟨⟨1⟩, 4⟩) ⟨⟨1⟩, 4⟩).mpr ⟨rfl, by decide +kernel⟩

end Workspace

end TypeHierarchy
