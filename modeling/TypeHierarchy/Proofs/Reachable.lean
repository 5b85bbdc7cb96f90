import TypeHierarchy.Proofs.Outcome
import TypeHierarchy.Proofs.Update
import TypeHierarchy.Workspace

/-!
# Reachable environments

An environment is reachable when some sequence of actions on a workspace leads to it.  An action opens
a fresh environment or a copy of one, or makes one of three changes to an environment (`Change`), or it
fails, and then everything stays as it was, because the checks come first (`atomic_tryDeclare`,
`atomic_addMember`, `atomic_addField`).  Whatever the sequence, the types of an environment refer only
to types of the same environment (`Reachable.closed`).
-/

namespace TypeHierarchy

/-- The workspaces that actions lead to, those that fail included. -/
inductive Workspace.Reachable : Workspace → Prop
  | empty : Reachable {}
  | step {w : Workspace} (before : Reachable w) (action : Workspace.Action) :
      Reachable (w.perform action).state

namespace Shape

variable {s s' : Shape}

theorem withMember_eq_ok_iff {member : Handle} :
    s.withMember member = .ok s' ↔
      ∃ members, s = .union members ∧ s' = .union (members ++ [member]) := by
  cases s <;> simp [withMember, eq_comm]

theorem withField_eq_ok_iff {field : Field} :
    s.withField field = .ok s' ↔
      ∃ fields, s = .record fields ∧ s' = .record (fields ++ [field]) := by
  cases s <;> simp [withField, eq_comm]

end Shape

namespace Environment

/-- The environments of reachable workspaces. -/
def Reachable (env : Environment) : Prop := ∃ w : Workspace, w.Reachable ∧ env ∈ w.environments

/-- Types refer only to types of the same environment. -/
def Closed (env : Environment) : Prop :=
  ∀ entry ∈ env.entries, ∀ r ∈ entry.shape.references, env.owns r = true

variable {env env' : Environment} {h r : Handle} {s : Shape}

/-! ## Looking up types -/

theorem entry_eq_ok_iff {e : Entry} :
    env.entry h = .ok e ↔ h.env = env.id ∧ env.entries[h.index]? = some e := by
  unfold entry
  by_cases same : h.env = env.id
  · rw [if_pos same]
    cases found : env.entries[h.index]? with
    | none => simp
    | some e' => simp [same]
  · simp [same]

theorem shape_eq_ok_iff :
    env.shape h = .ok s ↔ h.env = env.id ∧ ∃ name, env.entries[h.index]? = some ⟨name, s⟩ := by
  rw [shape, bind_eq_ok_iff]
  constructor
  · rintro ⟨⟨name, s'⟩, found, e⟩
    cases e
    obtain ⟨same, found⟩ := entry_eq_ok_iff.mp found
    exact ⟨same, name, found⟩
  · rintro ⟨same, name, found⟩
    exact ⟨⟨name, s⟩, entry_eq_ok_iff.mpr ⟨same, found⟩, rfl⟩

theorem exists_shape (own : env.owns h = true) : ∃ s, env.shape h = .ok s := by
  obtain ⟨e, he⟩ := env.exists_entry own
  exact ⟨e.shape, by rw [shape, he, ok_bind]; rfl⟩

theorem exists_shape_iff {p : Shape → Prop} (hs : env.shape h = .ok s) :
    (∃ s', env.shape h = .ok s' ∧ p s') ↔ p s := by
  simp [hs]

theorem owns_of_shape (hs : env.shape h = .ok s) : env.owns h = true := by
  obtain ⟨same, name, found⟩ := shape_eq_ok_iff.mp hs
  exact env.owns_iff.mpr ⟨same, (Array.getElem?_eq_some_iff.mp found).1⟩

theorem eq_handle (here : h.env = env.id) : h = env.handle h.index := by
  rw [handle, ← here]

theorem Closed.owns_of_mem (closed : env.Closed) (hs : env.shape h = .ok s)
    (hr : r ∈ s.references) : env.owns r = true := by
  obtain ⟨-, name, found⟩ := shape_eq_ok_iff.mp hs
  exact closed _ (Array.mem_of_getElem? found) r hr

/-! ## Changes of one environment -/

/-- What a declaration or an addition does to an environment. -/
inductive Change (env : Environment) : Environment → Prop
  | declare {name : String} {declaration : Declaration} (free : env.isRegistered name = false)
      (own : ∀ r ∈ declaration.shape.references, env.owns r = true) :
      Change env { env with entries := env.entries.push ⟨name, declaration.shape⟩ }
  | addMember {union member : Handle} {members : List Handle}
      (shape : env.shape union = .ok (.union members)) (own : env.owns member = true) :
      Change env (env.setShape union (.union (members ++ [member])))
  | addField {record : Handle} {fields : List Field} {field : Field}
      (shape : env.shape record = .ok (.record fields)) (own : env.owns field.type = true) :
      Change env (env.setShape record (.record (fields ++ [field])))

open Update

variable {target part : Handle} {name : String} {declaration : Declaration} {n : Nat}
  {larger : Shape → Except Violation Shape}

theorem checkOwn_eq_ok_iff {u : Unit} : env.checkOwn h = .ok u ↔ env.owns h = true := by
  unfold checkOwn
  cases env.owns h <;> simp

theorem requireOwn_eq_ok_iff {violation : Violation} {u : Unit} :
    env.requireOwn violation h = .ok u ↔ env.owns h = true := by
  unfold requireOwn
  cases env.owns h <;> simp

theorem register_of_taken (taken : env.isRegistered name = true) :
    env.register name s = ⟨.error (.duplicateName name), [], env⟩ := by
  rw [register, get_bind, if_pos taken]
  rfl

theorem register_of_free (free : env.isRegistered name = false) :
    env.register name s = ⟨.ok (env.handle env.size), [.event (.registered name s.label)],
      { env with entries := env.entries.push ⟨name, s⟩ }⟩ := by
  rw [register, get_bind, free]
  rfl

theorem gives_register_iff :
    (env.register name s).Gives h env' ↔ env.isRegistered name = false ∧
      h = env.handle env.size ∧ env' = { env with entries := env.entries.push ⟨name, s⟩ } := by
  rw [register, get_bind]
  cases env.isRegistered name <;> simp [gives_bind_iff]

theorem foreign_or_own (env : Environment) (declaration : Declaration) :
    (∃ base, declaration = .subset base ∧ env.owns base = false) ∨
      ∀ r ∈ declaration.shape.references, env.owns r = true := by
  cases declaration with
  | subset base =>
    cases own : env.owns base with
    | false => exact .inl ⟨base, rfl, own⟩
    | true => exact .inr (List.forall_mem_singleton.mpr own)
  | union | record => exact .inr fun r mem => absurd mem List.not_mem_nil

theorem tryDeclare_of_foreign {base : Handle} (foreign : env.owns base = false) :
    env.tryDeclare name (.subset base) = ⟨.error (.foreignType base), [], env⟩ := by
  have refused : env.checkOwn base = .error (.foreignType base) := if_neg (by simp [foreign])
  rw [tryDeclare, get_bind, refused]
  rfl

theorem tryDeclare_of_own (own : ∀ r ∈ declaration.shape.references, env.owns r = true) :
    env.tryDeclare name declaration = env.register name declaration.shape := by
  cases declaration with
  | subset base =>
    have passed : env.checkOwn base = .ok () := if_pos (own base List.mem_cons_self)
    rw [tryDeclare, get_bind, passed]
    rfl
  | union | record => rfl

theorem gives_tryDeclare_iff :
    (env.tryDeclare name declaration).Gives h env' ↔ env.isRegistered name = false ∧
      (∀ r ∈ declaration.shape.references, env.owns r = true) ∧ h = env.handle env.size ∧
      env' = { env with entries := env.entries.push ⟨name, declaration.shape⟩ } := by
  cases declaration with
  | subset base =>
    simp [tryDeclare, checkOwn_eq_ok_iff, gives_register_iff, Declaration.shape, Shape.references,
      and_left_comm]
  | union | record =>
    simp [tryDeclare, gives_register_iff, Declaration.shape, Shape.references]

theorem requireBoth_eq (env : Environment) (target part : Handle) :
    env.requireBoth target part = ⟨(do
      env.requireOwn (.registry (.foreignType target)) target
      env.requireOwn (.registry (.foreignType part)) part), [], env⟩ := by
  rw [requireBoth, get_bind]
  cases env.requireOwn (.registry (.foreignType target)) target <;> rfl

theorem gives_requireBoth_iff {u : Unit} :
    (env.requireBoth target part).Gives u env' ↔
      env.owns target = true ∧ env.owns part = true ∧ env' = env := by
  simp [requireBoth, requireOwn_eq_ok_iff]

theorem enlarge_of_ok {s' : Shape} (shape : env.shape target = .ok s) (made : larger s = .ok s') :
    env.enlarge target larger = ⟨.ok s'.references.length, [], env.setShape target s'⟩ := by
  rw [enlarge, get_bind, shape]
  show (liftM (larger s) >>= _ : Update Violation Environment Nat) env = _
  rw [made]
  rfl

theorem enlarge_of_error {violation : Violation} (shape : env.shape target = .ok s)
    (refused : larger s = .error violation) :
    env.enlarge target larger = ⟨.error violation, [], env⟩ := by
  rw [enlarge, get_bind, shape]
  show (liftM (larger s) >>= _ : Update Violation Environment Nat) env = _
  rw [refused]
  rfl

theorem gives_enlarge_iff :
    (env.enlarge target larger).Gives n env' ↔ ∃ s s', env.shape target = .ok s ∧
      larger s = .ok s' ∧ n = s'.references.length ∧ env' = env.setShape target s' := by
  simp [enlarge, gives_bind_iff]

/-- A type that consists of a list and gets one more element at the end. -/
theorem gives_enlarge_append_iff {α : Type} {list : List α → Shape} {x : α}
    (appends : ∀ {s s'}, larger s = .ok s' ↔ ∃ parts, s = list parts ∧ s' = list (parts ++ [x]))
    (count : ∀ parts, (list parts).references.length = parts.length) :
    (env.owns target = true ∧ env.owns part = true ∧ (env.enlarge target larger).Gives n env') ↔
      ∃ parts, env.shape target = .ok (list parts) ∧ env.owns part = true ∧ n = parts.length + 1 ∧
        env' = env.setShape target (list (parts ++ [x])) := by
  rw [gives_enlarge_iff]
  constructor
  · rintro ⟨-, own, s, s', shape, added, rfl, rfl⟩
    obtain ⟨parts, rfl, rfl⟩ := appends.mp added
    exact ⟨parts, shape, own, by rw [count, List.length_append, List.length_singleton], rfl⟩
  · rintro ⟨parts, shape, own, rfl, rfl⟩
    refine ⟨owns_of_shape shape, own, _, _, shape, appends.mpr ⟨parts, rfl, rfl⟩, ?_, rfl⟩
    rw [count, List.length_append, List.length_singleton]

theorem gives_addMember_iff {union member : Handle} :
    (env.addMember union member).Gives n env' ↔
      ∃ members, env.shape union = .ok (.union members) ∧ env.owns member = true ∧
        n = members.length + 1 ∧ env' = env.setShape union (.union (members ++ [member])) := by
  rw [← gives_enlarge_append_iff Shape.withMember_eq_ok_iff fun members => rfl]
  simp [addMember, gives_bind_iff, gives_requireBoth_iff, and_assoc]

theorem gives_addField_iff {record type : Handle} :
    (env.addField record name type).Gives n env' ↔
      ∃ fields, env.shape record = .ok (.record fields) ∧ env.owns type = true ∧
        n = fields.length + 1 ∧
        env' = env.setShape record (.record (fields ++ [⟨name, type⟩])) := by
  rw [← gives_enlarge_append_iff Shape.withField_eq_ok_iff fun fields => List.length_map _]
  simp [addField, gives_bind_iff, gives_requireBoth_iff, and_assoc]

theorem Change.of_tryDeclare (declared : (env.tryDeclare name declaration).Gives h env') :
    env.Change env' := by
  obtain ⟨free, own, -, rfl⟩ := gives_tryDeclare_iff.mp declared
  exact .declare free own

theorem Change.of_addMember {union member : Handle}
    (added : (env.addMember union member).Gives n env') : env.Change env' := by
  obtain ⟨members, shape, own, -, rfl⟩ := gives_addMember_iff.mp added
  exact .addMember shape own

theorem Change.of_addField {record type : Handle}
    (added : (env.addField record name type).Gives n env') : env.Change env' := by
  obtain ⟨fields, shape, own, -, rfl⟩ := gives_addField_iff.mp added
  exact .addField shape own

/-! ## Failed changes -/

theorem atomic_register (name : String) (s : Shape) : Atomic (register name s) := by
  refine keeps_get.bind_atomic fun env => ?_
  split
  · exact (keeps_fail _).atomic
  · refine Succeeds.atomic ?_
    exact (succeeds_emit _).bind fun _ => (succeeds_set _).bind fun _ => succeeds_pure _

theorem atomic_tryDeclare (name : String) (declaration : Declaration) :
    Atomic (tryDeclare name declaration) := by
  cases declaration with
  | subset base =>
    exact keeps_get.bind_atomic fun _ => (keeps_lift _).bind_atomic fun _ => atomic_register _ _
  | union | record => exact atomic_register _ _

theorem keeps_requireBoth (target part : Handle) : Keeps (requireBoth target part) :=
  keeps_get.bind fun _ => (keeps_lift _).bind fun _ => keeps_get.bind fun _ => keeps_lift _

theorem atomic_enlarge (target : Handle) (larger : Shape → Except Violation Shape) :
    Atomic (enlarge target larger) := by
  refine keeps_get.bind_atomic fun env => (keeps_lift _).bind_atomic fun _ => ?_
  refine (keeps_lift _).bind_atomic fun s => Succeeds.atomic ?_
  exact (succeeds_set _).bind fun _ => succeeds_pure _

theorem atomic_addMember (union member : Handle) : Atomic (addMember union member) := by
  refine (keeps_requireBoth union member).bind_atomic fun _ => ?_
  refine (atomic_enlarge union _).bind_succeeds fun _ => ?_
  exact (succeeds_emit _).bind fun _ => succeeds_pure _

theorem atomic_addField (record : Handle) (name : String) (type : Handle) :
    Atomic (addField record name type) := by
  refine (keeps_requireBoth record type).bind_atomic fun _ => (keeps_emit _).bind_atomic fun _ => ?_
  refine (atomic_enlarge record _).bind_succeeds fun _ => ?_
  exact (succeeds_emit _).bind fun _ => succeeds_pure _

/-- An update that leaves an environment as it was or makes one change. -/
def ChangesOnce {ε α : Type} (x : Update ε Environment α) : Prop :=
  ∀ env, (x env).state = env ∨ env.Change (x env).state

theorem changesOnce_of_atomic {ε α : Type} {x : Update ε Environment α} (atomic : Atomic x)
    (change : ∀ {env env' a}, (x env).Gives a env' → env.Change env') : ChangesOnce x := by
  intro env
  cases outcome : (x env).outcome with
  | error e => exact .inl (atomic env e outcome)
  | ok a => exact .inr (change ⟨outcome, rfl⟩)

theorem changesOnce_tryDeclare (name : String) (declaration : Declaration) :
    ChangesOnce (tryDeclare name declaration) :=
  changesOnce_of_atomic (atomic_tryDeclare name declaration) .of_tryDeclare

theorem changesOnce_addMember (union member : Handle) : ChangesOnce (addMember union member) :=
  changesOnce_of_atomic (atomic_addMember union member) .of_addMember

theorem changesOnce_addField (record : Handle) (name : String) (type : Handle) :
    ChangesOnce (addField record name type) :=
  changesOnce_of_atomic (atomic_addField record name type) .of_addField

/-! ## Closed environments -/

theorem closed_initial (id : EnvId) : (initial id).Closed := by
  intro entry he r hr
  simp only [initial, List.mem_toArray, List.mem_append, List.mem_map] at he
  rcases he with ⟨kind, -, rfl⟩ | ⟨kind, -, rfl⟩
  · cases hr
  · cases List.mem_singleton.mp hr
    refine (owns_iff _).mpr ⟨rfl, ?_⟩
    show kind.position < 8
    cases kind <;> decide

theorem Closed.rebind (closed : env.Closed) (id : EnvId) : (env.rebind id).Closed := by
  intro entry he r hr
  obtain ⟨old, hold, rfl⟩ := Array.mem_map.mp he
  rw [Shape.references_mapHandles] at hr
  obtain ⟨r', hr', rfl⟩ := List.mem_map.mp hr
  obtain ⟨-, bound⟩ := env.owns_iff.mp (closed old hold r' hr')
  exact (owns_iff _).mpr ⟨rfl, by simpa only [Environment.rebind, size, Array.size_map] using bound⟩

theorem owns_push {entry : Entry} (own : env.owns h = true) :
    ({ env with entries := env.entries.push entry } : Environment).owns h = true := by
  obtain ⟨same, bound⟩ := env.owns_iff.mp own
  refine (owns_iff _).mpr ⟨same, ?_⟩
  simp only [size, Array.size_push] at bound ⊢
  omega

@[simp] theorem size_setShape (target : Handle) : (env.setShape target s).size = env.size := by
  simp [size, setShape]

@[simp] theorem owns_setShape (target : Handle) : (env.setShape target s).owns h = env.owns h := by
  unfold owns
  rw [size_setShape]
  rfl

theorem shape_setShape {old : Shape} (hs : env.shape h = .ok old) :
    (env.setShape h s).shape h = .ok s := by
  obtain ⟨same, name, found⟩ := shape_eq_ok_iff.mp hs
  refine shape_eq_ok_iff.mpr ⟨same, name, ?_⟩
  rw [setShape, Array.getElem?_modify, if_pos rfl, found]
  rfl

theorem entry_setShape_of_ne {target : Handle} (own : env.owns target = true) (ne : h ≠ target) :
    (env.setShape target s).entry h = env.entry h := by
  unfold entry
  by_cases here : h.env = env.id
  · have apart : target.index ≠ h.index := by
      intro same
      obtain ⟨there, -⟩ := env.owns_iff.mp own
      rw [eq_handle here, ← same, ← eq_handle there] at ne
      exact ne rfl
    simp only [setShape, Array.getElem?_modify, if_neg apart]
  · exact (if_neg here).trans (if_neg here).symm

theorem mem_entries_setShape {target : Handle} {entry : Entry}
    (he : entry ∈ (env.setShape target s).entries) : entry ∈ env.entries ∨ entry.shape = s := by
  obtain ⟨i, hi⟩ := Array.mem_iff_getElem?.mp he
  rw [setShape, Array.getElem?_modify] at hi
  split at hi
  · obtain ⟨old, -, rfl⟩ := Option.map_eq_some_iff.mp hi
    exact .inr rfl
  · exact .inl (Array.mem_of_getElem? hi)

theorem Closed.setShape (closed : env.Closed) (target : Handle)
    (own : ∀ r ∈ s.references, env.owns r = true) : (env.setShape target s).Closed := by
  intro entry he r hr
  rw [owns_setShape]
  rcases mem_entries_setShape he with he | he
  · exact closed entry he r hr
  · exact own r (he ▸ hr)

theorem Change.closed (change : env.Change env') (closed : env.Closed) : env'.Closed := by
  cases change with
  | declare free own =>
    intro entry he r hr
    apply owns_push
    rcases Array.mem_push.mp he with he | rfl
    · exact closed entry he r hr
    · exact own r hr
  | addMember shape own =>
    refine closed.setShape _ fun r hr => ?_
    rcases List.mem_append.mp hr with hr | hr
    · exact closed.owns_of_mem shape hr
    · cases List.mem_singleton.mp hr
      exact own
  | addField shape own =>
    refine closed.setShape _ fun r hr => ?_
    rw [Shape.references, List.map_append] at hr
    rcases List.mem_append.mp hr with hr | hr
    · exact closed.owns_of_mem shape hr
    · cases List.mem_singleton.mp hr
      exact own

end Environment

/-! ## Runs of a workspace -/

namespace Workspace

variable {w w' : Workspace}

/-- What an action does to a workspace, whatever action it is. -/
inductive Step (w : Workspace) : Workspace → Prop
  /-- An action that fails changes nothing. -/
  | keep : Step w w
  | create : Step w (w.push (.initial w.nextId))
  | clone {env : Environment} (mem : env ∈ w.environments) : Step w (w.push (env.rebind w.nextId))
  | change {slot : Nat} {env env' : Environment} (found : w.environment slot = .ok env)
      (change : env.Change env') : Step w (w.set slot env')

open Update

variable {α : Type} {slot : Nat} {env : Environment} {x : Update Violation Environment α}

theorem getElem?_of_environment (found : w.environment slot = .ok env) :
    w.environments[slot]? = some env := by
  unfold environment at found
  split at found
  · cases found
    assumption
  · cases found

theorem mem_of_environment (found : w.environment slot = .ok env) : env ∈ w.environments :=
  Array.mem_of_getElem? (getElem?_of_environment found)

theorem set_self (found : w.environment slot = .ok env) : w.set slot env = w := by
  have slotted := getElem?_of_environment found
  refine congrArg Workspace.mk (Array.ext_getElem? fun i => ?_)
  rw [Array.getElem?_setIfInBounds]
  split
  · rename_i here
    subst here
    rw [slotted, if_pos (Array.getElem?_eq_some_iff.mp slotted).1]
  · rfl

theorem inSlot_of_found (x : Update Violation Environment α) (found : w.environment slot = .ok env) :
    inSlot slot x w = ⟨(x env).outcome, (x env).lines, w.set slot (x env).state⟩ := by
  simp only [inSlot, found]

theorem inSlot_of_missing (x : Update Violation Environment α) {violation : Violation}
    (missing : w.environment slot = .error violation) :
    inSlot slot x w = ⟨.error violation, [], w⟩ := by
  simp only [inSlot, missing]

theorem gives_inSlot_iff {a : α} :
    (inSlot slot x w).Gives a w' ↔
      ∃ env env', w.environment slot = .ok env ∧ (x env).Gives a env' ∧ w' = w.set slot env' := by
  constructor
  · intro given
    cases found : w.environment slot with
    | error violation =>
      rw [inSlot_of_missing x found] at given
      cases given.outcome
    | ok env =>
      rw [inSlot_of_found x found] at given
      exact ⟨env, _, rfl, ⟨given.outcome, rfl⟩, given.state.symm⟩
  · rintro ⟨env, env', found, given, rfl⟩
    rw [inSlot_of_found x found]
    exact ⟨given.outcome, congrArg (w.set slot) given.state⟩

theorem Step.of_inSlot (changes : Environment.ChangesOnce x) (slot : Nat) (w : Workspace) :
    w.Step (inSlot slot x w).state := by
  cases found : w.environment slot with
  | error violation =>
    rw [inSlot_of_missing x found]
    exact .keep
  | ok env =>
    rw [inSlot_of_found x found]
    rcases changes env with same | change
    · rw [same, set_self found]
      exact .keep
    · exact .change found change

theorem Step.of_perform (w : Workspace) (action : Action) : w.Step (w.perform action).state := by
  cases action with
  | create => exact .create
  | clone slot =>
    rw [perform, get_bind]
    cases found : w.environment slot with
    | error violation => exact .keep
    | ok env => exact .clone (mem_of_environment found)
  | declare slot name declaration =>
    rw [perform, state_bind_of_keeps fun _ => keeps_pure _]
    exact .of_inSlot (Environment.changesOnce_tryDeclare name declaration) slot w
  | tryDeclare slot name declaration =>
    rw [perform, state_bind_of_keeps fun answer => by cases answer <;> exact keeps_pure _]
    exact .of_inSlot (Environment.changesOnce_tryDeclare name declaration) slot w
  | addMember slot union member =>
    rw [perform, state_bind_of_keeps fun _ => keeps_pure _]
    exact .of_inSlot (Environment.changesOnce_addMember union member) slot w
  | addField slot record name type =>
    rw [perform, state_bind_of_keeps fun _ => keeps_pure _]
    exact .of_inSlot (Environment.changesOnce_addField record name type) slot w

theorem Step.closed (step : w.Step w') (closed : ∀ env ∈ w.environments, env.Closed) :
    ∀ env ∈ w'.environments, env.Closed := by
  intro env he
  cases step with
  | keep => exact closed env he
  | create =>
    rcases Array.mem_push.mp he with he | rfl
    · exact closed env he
    · exact Environment.closed_initial _
  | clone mem =>
    rcases Array.mem_push.mp he with he | rfl
    · exact closed env he
    · exact (closed _ mem).rebind _
  | change found change =>
    rcases Array.mem_or_eq_of_mem_setIfInBounds he with he | rfl
    · exact closed env he
    · exact change.closed (closed _ (mem_of_environment found))

theorem Reachable.closed (reachable : w.Reachable) : ∀ env ∈ w.environments, env.Closed := by
  induction reachable with
  | empty => exact fun env he => absurd he (by simp)
  | step _ action ih => exact (Step.of_perform _ action).closed ih

end Workspace

theorem Environment.Reachable.closed {env : Environment} (reachable : env.Reachable) :
    env.Closed := by
  obtain ⟨w, hw, mem⟩ := reachable
  exact hw.closed env mem

/-! ## Sequences of actions -/

/-- Carries out one action after the other, each on what the one before has left behind. -/
def Workspace.run (w : Workspace) : List Workspace.Action → Workspace
  | [] => w
  | action :: rest => (w.perform action).state.run rest

theorem Workspace.Reachable.run {w : Workspace} (reachable : w.Reachable)
    (actions : List Workspace.Action) : (w.run actions).Reachable := by
  induction actions generalizing w with
  | nil => exact reachable
  | cons action rest ih => exact ih (reachable.step action)

/-- The environment that a workspace opens first, after further actions. -/
def Environment.after (actions : List Workspace.Action) : Environment :=
  ((Workspace.run {} (.create :: actions)).environments[0]?).getD (.initial ⟨0⟩)

theorem Environment.reachable_after (actions : List Workspace.Action) :
    (Environment.after actions).Reachable := by
  unfold Environment.after
  cases found : (Workspace.run {} (.create :: actions)).environments[0]? with
  | some env => exact ⟨_, .run .empty _, Array.mem_of_getElem? found⟩
  | none => exact ⟨_, .run .empty [.create], Array.mem_push_self⟩

end TypeHierarchy
