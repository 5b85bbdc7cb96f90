import Mathlib.Logic.Relation
import TypeHierarchy.Proofs.Growth

/-!
# The arrangement of an environment

Whatever is done to a workspace, each of its environments stays arranged (`Arranged`): no name is used
twice, types refer to types of the same environment, a subset stands behind its base, and the eight
types that every environment starts with are in their places and are the only ones of their kind.
One change keeps this (`Change.arranged`), and so do fresh environments and copies.  An environment's
identity is its slot, so that no handle is good in two environments (`arranged_run`).
-/

namespace TypeHierarchy

theorem Kind.constantName_inj {k k' : Kind} (same : k.constantName = k'.constantName) : k = k' := by
  revert same
  cases k <;> cases k' <;> decide

theorem Kind.primitiveName_inj {k k' : Kind} (same : k.primitiveName = k'.primitiveName) :
    k = k' := by
  revert same
  cases k <;> cases k' <;> decide

theorem Kind.constantName_ne_primitiveName (k k' : Kind) : k.constantName ≠ k'.primitiveName := by
  cases k <;> cases k' <;> decide

namespace Environment

open Relation

/-- The order that every environment is in, whatever has been registered and added. -/
structure Arranged (env : Environment) : Prop where
  /-- No name is used twice. -/
  distinct : ∀ {i j : Nat} {e e' : Entry}, env.entries[i]? = some e → env.entries[j]? = some e' →
    e.name = e'.name → i = j
  /-- Types refer to types of the same environment. -/
  closed : env.Closed
  /-- A subset stands behind its base. -/
  based : ∀ {i : Nat} {name : String} {base : Handle} {primitive : Bool},
    env.entries[i]? = some ⟨name, .subset base primitive⟩ → base.index < i
  /-- The constant types come first, then the primitives, and there are no others. -/
  constants : ∀ kind : Kind, env.entries[kind.position]? = some (constantEntry kind)
  primitives : ∀ kind : Kind,
    env.entries[Kind.all.length + kind.position]? = some (primitiveEntry env.id kind)
  only_constants : ∀ {i : Nat} {name : String} {kind : Kind},
    env.entries[i]? = some ⟨name, .constant kind⟩ → i = kind.position
  only_primitives : ∀ {i : Nat} {name : String} {base : Handle},
    env.entries[i]? = some ⟨name, .subset base true⟩ →
      ∃ kind : Kind, i = Kind.all.length + kind.position

/-- The second type is the base of the first. -/
def RestsOn (env : Environment) (h base : Handle) : Prop :=
  ∃ primitive, env.shape h = .ok (.subset base primitive)

variable {env env' : Environment} {h : Handle} {i : Nat} {e : Entry}

/-! ## Fresh environments -/

/-- A fresh environment holds the constant type of each kind, then the primitive of each. -/
theorem initial_cases {id : EnvId} (found : (initial id).entries[i]? = some e) :
    (∃ kind : Kind, i = kind.position ∧ e = constantEntry kind) ∨
      ∃ kind : Kind, i = Kind.all.length + kind.position ∧ e = primitiveEntry id kind := by
  match i, found with
  | 0, found => cases found; exact .inl ⟨.signed, rfl, rfl⟩
  | 1, found => cases found; exact .inl ⟨.float, rfl, rfl⟩
  | 2, found => cases found; exact .inl ⟨.symbol, rfl, rfl⟩
  | 3, found => cases found; exact .inl ⟨.unsigned, rfl, rfl⟩
  | 4, found => cases found; exact .inr ⟨.signed, rfl, rfl⟩
  | 5, found => cases found; exact .inr ⟨.float, rfl, rfl⟩
  | 6, found => cases found; exact .inr ⟨.symbol, rfl, rfl⟩
  | 7, found => cases found; exact .inr ⟨.unsigned, rfl, rfl⟩
  | i + 8, found => cases found

theorem arranged_initial (id : EnvId) : (initial id).Arranged where
  distinct found found' same := by
    rcases initial_cases found with ⟨kind, rfl, rfl⟩ | ⟨kind, rfl, rfl⟩ <;>
      rcases initial_cases found' with ⟨kind', rfl, rfl⟩ | ⟨kind', rfl, rfl⟩
    · rw [Kind.constantName_inj same]
    · exact absurd same (kind.constantName_ne_primitiveName kind')
    · exact absurd same.symm (kind'.constantName_ne_primitiveName kind)
    · rw [Kind.primitiveName_inj same]
  closed := closed_initial id
  based {i name base primitive} found := by
    rcases initial_cases found with ⟨kind, rfl, e⟩ | ⟨kind, rfl, e⟩
    · cases e
    · cases e
      show kind.position < 4 + kind.position
      omega
  constants kind := by cases kind <;> rfl
  primitives kind := by cases kind <;> rfl
  only_constants {i name kind} found := by
    rcases initial_cases found with ⟨kind', rfl, e⟩ | ⟨kind', rfl, e⟩
    · cases e
      rfl
    · cases e
  only_primitives {i name base} found := by
    rcases initial_cases found with ⟨kind, rfl, e⟩ | ⟨kind, rfl, e⟩
    · cases e
    · exact ⟨kind, rfl⟩

/-! ## Copies -/

theorem rebind_cases {id : EnvId} (found : (env.rebind id).entries[i]? = some e) :
    ∃ s, env.entries[i]? = some ⟨e.name, s⟩ ∧ e.shape = s.mapHandles fun h => ⟨id, h.index⟩ := by
  rw [rebind, Array.getElem?_map] at found
  obtain ⟨old, there, rfl⟩ := Option.map_eq_some_iff.mp found
  exact ⟨old.shape, there, rfl⟩

theorem Arranged.rebind (arranged : env.Arranged) (id : EnvId) : (env.rebind id).Arranged where
  distinct found found' same := by
    obtain ⟨s, found, -⟩ := rebind_cases found
    obtain ⟨s', found', -⟩ := rebind_cases found'
    exact arranged.distinct found found' same
  closed := arranged.closed.rebind id
  based found := by
    obtain ⟨s, found, shape⟩ := rebind_cases found
    cases s with
    | subset base primitive =>
      cases shape
      exact (arranged.based found : base.index < _)
    | constant | union | record => cases shape
  constants kind := by
    rw [Environment.rebind, Array.getElem?_map, arranged.constants]
    rfl
  primitives kind := by
    rw [Environment.rebind, Array.getElem?_map, arranged.primitives]
    rfl
  only_constants found := by
    obtain ⟨s, found, shape⟩ := rebind_cases found
    cases s with
    | constant kind =>
      cases shape
      exact arranged.only_constants found
    | subset | union | record => cases shape
  only_primitives found := by
    obtain ⟨s, found, shape⟩ := rebind_cases found
    cases s with
    | subset base primitive =>
      cases shape
      exact arranged.only_primitives found
    | constant | union | record => cases shape

/-! ## Changes -/

theorem isRegistered_of_entry (found : env.entries[i]? = some e) :
    env.isRegistered e.name = true := by
  have somewhere : (env.entries.findIdx? fun entry => entry.name = e.name).isSome = true := by
    rw [Array.findIdx?_isSome, Array.any_eq_true']
    exact ⟨e, Array.mem_of_getElem? found, decide_eq_true rfl⟩
  simpa [isRegistered, find?] using somewhere

theorem Change.arranged (change : env.Change env') (arranged : env.Arranged) : env'.Arranged where
  distinct found found' same := by
    -- A declared name was free before, so the two types are both old or both new.
    rcases change.entry_cases found with ⟨s, old, -⟩ | ⟨rfl, free, -⟩ <;>
      rcases change.entry_cases found' with ⟨s', old', -⟩ | ⟨rfl, free', -⟩
    · exact arranged.distinct old old' same
    · exact absurd (isRegistered_of_entry old) (by simp [same, free'])
    · exact absurd (isRegistered_of_entry old') (by simp [← same, free])
    · rfl
  closed := change.closed arranged.closed
  based found := by
    rcases change.entry_cases found with ⟨s, old, extends_s⟩ | ⟨rfl, -, declaration, shape, own⟩
    · cases extends_s
      exact arranged.based old
    · cases declaration with
      | subset base =>
        cases shape
        exact (env.owns_iff.mp (own _ List.mem_cons_self)).2
      | union | record => cases shape
  constants kind := by
    obtain ⟨s, found, extends_s⟩ := change.grows.entries (arranged.constants kind)
    cases extends_s
    exact found
  primitives kind := by
    obtain ⟨s, found, extends_s⟩ := change.grows.entries (arranged.primitives kind)
    cases extends_s
    rw [change.grows.id]
    exact found
  only_constants found := by
    rcases change.entry_cases found with ⟨s, old, extends_s⟩ | ⟨-, -, declaration, shape, -⟩
    · cases extends_s
      exact arranged.only_constants old
    · cases declaration <;> cases shape
  only_primitives found := by
    rcases change.entry_cases found with ⟨s, old, extends_s⟩ | ⟨-, -, declaration, shape, -⟩
    · cases extends_s
      exact arranged.only_primitives old
    · cases declaration <;> cases shape

/-! ## What an arrangement is good for -/

/-- A type is found under its name. -/
theorem Arranged.find?_name (arranged : env.Arranged) (own : env.owns h = true) :
    ∃ name, env.name h = .ok name ∧ env.find? name = some h := by
  obtain ⟨e, he⟩ := env.exists_entry own
  obtain ⟨same, found⟩ := entry_eq_ok_iff.mp he
  have first : (env.entries.findIdx? fun entry => entry.name = e.name) = some h.index := by
    obtain ⟨bound, at_h⟩ := Array.getElem?_eq_some_iff.mp found
    refine Array.findIdx?_eq_some_iff_getElem.mpr ⟨bound, by simp [at_h], fun j before hit => ?_⟩
    have at_j : env.entries[j]? = some env.entries[j] := Array.getElem?_eq_getElem _
    have := arranged.distinct at_j found (of_decide_eq_true hit)
    omega
  refine ⟨e.name, by rw [name, he, ok_bind]; rfl, ?_⟩
  rw [find?, first, Option.map_some, handle, ← same]

theorem name_eq_ok_iff {name : String} :
    env.name h = .ok name ↔ h.env = env.id ∧ ∃ s, env.entries[h.index]? = some ⟨name, s⟩ := by
  rw [Environment.name, bind_eq_ok_iff]
  constructor
  · rintro ⟨⟨name', s⟩, found, named⟩
    cases named
    obtain ⟨same, found⟩ := entry_eq_ok_iff.mp found
    exact ⟨same, s, found⟩
  · rintro ⟨same, s, found⟩
    exact ⟨⟨name, s⟩, entry_eq_ok_iff.mpr ⟨same, found⟩, rfl⟩

theorem owns_of_name {name : String} (named : env.name h = .ok name) : env.owns h = true := by
  obtain ⟨same, s, found⟩ := name_eq_ok_iff.mp named
  exact env.owns_iff.mpr ⟨same, (Array.getElem?_eq_some_iff.mp found).1⟩

theorem name_of_find? {name : String} (found : env.find? name = some h) :
    env.name h = .ok name := by
  unfold find? at found
  obtain ⟨i, first, rfl⟩ := Option.map_eq_some_iff.mp found
  obtain ⟨bound, hit, -⟩ := Array.findIdx?_eq_some_iff_getElem.mp first
  refine name_eq_ok_iff.mpr ⟨rfl, env.entries[i].shape, ?_⟩
  rw [← of_decide_eq_true hit]
  exact Array.getElem?_eq_getElem bound

theorem Arranged.find?_eq_some_iff (arranged : env.Arranged) {name : String} :
    env.find? name = some h ↔ env.name h = .ok name := by
  refine ⟨name_of_find?, fun named => ?_⟩
  obtain ⟨name', named', found⟩ := arranged.find?_name (owns_of_name named)
  cases named.symm.trans named'
  exact found

theorem Arranged.name_inj (arranged : env.Arranged) {h' : Handle} {name : String}
    (named : env.name h = .ok name) (named' : env.name h' = .ok name) : h = h' := by
  rw [← arranged.find?_eq_some_iff] at named named'
  exact Option.some.inj (named.symm.trans named')

theorem Arranged.base_lt (arranged : env.Arranged) {base : Handle} (rests : env.RestsOn h base) :
    base.index < h.index := by
  obtain ⟨primitive, hs⟩ := rests
  obtain ⟨-, name, found⟩ := shape_eq_ok_iff.mp hs
  exact arranged.based found

theorem Arranged.shape_constantType (arranged : env.Arranged) (kind : Kind) :
    env.shape (env.constantType kind) = .ok (.constant kind) :=
  shape_eq_ok_iff.mpr ⟨rfl, _, arranged.constants kind⟩

/-- A chain of bases ends at a type that is no subset. -/
theorem Arranged.exists_foundation (arranged : env.Arranged) (own : env.owns h = true) :
    ∃ last s, ReflTransGen env.RestsOn h last ∧ env.shape last = .ok s ∧
      ∀ base primitive, s ≠ .subset base primitive := by
  induction place : h.index using Nat.strongRecOn generalizing h with
  | _ n ih =>
    obtain ⟨s, hs⟩ := exists_shape own
    cases s with
    | subset base primitive =>
      have rests : env.RestsOn h base := ⟨primitive, hs⟩
      have own_base := arranged.closed.owns_of_mem hs (List.mem_singleton_self base)
      obtain ⟨last, s, path, shape, plain⟩ :=
        ih base.index (place ▸ arranged.base_lt rests) own_base rfl
      exact ⟨last, s, .head rests path, shape, plain⟩
    | constant | union | record => exact ⟨h, _, .refl, hs, fun _ _ e => by cases e⟩

end Environment

/-! ## Runs -/

namespace Workspace

/-- Every environment of the workspace is arranged and knows its slot. -/
structure Arranged (w : Workspace) : Prop where
  /-- An environment's identity is its slot. -/
  numbered : ∀ {slot : Nat} {env : Environment}, w.environments[slot]? = some env →
    env.id = ⟨slot⟩
  each : ∀ {slot : Nat} {env : Environment}, w.environments[slot]? = some env → env.Arranged

variable {w w' : Workspace} {slot slot' : Nat} {env env' : Environment}

theorem Step.arranged (step : w.Step w') (arranged : w.Arranged) : w'.Arranged where
  numbered found := by
    rcases step.environment_cases found with old | ⟨rfl, rfl | ⟨env, -, rfl⟩⟩ | ⟨env, old, change⟩
    · exact arranged.numbered old
    · rfl
    · rfl
    · exact change.grows.id.trans (arranged.numbered old)
  each found := by
    rcases step.environment_cases found with
      old | ⟨-, rfl | ⟨env, mem, rfl⟩⟩ | ⟨env, old, change⟩
    · exact arranged.each old
    · exact Environment.arranged_initial _
    · obtain ⟨slot, old⟩ := Array.mem_iff_getElem?.mp mem
      exact (arranged.each old).rebind _
    · exact change.arranged (arranged.each old)

theorem Reachable.arranged (reachable : w.Reachable) : w.Arranged := by
  induction reachable with
  | empty => exact ⟨fun found => (by simp at found), fun found => (by simp at found)⟩
  | step _ action ih => exact (Step.of_perform _ action).arranged ih

/-- A handle is good in one environment at most. -/
theorem Arranged.slot_unique (arranged : w.Arranged) {h : Handle}
    (found : w.environments[slot]? = some env) (found' : w.environments[slot']? = some env')
    (own : env.owns h = true) (own' : env'.owns h = true) : slot = slot' := by
  have same : env.id = env'.id :=
    (env.owns_iff.mp own).1.symm.trans (env'.owns_iff.mp own').1
  rw [arranged.numbered found, arranged.numbered found'] at same
  cases same
  rfl

/-- After any sequence of actions, failed ones included, every environment is arranged, each of its
types is found under its name and rests in the end on a type that is no subset, and no handle is good
in two environments.  Further actions leave what is registered as it was, except for members and
fields added at the end. -/
theorem arranged_run (actions further : List Action) :
    (∀ env ∈ (run {} actions).environments, env.Arranged ∧ ∀ h, env.owns h = true →
      (∃ name, env.name h = .ok name ∧ env.find? name = some h) ∧
      ∃ last s, Relation.ReflTransGen env.RestsOn h last ∧ env.shape last = .ok s ∧
        ∀ base primitive, s ≠ .subset base primitive) ∧
    (∀ (slot slot' : Nat) (env env' : Environment) (h : Handle),
      (run {} actions).environments[slot]? = some env →
      (run {} actions).environments[slot']? = some env' →
      env.owns h = true → env'.owns h = true → slot = slot') ∧
    (run {} actions).Grows ((run {} actions).run further) := by
  have arranged : (run {} actions).Arranged := (Reachable.run .empty actions).arranged
  refine ⟨fun env mem => ?_, fun slot slot' env env' h => arranged.slot_unique, grows_run _ further⟩
  obtain ⟨slot, found⟩ := Array.mem_iff_getElem?.mp mem
  have each := arranged.each found
  exact ⟨each, fun h own => ⟨each.find?_name own, each.exists_foundation own⟩⟩

/-- A union that is a member of itself, and a copy of its environment in which a subset of the union
is declared and added to it.  A name that is taken and a base from the other environment are
refused. -/
def copiedTree : List Action :=
  [.create, .declare 0 "Tree" .union, .addMember 0 ⟨⟨0⟩, 8⟩ ⟨⟨0⟩, 8⟩, .declare 0 "Tree" .record,
    .clone 0, .tryDeclare 1 "Leaf" (.subset ⟨⟨0⟩, 8⟩), .declare 1 "Leaf" (.subset ⟨⟨1⟩, 8⟩),
    .addMember 1 ⟨⟨1⟩, 8⟩ ⟨⟨1⟩, 9⟩]

/-- The copy is arranged, the subset is found in it under its name, and a handle of the copy is no
handle of the original.  The copy lives on when the original gets a member. -/
theorem arranged_run_copiedTree :
    ∃ original copy, (run {} copiedTree).environments[0]? = some original ∧
      (run {} copiedTree).environments[1]? = some copy ∧
      copy.shape ⟨⟨1⟩, 8⟩ = .ok (.union [⟨⟨1⟩, 8⟩, ⟨⟨1⟩, 9⟩]) ∧ copy.Arranged ∧
      copy.find? "Leaf" = some ⟨⟨1⟩, 9⟩ ∧ original.owns ⟨⟨1⟩, 8⟩ = false ∧
      ∃ grown, ((run {} copiedTree).run [.addMember 0 ⟨⟨0⟩, 8⟩ ⟨⟨0⟩, 4⟩]).environments[1]? =
        some grown ∧ copy.Grows grown := by
  let original : Environment := { Environment.initial ⟨0⟩ with
    entries := (Environment.initial ⟨0⟩).entries ++ #[⟨"Tree", .union [⟨⟨0⟩, 8⟩]⟩] }
  let copy : Environment := { Environment.initial ⟨1⟩ with
    entries := (Environment.initial ⟨1⟩).entries ++
      #[⟨"Tree", .union [⟨⟨1⟩, 8⟩, ⟨⟨1⟩, 9⟩]⟩, ⟨"Leaf", .subset ⟨⟨1⟩, 8⟩ false⟩] }
  have first : (run {} copiedTree).environments[0]? = some original := by decide +kernel
  have second : (run {} copiedTree).environments[1]? = some copy := by decide +kernel
  obtain ⟨each, unique, grows⟩ := arranged_run copiedTree [.addMember 0 ⟨⟨0⟩, 8⟩ ⟨⟨0⟩, 4⟩]
  obtain ⟨arranged, types⟩ := each copy (Array.mem_of_getElem? second)
  obtain ⟨⟨name, named, found⟩, -⟩ := types ⟨⟨1⟩, 9⟩ (by decide)
  cases named
  have apart : original.owns ⟨⟨1⟩, 8⟩ = false := by
    rw [Bool.eq_false_iff]
    intro own
    cases unique 0 1 original copy ⟨⟨1⟩, 8⟩ first second own (by decide)
  exact ⟨original, copy, first, second, rfl, arranged, found, apart, grows 1 copy second⟩

end Workspace

theorem Environment.Reachable.arranged {env : Environment} (reachable : env.Reachable) :
    env.Arranged := by
  obtain ⟨w, hw, mem⟩ := reachable
  obtain ⟨slot, found⟩ := Array.mem_iff_getElem?.mp mem
  exact hw.arranged.each found

end TypeHierarchy
