import TypeHierarchy.Proofs.Classification
import TypeHierarchy.Proofs.CommonSupertypes
import TypeHierarchy.Proofs.Growth

/-!
# Recursive types stand alone

A recursive type is related to no other type (`Isolated`).  It reduces to nothing, since a type that
reduces never comes back to itself, and nothing reduces to it, since a root is a constant type or a
subset.  So nothing but the type itself is below it or above it, and it has no supertype in common with
any other.  It stays that way: members and fields are only ever added, so a way back to a type, once
there, is never lost (`Grows.recursive`), and no sequence of actions brings the type back into the
hierarchy (`isolated_run`).
-/

namespace TypeHierarchy

/-! ## Ways are never lost -/

theorem Shape.Extends.isRecord_eq {s t : Shape} (grown : s.Extends t) : t.isRecord = s.isRecord := by
  cases grown <;> rfl

theorem Shape.Extends.mem_successors {s t : Shape} {throughFields : Bool} {next : Handle}
    (grown : s.Extends t) (mem : next ∈ s.successors throughFields) :
    next ∈ t.successors throughFields := by
  cases grown with
  | constant | subset => exact mem
  | union members more => exact List.mem_append_left more mem
  | record fields more =>
    cases throughFields with
    | false => cases mem
    | true =>
      rw [successors, if_pos rfl] at mem ⊢
      rw [List.map_append]
      exact List.mem_append_left _ mem

namespace Environment

open scoped Classical
open Relation

variable {env env' : Environment} {throughFields : Bool} {a b h next r t : Handle} {s : Shape}

theorem Grows.exists_shape (grows : env.Grows env') (hs : env.shape h = .ok s) :
    ∃ s', env'.shape h = .ok s' ∧ s.Extends s' := by
  obtain ⟨same, name, found⟩ := shape_eq_ok_iff.mp hs
  obtain ⟨s', found', grown⟩ := grows.entries found
  exact ⟨s', shape_eq_ok_iff.mpr ⟨same.trans grows.id.symm, name, found'⟩, grown⟩

theorem Grows.leads (grows : env.Grows env') (step : env.Leads throughFields h next) :
    env'.Leads throughFields h next := by
  obtain ⟨s, hs, mem⟩ := step
  obtain ⟨s', hs', grown⟩ := grows.exists_shape hs
  exact ⟨s', hs', grown.mem_successors mem⟩

theorem Grows.recursive (grows : env.Grows env') (recursive : env.Recursive h) :
    env'.Recursive h := by
  obtain ⟨s, hs, cycle⟩ := recursive
  obtain ⟨s', hs', grown⟩ := grows.exists_shape hs
  refine ⟨s', hs', ?_⟩
  rw [grown.isRecord_eq]
  exact TransGen.mono (fun _ _ step => grows.leads step) h h cycle

/-! ## Nothing is related to a recursive type -/

theorem Recursive.not_reduces (recursive : env.Recursive r) : ¬ env.Reduces r t :=
  fun reduces => reduces.not_recursive recursive

theorem Recursive.not_root (recursive : env.Recursive r) : ¬ env.Reduces t r :=
  fun reduces => reduces.root_self.not_recursive recursive

theorem Recursive.eq_of_below (recursive : env.Recursive r) (below : env.Below r t) : r = t := by
  cases below with
  | refl => rfl
  | root reduces => exact absurd reduces recursive.not_reduces
  | left _ _ nr => exact absurd recursive nr
  | right _ _ _ nr => exact absurd recursive nr

theorem Recursive.eq_of_above (recursive : env.Recursive r) (below : env.Below t r) : t = r := by
  cases below with
  | refl => rfl
  | root reduces => exact absurd reduces recursive.not_root
  | left _ _ _ nr => exact absurd recursive nr
  | right _ _ _ _ nr => exact absurd recursive nr

theorem leastCommonSupertypes_eq_empty (closed : env.Closed) (own_a : env.owns a = true)
    (own_b : env.owns b = true) (none : ∀ t, ¬ (env.Below a t ∧ env.Below b t)) :
    (env.leastCommonSupertypes a b).outcome = .ok ∅ := by
  obtain ⟨bounds, done, mem⟩ := leastCommonSupertypes_yields closed own_a own_b
  have empty : bounds = ∅ :=
    SortedSet.eq_empty_iff.mpr fun t ht => none t ((mem t).mp ht).best.1
  rw [done, empty]

/-- The type is of no kind, and no question relates it to another type. -/
structure Isolated (env : Environment) (r : Handle) : Prop where
  kindless : env.attributeOf r = .ok .record
  subtypes : ∀ t, env.owns t = true → t ≠ r →
    (env.isSubtype r t).outcome = .ok false ∧ (env.isSubtype t r).outcome = .ok false
  roots : ∀ t, env.owns t = true → t ≠ r →
    env.reducesTo r t = .ok false ∧ env.reducesTo t r = .ok false
  bounds : ∀ t, env.owns t = true → t ≠ r →
    (env.leastCommonSupertypes r t).outcome = .ok ∅ ∧
    (env.leastCommonSupertypes t r).outcome = .ok ∅

theorem Recursive.isolated (recursive : env.Recursive r) (closed : env.Closed) :
    env.Isolated r where
  kindless := by
    have none : env.firstKind? r = none := by
      rw [firstKind?, List.find?_eq_none]
      exact fun kind _ reduces => recursive.not_reduces (of_decide_eq_true reduces)
    rw [attributeOf_eq closed recursive.owns, none]
    rfl
  subtypes t own ne := by
    rw [isSubtype_eq closed recursive.owns own, isSubtype_eq closed own recursive.owns,
      decide_eq_false fun below => ne (recursive.eq_of_below below).symm,
      decide_eq_false fun below => ne (recursive.eq_of_above below)]
    exact ⟨rfl, rfl⟩
  roots t own ne := by
    rw [reducesTo_eq closed recursive.owns, reducesTo_eq closed own,
      decide_eq_false recursive.not_reduces, decide_eq_false recursive.not_root]
    exact ⟨rfl, rfl⟩
  bounds t own ne := by
    -- The only type above the recursive one is itself, and it is not above the other.
    have apart (u : Handle) (above : env.Below r u) : ¬ env.Below t u := fun below => by
      cases recursive.eq_of_below above
      exact ne (recursive.eq_of_above below)
    exact ⟨leastCommonSupertypes_eq_empty closed recursive.owns own fun u both =>
        apart u both.1 both.2,
      leastCommonSupertypes_eq_empty closed own recursive.owns fun u both =>
        apart u both.2 both.1⟩

end Environment

/-! ## Runs -/

namespace Workspace

variable {w : Workspace} {slot : Nat} {env : Environment} {r : Handle}

/-- A type that is found to be recursive is isolated, and after any further actions it is still found
to be recursive and isolated. -/
theorem isolated_run (reachable : w.Reachable) (found : w.environments[slot]? = some env)
    (yes : env.isRecursive r = .ok true) :
    env.Isolated r ∧ ∀ further : List Action, ∃ env',
      (w.run further).environments[slot]? = some env' ∧ env'.isRecursive r = .ok true ∧
      env'.Isolated r := by
  have closed : env.Closed := reachable.closed env (Array.mem_of_getElem? found)
  have recursive : env.Recursive r :=
    (Environment.isRecursive_iff closed (Environment.owns_of_isRecursive yes)).mp yes
  refine ⟨recursive.isolated closed, fun further => ?_⟩
  obtain ⟨env', found', grows⟩ := w.grows_run further slot env found
  have closed' : env'.Closed := (reachable.run further).closed env' (Array.mem_of_getElem? found')
  have recursive' : env'.Recursive r := grows.recursive recursive
  exact ⟨env', found', (Environment.isRecursive_iff closed' recursive'.owns).mpr recursive',
    recursive'.isolated closed'⟩

/-- A union of the signed primitive and of itself, and a subset of it. -/
def numberLoop : List Action :=
  [.create, .declare 0 "Loop" .union, .declare 0 "Part" (.subset ⟨⟨0⟩, 8⟩),
    .addMember 0 ⟨⟨0⟩, 8⟩ ⟨⟨0⟩, 4⟩, .addMember 0 ⟨⟨0⟩, 8⟩ ⟨⟨0⟩, 8⟩]

/-- A union around the first one, which becomes a member of that in turn. -/
def aroundLoop : List Action :=
  [.declare 0 "Around" .union, .addMember 0 ⟨⟨0⟩, 10⟩ ⟨⟨0⟩, 8⟩, .addMember 0 ⟨⟨0⟩, 8⟩ ⟨⟨0⟩, 10⟩]

/-- The primitive, though a member of the union, is not below it, and the union has no supertype in
common with its own subset.  Later it is not below the union around it either. -/
theorem isolated_run_numberLoop :
    ∃ env env' : Environment, (run {} numberLoop).environments[0]? = some env ∧
      env.isRecursive ⟨⟨0⟩, 8⟩ = .ok true ∧
      (env.isSubtype ⟨⟨0⟩, 4⟩ ⟨⟨0⟩, 8⟩).outcome = .ok false ∧
      (env.leastCommonSupertypes ⟨⟨0⟩, 8⟩ ⟨⟨0⟩, 9⟩).outcome = .ok ∅ ∧
      ((run {} numberLoop).run aroundLoop).environments[0]? = some env' ∧
      (env'.isSubtype ⟨⟨0⟩, 8⟩ ⟨⟨0⟩, 10⟩).outcome = .ok false := by
  let env : Environment := { Environment.initial ⟨0⟩ with
    entries := (Environment.initial ⟨0⟩).entries ++
      #[⟨"Loop", .union [⟨⟨0⟩, 4⟩, ⟨⟨0⟩, 8⟩]⟩, ⟨"Part", .subset ⟨⟨0⟩, 8⟩ false⟩] }
  let env' : Environment := { Environment.initial ⟨0⟩ with
    entries := (Environment.initial ⟨0⟩).entries ++
      #[⟨"Loop", .union [⟨⟨0⟩, 4⟩, ⟨⟨0⟩, 8⟩, ⟨⟨0⟩, 10⟩]⟩, ⟨"Part", .subset ⟨⟨0⟩, 8⟩ false⟩,
        ⟨"Around", .union [⟨⟨0⟩, 8⟩]⟩] }
  have found : (run {} numberLoop).environments[0]? = some env := by decide +kernel
  have found' : ((run {} numberLoop).run aroundLoop).environments[0]? = some env' := by
    decide +kernel
  have yes : env.isRecursive ⟨⟨0⟩, 8⟩ = .ok true := eq_ok_of_toOption (by decide +kernel)
  obtain ⟨alone, later⟩ := isolated_run (.run .empty numberLoop) found yes
  obtain ⟨_, still, -, alone'⟩ := later aroundLoop
  cases found'.symm.trans still
  exact ⟨env, env', found, yes, (alone.subtypes ⟨⟨0⟩, 4⟩ (by decide) (by decide)).2,
    (alone.bounds ⟨⟨0⟩, 9⟩ (by decide) (by decide)).1, found',
    (alone'.subtypes ⟨⟨0⟩, 10⟩ (by decide) (by decide)).1⟩

end Workspace

end TypeHierarchy
