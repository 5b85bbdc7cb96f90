import TypeHierarchy.Proofs.CommonSubtypes
import TypeHierarchy.Proofs.Isolation

/-!
# Members stay below their union

That a member is below its union is not looked up in the union.  A member that is a union itself is
taken apart and each of its members compared with the whole union from scratch, and any other member is
below the union only because it is below one of the union's members, itself.  This goes through
wherever the union is loop-free (`LoopFree`): then everything that members lead to, however deep, is
below it.  Additions never take a member away, so a type that was added to a union is below it as long
as the union stays loop-free (`accepts_member_run`).
-/

namespace TypeHierarchy

namespace Environment

open Relation

/-- Neither the type nor any type that members lead to from it is recursive. -/
def LoopFree (env : Environment) (u : Handle) : Prop :=
  ∀ t, ReflTransGen env.HasMember u t → env.isRecursive t = .ok false

variable {env env' : Environment} {m next u : Handle} {n : Nat}

theorem LoopFree.accepts (loop_free : env.LoopFree u) (closed : env.Closed)
    (path : TransGen env.HasMember u m) : env.Accepts m u := by
  have plain (t : Handle) (way : ReflTransGen env.HasMember u t) : ¬ env.Recursive t := by
    have no := loop_free t way
    exact (not_isRecursive_iff closed (owns_of_isRecursive no)).mp no
  obtain ⟨_, first, -⟩ := TransGen.head'_iff.mp path
  obtain ⟨_, -, last⟩ := TransGen.tail'_iff.mp path
  exact (below_of_path closed plain path).accepts closed (last.owns closed) first.isUnion.owns

theorem NoneRecursive.loopFree (none : env.NoneRecursive) (closed : env.Closed)
    (own : env.owns u = true) : env.LoopFree u :=
  fun t path => none t (owns_of_memberPath closed own path)

/-! ## Additions -/

theorem hasMember_of_addMember (added : (env.addMember u m).Gives n env') : env'.HasMember u m := by
  obtain ⟨members, shape, -, -, rfl⟩ := gives_addMember_iff.mp added
  exact ⟨_, shape_setShape shape, List.mem_append_right members (List.mem_singleton_self m)⟩

theorem Grows.hasMember (grows : env.Grows env') (step : env.HasMember u next) :
    env'.HasMember u next := by
  rw [← leads_false] at step ⊢
  exact grows.leads step

end Environment

/-! ## Runs -/

namespace Workspace

open Relation Update

variable {w w' : Workspace} {slot : Nat} {u m : Handle} {reply : Reply}

theorem exists_hasMember_of_perform (done : (w.perform (.addMember slot u m)).Gives reply w') :
    ∃ env, w'.environments[slot]? = some env ∧ env.HasMember u m := by
  obtain ⟨n, _, given, rest⟩ := gives_bind_iff.mp done
  obtain ⟨-, rfl⟩ := gives_pure_iff.mp rest
  obtain ⟨env, env', found, added, rfl⟩ := gives_inSlot_iff.mp given
  refine ⟨env', ?_, Environment.hasMember_of_addMember added⟩
  rw [getElem?_set_environments found, if_pos rfl]

/-- Everything that members lead to from a loop-free union is found below it.  A type that is added to
a union is therefore found below it after any further actions that leave the union loop-free. -/
theorem accepts_member_run (reachable : w.Reachable) :
    (∀ env ∈ w.environments, ∀ u m, env.LoopFree u → TransGen env.HasMember u m →
      env.Accepts m u) ∧
    ∀ slot u m reply w', (w.perform (.addMember slot u m)).Gives reply w' →
      ∀ further : List Action, ∃ env', (w'.run further).environments[slot]? = some env' ∧
        (env'.LoopFree u → env'.Accepts m u) := by
  constructor
  · intro env mem u m loop_free path
    exact loop_free.accepts (reachable.closed env mem) path
  · intro slot u m reply w' done further
    obtain ⟨env, found, member⟩ := exists_hasMember_of_perform done
    -- The member stays whatever happens to the union; whether it counts is decided at the end.
    obtain ⟨env', found', grows⟩ := w'.grows_run further slot env found
    have reachable' : (w'.run further).Reachable := (done.state ▸ reachable.step _).run further
    have closed : env'.Closed := reachable'.closed env' (Array.mem_of_getElem? found')
    exact ⟨env', found', fun loop_free => loop_free.accepts closed (.single (grows.hasMember member))⟩

/-- Three unions and a record, all of them empty. -/
def emptyUnions : List Action :=
  [.create, .declare 0 "Inner" .union, .declare 0 "Nothing" .union, .declare 0 "Outer" .union,
    .declare 0 "Point" .record]

/-- Members for the unions and a field for the record.  The third addition is refused. -/
def laterMembers : List Action :=
  [.addMember 0 ⟨⟨0⟩, 8⟩ ⟨⟨0⟩, 4⟩, .addMember 0 ⟨⟨0⟩, 8⟩ ⟨⟨0⟩, 9⟩, .addMember 0 ⟨⟨0⟩, 4⟩ ⟨⟨0⟩, 8⟩,
    .addField 0 ⟨⟨0⟩, 11⟩ "x" ⟨⟨0⟩, 10⟩, .addMember 0 ⟨⟨0⟩, 10⟩ ⟨⟨0⟩, 6⟩]

/-- The inner union is below the outer one when all additions are made, and so is the empty union, a
member of a member. -/
theorem accepts_member_emptyUnions :
    ∃ (w' : Workspace) (env' : Environment),
      ((run {} emptyUnions).perform (.addMember 0 ⟨⟨0⟩, 10⟩ ⟨⟨0⟩, 8⟩)).Gives (.count 1) w' ∧
      (w'.run laterMembers).environments[0]? = some env' ∧ env'.LoopFree ⟨⟨0⟩, 10⟩ ∧
      env'.Accepts ⟨⟨0⟩, 8⟩ ⟨⟨0⟩, 10⟩ ∧ env'.Accepts ⟨⟨0⟩, 9⟩ ⟨⟨0⟩, 10⟩ := by
  let env : Environment := { Environment.initial ⟨0⟩ with
    entries := (Environment.initial ⟨0⟩).entries ++
      #[⟨"Inner", .union []⟩, ⟨"Nothing", .union []⟩, ⟨"Outer", .union [⟨⟨0⟩, 8⟩]⟩,
        ⟨"Point", .record []⟩] }
  let env' : Environment := { Environment.initial ⟨0⟩ with
    entries := (Environment.initial ⟨0⟩).entries ++
      #[⟨"Inner", .union [⟨⟨0⟩, 4⟩, ⟨⟨0⟩, 9⟩]⟩, ⟨"Nothing", .union []⟩,
        ⟨"Outer", .union [⟨⟨0⟩, 8⟩, ⟨⟨0⟩, 6⟩]⟩, ⟨"Point", .record [⟨"x", ⟨⟨0⟩, 10⟩⟩]⟩] }
  have done : ((run {} emptyUnions).perform (.addMember 0 ⟨⟨0⟩, 10⟩ ⟨⟨0⟩, 8⟩)).Gives (.count 1)
      ⟨#[env]⟩ := ⟨eq_ok_of_toOption (by decide +kernel), by decide +kernel⟩
  have found : (run ⟨#[env]⟩ laterMembers).environments[0]? = some env' := by decide +kernel
  have none : env'.NoneRecursive := by decide +kernel
  have reachable : (run {} emptyUnions).Reachable := .run .empty emptyUnions
  have reachable' : (run ⟨#[env]⟩ laterMembers).Reachable :=
    (done.state ▸ reachable.step _).run laterMembers
  have mem : env' ∈ (run ⟨#[env]⟩ laterMembers).environments := Array.mem_of_getElem? found
  have loop_free : env'.LoopFree ⟨⟨0⟩, 10⟩ := none.loopFree (reachable'.closed env' mem) rfl
  have inside : TransGen env'.HasMember ⟨⟨0⟩, 10⟩ ⟨⟨0⟩, 9⟩ :=
    .tail (.single ⟨_, rfl, List.mem_cons_self⟩) ⟨_, rfl, List.mem_cons_of_mem _ List.mem_cons_self⟩
  obtain ⟨_, later⟩ := accepts_member_run reachable
  obtain ⟨_, found', kept⟩ := later 0 _ _ _ _ done laterMembers
  cases found.symm.trans found'
  exact ⟨⟨#[env]⟩, env', done, found, loop_free, kept loop_free,
    (accepts_member_run reachable').1 env' mem _ _ loop_free inside⟩

end Workspace

end TypeHierarchy
