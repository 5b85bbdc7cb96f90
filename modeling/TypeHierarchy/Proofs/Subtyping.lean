import TypeHierarchy.Proofs.Recursion
import TypeHierarchy.Proofs.Reduction
import TypeHierarchy.Subtyping

/-!
# Subtyping as a relation

`Below a b` states the rules of subtyping with nothing about the order in which they are tried.  The
check decides it (`isSubtype_eq`) within its budget: a nested check moves from a union that is not
recursive to one of its members, and the number of unions that can be reached through members drops
with every such move (`unionRank_lt`).
-/

namespace TypeHierarchy

theorem Shape.eq_union_of_mem_members {s : Shape} {member : Handle} (mem : member ∈ s.members) :
    s = .union s.members := by
  cases s with
  | union members => rfl
  | constant | subset | record => cases mem

theorem Shape.isUnion_iff {s : Shape} : s.isUnion = true ↔ ∃ members, s = .union members := by
  cases s <;> simp [isUnion]

namespace Environment

open scoped Classical
open Relation

/-- The first type is a subtype of the second. -/
inductive Below (env : Environment) : Handle → Handle → Prop
  | refl (a : Handle) : Below env a a
  | root {a b : Handle} (reduces : env.Reduces a b) : Below env a b
  | left {a b : Handle} {members others : List Handle} (ha : env.shape a = .ok (.union members))
      (hb : env.shape b = .ok (.union others)) (na : ¬ env.Recursive a) (nb : ¬ env.Recursive b)
      (each : ∀ member ∈ members, Below env member b) : Below env a b
  | right {a b other : Handle} {s : Shape} {others : List Handle} (ha : env.shape a = .ok s)
      (plain : s.isUnion = false) (hb : env.shape b = .ok (.union others)) (na : ¬ env.Recursive a)
      (nb : ¬ env.Recursive b) (mem : other ∈ others) (below : Below env a other) : Below env a b

variable {env : Environment} {a b h : Handle} {s t : Shape} {members : List Handle}

/-! ## One check -/

/-- The part of the members in a type of the first shape being below one of the second. -/
def BelowBy (env : Environment) (a b : Handle) (s t : Shape) : Prop :=
  t.isUnion = true ∧ if s.isUnion then ∀ member ∈ s.members, env.Below member b
    else ∃ other ∈ t.members, env.Below a other

theorem below_iff (ha : env.shape a = .ok s) (hb : env.shape b = .ok t) :
    env.Below a b ↔ a = b ∨ env.Reduces a b ∨
      (¬ env.Recursive a ∧ ¬ env.Recursive b) ∧ env.BelowBy a b s t := by
  constructor
  · intro below
    cases below with
    | refl => exact .inl rfl
    | root reduces => exact .inr (.inl reduces)
    | left ha' hb' na nb each =>
      cases ha.symm.trans ha'
      cases hb.symm.trans hb'
      exact .inr (.inr ⟨⟨na, nb⟩, rfl, each⟩)
    | right ha' plain hb' na nb mem below =>
      cases ha.symm.trans ha'
      cases hb.symm.trans hb'
      refine .inr (.inr ⟨⟨na, nb⟩, rfl, ?_⟩)
      rw [if_neg (by simp [plain])]
      exact ⟨_, mem, below⟩
  · rintro (rfl | reduces | ⟨⟨na, nb⟩, union_b, below⟩)
    · exact .refl a
    · exact .root reduces
    · obtain ⟨others, rfl⟩ := Shape.isUnion_iff.mp union_b
      split at below
      · rename_i union_a
        obtain ⟨members, rfl⟩ := Shape.isUnion_iff.mp union_a
        exact .left ha hb na nb below
      · rename_i plain
        obtain ⟨other, mem, below⟩ := below
        exact .right ha (Bool.not_eq_true _ ▸ plain) hb na nb mem below

theorem outcome_subtypeStep (closed : env.Closed) (ha : env.shape a = .ok s)
    (hb : env.shape b = .ok t) {nested : Handle → Handle → Traced Bool}
    (lefts : ¬ env.Recursive a → ∀ member ∈ s.members,
      (nested member b).outcome = .ok (decide (env.Below member b)))
    (rights : ¬ env.Recursive b → ∀ other ∈ t.members,
      (nested a other).outcome = .ok (decide (env.Below a other))) :
    (env.subtypeStep nested a b).outcome = .ok (decide (env.Below a b)) := by
  have owns_a := owns_of_shape ha
  have owns_b := owns_of_shape hb
  have reads := below_iff ha hb
  unfold subtypeStep
  by_cases same : a = b
  · rw [if_pos same, decide_eq_true (reads.mpr (.inl same))]
    rfl
  rw [if_neg same, Traced.outcome_lift_bind (reducesTo_eq closed owns_a b)]
  by_cases reduces : env.Reduces a b
  · rw [decide_eq_true reduces, if_pos rfl, decide_eq_true (.root reduces)]
    rfl
  rw [decide_eq_false reduces, if_neg Bool.false_ne_true, Traced.outcome_bind_of_ok
    (Traced.outcome_orM (isRecursive_eq closed owns_a) (isRecursive_eq closed owns_b)),
    ← Bool.decide_or]
  by_cases cyclic : env.Recursive a ∨ env.Recursive b
  · have not_below : ¬ env.Below a b := by
      rw [reads]
      rintro (e | r | ⟨⟨na, nb⟩, -⟩)
      · exact same e
      · exact reduces r
      · exact cyclic.elim na nb
    rw [decide_eq_true cyclic, if_pos rfl, decide_eq_false not_below]
    rfl
  obtain ⟨na, nb⟩ := not_or.mp cyclic
  have members_decide : decide (env.Below a b) = decide (env.BelowBy a b s t) := by
    rw [decide_eq_decide, reads, or_iff_right same, or_iff_right reduces, and_iff_right ⟨na, nb⟩]
  rw [decide_eq_false cyclic, if_neg Bool.false_ne_true, Traced.outcome_lift_bind hb,
    members_decide]
  cases t with
  | constant | subset | record =>
    rw [decide_eq_false fun below => Bool.false_ne_true below.1]
    rfl
  | union others =>
    dsimp only
    rw [Traced.outcome_lift_bind ha]
    cases s with
    | union members =>
      refine (Traced.outcome_allM (lefts na)).trans ?_
      rw [Except.ok.injEq, Bool.eq_iff_iff]
      simp [BelowBy, Shape.members, Shape.isUnion]
    | constant | subset | record =>
      refine (Traced.outcome_anyM (rights nb)).trans ?_
      rw [Except.ok.injEq, Bool.eq_iff_iff]
      simp [BelowBy, Shape.members, Shape.isUnion]

/-! ## The budget -/

/-- How many unions can be reached through members, the type itself included. -/
noncomputable def unionRank (env : Environment) (h : Handle) : Nat :=
  env.handles.countP fun u =>
    decide ((∃ members, env.shape u = .ok (.union members)) ∧ ReflTransGen (env.Leads false) h u)

theorem countP_range_getElem? {α : Type} (p : α → Bool) (l : List α) :
    (List.range l.length).countP (fun i => l[i]?.any p) = l.countP p := by
  induction l with
  | nil => rfl
  | cons a l ih =>
    rw [List.length_cons, List.range_succ_eq_map, List.countP_cons, List.countP_map,
      List.countP_cons, ← ih]
    rfl

theorem unionRank_le (env : Environment) (h : Handle) : env.unionRank h ≤ env.unionCount := by
  have count : env.unionCount =
      env.handles.countP fun u => env.entries[u.index]?.any fun entry => entry.shape.isUnion := by
    rw [unionCount, ← Array.countP_toList, ← countP_range_getElem?, handles, List.countP_map]
    simp only [Array.getElem?_toList]
    rfl
  rw [count]
  refine List.countP_mono_left fun u _ hu => ?_
  obtain ⟨⟨members, hs⟩, -⟩ := of_decide_eq_true hu
  obtain ⟨-, name, found⟩ := shape_eq_ok_iff.mp hs
  rw [found]
  rfl

/-- A member of a union that is not recursive reaches all that the union reaches but the union. -/
theorem unionRank_lt (hs : env.shape h = .ok (.union members)) (nonrecursive : ¬ env.Recursive h)
    {member : Handle} (mem : member ∈ members) : env.unionRank member < env.unionRank h := by
  have step : env.Leads false h member := (leads_iff hs).mpr mem
  refine countP_lt_countP (env.mem_handles.mpr (owns_of_shape hs)) (fun u _ hu => ?_) ?_ ?_
  · obtain ⟨union, path⟩ := of_decide_eq_true hu
    exact decide_eq_true ⟨union, .head step path⟩
  · refine decide_eq_false fun ⟨_, back⟩ => nonrecursive ?_
    exact (recursive_iff hs).mpr (.head' step back)
  · exact decide_eq_true ⟨⟨members, hs⟩, .refl⟩

/-! ## The check -/

theorem requireOwn_eq_ok {violation : Violation} (own : env.owns h = true) :
    env.requireOwn violation h = .ok () := requireOwn_eq_ok_iff.mpr own

theorem exists_name (own : env.owns h = true) : ∃ name, env.name h = .ok name := by
  obtain ⟨e, he⟩ := env.exists_entry own
  exact ⟨e.name, by rw [name, he, ok_bind]; rfl⟩

/-- A query about two types of the environment goes through to its body. -/
theorem query_eq_within {α : Type} {violation : Violation} {span : Trace.Span} {body : Traced α}
    {name_a name_b : String} (named_a : env.name a = .ok name_a) (named_b : env.name b = .ok name_b)
    (own_a : env.owns a = true) (own_b : env.owns b = true) :
    (do env.requireOwn violation a
        env.requireOwn violation b
        Traced.within span (← env.name a) (← env.name b) body) = body.within span name_a name_b := by
  rw [Traced.lift_bind (requireOwn_eq_ok own_a), Traced.lift_bind (requireOwn_eq_ok own_b),
    Traced.lift_bind named_a, Traced.lift_bind named_b]

theorem outcome_query {α : Type} {violation : Violation} {span : Trace.Span} {body : Traced α}
    (own_a : env.owns a = true) (own_b : env.owns b = true) :
    Traced.outcome (do
      env.requireOwn violation a
      env.requireOwn violation b
      Traced.within span (← env.name a) (← env.name b) body) = body.outcome := by
  obtain ⟨name_a, named_a⟩ := exists_name own_a
  obtain ⟨name_b, named_b⟩ := exists_name own_b
  rw [query_eq_within named_a named_b own_a own_b, Traced.outcome_within]

theorem isSubtypeWithin_eq (closed : env.Closed) {budget : Nat} (own_a : env.owns a = true)
    (own_b : env.owns b = true) (enough : env.unionRank a + env.unionRank b < budget) :
    (env.isSubtypeWithin budget a b).outcome = .ok (decide (env.Below a b)) := by
  induction budget generalizing a b with
  | zero => omega
  | succ budget ih =>
    obtain ⟨s, ha⟩ := exists_shape own_a
    obtain ⟨t, hb⟩ := exists_shape own_b
    have step : (env.subtypeStep (env.isSubtypeWithin budget) a b).outcome =
        .ok (decide (env.Below a b)) := by
      refine outcome_subtypeStep closed ha hb (fun na member mem => ?_) fun nb other mem => ?_
      · have union_a := Shape.eq_union_of_mem_members mem ▸ ha
        have drops := unionRank_lt union_a na mem
        exact ih (closed.owns_of_mem union_a mem) own_b (by omega)
      · have union_b := Shape.eq_union_of_mem_members mem ▸ hb
        have drops := unionRank_lt union_b nb mem
        exact ih own_a (closed.owns_of_mem union_b mem) (by omega)
    rw [isSubtypeWithin, outcome_query own_a own_b, Traced.outcome_bind_of_ok step]
    rfl

/-- The check decides subtyping. -/
theorem isSubtype_eq (closed : env.Closed) (own_a : env.owns a = true) (own_b : env.owns b = true) :
    (env.isSubtype a b).outcome = .ok (decide (env.Below a b)) := by
  refine isSubtypeWithin_eq closed own_a own_b ?_
  have := env.unionRank_le a
  have := env.unionRank_le b
  omega

/-- The check says yes. -/
def Accepts (env : Environment) (a b : Handle) : Prop := (env.isSubtype a b).outcome = .ok true

theorem owns_of_accepts (yes : env.Accepts a b) : env.owns a = true ∧ env.owns b = true := by
  unfold Accepts isSubtype isSubtypeWithin at yes
  rw [Traced.outcome_bind] at yes
  obtain ⟨_, asked_a, yes⟩ := bind_eq_ok_iff.mp yes
  rw [Traced.outcome_bind] at yes
  obtain ⟨_, asked_b, -⟩ := bind_eq_ok_iff.mp yes
  exact ⟨requireOwn_eq_ok_iff.mp asked_a, requireOwn_eq_ok_iff.mp asked_b⟩

theorem Below.accepts (below : env.Below a b) (closed : env.Closed) (own_a : env.owns a = true)
    (own_b : env.owns b = true) : env.Accepts a b := by
  rw [Accepts, isSubtype_eq closed own_a own_b, decide_eq_true below]

/-- What the check says yes to: types of the environment of which one is below the other. -/
theorem accepts_iff (closed : env.Closed) :
    env.Accepts a b ↔ env.owns a = true ∧ env.owns b = true ∧ env.Below a b := by
  constructor
  · intro yes
    obtain ⟨own_a, own_b⟩ := owns_of_accepts yes
    rw [Accepts, isSubtype_eq closed own_a own_b] at yes
    exact ⟨own_a, own_b, of_decide_eq_true (Except.ok.inj yes)⟩
  · exact fun ⟨own_a, own_b, below⟩ => below.accepts closed own_a own_b

theorem accepts_iff_below (closed : env.Closed) (own_a : env.owns a = true)
    (own_b : env.owns b = true) : env.Accepts a b ↔ env.Below a b := by
  rw [accepts_iff closed, and_iff_right own_a, and_iff_right own_b]

end Environment

end TypeHierarchy
