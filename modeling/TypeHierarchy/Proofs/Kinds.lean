import TypeHierarchy.Proofs.Acyclic
import TypeHierarchy.Proofs.Arrangement
import TypeHierarchy.Proofs.Classification
import TypeHierarchy.Proofs.CommonSupertypes

/-!
# Kinds of types

Each kind is asked for by a reduction of its own, and a union can mix kinds at any depth.  No type is
of two kinds all the same (`Reduces.kind_unique`), so that it makes no difference to an attribute in
which order the kinds are tried (`attributeIn_eq`).  A type is of a kind just when everything that bases
and members lead to is sound and the constants among it are those of the kind (`Uniform`).  Subtyping
stays inside a kind (`Below.kind_eq`): what is above two types of different kinds is of no kind.
-/

namespace TypeHierarchy.Environment

open scoped Classical
open Relation

/-- One step of a reduction: from a subset to its base, or from a union to a member. -/
def StandsOn (env : Environment) (h next : Handle) : Prop := env.RestsOn h next ∨ env.HasMember h next

/-- Bases and members lead from the type into no cycle, to no empty union and to no record, and to no
constant type but that of the kind. -/
structure Uniform (env : Environment) (kind : Kind) (h : Handle) : Prop where
  acyclic : Acyclic env.StandsOn h
  nonempty : ∀ x, ReflTransGen env.StandsOn h x → env.shape x ≠ .ok (.union [])
  no_record : ∀ x, ReflTransGen env.StandsOn h x → ∀ fields, env.shape x ≠ .ok (.record fields)
  constants : ∀ x, ReflTransGen env.StandsOn h x → ∀ kind', env.shape x = .ok (.constant kind') →
    x = env.constantType kind

variable {env : Environment} {a b h next root : Handle} {kind kind' : Kind}

/-! ## What a type stands on -/

theorem StandsOn.owns (closed : env.Closed) (step : env.StandsOn h next) :
    env.owns next = true := by
  rcases step with ⟨primitive, hs⟩ | ⟨members, hs, mem⟩
  · exact closed.owns_of_mem hs (List.mem_singleton_self next)
  · exact closed.owns_of_mem hs mem

theorem StandsOn.reduces (step : env.StandsOn h next) (reduces : env.Reduces h root)
    (constant : env.shape root = .ok (.constant kind)) : env.Reduces next root := by
  rcases step with ⟨primitive, hs⟩ | ⟨members, hs, mem⟩
  · rcases (reduces_iff hs).mp reduces with rfl | reduces
    · cases hs.symm.trans constant
    · exact reduces
  · exact ((reduces_iff hs).mp reduces).2 next mem

theorem StandsOn.awaits (step : env.StandsOn h next)
    (constant : env.shape root = .ok (.constant kind)) : env.Awaits root h next := by
  rcases step with ⟨primitive, hs⟩ | ⟨members, hs, mem⟩
  · have other : h ≠ root := by
      rintro rfl
      cases hs.symm.trans constant
    rw [awaits_iff hs, awaited, if_neg other]
    exact List.mem_singleton_self next
  · exact (awaits_iff hs).mpr mem

theorem Reduces.uniform (reduces : env.Reduces h (env.constantType kind))
    (arranged : env.Arranged) : env.Uniform kind h := by
  have constant := arranged.shape_constantType kind
  have along (x : Handle) (path : ReflTransGen env.StandsOn h x) :
      env.Reduces x (env.constantType kind) := by
    induction path with
    | refl => exact reduces
    | tail _ step ih => exact step.reduces ih constant
  refine ⟨fun x path cycle => ?_, fun x path empty => ?_, fun x path fields record => ?_,
    fun x path kind' hs => ?_⟩
  · have awaits : env.StandsOn ≤ env.Awaits (env.constantType kind) :=
      fun _ _ step => step.awaits constant
    exact (along x path).not_cyclic (TransGen.mono awaits x x cycle)
  · exact ((reduces_iff empty).mp (along x path)).1 rfl
  · exact (reduces_iff record).mp (along x path)
  · exact (reduces_iff hs).mp (along x path)

theorem Uniform.reduces (uniform : env.Uniform kind h) (arranged : env.Arranged)
    (own : env.owns h = true) : env.Reduces h (env.constantType kind) := by
  refine uniform.acyclic.induction (P := fun x => env.Reduces x (env.constantType kind)) own
    (fun _ _ step => step.owns arranged.closed) fun x own_x path reduce => ?_
  obtain ⟨s, hs⟩ := exists_shape own_x
  cases s with
  | constant kind' =>
    rw [uniform.constants x path kind' hs]
    exact .constant (arranged.shape_constantType kind)
  | subset base primitive => exact .subset hs (reduce base (.inl ⟨primitive, hs⟩))
  | union members =>
    refine .union hs ?_ fun member mem => reduce member (.inr ⟨members, hs, mem⟩)
    rintro rfl
    exact uniform.nonempty x path hs
  | record fields => exact absurd hs (uniform.no_record x path fields)

theorem reduces_iff_uniform (arranged : env.Arranged) (own : env.owns h = true) :
    env.Reduces h (env.constantType kind) ↔ env.Uniform kind h :=
  ⟨fun reduces => reduces.uniform arranged, fun uniform => uniform.reduces arranged own⟩

/-! ## One kind at most -/

theorem Reduces.constant_unique {root' : Handle} (reduces : env.Reduces h root)
    (reduces' : env.Reduces h root') (constant : env.shape root = .ok (.constant kind))
    (constant' : env.shape root' = .ok (.constant kind')) : root = root' := by
  induction reduces with
  | constant shape => exact (reduces_iff shape).mp reduces'
  | itself shape => cases shape.symm.trans constant
  | subset shape _ ih => exact ih (StandsOn.reduces (.inl ⟨_, shape⟩) reduces' constant') constant
  | union shape nonempty _ ih =>
    obtain ⟨member, mem⟩ := List.exists_mem_of_ne_nil _ nonempty
    exact ih member mem (StandsOn.reduces (.inr ⟨_, shape, mem⟩) reduces' constant') constant

theorem Reduces.kind_unique (reduces : env.Reduces h (env.constantType kind))
    (reduces' : env.Reduces h (env.constantType kind')) (arranged : env.Arranged) :
    kind = kind' := by
  have constant := arranged.shape_constantType kind
  have constant' := arranged.shape_constantType kind'
  rw [reduces.constant_unique reduces' constant constant'] at constant
  cases constant.symm.trans constant'
  rfl

/-! ## Attributes -/

section Attribute

variable {order : List Kind} (complete : ∀ kind, kind ∈ order)

include complete

theorem find?_kind_eq_none_iff :
    (order.find? fun kind => decide (env.Reduces h (env.constantType kind))) = none ↔
      ∀ kind, ¬ env.Reduces h (env.constantType kind) := by
  simp [complete]

theorem find?_kind_eq_some_iff (arranged : env.Arranged) :
    (order.find? fun kind => decide (env.Reduces h (env.constantType kind))) = some kind ↔
      env.Reduces h (env.constantType kind) := by
  constructor
  · intro found
    have fits := List.find?_some found
    exact of_decide_eq_true fits
  · intro reduces
    cases found : order.find? fun kind => decide (env.Reduces h (env.constantType kind)) with
    | none => exact absurd reduces ((find?_kind_eq_none_iff complete).mp found kind)
    | some first =>
      have fits := List.find?_some found
      rw [reduces.kind_unique (of_decide_eq_true fits) arranged]

/-- As long as every kind is tried, the attribute is the kind of the type, whatever the order. -/
theorem attributeIn_eq_ofKind_iff (arranged : env.Arranged) (own : env.owns h = true) :
    env.attributeIn order h = .ok (.ofKind kind) ↔ env.Reduces h (env.constantType kind) := by
  rw [attributeIn_eq arranged.closed own, ← find?_kind_eq_some_iff complete arranged]
  cases order.find? fun kind => decide (env.Reduces h (env.constantType kind)) <;> simp

theorem attributeIn_eq_record_iff (closed : env.Closed) (own : env.owns h = true) :
    env.attributeIn order h = .ok .record ↔ ∀ kind, ¬ env.Reduces h (env.constantType kind) := by
  rw [attributeIn_eq closed own, ← find?_kind_eq_none_iff complete]
  cases order.find? fun kind => decide (env.Reduces h (env.constantType kind)) <;> simp

end Attribute

theorem attributeOf_eq_ofKind_iff (arranged : env.Arranged) (own : env.owns h = true) :
    env.attributeOf h = .ok (.ofKind kind) ↔ env.Reduces h (env.constantType kind) :=
  attributeIn_eq_ofKind_iff Kind.mem_all arranged own

theorem attributeOf_eq_record_iff (closed : env.Closed) (own : env.owns h = true) :
    env.attributeOf h = .ok .record ↔ ∀ kind, ¬ env.Reduces h (env.constantType kind) :=
  attributeIn_eq_record_iff Kind.mem_all closed own

/-- A type is of one kind at most, and its attribute is that kind, or else `record`, in whatever order
the kinds are tried.  It is of a kind just when it is uniformly of that kind all the way down. -/
theorem kinds_disjoint (reachable : env.Reachable) (own : env.owns h = true) :
    (∀ kind kind', env.isOfKind kind h = .ok true → env.isOfKind kind' h = .ok true →
      kind = kind') ∧
    (∀ kind, env.isOfKind kind h = .ok true → env.attributeOf h = .ok (.ofKind kind)) ∧
    ((∀ kind, env.isOfKind kind h = .ok false) → env.attributeOf h = .ok .record) ∧
    (∀ order : List Kind, order.Perm Kind.all → env.attributeIn order h = env.attributeOf h) ∧
    ∀ kind, env.isOfKind kind h = .ok (decide (env.Uniform kind h)) := by
  have arranged := reachable.arranged
  have closed := arranged.closed
  simp only [isOfKind_eq closed own, Except.ok.injEq, decide_eq_true_iff, decide_eq_false_iff_not]
  refine ⟨fun kind kind' reduces reduces' => reduces.kind_unique reduces' arranged,
    fun kind => (attributeOf_eq_ofKind_iff arranged own).mpr,
    (attributeOf_eq_record_iff closed own).mpr, fun order perm => ?_, fun kind => ?_⟩
  · have complete (kind : Kind) : kind ∈ order := perm.mem_iff.mpr kind.mem_all
    by_cases some_kind : ∃ kind, env.Reduces h (env.constantType kind)
    · obtain ⟨kind, reduces⟩ := some_kind
      rw [(attributeOf_eq_ofKind_iff arranged own).mpr reduces]
      exact (attributeIn_eq_ofKind_iff complete arranged own).mpr reduces
    · have no_kind := not_exists.mp some_kind
      rw [(attributeOf_eq_record_iff closed own).mpr no_kind]
      exact (attributeIn_eq_record_iff complete closed own).mpr no_kind
  · exact decide_eq_decide.mpr (reduces_iff_uniform arranged own)

/-- Small numbers, a union with a subset of it, a union of both with the constants, that union mixed with
the symbols, and a union of the numbers and itself. -/
def layeredNumbers : Environment :=
  { initial ⟨0⟩ with entries := (initial ⟨0⟩).entries ++
      #[⟨"Small", .subset ⟨⟨0⟩, 4⟩ false⟩, ⟨"Pair", .union [⟨⟨0⟩, 8⟩, ⟨⟨0⟩, 4⟩]⟩,
        ⟨"Part", .subset ⟨⟨0⟩, 9⟩ false⟩, ⟨"Deep", .union [⟨⟨0⟩, 10⟩, ⟨⟨0⟩, 9⟩, ⟨⟨0⟩, 0⟩]⟩,
        ⟨"Mixed", .union [⟨⟨0⟩, 11⟩, ⟨⟨0⟩, 6⟩]⟩, ⟨"Loop", .union [⟨⟨0⟩, 4⟩, ⟨⟨0⟩, 13⟩]⟩] }

theorem reachable_layeredNumbers : layeredNumbers.Reachable := by
  have made : Environment.after [.declare 0 "Small" (.subset ⟨⟨0⟩, 4⟩), .declare 0 "Pair" .union,
      .declare 0 "Part" (.subset ⟨⟨0⟩, 9⟩), .declare 0 "Deep" .union, .declare 0 "Mixed" .union,
      .declare 0 "Loop" .union, .addMember 0 ⟨⟨0⟩, 9⟩ ⟨⟨0⟩, 8⟩, .addMember 0 ⟨⟨0⟩, 9⟩ ⟨⟨0⟩, 4⟩,
      .addMember 0 ⟨⟨0⟩, 11⟩ ⟨⟨0⟩, 10⟩, .addMember 0 ⟨⟨0⟩, 11⟩ ⟨⟨0⟩, 9⟩,
      .addMember 0 ⟨⟨0⟩, 11⟩ ⟨⟨0⟩, 0⟩, .addMember 0 ⟨⟨0⟩, 12⟩ ⟨⟨0⟩, 11⟩,
      .addMember 0 ⟨⟨0⟩, 12⟩ ⟨⟨0⟩, 6⟩, .addMember 0 ⟨⟨0⟩, 13⟩ ⟨⟨0⟩, 4⟩,
      .addMember 0 ⟨⟨0⟩, 13⟩ ⟨⟨0⟩, 13⟩] = layeredNumbers := by decide +kernel
  exact made ▸ reachable_after _

theorem isOfKind_layeredNumbers :
    layeredNumbers.isOfKind .signed ⟨⟨0⟩, 11⟩ = .ok true ∧
    (∀ kind, layeredNumbers.isOfKind kind ⟨⟨0⟩, 12⟩ = .ok false) ∧
    ∀ kind, layeredNumbers.isOfKind kind ⟨⟨0⟩, 13⟩ = .ok false := by
  refine ⟨eq_ok_of_toOption (by decide +kernel), fun kind => ?_, fun kind => ?_⟩ <;>
    exact eq_ok_of_toOption (by cases kind <;> decide +kernel)

/-- The union of three layers is of the signed kind in every order of trying, the mixed one and the
one that contains itself are of no kind. -/
theorem kinds_disjoint_layeredNumbers :
    layeredNumbers.Uniform .signed ⟨⟨0⟩, 11⟩ ∧
    layeredNumbers.attributeIn [.symbol, .unsigned, .float, .signed] ⟨⟨0⟩, 11⟩ =
      .ok (.ofKind .signed) ∧
    (∀ kind, ¬ layeredNumbers.Uniform kind ⟨⟨0⟩, 12⟩) ∧
    layeredNumbers.attributeOf ⟨⟨0⟩, 12⟩ = .ok .record ∧
    (∀ kind, ¬ layeredNumbers.Uniform kind ⟨⟨0⟩, 13⟩) := by
  obtain ⟨deep, mixed, loop⟩ := isOfKind_layeredNumbers
  obtain ⟨-, kind_deep, -, any_order, exact_deep⟩ :=
    kinds_disjoint reachable_layeredNumbers (h := ⟨⟨0⟩, 11⟩) (by decide)
  obtain ⟨-, -, kind_mixed, -, exact_mixed⟩ :=
    kinds_disjoint reachable_layeredNumbers (h := ⟨⟨0⟩, 12⟩) (by decide)
  obtain ⟨-, -, -, -, exact_loop⟩ :=
    kinds_disjoint reachable_layeredNumbers (h := ⟨⟨0⟩, 13⟩) (by decide)
  refine ⟨?_, (any_order _ (by decide)).trans (kind_deep _ deep), fun kind => ?_, kind_mixed mixed,
    fun kind => ?_⟩
  · exact of_decide_eq_true (Except.ok.inj ((exact_deep _).symm.trans deep))
  · exact of_decide_eq_false (Except.ok.inj ((exact_mixed kind).symm.trans (mixed kind)))
  · exact of_decide_eq_false (Except.ok.inj ((exact_loop kind).symm.trans (loop kind)))

/-! ## Subtyping inside kinds -/

/-- A type of one kind is not below a type of another. -/
theorem Below.kind_eq (below : env.Below a b) (reduces : env.Reduces a (env.constantType kind))
    (reduces' : env.Reduces b (env.constantType kind')) (arranged : env.Arranged) :
    kind = kind' := by
  induction below with
  | refl => exact reduces.kind_unique reduces' arranged
  | root ab => exact reduces.kind_unique (ab.trans reduces') arranged
  | left ha _ _ _ _ ih =>
    obtain ⟨nonempty, reduce⟩ := (reduces_iff ha).mp reduces
    obtain ⟨member, mem⟩ := List.exists_mem_of_ne_nil _ nonempty
    exact ih member mem (reduce member mem) reduces'
  | right _ _ hb _ _ mem _ ih => exact ih reduces (((reduces_iff hb).mp reduces').2 _ mem)

theorem exists_kind (closed : env.Closed) (own : env.owns h = true)
    (no_record : env.attributeOf h ≠ .ok .record) :
    ∃ kind, env.Reduces h (env.constantType kind) := by
  rw [ne_eq, attributeOf_eq_record_iff closed own] at no_record
  simpa using no_record

/-- Of two types that are of some kind, one is below the other only if they are of the same kind.  Types
of the same kind have a bound, and types of different kinds have nothing but types of no kind in
theirs. -/
theorem subtyping_within_kinds (reachable : env.Reachable) (own_a : env.owns a = true)
    (own_b : env.owns b = true) (kind_a : env.attributeOf a ≠ .ok .record)
    (kind_b : env.attributeOf b ≠ .ok .record) :
    ((env.isSubtype a b).outcome = .ok true → env.attributeOf a = env.attributeOf b) ∧
    ∃ bounds, (env.leastCommonSupertypes a b).outcome = .ok bounds ∧
      (env.attributeOf a = env.attributeOf b → bounds ≠ ∅) ∧
      (env.attributeOf a ≠ env.attributeOf b → ∀ t ∈ bounds, env.attributeOf t = .ok .record) := by
  have arranged := reachable.arranged
  have closed := arranged.closed
  obtain ⟨kind, reduces_a⟩ := exists_kind closed own_a kind_a
  obtain ⟨kind', reduces_b⟩ := exists_kind closed own_b kind_b
  have same_iff : env.attributeOf a = env.attributeOf b ↔ kind = kind' := by
    rw [(attributeOf_eq_ofKind_iff arranged own_a).mpr reduces_a,
      (attributeOf_eq_ofKind_iff arranged own_b).mpr reduces_b]
    simp
  obtain ⟨bounds, done, mem⟩ := leastCommonSupertypes_yields closed own_a own_b
  rw [same_iff, ne_eq, same_iff]
  refine ⟨fun yes => ?_, bounds, done, ?_, fun different t ht => ?_⟩
  · exact ((accepts_iff_below closed own_a own_b).mp yes).kind_eq reduces_a reduces_b arranged
  · rintro rfl empty
    -- The constant type of the common kind is above both.
    obtain ⟨t, is_bound⟩ := exists_isBound closed own_a ⟨.root reduces_a, .root reduces_b⟩
    exact SortedSet.eq_empty_iff.mp empty t ((mem t).mpr is_bound)
  · have is_bound := (mem t).mp ht
    obtain ⟨above_a, above_b⟩ := is_bound.best.1
    refine (attributeOf_eq_record_iff closed (is_bound.owns closed own_a own_b)).mpr ?_
    intro kind_t reduces_t
    apply different
    rw [above_a.kind_eq reduces_a reduces_t arranged, above_b.kind_eq reduces_b reduces_t arranged]

theorem outcomes_layeredNumbers :
    layeredNumbers.attributeOf ⟨⟨0⟩, 6⟩ = .ok (.ofKind .symbol) ∧
    layeredNumbers.attributeOf ⟨⟨0⟩, 10⟩ = .ok (.ofKind .signed) ∧
    layeredNumbers.attributeOf ⟨⟨0⟩, 11⟩ = .ok (.ofKind .signed) ∧
    (layeredNumbers.isSubtype ⟨⟨0⟩, 10⟩ ⟨⟨0⟩, 11⟩).outcome = .ok true ∧
    (layeredNumbers.leastCommonSupertypes ⟨⟨0⟩, 11⟩ ⟨⟨0⟩, 6⟩).outcome =
      .ok (.singleton ⟨⟨0⟩, 12⟩) := by
  refine ⟨?_, ?_, ?_, ?_, ?_⟩ <;> exact eq_ok_of_toOption (by decide +kernel)

/-- The subset of a union is below a larger union of its kind, with a bound.  The larger union and the
symbols have only the mixed union above both, and that is of no kind. -/
theorem subtyping_within_kinds_layeredNumbers :
    layeredNumbers.attributeOf ⟨⟨0⟩, 10⟩ = layeredNumbers.attributeOf ⟨⟨0⟩, 11⟩ ∧
    (∃ bounds, (layeredNumbers.leastCommonSupertypes ⟨⟨0⟩, 10⟩ ⟨⟨0⟩, 11⟩).outcome = .ok bounds ∧
      bounds ≠ ∅) ∧
    (layeredNumbers.leastCommonSupertypes ⟨⟨0⟩, 11⟩ ⟨⟨0⟩, 6⟩).outcome =
      .ok (.singleton ⟨⟨0⟩, 12⟩) ∧
    layeredNumbers.attributeOf ⟨⟨0⟩, 12⟩ = .ok .record := by
  obtain ⟨symbol, part, deep, below, mixed⟩ := outcomes_layeredNumbers
  obtain ⟨same, bounds, done, some_bound, -⟩ := subtyping_within_kinds reachable_layeredNumbers
    (a := ⟨⟨0⟩, 10⟩) (b := ⟨⟨0⟩, 11⟩) (by decide) (by decide) (by simp [part]) (by simp [deep])
  obtain ⟨-, bounds', done', -, records⟩ := subtyping_within_kinds reachable_layeredNumbers
    (a := ⟨⟨0⟩, 11⟩) (b := ⟨⟨0⟩, 6⟩) (by decide) (by decide) (by simp [deep]) (by simp [symbol])
  cases mixed.symm.trans done'
  refine ⟨same below, ⟨bounds, done, some_bound (same below)⟩, mixed, ?_⟩
  exact records (by simp [deep, symbol]) _ (SortedSet.mem_singleton.mpr rfl)

end TypeHierarchy.Environment
