import TypeHierarchy.Proofs.CommonSubtypes

/-!
# What two unions have in common

The search for the common subtypes of two unrelated unions goes down from the first one, into every
member that is not below the second, and stops at every member that is.  What it offers as common
subtypes are the members below the second union of all unions that such a way leads to (`Shared`), and
of these it keeps the ones with nothing strictly above them (`greatestCommonSubtypes_exact`).  Only the
second union is asked about on the way; that a shared type is below the first one as well follows from
the way itself, as long as no type is recursive (`IsBound.below_both`).  With transitivity this carries
over from two types to sets of them (`greatestBounds_below`).
-/

namespace TypeHierarchy.Environment

open scoped Classical
open Relation

/-- The second type is a member of the first, and the check does not find it below `b`. -/
def Enters (env : Environment) (b u v : Handle) : Prop :=
  env.HasMember u v ∧ (env.isSubtype v b).outcome = .ok false

/-- The type is below `b` and a member of `a`, or of a union that is reached from `a` through members
that are not below `b`. -/
def Shared (env : Environment) (a b m : Handle) : Prop :=
  env.Accepts m b ∧ ∃ u, ReflTransGen (env.Enters b) a u ∧ env.HasMember u m

variable {env : Environment} {a b g m u v : Handle}

/-! ## The ways of the search -/

theorem rejects_iff_not_below (closed : env.Closed) (own_a : env.owns a = true)
    (own_b : env.owns b = true) : (env.isSubtype a b).outcome = .ok false ↔ ¬ env.Below a b := by
  rw [isSubtype_eq closed own_a own_b, Except.ok.injEq, decide_eq_false_iff_not]

theorem opened_iff_path (closed : env.Closed) (own_b : env.owns b = true) :
    env.Opened a b u ↔ ReflTransGen (env.Enters b) a u := by
  constructor
  · intro opened
    induction opened with
    | start => exact .refl
    | member _ step outside ih =>
      have own := step.owns closed
      rw [leads_false] at step
      exact ih.tail ⟨step, (rejects_iff_not_below closed own own_b).mpr outside⟩
  · intro path
    induction path with
    | refl => exact .start
    | tail _ step ih =>
      obtain ⟨step, outside⟩ := step
      have own := step.owns closed
      rw [← leads_false] at step
      exact .member ih step ((rejects_iff_not_below closed own own_b).mp outside)

theorem shared_iff_collected (closed : env.Closed) (own_b : env.owns b = true) :
    env.Shared a b m ↔ env.Collected a b m := by
  simp only [Shared, Collected, Offered, opened_iff_path closed own_b, leads_false]
  rw [and_comm]
  refine and_congr_right fun offered => ?_
  obtain ⟨u, -, step⟩ := offered
  exact accepts_iff_below closed (step.owns closed) own_b

theorem Shared.owns (shared : env.Shared a b m) : env.owns m = true := (owns_of_accepts shared.1).1

/-- The bound of two unrelated unions consists of the shared types with no shared type strictly above
them, and is empty only where nothing is shared.  The search comes to an end on every union, also on
one that members lead back to. -/
theorem greatestCommonSubtypes_exact (reachable : env.Reachable) (union_a : env.IsUnion a)
    (union_b : env.IsUnion b) (ab : (env.isSubtype a b).outcome = .ok false)
    (ba : (env.isSubtype b a).outcome = .ok false) :
    ∃ bounds, (env.greatestCommonSubtypes a b).outcome = .ok bounds ∧
      (∀ m, m ∈ bounds ↔ env.Shared a b m ∧
        ∀ n, env.Shared a b n → ¬ (env.Accepts m n ∧ ¬ env.Accepts n m)) ∧
      (bounds = ∅ ↔ ¬ ∃ m, env.Shared a b m) := by
  have closed := reachable.closed
  have own_a := union_a.owns
  have own_b := union_b.owns
  rw [rejects_iff_not_below closed own_a own_b] at ab
  rw [rejects_iff_not_below closed own_b own_a] at ba
  have candidate_iff (m) : env.Candidate .greatest a b m ↔ env.Shared a b m := by
    rw [shared_iff_collected closed own_b]
    exact and_iff_right union_b
  obtain ⟨bounds, done, mem⟩ := greatestCommonSubtypes_yields closed own_a own_b
  rw [isBound_of_unrelated ab ba] at mem
  refine ⟨bounds, done, fun m => ?_, ?_⟩
  · rw [mem, Best, candidate_iff]
    refine and_congr_right fun shared => forall_congr' fun n => ?_
    rw [candidate_iff]
    refine forall_congr' fun shared' => not_congr ?_
    rw [accepts_iff_below closed shared.owns shared'.owns,
      accepts_iff_below closed shared'.owns shared.owns]
    rfl
  · rw [SortedSet.eq_empty_iff]
    constructor
    · rintro none ⟨m, shared⟩
      -- Being below need not be transitive here, so a best type is found by going up step by step and
      -- need not itself be above `m`.
      obtain ⟨best, is_best, -⟩ : ∃ best, env.Best .greatest (env.Candidate .greatest a b) best ∧
          ReflTransGen (env.Outranks .greatest) best m :=
        exists_best (fun h candidate => candidate.owns closed own_a) ((candidate_iff m).mpr shared)
      exact none best ((mem best).mpr is_best)
    · exact fun none m hm => none ⟨m, (candidate_iff m).mp ((mem m).mp hm).1⟩

/-- A subset of the signed primitive; a union of another union and the symbol primitive, which is a
member of that other union in turn, beside the subset and the signed primitive; and a union of three
primitives. -/
def knottedUnions : Environment :=
  { initial ⟨0⟩ with entries := (initial ⟨0⟩).entries ++
      #[⟨"Small", .subset ⟨⟨0⟩, 4⟩ false⟩, ⟨"Left", .union [⟨⟨0⟩, 10⟩, ⟨⟨0⟩, 6⟩]⟩,
        ⟨"Loop", .union [⟨⟨0⟩, 9⟩, ⟨⟨0⟩, 8⟩, ⟨⟨0⟩, 4⟩]⟩,
        ⟨"Right", .union [⟨⟨0⟩, 4⟩, ⟨⟨0⟩, 5⟩, ⟨⟨0⟩, 6⟩]⟩] }

theorem reachable_knottedUnions : knottedUnions.Reachable := by
  have made : Environment.after [.declare 0 "Small" (.subset ⟨⟨0⟩, 4⟩), .declare 0 "Left" .union,
      .declare 0 "Loop" .union, .declare 0 "Right" .union, .addMember 0 ⟨⟨0⟩, 9⟩ ⟨⟨0⟩, 10⟩,
      .addMember 0 ⟨⟨0⟩, 9⟩ ⟨⟨0⟩, 6⟩, .addMember 0 ⟨⟨0⟩, 10⟩ ⟨⟨0⟩, 9⟩,
      .addMember 0 ⟨⟨0⟩, 10⟩ ⟨⟨0⟩, 8⟩, .addMember 0 ⟨⟨0⟩, 10⟩ ⟨⟨0⟩, 4⟩,
      .addMember 0 ⟨⟨0⟩, 11⟩ ⟨⟨0⟩, 4⟩, .addMember 0 ⟨⟨0⟩, 11⟩ ⟨⟨0⟩, 5⟩,
      .addMember 0 ⟨⟨0⟩, 11⟩ ⟨⟨0⟩, 6⟩] = knottedUnions := by decide +kernel
  exact made ▸ reachable_after _

theorem outcomes_knottedUnions :
    (knottedUnions.greatestCommonSubtypes ⟨⟨0⟩, 9⟩ ⟨⟨0⟩, 11⟩).outcome =
      .ok (.ofList [⟨⟨0⟩, 4⟩, ⟨⟨0⟩, 6⟩]) ∧
    (knottedUnions.isSubtype ⟨⟨0⟩, 9⟩ ⟨⟨0⟩, 11⟩).outcome = .ok false ∧
    (knottedUnions.isSubtype ⟨⟨0⟩, 11⟩ ⟨⟨0⟩, 9⟩).outcome = .ok false ∧
    (knottedUnions.isSubtype ⟨⟨0⟩, 10⟩ ⟨⟨0⟩, 11⟩).outcome = .ok false ∧
    (knottedUnions.isSubtype ⟨⟨0⟩, 8⟩ ⟨⟨0⟩, 11⟩).outcome = .ok true := by
  refine ⟨?_, ?_, ?_, ?_, ?_⟩ <;> exact eq_ok_of_toOption (by decide +kernel)

/-- The way back to the first union does not keep the search from the members of the other one.  Both
the signed primitive and its subset are found there, and only the primitive is kept. -/
theorem greatestCommonSubtypes_knottedUnions :
    (knottedUnions.greatestCommonSubtypes ⟨⟨0⟩, 9⟩ ⟨⟨0⟩, 11⟩).outcome =
      .ok (.ofList [⟨⟨0⟩, 4⟩, ⟨⟨0⟩, 6⟩]) ∧
    TransGen knottedUnions.HasMember ⟨⟨0⟩, 9⟩ ⟨⟨0⟩, 9⟩ ∧
    knottedUnions.Shared ⟨⟨0⟩, 9⟩ ⟨⟨0⟩, 11⟩ ⟨⟨0⟩, 4⟩ ∧
    knottedUnions.Shared ⟨⟨0⟩, 9⟩ ⟨⟨0⟩, 11⟩ ⟨⟨0⟩, 8⟩ ∧
    ∃ n, knottedUnions.Shared ⟨⟨0⟩, 9⟩ ⟨⟨0⟩, 11⟩ n ∧
      knottedUnions.Accepts ⟨⟨0⟩, 8⟩ n ∧ ¬ knottedUnions.Accepts n ⟨⟨0⟩, 8⟩ := by
  obtain ⟨found, left_right, right_left, loop_right, small_right⟩ := outcomes_knottedUnions
  have inwards : knottedUnions.HasMember ⟨⟨0⟩, 9⟩ ⟨⟨0⟩, 10⟩ := ⟨_, rfl, by decide⟩
  have back : knottedUnions.HasMember ⟨⟨0⟩, 10⟩ ⟨⟨0⟩, 9⟩ := ⟨_, rfl, by decide⟩
  have small : knottedUnions.Shared ⟨⟨0⟩, 9⟩ ⟨⟨0⟩, 11⟩ ⟨⟨0⟩, 8⟩ :=
    ⟨small_right, ⟨⟨0⟩, 10⟩, .single ⟨inwards, loop_right⟩, _, rfl, by decide⟩
  obtain ⟨bounds, done, mem, -⟩ := greatestCommonSubtypes_exact reachable_knottedUnions
    ⟨_, rfl⟩ ⟨_, rfl⟩ left_right right_left
  cases found.symm.trans done
  have kept := (mem ⟨⟨0⟩, 4⟩).mp (by decide)
  have dropped := mt (mem ⟨⟨0⟩, 8⟩).mpr (by decide)
  refine ⟨found, .tail (.single inwards) back, kept.1, small, ?_⟩
  simpa [small] using dropped

/-! ## Below both, below all -/

/-- Without recursive types, what is in the bound of two types is below both. -/
theorem IsBound.below_both (is_bound : env.IsBound .greatest a b g) (closed : env.Closed)
    (none : env.NoneRecursive) : env.Below g a ∧ env.Below g b := by
  by_cases ab : env.Below a b
  · rw [isBound_of_below ab] at is_bound
    cases is_bound
    exact ⟨.refl a, ab⟩
  by_cases ba : env.Below b a
  · rw [isBound_of_above ab ba] at is_bound
    cases is_bound
    exact ⟨ba, .refl b⟩
  · rw [isBound_of_unrelated ab ba] at is_bound
    obtain ⟨⟨-, collected⟩, -⟩ := is_bound
    -- Only `b` was asked about; that the type is below `a` comes from the way it was found.
    exact ⟨none.below_of_path closed collected.path.to_reflTransGen, collected.2⟩

/-- Where no type is recursive and every union has a member, each type in the bound of a set is below
all types of the set, and each type in the pairwise bound of two sets is below a type of the one and a
type of the other. -/
theorem greatestBounds_below (reachable : env.Reachable) (none : env.NoneRecursive)
    (full : env.Full) :
    (∀ types : HandleSet, (∀ s ∈ types, env.owns s = true) →
      ∃ bounds, (env.setBound .greatest (.finite types)).outcome = .ok bounds ∧
        ∀ g ∈ bounds, ∀ s ∈ types, env.Accepts g s) ∧
    ∀ lefts rights : HandleSet, (∀ h ∈ lefts, env.owns h = true) →
      (∀ h ∈ rights, env.owns h = true) →
      ∃ bounds, (env.pairwiseBound .greatest (.finite lefts) (.finite rights)).outcome =
          .ok (.finite bounds) ∧
        ∀ g ∈ bounds, ∃ l ∈ lefts, ∃ r ∈ rights, env.Accepts g l ∧ env.Accepts g r := by
  have closed := reachable.closed
  have accepts {g s : Handle} (below : env.Below g s) (own : env.owns s = true) :
      env.Accepts g s := below.accepts closed (below.owns_lower own) own
  constructor
  · intro types own
    obtain ⟨bounds, done, below⟩ := exists_setBound_related closed Below.refl full.below_trans
      (fun is_bound => is_bound.below_both closed none) own
    exact ⟨bounds, done, fun g hg s hs => accepts (below g hg s hs) (own s hs)⟩
  · intro lefts rights own_lefts own_rights
    obtain ⟨bounds, done, mem⟩ := exists_pairwiseBound closed own_lefts own_rights
    refine ⟨bounds, done, fun g hg => ?_⟩
    obtain ⟨⟨l, hl, r, hr, is_bound⟩, -⟩ := (mem g).mp hg
    obtain ⟨below_l, below_r⟩ := is_bound.below_both closed none
    exact ⟨l, hl, r, hr, accepts below_l (own_lefts l hl), accepts below_r (own_rights r hr)⟩

/-- The symbol primitive is below all of three unions, though a member of a member in the last.  In the
pairwise bound each type comes from a pair of its own. -/
theorem greatestBounds_crossedUnions :
    (crossedUnions.setBound .greatest (.ofList [⟨⟨0⟩, 9⟩, ⟨⟨0⟩, 11⟩, ⟨⟨0⟩, 12⟩])).outcome =
      .ok (.singleton ⟨⟨0⟩, 6⟩) ∧
    crossedUnions.Accepts ⟨⟨0⟩, 6⟩ ⟨⟨0⟩, 12⟩ ∧
    (crossedUnions.pairwiseBound .greatest (.singleton ⟨⟨0⟩, 9⟩)
      (.ofList [⟨⟨0⟩, 10⟩, ⟨⟨0⟩, 12⟩])).outcome = .ok (.ofList [⟨⟨0⟩, 6⟩, ⟨⟨0⟩, 8⟩]) ∧
    ∃ r ∈ (.ofList [⟨⟨0⟩, 10⟩, ⟨⟨0⟩, 12⟩] : HandleSet),
      crossedUnions.Accepts ⟨⟨0⟩, 8⟩ ⟨⟨0⟩, 9⟩ ∧ crossedUnions.Accepts ⟨⟨0⟩, 8⟩ r := by
  have found : (crossedUnions.setBound .greatest
      (.ofList [⟨⟨0⟩, 9⟩, ⟨⟨0⟩, 11⟩, ⟨⟨0⟩, 12⟩])).outcome = .ok (.singleton ⟨⟨0⟩, 6⟩) :=
    eq_ok_of_toOption (by decide +kernel)
  have paired : (crossedUnions.pairwiseBound .greatest (.singleton ⟨⟨0⟩, 9⟩)
      (.ofList [⟨⟨0⟩, 10⟩, ⟨⟨0⟩, 12⟩])).outcome = .ok (.ofList [⟨⟨0⟩, 6⟩, ⟨⟨0⟩, 8⟩]) :=
    eq_ok_of_toOption (by decide +kernel)
  obtain ⟨sets, pairs⟩ :=
    greatestBounds_below reachable_crossedUnions noneRecursive_crossedUnions (by decide)
  obtain ⟨bounds, done, below⟩ :=
    sets (.ofList [⟨⟨0⟩, 9⟩, ⟨⟨0⟩, 11⟩, ⟨⟨0⟩, 12⟩]) (by decide)
  obtain ⟨bounds', done', below'⟩ :=
    pairs (.singleton ⟨⟨0⟩, 9⟩) (.ofList [⟨⟨0⟩, 10⟩, ⟨⟨0⟩, 12⟩]) (by decide) (by decide)
  cases found.symm.trans done
  cases paired.symm.trans done'
  obtain ⟨l, hl, r, hr, below_l, below_r⟩ := below' ⟨⟨0⟩, 8⟩ (by decide)
  cases SortedSet.mem_singleton.mp hl
  exact ⟨found, below _ List.mem_cons_self _ (by decide), paired, r, hr, below_l, below_r⟩

end TypeHierarchy.Environment
