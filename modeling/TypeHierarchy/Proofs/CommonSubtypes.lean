import TypeHierarchy.Proofs.Bounds
import TypeHierarchy.Proofs.Flattening

/-!
# Greatest common subtypes, one way and the other

The common subtypes of two unrelated unions are looked for among the members of the first one only, so
it matters which of the two comes first.  A common subtype that is found one way is below one that is
found the other way just when something that the members of the second union lead to is above it and
below the first union (`exists_isBound_swap_iff`).  It need not be so: a subset of a member of the
second union is found if the first union holds it, and nothing at all the other way round.
-/

namespace TypeHierarchy.Environment

open scoped Classical
open Relation

/-- No type of the environment is recursive. -/
def NoneRecursive (env : Environment) : Prop :=
  ∀ h, env.owns h = true → env.isRecursive h = .ok false

/-- Members lead from the first type, in zero or more steps, to one below the second. -/
def Inside (env : Environment) (a b m : Handle) : Prop :=
  ReflTransGen env.HasMember a m ∧ env.Below m b

/-- Of the types inside, only such as are also below it are above it. -/
structure Topmost (env : Environment) (a b m : Handle) : Prop where
  inside : env.Inside a b m
  top : ∀ n, env.Inside a b n → env.Below m n → env.Below n m

variable {env : Environment} {a b c g h m u : Handle}

/-! ## Environments without recursive types -/

theorem noneRecursive_iff : env.NoneRecursive ↔
    (env.handles.all fun h => (env.isRecursive h).toOption == some false) = true := by
  simp only [List.all_eq_true, env.mem_handles, beq_iff_eq]
  constructor
  · intro none h own
    rw [none h own]
    rfl
  · exact fun all h own => eq_ok_of_toOption (all h own)

instance (env : Environment) : Decidable env.NoneRecursive :=
  decidable_of_iff _ noneRecursive_iff.symm

theorem NoneRecursive.not_recursive (none : env.NoneRecursive) (closed : env.Closed) :
    ¬ env.Recursive h := by
  intro recursive
  have own := recursive.owns
  exact (not_isRecursive_iff closed own).mp (none h own) recursive

theorem NoneRecursive.below_of_path (none : env.NoneRecursive) (closed : env.Closed)
    (path : ReflTransGen env.HasMember h m) : env.Below m h := by
  rcases reflTransGen_iff_eq_or_transGen.mp path with rfl | path
  · exact .refl m
  · exact Environment.below_of_path closed (fun u _ => none.not_recursive closed) path

/-! ## Along a path of members -/

theorem Hollow.of_path (hollow : env.Hollow m) (path : ReflTransGen env.HasMember c m) :
    env.Hollow c := by
  obtain ⟨e, rest, he⟩ := hollow
  rw [← leads_false] at path
  exact ⟨e, path.trans rest, he⟩

/-- What is below a type is below every union that members lead from to it, hollow or not. -/
theorem NoneRecursive.below_source (none : env.NoneRecursive) (closed : env.Closed)
    (path : ReflTransGen env.HasMember c m) (below : env.Below g m) : env.Below g c := by
  rcases ReflTransGen.cases_head path with rfl | ⟨_, step, -⟩
  · exact below
  · exact below_trans below (none.below_of_path closed path) (.inl step.isUnion)

theorem NoneRecursive.target_below (none : env.NoneRecursive) (closed : env.Closed)
    (path : ReflTransGen env.HasMember c m) (below : env.Below c u) : env.Below m u := by
  refine below_trans (none.below_of_path closed path) below ?_
  by_cases union : env.IsUnion u
  · exact .inl union
  · exact .inr fun hollow => not_below_of_hollow (hollow.of_path path) union below

/-! ## What the search comes to -/

/-- On the way from an opened union to a type below the bound, something is put aside. -/
theorem Opened.exists_collected (opened : env.Opened a b u) (path : TransGen env.HasMember u m)
    (below : env.Below m b) : ∃ c, env.Collected a b c ∧ ReflTransGen env.HasMember c m := by
  rw [← leads_false] at path ⊢
  induction path using TransGen.head_induction_on with
  | single step => exact ⟨m, ⟨⟨_, opened, step⟩, below⟩, .refl⟩
  | @head u v step rest ih =>
    by_cases inside : env.Below v b
    · exact ⟨v, ⟨⟨u, opened, step⟩, inside⟩, rest.to_reflTransGen⟩
    · exact ih (.member opened step inside)

theorem Inside.exists_collected (inside : env.Inside a b m) (ab : ¬ env.Below a b) :
    ∃ c, env.Collected a b c ∧ ReflTransGen env.HasMember c m := by
  obtain ⟨path, below⟩ := inside
  rcases reflTransGen_iff_eq_or_transGen.mp path with rfl | path
  · exact absurd below ab
  · exact Opened.start.exists_collected path below

theorem Collected.path (collected : env.Collected a b m) : TransGen env.HasMember a m := by
  rw [← leads_false]
  exact collected.1.path

theorem Collected.inside (collected : env.Collected a b m) : env.Inside a b m :=
  ⟨collected.path.to_reflTransGen, collected.2⟩

theorem Below.trans_chain (below : env.Below a b) (chain : ReflTransGen env.StrictlyBelow b c)
    (solid : ¬ env.Hollow a) : env.Below a c := by
  induction chain with
  | refl => exact below
  | tail _ step ih => exact below_trans ih step.1 (.inr solid)

/-- What the search keeps is topmost among all the types inside, not only among those put aside. -/
theorem topmost_of_best (closed : env.Closed) (none : env.NoneRecursive) (ab : ¬ env.Below a b)
    (best : env.Best .greatest (env.Candidate .greatest a b) m) : env.Topmost a b m := by
  obtain ⟨⟨union_b, collected⟩, unbeaten⟩ := best
  refine ⟨collected.inside, fun n inside mn => ?_⟩
  obtain ⟨c, aside, path⟩ := inside.exists_collected ab
  have mc : env.Below m c := none.below_source closed path mn
  have cm : env.Below c m := Decidable.not_not.mp fun up => unbeaten c ⟨union_b, aside⟩ ⟨mc, up⟩
  exact none.target_below closed path cm

/-- A topmost type need not be put aside itself, but then a union around it is kept. -/
theorem Topmost.exists_best (topmost : env.Topmost a b m) (closed : env.Closed)
    (none : env.NoneRecursive) (union_b : env.IsUnion b) (ab : ¬ env.Below a b)
    (below : env.Below g m) :
    ∃ r, env.Best .greatest (env.Candidate .greatest a b) r ∧ env.Below g r := by
  obtain ⟨c, aside, path⟩ := topmost.inside.exists_collected ab
  refine ⟨c, ⟨⟨union_b, aside⟩, fun x candidate beaten => ?_⟩, none.below_source closed path below⟩
  obtain ⟨cx, xc⟩ := beaten
  have mx : env.Below m x := none.target_below closed path cx
  exact xc (none.below_source closed path (topmost.top x candidate.2.inside mx))

/-- Where no empty union interferes, being below any type inside is enough. -/
theorem Inside.exists_best (inside : env.Inside a b m) (closed : env.Closed)
    (none : env.NoneRecursive) (own_a : env.owns a = true) (union_b : env.IsUnion b)
    (ab : ¬ env.Below a b) (below : env.Below g m) (solid : ¬ env.Hollow g) :
    ∃ r, env.Best .greatest (env.Candidate .greatest a b) r ∧ env.Below g r := by
  obtain ⟨c, aside, path⟩ := inside.exists_collected ab
  have candidate : env.Candidate .greatest a b c := ⟨union_b, aside⟩
  have gc : env.Below g c := none.below_source closed path below
  obtain ⟨r, best, chain⟩ : ∃ r, env.Best .greatest (env.Candidate .greatest a b) r ∧
      ReflTransGen (env.Outranks .greatest) r c :=
    Environment.exists_best (fun h candidate => candidate.owns closed own_a) candidate
  exact ⟨r, best, gc.trans_chain (reflTransGen_swap.mp chain) solid⟩

/-! ## Either way -/

/-- Only unions have common subtypes without being related. -/
theorem IsBound.isUnion (is_bound : env.IsBound .greatest a b g) (ab : ¬ env.Below a b)
    (ba : ¬ env.Below b a) : env.IsUnion a ∧ env.IsUnion b := by
  rw [isBound_of_unrelated ab ba] at is_bound
  obtain ⟨⟨union_b, collected⟩, -⟩ := is_bound
  obtain ⟨_, first, -⟩ := TransGen.head'_iff.mp collected.path
  exact ⟨first.isUnion, union_b⟩

theorem exists_isBound_swap_of_related (related : env.Below a b ∨ env.Below b a)
    (is_bound : env.IsBound .greatest a b g) :
    ∃ r, env.IsBound .greatest b a r ∧ env.Below g r := by
  by_cases ab : env.Below a b
  · rw [isBound_of_below ab] at is_bound
    cases is_bound
    by_cases ba : env.Below b a
    · rw [isBound_of_below ba]
      exact ⟨b, rfl, ab⟩
    · rw [isBound_of_above ba ab]
      exact ⟨a, rfl, .refl a⟩
  · have ba := related.resolve_left ab
    rw [isBound_of_above ab ba] at is_bound
    rw [isBound_of_below ba]
    cases is_bound
    exact ⟨b, rfl, .refl b⟩

theorem exists_isBound_swap_iff (closed : env.Closed) (none : env.NoneRecursive)
    (own_b : env.owns b = true) (is_bound : env.IsBound .greatest a b g) :
    (∃ r, env.IsBound .greatest b a r ∧ env.Below g r) ↔ env.Below a b ∨
      ∃ m, env.Inside b a m ∧ env.Below g m ∧ (env.Hollow g → env.Topmost b a m) := by
  by_cases ab : env.Below a b
  · exact iff_of_true (exists_isBound_swap_of_related (.inl ab) is_bound) (.inl ab)
  by_cases ba : env.Below b a
  · refine iff_of_true (exists_isBound_swap_of_related (.inr ba) is_bound) (.inr ?_)
    rw [isBound_of_above ab ba] at is_bound
    cases is_bound
    have inside : env.Inside b a b := ⟨.refl, ba⟩
    exact ⟨b, inside, .refl b, fun _ => ⟨inside, fun n hn _ => none.below_of_path closed hn.1⟩⟩
  have union_a := (is_bound.isUnion ab ba).1
  rw [or_iff_right ab, isBound_of_unrelated ba ab]
  constructor
  · rintro ⟨r, best, below⟩
    have topmost := topmost_of_best closed none ba best
    exact ⟨r, topmost.inside, below, fun _ => topmost⟩
  · rintro ⟨m, inside, below, topmost⟩
    by_cases hollow : env.Hollow g
    · exact (topmost hollow).exists_best closed none union_a ba below
    · exact inside.exists_best closed none own_b union_a ba below hollow

/-- Without recursive types, what is found one way is below something found the other way if the two
types are related or one of them is no union.  In general it is so just when the first type is below
the second, or the members of the second lead to a type above the one found and below the first; for a
hollow type, to a topmost one. -/
theorem greatestCommonSubtypes_swap (reachable : env.Reachable) (none : env.NoneRecursive)
    (own_a : env.owns a = true) (own_b : env.owns b = true) :
    ∃ bounds swapped, (env.greatestCommonSubtypes a b).outcome = .ok bounds ∧
      (env.greatestCommonSubtypes b a).outcome = .ok swapped ∧
      (env.Below a b ∨ env.Below b a ∨ ¬ (env.IsUnion a ∧ env.IsUnion b) →
        ∀ g ∈ bounds, ∃ r ∈ swapped, env.Accepts g r) ∧
      ∀ g ∈ bounds, (∃ r ∈ swapped, env.Accepts g r) ↔ env.Below a b ∨
        ∃ m, env.Inside b a m ∧ env.Below g m ∧ (env.Hollow g → env.Topmost b a m) := by
  have closed := reachable.closed
  obtain ⟨bounds, done, mem⟩ := greatestCommonSubtypes_yields closed own_a own_b
  obtain ⟨swapped, done', mem'⟩ := greatestCommonSubtypes_yields closed own_b own_a
  have covered_iff (g) (hg : g ∈ bounds) : (∃ r ∈ swapped, env.Accepts g r) ↔
      ∃ r, env.IsBound .greatest b a r ∧ env.Below g r := by
    have own_g := ((mem g).mp hg).owns closed own_a own_b
    refine exists_congr fun r => ?_
    rw [mem']
    exact and_congr_right fun found =>
      accepts_iff_below closed own_g (found.owns closed own_b own_a)
  refine ⟨bounds, swapped, done, done', fun easy g hg => ?_, fun g hg => ?_⟩
  · have is_bound := (mem g).mp hg
    rw [covered_iff g hg]
    by_cases related : env.Below a b ∨ env.Below b a
    · exact exists_isBound_swap_of_related related is_bound
    · obtain ⟨ab, ba⟩ := not_or.mp related
      exact absurd (is_bound.isUnion ab ba) ((easy.resolve_left ab).resolve_left ba)
  · rw [covered_iff g hg]
    exact exists_isBound_swap_iff closed none own_b ((mem g).mp hg)

/-- A subset of the signed primitive; a union of it and the symbol primitive; a union of the signed and
the float primitive; and a union in which the symbol primitive is a member of a member. -/
def crossedUnions : Environment :=
  { initial ⟨0⟩ with entries := (initial ⟨0⟩).entries ++
      #[⟨"Small", .subset ⟨⟨0⟩, 4⟩ false⟩, ⟨"Left", .union [⟨⟨0⟩, 6⟩, ⟨⟨0⟩, 8⟩]⟩,
        ⟨"Right", .union [⟨⟨0⟩, 4⟩, ⟨⟨0⟩, 5⟩]⟩, ⟨"Inner", .union [⟨⟨0⟩, 6⟩, ⟨⟨0⟩, 7⟩]⟩,
        ⟨"Outer", .union [⟨⟨0⟩, 5⟩, ⟨⟨0⟩, 11⟩]⟩] }

theorem reachable_crossedUnions : crossedUnions.Reachable := by
  have made : Environment.after [.declare 0 "Small" (.subset ⟨⟨0⟩, 4⟩), .declare 0 "Left" .union,
      .declare 0 "Right" .union, .declare 0 "Inner" .union, .declare 0 "Outer" .union,
      .addMember 0 ⟨⟨0⟩, 9⟩ ⟨⟨0⟩, 6⟩, .addMember 0 ⟨⟨0⟩, 9⟩ ⟨⟨0⟩, 8⟩,
      .addMember 0 ⟨⟨0⟩, 10⟩ ⟨⟨0⟩, 4⟩, .addMember 0 ⟨⟨0⟩, 10⟩ ⟨⟨0⟩, 5⟩,
      .addMember 0 ⟨⟨0⟩, 11⟩ ⟨⟨0⟩, 6⟩, .addMember 0 ⟨⟨0⟩, 11⟩ ⟨⟨0⟩, 7⟩,
      .addMember 0 ⟨⟨0⟩, 12⟩ ⟨⟨0⟩, 5⟩, .addMember 0 ⟨⟨0⟩, 12⟩ ⟨⟨0⟩, 11⟩] =
      crossedUnions := by decide +kernel
  exact made ▸ reachable_after _

theorem noneRecursive_crossedUnions : crossedUnions.NoneRecursive := by decide +kernel

theorem outcomes_crossedUnions :
    (crossedUnions.greatestCommonSubtypes ⟨⟨0⟩, 9⟩ ⟨⟨0⟩, 10⟩).outcome =
      .ok (.singleton ⟨⟨0⟩, 8⟩) ∧
    (crossedUnions.greatestCommonSubtypes ⟨⟨0⟩, 10⟩ ⟨⟨0⟩, 9⟩).outcome = .ok ∅ ∧
    (crossedUnions.greatestCommonSubtypes ⟨⟨0⟩, 9⟩ ⟨⟨0⟩, 12⟩).outcome =
      .ok (.singleton ⟨⟨0⟩, 6⟩) ∧
    (crossedUnions.greatestCommonSubtypes ⟨⟨0⟩, 12⟩ ⟨⟨0⟩, 9⟩).outcome =
      .ok (.singleton ⟨⟨0⟩, 6⟩) ∧
    (crossedUnions.isSubtype ⟨⟨0⟩, 9⟩ ⟨⟨0⟩, 12⟩).outcome = .ok false := by
  refine ⟨?_, ?_, ?_, ?_, ?_⟩ <;> exact eq_ok_of_toOption (by decide +kernel)

/-- The members of the second union lead to nothing between the subset and the first union.  Those of
the outer union lead, two steps down, to the symbol primitive. -/
theorem greatestCommonSubtypes_swap_crossedUnions :
    (¬ ∃ m, crossedUnions.Inside ⟨⟨0⟩, 10⟩ ⟨⟨0⟩, 9⟩ m ∧ crossedUnions.Below ⟨⟨0⟩, 8⟩ m) ∧
    (crossedUnions.greatestCommonSubtypes ⟨⟨0⟩, 9⟩ ⟨⟨0⟩, 12⟩).outcome =
      .ok (.singleton ⟨⟨0⟩, 6⟩) ∧
    ∃ m, crossedUnions.Inside ⟨⟨0⟩, 12⟩ ⟨⟨0⟩, 9⟩ m ∧ crossedUnions.Below ⟨⟨0⟩, 6⟩ m := by
  have full : crossedUnions.Full := by decide
  have closed := reachable_crossedUnions.closed
  obtain ⟨ahead, behind, nested, nested', unrelated⟩ := outcomes_crossedUnions
  refine ⟨?_, nested, ?_⟩
  · rintro ⟨m, inside, below⟩
    obtain ⟨bounds, swapped, done, done', -, covered_iff⟩ := greatestCommonSubtypes_swap
      reachable_crossedUnions noneRecursive_crossedUnions (a := ⟨⟨0⟩, 9⟩) (b := ⟨⟨0⟩, 10⟩) rfl rfl
    cases ahead.symm.trans done
    cases behind.symm.trans done'
    obtain ⟨r, hr, -⟩ := (covered_iff ⟨⟨0⟩, 8⟩ List.mem_cons_self).mpr
      (.inr ⟨m, inside, below, fun hollow => absurd hollow full.not_hollow⟩)
    exact absurd hr List.not_mem_nil
  · obtain ⟨bounds, swapped, done, done', -, covered_iff⟩ := greatestCommonSubtypes_swap
      reachable_crossedUnions noneRecursive_crossedUnions (a := ⟨⟨0⟩, 9⟩) (b := ⟨⟨0⟩, 12⟩) rfl rfl
    cases nested.symm.trans done
    cases nested'.symm.trans done'
    have itself : crossedUnions.Accepts ⟨⟨0⟩, 6⟩ ⟨⟨0⟩, 6⟩ := (Below.refl _).accepts closed rfl rfl
    rcases (covered_iff ⟨⟨0⟩, 6⟩ List.mem_cons_self).mp ⟨⟨⟨0⟩, 6⟩, List.mem_cons_self, itself⟩ with
      below | ⟨m, inside, below, -⟩
    · cases unrelated.symm.trans (below.accepts closed rfl rfl)
    · exact ⟨m, inside, below⟩

/-- One way the subset is found, the other way nothing. -/
theorem greatestCommonSubtypes_crossedUnions :
    crossedUnions.Reachable ∧ crossedUnions.NoneRecursive ∧
    (crossedUnions.greatestCommonSubtypes ⟨⟨0⟩, 9⟩ ⟨⟨0⟩, 10⟩).outcome =
      .ok (.singleton ⟨⟨0⟩, 8⟩) ∧
    (crossedUnions.greatestCommonSubtypes ⟨⟨0⟩, 10⟩ ⟨⟨0⟩, 9⟩).outcome = .ok ∅ := by
  obtain ⟨ahead, behind, -⟩ := outcomes_crossedUnions
  exact ⟨reachable_crossedUnions, noneRecursive_crossedUnions, ahead, behind⟩

end TypeHierarchy.Environment
