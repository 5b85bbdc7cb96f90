import TypeHierarchy.Proofs.Bounds

/-!
# Least common supertypes

The least common supertypes of two types are the minimal ones among all types above both, up to
types that are below each other (`leastCommonSupertypes_exact`).  Where every union has a member
subtyping is transitive, and then the types above some least common supertype are those above both
types.  The bound of a whole set keeps this property at every step (`Joins`), so it says which types
are above all of the set, in whatever order the set is gone through (`areSubtypes_eq_setBound`).
-/

namespace TypeHierarchy.Environment

open scoped Classical
open Relation

/-- The check finds both types below `t`. -/
def IsCommonSupertype (env : Environment) (a b t : Handle) : Prop :=
  env.Accepts a t ∧ env.Accepts b t

/-- A common supertype with no common supertype strictly below it. -/
def IsLeastSupertype (env : Environment) (a b t : Handle) : Prop :=
  env.IsCommonSupertype a b t ∧
    ∀ t', env.IsCommonSupertype a b t' → ¬ (env.Accepts t' t ∧ ¬ env.Accepts t t')

variable {env : Environment} {a b t : Handle} {candidate : Handle → Prop}
  {lefts rights order order' : List Handle} {bounds bounds' : HandleSet}

/-! ## Two types -/

theorem IsBound.best (is_bound : env.IsBound .least a b t) :
    env.Best .least (env.Candidate .least a b) t := by
  by_cases ab : env.Below a b
  · rw [isBound_of_below ab] at is_bound
    subst is_bound
    exact ⟨⟨ab, .refl _⟩, fun other common strict => strict.2 common.2⟩
  by_cases ba : env.Below b a
  · rw [isBound_of_above ab ba] at is_bound
    subst is_bound
    exact ⟨⟨.refl _, ba⟩, fun other common strict => strict.2 common.1⟩
  · rwa [isBound_of_unrelated ab ba] at is_bound

/-- A minimal common supertype is in the bound, or lies both above and below a type in it. -/
theorem Best.exists_isBound (best : env.Best .least (env.Candidate .least a b) t) :
    ∃ r, env.IsBound .least a b r ∧ env.Below t r ∧ env.Below r t := by
  have reaches {r : Handle} (candidate : env.Candidate .least a b r) (rt : env.Below r t) :
      env.Below t r := Decidable.not_not.mp fun tr => best.2 r candidate ⟨rt, tr⟩
  by_cases ab : env.Below a b
  · rw [isBound_of_below ab]
    exact ⟨b, rfl, reaches ⟨ab, .refl b⟩ best.1.2, best.1.2⟩
  by_cases ba : env.Below b a
  · rw [isBound_of_above ab ba]
    exact ⟨a, rfl, reaches ⟨.refl a, ba⟩ best.1.1, best.1.1⟩
  · rw [isBound_of_unrelated ab ba]
    exact ⟨t, best, .refl t, .refl t⟩

theorem exists_isBound (closed : env.Closed) (own : env.owns a = true)
    (candidate : env.Candidate .least a b t) : ∃ r, env.IsBound .least a b r := by
  obtain ⟨best, is_best, -⟩ : ∃ best, env.Best .least (env.Candidate .least a b) best ∧
      ReflTransGen (env.Outranks .least) best t :=
    exists_best (fun h candidate => candidate.owns closed own) candidate
  obtain ⟨r, is_bound, -⟩ := is_best.exists_isBound
  exact ⟨r, is_bound⟩

theorem isCommonSupertype_iff (closed : env.Closed) (own_a : env.owns a = true)
    (own_b : env.owns b = true) :
    env.IsCommonSupertype a b t ↔ env.Candidate .least a b t := by
  rw [IsCommonSupertype, accepts_iff closed, accepts_iff closed]
  constructor
  · exact fun ⟨⟨_, _, at'⟩, _, _, bt⟩ => ⟨at', bt⟩
  · intro common
    have own_t := common.owns closed own_a
    exact ⟨⟨own_a, own_t, common.1⟩, own_b, own_t, common.2⟩

theorem isLeastSupertype_iff (closed : env.Closed) (own_a : env.owns a = true)
    (own_b : env.owns b = true) :
    env.IsLeastSupertype a b t ↔ env.Best .least (env.Candidate .least a b) t := by
  simp only [IsLeastSupertype, isCommonSupertype_iff closed own_a own_b, Best, Outranks]
  refine and_congr_right fun common => forall₂_congr fun t' common' => not_congr ?_
  have own_t := common.owns closed own_a
  have own_t' := common'.owns closed own_a
  simp [StrictlyBelow, accepts_iff closed, own_t, own_t']

/-- The bound of two types consists of their least common supertypes, with every other one above and
below a type of the bound, and is empty only where there is no common supertype. -/
theorem leastCommonSupertypes_exact (reachable : env.Reachable) (own_a : env.owns a = true)
    (own_b : env.owns b = true) :
    ∃ bounds, (env.leastCommonSupertypes a b).outcome = .ok bounds ∧
      (∀ t ∈ bounds, env.IsLeastSupertype a b t) ∧
      (∀ t, env.IsLeastSupertype a b t →
        t ∈ bounds ∨ ∃ r ∈ bounds, env.Accepts t r ∧ env.Accepts r t) ∧
      (bounds = ∅ ↔ ¬ ∃ t, env.IsCommonSupertype a b t) := by
  have closed := reachable.closed
  obtain ⟨bounds, done, mem⟩ := leastCommonSupertypes_yields closed own_a own_b
  simp only [isLeastSupertype_iff closed own_a own_b, isCommonSupertype_iff closed own_a own_b]
  refine ⟨bounds, done, fun t ht => ((mem t).mp ht).best, fun t best => .inr ?_, ?_⟩
  · obtain ⟨r, is_bound, tr, rt⟩ := best.exists_isBound
    have own_t := best.1.owns closed own_a
    have own_r := is_bound.owns closed own_a own_b
    exact ⟨r, (mem r).mpr is_bound, tr.accepts closed own_t own_r, rt.accepts closed own_r own_t⟩
  · simp only [SortedSet.eq_empty_iff, mem, not_exists]
    constructor
    · intro none t common
      obtain ⟨r, is_bound⟩ := exists_isBound closed own_a common
      exact none r is_bound
    · exact fun none t is_bound => none t is_bound.best.1

/-- The empty union and the signed primitive have nothing above both of them but the union that
holds the primitive; the primitive's own constant is not above the empty union. -/
theorem leastCommonSupertypes_hollowChain :
    (hollowChain.leastCommonSupertypes ⟨⟨0⟩, 8⟩ ⟨⟨0⟩, 4⟩).outcome = .ok (.singleton ⟨⟨0⟩, 9⟩) ∧
    hollowChain.IsLeastSupertype ⟨⟨0⟩, 8⟩ ⟨⟨0⟩, 4⟩ ⟨⟨0⟩, 9⟩ := by
  have found : (hollowChain.leastCommonSupertypes ⟨⟨0⟩, 8⟩ ⟨⟨0⟩, 4⟩).outcome =
      .ok (.singleton ⟨⟨0⟩, 9⟩) :=
    eq_ok_of_toOption (by decide +kernel)
  obtain ⟨bounds, done, least, -⟩ :=
    leastCommonSupertypes_exact reachable_hollowChain (a := ⟨⟨0⟩, 8⟩) (b := ⟨⟨0⟩, 4⟩) (by decide)
      (by decide)
  cases found.symm.trans done
  exact ⟨found, least _ List.mem_cons_self⟩

/-! ## What lies above a bound -/

/-- The type is above one of those with the property. -/
def Covers (env : Environment) (p : Handle → Prop) (t : Handle) : Prop := ∃ r, p r ∧ env.Below r t

theorem exists_accepts_iff (closed : env.Closed) (own : ∀ r ∈ bounds, env.owns r = true)
    (own_t : env.owns t = true) : (∃ r ∈ bounds, env.Accepts r t) ↔ env.Covers (· ∈ bounds) t := by
  refine exists_congr fun r => and_congr_right fun hr => ?_
  exact accepts_iff_below closed (own r hr) own_t

theorem Full.below_of_chain (full : env.Full) (chain : ReflTransGen env.StrictlyBelow a b) :
    env.Below a b := by
  induction chain with
  | refl => exact .refl a
  | tail _ step ih => exact full.below_trans ih step.1

/-- Leaving out candidates that others outrank loses nothing that lies above. -/
theorem covers_best (full : env.Full) (own : ∀ h, candidate h → env.owns h = true) :
    env.Covers (env.Best .least candidate) t ↔ env.Covers candidate t := by
  constructor
  · exact fun ⟨r, best, rt⟩ => ⟨r, best.1, rt⟩
  · rintro ⟨r, mem, rt⟩
    obtain ⟨best, is_best, chain⟩ := exists_best own mem
    exact ⟨best, is_best, full.below_trans (full.below_of_chain chain) rt⟩

theorem covers_isBound (closed : env.Closed) (full : env.Full) (own : env.owns a = true) :
    env.Covers (env.IsBound .least a b) t ↔ env.Below a t ∧ env.Below b t := by
  constructor
  · rintro ⟨r, is_bound, rt⟩
    obtain ⟨⟨ar, br⟩, -⟩ := is_bound.best
    exact ⟨full.below_trans ar rt, full.below_trans br rt⟩
  · intro common
    have self : env.Covers (env.Candidate .least a b) t := ⟨t, common, .refl t⟩
    obtain ⟨m, best, mt⟩ :=
      (covers_best full fun h candidate => candidate.owns closed own).mpr self
    obtain ⟨r, is_bound, -, rm⟩ := best.exists_isBound
    exact ⟨r, is_bound, full.below_trans rm mt⟩

theorem covers_isCrossBound (closed : env.Closed) (full : env.Full)
    (own_lefts : ∀ h ∈ lefts, env.owns h = true) (own_rights : ∀ h ∈ rights, env.owns h = true) :
    env.Covers (env.IsCrossBound .least lefts rights) t ↔
      env.Covers (· ∈ lefts) t ∧ env.Covers (· ∈ rights) t := by
  rw [IsCrossBound, covers_best full]
  · constructor
    · rintro ⟨r, ⟨left, hl, right, hr, is_bound⟩, rt⟩
      have below := (covers_isBound closed full (own_lefts left hl)).mp ⟨r, is_bound, rt⟩
      exact ⟨⟨left, hl, below.1⟩, right, hr, below.2⟩
    · rintro ⟨⟨left, hl, below_l⟩, right, hr, below_r⟩
      obtain ⟨r, is_bound, rt⟩ :=
        (covers_isBound closed full (own_lefts left hl)).mpr ⟨below_l, below_r⟩
      exact ⟨r, ⟨left, hl, right, hr, is_bound⟩, rt⟩
  · rintro h ⟨left, hl, right, hr, is_bound⟩
    exact is_bound.owns closed (own_lefts left hl) (own_rights right hr)

/-! ## A whole set -/

/-- The types of `bounds` have exactly the common supertypes of `order` above them, and none is
strictly below another. -/
structure Joins (env : Environment) (order : List Handle) (bounds : HandleSet) : Prop where
  covers : ∀ t, env.Covers (· ∈ bounds) t ↔ ∀ s ∈ order, env.Below s t
  unranked : ∀ r ∈ bounds, ∀ r' ∈ bounds, ¬ env.StrictlyBelow r r'

theorem joins_singleton (env : Environment) (h : Handle) : env.Joins [h] (.singleton h) where
  covers t := by simp [Covers]
  unranked := by simp [StrictlyBelow]

theorem exists_joins (closed : env.Closed) (full : env.Full) {first : Handle} {rest : List Handle}
    (own : ∀ h ∈ first :: rest, env.owns h = true) :
    ∃ bounds, (env.extendBound .least (.singleton first) rest).outcome = .ok bounds ∧
      env.Joins (first :: rest) bounds := by
  have ⟨own_first, own_rest⟩ := List.forall_mem_cons.mp own
  refine extendBound_rule closed ?_ ?_ (env.joins_singleton first) ?_ own_rest
  · intro consumed running rest empty joins
    refine ⟨fun t => ?_, joins.unranked⟩
    have nothing : ¬ env.Covers (· ∈ running) t := by simp [Covers, SortedSet.mem_iff, empty]
    refine iff_of_false nothing fun above => nothing ((joins.covers t).mpr fun s hs => ?_)
    exact above s (List.mem_append_left rest hs)
  · intro consumed running next reduced own_running own_next joins mem
    have kept : (· ∈ reduced) = env.IsCrossBound .least running.toList [next] :=
      funext fun h => propext (mem h)
    refine ⟨fun t => ?_, fun r hr r' hr' => ?_⟩
    · have before : env.Covers (· ∈ running.toList) t ↔ ∀ s ∈ consumed, env.Below s t :=
        joins.covers t
      rw [kept, covers_isCrossBound closed full own_running (by simpa using own_next), before,
        List.forall_mem_append]
      simp [Covers]
    · exact ((mem r').mp hr').2 r ((mem r).mp hr).1
  · simpa using own_first

theorem Joins.owns (joins : env.Joins order bounds) (own : ∀ h ∈ order, env.owns h = true)
    (nonempty : order ≠ []) : ∀ r ∈ bounds, env.owns r = true := by
  intro r hr
  obtain ⟨s, hs⟩ := List.exists_mem_of_ne_nil order nonempty
  have below : env.Below s r := (joins.covers r).mp ⟨r, hr, .refl r⟩ s hs
  exact below.owns_upper (own s hs)

/-- Two bounds of the same types are the same up to types that are below each other. -/
theorem Joins.exists_mutual (closed : env.Closed) (full : env.Full)
    (joins : env.Joins order bounds) (joins' : env.Joins order' bounds')
    (own : ∀ r ∈ bounds, env.owns r = true) (own' : ∀ r ∈ bounds', env.owns r = true)
    (same : ∀ h, h ∈ order ↔ h ∈ order') :
    ∀ r ∈ bounds, ∃ r' ∈ bounds', env.Accepts r r' ∧ env.Accepts r' r := by
  intro r hr
  have uppers (t : Handle) : env.Covers (· ∈ bounds) t ↔ env.Covers (· ∈ bounds') t := by
    rw [joins.covers, joins'.covers]
    simp only [same]
  obtain ⟨r', hr', down⟩ := (uppers r).mp ⟨r, hr, .refl r⟩
  obtain ⟨r'', hr'', down'⟩ := (uppers r').mpr ⟨r', hr', .refl r'⟩
  -- Both `r''` and `r` are in one bound, where nothing is strictly below `r`.
  have back : env.Below r r'' := Decidable.not_not.mp fun up =>
    joins.unranked r'' hr'' r hr ⟨full.below_trans down' down, up⟩
  have up : env.Below r r' := full.below_trans back down'
  exact ⟨r', hr', up.accepts closed (own r hr) (own' r' hr'),
    down.accepts closed (own' r' hr') (own r hr)⟩

theorem exists_setBound_joins (closed : env.Closed) (full : env.Full) {types : HandleSet}
    (own : ∀ s ∈ types, env.owns s = true) (listed : types.toList ≠ []) :
    ∃ bounds, (env.setBound .least (.finite types)).outcome = .ok bounds ∧
      env.Joins types.toList bounds := by
  obtain ⟨first, rest, order⟩ := List.exists_cons_of_ne_nil listed
  rw [setBound, order]
  exact exists_joins closed full (order ▸ own)

theorem Joins.areSubtypes_eq (closed : env.Closed) {types : HandleSet}
    (joins : env.Joins types.toList bounds) (own : ∀ s ∈ types, env.owns s = true)
    (own_bounds : ∀ r ∈ bounds, env.owns r = true) (own_t : env.owns t = true) :
    (env.areSubtypes (.finite types) t).outcome =
      .ok (decide (∃ r ∈ bounds, env.Accepts r t)) := by
  have each := Traced.outcome_allM fun s (hs : s ∈ types.toList) =>
    isSubtype_eq closed (own s hs) own_t
  refine each.trans ?_
  rw [Except.ok.injEq, Bool.eq_iff_iff, decide_eq_true_iff,
    exists_accepts_iff closed own_bounds own_t, joins.covers]
  simp

/-- Where every union has a member, a type is above all of a set just when it is above some type of
the set's bound.  So the bound is empty when the set has no common supertype, and going through the
set in another order gives the same bound up to types that are below each other. -/
theorem areSubtypes_eq_setBound (reachable : env.Reachable) (full : env.Full) {types : HandleSet}
    (own : ∀ s ∈ types, env.owns s = true) (nonempty : types ≠ ∅) :
    ∃ bounds, (env.setBound .least (.finite types)).outcome = .ok bounds ∧
      (∀ t, env.owns t = true → (env.areSubtypes (.finite types) t).outcome =
        .ok (decide (∃ r ∈ bounds, env.Accepts r t))) ∧
      (bounds = ∅ ↔
        ¬ ∃ t, env.owns t = true ∧ (env.areSubtypes (.finite types) t).outcome = .ok true) ∧
      ∀ first rest, (first :: rest).Perm types.toList →
        ∃ other, (env.extendBound .least (.singleton first) rest).outcome = .ok other ∧
          (∀ r ∈ bounds, ∃ r' ∈ other, env.Accepts r r' ∧ env.Accepts r' r) ∧
          ∀ r' ∈ other, ∃ r ∈ bounds, env.Accepts r r' ∧ env.Accepts r' r := by
  have closed := reachable.closed
  have listed : types.toList ≠ [] := fun empty => nonempty (SortedSet.toList_inj.mp empty)
  obtain ⟨bounds, done, joins⟩ := exists_setBound_joins closed full own listed
  have own_bounds := joins.owns own listed
  have above (t : Handle) (own_t : env.owns t = true) :=
    joins.areSubtypes_eq closed own own_bounds own_t
  refine ⟨bounds, done, above, ?_, fun first rest perm => ?_⟩
  · rw [SortedSet.eq_empty_iff]
    constructor
    · rintro none ⟨t, own_t, yes⟩
      rw [above t own_t, Except.ok.injEq, decide_eq_true_iff] at yes
      obtain ⟨r, hr, -⟩ := yes
      exact none r hr
    · intro none r hr
      have own_r := own_bounds r hr
      refine none ⟨r, own_r, ?_⟩
      rw [above r own_r, Except.ok.injEq, decide_eq_true_iff]
      exact ⟨r, hr, (Below.refl r).accepts closed own_r own_r⟩
  · have same (h : Handle) : h ∈ types.toList ↔ h ∈ first :: rest := perm.mem_iff.symm
    have own' (h : Handle) (hh : h ∈ first :: rest) : env.owns h = true := own h ((same h).mpr hh)
    obtain ⟨other, done', joins'⟩ := exists_joins closed full own'
    have own_other := joins'.owns own' (List.cons_ne_nil first rest)
    refine ⟨other, done', joins.exists_mutual closed full joins' own_bounds own_other same, ?_⟩
    intro r' hr'
    obtain ⟨r, hr, down, up⟩ := joins'.exists_mutual closed full joins own_other own_bounds
      (fun h => (same h).symm) r' hr'
    exact ⟨r, hr, up, down⟩

/-- A union of two primitives, and a union of it and a third. -/
def nestedUnions : Environment :=
  { initial ⟨0⟩ with entries := (initial ⟨0⟩).entries ++
      #[⟨"Pair", .union [⟨⟨0⟩, 4⟩, ⟨⟨0⟩, 5⟩]⟩, ⟨"Triple", .union [⟨⟨0⟩, 8⟩, ⟨⟨0⟩, 6⟩]⟩] }

theorem reachable_nestedUnions : nestedUnions.Reachable := by
  have made : Environment.after [.declare 0 "Pair" .union, .declare 0 "Triple" .union,
      .addMember 0 ⟨⟨0⟩, 8⟩ ⟨⟨0⟩, 4⟩, .addMember 0 ⟨⟨0⟩, 8⟩ ⟨⟨0⟩, 5⟩,
      .addMember 0 ⟨⟨0⟩, 9⟩ ⟨⟨0⟩, 8⟩, .addMember 0 ⟨⟨0⟩, 9⟩ ⟨⟨0⟩, 6⟩] = nestedUnions := by
    decide +kernel
  exact made ▸ reachable_after _

/-- The larger union is above the two primitives, and also above the union in their bound. -/
theorem areSubtypes_nestedUnions :
    (nestedUnions.setBound .least (.ofList [⟨⟨0⟩, 4⟩, ⟨⟨0⟩, 5⟩])).outcome =
      .ok (.singleton ⟨⟨0⟩, 8⟩) ∧
    (nestedUnions.areSubtypes (.ofList [⟨⟨0⟩, 4⟩, ⟨⟨0⟩, 5⟩]) ⟨⟨0⟩, 9⟩).outcome = .ok true := by
  have inner : (nestedUnions.isSubtype ⟨⟨0⟩, 8⟩ ⟨⟨0⟩, 9⟩).outcome = .ok true :=
    eq_ok_of_toOption (by decide +kernel)
  have found : (nestedUnions.setBound .least (.ofList [⟨⟨0⟩, 4⟩, ⟨⟨0⟩, 5⟩])).outcome =
      .ok (.singleton ⟨⟨0⟩, 8⟩) :=
    eq_ok_of_toOption (by decide +kernel)
  have full : nestedUnions.Full := by decide +kernel
  have own : ∀ s ∈ (.ofList [⟨⟨0⟩, 4⟩, ⟨⟨0⟩, 5⟩] : HandleSet), nestedUnions.owns s = true := by
    decide
  obtain ⟨bounds, done, above, -⟩ :=
    areSubtypes_eq_setBound reachable_nestedUnions full own (by decide)
  cases found.symm.trans done
  refine ⟨found, (above ⟨⟨0⟩, 9⟩ (by decide)).trans ?_⟩
  rw [decide_eq_true ⟨⟨⟨0⟩, 8⟩, List.mem_cons_self, inner⟩]

end TypeHierarchy.Environment
