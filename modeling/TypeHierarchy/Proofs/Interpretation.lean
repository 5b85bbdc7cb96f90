import Mathlib.Data.Set.Lattice
import TypeHierarchy.Proofs.Bounds

/-!
# Types as sets of values

An interpretation gives every type a set of values.  A subset's values are among those of its base,
a union has the values of its members and no others, and nothing is asked of constants and records.
Whatever the interpretation, a subtype's values are among those of its supertype, and the values of
a bound contain, or are among, those of the types it bounds (`subtyping_and_bounds_sound`).
-/

namespace TypeHierarchy.Environment

open Relation

universe u

/-- Values for the types, such that a subset has only values of its base and a union exactly those of
its members. -/
structure Interpretation (env : Environment) (V : Type u) where
  values : Handle → Set V
  subset : ∀ {h base : Handle} {primitive : Bool},
    env.shape h = .ok (.subset base primitive) → values h ⊆ values base
  union : ∀ {h : Handle} {members : List Handle},
    env.shape h = .ok (.union members) → values h = ⋃ m ∈ members, values m

variable {V : Type u} {env : Environment} {a b h t : Handle} {bound : Bound}
  {lefts rights : List Handle} (I : env.Interpretation V)

/-! ## Subtypes -/

theorem Reduces.values_subset (reduces : env.Reduces a b) : I.values a ⊆ I.values b := by
  induction reduces with
  | constant | itself => exact subset_rfl
  | subset shape _ ih => exact (I.subset shape).trans ih
  | union shape _ _ ih =>
    rw [I.union shape]
    exact Set.iUnion₂_subset ih

theorem Leads.values_subset (step : env.Leads false a b) : I.values b ⊆ I.values a := by
  obtain ⟨members, union⟩ := isUnion_of_leads step
  have mem : b ∈ members := (leads_iff_mem_members union).mp step
  rw [I.union union]
  exact Set.subset_biUnion_of_mem mem

theorem Below.values_subset (below : env.Below a b) : I.values a ⊆ I.values b := by
  induction below with
  | refl => exact subset_rfl
  | root reduces => exact reduces.values_subset I
  | left ha _ _ _ _ ih =>
    rw [I.union ha]
    exact Set.iUnion₂_subset ih
  | right _ _ hb _ _ mem _ ih =>
    have step : env.Leads false _ _ := (leads_iff_mem_members hb).mpr mem
    exact ih.trans (step.values_subset I)

theorem values_subset_of_path (path : TransGen (env.Leads false) a b) :
    I.values b ⊆ I.values a := by
  induction path with
  | single step => exact step.values_subset I
  | tail _ step ih => exact (step.values_subset I).trans ih

/-! ## Bounds -/

/-- The values of `t` contain those of `s`, or are among them, as the bound asks. -/
def Interpretation.Bounds : Bound → Handle → Handle → Prop
  | .least, t, s => I.values s ⊆ I.values t
  | .greatest, t, s => I.values t ⊆ I.values s

theorem Interpretation.bounds_refl (bound : Bound) (h : Handle) : I.Bounds bound h h := by
  cases bound <;> exact subset_rfl

theorem Interpretation.Bounds.trans {I : env.Interpretation V} {r s : Handle}
    (tr : I.Bounds bound t r) (rs : I.Bounds bound r s) : I.Bounds bound t s := by
  cases bound with
  | least => exact Set.Subset.trans rs tr
  | greatest => exact Set.Subset.trans tr rs

theorem bounds_pick (ab : env.Below a b) :
    I.Bounds bound (bound.pick a b) a ∧ I.Bounds bound (bound.pick a b) b := by
  have values := ab.values_subset I
  cases bound with
  | least => exact ⟨values, subset_rfl⟩
  | greatest => exact ⟨subset_rfl, values⟩

theorem Candidate.bounds (candidate : env.Candidate bound a b t) :
    I.Bounds bound t a ∧ I.Bounds bound t b := by
  cases bound with
  | least => exact ⟨candidate.1.values_subset I, candidate.2.values_subset I⟩
  | greatest =>
    -- Only `b` is asked about in the search; `a` contains all that it comes across.
    obtain ⟨-, offered, below⟩ := candidate
    exact ⟨values_subset_of_path I offered.path, below.values_subset I⟩

theorem IsBound.bounds (is_bound : env.IsBound bound a b t) :
    I.Bounds bound t a ∧ I.Bounds bound t b := by
  by_cases ab : env.Below a b
  · rw [isBound_of_below ab] at is_bound
    exact is_bound ▸ bounds_pick I ab
  by_cases ba : env.Below b a
  · rw [isBound_of_above ab ba] at is_bound
    exact is_bound ▸ (bounds_pick I ba).symm
  · rw [isBound_of_unrelated ab ba] at is_bound
    exact is_bound.1.bounds I

theorem IsCrossBound.bounds (is_bound : env.IsCrossBound bound lefts rights t) :
    ∃ left ∈ lefts, ∃ right ∈ rights, I.Bounds bound t left ∧ I.Bounds bound t right := by
  obtain ⟨⟨left, hl, right, hr, is_bound⟩, -⟩ := is_bound
  exact ⟨left, hl, right, hr, is_bound.bounds I⟩

/-- Each of `bounds` bounds each of `types`. -/
def Interpretation.Encloses (bound : Bound) (types : List Handle) (bounds : HandleSet) : Prop :=
  ∀ t ∈ bounds, ∀ s ∈ types, I.Bounds bound t s

theorem setBound_sound (bound : Bound) (closed : env.Closed) {types : HandleSet}
    (own : ∀ s ∈ types, env.owns s = true) :
    ∃ bounds, (env.setBound bound (.finite types)).outcome = .ok bounds ∧
      I.Encloses bound types.toList bounds :=
  exists_setBound_related closed (I.bounds_refl bound) (fun tr rs => tr.trans rs)
    (fun is_bound => is_bound.bounds I) own

theorem pairwiseBound_sound (bound : Bound) (closed : env.Closed) {lefts rights : HandleSet}
    (own_lefts : ∀ h ∈ lefts, env.owns h = true) (own_rights : ∀ h ∈ rights, env.owns h = true) :
    ∃ bounds, (env.pairwiseBound bound (.finite lefts) (.finite rights)).outcome =
        .ok (.finite bounds) ∧
      ∀ t ∈ bounds, ∃ left ∈ lefts, ∃ right ∈ rights,
        I.Bounds bound t left ∧ I.Bounds bound t right := by
  obtain ⟨bounds, done, mem⟩ := exists_pairwiseBound closed own_lefts own_rights
  exact ⟨bounds, done, fun t ht => ((mem t).mp ht).bounds I⟩

/-- Subtyping and every form of a bound are true of the values, whatever the interpretation. -/
theorem subtyping_and_bounds_sound (reachable : env.Reachable) :
    (∀ a b, (env.isSubtype a b).outcome = .ok true → I.values a ⊆ I.values b) ∧
    (∀ types : HandleSet, (∀ s ∈ types, env.owns s = true) →
      ∃ uppers lowers, (env.setBound .least (.finite types)).outcome = .ok uppers ∧
        (env.setBound .greatest (.finite types)).outcome = .ok lowers ∧
        (∀ t ∈ uppers, ∀ s ∈ types, I.values s ⊆ I.values t) ∧
        ∀ t ∈ lowers, ∀ s ∈ types, I.values t ⊆ I.values s) ∧
    (∀ lefts rights : HandleSet, (∀ h ∈ lefts, env.owns h = true) →
      (∀ h ∈ rights, env.owns h = true) →
      ∃ uppers lowers,
        (env.pairwiseBound .least (.finite lefts) (.finite rights)).outcome =
          .ok (.finite uppers) ∧
        (env.pairwiseBound .greatest (.finite lefts) (.finite rights)).outcome =
          .ok (.finite lowers) ∧
        (∀ t ∈ uppers, ∃ l ∈ lefts, ∃ r ∈ rights,
          I.values l ⊆ I.values t ∧ I.values r ⊆ I.values t) ∧
        ∀ t ∈ lowers, ∃ l ∈ lefts, ∃ r ∈ rights,
          I.values t ⊆ I.values l ∧ I.values t ⊆ I.values r) := by
  have closed := reachable.closed
  refine ⟨fun a b yes => ?_, fun types own => ?_, fun lefts rights own_lefts own_rights => ?_⟩
  · obtain ⟨-, -, below⟩ := (accepts_iff closed).mp yes
    exact below.values_subset I
  · obtain ⟨uppers, done, above⟩ := setBound_sound I .least closed own
    obtain ⟨lowers, done', beneath⟩ := setBound_sound I .greatest closed own
    exact ⟨uppers, lowers, done, done', above, beneath⟩
  · obtain ⟨uppers, done, above⟩ := pairwiseBound_sound I .least closed own_lefts own_rights
    obtain ⟨lowers, done', beneath⟩ := pairwiseBound_sound I .greatest closed own_lefts own_rights
    exact ⟨uppers, lowers, done, done', above, beneath⟩

/-- No value for the empty union, the numbers below ten for the signed primitive and for the union
of it alone, and all numbers for the other types. -/
def smallNumbers : hollowChain.Interpretation Nat where
  values h :=
    match h.index with
    | 4 | 9 => {n | n < 10}
    | 8 => ∅
    | _ => Set.univ
  subset {h base primitive} hs := by
    obtain ⟨-, name, found⟩ := shape_eq_ok_iff.mp hs
    obtain ⟨e, i⟩ := h
    match i, found with
    | 4, found | 5, found | 6, found | 7, found =>
      cases found
      exact Set.subset_univ _
    | 8, found | 9, found | i + 10, found => cases found
  union {h members} hs := by
    obtain ⟨-, name, found⟩ := shape_eq_ok_iff.mp hs
    obtain ⟨e, i⟩ := h
    match i, found with
    | 8, found | 9, found =>
      cases found
      simp

/-- The union of the primitive alone is the bound of the primitive and the empty union, and has the
values of the primitive. -/
theorem subtyping_and_bounds_smallNumbers :
    (hollowChain.setBound .least (.ofList [⟨⟨0⟩, 4⟩, ⟨⟨0⟩, 8⟩])).outcome =
      .ok (.singleton ⟨⟨0⟩, 9⟩) ∧
    smallNumbers.values ⟨⟨0⟩, 4⟩ ⊆ smallNumbers.values ⟨⟨0⟩, 9⟩ ∧
    smallNumbers.values ⟨⟨0⟩, 9⟩ ⊆ smallNumbers.values ⟨⟨0⟩, 4⟩ := by
  have back : (hollowChain.isSubtype ⟨⟨0⟩, 9⟩ ⟨⟨0⟩, 4⟩).outcome = .ok true :=
    eq_ok_of_toOption (by decide +kernel)
  have found : (hollowChain.setBound .least (.ofList [⟨⟨0⟩, 4⟩, ⟨⟨0⟩, 8⟩])).outcome =
      .ok (.singleton ⟨⟨0⟩, 9⟩) :=
    eq_ok_of_toOption (by decide +kernel)
  have own : ∀ s ∈ (.ofList [⟨⟨0⟩, 4⟩, ⟨⟨0⟩, 8⟩] : HandleSet), hollowChain.owns s = true := by
    decide
  obtain ⟨subtypes, sets, -⟩ := subtyping_and_bounds_sound smallNumbers reachable_hollowChain
  obtain ⟨uppers, lowers, done, -, above, -⟩ := sets _ own
  cases found.symm.trans done
  exact ⟨found, above _ List.mem_cons_self _ List.mem_cons_self, subtypes _ _ back⟩

end TypeHierarchy.Environment
