import TypeHierarchy.Proofs.Subtyping

/-!
# Chains of subtypes

Subtyping is transitive but for one exception.  An empty union is below every union, and a union all
of whose members reduce to a type that is no union is below that type, but the empty union itself
reduces to nothing.  So a chain breaks exactly when it starts at a union from which an empty one can
be reached and ends at a type that is no union (`below_trans`, `not_below_of_hollow`).
-/

namespace TypeHierarchy.Environment

open scoped Classical
open Relation

/-- The handle stands for a union, with members or without. -/
def IsUnion (env : Environment) (h : Handle) : Prop := ∃ members, env.shape h = .ok (.union members)

/-- Members lead from the type, in zero or more steps, to an empty union. -/
def Hollow (env : Environment) (h : Handle) : Prop :=
  ∃ e, ReflTransGen (env.Leads false) h e ∧ env.shape e = .ok (.union [])

/-- Every union has a member. -/
def Full (env : Environment) : Prop := ∀ h, env.shape h ≠ .ok (.union [])

variable {env : Environment} {a b c h next : Handle} {s : Shape} {members : List Handle}

/-! ## Hollow types -/

theorem isUnion_of_leads (step : env.Leads false h next) : env.IsUnion h := by
  obtain ⟨s, hs, mem⟩ := step
  rw [s.successors_false] at mem
  exact ⟨s.members, Shape.eq_union_of_mem_members mem ▸ hs⟩

theorem Hollow.isUnion (hollow : env.Hollow h) : env.IsUnion h := by
  obtain ⟨e, path, he⟩ := hollow
  rcases ReflTransGen.cases_head path with rfl | ⟨next, step, -⟩
  · exact ⟨[], he⟩
  · exact isUnion_of_leads step

theorem Hollow.of_member (hs : env.shape h = .ok (.union members)) (mem : next ∈ members)
    (hollow : env.Hollow next) : env.Hollow h := by
  obtain ⟨e, path, he⟩ := hollow
  exact ⟨e, .head ((leads_iff hs).mpr mem) path, he⟩

theorem full_iff : env.Full ↔ ∀ entry ∈ env.entries.toList, entry.shape ≠ .union [] := by
  constructor
  · intro full entry mem empty
    obtain ⟨i, found⟩ := List.getElem?_of_mem mem
    rw [Array.getElem?_toList] at found
    refine full (env.handle i) (shape_eq_ok_iff.mpr ⟨rfl, entry.name, found.trans ?_⟩)
    rw [← empty]
  · intro full h hs
    obtain ⟨-, name, found⟩ := shape_eq_ok_iff.mp hs
    rw [← Array.getElem?_toList] at found
    exact full _ (List.mem_of_getElem? found) rfl

instance (env : Environment) : Decidable env.Full := decidable_of_iff _ full_iff.symm

theorem Full.not_hollow (full : env.Full) : ¬ env.Hollow h := by
  rintro ⟨e, -, he⟩
  exact full e he

theorem not_isUnion_of_shape (hs : env.shape h = .ok s) (plain : s.isUnion = false) :
    ¬ env.IsUnion h := by
  rintro ⟨members, hs'⟩
  cases hs.symm.trans hs'
  cases plain

/-! ## Types that reduce -/

theorem Reduces.root_not_isUnion (reduces : env.Reduces a b) : ¬ env.IsUnion b := by
  rcases reduces.root_shape with ⟨kind, shape⟩ | ⟨base, primitive, shape⟩
  · exact not_isUnion_of_shape shape rfl
  · exact not_isUnion_of_shape shape rfl

theorem Reduces.root_self (reduces : env.Reduces a b) : env.Reduces b b := by
  rcases reduces.root_shape with ⟨kind, shape⟩ | ⟨base, primitive, shape⟩
  · exact .constant shape
  · exact .itself shape

theorem Reduces.trans (ab : env.Reduces a b) (bc : env.Reduces b c) : env.Reduces a c := by
  induction ab with
  | constant | itself => exact bc
  | subset shape _ ih => exact .subset shape (ih bc)
  | union shape nonempty _ ih => exact .union shape nonempty fun member mem => ih member mem bc

theorem Reduces.not_hollow (reduces : env.Reduces a b) : ¬ env.Hollow a := by
  induction reduces with
  | constant shape => exact fun hollow => not_isUnion_of_shape shape rfl hollow.isUnion
  | itself shape => exact fun hollow => not_isUnion_of_shape shape rfl hollow.isUnion
  | subset shape => exact fun hollow => not_isUnion_of_shape shape rfl hollow.isUnion
  | union shape nonempty _ ih =>
    rintro ⟨e, path, he⟩
    rcases ReflTransGen.cases_head path with rfl | ⟨next, step, path⟩
    · cases shape.symm.trans he
      exact nonempty rfl
    · exact ih next ((leads_iff shape).mp step) ⟨e, path, he⟩

theorem Leads.awaits (step : env.Leads false h next) (root : Handle) : env.Awaits root h next := by
  obtain ⟨members, hs⟩ := isUnion_of_leads step
  exact (awaits_iff hs).mpr ((leads_iff hs).mp step)

theorem Reduces.not_recursive (reduces : env.Reduces a b) : ¬ env.Recursive a := by
  rintro ⟨s, hs, cycle⟩
  cases s with
  | record fields => exact (reduces_iff hs).mp reduces
  | constant | subset | union =>
    have awaits : env.Leads false ≤ env.Awaits b := fun _ _ step => Leads.awaits step b
    exact reduces.not_cyclic (TransGen.mono awaits a a cycle)

/-! ## Transitivity -/

theorem below_iff_of_not_isUnion (plain : ¬ env.IsUnion b) :
    env.Below a b ↔ a = b ∨ env.Reduces a b := by
  constructor
  · intro below
    cases below with
    | refl => exact .inl rfl
    | root reduces => exact .inr reduces
    | left _ hb => exact absurd ⟨_, hb⟩ plain
    | right _ _ hb => exact absurd ⟨_, hb⟩ plain
  · rintro (rfl | reduces)
    · exact .refl a
    · exact .root reduces

theorem not_below_of_hollow (hollow : env.Hollow a) (plain : ¬ env.IsUnion c) :
    ¬ env.Below a c := by
  rw [below_iff_of_not_isUnion plain]
  rintro (rfl | reduces)
  · exact plain hollow.isUnion
  · exact reduces.not_hollow hollow

theorem Reduces.below_of_below (ab : env.Reduces a b) (bc : env.Below b c) : env.Below a c := by
  induction bc generalizing a with
  | refl => exact .root ab
  | root bc => exact .root (ab.trans bc)
  | left hb => exact absurd ⟨_, hb⟩ ab.root_not_isUnion
  | @right b c other t others hb plain hc nb nc mem below ih =>
    -- Either `a` is a union and its members are below `c`, or `a` itself is below `other`.
    induction ab with
    | constant | itself => exact .right hb plain hc nb nc mem below
    | subset shape ab =>
      have reduces := Reduces.subset shape ab
      exact .right shape rfl hc reduces.not_recursive nc mem (ih reduces)
    | union shape nonempty reduce ih' =>
      refine .left shape hc (Reduces.union shape nonempty reduce).not_recursive nc fun m hm => ?_
      exact ih' m hm hb nb below ih

theorem below_trans (ab : env.Below a b) (bc : env.Below b c)
    (unbroken : env.IsUnion c ∨ ¬ env.Hollow a) : env.Below a c := by
  induction ab generalizing c with
  | refl => exact bc
  | root ab => exact ab.below_of_below bc
  | @left a b members others ha hb na nb each ih =>
    have full (member : Handle) (mem : member ∈ members) :
        env.IsUnion c ∨ ¬ env.Hollow member :=
      unbroken.imp_right fun solid hollow => solid (hollow.of_member ha mem)
    have below_c (member : Handle) (mem : member ∈ members) : env.Below member c :=
      ih member mem bc (full member mem)
    cases bc with
    | refl => exact .left ha hb na nb each
    | root bc =>
      -- Here `c` is no union, so `a` has members and each of them reduces to `c`.
      have plain := bc.root_not_isUnion
      have solid : ¬ env.Hollow a := unbroken.resolve_left plain
      refine .root (.union ha (fun empty => solid ⟨a, .refl, empty ▸ ha⟩) fun member mem => ?_)
      rcases (below_iff_of_not_isUnion plain).mp (below_c member mem) with rfl | reduces
      · exact bc.root_self
      · exact reduces
    | left _ hc _ nc _ => exact .left ha hc na nc below_c
    | right hb' plain => exact absurd ⟨_, hb⟩ (not_isUnion_of_shape hb' plain)
  | @right a b other s others ha plain hb na nb mem below ih =>
    have solid : ¬ env.Hollow a := fun hollow => not_isUnion_of_shape ha plain hollow.isUnion
    cases bc with
    | refl => exact .right ha plain hb na nb mem below
    | root bc => exact ih (.root (((reduces_iff hb).mp bc).2 other mem)) (.inr solid)
    | left hb' _ _ _ each =>
      cases hb.symm.trans hb'
      exact ih (each other mem) (.inr solid)
    | right hb' plain' => exact absurd ⟨_, hb⟩ (not_isUnion_of_shape hb' plain')

theorem Full.below_trans (full : env.Full) (ab : env.Below a b) (bc : env.Below b c) :
    env.Below a c := Environment.below_trans ab bc (.inr full.not_hollow)

/-! ## Chains of answers -/

/-- A chain of two subtypes gives a third, unless it leads from a union with an empty one inside to a
type that is no union; then it does not. -/
theorem isSubtype_trans (reachable : env.Reachable)
    (ab : (env.isSubtype a b).outcome = .ok true) (bc : (env.isSubtype b c).outcome = .ok true) :
    (¬ (¬ env.IsUnion c ∧ env.IsUnion a ∧ env.Hollow a) →
      (env.isSubtype a c).outcome = .ok true) ∧
    (¬ env.IsUnion c ∧ env.IsUnion a ∧ env.Hollow a → (env.isSubtype a c).outcome = .ok false) ∧
    (env.Full → (env.isSubtype a c).outcome = .ok true) := by
  have closed := reachable.closed
  obtain ⟨own_a, -, below_ab⟩ := (accepts_iff closed).mp ab
  obtain ⟨-, own_c, below_bc⟩ := (accepts_iff closed).mp bc
  have holds (unbroken : env.IsUnion c ∨ ¬ env.Hollow a) :
      (env.isSubtype a c).outcome = .ok true :=
    (below_trans below_ab below_bc unbroken).accepts closed own_a own_c
  refine ⟨fun usual => holds ?_, fun ⟨plain, _, hollow⟩ => ?_, fun full => holds ?_⟩
  · by_cases union : env.IsUnion c
    · exact .inl union
    · exact .inr fun hollow => usual ⟨union, hollow.isUnion, hollow⟩
  · rw [isSubtype_eq closed own_a own_c, decide_eq_false (not_below_of_hollow hollow plain)]
  · exact .inr full.not_hollow

/-- An empty union, and a union of the signed primitive alone. -/
def hollowChain : Environment :=
  { initial ⟨0⟩ with entries := (initial ⟨0⟩).entries ++
      #[⟨"Nothing", .union []⟩, ⟨"Numbers", .union [⟨⟨0⟩, 4⟩]⟩] }

theorem reachable_hollowChain : hollowChain.Reachable := by
  have made : Environment.after [.declare 0 "Nothing" .union, .declare 0 "Numbers" .union,
      .addMember 0 ⟨⟨0⟩, 9⟩ ⟨⟨0⟩, 4⟩] = hollowChain := by decide +kernel
  exact made ▸ reachable_after _

/-- The empty union is below the other one, that one below its only member, and yet the first is not
below the last. -/
theorem isSubtype_hollowChain :
    (hollowChain.isSubtype ⟨⟨0⟩, 8⟩ ⟨⟨0⟩, 9⟩).outcome = .ok true ∧
    (hollowChain.isSubtype ⟨⟨0⟩, 9⟩ ⟨⟨0⟩, 4⟩).outcome = .ok true ∧
    (hollowChain.isSubtype ⟨⟨0⟩, 8⟩ ⟨⟨0⟩, 4⟩).outcome = .ok false := by
  have first : (hollowChain.isSubtype ⟨⟨0⟩, 8⟩ ⟨⟨0⟩, 9⟩).outcome = .ok true :=
    eq_ok_of_toOption (by decide +kernel)
  have second : (hollowChain.isSubtype ⟨⟨0⟩, 9⟩ ⟨⟨0⟩, 4⟩).outcome = .ok true :=
    eq_ok_of_toOption (by decide +kernel)
  have empty : hollowChain.shape ⟨⟨0⟩, 8⟩ = .ok (.union []) := rfl
  have plain : hollowChain.shape ⟨⟨0⟩, 4⟩ = .ok (.subset ⟨⟨0⟩, 0⟩ true) := rfl
  have third := (isSubtype_trans reachable_hollowChain first second).2.1
  exact ⟨first, second, third ⟨not_isUnion_of_shape plain rfl, ⟨[], empty⟩, _, .refl, empty⟩⟩

end TypeHierarchy.Environment
