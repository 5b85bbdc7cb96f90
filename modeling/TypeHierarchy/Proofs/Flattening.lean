import TypeHierarchy.Proofs.Transitivity

/-!
# Unions, flattened

Whether a type is below a union depends only on what the two are made of.  The lower type is taken
apart into its members, and so are they, until a type is met that is not taken apart any further
(`Ends`).  The union is taken apart down to the types that are no unions (`Leaf`); neither way goes
through a recursive union.  The type is below the union when everything it is taken apart into fits
(`Fits`): it is the union itself, or equals or reduces to one of the union's leaves
(`below_iff_fits`).  So a type that members lead to is below the union they start from, as long as
nothing on the way is recursive (`below_of_path`).
-/

namespace TypeHierarchy.Environment

open scoped Classical
open Relation

/-- The first type is a union that is not recursive, and the second is a member of it. -/
def Unfolds (env : Environment) (h next : Handle) : Prop :=
  env.isRecursive h = .ok false ∧ env.HasMember h next

/-- A step from a type other than `b` to one of its members. -/
def Descends (env : Environment) (b h next : Handle) : Prop := h ≠ b ∧ env.Unfolds h next

/-- The type is not taken apart any further. -/
def Final (env : Environment) (b x : Handle) : Prop :=
  x = b ∨ ¬ env.IsUnion x ∨ env.isRecursive x = .ok true

/-- Taking `a` apart ends at `x`, the first type on some way down that is final. -/
def Ends (env : Environment) (a b x : Handle) : Prop :=
  ReflTransGen (env.Descends b) a x ∧ env.Final b x

/-- A type other than a union, as a member of `b` or of unions inside it. -/
def Leaf (env : Environment) (b y : Handle) : Prop := TransGen env.Unfolds b y ∧ ¬ env.IsUnion y

/-- The type is `b`, or it is neither a union nor recursive and is a leaf of `b` or reduces to one. -/
def Fits (env : Environment) (b x : Handle) : Prop :=
  x = b ∨ (¬ env.IsUnion x ∧ env.isRecursive x = .ok false) ∧
    ∃ y, env.Leaf b y ∧ (x = y ∨ env.reducesTo x y = .ok true)

variable {env : Environment} {a b h m next x y : Handle} {members : List Handle}

/-! ## Steps down -/

theorem HasMember.isUnion (step : env.HasMember h next) : env.IsUnion h := by
  obtain ⟨members, hs, -⟩ := step
  exact ⟨members, hs⟩

theorem HasMember.owns (closed : env.Closed) (step : env.HasMember h next) :
    env.owns next = true := by
  rw [← leads_false] at step
  exact step.owns closed

theorem IsUnion.owns (union : env.IsUnion h) : env.owns h = true := by
  obtain ⟨members, hs⟩ := union
  exact owns_of_shape hs

theorem unfolds_iff (closed : env.Closed) (hs : env.shape h = .ok (.union members)) :
    env.Unfolds h next ↔ ¬ env.Recursive h ∧ next ∈ members := by
  rw [Unfolds, not_isRecursive_iff closed (owns_of_shape hs), ← leads_false, leads_iff hs]
  rfl

theorem owns_of_memberPath (closed : env.Closed) (own : env.owns h = true)
    (path : ReflTransGen env.HasMember h x) : env.owns x = true := by
  induction path with
  | refl => exact own
  | tail _ step _ => exact step.owns closed

theorem memberPath_of_descent (path : ReflTransGen (env.Descends b) h x) :
    ReflTransGen env.HasMember h x := by
  have members : env.Descends b ≤ env.HasMember := fun _ _ step => step.2.2
  exact ReflTransGen.mono members h x path

theorem owns_of_descent (closed : env.Closed) (own : env.owns h = true)
    (path : ReflTransGen (env.Descends b) h x) : env.owns x = true :=
  owns_of_memberPath closed own (memberPath_of_descent path)

/-! ## Leaves of the upper union -/

/-- A type that is below a union and no union itself is a leaf of the union or reduces to one. -/
theorem Below.exists_leaf (below : env.Below x b) (closed : env.Closed) (plain : ¬ env.IsUnion x)
    (union : env.IsUnion b) : ∃ y, env.Leaf b y ∧ (x = y ∨ env.Reduces x y) := by
  induction below with
  | refl => exact absurd union plain
  | root reduces => exact absurd union reduces.root_not_isUnion
  | left hx => exact absurd ⟨_, hx⟩ plain
  | @right x b other s others _ _ hb _ nb mem below ih =>
    have step : env.Unfolds b other := (unfolds_iff closed hb).mpr ⟨nb, mem⟩
    by_cases inner : env.IsUnion other
    · obtain ⟨y, ⟨path, last⟩, meets⟩ := ih plain inner
      exact ⟨y, ⟨.head step path, last⟩, meets⟩
    · exact ⟨other, ⟨.single step, inner⟩, (below_iff_of_not_isUnion inner).mp below⟩

theorem Leaf.below (leaf : env.Leaf b y) (closed : env.Closed) (own : env.owns x = true)
    (plain : ¬ env.IsUnion x) (nx : ¬ env.Recursive x) (meets : x = y ∨ env.Reduces x y) :
    env.Below x b := by
  obtain ⟨s, hx⟩ := exists_shape own
  have no_union : s.isUnion = false := by
    rw [← Bool.not_eq_true, Shape.isUnion_iff]
    rintro ⟨members, rfl⟩
    exact plain ⟨members, hx⟩
  have lift {u next : Handle} (step : env.Unfolds u next) (below : env.Below x next) :
      env.Below x u := by
    obtain ⟨nu, others, hu, mem⟩ := step
    rw [not_isRecursive_iff closed (owns_of_shape hu)] at nu
    exact .right hx no_union hu nx nu mem below
  obtain ⟨path, last⟩ := leaf
  induction path using TransGen.head_induction_on with
  | single step => exact lift step ((below_iff_of_not_isUnion last).mpr meets)
  | head step _ ih => exact lift step ih

/-! ## Ends of the lower type -/

/-- What is taken apart on the way down is below a union only if its members are. -/
theorem Below.of_descends (below : env.Below h b) (union : env.IsUnion b)
    (step : env.Descends b h next) : env.Below next b := by
  obtain ⟨ne, -, members, hs, mem⟩ := step
  cases below with
  | refl => exact absurd rfl ne
  | root reduces => exact absurd union reduces.root_not_isUnion
  | left hh _ _ _ each =>
    cases hs.symm.trans hh
    exact each next mem
  | right hh plain => exact absurd ⟨members, hs⟩ (not_isUnion_of_shape hh plain)

theorem Below.of_descent (below : env.Below a b) (union : env.IsUnion b)
    (path : ReflTransGen (env.Descends b) a x) : env.Below x b := by
  induction path with
  | refl => exact below
  | tail _ step ih => exact ih.of_descends union step

theorem Below.fits (below : env.Below x b) (closed : env.Closed) (own : env.owns x = true)
    (union : env.IsUnion b) (final : env.Final b x) : env.Fits b x := by
  by_cases same : x = b
  · exact .inl same
  have nx : ¬ env.Recursive x := by
    cases below with
    | refl => exact absurd rfl same
    | root reduces => exact absurd union reduces.root_not_isUnion
    | left _ _ nx => exact nx
    | right _ _ _ nx => exact nx
  have plain : ¬ env.IsUnion x := by
    rcases final with same' | plain | recursive
    · exact absurd same' same
    · exact plain
    · exact absurd ((isRecursive_iff closed own).mp recursive) nx
  obtain ⟨y, leaf, meets⟩ := below.exists_leaf closed plain union
  rw [← reducesTo_iff closed own] at meets
  exact .inr ⟨⟨plain, (not_isRecursive_iff closed own).mpr nx⟩, y, leaf, meets⟩

theorem Fits.below (fits : env.Fits b x) (closed : env.Closed) (own : env.owns x = true) :
    env.Below x b := by
  rcases fits with rfl | ⟨⟨plain, nx⟩, y, leaf, meets⟩
  · exact .refl x
  · rw [not_isRecursive_iff closed own] at nx
    rw [reducesTo_iff closed own] at meets
    exact leaf.below closed own plain nx meets

theorem below_of_fits (closed : env.Closed) (own : env.owns a = true)
    (hb : env.shape b = .ok (.union members)) (nb : ¬ env.Recursive b)
    (fits : ∀ x, env.Ends a b x → env.Fits b x) : env.Below a b := by
  -- A union that is taken apart is not recursive, so its members reach fewer unions.
  induction rank : env.unionRank a using Nat.strongRecOn generalizing a with
  | _ n ih =>
    by_cases final : env.Final b a
    · exact (fits a ⟨.refl, final⟩).below closed own
    · simp only [Final, not_or, Decidable.not_not] at final
      obtain ⟨ne, ⟨parts, ha⟩, na⟩ := final
      rw [isRecursive_iff closed own] at na
      refine .left ha hb na nb fun m mem => ?_
      have step : env.Descends b a m := ⟨ne, (unfolds_iff closed ha).mpr ⟨na, mem⟩⟩
      have drops : env.unionRank m < n := rank ▸ unionRank_lt ha na mem
      refine ih _ drops (closed.owns_of_mem ha mem) (fun x ⟨path, last⟩ => ?_) rfl
      exact fits x ⟨.head step path, last⟩

/-- A type is below a union that is not recursive just when every end of its way down fits. -/
theorem below_iff_fits (closed : env.Closed) (own : env.owns a = true) (union : env.IsUnion b)
    (nb : ¬ env.Recursive b) : env.Below a b ↔ ∀ x, env.Ends a b x → env.Fits b x := by
  obtain ⟨members, hb⟩ := union
  constructor
  · rintro below x ⟨path, final⟩
    have below_x := below.of_descent ⟨members, hb⟩ path
    exact below_x.fits closed (owns_of_descent closed own path) ⟨members, hb⟩ final
  · exact below_of_fits closed own hb nb

/-! ## Members below their union -/

theorem unfolds_of_path (closed : env.Closed)
    (plain : ∀ u, ReflTransGen env.HasMember h u → ¬ env.Recursive u)
    (path : TransGen env.HasMember h x) : TransGen env.Unfolds h x := by
  have unfolds {u next : Handle} (reached : ReflTransGen env.HasMember h u)
      (step : env.HasMember u next) : env.Unfolds u next :=
    ⟨(not_isRecursive_iff closed step.isUnion.owns).mpr (plain u reached), step⟩
  induction path with
  | single step => exact .single (unfolds .refl step)
  | tail path step ih => exact ih.tail (unfolds path.to_reflTransGen step)

/-- What members lead to is below the union they start from, where no type behind the union is
recursive. -/
theorem below_of_path (closed : env.Closed)
    (plain : ∀ u, ReflTransGen env.HasMember h u → ¬ env.Recursive u)
    (path : TransGen env.HasMember h m) : env.Below m h := by
  obtain ⟨_, first, -⟩ := TransGen.head'_iff.mp path
  obtain ⟨_, -, last⟩ := TransGen.tail'_iff.mp path
  have own := last.owns closed
  rw [below_iff_fits closed own first.isUnion (plain h .refl)]
  rintro x ⟨down, final⟩
  have own_x := owns_of_descent closed own down
  have reached : TransGen env.HasMember h x := path.trans_left (memberPath_of_descent down)
  have nx := plain x reached.to_reflTransGen
  rcases final with same | no_union | recursive
  · exact .inl same
  · have leaf : env.Leaf h x := ⟨unfolds_of_path closed plain reached, no_union⟩
    exact .inr ⟨⟨no_union, (not_isRecursive_iff closed own_x).mpr nx⟩, x, leaf, .inl rfl⟩
  · exact absurd ((isRecursive_iff closed own_x).mp recursive) nx

/-! ## The check -/

/-- The check of a type against a union that is not recursive compares what they are made of: it says
yes just when every type that the first is taken apart into is the union itself or, neither a union
nor recursive, is a leaf of the union or reduces to one. -/
theorem isSubtype_eq_fits (reachable : env.Reachable) (own : env.owns a = true)
    (union : env.IsUnion b) (plain : env.isRecursive b = .ok false) :
    (env.isSubtype a b).outcome = .ok (decide (∀ x, env.Ends a b x → env.Fits b x)) := by
  have closed := reachable.closed
  have nb : ¬ env.Recursive b := (not_isRecursive_iff closed union.owns).mp plain
  rw [isSubtype_eq closed own union.owns, Except.ok.injEq, decide_eq_decide]
  exact below_iff_fits closed own union nb

/-- A union with a union inside that holds a recursive one, and a union of a subset of a leaf, an empty
union and the first union. -/
def looseParts : Environment :=
  { initial ⟨0⟩ with entries := (initial ⟨0⟩).entries ++
      #[⟨"Small", .subset ⟨⟨0⟩, 4⟩ false⟩, ⟨"Nothing", .union []⟩, ⟨"Loop", .union [⟨⟨0⟩, 10⟩]⟩,
        ⟨"Inner", .union [⟨⟨0⟩, 4⟩, ⟨⟨0⟩, 10⟩]⟩, ⟨"Outer", .union [⟨⟨0⟩, 11⟩, ⟨⟨0⟩, 6⟩]⟩,
        ⟨"Parts", .union [⟨⟨0⟩, 8⟩, ⟨⟨0⟩, 9⟩, ⟨⟨0⟩, 12⟩]⟩] }

theorem reachable_looseParts : looseParts.Reachable := by
  have made : Environment.after [.declare 0 "Small" (.subset ⟨⟨0⟩, 4⟩), .declare 0 "Nothing" .union,
      .declare 0 "Loop" .union, .declare 0 "Inner" .union, .declare 0 "Outer" .union,
      .declare 0 "Parts" .union, .addMember 0 ⟨⟨0⟩, 10⟩ ⟨⟨0⟩, 10⟩,
      .addMember 0 ⟨⟨0⟩, 11⟩ ⟨⟨0⟩, 4⟩, .addMember 0 ⟨⟨0⟩, 11⟩ ⟨⟨0⟩, 10⟩,
      .addMember 0 ⟨⟨0⟩, 12⟩ ⟨⟨0⟩, 11⟩, .addMember 0 ⟨⟨0⟩, 12⟩ ⟨⟨0⟩, 6⟩,
      .addMember 0 ⟨⟨0⟩, 13⟩ ⟨⟨0⟩, 8⟩, .addMember 0 ⟨⟨0⟩, 13⟩ ⟨⟨0⟩, 9⟩,
      .addMember 0 ⟨⟨0⟩, 13⟩ ⟨⟨0⟩, 12⟩] = looseParts := by decide +kernel
  exact made ▸ reachable_after _

/-- All parts of the last union fit, the subset because it reduces to a leaf of the inner union.  The
inner union, though a member of the outer one, does not fit into it, since it holds the recursive
one. -/
theorem isSubtype_looseParts :
    (looseParts.isSubtype ⟨⟨0⟩, 13⟩ ⟨⟨0⟩, 12⟩).outcome = .ok true ∧
    looseParts.Fits ⟨⟨0⟩, 12⟩ ⟨⟨0⟩, 8⟩ ∧
    (looseParts.isSubtype ⟨⟨0⟩, 11⟩ ⟨⟨0⟩, 12⟩).outcome = .ok false ∧
    ∃ x, looseParts.Ends ⟨⟨0⟩, 11⟩ ⟨⟨0⟩, 12⟩ x ∧ ¬ looseParts.Fits ⟨⟨0⟩, 12⟩ x := by
  have outer : looseParts.IsUnion ⟨⟨0⟩, 12⟩ := ⟨_, rfl⟩
  have plain : looseParts.isRecursive ⟨⟨0⟩, 12⟩ = .ok false := eq_ok_of_toOption (by decide +kernel)
  have parts : looseParts.isRecursive ⟨⟨0⟩, 13⟩ = .ok false := eq_ok_of_toOption (by decide +kernel)
  have yes : (looseParts.isSubtype ⟨⟨0⟩, 13⟩ ⟨⟨0⟩, 12⟩).outcome = .ok true :=
    eq_ok_of_toOption (by decide +kernel)
  have no : (looseParts.isSubtype ⟨⟨0⟩, 11⟩ ⟨⟨0⟩, 12⟩).outcome = .ok false :=
    eq_ok_of_toOption (by decide +kernel)
  have each := isSubtype_eq_fits reachable_looseParts (a := ⟨⟨0⟩, 13⟩) (by decide) outer plain
  have inner := isSubtype_eq_fits reachable_looseParts (a := ⟨⟨0⟩, 11⟩) (by decide) outer plain
  rw [yes, Except.ok.injEq] at each
  rw [no, Except.ok.injEq] at inner
  have small : looseParts.shape ⟨⟨0⟩, 8⟩ = .ok (.subset ⟨⟨0⟩, 4⟩ false) := rfl
  have part : looseParts.Ends ⟨⟨0⟩, 13⟩ ⟨⟨0⟩, 12⟩ ⟨⟨0⟩, 8⟩ :=
    ⟨.single ⟨by decide, parts, _, rfl, by decide⟩, .inr (.inl (not_isUnion_of_shape small rfl))⟩
  refine ⟨yes, of_decide_eq_true each.symm _ part, no, ?_⟩
  simpa using of_decide_eq_false inner.symm

end TypeHierarchy.Environment
