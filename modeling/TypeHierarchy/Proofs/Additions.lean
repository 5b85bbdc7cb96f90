import Mathlib.Data.Set.Card
import TypeHierarchy.TypeSet

/-!
# Additions to a set of types

One type, a list of types or a whole set is added to a set.  Each addition is the union with what it brings
(`add_eq_union`), and unions do not care about order or repetition.  So a set knows nothing of the way it
was made: additions that bring the same types leave the same value behind (`grow_eq_grow`).  The universal
set swallows every addition and comes from nothing but itself (`grow_eq_all_iff`).
-/

namespace TypeHierarchy

theorem Handle.compare_eq_lt_iff {a b : Handle} :
    compare a b = .lt ↔
      a.env.number < b.env.number ∨ a.env.number = b.env.number ∧ a.index < b.index := by
  rw [compare_eq, Ordering.then_eq_lt, Nat.compare_eq_lt, Nat.compare_eq_eq, Nat.compare_eq_lt]

namespace TypeSet

/-- A way to make a type set larger: by one type, by the types of a list, or by another set. -/
inductive Addition where
  | insert (h : Handle)
  | insertList (hs : List Handle)
  | union (other : TypeSet)
deriving DecidableEq

/-- What an addition brings. -/
def Addition.operand : Addition → TypeSet
  | insert h => singleton h
  | insertList hs => ofList hs
  | union other => other

/-- The set after one addition. -/
def add (s : TypeSet) : Addition → TypeSet
  | .insert h => s.insert h
  | .insertList hs => s.insertList hs
  | .union other => s.union other

/-- The set after all of the additions, from the left. -/
def grow (s : TypeSet) (additions : List Addition) : TypeSet := additions.foldl add s

variable {s s' t u : TypeSet} {additions additions' : List Addition} {x : Handle}

/-- A set is determined by its types, and by whether it is the universal one. -/
theorem eq_of_mem_iff (universal : s = all ↔ t = all) (same : ∀ x, x ∈ s ↔ x ∈ t) : s = t := by
  cases s with
  | all => exact (universal.mp rfl).symm
  | finite left =>
    cases t with
    | all => exact universal.mpr rfl
    | finite right =>
      refine congrArg finite (SortedSet.ext fun x => ?_)
      rw [← mem_finite, ← mem_finite, same]

/-! ## Unions -/

theorem union_eq_all_iff : s.union t = all ↔ s = all ∨ t = all := by
  cases s <;> cases t <;> simp [union]

theorem union_comm (s t : TypeSet) : s.union t = t.union s :=
  eq_of_mem_iff (by rw [union_eq_all_iff, union_eq_all_iff, or_comm])
    fun x => by rw [mem_union, mem_union, or_comm]

theorem union_assoc (s t u : TypeSet) : (s.union t).union u = s.union (t.union u) :=
  eq_of_mem_iff (by simp only [union_eq_all_iff, or_assoc])
    fun x => by simp only [mem_union, or_assoc]

theorem union_self (s : TypeSet) : s.union s = s :=
  eq_of_mem_iff (by rw [union_eq_all_iff, or_self]) fun x => by rw [mem_union, or_self]

/-! ## Additions -/

theorem operand_eq_all_iff {a : Addition} : a.operand = all ↔ a = .union all := by
  cases a <;> simp [Addition.operand, singleton, ofList]

theorem mem_operand_insertList {hs : List Handle} : x ∈ (Addition.insertList hs).operand ↔ x ∈ hs :=
  mem_finite.trans SortedSet.mem_ofList

/-- Every addition is a union with what it brings. -/
theorem add_eq_union (s : TypeSet) (a : Addition) : s.add a = s.union a.operand := by
  cases a with
  | insert h => cases s <;> rfl
  | insertList hs =>
    refine eq_of_mem_iff ?_ fun x => ?_
    · rw [union_eq_all_iff]
      cases s <;> simp [add, insertList, Addition.operand, ofList]
    · rw [mem_union, mem_operand_insertList, or_comm]
      exact mem_insertList
  | union other => rfl

theorem grow_cons (s : TypeSet) (a : Addition) (additions : List Addition) :
    s.grow (a :: additions) = (s.union a.operand).grow additions := by
  rw [← add_eq_union]
  rfl

theorem mem_grow : x ∈ s.grow additions ↔ x ∈ s ∨ ∃ a ∈ additions, x ∈ a.operand := by
  induction additions generalizing s with
  | nil => simp [grow]
  | cons a additions ih => rw [grow_cons, ih, mem_union, List.exists_mem_cons_iff, or_assoc]

theorem grow_eq_all_iff : s.grow additions = all ↔ s = all ∨ .union all ∈ additions := by
  induction additions generalizing s with
  | nil => simp [grow]
  | cons a additions ih =>
    rw [grow_cons, ih, union_eq_all_iff, operand_eq_all_iff, List.mem_cons, or_assoc,
      eq_comm (a := a)]

/-- Additions that bring the same types, one after the other or all at once, lead to the same set. -/
theorem grow_eq_grow
    (universal : s = all ∨ .union all ∈ additions ↔ s' = all ∨ .union all ∈ additions')
    (same : ∀ x, (x ∈ s ∨ ∃ a ∈ additions, x ∈ a.operand) ↔
      (x ∈ s' ∨ ∃ a ∈ additions', x ∈ a.operand)) : s.grow additions = s'.grow additions' :=
  eq_of_mem_iff (by rw [grow_eq_all_iff, grow_eq_all_iff, universal])
    fun x => by rw [mem_grow, mem_grow, same]

/-! ## Listing a set -/

/-- A finite set is listed in handle order, each of its types once. -/
theorem exists_listing (finite : s ≠ all) :
    ∃ handles : HandleSet, s.finite? = some handles ∧
      handles.toList.Pairwise (fun a b => a.env.number < b.env.number ∨
        a.env.number = b.env.number ∧ a.index < b.index) ∧
      (∀ x, x ∈ handles.toList ↔ x ∈ s) ∧ s.size? = some (Set.ncard {x | x ∈ s}) := by
  cases s with
  | all => exact absurd rfl finite
  | finite handles =>
    have mem (x : Handle) : x ∈ handles.toList ↔ x ∈ TypeSet.finite handles := mem_finite.symm
    have types : {x | x ∈ TypeSet.finite handles} = (handles.toList.toFinset : Set Handle) := by
      ext x
      simp [← mem]
    refine ⟨handles, rfl, handles.increasing.imp Handle.compare_eq_lt_iff.mp, mem, ?_⟩
    rw [types, Set.ncard_coe_finset, List.toFinset_card_of_nodup handles.nodup_toList]
    rfl

/-- A set holds the types it starts with and those that additions bring.  It is universal when it starts
so or the universal set is added, and no addition leads back from there.  Finite sets that are given the
same types become equal, whatever the order of the additions, and are listed in handle order, each type
once; none of them is the universal set.  Behind all this, an addition is a union, and unions form a
semilattice with the universal set on top. -/
theorem additions_canonical (s : TypeSet) (additions : List Addition) :
    (∀ x, x ∈ s.grow additions ↔ x ∈ s ∨ ∃ a ∈ additions, x ∈ a.operand) ∧
    (s.grow additions = all ↔ s = all ∨ .union all ∈ additions) ∧
    (s.grow additions = all → ∀ later, s.grow (additions ++ later) = all) ∧
    (s ≠ all → .union all ∉ additions →
      (∀ s' additions', s' ≠ all → .union all ∉ additions' →
        (∀ x, (x ∈ s ∨ ∃ a ∈ additions, x ∈ a.operand) ↔
          (x ∈ s' ∨ ∃ a ∈ additions', x ∈ a.operand)) →
        s.grow additions = s'.grow additions') ∧
      ∃ handles : HandleSet, (s.grow additions).finite? = some handles ∧
        handles.toList.Pairwise (fun a b => a.env.number < b.env.number ∨
          a.env.number = b.env.number ∧ a.index < b.index) ∧
        (∀ x, x ∈ handles.toList ↔ x ∈ s ∨ ∃ a ∈ additions, x ∈ a.operand) ∧
        (s.grow additions).size? =
          some (Set.ncard {x | x ∈ s ∨ ∃ a ∈ additions, x ∈ a.operand})) ∧
    (∀ handles, all ≠ finite handles) ∧
    (∀ a, s.add a = s.union a.operand) ∧ s.union all = all ∧ s.union s = s ∧
    ∀ t u, s.union t = t.union s ∧ (s.union t).union u = s.union (t.union u) := by
  refine ⟨fun x => mem_grow, grow_eq_all_iff, fun universal later => ?_,
    fun finite bounded => ⟨fun s' additions' finite' bounded' same => ?_, ?_⟩, fun _ => nofun,
    add_eq_union s, union_eq_all_iff.mpr (.inr rfl), union_self s,
    fun t u => ⟨union_comm s t, union_assoc s t u⟩⟩
  · rw [grow_eq_all_iff] at universal ⊢
    exact universal.imp_right (List.mem_append_left later)
  · exact grow_eq_grow (iff_of_false (not_or.mpr ⟨finite, bounded⟩)
      (not_or.mpr ⟨finite', bounded'⟩)) same
  · have finite_after : s.grow additions ≠ all :=
      mt grow_eq_all_iff.mp (not_or.mpr ⟨finite, bounded⟩)
    simpa only [mem_grow] using exists_listing finite_after

/-- Types of two environments, one at a time and in a list, some of them twice. -/
def scattered : List Addition :=
  [.insert ⟨⟨1⟩, 0⟩, .insertList [⟨⟨0⟩, 3⟩, ⟨⟨0⟩, 1⟩, ⟨⟨0⟩, 3⟩], .union (ofList [⟨⟨1⟩, 0⟩, ⟨⟨0⟩, 7⟩])]

/-- One list brings the same types, and there are four of them.  With the universal set among the
additions nothing else matters. -/
theorem additions_canonical_scattered :
    grow (singleton ⟨⟨0⟩, 3⟩) scattered =
      grow empty [.insertList [⟨⟨0⟩, 7⟩, ⟨⟨0⟩, 3⟩, ⟨⟨1⟩, 0⟩, ⟨⟨0⟩, 1⟩]] ∧
    Set.ncard {x | x ∈ singleton ⟨⟨0⟩, 3⟩ ∨ ∃ a ∈ scattered, x ∈ a.operand} = 4 ∧
    grow (singleton ⟨⟨0⟩, 3⟩) (.union all :: scattered) = all := by
  obtain ⟨-, -, -, bounded, -⟩ := additions_canonical (singleton ⟨⟨0⟩, 3⟩) scattered
  obtain ⟨canonical, handles, -, -, -, size⟩ := bounded (by decide) (by decide)
  obtain ⟨-, universal, -⟩ := additions_canonical (singleton ⟨⟨0⟩, 3⟩) (.union all :: scattered)
  have four : (grow (singleton ⟨⟨0⟩, 3⟩) scattered).size? = some 4 := by decide
  refine ⟨canonical empty _ (by decide) (by decide) fun x => ?_, ?_, ?_⟩
  · simp only [scattered, Addition.operand, singleton, ofList, empty, mem_finite,
      SortedSet.mem_singleton, SortedSet.mem_ofList, SortedSet.not_mem_empty, List.mem_cons,
      List.not_mem_nil, exists_eq_or_imp, exists_eq_left, or_false, false_or]
    tauto
  · exact Option.some.inj (size.symm.trans four)
  · exact universal.mpr (.inr List.mem_cons_self)

end TypeSet

end TypeHierarchy
