/-!
# Sorted sets

A finite set kept as the strictly increasing list of its elements.  One set has one list, so equal
sets are equal values.  Where `cmp` answers `.eq` for two different values, the set keeps the one
that was inserted first.
-/

namespace TypeHierarchy

universe u

/-- A finite set of values, listed in strictly increasing order of `cmp`. -/
structure SortedSet (α : Type u) (cmp : α → α → Ordering) where
  toList : List α
  increasing : toList.Pairwise fun a b => cmp a b = .lt

namespace SortedSet

variable {α : Type u} {cmp : α → α → Ordering}

theorem toList_inj {s t : SortedSet α cmp} : s.toList = t.toList ↔ s = t :=
  ⟨fun h => by cases s; cases t; cases h; rfl, fun h => h ▸ rfl⟩

instance [DecidableEq α] : DecidableEq (SortedSet α cmp) := fun _ _ =>
  decidable_of_iff _ toList_inj

instance : EmptyCollection (SortedSet α cmp) := ⟨⟨[], .nil⟩⟩

instance : Membership α (SortedSet α cmp) := ⟨fun s a => a ∈ s.toList⟩

theorem mem_iff {a : α} {s : SortedSet α cmp} : a ∈ s ↔ a ∈ s.toList := .rfl

instance [DecidableEq α] (a : α) (s : SortedSet α cmp) : Decidable (a ∈ s) :=
  inferInstanceAs (Decidable (a ∈ s.toList))

@[simp] theorem toList_empty : (∅ : SortedSet α cmp).toList = [] := rfl

@[simp] theorem not_mem_empty (a : α) : a ∉ (∅ : SortedSet α cmp) := List.not_mem_nil

theorem eq_empty_iff {s : SortedSet α cmp} : s = ∅ ↔ ∀ a, a ∉ s :=
  toList_inj.symm.trans List.eq_nil_iff_forall_not_mem

/-- The set of one value. -/
def singleton (a : α) : SortedSet α cmp := ⟨[a], List.pairwise_singleton ..⟩

@[simp] theorem toList_singleton (a : α) : (singleton a : SortedSet α cmp).toList = [a] := rfl

@[simp] theorem mem_singleton {a b : α} : b ∈ (singleton a : SortedSet α cmp) ↔ b = a :=
  List.mem_singleton

/-- How many values the set has. -/
def size (s : SortedSet α cmp) : Nat := s.toList.length

/-- Whether the set has no values. -/
def isEmpty (s : SortedSet α cmp) : Bool := s.toList.isEmpty

@[simp] theorem isEmpty_iff {s : SortedSet α cmp} : s.isEmpty = true ↔ s.toList = [] := by
  simp [isEmpty]

/-! ## Sets with the same elements -/

theorem not_below_self [Std.TransCmp cmp] (a : α) : cmp a a ≠ .lt := fun h => by
  have same : cmp a a = .eq := Std.ReflCmp.compare_self
  rw [same] at h
  cases h

theorem nodup_toList [Std.TransCmp cmp] (s : SortedSet α cmp) : s.toList.Nodup := by
  refine s.increasing.imp fun {a b} below same => ?_
  subst same
  exact not_below_self a below

theorem not_mem_of_below [Std.TransCmp cmp] {a : α} {l : List α} (below : ∀ b ∈ l, cmp a b = .lt) :
    a ∉ l := fun h => not_below_self a (below a h)

theorem eq_of_mem_iff [Std.TransCmp cmp] {l k : List α} (hl : l.Pairwise fun a b => cmp a b = .lt)
    (hk : k.Pairwise fun a b => cmp a b = .lt) (h : ∀ x, x ∈ l ↔ x ∈ k) : l = k := by
  induction l generalizing k with
  | nil => exact (List.eq_nil_iff_forall_not_mem.mpr fun x hx => List.not_mem_nil ((h x).mpr hx)).symm
  | cons a l ih =>
    cases k with
    | nil => exact absurd ((h a).mp List.mem_cons_self) List.not_mem_nil
    | cons b k =>
      have ⟨al, hl'⟩ := List.pairwise_cons.mp hl
      have ⟨bk, hk'⟩ := List.pairwise_cons.mp hk
      have heads : a = b := by
        rcases List.mem_cons.mp ((h a).mp List.mem_cons_self) with e | ak
        · exact e
        rcases List.mem_cons.mp ((h b).mpr List.mem_cons_self) with e | bl
        · exact e.symm
        -- Otherwise each head would be below the other.
        exact absurd (Std.TransCmp.lt_trans (al b bl) (bk a ak)) (not_below_self a)
      subst heads
      refine congrArg (a :: ·) (ih hl' hk' fun x => ⟨fun hx => ?_, fun hx => ?_⟩)
      · rcases List.mem_cons.mp ((h x).mp (List.mem_cons_of_mem a hx)) with rfl | hx'
        · exact absurd hx (not_mem_of_below al)
        · exact hx'
      · rcases List.mem_cons.mp ((h x).mpr (List.mem_cons_of_mem a hx)) with rfl | hx'
        · exact absurd hx (not_mem_of_below bk)
        · exact hx'

/-- A set is determined by its elements. -/
theorem ext [Std.TransCmp cmp] {s t : SortedSet α cmp} (h : ∀ x, x ∈ s ↔ x ∈ t) : s = t :=
  toList_inj.mp (eq_of_mem_iff s.increasing t.increasing h)

/-! ## Insertion -/

/-- Puts `a` in front of the first element above it, unless an element equal to it comes first. -/
def place (cmp : α → α → Ordering) (a : α) : List α → List α
  | [] => [a]
  | b :: rest =>
    match cmp a b with
    | .lt => a :: b :: rest
    | .eq => b :: rest
    | .gt => b :: place cmp a rest

theorem eq_or_mem_of_mem_place {a x : α} {l : List α} (h : x ∈ place cmp a l) : x = a ∨ x ∈ l := by
  induction l with
  | nil => exact .inl (List.mem_singleton.mp h)
  | cons b rest ih =>
    unfold place at h
    split at h
    · exact List.mem_cons.mp h
    · exact .inr h
    · rcases List.mem_cons.mp h with rfl | h
      · exact .inr List.mem_cons_self
      · exact (ih h).imp id (List.mem_cons_of_mem b)

theorem mem_place_of_mem {a x : α} {l : List α} (h : x ∈ l) : x ∈ place cmp a l := by
  induction l with
  | nil => cases h
  | cons b rest ih =>
    unfold place
    split
    · exact List.mem_cons_of_mem a h
    · exact h
    · rcases List.mem_cons.mp h with rfl | h
      · exact List.mem_cons_self
      · exact List.mem_cons_of_mem b (ih h)

theorem mem_place_self [Std.LawfulEqCmp cmp] (a : α) (l : List α) : a ∈ place cmp a l := by
  induction l with
  | nil => exact List.mem_singleton_self a
  | cons b rest ih =>
    unfold place
    split
    · exact List.mem_cons_self
    · rename_i e
      exact Std.LawfulEqCmp.eq_of_compare e ▸ List.mem_cons_self
    · exact List.mem_cons_of_mem b ih

theorem mem_place [Std.LawfulEqCmp cmp] {a x : α} {l : List α} :
    x ∈ place cmp a l ↔ x = a ∨ x ∈ l := by
  refine ⟨eq_or_mem_of_mem_place, fun h => h.elim (fun e => ?_) mem_place_of_mem⟩
  rw [e]
  exact mem_place_self a l

theorem pairwise_place [Std.TransCmp cmp] {a : α} {l : List α}
    (h : l.Pairwise fun a b => cmp a b = .lt) :
    (place cmp a l).Pairwise fun a b => cmp a b = .lt := by
  induction l with
  | nil => exact List.pairwise_singleton ..
  | cons b rest ih =>
    have ⟨below, sorted⟩ := List.pairwise_cons.mp h
    unfold place
    split
    · rename_i ab
      refine List.pairwise_cons.mpr ⟨fun x hx => ?_, h⟩
      rcases List.mem_cons.mp hx with rfl | hx
      · exact ab
      · exact Std.TransCmp.lt_trans ab (below x hx)
    · exact h
    · rename_i ab
      refine List.pairwise_cons.mpr ⟨fun x hx => ?_, ih sorted⟩
      rcases eq_or_mem_of_mem_place hx with rfl | hx
      · exact Std.OrientedCmp.gt_iff_lt.mp ab
      · exact below x hx

variable [Std.TransCmp cmp]

/-- Adds a value; a value equal to one already present changes nothing. -/
def insert (a : α) (s : SortedSet α cmp) : SortedSet α cmp :=
  ⟨place cmp a s.toList, pairwise_place s.increasing⟩

/-- Adds the values of a list, from the left. -/
def insertList (as : List α) (s : SortedSet α cmp) : SortedSet α cmp :=
  as.foldl (fun s a => s.insert a) s

/-- The set of the values of a list; of values that `cmp` does not tell apart the leftmost one. -/
def ofList (as : List α) : SortedSet α cmp := insertList as ∅

theorem mem_insert [Std.LawfulEqCmp cmp] {a x : α} {s : SortedSet α cmp} :
    x ∈ s.insert a ↔ x = a ∨ x ∈ s := mem_place

theorem mem_insertList [Std.LawfulEqCmp cmp] {as : List α} {x : α} {s : SortedSet α cmp} :
    x ∈ s.insertList as ↔ x ∈ as ∨ x ∈ s := by
  induction as generalizing s with
  | nil => simp [insertList]
  | cons a as ih =>
    show x ∈ (s.insert a).insertList as ↔ _
    rw [ih, mem_insert, List.mem_cons, or_assoc, or_left_comm]

@[simp] theorem mem_ofList [Std.LawfulEqCmp cmp] {as : List α} {x : α} :
    x ∈ (ofList as : SortedSet α cmp) ↔ x ∈ as := by
  rw [ofList, mem_insertList, mem_iff, toList_empty]
  simp

end SortedSet

end TypeHierarchy
