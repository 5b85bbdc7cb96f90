import TypeHierarchy.Handle
import TypeHierarchy.SortedSet

/-!
# Sets of types

A type set is the universal set, which cannot be listed, or a finite set of handles.  The handles of
one set may belong to different environments.
-/

namespace TypeHierarchy

/-- A finite set of handles in handle order. -/
abbrev HandleSet := SortedSet Handle compare

/-- The universal set or a finite one.  No finite set is the universal one, whatever it holds. -/
inductive TypeSet where
  | all
  | finite (handles : HandleSet)
deriving DecidableEq

namespace TypeSet

/-- The set without types. -/
def empty : TypeSet := finite ∅

instance : Inhabited TypeSet := ⟨empty⟩

/-- The set of one type. -/
def singleton (h : Handle) : TypeSet := finite (.singleton h)

/-- The set of the types of a list, in any order and with repetitions. -/
def ofList (hs : List Handle) : TypeSet := finite (.ofList hs)

/-- Whether it is the universal set. -/
def isAll : TypeSet → Bool
  | all => true
  | finite _ => false

/-- The types of a finite set. -/
def finite? : TypeSet → Option HandleSet
  | all => none
  | finite handles => some handles

/-- The universal set is not empty. -/
def isEmpty : TypeSet → Bool
  | all => false
  | finite handles => handles.isEmpty

/-- How many types a finite set has. -/
def size? (s : TypeSet) : Option Nat := s.finite?.map SortedSet.size

/-- Every handle is in the universal set. -/
def contains (s : TypeSet) (h : Handle) : Bool :=
  match s with
  | all => true
  | finite handles => decide (h ∈ handles)

instance : Membership Handle TypeSet := ⟨fun s h => s.contains h = true⟩

/-! ## Growing a set

The universal set absorbs every addition. -/

/-- Adds one type. -/
def insert (h : Handle) : TypeSet → TypeSet
  | all => all
  | finite handles => finite (handles.insert h)

/-- Adds the types of a list. -/
def insertList (hs : List Handle) : TypeSet → TypeSet
  | all => all
  | finite handles => finite (handles.insertList hs)

/-- Everything that is in one of the sets. -/
def union : TypeSet → TypeSet → TypeSet
  | finite left, finite right => finite (left.insertList right.toList)
  | _, _ => all

theorem mem_all (h : Handle) : h ∈ all := rfl

theorem mem_finite {h : Handle} {handles : HandleSet} : h ∈ finite handles ↔ h ∈ handles :=
  decide_eq_true_iff

theorem mem_insert {h x : Handle} {s : TypeSet} : x ∈ s.insert h ↔ x = h ∨ x ∈ s := by
  cases s with
  | all => exact iff_of_true (mem_all x) (.inr (mem_all x))
  | finite handles => simp only [insert, mem_finite, SortedSet.mem_insert]

theorem mem_insertList {hs : List Handle} {x : Handle} {s : TypeSet} :
    x ∈ s.insertList hs ↔ x ∈ hs ∨ x ∈ s := by
  cases s with
  | all => exact iff_of_true (mem_all x) (.inr (mem_all x))
  | finite handles => simp only [insertList, mem_finite, SortedSet.mem_insertList]

theorem mem_union {x : Handle} {s t : TypeSet} : x ∈ s.union t ↔ x ∈ s ∨ x ∈ t := by
  cases s with
  | all => exact iff_of_true (mem_all x) (.inl (mem_all x))
  | finite left =>
    cases t with
    | all => exact iff_of_true (mem_all x) (.inr (mem_all x))
    | finite right =>
      simp only [union, mem_finite, SortedSet.mem_insertList, ← SortedSet.mem_iff]
      exact or_comm

end TypeSet

end TypeHierarchy
