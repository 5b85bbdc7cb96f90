import Mathlib.Tactic.Choose
import TypeHierarchy.Proofs.Copy

/-!
# Duplicates

A duplicate is a copy that has no types besides the copied ones (`Duplicated`).  Nothing can then get
between the bounds (`Duplicated.conserved`), and the listings of sets and of the whole environment are
the same texts as well.  A listing is sorted by name, so the places that types stand in do not show in
it, neither in a set (`Duplicated.showSet_eq`) nor in the environment (`Duplicated.showAll_eq`).
-/

namespace TypeHierarchy

/-! ## Lists sorted by a text -/

theorem textLE_trans (a b c : String) (ab : textLE a b = true) (bc : textLE b c = true) :
    textLE a c = true := Std.TransCmp.isLE_trans ab bc

theorem textLE_total (a b : String) : (textLE a b || textLE b a) = true := by
  unfold textLE
  rw [Std.OrientedOrd.eq_swap (a := b) (b := a)]
  cases compare a b <;> rfl

theorem textLE_antisymm {a b : String} (ab : textLE a b = true) (ba : textLE b a = true) :
    a = b := Std.LawfulEqOrd.eq_of_compare (Std.OrientedCmp.isLE_antisymm ab ba)

/-- The order in which a list is given does not show once it is sorted by texts that tell its elements
apart. -/
theorem mergeSort_eq_of_perm {α : Type} {text : α → String} {l l' : List α} (perm : l.Perm l')
    (apart : ∀ a ∈ l, ∀ b ∈ l, text a = text b → a = b) :
    l.mergeSort (fun a b => textLE (text a) (text b)) =
      l'.mergeSort fun a b => textLE (text a) (text b) := by
  let le : α → α → Bool := fun a b => textLE (text a) (text b)
  have trans (a b c : α) : le a b = true → le b c = true → le a c = true := textLE_trans _ _ _
  have total (a b : α) : (le a b || le b a) = true := textLE_total _ _
  have sorted (l : List α) : (l.mergeSort le).Pairwise fun a b => le a b = true :=
    List.pairwise_mergeSort trans total l
  refine List.Perm.eq_of_pairwise (fun a b ha hb ab ba => ?_) (sorted l) (sorted l') ?_
  · have ha : a ∈ l := List.mem_mergeSort.mp ha
    have hb : b ∈ l := perm.mem_iff.mpr (List.mem_mergeSort.mp hb)
    exact apart a ha b hb (textLE_antisymm ab ba)
  · exact (List.mergeSort_perm l le).trans (perm.trans (List.mergeSort_perm l' le).symm)

theorem mergeSort_textLE_eq_of_perm {l l' : List String} (perm : l.Perm l') :
    l.mergeSort textLE = l'.mergeSort textLE :=
  @mergeSort_eq_of_perm String (fun text => text) l l' perm fun _ _ _ _ same => same

namespace Environment

/-- The second environment has each type of the first, and no others. -/
structure Duplicated (env : Environment) (f : Handle → Handle) (env' : Environment) : Prop
    extends Copied env f env' where
  onto : ∀ {x : Handle}, env'.owns x = true → Image f (env.owns · = true) x

/-- Texts about types of the first environment are the texts about their images in the second one. -/
structure TextsAlike (env : Environment) (f : Handle → Handle) (env' : Environment) : Prop where
  qualifier : ∀ {h : Handle}, env.owns h = true → env'.qualifier (f h) = env.qualifier h
  showType : ∀ {h : Handle}, env.owns h = true → env'.showType (f h) = env.showType h
  showSet : ∀ {types : TypeSet}, env.OwnsAll types →
    env'.showSet (types.map f) = env.showSet types
  showAll : env'.showAll = env.showAll

variable {env env' : Environment} {f : Handle → Handle}

theorem nodup_handles (env : Environment) : env.handles.Nodup := by
  refine List.Nodup.map (fun i j same => ?_) List.nodup_range
  exact (Handle.mk.inj same).2

/-- Names as a plain function, good for the types of the environment. -/
theorem exists_names (env : Environment) :
    ∃ text : Handle → String, ∀ h, env.owns h = true → env.name h = .ok (text h) := by
  have named (h : Handle) (own : env.owns h = true) : ∃ name, env.name h = .ok name :=
    exists_name own
  choose! text named using named
  exact ⟨text, named⟩

/-- The types with their names, sorted by name. -/
def listing (env : Environment) (text : Handle → String) : List (String × Handle) :=
  (env.handles.map fun h => (text h, h)).mergeSort fun a b => textLE a.1 b.1

theorem owns_of_mem_listing {text : Handle → String} {pair : String × Handle}
    (mem : pair ∈ env.listing text) : env.owns pair.2 = true := by
  obtain ⟨h, mem_h, rfl⟩ := List.mem_map.mp (List.mem_mergeSort.mp mem)
  exact env.mem_handles.mp mem_h

/-- All types are shown one after the other, as they are listed. -/
theorem showAll_eq_listing {text : Handle → String}
    (named : ∀ h, env.owns h = true → env.name h = .ok (text h)) :
    env.showAll = (do
      let lines ← (env.listing text).mapM fun pair =>
        do return "\t" ++ (← env.showType pair.2) ++ "\n"
      return "Types:\n" ++ String.join lines) := by
  have pairs : (env.handles.mapM fun h => do return (← env.name h, h)) =
      .ok (env.handles.map fun h => (text h, h)) := by
    refine (mapM_congr fun h mem => ?_).trans List.mapM_pure
    rw [named h (env.mem_handles.mp mem)]
    rfl
  rw [showAll, pairs, ok_bind]
  rfl

namespace Duplicated

theorem conserved (duplicated : env.Duplicated f env') : env.Conserved f env' where
  toMirrored := duplicated.mirrored
  uppers own_a _ _ _ above_a _ :=
    duplicated.onto (above_a.owns_upper (duplicated.mirrored.owns own_a))

theorem perm_handles (duplicated : env.Duplicated f env') :
    env'.handles.Perm (env.handles.map f) := by
  have images : (env.handles.map f).Nodup := by
    refine List.Nodup.map_on (fun a ha b hb same => ?_) env.nodup_handles
    exact duplicated.injective (env.mem_handles.mp ha) (env.mem_handles.mp hb) same
  refine (List.perm_ext_iff_of_nodup env'.nodup_handles images).mpr fun x => ?_
  rw [mem_handles, List.mem_map]
  constructor
  · intro own
    obtain ⟨h, own_h, image⟩ := duplicated.onto own
    exact ⟨h, env.mem_handles.mpr own_h, image⟩
  · rintro ⟨h, mem, rfl⟩
    exact duplicated.mirrored.owns (env.mem_handles.mp mem)

/-! ## Listings -/

theorem perm_toList_map (duplicated : env.Duplicated f env') {handles : HandleSet}
    (own : ∀ h ∈ handles, env.owns h = true) :
    (handles.map f).toList.Perm (handles.toList.map f) := by
  have images : (handles.toList.map f).Nodup := by
    refine List.Nodup.map_on (fun a ha b hb => ?_) handles.nodup_toList
    exact duplicated.injective (own a ha) (own b hb)
  exact (List.perm_ext_iff_of_nodup (handles.map f).nodup_toList images).mpr fun x =>
    SortedSet.mem_toList_map

/-- With names as plain functions on both sides, a type and its image have the same. -/
theorem names_eq (duplicated : env.Duplicated f env') {text text' : Handle → String}
    (named : ∀ h, env.owns h = true → env.name h = .ok (text h))
    (named' : ∀ x, env'.owns x = true → env'.name x = .ok (text' x)) {h : Handle}
    (own : env.owns h = true) : text' (f h) = text h := by
  have same := duplicated.name_eq own
  rw [named h own, named' (f h) (duplicated.mirrored.owns own)] at same
  exact Except.ok.inj same

theorem showSet_eq (duplicated : env.Duplicated f env') {types : TypeSet}
    (own : env.OwnsAll types) : env'.showSet (types.map f) = env.showSet types := by
  cases types with
  | all => rfl
  | finite handles =>
    obtain ⟨text, named⟩ := env.exists_names
    obtain ⟨text', named'⟩ := env'.exists_names
    have own' : ∀ x ∈ (handles.map f).toList, env'.owns x = true :=
      duplicated.mirrored.owns_images own fun x => SortedSet.mem_toList_map
    have names : handles.toList.mapM env.name = .ok (handles.toList.map text) :=
      (mapM_congr fun h mem => named h (own h mem)).trans List.mapM_pure
    have names' : (handles.map f).toList.mapM env'.name = .ok ((handles.map f).toList.map text') :=
      (mapM_congr fun x mem => named' x (own' x mem)).trans List.mapM_pure
    have same : (handles.toList.map f).map text' = handles.toList.map text := by
      rw [List.map_map]
      exact List.map_congr_left fun h mem => duplicated.names_eq named named' (own h mem)
    have perm := (duplicated.perm_toList_map own).map text'
    rw [same] at perm
    rw [TypeSet.map, showSet, showSet, names, names', ok_bind, ok_bind,
      mergeSort_textLE_eq_of_perm perm]

/-- Sorted by name, the images of the types come in the order of the types. -/
theorem listing_eq (duplicated : env.Duplicated f env') (arranged' : env'.Arranged)
    {text text' : Handle → String} (named : ∀ h, env.owns h = true → env.name h = .ok (text h))
    (named' : ∀ x, env'.owns x = true → env'.name x = .ok (text' x)) :
    env'.listing text' = (env.listing text).map fun pair => (pair.1, f pair.2) := by
  have perm : (env'.handles.map fun x => (text' x, x)).Perm
      ((env.handles.map fun h => (text h, h)).map fun pair => (pair.1, f pair.2)) := by
    refine (duplicated.perm_handles.map _).trans (.of_eq ?_)
    rw [List.map_map, List.map_map]
    refine List.map_congr_left fun h mem => ?_
    simp only [Function.comp_apply, duplicated.names_eq named named' (env.mem_handles.mp mem)]
  have apart : ∀ a ∈ env'.handles.map (fun x => (text' x, x)),
      ∀ b ∈ env'.handles.map (fun x => (text' x, x)), a.1 = b.1 → a = b := by
    intro a ha b hb same
    obtain ⟨x, hx, rfl⟩ := List.mem_map.mp ha
    obtain ⟨y, hy, rfl⟩ := List.mem_map.mp hb
    have name_x := named' x (env'.mem_handles.mp hx)
    have name_y := named' y (env'.mem_handles.mp hy)
    cases arranged'.name_inj name_x (name_y.trans (congrArg _ same.symm))
    rfl
  refine (mergeSort_eq_of_perm perm apart).trans ?_
  symm
  apply List.map_mergeSort
  exact fun _ _ _ _ => rfl

theorem showAll_eq (duplicated : env.Duplicated f env') (closed : env.Closed)
    (arranged' : env'.Arranged) : env'.showAll = env.showAll := by
  obtain ⟨text, named⟩ := env.exists_names
  obtain ⟨text', named'⟩ := env'.exists_names
  rw [showAll_eq_listing named, showAll_eq_listing named',
    duplicated.listing_eq arranged' named named', List.mapM_map]
  refine congrArg (· >>= _) (mapM_congr fun pair mem => ?_)
  simp only [Function.comp_apply, duplicated.showType_eq closed (owns_of_mem_listing mem)]

theorem textsAlike (duplicated : env.Duplicated f env') (arranged : env.Arranged)
    (arranged' : env'.Arranged) : env.TextsAlike f env' where
  qualifier own := duplicated.qualifier_eq arranged arranged' own
  showType own := duplicated.showType_eq arranged.closed own
  showSet own := duplicated.showSet_eq own
  showAll := duplicated.showAll_eq arranged.closed arranged'

end Duplicated

end Environment

end TypeHierarchy
