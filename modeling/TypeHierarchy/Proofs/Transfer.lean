import TypeHierarchy.Proofs.Arrangement
import TypeHierarchy.Proofs.Classification
import TypeHierarchy.Proofs.Mirror
import TypeHierarchy.Proofs.Pairwise

/-!
# Answers carried from one environment to another

Where a map of handles mirrors one environment in another, queries about types and about their images
get the same answers, bounds being taken through the map (`AnswersAlike`).  The bound of a set is
built up in handle order, so that for sets the map has to keep the order as well (`FamiliesAlike`).
-/

namespace TypeHierarchy

namespace SortedSet

variable {α : Type} {cmp : α → α → Ordering} [Std.TransCmp cmp] [Std.LawfulEqCmp cmp] {f : α → α}
  {s : SortedSet α cmp} {x : α}

/-- The images of all elements. -/
def map (f : α → α) (s : SortedSet α cmp) : SortedSet α cmp := ofList (s.toList.map f)

theorem mem_toList_map : x ∈ (s.map f).toList ↔ x ∈ s.toList.map f := mem_ofList

@[simp] theorem mem_map : x ∈ s.map f ↔ ∃ a ∈ s, f a = x := mem_toList_map.trans List.mem_map

theorem map_self : (map fun a => a : SortedSet α cmp → SortedSet α cmp) = id :=
  funext fun s => ext fun x => by simp

theorem isEmpty_map : (s.map f).isEmpty = s.isEmpty := by
  rw [Bool.eq_iff_iff]
  simp only [isEmpty_iff, List.eq_nil_iff_forall_not_mem, ← mem_iff, mem_map]
  constructor
  · exact fun none a mem => none (f a) ⟨a, mem, rfl⟩
  · rintro none x ⟨a, mem, -⟩
    exact none a mem

theorem toList_map (mono : ∀ a ∈ s, ∀ b ∈ s, cmp a b = .lt → cmp (f a) (f b) = .lt) :
    (s.map f).toList = s.toList.map f := by
  refine eq_of_mem_iff (s.map f).increasing ?_ fun x => mem_toList_map
  exact List.pairwise_map.mpr (s.increasing.imp_of_mem fun ha hb => mono _ ha _ hb)

end SortedSet

/-- The images of all types of a set; the universal set stays as it is. -/
def TypeSet.map (f : Handle → Handle) : TypeSet → TypeSet
  | all => all
  | finite handles => finite (handles.map f)

theorem TypeSet.map_self : (TypeSet.map fun h => h) = id := by
  funext types
  cases types with
  | all => rfl
  | finite handles => exact congrArg finite (congrFun SortedSet.map_self handles)

theorem Traced.Yields.outcome_eq_map {f : Handle → Handle} {x y : Traced HandleSet}
    {p q : Handle → Prop} (first : x.Yields p) (second : y.Yields q)
    (image : ∀ h, q h ↔ Image f p h) : y.outcome = x.outcome.map (SortedSet.map f) := by
  obtain ⟨s, hx, mem⟩ := first
  obtain ⟨t, hy, mem'⟩ := second
  rw [hx, hy]
  refine congrArg Except.ok (SortedSet.ext fun h => ?_)
  rw [mem', image, SortedSet.mem_map]
  simp only [mem, Image]

namespace Environment

open scoped Classical

/-- Queries about types of the first environment are answered by the second one, about their images,
as the first one answers them. -/
structure AnswersAlike (env : Environment) (f : Handle → Handle) (env' : Environment) : Prop where
  reducesTo : ∀ {a b : Handle}, env.owns a = true → env.owns b = true →
    env'.reducesTo (f a) (f b) = env.reducesTo a b
  isSubtype : ∀ {a b : Handle}, env.owns a = true → env.owns b = true →
    (env'.isSubtype (f a) (f b)).outcome = (env.isSubtype a b).outcome
  isRecursive : ∀ {h : Handle}, env.owns h = true → env'.isRecursive (f h) = env.isRecursive h
  attributeOf : ∀ {h : Handle}, env.owns h = true → env'.attributeOf (f h) = env.attributeOf h
  pairBound : ∀ (bound : Bound) {a b : Handle}, env.owns a = true → env.owns b = true →
    (env'.pairBound bound (f a) (f b)).outcome =
      (env.pairBound bound a b).outcome.map (SortedSet.map f)

/-- The same of queries about sets of types. -/
structure FamiliesAlike (env : Environment) (f : Handle → Handle) (env' : Environment) : Prop where
  setBound : ∀ (bound : Bound) (types : TypeSet), env.OwnsAll types →
    (env'.setBound bound (types.map f)).outcome =
      (env.setBound bound types).outcome.map (SortedSet.map f)
  pairwiseBound : ∀ (bound : Bound) (left right : TypeSet), env.OwnsAll left → env.OwnsAll right →
    (env'.pairwiseBound bound (left.map f) (right.map f)).outcome =
      (env.pairwiseBound bound left right).outcome.map (TypeSet.map f)

variable {env env' : Environment} {f : Handle → Handle} {bound : Bound}

/-! ## Single types and pairs -/

/-- The constant type of a kind goes to the constant type of that kind. -/
theorem Mirrored.constantType_eq (mirrored : env.Mirrored f env') (arranged : env.Arranged)
    (arranged' : env'.Arranged) (kind : Kind) :
    f (env.constantType kind) = env'.constantType kind := by
  obtain ⟨s', there, made⟩ := mirrored.shape (arranged.shape_constantType kind)
  cases made
  obtain ⟨same, name, found⟩ := shape_eq_ok_iff.mp there
  calc f (env.constantType kind)
      = env'.handle (f (env.constantType kind)).index := by rw [handle, ← same]
    _ = env'.constantType kind := congrArg env'.handle (arranged'.only_constants found)

theorem Mirrored.firstKind?_eq (mirrored : env.Mirrored f env') (arranged : env.Arranged)
    (arranged' : env'.Arranged) {h : Handle} (own : env.owns h = true) :
    env'.firstKind? (f h) = env.firstKind? h := by
  have constant (kind : Kind) : env.owns (env.constantType kind) = true :=
    owns_of_shape (arranged.shape_constantType kind)
  simp only [firstKind?, ← mirrored.constantType_eq arranged arranged',
    mirrored.reduces_iff arranged.closed own (constant _)]

theorem Conserved.answersAlike (conserved : env.Conserved f env') (arranged : env.Arranged)
    (arranged' : env'.Arranged) : env.AnswersAlike f env' := by
  have closed := arranged.closed
  have closed' := arranged'.closed
  refine ⟨fun own_a own_b => ?_, fun own_a own_b => ?_, fun own => ?_, fun own => ?_,
    fun bound a b own_a own_b => ?_⟩
  · rw [reducesTo_eq closed own_a, reducesTo_eq closed' (conserved.owns own_a)]
    simp only [conserved.reduces_iff closed own_a own_b]
  · rw [isSubtype_eq closed own_a own_b,
      isSubtype_eq closed' (conserved.owns own_a) (conserved.owns own_b)]
    simp only [conserved.below_iff closed own_a own_b]
  · rw [isRecursive_eq closed own, isRecursive_eq closed' (conserved.owns own)]
    simp only [conserved.recursive_iff closed own]
  · rw [attributeOf_eq closed own, attributeOf_eq closed' (conserved.owns own),
      conserved.firstKind?_eq arranged arranged' own]
  · refine (pairBound_yields closed own_a own_b).outcome_eq_map
      (pairBound_yields closed' (conserved.owns own_a) (conserved.owns own_b)) fun h => ?_
    exact conserved.isBound_iff closed own_a own_b

/-! ## Sets -/

theorem Mirrored.owns_images (mirrored : env.Mirrored f env') {hs images : List Handle}
    (own : ∀ h ∈ hs, env.owns h = true) (same : ∀ x, x ∈ images ↔ x ∈ hs.map f) :
    ∀ x ∈ images, env'.owns x = true := by
  intro x hx
  obtain ⟨h, mem, rfl⟩ := List.mem_map.mp ((same x).mp hx)
  exact mirrored.owns (own h mem)

theorem Conserved.crossBound_eq (conserved : env.Conserved f env') (closed : env.Closed)
    (closed' : env'.Closed) {lefts lefts' rights rights' : List Handle}
    (own_lefts : ∀ h ∈ lefts, env.owns h = true) (own_rights : ∀ h ∈ rights, env.owns h = true)
    (same_lefts : ∀ y, y ∈ lefts' ↔ y ∈ lefts.map f)
    (same_rights : ∀ y, y ∈ rights' ↔ y ∈ rights.map f) :
    (env'.crossBound bound lefts' rights').outcome =
      (env.crossBound bound lefts rights).outcome.map (SortedSet.map f) := by
  have own_lefts' := conserved.owns_images own_lefts same_lefts
  have own_rights' := conserved.owns_images own_rights same_rights
  refine (crossBound_yields closed own_lefts own_rights).outcome_eq_map
    (crossBound_yields closed' own_lefts' own_rights') fun h => ?_
  exact conserved.isCrossBound_iff closed own_lefts own_rights same_lefts same_rights

theorem Conserved.extendBound_eq (conserved : env.Conserved f env') (closed : env.Closed)
    (closed' : env'.Closed) {running : HandleSet} {rest : List Handle}
    (own : ∀ h ∈ running, env.owns h = true) (own_rest : ∀ h ∈ rest, env.owns h = true) :
    (env'.extendBound bound (running.map f) (rest.map f)).outcome =
      (env.extendBound bound running rest).outcome.map (SortedSet.map f) := by
  induction rest generalizing running with
  | nil => rfl
  | cons next rest ih =>
    obtain ⟨own_next, own_rest⟩ := List.forall_mem_cons.mp own_rest
    have own_single : ∀ h ∈ [next], env.owns h = true := List.forall_mem_singleton.mpr own_next
    obtain ⟨reduced, done, mem⟩ : (env.crossBound bound running.toList [next]).Yields _ :=
      crossBound_yields closed own own_single
    have same_single (y : Handle) : y ∈ [f next] ↔ y ∈ [next].map f := .rfl
    have done' : (env'.crossBound bound (running.map f).toList [f next]).outcome =
        .ok (reduced.map f) := by
      rw [conserved.crossBound_eq closed closed' own own_single (fun y => SortedSet.mem_toList_map)
        same_single, done]
      rfl
    rw [List.map_cons, extendBound, extendBound, Traced.outcome_bind_of_ok done,
      Traced.outcome_bind_of_ok done', SortedSet.isEmpty_map]
    split
    · rfl
    · exact ih (fun h hh => ((mem h).mp hh).owns closed own own_single) own_rest

theorem Conserved.setBound_eq (conserved : env.Conserved f env') (closed : env.Closed)
    (closed' : env'.Closed)
    (ordered : ∀ a b, env.owns a = true → env.owns b = true → compare a b = .lt →
      compare (f a) (f b) = .lt)
    {types : TypeSet} (own : env.OwnsAll types) :
    (env'.setBound bound (types.map f)).outcome =
      (env.setBound bound types).outcome.map (SortedSet.map f) := by
  cases types with
  | all => rfl
  | finite handles =>
    have images : (handles.map f).toList = handles.toList.map f :=
      SortedSet.toList_map fun a ha b hb => ordered a b (own a ha) (own b hb)
    rw [TypeSet.map, setBound, setBound, images]
    cases order : handles.toList with
    | nil => rfl
    | cons first rest =>
      have own' : ∀ h ∈ first :: rest, env.owns h = true := order ▸ own
      obtain ⟨own_first, own_rest⟩ := List.forall_mem_cons.mp own'
      have start : ∀ h ∈ (.singleton first : HandleSet), env.owns h = true :=
        List.forall_mem_singleton.mpr own_first
      have image : (.singleton (f first) : HandleSet) = (.singleton first : HandleSet).map f :=
        SortedSet.ext fun x => by simp [eq_comm]
      rw [List.map_cons]
      show (env'.extendBound bound (.singleton (f first)) (rest.map f)).outcome = _
      rw [image, conserved.extendBound_eq closed closed' start own_rest]

theorem Conserved.pairwiseBound_eq (conserved : env.Conserved f env') (closed : env.Closed)
    (closed' : env'.Closed) {left right : TypeSet} (own_left : env.OwnsAll left)
    (own_right : env.OwnsAll right) :
    (env'.pairwiseBound bound (left.map f) (right.map f)).outcome =
      (env.pairwiseBound bound left right).outcome.map (TypeSet.map f) := by
  cases left with
  | all =>
    rw [TypeSet.map, pairwiseBound_all_left, pairwiseBound_all_left]
    rfl
  | finite lefts =>
    cases right with
    | all =>
      rw [TypeSet.map, TypeSet.map, pairwiseBound_all_right, pairwiseBound_all_right]
      rfl
    | finite rights =>
      have images (s : HandleSet) (y : Handle) : y ∈ (s.map f).toList ↔ y ∈ s.toList.map f :=
        SortedSet.mem_toList_map
      obtain ⟨bounds, done, mem⟩ := exists_pairwiseBound closed own_left own_right
      obtain ⟨bounds', done', mem'⟩ := exists_pairwiseBound closed'
        (conserved.owns_images own_left (images lefts))
        (conserved.owns_images own_right (images rights))
      rw [TypeSet.map, TypeSet.map, done, done']
      refine congrArg (Except.ok ∘ TypeSet.finite) (SortedSet.ext fun x => ?_)
      rw [mem', SortedSet.mem_map, conserved.isCrossBound_iff closed own_left own_right
        (images lefts) (images rights)]
      simp only [mem, Image]

theorem Conserved.familiesAlike (conserved : env.Conserved f env') (closed : env.Closed)
    (closed' : env'.Closed)
    (ordered : ∀ a b, env.owns a = true → env.owns b = true → compare a b = .lt →
      compare (f a) (f b) = .lt) : env.FamiliesAlike f env' where
  setBound _ _ own := conserved.setBound_eq closed closed' ordered own
  pairwiseBound _ _ _ own_left own_right :=
    conserved.pairwiseBound_eq closed closed' own_left own_right

/-! ## The type at the same place -/

/-- The handle that stands in this environment where the given one stands in its own. -/
def counterpart (env' : Environment) (h : Handle) : Handle := env'.handle h.index

theorem counterpart_inj {a b : Handle} (own_a : env.owns a = true) (own_b : env.owns b = true)
    (same : env'.counterpart a = env'.counterpart b) : a = b := by
  have env_eq : a.env = b.env := (env.owns_iff.mp own_a).1.trans (env.owns_iff.mp own_b).1.symm
  have index_eq : a.index = b.index := (Handle.mk.inj same).2
  cases a
  cases b
  cases env_eq
  cases index_eq
  rfl

theorem compare_counterpart {a b : Handle} (own_a : env.owns a = true) (own_b : env.owns b = true) :
    compare (env'.counterpart a) (env'.counterpart b) = compare a b := by
  have same (n : Nat) : compare n n = .eq := Nat.compare_eq_eq.mpr rfl
  rw [Handle.compare_eq, Handle.compare_eq, (env.owns_iff.mp own_a).1, (env.owns_iff.mp own_b).1]
  show (compare env'.id.number env'.id.number).then (compare a.index b.index) = _
  rw [same, same]

end Environment

end TypeHierarchy
