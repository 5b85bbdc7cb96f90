import TypeHierarchy.Proofs.Spelling
import TypeHierarchy.Proofs.Transfer
import TypeHierarchy.Rendering

/-!
# Copies

A copy keeps what a mirror image need not: names, and the order of members and fields (`Copied`).  So
it keeps the texts as well, which are the same for a type and its image (`Copied.qualifier_eq`,
`Copied.showType_eq`).
-/

namespace TypeHierarchy

namespace Shape

variable (f : Handle → Handle) (s : Shape)

theorem mirrored_mapHandles : s.Mirrored f (s.mapHandles f) := by
  cases s with
  | constant kind => exact .constant kind
  | subset base primitive => exact .subset base primitive
  | union members => exact .union fun x => .rfl
  | record fields => exact .record fun x => by simp

theorem successors_mapHandles (throughFields : Bool) :
    (s.mapHandles f).successors throughFields = (s.successors throughFields).map f := by
  cases s with
  | constant | subset | union => rfl
  | record fields => cases throughFields <;> simp [mapHandles, successors]

theorem spell_mapHandles (head : String) (texts : List String) :
    (s.mapHandles f).spell head texts = s.spell head texts := by
  cases s with
  | constant | subset | union => rfl
  | record fields => simp [mapHandles, spell, List.zipWith_map_left]

end Shape

namespace Environment

/-- The second environment has each type of the first under the same name, made of the images in the
same order. -/
structure Copied (env : Environment) (f : Handle → Handle) (env' : Environment) : Prop where
  injective : ∀ {a b : Handle}, env.owns a = true → env.owns b = true → f a = f b → a = b
  entry : ∀ {h : Handle} {e : Entry}, env.entry h = .ok e →
    env'.entry (f h) = .ok { e with shape := e.shape.mapHandles f }

/-- What is remembered for images of types is what is remembered for the types. -/
def Recalls (env : Environment) (f : Handle → Handle) (seen seen' : Handle → Option String) : Prop :=
  ∀ x, env.owns x = true → seen' (f x) = seen x

variable {env env' : Environment} {f : Handle → Handle} {h : Handle} {s : Shape} {hs : List Handle}
  {texts : List String} {seen seen' after : Handle → Option String}

namespace Copied

theorem name_eq (copied : env.Copied f env') (own : env.owns h = true) :
    env'.name (f h) = env.name h := by
  obtain ⟨e, he⟩ := env.exists_entry own
  rw [name, name, he, copied.entry he]
  rfl

theorem shape_eq_ok (copied : env.Copied f env') (hs : env.shape h = .ok s) :
    env'.shape (f h) = .ok (s.mapHandles f) := by
  obtain ⟨e, he⟩ := env.exists_entry (owns_of_shape hs)
  rw [shape, he] at hs
  cases hs
  rw [shape, copied.entry he]
  rfl

theorem mirrored (copied : env.Copied f env') : env.Mirrored f env' where
  injective := copied.injective
  shape hs := ⟨_, copied.shape_eq_ok hs, Shape.mirrored_mapHandles f _⟩

/-! ## Qualifiers -/

theorem qualifierHead_eq (copied : env.Copied f env') (arranged : env.Arranged)
    (arranged' : env'.Arranged) (own : env.owns h = true) :
    env'.qualifierHead (f h) = env.qualifierHead h := by
  rw [qualifierHead, qualifierHead, copied.name_eq own, attributeOf_eq arranged.closed own,
    attributeOf_eq arranged'.closed (copied.mirrored.owns own),
    copied.mirrored.firstKind?_eq arranged arranged' own]

theorem recalls_update (copied : env.Copied f env') (recalls : env.Recalls f seen seen')
    (own : env.owns h = true) (text : Option String) :
    env.Recalls f (Function.update seen h text) (Function.update seen' (f h) text) := by
  intro x own_x
  by_cases same : x = h
  · subst same
    rw [Function.update_self, Function.update_self]
  · have apart : f x ≠ f h := fun image => same (copied.injective own_x own image)
    rw [Function.update_of_ne same, Function.update_of_ne apart]
    exact recalls x own_x

theorem exists_spells (copied : env.Copied f env') (arranged : env.Arranged)
    (arranged' : env'.Arranged) (spells : env.Spells seen hs texts after)
    (own : ∀ h ∈ hs, env.owns h = true) (recalls : env.Recalls f seen seen') :
    ∃ after', env'.Spells seen' (hs.map f) texts after' ∧ env.Recalls f after after' := by
  induction spells generalizing seen' with
  | nil => exact ⟨seen', .nil _, recalls⟩
  | seen found _ ih =>
    obtain ⟨own_h, own_hs⟩ := List.forall_mem_cons.mp own
    obtain ⟨after', spells', recalls'⟩ := ih own_hs recalls
    exact ⟨after', .seen ((recalls _ own_h).trans found) spells', recalls'⟩
  | @fresh _ _ _ h _ s head parts _ missing shape headed _ _ ih ih' =>
    obtain ⟨own_h, own_hs⟩ := List.forall_mem_cons.mp own
    have own_parts : ∀ next ∈ s.successors true, env.owns next = true := fun next mem =>
      Leads.owns arranged.closed ((leads_iff shape).mpr mem)
    obtain ⟨middle', inner, recalls_middle⟩ :=
      ih own_parts (copied.recalls_update recalls own_h (some head))
    obtain ⟨after', rest, recalls'⟩ :=
      ih' own_hs (copied.recalls_update recalls_middle own_h (some (s.spell head parts)))
    refine ⟨after', ?_, recalls'⟩
    rw [← Shape.successors_mapHandles] at inner
    rw [← Shape.spell_mapHandles f] at rest ⊢
    exact .fresh ((recalls h own_h).trans missing) (copied.shape_eq_ok shape)
      ((copied.qualifierHead_eq arranged arranged' own_h).trans headed) inner rest

theorem qualifier_eq (copied : env.Copied f env') (arranged : env.Arranged)
    (arranged' : env'.Arranged) (own : env.owns h = true) :
    env'.qualifier (f h) = env.qualifier h := by
  obtain ⟨text, after, here, spells⟩ := exists_qualifier_spells arranged.closed own
  obtain ⟨text', after', there, spells'⟩ :=
    exists_qualifier_spells arranged'.closed (copied.mirrored.owns own)
  have nothing : env.Recalls f (fun _ => none) (fun _ => none) := fun _ _ => rfl
  obtain ⟨_, image, -⟩ :=
    copied.exists_spells arranged arranged' spells (by simpa using own) nothing
  obtain ⟨same, -⟩ := image.unique spells'
  cases same
  rw [here, there]

/-! ## Declarations as shown -/

theorem showType_eq (copied : env.Copied f env') (closed : env.Closed) (own : env.owns h = true) :
    env'.showType (f h) = env.showType h := by
  obtain ⟨s, hs⟩ := exists_shape own
  have named (r : Handle) (mem : r ∈ s.references) : env'.name (f r) = env.name r :=
    copied.name_eq (closed.owns_of_mem hs mem)
  rw [showType, showType, copied.name_eq own, copied.shape_eq_ok hs, hs]
  cases s with
  | constant kind => rfl
  | subset base primitive =>
    simp only [Shape.mapHandles, ok_bind, named base List.mem_cons_self]
  | union members =>
    have names : (members.map f).mapM env'.name = members.mapM env.name :=
      List.mapM_map.trans (mapM_congr named)
    simp only [Shape.mapHandles, ok_bind, names]
  | record fields =>
    cases fields with
    | nil => rfl
    | cons field fields =>
      have texts : ((field :: fields).map fun field => { field with type := f field.type }).mapM
          (fun field => do return field.name ++ " : " ++ (← env'.name field.type)) =
          (field :: fields).mapM fun field => do
            return field.name ++ " : " ++ (← env.name field.type) :=
        List.mapM_map.trans <| mapM_congr fun field mem => by
          simp only [Function.comp_apply, named field.type (List.mem_map_of_mem mem)]
      rw [List.map_cons] at texts
      simp only [Shape.mapHandles, ok_bind, List.map_cons, texts]

end Copied

end Environment

end TypeHierarchy
