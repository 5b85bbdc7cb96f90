import TypeHierarchy.Proofs.Duplicate

/-!
# Clones

A clone is the same environment under a new identity, and each handle of the original has its
counterpart there (`Handle.rebind`).  It is a duplicate (`duplicated_rebind`), so it answers every
query as the original does.  A change asked of both is refused by both, for the same reason, or
leaves a clone of the changed original behind (`Closed.actsAlike`).  So the two go on behaving alike
whatever is done to both (`Workspace.clone_behavesAlike`).
-/

namespace TypeHierarchy

/-- The handle that stands under the second identity where the given one stands under the first.  A
handle of any other environment stays as it is. -/
def Handle.rebind (id id' : EnvId) (h : Handle) : Handle := if h.env = id then ⟨id', h.index⟩ else h

/-- The same error with another handle in it. -/
def RegistryError.mapHandles (f : Handle → Handle) : RegistryError → RegistryError
  | duplicateName name => duplicateName name
  | unknownName name => unknownName name
  | foreignType h => foreignType (f h)

/-- The same violation; only a registry error has a handle in it. -/
def Violation.mapHandles (f : Handle → Handle) : Violation → Violation
  | registry error => registry (error.mapHandles f)
  | other => other

/-- The same declaration with another base. -/
def Declaration.mapHandles (f : Handle → Handle) : Declaration → Declaration
  | subset base => subset (f base)
  | union => union
  | record => record

theorem Shape.mapHandles_congr {f g : Handle → Handle} {s : Shape}
    (same : ∀ r ∈ s.references, f r = g r) : s.mapHandles f = s.mapHandles g := by
  cases s with
  | constant kind => rfl
  | subset base primitive => rw [mapHandles, mapHandles, same base List.mem_cons_self]
  | union members => exact congrArg union (List.map_congr_left same)
  | record fields =>
    refine congrArg record (List.map_congr_left fun field mem => ?_)
    rw [same field.type (List.mem_map_of_mem mem)]

@[simp] theorem Declaration.shape_mapHandles (f : Handle → Handle) (declaration : Declaration) :
    (declaration.mapHandles f).shape = declaration.shape.mapHandles f := by
  cases declaration <;> rfl

namespace Shape

variable {s s' : Shape}

theorem references_withMember {member : Handle} (made : s.withMember member = .ok s') :
    s'.references = s.references ++ [member] := by
  obtain ⟨members, rfl, rfl⟩ := withMember_eq_ok_iff.mp made
  rfl

theorem references_withField {field : Field} (made : s.withField field = .ok s') :
    s'.references = s.references ++ [field.type] := by
  obtain ⟨fields, rfl, rfl⟩ := withField_eq_ok_iff.mp made
  simp [references]

theorem withMember_mapHandles (f : Handle → Handle) (s : Shape) (member : Handle) :
    (s.mapHandles f).withMember (f member) =
      ((s.withMember member).map (mapHandles f)).mapError (Violation.mapHandles f) := by
  cases s with
  | union members =>
    show Except.ok (union (members.map f ++ [f member])) = .ok (union ((members ++ [member]).map f))
    rw [List.map_append, List.map_singleton]
  | constant | record => rfl
  | subset base primitive => cases primitive <;> rfl

theorem withField_mapHandles (f : Handle → Handle) (s : Shape) (field : Field) :
    (s.mapHandles f).withField { field with type := f field.type } =
      ((s.withField field).map (mapHandles f)).mapError (Violation.mapHandles f) := by
  cases s with
  | record fields =>
    show _ = Except.ok (record ((fields ++ [field]).map _))
    rw [List.map_append, List.map_singleton]
    rfl
  | constant | union => rfl
  | subset base primitive => cases primitive <;> rfl

end Shape

namespace Environment

/-- A change asked of both environments, about corresponding handles, comes out alike: with
corresponding answers or for corresponding reasons, with the same lines, and however it ends the second
environment is still the first under its own identity.  Handles that belong to the second environment
correspond to none. -/
structure ActsAlike (env : Environment) (f : Handle → Handle) (env' : Environment) : Prop where
  tryDeclare : ∀ (name : String) (declaration : Declaration),
    (∀ r ∈ declaration.shape.references, r.env ≠ env'.id) →
    env'.tryDeclare name (declaration.mapHandles f) =
      (env.tryDeclare name declaration).map f (RegistryError.mapHandles f) (rebind · env'.id)
  declare : ∀ (name : String) (declaration : Declaration),
    (∀ r ∈ declaration.shape.references, r.env ≠ env'.id) →
    env'.declare name (declaration.mapHandles f) =
      (env.declare name declaration).map f (Violation.mapHandles f) (rebind · env'.id)
  addMember : ∀ union member : Handle, union.env ≠ env'.id → member.env ≠ env'.id →
    env'.addMember (f union) (f member) =
      (env.addMember union member).map (fun n => n) (Violation.mapHandles f) (rebind · env'.id)
  addField : ∀ (record : Handle) (name : String) (type : Handle), record.env ≠ env'.id →
    type.env ≠ env'.id →
    env'.addField (f record) name (f type) =
      (env.addField record name type).map (fun n => n) (Violation.mapHandles f) (rebind · env'.id)

/-- All queries and all changes come out alike. -/
structure BehavesAlike (env : Environment) (f : Handle → Handle) (env' : Environment) : Prop where
  answers : env.AnswersAlike f env'
  families : env.FamiliesAlike f env'
  texts : env.TextsAlike f env'
  acts : env.ActsAlike f env'

open Update

variable {env env' : Environment} {id : EnvId} {h : Handle} {s : Shape} {name : String}
  {declaration : Declaration}

/-! ## The same types under another identity -/

@[simp] theorem size_rebind (env : Environment) (id : EnvId) : (env.rebind id).size = env.size := by
  simp [size, rebind]

@[simp] theorem isRegistered_rebind (env : Environment) (id : EnvId) (name : String) :
    (env.rebind id).isRegistered name = env.isRegistered name := by
  simp [isRegistered, find?, rebind, Function.comp_def]

@[simp] theorem index_rebind (id id' : EnvId) (h : Handle) : (h.rebind id id').index = h.index := by
  unfold Handle.rebind
  split <;> rfl

theorem rebind_of_owns (own : env.owns h = true) :
    h.rebind env.id id = (env.rebind id).counterpart h := if_pos (env.owns_iff.mp own).1

theorem owns_rebind (other : h.env ≠ id) :
    (env.rebind id).owns (h.rebind env.id id) = env.owns h := by
  unfold owns Handle.rebind
  rw [size_rebind]
  by_cases here : h.env = env.id
  · simp [here, rebind]
  · simp [here, other, rebind]

/-- A shape that refers to types of the environment only has all its handles replaced. -/
theorem mapHandles_rebind (own : ∀ r ∈ s.references, env.owns r = true) :
    s.mapHandles (Handle.rebind env.id id) = s.mapHandles (env.rebind id).counterpart :=
  Shape.mapHandles_congr fun r mem => rebind_of_owns (own r mem)

theorem duplicated_rebind (closed : env.Closed) (id : EnvId) :
    env.Duplicated (Handle.rebind env.id id) (env.rebind id) where
  injective own_a own_b same := by
    rw [rebind_of_owns own_a, rebind_of_owns own_b] at same
    exact counterpart_inj own_a own_b same
  entry {h e} found := by
    obtain ⟨same, found⟩ := entry_eq_ok_iff.mp found
    have own : env.owns h = true :=
      env.owns_iff.mpr ⟨same, (Array.getElem?_eq_some_iff.mp found).1⟩
    rw [rebind_of_owns own, mapHandles_rebind (closed e (Array.mem_of_getElem? found))]
    refine entry_eq_ok_iff.mpr ⟨rfl, ?_⟩
    show (env.rebind id).entries[h.index]? = _
    rw [rebind, Array.getElem?_map, found]
    rfl
  onto {x} own := by
    obtain ⟨same, bound⟩ := (owns_iff _).mp own
    rw [size_rebind] at bound
    have own_h : env.owns (env.handle x.index) = true := env.owns_iff.mpr ⟨rfl, bound⟩
    refine ⟨env.handle x.index, own_h, ?_⟩
    rw [rebind_of_owns own_h]
    show (env.rebind id).handle x.index = x
    rw [handle, ← same]

/-! ## Changes -/

theorem push_rebind (own : ∀ r ∈ s.references, env.owns r = true) :
    (⟨id, (env.rebind id).entries.push ⟨name, s.mapHandles (Handle.rebind env.id id)⟩⟩ :
      Environment) = (⟨env.id, env.entries.push ⟨name, s⟩⟩ : Environment).rebind id := by
  rw [mapHandles_rebind own]
  simp only [rebind, Array.map_push]
  rfl

theorem setShape_rebind (own : ∀ r ∈ s.references, env.owns r = true) :
    (env.rebind id).setShape (h.rebind env.id id) (s.mapHandles (Handle.rebind env.id id)) =
      (env.setShape h s).rebind id := by
  rw [mapHandles_rebind own]
  simp only [setShape, rebind, index_rebind]
  refine congrArg (Environment.mk id) (Array.ext_getElem? fun i => ?_)
  simp only [Array.getElem?_modify, Array.getElem?_map]
  split
  · cases env.entries[i]? <;> rfl
  · rfl

theorem register_rebind (own : ∀ r ∈ s.references, env.owns r = true) :
    (env.rebind id).register name (s.mapHandles (Handle.rebind env.id id)) =
      (env.register name s).map (Handle.rebind env.id id)
        (RegistryError.mapHandles (Handle.rebind env.id id)) (rebind · id) := by
  cases taken : env.isRegistered name with
  | true => rw [register_of_taken taken, register_of_taken ((isRegistered_rebind ..).trans taken)]; rfl
  | false =>
    have last : (env.rebind id).handle env.size = (env.handle env.size).rebind env.id id :=
      (if_pos rfl).symm
    rw [register_of_free taken, register_of_free ((isRegistered_rebind ..).trans taken), size_rebind,
      last, Shape.label_mapHandles]
    exact congrArg (Changed.mk _ _) (push_rebind own)

theorem tryDeclare_rebind (other : ∀ r ∈ declaration.shape.references, r.env ≠ id) :
    (env.rebind id).tryDeclare name (declaration.mapHandles (Handle.rebind env.id id)) =
      (env.tryDeclare name declaration).map (Handle.rebind env.id id)
        (RegistryError.mapHandles (Handle.rebind env.id id)) (rebind · id) := by
  rcases env.foreign_or_own declaration with ⟨base, rfl, foreign⟩ | own
  · have foreign' := (owns_rebind (other base List.mem_cons_self)).trans foreign
    rw [tryDeclare_of_foreign foreign, Declaration.mapHandles, tryDeclare_of_foreign foreign']
    rfl
  · have own' : ∀ r ∈ (declaration.mapHandles (Handle.rebind env.id id)).shape.references,
        (env.rebind id).owns r = true := by
      simp only [Declaration.shape_mapHandles, Shape.references_mapHandles, List.forall_mem_map]
      exact fun r mem => (owns_rebind (other r mem)).trans (own r mem)
    rw [tryDeclare_of_own own, tryDeclare_of_own own', Declaration.shape_mapHandles]
    exact register_rebind own

theorem declare_rebind (other : ∀ r ∈ declaration.shape.references, r.env ≠ id) :
    (env.rebind id).declare name (declaration.mapHandles (Handle.rebind env.id id)) =
      (env.declare name declaration).map (Handle.rebind env.id id)
        (Violation.mapHandles (Handle.rebind env.id id)) (rebind · id) := by
  rw [declare, declare, Update.mapError, Update.mapError, tryDeclare_rebind other]
  rcases env.tryDeclare name declaration with ⟨_ | _, _, _⟩ <;> rfl

/-- Both environments check the handles that are to be put together. -/
theorem requireBoth_rebind {target part : Handle} (other : target.env ≠ id)
    (other' : part.env ≠ id) :
    (env.rebind id).requireBoth (target.rebind env.id id) (part.rebind env.id id) =
      (env.requireBoth target part).map (fun u => u)
        (Violation.mapHandles (Handle.rebind env.id id)) (rebind · id) := by
  simp only [requireBoth_eq, requireOwn, owns_rebind other, owns_rebind other']
  cases env.owns target <;> cases env.owns part <;> rfl

/-- Where larger shapes correspond, and hold one more handle, both environments put them in place. -/
theorem enlarge_rebind (closed : env.Closed) {target part : Handle}
    {larger larger' : Shape → Except Violation Shape} (own : env.owns target = true)
    (own' : env.owns part = true)
    (adds : ∀ {s s'}, larger s = .ok s' → s'.references = s.references ++ [part])
    (alike : ∀ s, larger' (s.mapHandles (Handle.rebind env.id id)) =
      ((larger s).map (Shape.mapHandles (Handle.rebind env.id id))).mapError
        (Violation.mapHandles (Handle.rebind env.id id))) :
    (env.rebind id).enlarge (target.rebind env.id id) larger' =
      (env.enlarge target larger).map (fun n => n)
        (Violation.mapHandles (Handle.rebind env.id id)) (rebind · id) := by
  obtain ⟨s, shape⟩ := exists_shape own
  have shape' := (duplicated_rebind closed id).shape_eq_ok shape
  have same := alike s
  cases made : larger s with
  | error violation =>
    rw [made] at same
    rw [enlarge_of_error shape made, enlarge_of_error shape' same]
    rfl
  | ok s' =>
    rw [made] at same
    have owned : ∀ r ∈ s'.references, env.owns r = true := by
      rw [adds made]
      exact List.forall_mem_append.mpr
        ⟨fun r mem => closed.owns_of_mem shape mem, List.forall_mem_singleton.mpr own'⟩
    rw [enlarge_of_ok shape made, enlarge_of_ok shape' same, Shape.references_mapHandles,
      List.length_map, setShape_rebind owned]
    rfl

theorem addMember_rebind (closed : env.Closed) {union member : Handle} (other : union.env ≠ id)
    (other' : member.env ≠ id) :
    (env.rebind id).addMember (union.rebind env.id id) (member.rebind env.id id) =
      (env.addMember union member).map (fun n => n)
        (Violation.mapHandles (Handle.rebind env.id id)) (rebind · id) := by
  refine bind_eq_map (requireBoth_rebind other other') fun _ checked => ?_
  obtain ⟨own, own', -⟩ := gives_requireBoth_iff.mp ⟨checked, rfl⟩
  rw [keeps_requireBoth]
  refine bind_eq_map (enlarge_rebind closed own own' Shape.references_withMember
    fun s => s.withMember_mapHandles _ member) fun n _ => ?_
  simp only [index_rebind]
  rfl

theorem addField_rebind (closed : env.Closed) {record type : Handle} (other : record.env ≠ id)
    (other' : type.env ≠ id) :
    (env.rebind id).addField (record.rebind env.id id) name (type.rebind env.id id) =
      (env.addField record name type).map (fun n => n)
        (Violation.mapHandles (Handle.rebind env.id id)) (rebind · id) := by
  refine bind_eq_map (requireBoth_rebind other other') fun _ checked => ?_
  obtain ⟨own, own', -⟩ := gives_requireBoth_iff.mp ⟨checked, rfl⟩
  rw [keeps_requireBoth, index_rebind]
  refine bind_eq_map (emit_eq_map _ _ (rebind · id) env) fun _ _ => ?_
  refine bind_eq_map (enlarge_rebind closed own own' Shape.references_withField
    fun s => s.withField_mapHandles _ ⟨name, type⟩) fun n _ => ?_
  rfl

theorem Closed.actsAlike (closed : env.Closed) (id : EnvId) :
    env.ActsAlike (Handle.rebind env.id id) (env.rebind id) where
  tryDeclare _ _ other := tryDeclare_rebind other
  declare _ _ other := declare_rebind other
  addMember _ _ other other' := addMember_rebind closed other other'
  addField _ _ _ other other' := addField_rebind closed other other'

theorem Arranged.behavesAlike (arranged : env.Arranged) (id : EnvId) :
    env.BehavesAlike (Handle.rebind env.id id) (env.rebind id) := by
  have duplicated := duplicated_rebind arranged.closed id
  have arranged' := arranged.rebind id
  refine ⟨duplicated.conserved.answersAlike arranged arranged', ?_,
    duplicated.textsAlike arranged arranged', arranged.closed.actsAlike id⟩
  refine duplicated.conserved.familiesAlike arranged.closed arranged'.closed ?_
  intro a b own_a own_b before
  rwa [rebind_of_owns own_a, rebind_of_owns own_b, compare_counterpart own_a own_b]

end Environment

namespace Workspace

open Environment Update

variable {w : Workspace} {slot : Nat} {env : Environment}

/-- A clone behaves like its original, and the two go on doing so while both are changed alike. -/
theorem clone_behavesAlike (reachable : w.Reachable) (found : w.environment slot = .ok env) :
    (w.perform (.clone slot)).Gives (.opened w.environments.size) (w.push (env.rebind w.nextId)) ∧
    (∀ h, env.owns h = true → h.env ≠ w.nextId) ∧
    ∀ grown, Relation.ReflTransGen Change env grown →
      grown.BehavesAlike (Handle.rebind env.id w.nextId) (grown.rebind w.nextId) := by
  have slotted := getElem?_of_environment found
  have arranged := reachable.arranged.each slotted
  refine ⟨by simp [perform, gives_bind_iff, found], fun h own same => ?_, fun grown changes => ?_⟩
  · have here : h.env = ⟨slot⟩ :=
      (env.owns_iff.mp own).1.trans (reachable.arranged.numbered slotted)
    have number : w.environments.size = slot := congrArg EnvId.number (same.symm.trans here)
    have bound := (Array.getElem?_eq_some_iff.mp slotted).1
    omega
  · have kept : grown.id = env.id ∧ grown.Arranged := by
      induction changes with
      | refl => exact ⟨rfl, arranged⟩
      | tail _ change ih => exact ⟨change.grows.id.trans ih.1, change.arranged ih.2⟩
    exact kept.1 ▸ kept.2.behavesAlike w.nextId

/-- A union of a number and a record, and the record's one field leads back to the union. -/
def ring : Environment :=
  { initial ⟨0⟩ with entries := (initial ⟨0⟩).entries ++
      #[⟨"Ring", .union [⟨⟨0⟩, 9⟩, ⟨⟨0⟩, 4⟩]⟩, ⟨"Bead", .record [⟨"next", ⟨⟨0⟩, 8⟩⟩]⟩] }

/-- In the clone the ring has the same qualifier, and the number below it the same bounds with it.
A second field goes into the record as it would in the original, the record is recursive after that,
and a base from elsewhere is refused. -/
theorem clone_behavesAlike_ring :
    ∃ w : Workspace, w.Reachable ∧ w.environment 0 = .ok ring ∧
      (w.perform (.clone 0)).Gives (.opened 1) (w.push (ring.rebind ⟨1⟩)) ∧
      (ring.rebind ⟨1⟩).qualifier ⟨⟨1⟩, 8⟩ = ring.qualifier ⟨⟨0⟩, 8⟩ ∧
      ((ring.rebind ⟨1⟩).pairBound .greatest ⟨⟨1⟩, 8⟩ ⟨⟨1⟩, 4⟩).outcome =
        .ok (.singleton ⟨⟨1⟩, 4⟩) ∧
      ((ring.rebind ⟨1⟩).tryDeclare "Odd" (.subset ⟨⟨7⟩, 4⟩)).outcome =
        .error (.foreignType ⟨⟨7⟩, 4⟩) ∧
      ((ring.rebind ⟨1⟩).tryDeclare "Odd" (.subset ⟨⟨7⟩, 4⟩)).state = ring.rebind ⟨1⟩ ∧
      ∃ grown : Environment, ((ring.rebind ⟨1⟩).addField ⟨⟨1⟩, 9⟩ "last" ⟨⟨1⟩, 9⟩).Gives 2
          (grown.rebind ⟨1⟩) ∧ (grown.rebind ⟨1⟩).isRecursive ⟨⟨1⟩, 9⟩ = .ok true := by
  let w : Workspace := run {} [.create, .declare 0 "Ring" .union, .declare 0 "Bead" .record,
    .addMember 0 ⟨⟨0⟩, 8⟩ ⟨⟨0⟩, 9⟩, .addMember 0 ⟨⟨0⟩, 8⟩ ⟨⟨0⟩, 4⟩,
    .addField 0 ⟨⟨0⟩, 9⟩ "next" ⟨⟨0⟩, 8⟩]
  have reachable : w.Reachable := .run .empty _
  have found : w.environment 0 = .ok ring := eq_ok_of_toOption (by decide +kernel)
  have size : w.environments.size = 1 := by decide +kernel
  let grown : Environment := ring.setShape ⟨⟨0⟩, 9⟩
    (.record [⟨"next", ⟨⟨0⟩, 8⟩⟩, ⟨"last", ⟨⟨0⟩, 9⟩⟩])
  have added : (ring.addField ⟨⟨0⟩, 9⟩ "last" ⟨⟨0⟩, 9⟩).Gives 2 grown :=
    ⟨eq_ok_of_toOption (by decide +kernel), by decide +kernel⟩
  have bound : (ring.pairBound .greatest ⟨⟨0⟩, 8⟩ ⟨⟨0⟩, 4⟩).outcome = .ok (.singleton ⟨⟨0⟩, 4⟩) :=
    eq_ok_of_toOption (by decide +kernel)
  have recursive : grown.isRecursive ⟨⟨0⟩, 9⟩ = .ok true := eq_ok_of_toOption (by decide +kernel)
  obtain ⟨cloned, -, alike⟩ := clone_behavesAlike reachable found
  rw [nextId, size] at cloned alike
  obtain ⟨answers, -, texts, acts⟩ := alike ring .refl
  have own : ring.owns ⟨⟨0⟩, 8⟩ = true := by decide
  have own_number : ring.owns ⟨⟨0⟩, 4⟩ = true := by decide
  have own_bead : grown.owns ⟨⟨0⟩, 9⟩ = true := by decide
  have later := alike grown (.single (.of_addField added))
  have refused := acts.tryDeclare "Odd" (.subset ⟨⟨7⟩, 4⟩) (by decide)
  refine ⟨w, reachable, found, cloned, texts.qualifier own, ?_, congrArg Changed.outcome refused,
    congrArg Changed.state refused, grown, ?_, ?_⟩
  · refine (answers.pairBound .greatest own own_number).trans ?_
    rw [bound]
    rfl
  · have alike := acts.addField ⟨⟨0⟩, 9⟩ "last" ⟨⟨0⟩, 9⟩ (by decide) (by decide)
    refine ⟨(congrArg Changed.outcome alike).trans ?_, (congrArg Changed.state alike).trans ?_⟩
    · rw [Changed.map, added.outcome]
      rfl
    · exact congrArg (Environment.rebind · ⟨1⟩) added.state
  · exact (later.answers.isRecursive own_bead).trans recursive

end Workspace

end TypeHierarchy
