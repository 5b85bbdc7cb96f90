import TypeHierarchy.Bounds
import TypeHierarchy.Proofs.Transitivity

/-!
# Members below a bound

`Collected a b m` says which types the search of a union `a` for members below `b` is about: the
members below `b` of the unions that it opens, where it opens `a` and every member that is not itself
below `b`.  The search finds exactly these (`membersBelow_yields`), whatever cycles it meets.  A type
that the search remembers is an opened one, and each member of such a type has been put aside or is
remembered in turn.
-/

namespace TypeHierarchy

instance : LawfulMonadLift (Except Violation) Traced where
  monadLift_pure _ := rfl
  monadLift_bind x f := by cases x <;> rfl

namespace Environment

open scoped Classical

/-- The types whose members the search of `a` looks at. -/
inductive Opened (env : Environment) (a b : Handle) : Handle → Prop
  | start : Opened env a b a
  | member {u m : Handle} (opened : Opened env a b u) (step : env.Leads false u m)
      (outside : ¬ env.Below m b) : Opened env a b m

/-- Some opened type has the type as a member. -/
def Offered (env : Environment) (a b m : Handle) : Prop :=
  ∃ u, env.Opened a b u ∧ env.Leads false u m

/-- The type is a member of an opened type and is put aside, because it is below `b`. -/
def Collected (env : Environment) (a b m : Handle) : Prop := env.Offered a b m ∧ env.Below m b

variable {env : Environment} {a b h m : Handle} {s : Shape} {memo middle after : Memo Unit}
  {found found' found'' : List Handle} {p q r : Prop}

theorem Opened.path (opened : env.Opened a b h) : Relation.ReflTransGen (env.Leads false) a h := by
  induction opened with
  | start => exact .refl
  | member _ step _ ih => exact ih.tail step

theorem Offered.path (offered : env.Offered a b m) : Relation.TransGen (env.Leads false) a m := by
  obtain ⟨u, opened, step⟩ := offered
  exact .tail' opened.path step

theorem Opened.owns (opened : env.Opened a b h) (closed : env.Closed) (own_a : env.owns a = true) :
    env.owns h = true := by
  cases opened with
  | start => exact own_a
  | member _ step _ => exact step.owns closed

/-! ## What is put aside and remembered -/

/-- The member has been put aside, or remembered, as it should be. -/
def Placed (env : Environment) (b m : Handle) (memo : Memo Unit) (found : List Handle) : Prop :=
  if env.Below m b then m ∈ found else m ∈ memo

theorem Placed.mono (placed : env.Placed b m memo found) (grows : ∀ x ∈ memo, x ∈ after)
    (keeps : ∀ x ∈ found, x ∈ found') : env.Placed b m after found' := by
  unfold Placed at placed ⊢
  split
  · rw [if_pos ‹_›] at placed
    exact keeps m placed
  · rw [if_neg ‹_›] at placed
    exact grows m placed

/-- A part of the search starts with `memo` and `found` and ends with `after` and `found'`.  Where
`p` holds, it stays within what it should find. -/
structure Gathers (env : Environment) (a b : Handle) (p : Prop) (memo : Memo Unit)
    (found : List Handle) (after : Memo Unit) (found' : List Handle) : Prop where
  grows : ∀ x ∈ memo, x ∈ after
  keeps : ∀ x ∈ found, x ∈ found'
  opened : p → (∀ x ∈ memo, env.Opened a b x) → ∀ x ∈ after, env.Opened a b x
  collected : p → (∀ x ∈ found, env.Collected a b x) → ∀ x ∈ found', env.Collected a b x
  complete : ∀ x ∈ after, x ∉ memo → ∀ m, env.Leads false x m → env.Placed b m after found'

theorem Gathers.refl (env : Environment) (a b : Handle) (p : Prop) (memo : Memo Unit)
    (found : List Handle) : env.Gathers a b p memo found memo found where
  grows _ hx := hx
  keeps _ hx := hx
  opened _ ok := ok
  collected _ ok := ok
  complete _ hx fresh := absurd hx fresh

theorem Gathers.trans (first : env.Gathers a b p memo found middle found')
    (second : env.Gathers a b q middle found' after found'') (rp : r → p) (rq : r → q) :
    env.Gathers a b r memo found after found'' where
  grows x hx := second.grows x (first.grows x hx)
  keeps x hx := second.keeps x (first.keeps x hx)
  opened hr ok := second.opened (rq hr) (first.opened (rp hr) ok)
  collected hr ok := second.collected (rq hr) (first.collected (rp hr) ok)
  complete x hx fresh m step := by
    by_cases early : x ∈ middle
    · exact (first.complete x early fresh m step).mono second.grows second.keeps
    · exact second.complete x hx early m step

/-- Going through the members of a fresh type, with the type remembered before and after. -/
theorem Gathers.visited (hs : env.shape h = .ok s)
    (inner : env.Gathers a b (∀ m ∈ s.members, env.Offered a b m) (memo.insert h ()) found after
      found')
    (placed : ∀ m ∈ s.members, env.Placed b m after found') :
    env.Gathers a b (env.Opened a b h) memo found (after.insert h ()) found' where
  grows x hx := mem_insert_iff.mpr (.inr (inner.grows x (mem_insert_iff.mpr (.inr hx))))
  keeps := inner.keeps
  opened at_h ok x hx := by
    have members (m : Handle) (mem : m ∈ s.members) : env.Offered a b m :=
      ⟨h, at_h, (leads_iff_mem_members hs).mpr mem⟩
    have ok' : ∀ x ∈ memo.insert h (), env.Opened a b x := by
      intro x hx
      rcases mem_insert_iff.mp hx with rfl | hx
      · exact at_h
      · exact ok x hx
    rcases mem_insert_iff.mp hx with rfl | hx
    · exact at_h
    · exact inner.opened members ok' x hx
  collected at_h := inner.collected fun m mem => ⟨h, at_h, (leads_iff_mem_members hs).mpr mem⟩
  complete x hx fresh m step := by
    have later : ∀ y ∈ after, y ∈ after.insert h () := fun y hy => mem_insert_iff.mpr (.inr hy)
    refine Placed.mono ?_ later fun _ hm => hm
    by_cases xh : x = h
    · subst xh
      exact placed m ((leads_iff_mem_members hs).mp step)
    · have entered : x ∈ after := (mem_insert_iff.mp hx).resolve_left xh
      exact inner.complete x entered (fun hm => (mem_insert_iff.mp hm).elim xh fresh) m step

/-! ## The search -/

/-- A part of the search that starts with `memo` gathers what it should, ends where `post` holds,
and meets no violation. -/
def Collects (env : Environment) (a b : Handle) (p : Prop) (post : Memo Unit → List Handle → Prop)
    (memo : Memo Unit) (x : StateT (List Handle) Traced (Unit × Memo Unit)) : Prop :=
  ∀ found, ∃ after found', (x.run found).outcome = .ok (((), after), found') ∧
    env.Gathers a b p memo found after found' ∧ post after found'

/-- The visit of a type opens it. -/
def Explores (env : Environment) (a b h : Handle) (memo : Memo Unit)
    (x : StateT (List Handle) Traced (Unit × Memo Unit)) : Prop :=
  env.Collects a b (env.Opened a b h) (fun after _ => h ∈ after) memo x

variable {visit : Visit (StateT (List Handle) Traced) Unit}

theorem collects_member (closed : env.Closed) (own_m : env.owns m = true)
    (own_b : env.owns b = true)
    (nested : env.Explores a b m memo ((visit m).run memo)) :
    env.Collects a b (env.Offered a b m) (env.Placed b m) memo
      ((do if ← env.isSubtype m b then modifyThe (List Handle) (m :: ·) else visit m :
        StateT (Memo Unit) (StateT (List Handle) Traced) Unit).run memo) := by
  intro found
  simp only [StateT.run_bind, StateT.run_monadLift, bind_assoc, pure_bind, monadLift_self]
  rw [Traced.outcome_bind_of_ok (isSubtype_eq closed own_m own_b)]
  by_cases below : env.Below m b
  · rw [decide_eq_true below, if_pos rfl]
    refine ⟨memo, m :: found, rfl, ⟨fun _ hx => hx, fun x hx => List.mem_cons_of_mem m hx,
      fun _ ok => ok, fun offered ok => ?_, fun x hx fresh => absurd hx fresh⟩, ?_⟩
    · exact List.forall_mem_cons.mpr ⟨⟨offered, below⟩, ok⟩
    · exact (if_pos below).mpr List.mem_cons_self
  · rw [decide_eq_false below, if_neg Bool.false_ne_true]
    obtain ⟨after, found', run, gathers, entered⟩ := nested found
    have opens : env.Offered a b m → env.Opened a b m := fun ⟨_, opened, step⟩ =>
      .member opened step below
    exact ⟨after, found', run, (Gathers.refl env a b (env.Opened a b m) memo found).trans gathers
      opens opens, (if_neg below).mpr entered⟩

theorem collects_forM {f : Handle → StateT (Memo Unit) (StateT (List Handle) Traced) Unit}
    {members : List Handle}
    (each : ∀ m ∈ members, ∀ after, (∀ x ∈ memo, x ∈ after) →
      env.Collects a b (env.Offered a b m) (env.Placed b m) after ((f m).run after)) :
    env.Collects a b (∀ m ∈ members, env.Offered a b m)
      (fun after found => ∀ m ∈ members, env.Placed b m after found) memo
      ((members.forM f).run memo) := by
  induction members generalizing memo with
  | nil =>
    intro found
    refine ⟨memo, found, rfl, .refl .., ?_⟩
    simp
  | cons m members ih =>
    intro found
    have ⟨first, rest⟩ := List.forall_mem_cons.mp each
    obtain ⟨middle, found', run, gathers, placed⟩ := first memo (fun _ hx => hx) found
    have rest' : ∀ m ∈ members, ∀ after, (∀ x ∈ middle, x ∈ after) →
        env.Collects a b (env.Offered a b m) (env.Placed b m) after ((f m).run after) :=
      fun m mem after grows => rest m mem after fun x hx => grows x (gathers.grows x hx)
    obtain ⟨after, found'', run', gathers', placed'⟩ := ih rest' found'
    refine ⟨after, found'', ?_, gathers.trans gathers' ?_ ?_, ?_⟩
    · show (((f m >>= fun _ => members.forM f).run memo).run found).outcome = _
      rw [StateT.run_bind, StateT.run_bind, Traced.outcome_bind_of_ok run]
      exact run'
    · exact fun offered => offered m List.mem_cons_self
    · exact fun offered m mem => offered m (List.mem_cons_of_mem _ mem)
    · exact List.forall_mem_cons.mpr ⟨placed.mono gathers'.grows gathers'.keeps, placed'⟩

theorem collects_visitor (closed : env.Closed) (own_b : env.owns b = true)
    (hs : env.shape h = .ok s)
    (nested : ∀ m after, env.owns m = true → (∀ x ∈ memo, x ∈ after) →
      env.Explores a b m after ((visit m).run after)) :
    env.Collects a b (∀ m ∈ s.members, env.Offered a b m)
      (fun after found => ∀ m ∈ s.members, env.Placed b m after found) memo
      ((env.memberVisitor b visit h s).run memo) := by
  refine collects_forM fun m mem after grows => ?_
  have own_m : env.owns m = true := Leads.owns closed ((leads_iff_mem_members hs).mpr mem)
  exact collects_member closed own_m own_b (nested m after own_m grows)

theorem explores_visitOnce (closed : env.Closed) (own_b : env.owns b = true)
    (own : env.owns h = true) {budget : Nat} (enough : env.unseen memo ≤ budget) :
    env.Explores a b h memo ((env.visitOnce () (env.memberVisitor b) budget h).run memo) := by
  refine visitOnce_rule ?_ ?_ own enough
  · intro h memo _ seen found
    exact ⟨memo, found, rfl, .refl .., mem_of_getElem? seen⟩
  · intro h memo s visit hs _ nested found
    obtain ⟨after, found', run, gathers, placed⟩ := collects_visitor closed own_b hs nested found
    refine ⟨after.insert h (), found', ?_, gathers.visited hs placed, ?_⟩
    · rw [StateT.run_bind, Traced.outcome_bind_of_ok run]
      rfl
    · exact mem_insert_iff.mpr (.inl rfl)

/-- The search finds the members it is about, and no others. -/
theorem membersBelow_yields (closed : env.Closed) (own_a : env.owns a = true)
    (own_b : env.owns b = true) : (env.membersBelow a b).Yields (env.Collected a b) := by
  have enough : env.unseen (∅ : Memo Unit) ≤ env.size := Nat.le_of_eq unseen_empty
  obtain ⟨after, found, run, gathers, entered⟩ :=
    explores_visitOnce (a := a) closed own_b own_a enough []
  refine ⟨.ofList found, Traced.outcome_bind_of_ok run, fun m => ?_⟩
  rw [SortedSet.mem_ofList]
  constructor
  · exact gathers.collected .start (by simp) m
  · rintro ⟨⟨u, opened, step⟩, below⟩
    -- Every opened type is remembered in the end, so its members have been dealt with.
    have remembered : u ∈ after := by
      clear step
      induction opened with
      | start => exact entered
      | member _ step outside ih =>
        have placed := gathers.complete _ ih (by simp) _ step
        exact (if_neg outside).mp placed
    exact (if_pos below).mp (gathers.complete u remembered (by simp) m step)

end Environment

end TypeHierarchy
