import TypeHierarchy.Proofs.Sketch

/-!
# The order of registration

Two environments may declare the same types in different orders.  Each type then has a namesake in
the other environment (`namesake`), and one environment is a duplicate of the other along namesakes
(`Arranged.duplicated_namesake`).  So no answer about single types and pairs depends on the order,
and neither does any text (`registration_order`).
-/

namespace TypeHierarchy

/-- Two lists that agree key by key agree along any function that takes an element to the one with
the same key. -/
theorem map_eq_of_keys {α β κ : Type} {f : α → β} {key : α → κ} {key' : β → κ} {l : List α}
    {l' : List β} (same : l.map key = l'.map key')
    (paired : ∀ a ∈ l, ∀ b ∈ l', key a = key' b → f a = b) : l.map f = l' := by
  induction l generalizing l' with
  | nil => exact (List.map_eq_nil_iff.mp same.symm).symm
  | cons a l ih =>
    cases l' with
    | nil => cases same
    | cons b l' =>
      obtain ⟨head, tail⟩ := List.cons.inj same
      rw [List.map_cons, paired a List.mem_cons_self b List.mem_cons_self head, ih tail]
      intro a mem b mem'
      exact paired a (List.mem_cons_of_mem _ mem) b (List.mem_cons_of_mem _ mem')

theorem mem_iff_of_mapM {ε α β : Type} {f : α → Except ε β} {l : List α} {ys : List β}
    (done : l.mapM f = .ok ys) {y : β} : y ∈ ys ↔ ∃ x ∈ l, f x = .ok y := by
  induction l generalizing ys with
  | nil =>
    cases done
    simp
  | cons a l ih =>
    rw [List.mapM_cons] at done
    obtain ⟨b, head, done⟩ := bind_eq_ok_iff.mp done
    obtain ⟨bs, tail, done⟩ := bind_eq_ok_iff.mp done
    cases done
    simp only [List.mem_cons, ih tail, exists_eq_or_imp, head, Except.ok.injEq, @eq_comm β b y]

namespace Environment

/-- The environment has a type of this name and this make. -/
def Declares (env : Environment) (name : String) (sketch : Sketch) : Prop :=
  ∃ h, env.name h = .ok name ∧ env.sketch h = .ok sketch

/-- All types by name and make, in registration order. -/
def declarations (env : Environment) : Except Violation (List (String × Sketch)) :=
  env.handles.mapM fun h => return (← env.name h, ← env.sketch h)

/-- The type of the second environment that has the name of the given one. -/
def namesake (env env' : Environment) (h : Handle) : Handle :=
  ((env.name h).toOption.bind env'.find?).getD h

variable {env env' : Environment} {h x : Handle} {s : Shape} {name : String}

theorem declares_iff_mem {listed : List (String × Sketch)} (done : env.declarations = .ok listed)
    {sketch : Sketch} : env.Declares name sketch ↔ (name, sketch) ∈ listed := by
  rw [mem_iff_of_mapM done]
  constructor
  · rintro ⟨h, named, sketched⟩
    refine ⟨h, env.mem_handles.mpr (owns_of_name named), ?_⟩
    rw [named, sketched]
    rfl
  · rintro ⟨h, -, pair⟩
    obtain ⟨name', named, pair⟩ := bind_eq_ok_iff.mp pair
    obtain ⟨sketch', sketched, pair⟩ := bind_eq_ok_iff.mp pair
    cases pair
    exact ⟨h, named, sketched⟩

/-! ## What a name says -/

theorem Arranged.name_constant (arranged : env.Arranged) {kind : Kind}
    (named : env.name h = .ok name) (hs : env.shape h = .ok (.constant kind)) :
    name = kind.constantName := by
  obtain ⟨-, s, found⟩ := name_eq_ok_iff.mp named
  obtain ⟨-, name', found'⟩ := shape_eq_ok_iff.mp hs
  cases found.symm.trans found'
  have constant := arranged.constants kind
  rw [← arranged.only_constants found, found] at constant
  exact congrArg Entry.name (Option.some.inj constant)

/-- Being a primitive shows in the name. -/
theorem Arranged.primitive_iff (arranged : env.Arranged) {base : Handle} {primitive : Bool}
    (named : env.name h = .ok name) (hs : env.shape h = .ok (.subset base primitive)) :
    primitive = true ↔ ∃ kind : Kind, name = kind.primitiveName := by
  obtain ⟨-, s, found⟩ := name_eq_ok_iff.mp named
  obtain ⟨-, name', found'⟩ := shape_eq_ok_iff.mp hs
  cases found.symm.trans found'
  constructor
  · rintro rfl
    obtain ⟨kind, place⟩ := arranged.only_primitives found
    have primitive := arranged.primitives kind
    rw [← place, found] at primitive
    exact ⟨kind, congrArg Entry.name (Option.some.inj primitive)⟩
  · rintro ⟨kind, rfl⟩
    have primitive := arranged.primitives kind
    rw [← arranged.distinct found primitive rfl, found] at primitive
    cases primitive
    rfl

/-! ## Namesakes -/

theorem Arranged.namesake_eq (arranged' : env'.Arranged) (named : env.name h = .ok name)
    (named' : env'.name x = .ok name) : env.namesake env' h = x := by
  rw [namesake, named]
  show (env'.find? name).getD h = x
  rw [arranged'.find?_eq_some_iff.mpr named']
  rfl

/-- Types of one name and one sketch are made of namesakes. -/
theorem Arranged.shape_namesake (arranged : env.Arranged) (arranged' : env'.Arranged) {s' : Shape}
    (named : env.name h = .ok name) (named' : env'.name x = .ok name)
    (hs : env.shape h = .ok s) (hs' : env'.shape x = .ok s')
    (same : env.sketch h = env'.sketch x) : s' = s.mapHandles (env.namesake env') := by
  obtain ⟨text, names⟩ := env.exists_names
  obtain ⟨text', names'⟩ := env'.exists_names
  have paired (a b : Handle) (ha : a ∈ s.references) (hb : b ∈ s'.references)
      (key : text a = text' b) : env.namesake env' a = b := by
    have named_a := names a (arranged.closed.owns_of_mem hs ha)
    have named_b := names' b (arranged'.closed.owns_of_mem hs' hb)
    exact arranged'.namesake_eq named_a (key ▸ named_b)
  rw [sketch_eq arranged.closed names hs, sketch_eq arranged'.closed names' hs'] at same
  have same := Except.ok.inj same
  cases s with
  | constant kind =>
    cases s' with
    | constant kind' =>
      have here := arranged.name_constant named hs
      have there := arranged'.name_constant named' hs'
      rw [Kind.constantName_inj (here.symm.trans there)]
      rfl
    | subset | union | record => cases same
  | subset base primitive =>
    cases s' with
    | subset base' primitive' =>
      have key : text base = text' base' := Option.some.inj (Sketch.leaf.inj same)
      have bases := paired base base' List.mem_cons_self List.mem_cons_self key
      have here := arranged.primitive_iff named hs
      have there := arranged'.primitive_iff named' hs'
      have primitives : primitive' = primitive := Bool.eq_iff_iff.mpr (there.trans here.symm)
      rw [Shape.mapHandles, bases, primitives]
    | constant | union | record => cases same
  | union members =>
    cases s' with
    | union members' =>
      have keys : members.map text = members'.map text' := Sketch.union.inj same
      rw [Shape.mapHandles, map_eq_of_keys keys fun a ha b hb => paired a b ha hb]
    | constant | subset | record => cases same
  | record fields =>
    cases s' with
    | record fields' =>
      refine congrArg Shape.record (map_eq_of_keys (Sketch.record.inj same) ?_).symm
      intro field mem field' mem' key
      obtain ⟨label, key⟩ := Prod.mk.inj key
      have types := paired field.type field'.type (List.mem_map_of_mem mem)
        (List.mem_map_of_mem mem') key
      rw [types, label]
    | constant | subset | union => cases same

/-- One environment has the types of the other, by name and make. -/
def Redeclared (env env' : Environment) : Prop :=
  ∀ name sketch, env.Declares name sketch → env'.Declares name sketch

theorem Redeclared.exists_namesake (redeclared : env.Redeclared env') (arranged : env.Arranged)
    (arranged' : env'.Arranged) (own : env.owns h = true) :
    ∃ name, env.name h = .ok name ∧ env'.name (env.namesake env' h) = .ok name ∧
      env.sketch h = env'.sketch (env.namesake env' h) := by
  obtain ⟨text, names⟩ := env.exists_names
  obtain ⟨s, hs⟩ := exists_shape own
  have sketched := sketch_eq arranged.closed names hs
  obtain ⟨x, named', sketched'⟩ := redeclared (text h) _ ⟨h, names h own, sketched⟩
  rw [arranged'.namesake_eq (names h own) named']
  exact ⟨text h, names h own, named', sketched.trans sketched'.symm⟩

theorem Redeclared.namesake_namesake (redeclared : env.Redeclared env') (arranged : env.Arranged)
    (arranged' : env'.Arranged) (own : env.owns h = true) :
    env'.namesake env (env.namesake env' h) = h := by
  obtain ⟨name, named, named', -⟩ := redeclared.exists_namesake arranged arranged' own
  exact arranged.namesake_eq named' named

theorem Arranged.duplicated_namesake (arranged : env.Arranged) (arranged' : env'.Arranged)
    (redeclared : env.Redeclared env') (redeclared' : env'.Redeclared env) :
    env.Duplicated (env.namesake env') env' where
  injective {a b} own_a own_b same := by
    rw [← redeclared.namesake_namesake arranged arranged' own_a, same,
      redeclared.namesake_namesake arranged arranged' own_b]
  entry {h e} found := by
    have hs : env.shape h = .ok e.shape := by
      rw [shape, found]
      rfl
    obtain ⟨name, named, named', same⟩ :=
      redeclared.exists_namesake arranged arranged' (owns_of_shape hs)
    obtain ⟨e', found'⟩ := env'.exists_entry (owns_of_name named')
    have hs' : env'.shape (env.namesake env' h) = .ok e'.shape := by
      rw [shape, found']
      rfl
    have shapes := arranged.shape_namesake arranged' named named' hs hs' same
    rw [Environment.name, found] at named
    rw [Environment.name, found'] at named'
    cases named
    cases e'
    cases shapes
    cases named'
    exact found'
  onto {x} own := by
    obtain ⟨name, -, named, -⟩ := redeclared'.exists_namesake arranged' arranged own
    exact ⟨env'.namesake env x, owns_of_name named,
      redeclared'.namesake_namesake arranged' arranged own⟩

/-- Environments that declare the same types are the same up to namesakes, whatever the order of
registration. -/
theorem registration_order (reachable : env.Reachable) (reachable' : env'.Reachable)
    (same : ∀ name sketch, env.Declares name sketch ↔ env'.Declares name sketch) :
    (∀ h, env.owns h = true → env'.owns (env.namesake env' h) = true ∧
      env'.name (env.namesake env' h) = env.name h ∧
      env'.namesake env (env.namesake env' h) = h) ∧
    (∀ x, env'.owns x = true → env.owns (env'.namesake env x) = true ∧
      env.namesake env' (env'.namesake env x) = x) ∧
    env.AnswersAlike (env.namesake env') env' ∧ env.TextsAlike (env.namesake env') env' := by
  have arranged := reachable.arranged
  have arranged' := reachable'.arranged
  have redeclared : env.Redeclared env' := fun name sketch => (same name sketch).mp
  have redeclared' : env'.Redeclared env := fun name sketch => (same name sketch).mpr
  have duplicated := arranged.duplicated_namesake arranged' redeclared redeclared'
  have duplicated' := arranged'.duplicated_namesake arranged redeclared' redeclared
  exact ⟨fun h own => ⟨duplicated.mirrored.owns own, duplicated.name_eq own,
      redeclared.namesake_namesake arranged arranged' own⟩,
    fun x own => ⟨duplicated'.mirrored.owns own,
      redeclared'.namesake_namesake arranged' arranged own⟩,
    duplicated.conserved.answersAlike arranged arranged', duplicated.textsAlike arranged arranged'⟩

/-- A list that ends in one of two primitives, and a subset of the type of its tails. -/
def listFirst : Environment :=
  { initial ⟨0⟩ with entries := (initial ⟨0⟩).entries ++
      #[⟨"List", .record [⟨"head", ⟨⟨0⟩, 10⟩⟩, ⟨"tail", ⟨⟨0⟩, 9⟩⟩]⟩,
        ⟨"Tail", .union [⟨⟨0⟩, 8⟩, ⟨⟨0⟩, 10⟩]⟩,
        ⟨"Atom", .union [⟨⟨0⟩, 4⟩, ⟨⟨0⟩, 5⟩]⟩,
        ⟨"Short", .subset ⟨⟨0⟩, 9⟩ false⟩] }

/-- The same types in another environment, the list last. -/
def listLast : Environment :=
  { initial ⟨1⟩ with entries := (initial ⟨1⟩).entries ++
      #[⟨"Atom", .union [⟨⟨1⟩, 4⟩, ⟨⟨1⟩, 5⟩]⟩,
        ⟨"Tail", .union [⟨⟨1⟩, 11⟩, ⟨⟨1⟩, 8⟩]⟩,
        ⟨"Short", .subset ⟨⟨1⟩, 9⟩ false⟩,
        ⟨"List", .record [⟨"head", ⟨⟨1⟩, 8⟩⟩, ⟨"tail", ⟨⟨1⟩, 9⟩⟩]⟩] }

theorem reachable_listFirst : listFirst.Reachable := by
  have made : Environment.after [.declare 0 "List" .record, .declare 0 "Tail" .union,
      .declare 0 "Atom" .union, .declare 0 "Short" (.subset ⟨⟨0⟩, 9⟩),
      .addField 0 ⟨⟨0⟩, 8⟩ "head" ⟨⟨0⟩, 10⟩, .addField 0 ⟨⟨0⟩, 8⟩ "tail" ⟨⟨0⟩, 9⟩,
      .addMember 0 ⟨⟨0⟩, 9⟩ ⟨⟨0⟩, 8⟩, .addMember 0 ⟨⟨0⟩, 9⟩ ⟨⟨0⟩, 10⟩,
      .addMember 0 ⟨⟨0⟩, 10⟩ ⟨⟨0⟩, 4⟩, .addMember 0 ⟨⟨0⟩, 10⟩ ⟨⟨0⟩, 5⟩] = listFirst := by
    decide +kernel
  exact made ▸ reachable_after _

theorem reachable_listLast : listLast.Reachable := by
  have made : (Workspace.run {} [.create, .create, .declare 1 "Atom" .union,
      .declare 1 "Tail" .union, .declare 1 "Short" (.subset ⟨⟨1⟩, 9⟩), .declare 1 "List" .record,
      .addMember 1 ⟨⟨1⟩, 8⟩ ⟨⟨1⟩, 4⟩, .addMember 1 ⟨⟨1⟩, 8⟩ ⟨⟨1⟩, 5⟩,
      .addMember 1 ⟨⟨1⟩, 9⟩ ⟨⟨1⟩, 11⟩, .addMember 1 ⟨⟨1⟩, 9⟩ ⟨⟨1⟩, 8⟩,
      .addField 1 ⟨⟨1⟩, 11⟩ "head" ⟨⟨1⟩, 8⟩,
      .addField 1 ⟨⟨1⟩, 11⟩ "tail" ⟨⟨1⟩, 9⟩]).environments[1]? = some listLast := by decide +kernel
  exact ⟨_, .run .empty _, Array.mem_of_getElem? made⟩

theorem declares_listFirst_iff (name : String) (sketch : Sketch) :
    listFirst.Declares name sketch ↔ listLast.Declares name sketch := by
  let listed (env : Environment) : List (String × Sketch) := env.declarations.toOption.getD []
  have first : listFirst.declarations = .ok (listed listFirst) :=
    eq_ok_of_toOption (by decide +kernel)
  have last : listLast.declarations = .ok (listed listLast) :=
    eq_ok_of_toOption (by decide +kernel)
  have perm : (listed listFirst).Perm (listed listLast) := by decide +kernel
  rw [declares_iff_mem first, declares_iff_mem last, perm.mem_iff]

/-- With the list last, the two primitives have the same union as their least bound, the list is
still recursive, and all is shown as before. -/
theorem registration_order_listFirst :
    listFirst.namesake listLast ⟨⟨0⟩, 8⟩ = ⟨⟨1⟩, 11⟩ ∧
    (listLast.pairBound .least ⟨⟨1⟩, 4⟩ ⟨⟨1⟩, 5⟩).outcome = .ok (.singleton ⟨⟨1⟩, 8⟩) ∧
    listLast.isRecursive ⟨⟨1⟩, 11⟩ = .ok true ∧
    listLast.qualifier ⟨⟨1⟩, 11⟩ = listFirst.qualifier ⟨⟨0⟩, 8⟩ ∧
    listLast.showAll = listFirst.showAll := by
  have list : listFirst.namesake listLast ⟨⟨0⟩, 8⟩ = ⟨⟨1⟩, 11⟩ := by decide +kernel
  have one : listFirst.namesake listLast ⟨⟨0⟩, 4⟩ = ⟨⟨1⟩, 4⟩ := by decide +kernel
  have other : listFirst.namesake listLast ⟨⟨0⟩, 5⟩ = ⟨⟨1⟩, 5⟩ := by decide +kernel
  have union : listFirst.namesake listLast ⟨⟨0⟩, 10⟩ = ⟨⟨1⟩, 8⟩ := by decide +kernel
  have bound : (listFirst.pairBound .least ⟨⟨0⟩, 4⟩ ⟨⟨0⟩, 5⟩).outcome =
      .ok (.singleton ⟨⟨0⟩, 10⟩) := eq_ok_of_toOption (by decide +kernel)
  have recursive : listFirst.isRecursive ⟨⟨0⟩, 8⟩ = .ok true :=
    eq_ok_of_toOption (by decide +kernel)
  have own_list : listFirst.owns ⟨⟨0⟩, 8⟩ = true := by decide
  have own_one : listFirst.owns ⟨⟨0⟩, 4⟩ = true := by decide
  have own_other : listFirst.owns ⟨⟨0⟩, 5⟩ = true := by decide
  obtain ⟨-, -, answers, texts⟩ :=
    registration_order reachable_listFirst reachable_listLast declares_listFirst_iff
  refine ⟨list, ?_, ?_, ?_, texts.showAll⟩
  · have image := answers.pairBound .least own_one own_other
    rw [one, other, bound] at image
    rw [image, ← union]
    rfl
  · rw [← list]
    exact (answers.isRecursive own_list).trans recursive
  · rw [← list]
    exact texts.qualifier own_list

end Environment

end TypeHierarchy
