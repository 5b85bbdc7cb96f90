import Mathlib.Logic.Function.Basic
import TypeHierarchy.Proofs.Classification
import TypeHierarchy.Qualifier

/-!
# Qualifiers as a relation

`Spells` says what the qualifiers of a list of types are, given the qualifiers remembered before, and
what is remembered after it.  Its rules follow the traversal but know nothing of its budget.  One
list can be spelled in one way only (`Spells.unique`), and what the traversal writes for a type of the
environment is what the rules say (`exists_qualifier_spells`).
-/

namespace TypeHierarchy

/-- The qualifier of a type of the given shape, made of its head and the qualifiers of the types one
step away. -/
def Shape.spell (head : String) : Shape → List String → String
  | union _, texts => head ++ "[" ++ ",".intercalate texts ++ "]"
  | record fields, texts =>
    head ++ "\x7b" ++
      ",".intercalate (fields.zipWith (fun field text => field.name ++ "#" ++ text) texts) ++ "\x7d"
  | _, _ => head

/-- What a memo remembers for each type. -/
def Memo.remembered {ρ : Type} (memo : Memo ρ) : Handle → Option ρ := fun h => memo[h]?

theorem Memo.remembered_insert {ρ : Type} (memo : Memo ρ) (h : Handle) (answer : ρ) :
    Memo.remembered (memo.insert h answer) = Function.update memo.remembered h (some answer) := by
  funext x
  by_cases e : x = h
  · subst e
    rw [remembered, Std.TreeMap.getElem?_insert_self, Function.update_self]
  · rw [remembered, Environment.getElem?_insert_of_ne e, Function.update_of_ne e]
    rfl

namespace Environment

/-- From what is remembered first, the types of the list have these qualifiers, and what is remembered
last comes out.  While a type is being spelled its head is remembered for it. -/
inductive Spells (env : Environment) :
    (Handle → Option String) → List Handle → List String → (Handle → Option String) → Prop
  | nil (seen : Handle → Option String) : Spells env seen [] [] seen
  | seen {seen after : Handle → Option String} {h : Handle} {hs : List Handle} {text : String}
      {texts : List String} (found : seen h = some text) (rest : Spells env seen hs texts after) :
      Spells env seen (h :: hs) (text :: texts) after
  | fresh {seen middle after : Handle → Option String} {h : Handle} {hs : List Handle} {s : Shape}
      {head : String} {parts texts : List String} (missing : seen h = none)
      (shape : env.shape h = .ok s) (headed : env.qualifierHead h = .ok head)
      (inner : Spells env (Function.update seen h (some head)) (s.successors true) parts middle)
      (rest : Spells env (Function.update middle h (some (s.spell head parts))) hs texts after) :
      Spells env seen (h :: hs) (s.spell head parts :: texts) after

variable {env : Environment} {h : Handle} {s : Shape} {hs hs' : List Handle}
  {texts texts' : List String} {seen middle after after' : Handle → Option String}
  {memo : Memo String}

theorem Spells.append (first : env.Spells seen hs texts middle)
    (second : env.Spells middle hs' texts' after) :
    env.Spells seen (hs ++ hs') (texts ++ texts') after := by
  induction first with
  | nil => exact second
  | seen found _ ih => exact .seen found (ih second)
  | fresh missing shape headed inner _ _ ih => exact .fresh missing shape headed inner (ih second)

/-- What is remembered first and the list determine the rest. -/
theorem Spells.unique (spells : env.Spells seen hs texts after)
    (spells' : env.Spells seen hs texts' after') : texts = texts' ∧ after = after' := by
  induction spells generalizing texts' after' with
  | nil =>
    cases spells'
    exact ⟨rfl, rfl⟩
  | seen found _ ih =>
    cases spells' with
    | seen found' rest' =>
      cases found.symm.trans found'
      obtain ⟨rfl, rfl⟩ := ih rest'
      exact ⟨rfl, rfl⟩
    | fresh missing' => cases found.symm.trans missing'
  | fresh missing shape headed _ _ ih ih' =>
    cases spells' with
    | seen found' => cases missing.symm.trans found'
    | fresh _ shape' headed' inner' rest' =>
      cases shape.symm.trans shape'
      cases headed.symm.trans headed'
      obtain ⟨rfl, rfl⟩ := ih inner'
      obtain ⟨rfl, rfl⟩ := ih' rest'
      exact ⟨rfl, rfl⟩

theorem Spells.length_eq (spells : env.Spells seen hs texts after) :
    texts.length = hs.length := by
  induction spells with
  | nil => rfl
  | seen _ _ ih => rw [List.length_cons, List.length_cons, ih]
  | fresh _ _ _ _ _ _ ih => rw [List.length_cons, List.length_cons, ih]

/-! ## The visitor -/

/-- Writing something down with each answer is writing it down when all answers are there. -/
theorem mapM_zipWith {m : Type → Type} [Monad m] [LawfulMonad m] {α : Type} (type : α → Handle)
    (write : α → String → String) (visit : Handle → m String) (l : List α) :
    (l.mapM fun x => do return write x (← visit (type x))) =
      (do return l.zipWith write (← (l.map type).mapM visit)) := by
  induction l with
  | nil => simp
  | cons x l ih =>
    rw [List.mapM_cons, ih, List.map_cons, List.mapM_cons]
    simp only [bind_assoc, pure_bind, List.zipWith_cons_cons]

/-- The visitor writes the head down and puts the qualifier together from those of the types one step
away. -/
theorem qualifierVisitor_eq (visit : Visit (Except Violation) String) (h : Handle) (s : Shape) :
    env.qualifierVisitor visit h s = (do
      let head ← env.qualifierHead h
      modify (·.insert h head)
      return s.spell head (← (s.successors true).mapM visit)) := by
  cases s with
  | constant | subset => rfl
  | union members => rfl
  | record fields =>
    simp only [qualifierVisitor, mapM_zipWith Field.type, bind_assoc, pure_bind]
    rfl

/-! ## The traversal -/

/-- The visit writes what the rules say, and a violation does not happen. -/
def Writes (env : Environment) (h : Handle) (memo : Memo String)
    (x : Except Violation (String × Memo String)) : Prop :=
  ∃ text after, x = .ok (text, after) ∧ (∀ y ∈ memo, y ∈ after) ∧
    env.Spells memo.remembered [h] [text] after.remembered

theorem exists_spells_mapM {visit : Visit (Except Violation) String} {start : Memo String}
    (visits : ∀ h ∈ hs, ∀ memo, (∀ y ∈ start, y ∈ memo) → env.Writes h memo ((visit h).run memo))
    (from_start : ∀ y ∈ start, y ∈ memo) :
    ∃ texts after, (hs.mapM visit).run memo = .ok (texts, after) ∧ (∀ y ∈ memo, y ∈ after) ∧
      env.Spells memo.remembered hs texts after.remembered := by
  induction hs generalizing memo with
  | nil => exact ⟨[], memo, rfl, fun _ hy => hy, .nil _⟩
  | cons h hs ih =>
    obtain ⟨visits_h, visits_hs⟩ := List.forall_mem_cons.mp visits
    obtain ⟨text, middle, run_h, grows, spells⟩ := visits_h memo from_start
    obtain ⟨texts, after, run_hs, grows', spells'⟩ :=
      ih visits_hs fun y hy => grows y (from_start y hy)
    refine ⟨text :: texts, after, ?_, fun y hy => grows' y (grows y hy), spells.append spells'⟩
    rw [List.mapM_cons]
    simp only [StateT.run_bind, run_h, ok_bind, run_hs]
    rfl

theorem exists_qualifierHead (closed : env.Closed) (own : env.owns h = true) :
    ∃ head, env.qualifierHead h = .ok head := by
  obtain ⟨e, he⟩ := env.exists_entry own
  rw [qualifierHead, attributeOf_eq closed own, ok_bind, name, he]
  exact ⟨_, rfl⟩

theorem writes_visitOnce (closed : env.Closed) {budget : Nat} (own : env.owns h = true)
    (enough : env.unseen memo ≤ budget) :
    env.Writes h memo ((env.visitOnce "" env.qualifierVisitor budget h).run memo) := by
  refine visitOnce_rule ?_ ?_ own enough
  · intro h memo text found
    exact ⟨text, memo, rfl, fun _ hy => hy, .seen found (.nil _)⟩
  · intro h memo s visit hs fresh visits
    obtain ⟨head, headed⟩ := exists_qualifierHead closed (owns_of_shape hs)
    have entered : ∀ y ∈ memo.insert h "", y ∈ (memo.insert h "").insert h head :=
      fun y hy => mem_insert_iff.mpr (.inr hy)
    have each (next : Handle) (mem : next ∈ s.successors true) :=
      fun after grows => visits next after (Leads.owns closed ((leads_iff hs).mpr mem)) grows
    obtain ⟨parts, after, run, grows, spells⟩ := exists_spells_mapM each entered
    refine ⟨s.spell head parts, after.insert h (s.spell head parts), ?_, fun y hy => ?_, ?_⟩
    · rw [qualifierVisitor_eq, headed]
      show ((StateT.run ((s.successors true).mapM visit) _ >>= _) >>= _) = _
      rw [run]
      rfl
    · have known : y ∈ memo.insert h "" := mem_insert_iff.mpr (.inr hy)
      exact mem_insert_iff.mpr (.inr (grows y (entered y known)))
    · rw [Memo.remembered_insert, Memo.remembered_insert, Function.update_idem] at spells
      rw [Memo.remembered_insert]
      exact .fresh (Std.TreeMap.getElem?_eq_none fresh) hs headed spells (.nil _)

/-- The qualifier of a type of the environment is the one that the rules give with nothing remembered
before. -/
theorem exists_qualifier_spells (closed : env.Closed) (own : env.owns h = true) :
    ∃ text after, env.qualifier h = .ok text ∧ env.Spells (fun _ => none) [h] [text] after := by
  have enough : env.unseen (∅ : Memo String) ≤ env.size := Nat.le_of_eq unseen_empty
  obtain ⟨text, after, run, -, spells⟩ := writes_visitOnce closed own enough
  have nothing : Memo.remembered (∅ : Memo String) = fun _ => none := by
    funext x
    exact Std.TreeMap.getElem?_emptyc
  rw [nothing] at spells
  refine ⟨text, after.remembered, ?_, spells⟩
  rw [qualifier, traverse, run]
  rfl

end Environment

end TypeHierarchy
