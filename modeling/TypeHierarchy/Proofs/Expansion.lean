import Mathlib.Data.List.Forall2
import TypeHierarchy.Proofs.Acyclic
import TypeHierarchy.Proofs.Spelling

/-!
# Qualifiers without memory

The traversal spells a type once and copies its qualifier wherever the type comes up again.  Before the
final text it remembers two others for the type, the empty one and then the bare head.  `expansion`
remembers nothing and spells each type anew at every occurrence, to a given depth.  While a type is
being spelled only types that it leads to are met.  So with no cycle ahead nobody comes back to it
before its final text is there (`Faithful.enter`), and the two agree (`qualifier_eq_expansion`).
-/

namespace TypeHierarchy.Environment

open Relation

/-- The qualifier of a type, put together from the texts of the types inside it. -/
def spellWith (env : Environment) (part : Handle → Except Violation String) (h : Handle) :
    Except Violation String := do
  let tag := (← env.attributeOf h).tag
  let name ← env.name h
  let head := s!"{tag}:{name}"
  match ← env.shape h with
  | .constant _ => return head
  | .subset _ _ => return head
  | .union members => return head ++ "[" ++ ",".intercalate (← members.mapM part) ++ "]"
  | .record fields =>
    let texts ← fields.mapM fun field => return field.name ++ "#" ++ (← part field.type)
    return head ++ "\x7b" ++ ",".intercalate texts ++ "\x7d"

/-- The qualifier with every type inside it spelled out in full, for types nested less deep than
`depth`. -/
def expansion (env : Environment) : (depth : Nat) → Handle → Except Violation String
  | 0, _ => .error .budgetExhausted
  | depth + 1, h => env.spellWith (env.expansion depth) h

/-- The text is the type's expansion as soon as there is depth enough for the types ahead. -/
def Expands (env : Environment) (h : Handle) (text : String) : Prop :=
  ∀ depth, env.reach (env.Leads true) h ≤ depth → env.expansion depth h = .ok text

/-- What is remembered for the type and for all types ahead of it are expansions. -/
def Faithful (env : Environment) (seen : Handle → Option String) (h : Handle) : Prop :=
  ∀ x text, ReflTransGen (env.Leads true) h x → seen x = some text → env.Expands x text

/-- What has been remembered since are expansions. -/
def Completes (env : Environment) (seen after : Handle → Option String) : Prop :=
  ∀ x text, after x = some text → seen x = some text ∨ env.Expands x text

variable {env : Environment} {h next : Handle} {s : Shape} {hs : List Handle} {head text : String}
  {texts : List String} {seen middle after : Handle → Option String}

/-! ## One type -/

theorem spellWith_eq (part : Handle → Except Violation String) (shape : env.shape h = .ok s)
    (headed : env.qualifierHead h = .ok head) :
    env.spellWith part h = (do return s.spell head (← (s.successors true).mapM part)) := by
  obtain ⟨_, attributed, headed⟩ := bind_eq_ok_iff.mp headed
  obtain ⟨_, named, headed⟩ := bind_eq_ok_iff.mp headed
  cases headed
  simp only [spellWith, attributed, named, shape, ok_bind]
  cases s with
  | constant | subset => rfl
  | union members => rfl
  | record fields =>
    simp only [mapM_zipWith Field.type, bind_assoc, pure_bind]
    rfl

theorem mapM_expansion {depth : Nat} (expand : List.Forall₂ env.Expands hs texts)
    (enough : ∀ h ∈ hs, env.reach (env.Leads true) h ≤ depth) :
    hs.mapM (env.expansion depth) = .ok texts := by
  induction expand with
  | nil => rfl
  | cons first _ ih =>
    obtain ⟨enough_h, enough_hs⟩ := List.forall_mem_cons.mp enough
    rw [List.mapM_cons, first depth enough_h, ok_bind, ih enough_hs]
    rfl

/-- The expansion of a type is put together from those of the types one step ahead. -/
theorem Expands.of_parts (acyclic : Acyclic (env.Leads true) h) (shape : env.shape h = .ok s)
    (headed : env.qualifierHead h = .ok head)
    (parts : List.Forall₂ env.Expands (s.successors true) texts) :
    env.Expands h (s.spell head texts) := by
  have own := owns_of_shape shape
  intro depth enough
  cases depth with
  | zero =>
    have := env.reach_pos (env.Leads true) own
    omega
  | succ depth =>
    have inner : (s.successors true).mapM (env.expansion depth) = .ok texts := by
      refine mapM_expansion parts fun next mem => ?_
      have fewer := acyclic.reach_lt own ((leads_iff shape).mpr mem)
      omega
    rw [expansion, spellWith_eq _ shape headed, inner]
    rfl

/-! ## The traversal -/

/-- The head that stands for a type meanwhile is not met ahead of it, since no path leads back. -/
theorem Faithful.enter (faithful : env.Faithful seen h) (acyclic : Acyclic (env.Leads true) h)
    (step : env.Leads true h next) (head : String) :
    env.Faithful (Function.update seen h (some head)) next := by
  intro x text path found
  have other : x ≠ h := by
    rintro rfl
    exact acyclic.no_return step path
  rw [Function.update_of_ne other] at found
  exact faithful x text (.head step path) found

theorem Faithful.later (faithful : env.Faithful seen h) (completes : env.Completes seen after) :
    env.Faithful after h := by
  intro x text path found
  rcases completes x text found with earlier | expands
  · exact faithful x text path earlier
  · exact expands

theorem Completes.trans (first : env.Completes seen middle) (second : env.Completes middle after) :
    env.Completes seen after := by
  intro x text found
  rcases second x text found with earlier | expands
  · exact first x text earlier
  · exact .inr expands

/-- Once a type is spelled out, its head is forgotten. -/
theorem Completes.visited (inner : env.Completes (Function.update seen h (some head)) middle)
    (expands : env.Expands h text) :
    env.Completes seen (Function.update middle h (some text)) := by
  intro x found_text found
  by_cases e : x = h
  · subst e
    rw [Function.update_self] at found
    cases found
    exact .inr expands
  · rw [Function.update_of_ne e] at found
    have earlier := inner x found_text found
    rwa [Function.update_of_ne e] at earlier

theorem Spells.expands (spells : env.Spells seen hs texts after)
    (acyclic : ∀ h ∈ hs, Acyclic (env.Leads true) h) (faithful : ∀ h ∈ hs, env.Faithful seen h) :
    List.Forall₂ env.Expands hs texts ∧ env.Completes seen after := by
  induction spells with
  | nil => exact ⟨.nil, fun x text found => .inl found⟩
  | seen found _ ih =>
    obtain ⟨acyclic_h, acyclic_hs⟩ := List.forall_mem_cons.mp acyclic
    obtain ⟨faithful_h, faithful_hs⟩ := List.forall_mem_cons.mp faithful
    obtain ⟨expand, completes⟩ := ih acyclic_hs faithful_hs
    exact ⟨.cons (faithful_h _ _ .refl found) expand, completes⟩
  | @fresh _ _ _ h _ s head _ _ _ shape headed _ _ ih_inner ih_rest =>
    obtain ⟨acyclic_h, acyclic_hs⟩ := List.forall_mem_cons.mp acyclic
    obtain ⟨faithful_h, faithful_hs⟩ := List.forall_mem_cons.mp faithful
    have step (next : Handle) (mem : next ∈ s.successors true) : env.Leads true h next :=
      (leads_iff shape).mpr mem
    obtain ⟨expand, inner⟩ := ih_inner (fun next mem => acyclic_h.ahead (step next mem))
      fun next mem => faithful_h.enter acyclic_h (step next mem) head
    have expands := Expands.of_parts acyclic_h shape headed expand
    have visited := inner.visited expands
    obtain ⟨expand_rest, rest⟩ :=
      ih_rest acyclic_hs fun h' mem => (faithful_hs h' mem).later visited
    exact ⟨.cons expands expand_rest, visited.trans rest⟩

/-- The qualifier of a type with no cycle ahead is its expansion. -/
theorem exists_qualifier_expands (closed : env.Closed) (own : env.owns h = true)
    (acyclic : Acyclic (env.Leads true) h) :
    ∃ text, env.qualifier h = .ok text ∧ env.Expands h text := by
  obtain ⟨text, after, done, spells⟩ := exists_qualifier_spells closed own
  have nothing : env.Faithful (fun _ => none) h := fun x text path found => by cases found
  obtain ⟨expand, -⟩ := spells.expands (List.forall_mem_singleton.mpr acyclic)
    (List.forall_mem_singleton.mpr nothing)
  obtain ⟨expands, -⟩ := List.forall₂_cons.mp expand
  exact ⟨text, done, expands⟩

/-- The qualifier of a type from which members and fields lead into no cycle is put together from the
qualifiers of the types inside it, each taken by itself, and is therefore the expansion that spells
each type anew wherever it occurs. -/
theorem qualifier_eq_expansion (reachable : env.Reachable) (own : env.owns h = true)
    (acyclic : Acyclic (fun x y => env.HasMember x y ∨ env.HasField x y) h) :
    ∃ text, env.qualifier h = .ok text ∧ env.spellWith env.qualifier h = .ok text ∧
      ∀ depth, env.size ≤ depth → env.expansion depth h = .ok text := by
  have closed := reachable.closed
  rw [← leads_true] at acyclic
  obtain ⟨text, done, expands⟩ := exists_qualifier_expands closed own acyclic
  obtain ⟨s, shape⟩ := exists_shape own
  obtain ⟨head, headed⟩ := exists_qualifierHead closed own
  have parts : (s.successors true).mapM env.qualifier =
      (s.successors true).mapM (env.expansion env.size) := by
    refine mapM_congr fun next mem => ?_
    have first : env.Leads true h next := (leads_iff shape).mpr mem
    obtain ⟨part, done_part, expands_part⟩ :=
      exists_qualifier_expands closed (first.owns closed) (acyclic.ahead first)
    rw [done_part, expands_part _ (reach_le_size _ _)]
  have whole := expands (env.size + 1) (Nat.le_succ_of_le (reach_le_size _ _))
  rw [expansion, spellWith_eq _ shape headed, ← parts, ← spellWith_eq _ shape headed] at whole
  refine ⟨text, done, whole, fun depth enough => expands depth ?_⟩
  exact Nat.le_trans (reach_le_size _ _) enough

/-- Where types refer only to types in front of them, no cycle comes up. -/
theorem acyclic_of_backward
    (backward : ∀ p ∈ env.entries.toList.zipIdx, ∀ r ∈ p.1.shape.references, r.index < p.2)
    (h : Handle) : Acyclic (fun x y => env.HasMember x y ∨ env.HasField x y) h := by
  rw [← leads_true]
  refine acyclic_of_lt Handle.index (fun x y step => ?_) h
  obtain ⟨s, shape, mem⟩ := step
  obtain ⟨-, name, found⟩ := shape_eq_ok_iff.mp shape
  rw [← Array.getElem?_toList, ← List.mk_mem_zipIdx_iff_getElem?] at found
  exact backward _ found y (Shape.mem_references_of_mem_successors mem)

/-- Small numbers, a union with two of its members alike, a record with that union in both of its
fields, and a record with all of them. -/
def sharedParts : Environment :=
  { initial ⟨0⟩ with entries := (initial ⟨0⟩).entries ++
      #[⟨"Small", .subset ⟨⟨0⟩, 4⟩ false⟩, ⟨"Some", .union [⟨⟨0⟩, 8⟩, ⟨⟨0⟩, 6⟩, ⟨⟨0⟩, 8⟩]⟩,
        ⟨"Cell", .record [⟨"left", ⟨⟨0⟩, 9⟩⟩, ⟨"right", ⟨⟨0⟩, 9⟩⟩]⟩,
        ⟨"Grid", .record [⟨"top", ⟨⟨0⟩, 10⟩⟩, ⟨"rest", ⟨⟨0⟩, 10⟩⟩, ⟨"key", ⟨⟨0⟩, 8⟩⟩]⟩] }

theorem reachable_sharedParts : sharedParts.Reachable := by
  have made : Environment.after [.declare 0 "Small" (.subset ⟨⟨0⟩, 4⟩), .declare 0 "Some" .union,
      .declare 0 "Cell" .record, .declare 0 "Grid" .record, .addMember 0 ⟨⟨0⟩, 9⟩ ⟨⟨0⟩, 8⟩,
      .addMember 0 ⟨⟨0⟩, 9⟩ ⟨⟨0⟩, 6⟩, .addMember 0 ⟨⟨0⟩, 9⟩ ⟨⟨0⟩, 8⟩,
      .addField 0 ⟨⟨0⟩, 10⟩ "left" ⟨⟨0⟩, 9⟩, .addField 0 ⟨⟨0⟩, 10⟩ "right" ⟨⟨0⟩, 9⟩,
      .addField 0 ⟨⟨0⟩, 11⟩ "top" ⟨⟨0⟩, 10⟩, .addField 0 ⟨⟨0⟩, 11⟩ "rest" ⟨⟨0⟩, 10⟩,
      .addField 0 ⟨⟨0⟩, 11⟩ "key" ⟨⟨0⟩, 8⟩] = sharedParts := by decide +kernel
  exact made ▸ reachable_after _

/-- The largest record is spelled with the other one in full twice and the union in full four times, as
with no memory. -/
theorem qualifier_eq_expansion_sharedParts :
    sharedParts.qualifier ⟨⟨0⟩, 11⟩ = .ok ("r:Grid\x7btop#r:Cell\x7b" ++
      "left#r:Some[i:Small,s:symbol,i:Small],right#r:Some[i:Small,s:symbol,i:Small]\x7d," ++
      "rest#r:Cell\x7bleft#r:Some[i:Small,s:symbol,i:Small]," ++
      "right#r:Some[i:Small,s:symbol,i:Small]\x7d,key#i:Small\x7d") ∧
    sharedParts.qualifier ⟨⟨0⟩, 11⟩ = sharedParts.spellWith sharedParts.qualifier ⟨⟨0⟩, 11⟩ ∧
    ∀ depth, 12 ≤ depth →
      sharedParts.qualifier ⟨⟨0⟩, 11⟩ = sharedParts.expansion depth ⟨⟨0⟩, 11⟩ := by
  have acyclic : Acyclic (fun x y => sharedParts.HasMember x y ∨ sharedParts.HasField x y)
      ⟨⟨0⟩, 11⟩ := acyclic_of_backward (by decide +kernel) _
  obtain ⟨text, done, parts, plain⟩ :=
    qualifier_eq_expansion reachable_sharedParts (by decide) acyclic
  refine ⟨eq_ok_of_toOption (by decide +kernel), done.trans parts.symm, fun depth enough => ?_⟩
  exact done.trans (plain depth enough).symm

end TypeHierarchy.Environment
