import TypeHierarchy.Proofs.Spelling

/-!
# Reading qualifiers

A qualifier can be read back in one way only, as long as no name holds a mark.  The text of a type
starts with its caption, and the caption ends where the first break stands (`Caption.read`).  After the
caption an opening bracket says whether the parts of a union or of a record follow, and which bracket
closes them (`Shape.body_read`).
-/

namespace TypeHierarchy

/-! ## Marks -/

/-- What closes a list of parts. -/
def closers : List Char := [']', '\x7d']

/-- What may come after a part. -/
def followers : List Char := ',' :: closers

/-- What may come after a caption. -/
def breaks : List Char := '[' :: '\x7b' :: followers

/-- The characters with a meaning of their own in qualifiers. -/
def marks : List Char := ':' :: '#' :: breaks

theorem closers_subset_followers : closers ⊆ followers := List.subset_cons_self _ _

theorem followers_subset_breaks : followers ⊆ breaks :=
  List.Subset.trans (List.subset_cons_self _ _) (List.subset_cons_self _ _)

theorem breaks_subset_marks : breaks ⊆ marks :=
  List.Subset.trans (List.subset_cons_self _ _) (List.subset_cons_self _ _)

/-- A name in which no character has a meaning of its own. -/
def Unmarked (name : String) : Prop := ∀ c ∈ name.toList, c ∉ marks

instance (name : String) : Decidable (Unmarked name) :=
  decidable_of_iff (name.toList.all (· ∉ marks)) (by simp [Unmarked])

/-- The text is empty or starts with one of the given characters. -/
def Begins (stops text : List Char) : Prop := ∀ c ∈ text.head?, c ∈ stops

variable {stops stops' w w' r r' : List Char}

theorem begins_nil (stops : List Char) : Begins stops [] := by simp [Begins]

theorem begins_cons {c : Char} : Begins stops (c :: r) ↔ c ∈ stops := by simp [Begins]

theorem Begins.append (first : Begins stops r) (second : Begins stops r') :
    Begins stops (r ++ r') := by
  cases r with
  | nil => exact second
  | cons c r => exact begins_cons.mpr (begins_cons.mp first)

theorem Begins.mono (begins : Begins stops r) (sub : stops ⊆ stops') : Begins stops' r :=
  fun c mem => sub (begins c mem)

/-- A text without stops, with a stop behind it, ends where the first stop stands. -/
theorem split_unique (plain : ∀ c ∈ w, c ∉ stops) (plain' : ∀ c ∈ w', c ∉ stops)
    (begins : Begins stops r) (begins' : Begins stops r') (same : w ++ r = w' ++ r') :
    w = w' ∧ r = r' := by
  induction w generalizing w' with
  | nil =>
    cases w' with
    | nil => exact ⟨rfl, same⟩
    | cons c w' =>
      rw [List.nil_append] at same
      subst same
      exact absurd (begins_cons.mp begins) (plain' c List.mem_cons_self)
  | cons c w ih =>
    cases w' with
    | nil =>
      rw [List.nil_append] at same
      subst same
      exact absurd (begins_cons.mp begins') (plain c List.mem_cons_self)
    | cons c' w' =>
      obtain ⟨rfl, tails⟩ := List.cons.inj same
      obtain ⟨rfl, rest⟩ := ih (fun c mem => plain c (List.mem_cons_of_mem _ mem))
        (fun c mem => plain' c (List.mem_cons_of_mem _ mem)) tails
      exact ⟨rfl, rest⟩

/-! ## Captions -/

/-- What stands in front of a part: the name of the field, if it is one, and the attribute and the name
of the type. -/
structure Caption where
  field : Option String
  attr : Attribute
  name : String

theorem Attribute.tag_inj {a b : Attribute} (same : a.tag = b.tag) : a = b := by
  rcases a with (_ | _ | _ | _) | _ <;> rcases b with (_ | _ | _ | _) | _ <;>
    first | rfl | cases same

theorem Attribute.tag_not_mem_marks (a : Attribute) : a.tag ∉ marks := by
  rcases a with (_ | _ | _ | _) | _ <;> decide

namespace Caption

variable {c c' : Caption}

/-- The letter and the name of the type. -/
def head (c : Caption) : List Char := c.attr.tag :: ':' :: c.name.toList

/-- The caption as it is written: `field#letter:name`, or `letter:name` for a part that is no field.
-/
def text (c : Caption) : List Char :=
  c.field.elim c.head fun field => field.toList ++ '#' :: c.head

/-- Both names of the caption are free of marks. -/
structure Clean (c : Caption) : Prop where
  field : ∀ field ∈ c.field, Unmarked field
  name : Unmarked c.name

theorem Clean.hash_not_mem_head (clean : c.Clean) : '#' ∉ c.head := by
  simp only [head, List.mem_cons, not_or]
  refine ⟨fun same => c.attr.tag_not_mem_marks ?_, by decide, fun mem => ?_⟩
  · rw [← same]
    decide
  · exact clean.name '#' mem (by decide)

theorem Clean.not_mem_breaks (clean : c.Clean) : ∀ x ∈ c.text, x ∉ breaks := by
  have in_head : ∀ x ∈ c.head, x ∉ breaks := by
    intro x mem
    simp only [head, List.mem_cons] at mem
    rcases mem with rfl | rfl | mem
    · exact fun bad => c.attr.tag_not_mem_marks (breaks_subset_marks bad)
    · decide
    · exact fun bad => clean.name x mem (breaks_subset_marks bad)
  intro x mem
  unfold text at mem
  cases field : c.field with
  | none =>
    rw [field] at mem
    exact in_head x mem
  | some name =>
    rw [field] at mem
    rcases List.mem_append.mp mem with mem | mem
    · exact fun bad => clean.field name field x mem (breaks_subset_marks bad)
    · rcases List.mem_cons.mp mem with rfl | mem
      · decide
      · exact in_head x mem

theorem head_inj (same : c.head = c'.head) : c.attr = c'.attr ∧ c.name = c'.name := by
  simp only [head, List.cons.injEq, true_and] at same
  exact ⟨Attribute.tag_inj same.1, String.toList_inj.mp same.2⟩

/-- Only the name of a field ends in a hash. -/
theorem text_inj (clean : c.Clean) (clean' : c'.Clean) (same : c.text = c'.text) : c = c' := by
  have hash := clean.hash_not_mem_head
  have hash' := clean'.hash_not_mem_head
  obtain ⟨field, attr, name⟩ := c
  obtain ⟨field', attr', name'⟩ := c'
  cases field with
  | none =>
    cases field' with
    | none =>
      obtain ⟨rfl, rfl⟩ := head_inj same
      rfl
    | some field' =>
      have there : '#' ∈ text ⟨some field', attr', name'⟩ := by simp [text]
      rw [← same] at there
      exact absurd there hash
  | some field =>
    cases field' with
    | none =>
      have here : '#' ∈ text ⟨some field, attr, name⟩ := by simp [text]
      rw [same] at here
      exact absurd here hash'
    | some field' =>
      have plain (field : String) (unmarked : Unmarked field) : ∀ x ∈ field.toList, x ∉ ['#'] := by
        intro x mem bad
        rw [List.mem_singleton] at bad
        exact unmarked x mem (bad ▸ by decide)
      obtain ⟨fields, heads⟩ := split_unique (plain field (clean.field field rfl))
        (plain field' (clean'.field field' rfl)) (begins_cons.mpr List.mem_cons_self)
        (begins_cons.mpr List.mem_cons_self) same
      obtain ⟨rfl, rfl⟩ := head_inj (List.cons.inj heads).2
      rw [String.toList_inj.mp fields]

/-- A caption can be read off the text that it stands in front of. -/
theorem read (clean : c.Clean) (clean' : c'.Clean) (begins : Begins breaks r)
    (begins' : Begins breaks r') (same : c.text ++ r = c'.text ++ r') : c = c' ∧ r = r' := by
  obtain ⟨texts, rest⟩ :=
    split_unique clean.not_mem_breaks clean'.not_mem_breaks begins begins' same
  exact ⟨text_inj clean clean' texts, rest⟩

end Caption

/-! ## Parts -/

/-- The text of a part; a field comes with its name. -/
def labelled (field : Option String) (text : String) : String :=
  field.elim text fun field => field ++ "#" ++ text

theorem toList_labelled {c : Caption} {text : String} (headed : text.toList = c.head ++ r) :
    (labelled c.field text).toList = c.text ++ r := by
  obtain ⟨field, attr, name⟩ := c
  cases field with
  | none => exact headed
  | some field =>
    simp only [labelled, Option.elim, Caption.text, String.toList_append, headed, List.append_assoc,
      List.cons_append]
    rfl

/-- Texts one after the other, with a comma in front of each, or of each but the first. -/
def joined (first : Bool) : List String → List Char
  | [] => []
  | text :: texts => (if first then [] else [',']) ++ text.toList ++ joined false texts

theorem toList_intercalate (texts : List String) :
    (",".intercalate texts).toList = joined true texts := by
  rw [String.toList_intercalate]
  induction texts with
  | nil => rfl
  | cons text texts ih =>
    cases texts with
    | nil => simp [joined]
    | cons next texts =>
      simp only [joined, List.map_cons, List.intercalate_cons_cons] at ih ⊢
      rw [ih]
      simp

theorem begins_joined (texts : List String) (closed : Begins closers r) :
    Begins followers (joined false texts ++ r) := by
  cases texts with
  | nil => exact closed.mono closers_subset_followers
  | cons text texts => exact begins_cons.mpr List.mem_cons_self

/-- Where a part comes next, nothing ends. -/
theorem not_begins_joined {c : Caption} (clean : c.Clean) {first : Bool} {text : String}
    (captioned : text.toList = c.text ++ r) (texts : List String) :
    ¬ Begins closers (joined first (text :: texts) ++ r') := by
  intro ends
  cases first with
  | false => exact absurd (begins_cons.mp ends) (by decide)
  | true =>
    cases start : c.text with
    | nil =>
      obtain ⟨field, attr, name⟩ := c
      cases field <;> simp [Caption.text, Caption.head] at start
    | cons x w =>
      have plain : x ∉ breaks := clean.not_mem_breaks x (start ▸ List.mem_cons_self)
      rw [joined, captioned, start] at ends
      exact plain (followers_subset_breaks (closers_subset_followers (begins_cons.mp ends)))

/-! ## Shapes -/

/-- The two kinds of brackets, for unions and for records. -/
inductive Bracket where
  | square
  | curly

namespace Bracket

/-- The character in front of the parts. -/
def opening : Bracket → Char
  | square => '['
  | curly => '\x7b'

/-- The character behind the parts. -/
def closing : Bracket → Char
  | square => ']'
  | curly => '\x7d'

theorem opening_inj {b b' : Bracket} (same : b.opening = b'.opening) : b = b' := by
  cases b <;> cases b' <;> first | rfl | cases same

theorem opening_not_mem_followers (b : Bracket) : b.opening ∉ followers := by
  cases b <;> decide

theorem closing_mem_closers (b : Bracket) : b.closing ∈ closers := by
  cases b <;> decide

end Bracket

namespace Shape

/-- The brackets around the parts of a union or a record. -/
def bracket : Shape → Option Bracket
  | union _ => some .square
  | record _ => some .curly
  | _ => none

/-- The types one step away, a field's with its name. -/
def parts : Shape → List (Option String × Handle)
  | union members => members.map fun member => (none, member)
  | record fields => fields.map fun field => (some field.name, field.type)
  | _ => []

end Shape

/-- The texts of parts, each with its label. -/
def items (parts : List (Option String × Handle)) (texts : List String) : List String :=
  parts.zipWith (fun part text => labelled part.1 text) texts

namespace Shape

/-- What comes after the head of a qualifier. -/
def body (s : Shape) (texts : List String) : List Char :=
  s.bracket.elim [] fun b => b.opening :: joined true (items s.parts texts) ++ [b.closing]

variable {s s' : Shape} {texts texts' : List String}

theorem map_snd_parts (s : Shape) : s.parts.map Prod.snd = s.successors true := by
  cases s <;> simp [parts, successors, Function.comp_def]

theorem parts_eq_nil (leaf : s.bracket = none) : s.parts = [] := by
  cases s with
  | constant | subset => rfl
  | union | record => cases leaf

theorem toList_spell (head : String) (complete : texts.length = (s.successors true).length) :
    (s.spell head texts).toList = head.toList ++ s.body texts := by
  cases s with
  | constant | subset => exact (List.append_nil _).symm
  | union members =>
    have bare : items (parts (union members)) texts = texts := by
      rw [items, parts, List.zipWith_map_left]
      refine List.ext_getElem (by simp [complete, successors]) fun i _ _ => ?_
      simp [labelled]
    simp only [spell, body, bracket, Option.elim, bare, String.toList_append, toList_intercalate,
      List.append_assoc]
    rfl
  | record fields =>
    simp only [spell, body, bracket, Option.elim, items, parts, List.zipWith_map_left,
      String.toList_append, toList_intercalate, List.append_assoc]
    rfl

theorem begins_body (s : Shape) (texts : List String) : Begins breaks (s.body texts) := by
  unfold body
  cases s.bracket with
  | none => exact begins_nil _
  | some b => exact begins_cons.mpr (by cases b <;> decide)

/-- The bracket behind a caption says what kind of type it is, and where its parts end. -/
theorem body_read (begins : Begins followers r) (begins' : Begins followers r')
    (same : s.body texts ++ r = s'.body texts' ++ r') :
    s.bracket = s'.bracket ∧ ∃ q q', Begins closers q ∧ Begins closers q' ∧
      joined true (items s.parts texts) ++ q = joined true (items s'.parts texts') ++ q' ∧
      (q = q' → r = r') := by
  have open_ne {b : Bracket} {q q' : List Char} (begins : Begins followers q) :
      q ≠ b.opening :: q' := by
    rintro rfl
    exact b.opening_not_mem_followers (begins_cons.mp begins)
  unfold body at same
  cases bracket : s.bracket with
  | none =>
    cases bracket' : s'.bracket with
    | none =>
      rw [bracket, bracket'] at same
      rw [parts_eq_nil bracket, parts_eq_nil bracket']
      exact ⟨rfl, [], [], begins_nil _, begins_nil _, rfl, fun _ => same⟩
    | some b' =>
      rw [bracket, bracket'] at same
      exact absurd same (open_ne begins)
  | some b =>
    cases bracket' : s'.bracket with
    | none =>
      rw [bracket, bracket'] at same
      exact absurd same.symm (open_ne begins')
    | some b' =>
      rw [bracket, bracket'] at same
      simp only [Option.elim, List.cons_append, List.append_assoc, List.nil_append] at same
      obtain ⟨opened, inner⟩ := List.cons.inj same
      cases Bracket.opening_inj opened
      have closing (q : List Char) : Begins closers (b.closing :: q) :=
        begins_cons.mpr b.closing_mem_closers
      exact ⟨rfl, _, _, closing _, closing _, inner, fun closed => (List.cons.inj closed).2⟩

/-- With the same head in front, the whole qualifier can be read once its parts can. -/
theorem spell_read {head : String} (complete : texts.length = (s.successors true).length)
    (complete' : texts'.length = (s'.successors true).length) (begins : Begins followers r)
    (begins' : Begins followers r')
    (same : (s.spell head texts).toList ++ r = (s'.spell head texts').toList ++ r') :
    s.bracket = s'.bracket ∧ ∃ q q', Begins closers q ∧ Begins closers q' ∧
      joined true (items s.parts texts) ++ q = joined true (items s'.parts texts') ++ q' ∧
      (q = q' → r = r' ∧ s.spell head texts = s'.spell head texts') := by
  have bodies := same
  rw [toList_spell head complete, toList_spell head complete', List.append_assoc,
    List.append_assoc] at bodies
  obtain ⟨brackets, q, q', closed, closed', inner, closes⟩ :=
    body_read begins begins' (List.append_cancel_left bodies)
  refine ⟨brackets, q, q', closed, closed', inner, fun ends => ?_⟩
  have left := closes ends
  rw [left] at same
  exact ⟨left, String.toList_inj.mp (List.append_cancel_right same)⟩

end Shape

end TypeHierarchy
