import TypeHierarchy.Proofs.Legibility
import TypeHierarchy.Proofs.Sketch

/-!
# What a qualifier tells

A qualifier tells all that can be reached from a type through members and fields: the names, the
attributes and what each type is made of (`qualifier_structure`).  To see this, two qualifiers with
the same text are read side by side (`Readable.lockstep`).  Each caption names the same type on both
sides, so the type is new on both or known on both, and what is remembered stays the same.  A new
type is followed by its parts, and so every type is made of the same parts on both sides.
-/

namespace TypeHierarchy

open Relation

/-- The names of the types one step away. -/
def Sketch.names : Sketch → List String
  | leaf _ => []
  | union members => members
  | record fields => fields.map Prod.snd

namespace Environment

/-- No mark stands in the name of a type or a field. -/
def Legible (env : Environment) : Prop :=
  ∀ e ∈ env.entries, Unmarked e.name ∧ ∀ field ∈ e.shape.fields, Unmarked field.name

instance (env : Environment) : Decidable env.Legible :=
  decidable_of_iff (env.entries.toList.all fun e =>
      Unmarked e.name && e.shape.fields.all (Unmarked ·.name))
    (by simp only [List.all_eq_true, Array.mem_toList_iff, Bool.and_eq_true, decide_eq_true_eq,
      Legible])

/-! ## What is remembered in the end -/

/-- Types once remembered stay so, the listed ones are remembered in the end, and so is all that lies
one step behind a new one. -/
structure Entered (env : Environment) (seen : Handle → Option String) (hs : List Handle)
    (after : Handle → Option String) : Prop where
  kept : ∀ x, seen x ≠ none → after x ≠ none
  listed : ∀ h ∈ hs, after h ≠ none
  steps : ∀ x, seen x = none → after x ≠ none → ∀ next, env.Leads true x next → after next ≠ none

variable {env : Environment} {h x : Handle} {hs : List Handle} {texts : List String}
  {seen after : Handle → Option String}

theorem update_ne_none (text : String) (known : seen x ≠ none ∨ x = h) :
    Function.update seen h (some text) x ≠ none := by
  by_cases here : x = h
  · subst here
    simp
  · rw [Function.update_of_ne here]
    exact known.resolve_right here

theorem Spells.entered (spells : env.Spells seen hs texts after) :
    env.Entered seen hs after := by
  induction spells with
  | nil =>
    exact ⟨fun x known => known, fun h mem => absurd mem List.not_mem_nil,
      fun x missing known => absurd missing known⟩
  | seen found _ ih =>
    refine ⟨ih.kept, List.forall_mem_cons.mpr ⟨ih.kept _ ?_, ih.listed⟩, ih.steps⟩
    rw [found]
    exact Option.some_ne_none _
  | @fresh _ middle after h _ s _ _ _ _ shape _ _ _ inner rest =>
    have kept (x : Handle) (known : middle x ≠ none ∨ x = h) : after x ≠ none :=
      rest.kept x (update_ne_none _ known)
    refine ⟨fun x known => kept x (.inl (inner.kept x (update_ne_none _ (.inl known)))),
      List.forall_mem_cons.mpr ⟨kept h (.inr rfl), rest.listed⟩,
      fun x missing known next leads => ?_⟩
    by_cases here : x = h
    · subst here
      exact kept next (.inl (inner.listed next ((leads_iff shape).mp leads)))
    · by_cases later : middle x = none
      · refine rest.steps x ?_ known next leads
        rwa [Function.update_of_ne here]
      · refine kept next (.inl (inner.steps x ?_ later next leads))
        rwa [Function.update_of_ne here]

/-- With nothing remembered before, all that can be reached is remembered in the end. -/
theorem Spells.ne_none_of_path {t : Handle} (spells : env.Spells (fun _ => none) [t] texts after)
    (path : ReflTransGen (env.Leads true) t x) : after x ≠ none := by
  have entered := spells.entered
  induction path with
  | refl => exact entered.listed t List.mem_cons_self
  | tail _ step ih => exact entered.steps _ rfl ih _ step

end Environment

/-! ## Two environments -/

open Environment

/-- An environment whose qualifiers can be read, with its names as a plain function. -/
structure Readable where
  env : Environment
  arranged : env.Arranged
  legible : env.Legible
  text : Handle → String
  named : ∀ h, env.owns h = true → env.name h = .ok (text h)

namespace Readable

/-- The parts are types of the environment, and the names of fields hold no marks. -/
def Proper (R : Readable) (parts : List (Option String × Handle)) : Prop :=
  ∀ part ∈ parts, R.env.owns part.2 = true ∧ ∀ field ∈ part.1, Unmarked field

/-- The text starts with the head of the type's qualifier. -/
def Headed (R : Readable) (h : Handle) (text : String) : Prop :=
  ∃ attr tail, R.env.attributeOf h = .ok attr ∧ Begins breaks tail ∧
    text.toList = (Caption.mk none attr (R.text h)).head ++ tail

/-- All that is remembered starts with the head it should start with. -/
def HeadedAll (R : Readable) (seen : Handle → Option String) : Prop :=
  ∀ h text, seen h = some text → R.Headed h text

/-- What is remembered for types of the same name is the same. -/
def Matching (R R' : Readable) (seen seen' : Handle → Option String) : Prop :=
  ∀ x x', R.env.owns x = true → R'.env.owns x' = true → R.text x = R'.text x' → seen x = seen' x'

/-- The types have the same name, the same attribute and the same make, except for bases. -/
structure Alike (R R' : Readable) (x x' : Handle) : Prop where
  name : R.text x = R'.text x'
  attr : R.env.attributeOf x = R'.env.attributeOf x'
  make : ∃ s s', R.env.shape x = .ok s ∧ R'.env.shape x' = .ok s' ∧
    (s.sketch R.text).withoutBase = (s'.sketch R'.text).withoutBase

/-- The parts, with names in the place of handles. -/
def captions (R : Readable) (parts : List (Option String × Handle)) :
    List (Option String × String) :=
  parts.map fun part => (part.1, R.text part.2)

variable {R R' : Readable} {h h' x x' : Handle} {s s' : Shape} {hs hs' : List Handle}
  {text : String} {texts texts' : List String} {seen seen' after after' : Handle → Option String}
  {parts parts' : List (Option String × Handle)}

theorem text_inj (own : R.env.owns h = true) (own' : R.env.owns h' = true)
    (same : R.text h = R.text h') : h = h' :=
  R.arranged.name_inj (R.named h own) (same ▸ R.named h' own')

theorem Alike.owns (alike : R.Alike R' x x') : R.env.owns x = true ∧ R'.env.owns x' = true := by
  obtain ⟨s, s', shape, shape', -⟩ := alike.make
  exact ⟨owns_of_shape shape, owns_of_shape shape'⟩

theorem Alike.name_eq (alike : R.Alike R' x x') : R'.env.name x' = R.env.name x := by
  obtain ⟨own, own'⟩ := alike.owns
  rw [R.named x own, R'.named x' own', alike.name]

theorem unmarked_text (own : R.env.owns h = true) : Unmarked (R.text h) := by
  obtain ⟨-, s, found⟩ := name_eq_ok_iff.mp (R.named h own)
  exact (R.legible _ (Array.mem_of_getElem? found)).1

theorem owns_successors (shape : R.env.shape h = .ok s) :
    ∀ next ∈ s.successors true, R.env.owns next = true :=
  fun _ mem => Leads.owns R.arranged.closed ((leads_iff shape).mpr mem)

theorem proper_parts (shape : R.env.shape h = .ok s) : R.Proper s.parts := by
  intro part mem
  refine ⟨?_, fun field labelled => ?_⟩
  · exact owns_successors shape part.2 (s.map_snd_parts ▸ List.mem_map_of_mem mem)
  · obtain ⟨-, name, found⟩ := shape_eq_ok_iff.mp shape
    have fields := (R.legible _ (Array.mem_of_getElem? found)).2
    cases s with
    | constant | subset => cases mem
    | union members =>
      obtain ⟨member, -, rfl⟩ := List.mem_map.mp mem
      cases labelled
    | record members =>
      obtain ⟨member, listed, rfl⟩ := List.mem_map.mp mem
      cases labelled
      exact fields member listed

/-- Shapes with the same brackets and captions differ in bases only. -/
theorem sketch_eq_of_captions (brackets : s.bracket = s'.bracket)
    (same : R.captions s.parts = R'.captions s'.parts) :
    (s.sketch R.text).withoutBase = (s'.sketch R'.text).withoutBase := by
  unfold captions at same
  cases s with
  | constant | subset =>
    cases s' with
    | constant | subset => rfl
    | union | record => cases brackets
  | union members =>
    cases s' with
    | union members' =>
      have names := congrArg (List.map Prod.snd) same
      simp only [Shape.parts, List.map_map, Function.comp_def] at names
      exact congrArg Sketch.union names
    | constant | subset | record => cases brackets
  | record fields =>
    cases s' with
    | record fields' =>
      have pairs := congrArg (List.map fun pair => (pair.1.getD "", pair.2)) same
      simp only [Shape.parts, List.map_map, Function.comp_def, Option.getD_some] at pairs
      exact congrArg Sketch.record pairs
    | constant | subset | union => cases brackets

theorem map_text_successors (s : Shape) :
    (s.successors true).map R.text = (s.sketch R.text).withoutBase.names := by
  cases s <;> simp [Shape.successors, Shape.sketch, Sketch.withoutBase, Sketch.names]

/-- From types that are alike, the same names are one step away. -/
theorem Alike.exists_leads {next : Handle} (alike : R.Alike R' x x')
    (step : R.env.Leads true x next) :
    ∃ next', R'.env.Leads true x' next' ∧ R.text next = R'.text next' := by
  obtain ⟨s, s', shape, shape', make⟩ := alike.make
  have names : (s.successors true).map R.text = (s'.successors true).map R'.text := by
    rw [map_text_successors, map_text_successors, make]
  have listed : R.text next ∈ (s.successors true).map R.text :=
    List.mem_map_of_mem ((leads_iff shape).mp step)
  rw [names] at listed
  obtain ⟨next', mem, name⟩ := List.mem_map.mp listed
  exact ⟨next', (leads_iff shape').mpr mem, name.symm⟩

/-! ## Heads -/

theorem exists_toList_head (own : R.env.owns h = true) {head : String}
    (headed : R.env.qualifierHead h = .ok head) :
    ∃ attr, R.env.attributeOf h = .ok attr ∧
      head.toList = (Caption.mk none attr (R.text h)).head := by
  unfold qualifierHead at headed
  obtain ⟨attr, known, headed⟩ := bind_eq_ok_iff.mp headed
  rw [R.named h own] at headed
  cases headed
  refine ⟨attr, known, ?_⟩
  show (String.singleton attr.tag ++ ":" ++ R.text h).toList = _
  simp [Caption.head]

theorem headed_spell (own : R.env.owns h = true) {head : String}
    (headed : R.env.qualifierHead h = .ok head)
    (complete : texts.length = (s.successors true).length) : R.Headed h (s.spell head texts) := by
  obtain ⟨attr, known, heads⟩ := exists_toList_head own headed
  exact ⟨attr, s.body texts, known, s.begins_body texts, heads ▸ Shape.toList_spell head complete⟩

theorem headed_head (own : R.env.owns h = true) {head : String}
    (headed : R.env.qualifierHead h = .ok head) : R.Headed h head := by
  obtain ⟨attr, known, heads⟩ := exists_toList_head own headed
  exact ⟨attr, [], known, begins_nil _, heads.trans (List.append_nil _).symm⟩

theorem HeadedAll.update (headed : R.HeadedAll seen) (here : R.Headed h text) :
    R.HeadedAll (Function.update seen h (some text)) := by
  intro x text' found
  by_cases same : x = h
  · subst same
    rw [Function.update_self] at found
    cases found
    exact here
  · rw [Function.update_of_ne same] at found
    exact headed x text' found

/-- All texts, spelled or remembered, start with heads. -/
theorem headed_of_spells (spells : R.env.Spells seen hs texts after)
    (own : ∀ h ∈ hs, R.env.owns h = true) (headed : R.HeadedAll seen) :
    List.Forall₂ R.Headed hs texts ∧ R.HeadedAll after := by
  induction spells with
  | nil => exact ⟨.nil, headed⟩
  | seen found _ ih =>
    obtain ⟨-, own_hs⟩ := List.forall_mem_cons.mp own
    obtain ⟨each, last⟩ := ih own_hs headed
    exact ⟨.cons (headed _ _ found) each, last⟩
  | fresh _ shape head inner _ ih ih' =>
    obtain ⟨own_h, own_hs⟩ := List.forall_mem_cons.mp own
    obtain ⟨-, middle⟩ := ih (owns_successors shape) (headed.update (headed_head own_h head))
    have here := headed_spell own_h head inner.length_eq
    obtain ⟨each, last⟩ := ih' own_hs (middle.update here)
    exact ⟨.cons here each, last⟩

/-! ## Reading two qualifiers side by side -/

theorem Matching.update (matching : R.Matching R' seen seen') (own : R.env.owns h = true)
    (own' : R'.env.owns h' = true) (same : R.text h = R'.text h') (text : Option String) :
    R.Matching R' (Function.update seen h text) (Function.update seen' h' text) := by
  intro x x' own_x own_x' named
  by_cases here : x = h
  · subst here
    have there : x' = h' := text_inj own_x' own' (named.symm.trans same)
    subst there
    rw [Function.update_self, Function.update_self]
  · have apart : x' ≠ h' := by
      rintro rfl
      exact here (text_inj own_x own (named.trans same.symm))
    rw [Function.update_of_ne here, Function.update_of_ne apart]
    exact matching x x' own_x own_x' named

/-- The text of a part starts with its caption. -/
theorem exists_caption {part : Option String × Handle} (proper : R.Proper (part :: parts))
    (headed : R.Headed part.2 text) :
    ∃ (c : Caption) (tail : List Char), c.field = part.1 ∧ c.name = R.text part.2 ∧
      R.env.attributeOf part.2 = .ok c.attr ∧ c.Clean ∧ Begins breaks tail ∧
      text.toList = c.head ++ tail := by
  obtain ⟨own, fields⟩ := proper part List.mem_cons_self
  obtain ⟨attr, tail, known, begins, spelled⟩ := headed
  exact ⟨⟨part.1, attr, R.text part.2⟩, tail, rfl, rfl, known, ⟨fields, unmarked_text own⟩, begins,
    spelled⟩

/-- Where one text goes on with a part, so does the other, and with one of the same caption. -/
theorem read_part {part : Option String × Handle} {r r' : List Char} {first : Bool}
    (proper : R.Proper (part :: parts)) (headed : R.Headed part.2 text)
    (proper' : R'.Proper parts') (headed' : List.Forall₂ R'.Headed (parts'.map Prod.snd) texts')
    (closed : Begins closers r) (closed' : Begins closers r')
    (same : joined first (items (part :: parts) (text :: texts)) ++ r =
      joined first (items parts' texts') ++ r') :
    ∃ part' rest text' others, parts' = part' :: rest ∧ texts' = text' :: others ∧
      part.1 = part'.1 ∧ R.text part.2 = R'.text part'.2 ∧
      R.env.attributeOf part.2 = R'.env.attributeOf part'.2 ∧
      text.toList ++ (joined false (items parts texts) ++ r) =
        text'.toList ++ (joined false (items rest others) ++ r') := by
  obtain ⟨c, tail, label, name, known, clean, begins, spelled⟩ := exists_caption proper headed
  have captioned := toList_labelled spelled
  rw [label] at captioned
  cases parts' with
  | nil =>
    have ends : Begins closers (joined first (items (part :: parts) (text :: texts)) ++ r) := by
      rw [same]
      exact closed'
    exact absurd ends (not_begins_joined clean captioned _)
  | cons part' rest =>
    cases headed' with
    | @cons _ text' _ others headed' _ =>
      obtain ⟨c', tail', label', name', known', clean', begins', spelled'⟩ :=
        exists_caption proper' headed'
      have captioned' := toList_labelled spelled'
      rw [label'] at captioned'
      have follow := (begins_joined (items parts texts) closed).mono followers_subset_breaks
      have follow' := (begins_joined (items rest others) closed').mono followers_subset_breaks
      simp only [items, List.zipWith_cons_cons, joined, captioned, captioned', List.append_assoc,
        List.append_cancel_left_eq] at same
      obtain ⟨rfl, tails⟩ :=
        Caption.read clean clean' (begins.append follow) (begins'.append follow') same
      refine ⟨part', rest, text', others, rfl, rfl, label.symm.trans label', name.symm.trans name',
        known.trans known'.symm, ?_⟩
      rw [spelled, spelled', List.append_assoc, List.append_assoc]
      exact congrArg (c.head ++ ·) tails

/-- What comes out of reading two lists of parts side by side: their captions are the same and what
is left is, what is remembered stays the same, and each type that was new has its like. -/
structure ReadAlike (R R' : Readable) (parts parts' : List (Option String × Handle))
    (seen after after' : Handle → Option String) (r r' : List Char) : Prop where
  captions : R.captions parts = R'.captions parts'
  rest : r = r'
  matching : R.Matching R' after after'
  alike : ∀ x, seen x = none → after x ≠ none → ∃ x', R.Alike R' x x'

theorem Proper.owns (proper : R.Proper parts) : ∀ h ∈ parts.map Prod.snd, R.env.owns h = true := by
  intro h mem
  obtain ⟨part, listed, rfl⟩ := List.mem_map.mp mem
  exact (proper part listed).1

theorem qualifierHead_eq (own : R.env.owns h = true) (own' : R'.env.owns h' = true)
    (name : R.text h = R'.text h') (attr : R.env.attributeOf h = R'.env.attributeOf h') :
    R.env.qualifierHead h = R'.env.qualifierHead h' := by
  rw [qualifierHead, qualifierHead, attr, R.named h own, R'.named h' own', name]

theorem ReadAlike.cons {part part' : Option String × Handle} {r r' : List Char}
    (read : R.ReadAlike R' parts parts' seen after after' r r') (label : part.1 = part'.1)
    (name : R.text part.2 = R'.text part'.2) :
    R.ReadAlike R' (part :: parts) (part' :: parts') seen after after' r r' :=
  { read with captions := congrArg₂ List.cons (Prod.ext label name) read.captions }

/-- A type that is new has its parts read first and then what comes after it. -/
theorem ReadAlike.enter {middle middle' : Handle → Option String} {q q' r r' : List Char}
    {head text : Option String} (alike : R.Alike R' h h')
    (inner : R.ReadAlike R' s.parts s'.parts (Function.update seen h head) middle middle' q q')
    (rest : R.ReadAlike R' parts parts' (Function.update middle h text) after after' r r') :
    R.ReadAlike R' parts parts' seen after after' r r' := by
  refine { rest with alike := fun x missing entered => ?_ }
  by_cases here : x = h
  · subst here
    exact ⟨h', alike⟩
  · by_cases later : middle x = none
    · refine rest.alike x ?_ entered
      rwa [Function.update_of_ne here]
    · refine inner.alike x ?_ later
      rwa [Function.update_of_ne here]

/-- Texts that are the same can be read side by side, and the same parts come up on both sides. -/
theorem lockstep {r r' : List Char} {first : Bool} (spells : R.env.Spells seen hs texts after)
    (spells' : R'.env.Spells seen' hs' texts' after') (listed : parts.map Prod.snd = hs)
    (listed' : parts'.map Prod.snd = hs') (proper : R.Proper parts) (proper' : R'.Proper parts')
    (headed : R.HeadedAll seen) (headed' : R'.HeadedAll seen')
    (matching : R.Matching R' seen seen') (closed : Begins closers r) (closed' : Begins closers r')
    (same : joined first (items parts texts) ++ r = joined first (items parts' texts') ++ r') :
    R.ReadAlike R' parts parts' seen after after' r r' := by
  induction spells generalizing seen' hs' texts' after' parts parts' first r r' with
  | nil =>
    cases List.map_eq_nil_iff.mp listed
    subst listed'
    cases parts' with
    | nil =>
      cases spells'
      exact ⟨rfl, same, matching, fun x missing entered => absurd missing entered⟩
    | cons part' rest' =>
      obtain ⟨each', -⟩ := headed_of_spells spells' proper'.owns headed'
      cases each' with
      | cons head' _ =>
        obtain ⟨_, _, _, _, more, -⟩ :=
          read_part proper' head' proper .nil closed' closed same.symm
        cases more
  | seen found rest ih =>
    obtain ⟨part, others, rfl, rfl, listed_others⟩ := List.map_eq_cons_iff.mp listed
    subst listed'
    obtain ⟨each', -⟩ := headed_of_spells spells' proper'.owns headed'
    obtain ⟨part', others', text', texts', rfl, rfl, label, name, attr, tails⟩ :=
      read_part proper (headed _ _ found) proper' each' closed closed' same
    obtain ⟨own, proper_others⟩ := List.forall_mem_cons.mp proper
    obtain ⟨own', proper_others'⟩ := List.forall_mem_cons.mp proper'
    -- The caption names one type on both sides, so the other side remembers a text for it as well.
    have known := matching part.2 part'.2 own.1 own'.1 name
    cases spells' with
    | seen found' rest' =>
      cases found.symm.trans (known.trans found')
      have read := ih rest' listed_others rfl proper_others proper_others' headed headed' matching
        closed closed' (List.append_cancel_left tails)
      exact read.cons label name
    | fresh missing' => cases found.symm.trans (known.trans missing')
  | @fresh _ _ _ _ _ s head inner_texts _ missing shape heads inner _ ih ih' =>
    obtain ⟨part, others, rfl, rfl, listed_others⟩ := List.map_eq_cons_iff.mp listed
    subst listed'
    obtain ⟨own, proper_others⟩ := List.forall_mem_cons.mp proper
    have whole := headed_spell own.1 heads inner.length_eq
    obtain ⟨each', -⟩ := headed_of_spells spells' proper'.owns headed'
    obtain ⟨part', others', text', texts', rfl, rfl, label, name, attr, tails⟩ :=
      read_part proper whole proper' each' closed closed' same
    obtain ⟨own', proper_others'⟩ := List.forall_mem_cons.mp proper'
    have known := matching part.2 part'.2 own.1 own'.1 name
    cases spells' with
    | seen found' => cases missing.symm.trans (known.trans found')
    | @fresh _ _ _ _ _ s' head' inner_texts' _ missing' shape' heads' inner' rest' =>
      cases heads.symm.trans ((qualifierHead_eq own.1 own'.1 name attr).trans heads')
      have entered := headed.update (headed_head own.1 heads)
      have entered' := headed'.update (headed_head own'.1 heads')
      obtain ⟨-, left⟩ := headed_of_spells inner (owns_successors shape) entered
      obtain ⟨-, left'⟩ := headed_of_spells inner' (owns_successors shape') entered'
      have whole' := headed_spell own'.1 heads' inner'.length_eq
      -- The parts end where the bracket closes, and only then the rest can be compared.
      obtain ⟨brackets, q, q', closed_q, closed_q', inside, closes⟩ :=
        Shape.spell_read inner.length_eq inner'.length_eq (begins_joined _ closed)
          (begins_joined _ closed') tails
      have read := ih inner' s.map_snd_parts s'.map_snd_parts (proper_parts shape)
        (proper_parts shape') entered entered' (matching.update own.1 own'.1 name _) closed_q
        closed_q' inside
      obtain ⟨rests, texts_eq⟩ := closes read.rest
      have matching' := read.matching.update own.1 own'.1 name (some (s.spell head inner_texts))
      rw [← texts_eq] at rest' whole'
      have read_rest := ih' rest' listed_others rfl proper_others proper_others'
        (left.update whole) (left'.update whole') matching' closed closed' rests
      have alike : R.Alike R' part.2 part'.2 :=
        ⟨name, attr, s, s', shape, shape', sketch_eq_of_captions brackets read.captions⟩
      exact (ReadAlike.enter alike read read_rest).cons label name

/-! ## All that can be reached -/

/-- Types with the same qualifier lead to types that are alike, along the same ways. -/
theorem exists_alike {t t' : Handle} (own : R.env.owns t = true) (own' : R'.env.owns t' = true)
    (same : R.env.qualifier t = R'.env.qualifier t')
    (path : ReflTransGen (R.env.Leads true) t x) :
    ∃ x', ReflTransGen (R'.env.Leads true) t' x' ∧ R.Alike R' x x' := by
  obtain ⟨text, after, spelled, spells⟩ := exists_qualifier_spells R.arranged.closed own
  obtain ⟨text', after', spelled', spells'⟩ := exists_qualifier_spells R'.arranged.closed own'
  cases spelled.symm.trans (same.trans spelled')
  have proper (R : Readable) (t : Handle) (own : R.env.owns t = true) : R.Proper [(none, t)] :=
    List.forall_mem_singleton.mpr ⟨own, fun field mem => by cases mem⟩
  have nothing (R : Readable) : R.HeadedAll fun _ => none := fun _ _ found => by cases found
  have texts : joined true (items [(none, t)] [text]) ++ [] =
      joined true (items [(none, t')] [text]) ++ [] := rfl
  have read := lockstep spells spells' rfl rfl (proper R t own) (proper R' t' own') (nothing R)
    (nothing R') (fun _ _ _ _ _ => rfl) (begins_nil _) (begins_nil _) texts
  induction path with
  | refl =>
    obtain ⟨x', alike⟩ := read.alike t rfl (spells.ne_none_of_path .refl)
    have names : R.text t = R'.text t' := (Prod.mk.inj (List.cons.inj read.captions).1).2
    have here : x' = t' := text_inj alike.owns.2 own' (alike.name.symm.trans names)
    subst here
    exact ⟨x', .refl, alike⟩
  | @tail y z path step ih =>
    obtain ⟨y', path', alike⟩ := ih
    obtain ⟨z', step', name⟩ := alike.exists_leads step
    obtain ⟨like, alike_z⟩ := read.alike z rfl (spells.ne_none_of_path (path.tail step))
    have here : like = z' := text_inj alike_z.owns.2 (step'.owns R'.arranged.closed)
      (alike_z.name.symm.trans name)
    subst here
    exact ⟨like, path'.tail step', alike_z⟩

end Readable

namespace Environment

variable {env env' : Environment} {t t' : Handle}

/-- Types with the same qualifier reach the same names, and types reached under one name have the
same attribute and the same make, except for bases. -/
theorem qualifier_structure (reachable : env.Reachable) (reachable' : env'.Reachable)
    (legible : env.Legible) (legible' : env'.Legible) (own : env.owns t = true)
    (own' : env'.owns t' = true) (same : env.qualifier t = env'.qualifier t') :
    (∀ name, (∃ x, ReflTransGen (env.Leads true) t x ∧ env.name x = .ok name) ↔
      ∃ x', ReflTransGen (env'.Leads true) t' x' ∧ env'.name x' = .ok name) ∧
    ∀ x x' name, ReflTransGen (env.Leads true) t x → ReflTransGen (env'.Leads true) t' x' →
      env.name x = .ok name → env'.name x' = .ok name →
      ∃ attr make make', env.attributeOf x = .ok attr ∧ env'.attributeOf x' = .ok attr ∧
        env.sketch x = .ok make ∧ env'.sketch x' = .ok make' ∧
        make.withoutBase = make'.withoutBase := by
  obtain ⟨text, named⟩ := env.exists_names
  obtain ⟨text', named'⟩ := env'.exists_names
  let R : Readable := ⟨env, reachable.arranged, legible, text, named⟩
  let R' : Readable := ⟨env', reachable'.arranged, legible', text', named'⟩
  have there (x : Handle) (path : ReflTransGen (env.Leads true) t x) :
      ∃ x', ReflTransGen (env'.Leads true) t' x' ∧ R.Alike R' x x' :=
    @Readable.exists_alike R R' x t t' own own' same path
  have back (x' : Handle) (path : ReflTransGen (env'.Leads true) t' x') :
      ∃ x, ReflTransGen (env.Leads true) t x ∧ R'.Alike R x' x :=
    @Readable.exists_alike R' R x' t' t own' own same.symm path
  refine ⟨fun name => ⟨?_, ?_⟩, fun x x' name path path' name_x name_x' => ?_⟩
  · rintro ⟨x, path, name_x⟩
    obtain ⟨x', path', alike⟩ := there x path
    exact ⟨x', path', alike.name_eq.trans name_x⟩
  · rintro ⟨x', path', name_x'⟩
    obtain ⟨x, path, alike⟩ := back x' path'
    exact ⟨x, path, alike.name_eq.trans name_x'⟩
  · obtain ⟨like, -, alike⟩ := there x path
    cases R'.arranged.name_inj (alike.name_eq.trans name_x) name_x'
    obtain ⟨s, s', shape, shape', make⟩ := alike.make
    have classified := attributeOf_eq R.arranged.closed alike.owns.1
    exact ⟨_, _, _, classified, alike.attr.symm.trans classified,
      sketch_eq R.arranged.closed named shape, sketch_eq R'.arranged.closed named' shape', make⟩

/-- Chains of keys; a key is a small number or a symbol. -/
def smallChain : Environment :=
  { initial ⟨0⟩ with entries := (initial ⟨0⟩).entries ++
      #[⟨"Small", .subset ⟨⟨0⟩, 4⟩ false⟩,
        ⟨"Key", .union [⟨⟨0⟩, 8⟩, ⟨⟨0⟩, 6⟩]⟩,
        ⟨"Chain", .union [⟨⟨0⟩, 9⟩, ⟨⟨0⟩, 11⟩]⟩,
        ⟨"Link", .record [⟨"key", ⟨⟨0⟩, 9⟩⟩, ⟨"next", ⟨⟨0⟩, 10⟩⟩]⟩] }

/-- Chains in another environment, where they come first and small numbers are constants. -/
def constantChain : Environment :=
  { initial ⟨1⟩ with entries := (initial ⟨1⟩).entries ++
      #[⟨"Chain", .union [⟨⟨1⟩, 10⟩, ⟨⟨1⟩, 9⟩]⟩,
        ⟨"Link", .record [⟨"key", ⟨⟨1⟩, 10⟩⟩, ⟨"next", ⟨⟨1⟩, 8⟩⟩]⟩,
        ⟨"Key", .union [⟨⟨1⟩, 11⟩, ⟨⟨1⟩, 6⟩]⟩,
        ⟨"Small", .subset ⟨⟨1⟩, 0⟩ false⟩] }

theorem reachable_smallChain : smallChain.Reachable := by
  have made : Environment.after [.declare 0 "Small" (.subset ⟨⟨0⟩, 4⟩), .declare 0 "Key" .union,
      .declare 0 "Chain" .union, .declare 0 "Link" .record, .addMember 0 ⟨⟨0⟩, 9⟩ ⟨⟨0⟩, 8⟩,
      .addMember 0 ⟨⟨0⟩, 9⟩ ⟨⟨0⟩, 6⟩, .addMember 0 ⟨⟨0⟩, 10⟩ ⟨⟨0⟩, 9⟩,
      .addMember 0 ⟨⟨0⟩, 10⟩ ⟨⟨0⟩, 11⟩, .addField 0 ⟨⟨0⟩, 11⟩ "key" ⟨⟨0⟩, 9⟩,
      .addField 0 ⟨⟨0⟩, 11⟩ "next" ⟨⟨0⟩, 10⟩] = smallChain := by decide +kernel
  exact made ▸ reachable_after _

theorem reachable_constantChain : constantChain.Reachable := by
  have made : (Workspace.run {} [.create, .create, .declare 1 "Chain" .union,
      .declare 1 "Link" .record, .declare 1 "Key" .union, .declare 1 "Small" (.subset ⟨⟨1⟩, 0⟩),
      .addMember 1 ⟨⟨1⟩, 8⟩ ⟨⟨1⟩, 10⟩, .addMember 1 ⟨⟨1⟩, 8⟩ ⟨⟨1⟩, 9⟩,
      .addMember 1 ⟨⟨1⟩, 10⟩ ⟨⟨1⟩, 11⟩, .addMember 1 ⟨⟨1⟩, 10⟩ ⟨⟨1⟩, 6⟩,
      .addField 1 ⟨⟨1⟩, 9⟩ "key" ⟨⟨1⟩, 10⟩,
      .addField 1 ⟨⟨1⟩, 9⟩ "next" ⟨⟨1⟩, 8⟩]).environments[1]? = some constantChain := by
    decide +kernel
  exact ⟨_, .run .empty _, Array.mem_of_getElem? made⟩

/-- Chains have the same qualifier in both environments.  In it a key is spelled out twice, and the
chain inside a link is not.  Links are reached in both, and small numbers have the same attribute;
only their bases differ. -/
theorem qualifier_structure_smallChain :
    smallChain.qualifier ⟨⟨0⟩, 10⟩ = constantChain.qualifier ⟨⟨1⟩, 8⟩ ∧
    (∃ x', ReflTransGen (constantChain.Leads true) ⟨⟨1⟩, 8⟩ x' ∧
      constantChain.name x' = .ok "Link") ∧
    ∃ attr make make', smallChain.attributeOf ⟨⟨0⟩, 8⟩ = .ok attr ∧
      constantChain.attributeOf ⟨⟨1⟩, 11⟩ = .ok attr ∧ smallChain.sketch ⟨⟨0⟩, 8⟩ = .ok make ∧
      constantChain.sketch ⟨⟨1⟩, 11⟩ = .ok make' ∧ make.withoutBase = make'.withoutBase ∧
      make ≠ make' := by
  have spelled : smallChain.qualifier ⟨⟨0⟩, 10⟩ = .ok ("r:Chain[r:Key[i:Small,s:symbol]," ++
      "r:Link\x7bkey#r:Key[i:Small,s:symbol],next#r:Chain\x7d]") :=
    eq_ok_of_toOption (by decide +kernel)
  have spelled' : constantChain.qualifier ⟨⟨1⟩, 8⟩ = .ok ("r:Chain[r:Key[i:Small,s:symbol]," ++
      "r:Link\x7bkey#r:Key[i:Small,s:symbol],next#r:Chain\x7d]") :=
    eq_ok_of_toOption (by decide +kernel)
  have same := spelled.trans spelled'.symm
  have link : smallChain.Leads true ⟨⟨0⟩, 10⟩ ⟨⟨0⟩, 11⟩ := ⟨_, rfl, by decide⟩
  have key : smallChain.Leads true ⟨⟨0⟩, 10⟩ ⟨⟨0⟩, 9⟩ := ⟨_, rfl, by decide⟩
  have small : smallChain.Leads true ⟨⟨0⟩, 9⟩ ⟨⟨0⟩, 8⟩ := ⟨_, rfl, by decide⟩
  have key' : constantChain.Leads true ⟨⟨1⟩, 8⟩ ⟨⟨1⟩, 10⟩ := ⟨_, rfl, by decide⟩
  have small' : constantChain.Leads true ⟨⟨1⟩, 10⟩ ⟨⟨1⟩, 11⟩ := ⟨_, rfl, by decide⟩
  obtain ⟨names, each⟩ := qualifier_structure reachable_smallChain reachable_constantChain
    (by decide +kernel) (by decide +kernel) (by decide) (by decide) same
  obtain ⟨attr, make, make', classified, classified', made, made', alike⟩ := each ⟨⟨0⟩, 8⟩
    ⟨⟨1⟩, 11⟩ "Small" (.tail (.single key) small) (.tail (.single key') small') rfl rfl
  refine ⟨same, (names "Link").mp ⟨_, .single link, rfl⟩, attr, make, make', classified,
    classified', made, made', alike, ?_⟩
  cases made
  cases made'
  decide

end Environment

end TypeHierarchy
