import TypeHierarchy.Proofs.Bounds

/-!
# Environments that mirror each other

A map of handles mirrors one environment in another when it takes each type to a type of the same
make: a constant type of the same kind, a subset of the image of the base, a union whose members are
the images of the members, a record whose field types are the images of the field types.  Order and
repetitions do not count, nor do names, and the second environment may have further types.

What queries are about is then the same in both environments: reduction (`Mirrored.reduces_iff`),
recursion (`Mirrored.recursive_iff`), subtyping (`Mirrored.below_iff`) and the members that a greatest
bound is looked for among (`Mirrored.collected_iff`).  A least bound is looked for among all types, so
there the further types must not come into play (`Conserved`); bounds then have the images as their
types (`Conserved.isBound_iff`, `Conserved.isCrossBound_iff`).
-/

namespace TypeHierarchy

/-- The map takes some type with the property to this one. -/
def Image (f : Handle → Handle) (p : Handle → Prop) (x : Handle) : Prop := ∃ t, p t ∧ f t = x

/-- The second shape is made of the images of what the first one is made of. -/
inductive Shape.Mirrored (f : Handle → Handle) : Shape → Shape → Prop
  | constant (kind : Kind) : Mirrored f (.constant kind) (.constant kind)
  | subset (base : Handle) (primitive : Bool) :
      Mirrored f (.subset base primitive) (.subset (f base) primitive)
  | union {members members' : List Handle} (same : ∀ x, x ∈ members' ↔ x ∈ members.map f) :
      Mirrored f (.union members) (.union members')
  | record {fields fields' : List Field}
      (same : ∀ x, x ∈ fields'.map Field.type ↔ x ∈ (fields.map Field.type).map f) :
      Mirrored f (.record fields) (.record fields')

namespace Shape.Mirrored

variable {f : Handle → Handle} {s s' : Shape} {x : Handle} {throughFields : Bool}

theorem isRecord_eq (mirrored : s.Mirrored f s') : s'.isRecord = s.isRecord := by
  cases mirrored <;> rfl

theorem isUnion_eq (mirrored : s.Mirrored f s') : s'.isUnion = s.isUnion := by
  cases mirrored <;> rfl

theorem mem_successors (mirrored : s.Mirrored f s') :
    x ∈ s'.successors throughFields ↔ Image f (· ∈ s.successors throughFields) x := by
  cases mirrored with
  | constant | subset => simp [Image, successors]
  | union same => exact (same x).trans List.mem_map
  | record same =>
    cases throughFields with
    | false => simp [Image, successors]
    | true => exact (same x).trans List.mem_map

end Shape.Mirrored

namespace Environment

open Relation

/-- The map takes the types of the first environment to types of the same make in the second. -/
structure Mirrored (env : Environment) (f : Handle → Handle) (env' : Environment) : Prop where
  injective : ∀ {a b : Handle}, env.owns a = true → env.owns b = true → f a = f b → a = b
  shape : ∀ {h : Handle} {s : Shape}, env.shape h = .ok s →
    ∃ s', env'.shape (f h) = .ok s' ∧ s.Mirrored f s'

variable {env env' : Environment} {f : Handle → Handle} {a b h root x y : Handle} {s s' : Shape}
  {throughFields : Bool} {bound : Bound}

namespace Mirrored

theorem owns (mirrored : env.Mirrored f env') (own : env.owns h = true) :
    env'.owns (f h) = true := by
  obtain ⟨s, hs⟩ := exists_shape own
  obtain ⟨s', hs', -⟩ := mirrored.shape hs
  exact owns_of_shape hs'

theorem exists_shape (mirrored : env.Mirrored f env') (own : env.owns h = true)
    (hs' : env'.shape (f h) = .ok s') : ∃ s, env.shape h = .ok s ∧ s.Mirrored f s' := by
  obtain ⟨s, hs⟩ := Environment.exists_shape own
  obtain ⟨s'', hs'', made⟩ := mirrored.shape hs
  cases hs'.symm.trans hs''
  exact ⟨s, hs, made⟩

theorem image_iff (mirrored : env.Mirrored f env') {p : Handle → Prop}
    (own : ∀ t, p t → env.owns t = true) (own_h : env.owns h = true) :
    Image f p (f h) ↔ p h := by
  constructor
  · rintro ⟨t, ht, same⟩
    exact mirrored.injective (own t ht) own_h same ▸ ht
  · exact fun hp => ⟨h, hp, rfl⟩

/-! ## Recursion -/

theorem leads_iff (mirrored : env.Mirrored f env') (own : env.owns h = true) :
    env'.Leads throughFields (f h) x ↔ Image f (env.Leads throughFields h) x := by
  obtain ⟨s, hs⟩ := Environment.exists_shape own
  obtain ⟨s', hs', made⟩ := mirrored.shape hs
  rw [Environment.leads_iff hs', made.mem_successors]
  simp only [Image, Environment.leads_iff hs]

theorem path_iff (mirrored : env.Mirrored f env') (closed : env.Closed) (own : env.owns h = true) :
    TransGen (env'.Leads throughFields) (f h) x ↔
      Image f (TransGen (env.Leads throughFields) h) x := by
  constructor
  · intro path
    induction path with
    | single step =>
      obtain ⟨t, first, rfl⟩ := (mirrored.leads_iff own).mp step
      exact ⟨t, .single first, rfl⟩
    | tail _ step ih =>
      obtain ⟨t, path, rfl⟩ := ih
      obtain ⟨next, further, rfl⟩ := (mirrored.leads_iff (owns_of_path closed path)).mp step
      exact ⟨next, path.tail further, rfl⟩
  · rintro ⟨t, path, rfl⟩
    induction path with
    | single step => exact .single ((mirrored.leads_iff own).mpr ⟨_, step, rfl⟩)
    | tail path step ih =>
      exact ih.tail ((mirrored.leads_iff (owns_of_path closed path)).mpr ⟨_, step, rfl⟩)

theorem recursive_iff (mirrored : env.Mirrored f env') (closed : env.Closed)
    (own : env.owns h = true) : env'.Recursive (f h) ↔ env.Recursive h := by
  obtain ⟨s, hs⟩ := Environment.exists_shape own
  obtain ⟨s', hs', made⟩ := mirrored.shape hs
  rw [Environment.recursive_iff hs', Environment.recursive_iff hs, made.isRecord_eq,
    mirrored.path_iff closed own]
  exact mirrored.image_iff (fun _ path => owns_of_path closed path) own

/-! ## Reduction -/

theorem reduces (mirrored : env.Mirrored f env') (reduces : env.Reduces h root) :
    env'.Reduces (f h) (f root) := by
  induction reduces with
  | constant shape =>
    obtain ⟨s', hs', made⟩ := mirrored.shape shape
    cases made
    exact .constant hs'
  | itself shape =>
    obtain ⟨s', hs', made⟩ := mirrored.shape shape
    cases made
    exact .itself hs'
  | subset shape _ ih =>
    obtain ⟨s', hs', made⟩ := mirrored.shape shape
    cases made
    exact .subset hs' ih
  | union shape nonempty _ ih =>
    obtain ⟨s', hs', made⟩ := mirrored.shape shape
    cases made with
    | union same =>
      refine .union hs' ?_ fun x hx => ?_
      · rintro rfl
        obtain ⟨member, mem⟩ := List.exists_mem_of_ne_nil _ nonempty
        exact absurd ((same _).mpr (List.mem_map_of_mem mem)) List.not_mem_nil
      · obtain ⟨member, mem, rfl⟩ := List.mem_map.mp ((same x).mp hx)
        exact ih member mem

/-- What the image of a type reduces to is the image of what the type reduces to. -/
theorem image_of_reduces (mirrored : env.Mirrored f env') (closed : env.Closed)
    (reduces : env'.Reduces x y) (own : env.owns h = true) (hx : f h = x) :
    Image f (env.Reduces h) y := by
  induction reduces generalizing h with
  | constant shape =>
    subst hx
    obtain ⟨s, hs, made⟩ := mirrored.exists_shape own shape
    cases made
    exact ⟨h, .constant hs, rfl⟩
  | itself shape =>
    subst hx
    obtain ⟨s, hs, made⟩ := mirrored.exists_shape own shape
    cases made
    exact ⟨h, .itself hs, rfl⟩
  | subset shape _ ih =>
    subst hx
    obtain ⟨s, hs, made⟩ := mirrored.exists_shape own shape
    cases made
    obtain ⟨root, reduces, image⟩ := ih (closed.owns_of_mem hs List.mem_cons_self) rfl
    exact ⟨root, .subset hs reduces, image⟩
  | @union _ y members' shape nonempty _ ih =>
    subst hx
    obtain ⟨s, hs, made⟩ := mirrored.exists_shape own shape
    cases made with
    | @union members _ same =>
      have each (member : Handle) (mem : member ∈ members) : Image f (env.Reduces member) y :=
        ih _ ((same _).mpr (List.mem_map_of_mem mem)) (closed.owns_of_mem hs mem) rfl
      -- All members reduce to the same type, because their images do.
      obtain ⟨_, first'⟩ := List.exists_mem_of_ne_nil _ nonempty
      obtain ⟨first, mem_first, -⟩ := List.mem_map.mp ((same _).mp first')
      obtain ⟨root, reduces, image⟩ := each first mem_first
      refine ⟨root, .union hs (List.ne_nil_of_mem mem_first) fun member mem => ?_, image⟩
      obtain ⟨other, reduces', image'⟩ := each member mem
      exact mirrored.injective reduces'.owns_root reduces.owns_root (image'.trans image.symm) ▸ reduces'

theorem reduces_iff (mirrored : env.Mirrored f env') (closed : env.Closed)
    (own : env.owns h = true) (own_root : env.owns root = true) :
    env'.Reduces (f h) (f root) ↔ env.Reduces h root := by
  constructor
  · intro reduces
    have image := mirrored.image_of_reduces closed reduces own rfl
    exact (mirrored.image_iff (fun _ reduces => reduces.owns_root) own_root).mp image
  · exact mirrored.reduces

/-! ## Subtyping -/

theorem below (mirrored : env.Mirrored f env') (closed : env.Closed) (below : env.Below a b) :
    env'.Below (f a) (f b) := by
  induction below with
  | refl a => exact .refl (f a)
  | root reduces => exact .root (mirrored.reduces reduces)
  | left ha hb na nb _ ih =>
    obtain ⟨_, ha', made_a⟩ := mirrored.shape ha
    obtain ⟨_, hb', made_b⟩ := mirrored.shape hb
    cases made_b
    cases made_a with
    | union same =>
      refine .left ha' hb' ?_ ?_ fun x hx => ?_
      · rwa [mirrored.recursive_iff closed (owns_of_shape ha)]
      · rwa [mirrored.recursive_iff closed (owns_of_shape hb)]
      · obtain ⟨member, mem, rfl⟩ := List.mem_map.mp ((same x).mp hx)
        exact ih member mem
  | right ha plain hb na nb mem _ ih =>
    obtain ⟨_, ha', made_a⟩ := mirrored.shape ha
    obtain ⟨_, hb', made_b⟩ := mirrored.shape hb
    cases made_b with
    | union same =>
      refine .right ha' (made_a.isUnion_eq.trans plain) hb' ?_ ?_ ?_ ih
      · rwa [mirrored.recursive_iff closed (owns_of_shape ha)]
      · rwa [mirrored.recursive_iff closed (owns_of_shape hb)]
      · exact (same _).mpr (List.mem_map_of_mem mem)

theorem below_of_image (mirrored : env.Mirrored f env') (closed : env.Closed)
    (below : env'.Below x y) (own_a : env.owns a = true) (own_b : env.owns b = true)
    (hx : f a = x) (hy : f b = y) : env.Below a b := by
  induction below generalizing a b with
  | refl =>
    cases mirrored.injective own_a own_b (hx.trans hy.symm)
    exact .refl a
  | root reduces =>
    subst hx hy
    exact .root ((mirrored.reduces_iff closed own_a own_b).mp reduces)
  | left ha hb na nb _ ih =>
    subst hx hy
    obtain ⟨_, ha', made_a⟩ := mirrored.exists_shape own_a ha
    obtain ⟨_, hb', made_b⟩ := mirrored.exists_shape own_b hb
    rw [mirrored.recursive_iff closed own_a] at na
    rw [mirrored.recursive_iff closed own_b] at nb
    cases made_b
    cases made_a with
    | union same =>
      refine .left ha' hb' na nb fun member mem => ?_
      have image := (same (f member)).mpr (List.mem_map_of_mem mem)
      exact ih _ image (closed.owns_of_mem ha' mem) own_b rfl rfl
  | right ha plain hb na nb mem _ ih =>
    subst hx hy
    obtain ⟨_, ha', made_a⟩ := mirrored.exists_shape own_a ha
    obtain ⟨_, hb', made_b⟩ := mirrored.exists_shape own_b hb
    rw [mirrored.recursive_iff closed own_a] at na
    rw [mirrored.recursive_iff closed own_b] at nb
    cases made_b with
    | union same =>
      obtain ⟨other, mem_other, image⟩ := List.mem_map.mp ((same _).mp mem)
      refine .right ha' (made_a.isUnion_eq.symm.trans plain) hb' na nb mem_other ?_
      exact ih own_a (closed.owns_of_mem hb' mem_other) rfl image

theorem below_iff (mirrored : env.Mirrored f env') (closed : env.Closed)
    (own_a : env.owns a = true) (own_b : env.owns b = true) :
    env'.Below (f a) (f b) ↔ env.Below a b :=
  ⟨fun below => mirrored.below_of_image closed below own_a own_b rfl rfl, mirrored.below closed⟩

theorem isUnion_iff (mirrored : env.Mirrored f env') (own : env.owns h = true) :
    env'.IsUnion (f h) ↔ env.IsUnion h := by
  obtain ⟨s, hs⟩ := Environment.exists_shape own
  obtain ⟨s', hs', made⟩ := mirrored.shape hs
  rw [isUnion_iff_of_shape hs', isUnion_iff_of_shape hs, made.isUnion_eq]

/-! ## Greatest bounds -/

theorem opened_iff (mirrored : env.Mirrored f env') (closed : env.Closed)
    (own_a : env.owns a = true) (own_b : env.owns b = true) :
    env'.Opened (f a) (f b) x ↔ Image f (env.Opened a b) x := by
  constructor
  · intro opened
    induction opened with
    | start => exact ⟨a, .start, rfl⟩
    | member _ step outside ih =>
      obtain ⟨u, opened, rfl⟩ := ih
      obtain ⟨m, step', rfl⟩ := (mirrored.leads_iff (opened.owns closed own_a)).mp step
      rw [mirrored.below_iff closed (step'.owns closed) own_b] at outside
      exact ⟨m, .member opened step' outside, rfl⟩
  · rintro ⟨t, opened, rfl⟩
    induction opened with
    | start => exact .start
    | member opened step outside ih =>
      refine .member ih ((mirrored.leads_iff (opened.owns closed own_a)).mpr ⟨_, step, rfl⟩) ?_
      rwa [mirrored.below_iff closed (step.owns closed) own_b]

theorem collected_iff (mirrored : env.Mirrored f env') (closed : env.Closed)
    (own_a : env.owns a = true) (own_b : env.owns b = true) :
    env'.Collected (f a) (f b) x ↔ Image f (env.Collected a b) x := by
  constructor
  · rintro ⟨⟨_, opened', step'⟩, below⟩
    obtain ⟨u, opened, rfl⟩ := (mirrored.opened_iff closed own_a own_b).mp opened'
    obtain ⟨m, step, rfl⟩ := (mirrored.leads_iff (opened.owns closed own_a)).mp step'
    rw [mirrored.below_iff closed (step.owns closed) own_b] at below
    exact ⟨m, ⟨⟨u, opened, step⟩, below⟩, rfl⟩
  · rintro ⟨m, ⟨⟨u, opened, step⟩, below⟩, rfl⟩
    refine ⟨⟨f u, ?_, ?_⟩, mirrored.below closed below⟩
    · exact (mirrored.opened_iff closed own_a own_b).mpr ⟨u, opened, rfl⟩
    · exact (mirrored.leads_iff (opened.owns closed own_a)).mpr ⟨m, step, rfl⟩

/-! ## The best of several types -/

theorem outranks_iff (mirrored : env.Mirrored f env') (closed : env.Closed)
    (own_a : env.owns a = true) (own_b : env.owns b = true) :
    env'.Outranks bound (f a) (f b) ↔ env.Outranks bound a b := by
  cases bound <;>
    simp only [Outranks, StrictlyBelow, mirrored.below_iff closed own_a own_b,
      mirrored.below_iff closed own_b own_a]

theorem best_iff (mirrored : env.Mirrored f env') (closed : env.Closed) {p p' : Handle → Prop}
    (own : ∀ t, p t → env.owns t = true) (image : ∀ x, p' x ↔ Image f p x) :
    env'.Best bound p' x ↔ Image f (env.Best bound p) x := by
  constructor
  · rintro ⟨candidate, unmatched⟩
    obtain ⟨t, ht, rfl⟩ := (image x).mp candidate
    refine ⟨t, ⟨ht, fun other mem outranks => ?_⟩, rfl⟩
    refine unmatched (f other) ((image _).mpr ⟨other, mem, rfl⟩) ?_
    exact (mirrored.outranks_iff closed (own other mem) (own t ht)).mpr outranks
  · rintro ⟨t, ⟨ht, unmatched⟩, rfl⟩
    refine ⟨(image _).mpr ⟨t, ht, rfl⟩, fun y candidate => ?_⟩
    obtain ⟨other, mem, rfl⟩ := (image y).mp candidate
    rw [mirrored.outranks_iff closed (own other mem) (own t ht)]
    exact unmatched other mem

end Mirrored

/-! ## Bounds -/

/-- Besides, no further type of the second environment is above two of the images, unless the one is
above the other already. -/
structure Conserved (env : Environment) (f : Handle → Handle) (env' : Environment) : Prop
    extends Mirrored env f env' where
  uppers : ∀ {a b x : Handle}, env.owns a = true → env.owns b = true →
    ¬ env.Below a b → ¬ env.Below b a → env'.Below (f a) x → env'.Below (f b) x →
      Image f (env.owns · = true) x

namespace Conserved

theorem candidate_iff (conserved : env.Conserved f env') (closed : env.Closed)
    (own_a : env.owns a = true) (own_b : env.owns b = true) (nab : ¬ env.Below a b)
    (nba : ¬ env.Below b a) :
    env'.Candidate bound (f a) (f b) x ↔ Image f (env.Candidate bound a b) x := by
  cases bound with
  | least =>
    constructor
    · rintro ⟨above_a, above_b⟩
      obtain ⟨t, own, rfl⟩ := conserved.uppers own_a own_b nab nba above_a above_b
      exact ⟨t, ⟨(conserved.below_iff closed own_a own).mp above_a,
        (conserved.below_iff closed own_b own).mp above_b⟩, rfl⟩
    · rintro ⟨t, ⟨above_a, above_b⟩, rfl⟩
      exact ⟨conserved.below closed above_a, conserved.below closed above_b⟩
  | greatest =>
    simp only [Candidate, conserved.isUnion_iff own_b, conserved.collected_iff closed own_a own_b]
    exact ⟨fun ⟨union_b, m, collected, image⟩ => ⟨m, ⟨union_b, collected⟩, image⟩,
      fun ⟨m, ⟨union_b, collected⟩, image⟩ => ⟨union_b, m, collected, image⟩⟩

theorem isBound_iff (conserved : env.Conserved f env') (closed : env.Closed)
    (own_a : env.owns a = true) (own_b : env.owns b = true) :
    env'.IsBound bound (f a) (f b) x ↔ Image f (env.IsBound bound a b) x := by
  have pick (a b : Handle) : x = bound.pick (f a) (f b) ↔ Image f (· = bound.pick a b) x := by
    cases bound <;> simp [Image, Bound.pick, eq_comm]
  by_cases ab : env.Below a b
  · rw [isBound_of_below ab, isBound_of_below (conserved.below closed ab)]
    exact pick a b
  have nab' := mt (conserved.below_iff closed own_a own_b).mp ab
  by_cases ba : env.Below b a
  · rw [isBound_of_above ab ba, isBound_of_above nab' (conserved.below closed ba)]
    exact pick b a
  have nba' := mt (conserved.below_iff closed own_b own_a).mp ba
  rw [isBound_of_unrelated ab ba, isBound_of_unrelated nab' nba']
  refine conserved.best_iff closed (fun t candidate => candidate.owns closed own_a) fun y => ?_
  exact conserved.candidate_iff closed own_a own_b ab ba

/-- The lists on the other side hold the images of the types of these lists. -/
theorem isCrossBound_iff (conserved : env.Conserved f env') (closed : env.Closed)
    {lefts lefts' rights rights' : List Handle} (own_lefts : ∀ h ∈ lefts, env.owns h = true)
    (own_rights : ∀ h ∈ rights, env.owns h = true) (same_lefts : ∀ y, y ∈ lefts' ↔ y ∈ lefts.map f)
    (same_rights : ∀ y, y ∈ rights' ↔ y ∈ rights.map f) :
    env'.IsCrossBound bound lefts' rights' x ↔ Image f (env.IsCrossBound bound lefts rights) x := by
  refine conserved.best_iff closed ?_ fun y => ?_
  · rintro t ⟨left, hl, right, hr, is_bound⟩
    exact is_bound.owns closed (own_lefts left hl) (own_rights right hr)
  constructor
  · rintro ⟨_, hl', _, hr', is_bound'⟩
    obtain ⟨left, hl, rfl⟩ := List.mem_map.mp ((same_lefts _).mp hl')
    obtain ⟨right, hr, rfl⟩ := List.mem_map.mp ((same_rights _).mp hr')
    obtain ⟨t, is_bound, rfl⟩ :=
      (conserved.isBound_iff closed (own_lefts left hl) (own_rights right hr)).mp is_bound'
    exact ⟨t, ⟨left, hl, right, hr, is_bound⟩, rfl⟩
  · rintro ⟨t, ⟨left, hl, right, hr, is_bound⟩, rfl⟩
    refine ⟨f left, (same_lefts _).mpr (List.mem_map_of_mem hl), f right,
      (same_rights _).mpr (List.mem_map_of_mem hr), ?_⟩
    exact (conserved.isBound_iff closed (own_lefts left hl) (own_rights right hr)).mpr
      ⟨t, is_bound, rfl⟩

end Conserved

end Environment

end TypeHierarchy
