import TypeHierarchy.Proofs.CommonSupertypes

/-!
# The algebra of pairwise bounds

Where every union has a member, the pairwise least bound of two sets has exactly those types above it
that are above both sets (`exists_pairwiseBound_meets`); the universal set counts as having every type
above it.  Up to sets with the same types above them the bound is therefore commutative and
associative.  The universal set as identity and the empty set as zero need no such reservation
(`pairwiseBound_algebra`).
-/

namespace TypeHierarchy.Environment

/-- The set is universal, or all its types are the environment's own. -/
def OwnsAll (env : Environment) : TypeSet → Prop
  | .all => True
  | .finite handles => ∀ h ∈ handles, env.owns h = true

/-- The type is above some type of the set; of the universal set nothing is asked. -/
def Above (env : Environment) : TypeSet → Handle → Prop
  | .all, _ => True
  | .finite handles, t => env.Covers (· ∈ handles) t

/-- Both sets are universal, or both are finite and the check finds a type of the one below a given
type of the environment just when it finds a type of the other below it. -/
def SameUppers (env : Environment) : TypeSet → TypeSet → Prop
  | .all, .all => True
  | .finite lefts, .finite rights => ∀ t, env.owns t = true →
      ((∃ r ∈ lefts, env.Accepts r t) ↔ ∃ r ∈ rights, env.Accepts r t)
  | _, _ => False

/-- What the least bound of two sets is, as far as the types above it go. -/
structure Meets (env : Environment) (left right result : TypeSet) : Prop where
  owns : env.OwnsAll result
  isAll : result.isAll = (left.isAll && right.isAll)
  above : ∀ t, env.Above result t ↔ env.Above left t ∧ env.Above right t

variable {env : Environment} {bound : Bound} {left middle right result other : TypeSet}

/-! ## The universal and the empty set -/

theorem eq_empty_of_isEmpty (empty : left.isEmpty = true) : left = .empty := by
  cases left with
  | all => cases empty
  | finite handles =>
    exact congrArg TypeSet.finite (SortedSet.toList_inj.mp (SortedSet.isEmpty_iff.mp empty))

theorem pairwiseBound_all_left (right : TypeSet) :
    (env.pairwiseBound bound .all right).outcome = .ok right := by
  unfold pairwiseBound
  split
  · rename_i empty
    rw [eq_empty_of_isEmpty empty]
    rfl
  · rfl

theorem pairwiseBound_all_right (left : TypeSet) :
    (env.pairwiseBound bound left .all).outcome = .ok left := by
  unfold pairwiseBound
  split
  · rename_i empty
    rw [eq_empty_of_isEmpty ((Bool.or_false _).symm.trans empty)]
    rfl
  · cases left <;> rfl

theorem pairwiseBound_empty_left (right : TypeSet) :
    (env.pairwiseBound bound .empty right).outcome = .ok .empty := rfl

theorem pairwiseBound_empty_right (left : TypeSet) :
    (env.pairwiseBound bound left .empty).outcome = .ok .empty := by
  have empty : (left.isEmpty || TypeSet.empty.isEmpty) = true := Bool.or_true _
  unfold pairwiseBound
  rw [if_pos empty]
  rfl

/-! ## What lies above a pairwise bound -/

theorem Meets.of_all_left (own : env.OwnsAll right) : env.Meets .all right right where
  owns := own
  isAll := (Bool.true_and _).symm
  above _ := (and_iff_right trivial).symm

theorem Meets.of_all_right (own : env.OwnsAll left) : env.Meets left .all left where
  owns := own
  isAll := (Bool.and_true _).symm
  above _ := (and_iff_left trivial).symm

theorem exists_pairwiseBound_meets (closed : env.Closed) (full : env.Full)
    (own_left : env.OwnsAll left) (own_right : env.OwnsAll right) :
    ∃ result, (env.pairwiseBound .least left right).outcome = .ok result ∧
      env.Meets left right result := by
  cases left with
  | all => exact ⟨right, pairwiseBound_all_left right, .of_all_left own_right⟩
  | finite lefts =>
    cases right with
    | all => exact ⟨.finite lefts, pairwiseBound_all_right _, .of_all_right own_left⟩
    | finite rights =>
      obtain ⟨bounds, done, mem⟩ := exists_pairwiseBound closed own_left own_right
      refine ⟨.finite bounds, done, fun h hh => ?_, rfl, fun t => ?_⟩
      · exact ((mem h).mp hh).owns closed own_left own_right
      · have kept : (· ∈ bounds) = env.IsCrossBound .least lefts.toList rights.toList :=
          funext fun h => propext (mem h)
        show env.Covers (· ∈ bounds) t ↔ _
        rw [kept, covers_isCrossBound closed full own_left own_right]
        rfl

/-- Sets with the same types above them are told apart by the check in no way. -/
theorem sameUppers_of_above (closed : env.Closed) (own : env.OwnsAll result)
    (own' : env.OwnsAll other) (alls : result.isAll = other.isAll)
    (above : ∀ t, env.Above result t ↔ env.Above other t) : env.SameUppers result other := by
  cases result with
  | all =>
    cases other with
    | all => trivial
    | finite => cases alls
  | finite lefts =>
    cases other with
    | all => cases alls
    | finite rights =>
      intro t own_t
      rw [exists_accepts_iff closed own own_t, exists_accepts_iff closed own' own_t]
      exact above t

/-! ## The laws -/

/-- The pairwise least bound has the universal set as identity and the empty set as zero.  Up to sets
with the same types above them it is commutative and associative. -/
theorem pairwiseBound_algebra (reachable : env.Reachable) (full : env.Full)
    (own_left : env.OwnsAll left) (own_middle : env.OwnsAll middle)
    (own_right : env.OwnsAll right) :
    ((env.pairwiseBound .least .all middle).outcome = .ok middle ∧
      (env.pairwiseBound .least middle .all).outcome = .ok middle) ∧
    ((env.pairwiseBound .least .empty middle).outcome = .ok .empty ∧
      (env.pairwiseBound .least middle .empty).outcome = .ok .empty) ∧
    (∃ ahead behind, (env.pairwiseBound .least left middle).outcome = .ok ahead ∧
      (env.pairwiseBound .least middle left).outcome = .ok behind ∧
      env.SameUppers ahead behind) ∧
    ∃ first second leftward rightward,
      (env.pairwiseBound .least left middle).outcome = .ok first ∧
      (env.pairwiseBound .least first right).outcome = .ok leftward ∧
      (env.pairwiseBound .least middle right).outcome = .ok second ∧
      (env.pairwiseBound .least left second).outcome = .ok rightward ∧
      env.SameUppers leftward rightward := by
  have closed := reachable.closed
  refine ⟨⟨pairwiseBound_all_left middle, pairwiseBound_all_right middle⟩,
    ⟨pairwiseBound_empty_left middle, pairwiseBound_empty_right middle⟩, ?_, ?_⟩
  · obtain ⟨ahead, done, meets⟩ := exists_pairwiseBound_meets closed full own_left own_middle
    obtain ⟨behind, done', meets'⟩ := exists_pairwiseBound_meets closed full own_middle own_left
    refine ⟨ahead, behind, done, done', ?_⟩
    refine sameUppers_of_above closed meets.owns meets'.owns ?_ fun t => ?_
    · rw [meets.isAll, meets'.isAll, Bool.and_comm]
    · rw [meets.above, meets'.above, and_comm]
  · obtain ⟨first, done, meets⟩ := exists_pairwiseBound_meets closed full own_left own_middle
    obtain ⟨leftward, done_l, meets_l⟩ :=
      exists_pairwiseBound_meets closed full meets.owns own_right
    obtain ⟨second, done', meets'⟩ := exists_pairwiseBound_meets closed full own_middle own_right
    obtain ⟨rightward, done_r, meets_r⟩ :=
      exists_pairwiseBound_meets closed full own_left meets'.owns
    refine ⟨first, second, leftward, rightward, done, done_l, done', done_r, ?_⟩
    refine sameUppers_of_above closed meets_l.owns meets_r.owns ?_ fun t => ?_
    · rw [meets_l.isAll, meets.isAll, meets_r.isAll, meets'.isAll, Bool.and_assoc]
    · rw [meets_l.above, meets.above, meets_r.above, meets'.above, and_assoc]

/-- Two unions of the same primitives, in opposite order. -/
def mirroredUnions : Environment :=
  { initial ⟨0⟩ with entries := (initial ⟨0⟩).entries ++
      #[⟨"Pair", .union [⟨⟨0⟩, 4⟩, ⟨⟨0⟩, 5⟩]⟩, ⟨"Mirror", .union [⟨⟨0⟩, 5⟩, ⟨⟨0⟩, 4⟩]⟩] }

theorem reachable_mirroredUnions : mirroredUnions.Reachable := by
  have made : Environment.after [.declare 0 "Pair" .union, .declare 0 "Mirror" .union,
      .addMember 0 ⟨⟨0⟩, 8⟩ ⟨⟨0⟩, 4⟩, .addMember 0 ⟨⟨0⟩, 8⟩ ⟨⟨0⟩, 5⟩,
      .addMember 0 ⟨⟨0⟩, 9⟩ ⟨⟨0⟩, 5⟩, .addMember 0 ⟨⟨0⟩, 9⟩ ⟨⟨0⟩, 4⟩] = mirroredUnions := by
    decide +kernel
  exact made ▸ reachable_after _

/-- The two unions are below each other, and each order of them has another bound: the second one.
The types above the two bounds are the same all the same, and a third set makes no difference. -/
theorem pairwiseBound_mirroredUnions :
    (mirroredUnions.pairwiseBound .least (.singleton ⟨⟨0⟩, 8⟩) (.singleton ⟨⟨0⟩, 9⟩)).outcome =
      .ok (.singleton ⟨⟨0⟩, 9⟩) ∧
    (mirroredUnions.pairwiseBound .least (.singleton ⟨⟨0⟩, 9⟩) (.singleton ⟨⟨0⟩, 8⟩)).outcome =
      .ok (.singleton ⟨⟨0⟩, 8⟩) ∧
    mirroredUnions.SameUppers (.singleton ⟨⟨0⟩, 9⟩) (.singleton ⟨⟨0⟩, 8⟩) ∧
    ∃ leftward rightward,
      (mirroredUnions.pairwiseBound .least (.singleton ⟨⟨0⟩, 9⟩) .all).outcome = .ok leftward ∧
      (mirroredUnions.pairwiseBound .least (.singleton ⟨⟨0⟩, 8⟩) (.singleton ⟨⟨0⟩, 9⟩)).outcome =
        .ok rightward ∧
      mirroredUnions.SameUppers leftward rightward := by
  have full : mirroredUnions.Full := by decide +kernel
  have own (i : Nat) (within : i < 10) : mirroredUnions.OwnsAll (.singleton ⟨⟨0⟩, i⟩) := by
    intro h hh
    rw [SortedSet.mem_singleton.mp hh]
    exact (owns_iff _).mpr ⟨rfl, within⟩
  have ahead : (mirroredUnions.pairwiseBound .least (.singleton ⟨⟨0⟩, 8⟩)
      (.singleton ⟨⟨0⟩, 9⟩)).outcome = .ok (.singleton ⟨⟨0⟩, 9⟩) :=
    eq_ok_of_toOption (by decide +kernel)
  have behind : (mirroredUnions.pairwiseBound .least (.singleton ⟨⟨0⟩, 9⟩)
      (.singleton ⟨⟨0⟩, 8⟩)).outcome = .ok (.singleton ⟨⟨0⟩, 8⟩) :=
    eq_ok_of_toOption (by decide +kernel)
  have own_all : mirroredUnions.OwnsAll .all := trivial
  have laws := pairwiseBound_algebra reachable_mirroredUnions full (own 8 (by decide))
    (own 9 (by decide)) own_all
  obtain ⟨⟨-, identity⟩, -, ⟨_, _, done, done', same⟩, first, second, leftward, rightward, done_first,
    done_l, done_second, done_r, same'⟩ := laws
  cases ahead.symm.trans done
  cases behind.symm.trans done'
  cases ahead.symm.trans done_first
  cases identity.symm.trans done_second
  exact ⟨ahead, behind, same, leftward, rightward, done_l, done_r, same'⟩

end TypeHierarchy.Environment
