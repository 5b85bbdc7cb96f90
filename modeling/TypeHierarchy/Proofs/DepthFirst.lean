import Mathlib.Data.List.Forall2
import TypeHierarchy.Proofs.Recursion

/-!
# Depth-first preorder

`DepthFirst` says in which order a depth-first walk enters types: each type before everything its
successors lead to, and all of that before the next type on the list.  From one type on, the walk enters
the types that members and fields lead to (`DepthFirst.mem_iff`), each of them once
(`DepthFirst.nodup`).

The order can be told without the walk.  A route leads from type to type and enters none twice; it is
written as the list of places at which it leaves a type.  Of all routes to a type the walk follows the
first one in the lexicographic order, and it enters the types in the order of these first routes
(`DepthFirst.exists_firstRoutes`).
-/

namespace TypeHierarchy.Environment

open Relation

/-- With the types of `seen` behind it, a walk through the types of `hs` enters the types of `visits`, in
this order. -/
inductive DepthFirst (env : Environment) : List Handle → List Handle → List Handle → Prop
  | nil (seen : List Handle) : DepthFirst env seen [] []
  | skip {seen hs visits : List Handle} {h : Handle} (known : h ∈ seen)
      (rest : DepthFirst env seen hs visits) : DepthFirst env seen (h :: hs) visits
  /-- A new type is followed by what its successors lead to, and then by the rest. -/
  | enter {seen hs below later : List Handle} {h : Handle} {s : Shape} (fresh : h ∉ seen)
      (shape : env.shape h = .ok s)
      (inner : DepthFirst env (seen ++ [h]) (s.successors true) below)
      (rest : DepthFirst env (seen ++ h :: below) hs later) :
      DepthFirst env seen (h :: hs) (h :: (below ++ later))

variable {env : Environment} {h next x : Handle} {s : Shape}
  {seen hs hs' visits visits' below later : List Handle}

namespace DepthFirst

theorem append (first : env.DepthFirst seen hs visits)
    (second : env.DepthFirst (seen ++ visits) hs' visits') :
    env.DepthFirst seen (hs ++ hs') (visits ++ visits') := by
  induction first with
  | nil => simpa using second
  | skip known _ ih => exact .skip known (ih second)
  | enter fresh shape inner _ _ ih =>
    rw [List.cons_append, List.cons_append, List.append_assoc]
    exact .enter fresh shape inner (ih (by simpa using second))

theorem unique (walk : env.DepthFirst seen hs visits) (walk' : env.DepthFirst seen hs visits') :
    visits = visits' := by
  induction walk generalizing visits' with
  | nil =>
    cases walk'
    rfl
  | skip known _ ih =>
    cases walk' with
    | skip _ rest' => exact ih rest'
    | enter fresh' => exact absurd known fresh'
  | enter fresh shape _ _ ih ih' =>
    cases walk' with
    | skip known' => exact absurd known' fresh
    | enter _ shape' inner' rest' =>
      cases shape.symm.trans shape'
      cases ih inner'
      cases ih' rest'
      rfl

/-! ## Each type once -/

theorem not_mem_seen (walk : env.DepthFirst seen hs visits) (mem : x ∈ visits) : x ∉ seen := by
  induction walk with
  | nil => cases mem
  | skip _ _ ih => exact ih mem
  | enter fresh _ _ _ ih ih' =>
    rcases List.mem_cons.mp mem with rfl | mem
    · exact fresh
    rcases List.mem_append.mp mem with mem | mem
    · exact fun known => ih mem (List.mem_append_left _ known)
    · exact fun known => ih' mem (List.mem_append_left _ known)

theorem nodup (walk : env.DepthFirst seen hs visits) : visits.Nodup := by
  induction walk with
  | nil => exact .nil
  | skip _ _ ih => exact ih
  | @enter seen hs below later h s _ _ inner rest ih ih' =>
    have once : h ∉ below := fun again => inner.not_mem_seen again (by simp)
    have apart (y : Handle) (mem : y ∈ h :: below) : y ∉ later := fun again =>
      rest.not_mem_seen again (List.mem_append_right seen mem)
    refine List.nodup_cons.mpr ⟨?_, List.nodup_append.mpr ⟨ih, ih', ?_⟩⟩
    · rw [List.mem_append]
      exact not_or.mpr ⟨once, apart h List.mem_cons_self⟩
    · rintro y mem _ again rfl
      exact apart y (List.mem_cons_of_mem h mem) again

/-! ## All types ahead -/

theorem mem_of_mem_list (walk : env.DepthFirst seen hs visits) (mem : x ∈ hs) :
    x ∈ seen ++ visits := by
  induction walk with
  | nil => cases mem
  | skip known _ ih =>
    rcases List.mem_cons.mp mem with rfl | mem
    · exact List.mem_append_left _ known
    · exact ih mem
  | enter _ _ _ _ _ ih =>
    rcases List.mem_cons.mp mem with rfl | mem
    · simp
    · simpa using ih mem

/-- Nothing that a type of the walk leads to is left out. -/
theorem mem_of_leads (walk : env.DepthFirst seen hs visits) (mem : x ∈ visits)
    (step : env.Leads true x next) : next ∈ seen ++ visits := by
  induction walk with
  | nil => cases mem
  | skip _ _ ih => exact ih mem
  | @enter seen hs below later h s _ shape inner _ ih ih' =>
    have inside (y : Handle) (mem : y ∈ seen ++ [h] ++ below) :
        y ∈ seen ++ h :: (below ++ later) := by
      rw [← List.cons_append, ← List.append_assoc, List.append_cons]
      exact List.mem_append_left later mem
    rcases List.mem_cons.mp mem with rfl | mem
    · exact inside next (inner.mem_of_mem_list ((leads_iff shape).mp step))
    rcases List.mem_append.mp mem with mem | mem
    · exact inside next (ih mem)
    · simpa using ih' mem

theorem exists_path (walk : env.DepthFirst seen hs visits) (mem : x ∈ visits) :
    ∃ h ∈ hs, ReflTransGen (env.Leads true) h x := by
  induction walk with
  | nil => cases mem
  | skip _ _ ih =>
    obtain ⟨h, mem_h, path⟩ := ih mem
    exact ⟨h, List.mem_cons_of_mem _ mem_h, path⟩
  | enter _ shape _ _ ih ih' =>
    rcases List.mem_cons.mp mem with rfl | mem
    · exact ⟨x, List.mem_cons_self, .refl⟩
    rcases List.mem_append.mp mem with mem | mem
    · obtain ⟨next, mem_next, path⟩ := ih mem
      exact ⟨_, List.mem_cons_self, .head ((leads_iff shape).mpr mem_next) path⟩
    · obtain ⟨h, mem_h, path⟩ := ih' mem
      exact ⟨h, List.mem_cons_of_mem _ mem_h, path⟩

/-- From one type on, the walk enters the types ahead of it and no others. -/
theorem mem_iff (walk : env.DepthFirst [] [h] visits) :
    x ∈ visits ↔ ReflTransGen (env.Leads true) h x := by
  constructor
  · intro mem
    obtain ⟨_, start, path⟩ := walk.exists_path mem
    exact List.mem_singleton.mp start ▸ path
  · intro path
    induction path with
    | refl => exact walk.mem_of_mem_list (List.mem_singleton_self h)
    | tail _ step ih => exact walk.mem_of_leads ih step

end DepthFirst

/-! ## Routes -/

/-- A route leads from type to type, enters no type twice and none of `avoid`.  It is given by the places
of its steps among the successors of each type. -/
inductive Route (env : Environment) : List Handle → Handle → List Nat → Handle → Prop
  | stop {avoid : List Handle} {h : Handle} (free : h ∉ avoid) : Route env avoid h [] h
  | turn {avoid : List Handle} {h next x : Handle} {s : Shape} {i : Nat} {turns : List Nat}
      (free : h ∉ avoid) (shape : env.shape h = .ok s)
      (place : (s.successors true)[i]? = some next) (rest : Route env (h :: avoid) next turns x) :
      Route env avoid h (i :: turns) x

/-- A route from one of the types of a list, with the place of that type in front. -/
def RouteFrom (env : Environment) (avoid hs : List Handle) : List Nat → Handle → Prop
  | [], _ => False
  | i :: turns, x => ∃ h, hs[i]? = some h ∧ env.Route avoid h turns x

/-- The first of the routes in the lexicographic order. -/
def IsFirst (routes : List Nat → Prop) (route : List Nat) : Prop :=
  routes route ∧ ∀ other, routes other → other = route ∨ List.Lex (· < ·) route other

/-- The first routes to the types of a list increase from one type to the next. -/
structure FirstRoutes (routeTo : List Nat → Handle → Prop) (visits : List Handle)
    (routes : List (List Nat)) : Prop where
  first : List.Forall₂ (fun x => IsFirst fun route => routeTo route x) visits routes
  increasing : routes.Pairwise (List.Lex (· < ·))

variable {avoid : List Handle} {route : List Nat} {routes routes' : List (List Nat)}

theorem Route.not_mem_avoid (way : env.Route avoid h route x) : x ∉ avoid := by
  induction way with
  | stop free => exact free
  | turn _ _ _ _ ih => exact fun mem => ih (List.mem_cons_of_mem _ mem)

theorem lex_bump {i j : Nat} {turns turns' : List Nat}
    (below : List.Lex (· < ·) (i :: turns) (j :: turns')) :
    List.Lex (· < ·) ((i + 1) :: turns) ((j + 1) :: turns') := by
  cases below with
  | rel less => exact .rel (Nat.succ_lt_succ less)
  | cons rest => exact .cons rest

theorem RouteFrom.exists_turns (way : env.RouteFrom avoid hs route x) :
    ∃ i turns, route = i :: turns := by
  cases route with
  | nil => exact way.elim
  | cons i turns => exact ⟨i, turns, rfl⟩

namespace FirstRoutes

theorem exists_turns (firsts : FirstRoutes (env.RouteFrom avoid hs) visits routes)
    (mem : route ∈ routes) : ∃ i turns, route = i :: turns := by
  obtain ⟨firsts, -⟩ := firsts
  induction firsts with
  | nil => cases mem
  | cons first _ ih =>
    rcases List.mem_cons.mp mem with rfl | mem
    · exact first.1.exists_turns
    · exact ih mem

/-- The first route to the type itself makes no turn, and the others begin at its successors. -/
theorem node (free : h ∉ avoid) (shape : env.shape h = .ok s)
    (inner : FirstRoutes (env.RouteFrom (h :: avoid) (s.successors true)) below routes) :
    FirstRoutes (env.Route avoid h) (h :: below) ([] :: routes) where
  first := by
    refine .cons ⟨.stop free, fun other _ => ?_⟩ (inner.first.imp fun x route first => ?_)
    · cases other with
      | nil => exact .inl rfl
      | cons i turns => exact .inr .nil
    · obtain ⟨i, turns, rfl⟩ := first.1.exists_turns
      obtain ⟨⟨next, place, way⟩, before⟩ := first
      refine ⟨.turn free shape place way, fun other other_way => ?_⟩
      cases other_way with
      | stop _ => exact absurd List.mem_cons_self way.not_mem_avoid
      | turn _ shape' place' rest' =>
        cases shape.symm.trans shape'
        exact before _ ⟨_, place', rest'⟩
  increasing := by
    refine List.pairwise_cons.mpr ⟨fun route mem => ?_, inner.increasing⟩
    obtain ⟨i, turns, rfl⟩ := inner.exists_turns mem
    exact .nil

/-- Routes that begin at the first type of a list come before all others. -/
theorem cons (head : FirstRoutes (env.Route avoid h) visits routes)
    (tail : FirstRoutes (env.RouteFrom avoid hs) visits' routes')
    (missed : ∀ x ∈ visits', ∀ route, ¬ env.Route avoid h route x) :
    FirstRoutes (env.RouteFrom avoid (h :: hs)) (visits ++ visits')
      (routes.map (0 :: ·) ++ routes'.map (List.modifyHead (· + 1))) where
  first := by
    refine List.rel_append (List.forall₂_map_right_iff.mpr ?_) (List.forall₂_map_right_iff.mpr ?_)
    · refine head.first.imp fun x route first => ⟨⟨h, rfl, first.1⟩, fun other other_way => ?_⟩
      rcases other with _ | ⟨_ | i, turns⟩
      · exact other_way.elim
      · obtain ⟨_, place, way⟩ := other_way
        cases place
        exact (first.2 turns way).imp (congrArg _) .cons
      · exact .inr (.rel (Nat.succ_pos i))
    · refine ((List.forall₂_and_left _ _).mpr ⟨missed, tail.first⟩).imp ?_
      rintro x route ⟨missed, first⟩
      obtain ⟨i, turns, rfl⟩ := first.1.exists_turns
      refine ⟨first.1, fun other other_way => ?_⟩
      rcases other with _ | ⟨_ | j, turns'⟩
      · exact other_way.elim
      · obtain ⟨_, place, way⟩ := other_way
        cases place
        exact absurd way (missed turns')
      · exact (first.2 (j :: turns') other_way).imp (congrArg (List.modifyHead (· + 1))) lex_bump
  increasing := by
    refine List.pairwise_append.mpr ⟨?_, ?_, ?_⟩
    · exact List.pairwise_map.mpr (head.increasing.imp .cons)
    · refine List.pairwise_map.mpr (tail.increasing.imp_of_mem fun mem mem' below => ?_)
      obtain ⟨i, turns, rfl⟩ := tail.exists_turns mem
      obtain ⟨j, turns', rfl⟩ := tail.exists_turns mem'
      exact lex_bump below
    · intro route mem route' mem'
      obtain ⟨turns, -, rfl⟩ := List.mem_map.mp mem
      obtain ⟨_, mem_tail, rfl⟩ := List.mem_map.mp mem'
      obtain ⟨i, turns', rfl⟩ := tail.exists_turns mem_tail
      exact .rel (Nat.succ_pos i)

end FirstRoutes

/-! ## The order of the walk -/

/-- The types of `avoid` are being visited, and the visits of all other types seen so far are over. -/
structure Underway (env : Environment) (avoid seen : List Handle) : Prop where
  subset : avoid ⊆ seen
  finished : ∀ x ∈ seen, x ∉ avoid → ∀ next, env.Leads true x next → next ∈ seen

namespace Underway

theorem enter (underway : env.Underway avoid seen) (h : Handle) :
    env.Underway (h :: avoid) (seen ++ [h]) where
  subset x mem := by
    rcases List.mem_cons.mp mem with rfl | mem
    · exact List.mem_append_right _ (List.mem_singleton_self x)
    · exact List.mem_append_left _ (underway.subset mem)
  finished x mem left next step := by
    obtain ⟨other, left⟩ := not_or.mp (mt List.mem_cons.mpr left)
    have mem : x ∈ seen := (List.mem_append.mp mem).resolve_right (mt List.mem_singleton.mp other)
    exact List.mem_append_left _ (underway.finished x mem left next step)

/-- When its successors are through, the visit of a type is over. -/
theorem leave (underway : env.Underway avoid seen) (shape : env.shape h = .ok s)
    (inner : env.DepthFirst (seen ++ [h]) (s.successors true) below) :
    env.Underway avoid (seen ++ h :: below) where
  subset x mem := List.mem_append_left _ (underway.subset mem)
  finished x mem left next step := by
    rw [List.append_cons]
    rcases List.mem_append.mp mem with mem | mem
    · have := underway.finished x mem left next step
      exact List.mem_append_left _ (List.mem_append_left _ this)
    rcases List.mem_cons.mp mem with rfl | mem
    · exact inner.mem_of_mem_list ((leads_iff shape).mp step)
    · exact inner.mem_of_leads mem step

/-- No route leaves the types seen so far, since it could do so only from a type being visited. -/
theorem mem_of_route (underway : env.Underway avoid seen) (way : env.Route avoid h route x)
    (known : h ∈ seen) : x ∈ seen := by
  induction way with
  | stop _ => exact known
  | @turn avoid h next x s i turns free shape place _ ih =>
    have step : env.Leads true h next := (leads_iff shape).mpr (List.mem_of_getElem? place)
    refine ih ⟨List.cons_subset.mpr ⟨known, underway.subset⟩, ?_⟩
      (underway.finished h known free next step)
    exact fun y mem left => underway.finished y mem fun mem => left (List.mem_cons_of_mem h mem)

end Underway

theorem DepthFirst.exists_firstRoutes_from (walk : env.DepthFirst seen hs visits)
    (underway : env.Underway avoid seen) :
    ∃ routes, FirstRoutes (env.RouteFrom avoid hs) visits routes := by
  induction walk generalizing avoid with
  | nil => exact ⟨[], .nil, .nil⟩
  | @skip seen hs visits h known rest ih =>
    obtain ⟨routes, firsts⟩ := ih underway
    have nothing : FirstRoutes (env.Route avoid h) [] [] := ⟨.nil, .nil⟩
    refine ⟨_, nothing.cons firsts fun x mem route way => ?_⟩
    exact rest.not_mem_seen mem (underway.mem_of_route way known)
  | @enter seen hs below later h s fresh shape inner rest ih ih' =>
    have free : h ∉ avoid := fun mem => fresh (underway.subset mem)
    have left := underway.leave shape inner
    obtain ⟨routes, firsts⟩ := ih (underway.enter h)
    obtain ⟨routes', firsts'⟩ := ih' left
    refine ⟨_, (firsts.node free shape).cons firsts' fun x mem route way => ?_⟩
    exact rest.not_mem_seen mem (left.mem_of_route way (by simp))

/-- From one type on, the walk enters the types in the order of the first routes to them. -/
theorem DepthFirst.exists_firstRoutes (walk : env.DepthFirst [] [h] visits) :
    ∃ routes, FirstRoutes (env.Route [] h) visits routes := by
  cases walk with
  | skip known => cases known
  | enter _ shape inner rest =>
    cases rest
    have nothing : env.Underway [] [] := ⟨List.nil_subset _, by simp⟩
    obtain ⟨routes, firsts⟩ := inner.exists_firstRoutes_from (nothing.enter h)
    rw [List.append_nil]
    exact ⟨_, firsts.node List.not_mem_nil shape⟩

end TypeHierarchy.Environment
