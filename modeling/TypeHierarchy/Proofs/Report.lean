import Mathlib.Data.Finset.Card
import TypeHierarchy.Report

/-!
# What a report holds

A report is filled by calls, one diagnostic a call (`build`).  Two diagnostics are the same entry of it
when they agree in place, severity and text, whatever their notes: these three make up the key
(`Diagnostic.order_eq_iff`).  For each key the report holds the diagnostic that came first, and nothing
else (`filter_build`).  Counts, the failure check and the insensitivity to the order of calls follow
from that (`build_contents`).
-/

namespace TypeHierarchy

open Source

/-! ## Sets that keep the first of equal values -/

namespace SortedSet

variable {α : Type} {cmp : α → α → Ordering} [Std.TransCmp cmp] {a x : α} {l : List α}

/-- Insertion keeps what is there, and takes a value in unless an equal one is there. -/
theorem mem_insert_iff {s : SortedSet α cmp} :
    x ∈ s.insert a ↔ x ∈ s ∨ (x = a ∧ ∀ b ∈ s, cmp a b ≠ .eq) := by
  obtain ⟨l, sorted⟩ := s
  show x ∈ place cmp a l ↔ x ∈ l ∨ (x = a ∧ ∀ b ∈ l, cmp a b ≠ .eq)
  induction l with
  | nil => simp [place]
  | cons b rest ih =>
    obtain ⟨below, sorted⟩ := List.pairwise_cons.mp sorted
    unfold place
    split
    · rename_i ab
      -- Everything behind `b` is above `a` as well.
      have apart : ∀ c ∈ b :: rest, cmp a c ≠ .eq := by
        intro c hc
        rcases List.mem_cons.mp hc with rfl | hc
        · simp [ab]
        · simp [Std.TransCmp.lt_trans ab (below c hc)]
      rw [List.mem_cons, or_comm]
      exact or_congr_right (and_iff_left apart).symm
    · rename_i ab
      exact ⟨.inl, fun h => h.elim id fun taken => absurd ab (taken.2 b List.mem_cons_self)⟩
    · rename_i ab
      rw [List.mem_cons, ih sorted, List.mem_cons, or_assoc, List.forall_mem_cons]
      simp [ab]

/-- A list leaves those of its values in the set that come before all others equal to them. -/
theorem mem_ofList_iff :
    x ∈ (ofList l : SortedSet α cmp) ↔ l.find? (fun y => cmp y x = .eq) = some x := by
  induction l using List.reverseRecOn generalizing x with
  | nil => simp [ofList, insertList]
  | append_singleton l a ih =>
    have step : (ofList (l ++ [a]) : SortedSet α cmp) = (ofList l).insert a := by
      simp [ofList, insertList]
    rw [step, mem_insert_iff, ih, List.find?_append]
    cases found : l.find? (fun y => cmp y x = .eq) with
    | none =>
      have missing (b : α) (hb : b ∈ l) : cmp b x ≠ .eq := by
        simpa using List.find?_eq_none.mp found b hb
      have free : ∀ b ∈ (ofList l : SortedSet α cmp), cmp x b ≠ .eq := fun b hb same =>
        missing b (List.mem_of_find?_eq_some (ih.mp hb)) (Std.OrientedCmp.eq_symm same)
      by_cases e : x = a
      · subst e
        simpa [Std.ReflCmp.compare_self] using free
      · have other : ¬ (cmp a x = .eq ∧ a = x) := fun h => e h.2.symm
        simpa [e] using other
    | some y =>
      have same : cmp y x = .eq := by simpa using List.find?_some found
      -- The value found is in the set itself, because it is found for itself as well.
      have held : y ∈ (ofList l : SortedSet α cmp) := by
        rw [ih, ← found]
        simp only [Std.TransCmp.congr_right same]
      simp only [Option.some_or, Option.some.injEq, or_iff_left_iff_imp]
      rintro ⟨rfl, free⟩
      exact absurd (Std.OrientedCmp.eq_symm same) (free y held)

end SortedSet

namespace Diagnostic

/-- What two diagnostics have to agree in to be the same entry of a report. -/
def key (d : Diagnostic) : Option Location × Severity × String :=
  (d.primary.location, d.severity, d.primary.text)

theorem order_eq_iff {a b : Diagnostic} : order a b = .eq ↔ a.key = b.key := by
  have parts : order a b = ((compare a.placeRank b.placeRank).then
      ((compare a.primary.location b.primary.location).then
        ((compare a.severity.rank b.severity.rank).then
          (compare a.primary.text b.primary.text)))) := rfl
  have severity_eq : a.severity.rank = b.severity.rank ↔ a.severity = b.severity := by
    cases a.severity <;> cases b.severity <;> decide
  rw [parts]
  simp only [Ordering.then_eq_eq, Std.LawfulEqOrd.compare_eq_iff_eq, severity_eq, key,
    Prod.mk.injEq, and_iff_right_iff_imp]
  rintro ⟨place, -, -⟩
  simp [placeRank, place]

theorem eq_of_key_eq {a b : Diagnostic} (same : a.key = b.key) (notes : a.notes = b.notes) :
    a = b := by
  obtain ⟨severity, ⟨text, location⟩, more⟩ := a
  obtain ⟨severity', ⟨text', location'⟩, more'⟩ := b
  cases same
  cases notes
  rfl

end Diagnostic

namespace Report

/-- A call that adds to a report. -/
inductive Call where
  | error (text : String) (location : Option Location)
  | warning (text : String) (location : Option Location)
  | diagnostic (d : Diagnostic)
deriving DecidableEq, Repr

/-- The diagnostic that a call is about. -/
def Call.subject : Call → Diagnostic
  | error text location => ⟨.error, ⟨text, location⟩, []⟩
  | warning text location => ⟨.warning, ⟨text, location⟩, []⟩
  | diagnostic d => d

/-- The report after one call. -/
def receive (r : Report) : Call → Report
  | .error text location => r.addError text location
  | .warning text location => r.addWarning text location
  | .diagnostic d => r.add d

/-- The report that a sequence of calls leaves behind. -/
def build (options : ReportOptions) (calls : List Call) : Report := calls.foldl receive { options }

/-- The diagnostics of the calls, less the warnings that are not wanted. -/
def admitted (options : ReportOptions) (calls : List Call) : List Diagnostic :=
  (calls.map Call.subject).filter fun d => !(options.noWarn && d.severity = .warning)

/-- The keys of all errors among the calls. -/
def errorKeys (calls : List Call) : Finset (Option Location × Severity × String) :=
  (((calls.map Call.subject).filter Diagnostic.isError).map Diagnostic.key).toFinset

variable {options : ReportOptions} {calls calls' : List Call} {d : Diagnostic}

theorem receive_eq (r : Report) (call : Call) :
    r.receive call = { r with
      diagnostics := r.diagnostics.insertList (admitted r.options [call]) } := by
  have added : r.receive call = r.add call.subject := by cases call <;> rfl
  rw [added, add, admits, admitted, List.map_singleton, List.filter_singleton]
  cases h : call.subject.severity <;> cases r.options.noWarn <;>
    simp [h, Diagnostic.isError, SortedSet.insertList]

/-- The calls fill the report with what they are about, one after the other. -/
theorem build_eq (options : ReportOptions) (calls : List Call) :
    build options calls = ⟨options, .ofList (admitted options calls)⟩ := by
  induction calls using List.reverseRecOn with
  | nil => rfl
  | append_singleton calls call ih =>
    have last : admitted options (calls ++ [call]) =
        admitted options calls ++ admitted options [call] := by simp [admitted]
    rw [build, List.foldl_append, ← build, ih, List.foldl_cons, List.foldl_nil, receive_eq, last]
    simp [SortedSet.ofList, SortedSet.insertList]

/-! ## The first of each key -/

/-- A diagnostic is in the report when it is the first one with its key. -/
theorem mem_build_iff :
    d ∈ (build options calls).toList ↔
      (admitted options calls).find? (fun x => x.key = d.key) = some d := by
  have first : d ∈ (build options calls).toList ↔ d ∈ (build options calls).diagnostics := .rfl
  rw [first, build_eq, SortedSet.mem_ofList_iff]
  simp only [Diagnostic.order_eq_iff]

theorem increasing_build (options : ReportOptions) (calls : List Call) :
    (build options calls).toList.Pairwise fun a b => Diagnostic.order a b = .lt :=
  (build options calls).diagnostics.increasing

theorem nodup_keys_build (options : ReportOptions) (calls : List Call) :
    ((build options calls).toList.map Diagnostic.key).Nodup := by
  refine List.pairwise_map.mpr ((increasing_build options calls).imp fun below same => ?_)
  rw [Diagnostic.order_eq_iff.mpr same] at below
  cases below

theorem mem_admitted_of_mem_build (mem : d ∈ (build options calls).toList) :
    d ∈ admitted options calls := List.mem_of_find?_eq_some (mem_build_iff.mp mem)

theorem mem_build_of_find? {key : Option Location × Severity × String}
    (found : (admitted options calls).find? (fun x => x.key = key) = some d) :
    d ∈ (build options calls).toList ∧ d.key = key := by
  have same : d.key = key := by simpa using List.find?_some found
  rw [mem_build_iff, same]
  exact ⟨found, rfl⟩

/-- Each key that was added is in the report. -/
theorem exists_mem_build (mem : d ∈ admitted options calls) :
    ∃ first ∈ (build options calls).toList, first.key = d.key := by
  cases found : (admitted options calls).find? (fun x => x.key = d.key) with
  | none => simpa using List.find?_eq_none.mp found d mem
  | some first =>
    obtain ⟨held, same⟩ := mem_build_of_find? found
    exact ⟨first, held, same⟩

/-- For each key the report holds the diagnostic that came first with it, if there is one. -/
theorem filter_build (options : ReportOptions) (calls : List Call)
    (key : Option Location × Severity × String) :
    (build options calls).toList.filter (fun d => d.key = key) =
      ((admitted options calls).find? fun d => d.key = key).toList := by
  cases found : (admitted options calls).find? (fun d => d.key = key) with
  | none =>
    refine List.filter_eq_nil_iff.mpr fun d held => ?_
    exact List.find?_eq_none.mp found d (mem_admitted_of_mem_build held)
  | some first =>
    have nodup := ((nodup_keys_build options calls).of_map _).filter (fun d => d.key = key)
    refine List.perm_singleton.mp ((List.perm_ext_iff_of_nodup nodup (by simp)).mpr fun d => ?_)
    rw [List.mem_filter, List.mem_singleton, decide_eq_true_iff]
    constructor
    · rintro ⟨held, rfl⟩
      exact Option.some.inj ((mem_build_iff.mp held).symm.trans found)
    · rintro rfl
      exact mem_build_of_find? found

/-! ## Counts -/

theorem errorCount_add_warningCount (r : Report) : r.errorCount + r.warningCount = r.size := by
  have other (d : Diagnostic) :
      decide (d.severity = .warning) = decide ¬ decide (d.severity = .error) = true := by
    cases d.severity <;> rfl
  unfold errorCount warningCount count
  simp only [other]
  exact (List.length_eq_countP_add_countP _).symm

theorem mem_errorKeys {key : Option Location × Severity × String} :
    key ∈ errorKeys calls ↔ ∃ call ∈ calls, call.subject.isError = true ∧ call.subject.key = key := by
  simp [errorKeys, and_assoc]

/-- No error is dropped. -/
theorem mem_admitted_of_isError {call : Call} (mem : call ∈ calls)
    (error : call.subject.isError = true) : call.subject ∈ admitted options calls := by
  refine List.mem_filter.mpr ⟨List.mem_map_of_mem mem, ?_⟩
  simp_all [Diagnostic.isError]

theorem errorCount_build (options : ReportOptions) (calls : List Call) :
    (build options calls).errorCount = (errorKeys calls).card := by
  let errors := (build options calls).toList.filter Diagnostic.isError
  have nodup : (errors.map Diagnostic.key).Nodup :=
    (nodup_keys_build options calls).sublist (List.filter_sublist.map _)
  have same : (errors.map Diagnostic.key).toFinset = errorKeys calls := by
    ext key
    rw [List.mem_toFinset, List.mem_map, mem_errorKeys]
    constructor
    · rintro ⟨d, held, rfl⟩
      obtain ⟨held, error⟩ := List.mem_filter.mp held
      obtain ⟨added, -⟩ := List.mem_filter.mp (mem_admitted_of_mem_build held)
      obtain ⟨call, mem_call, rfl⟩ := List.mem_map.mp added
      exact ⟨call, mem_call, error, rfl⟩
    · rintro ⟨call, mem, error, rfl⟩
      have taken : call.subject ∈ admitted options calls := mem_admitted_of_isError mem error
      obtain ⟨d, held, same⟩ := exists_mem_build taken
      have severity : d.severity = call.subject.severity := congrArg (fun key => key.2.1) same
      refine ⟨d, List.mem_filter.mpr ⟨held, ?_⟩, same⟩
      rwa [Diagnostic.isError, severity]
  calc (build options calls).errorCount
      = errors.length := List.countP_eq_length_filter ..
    _ = (errors.map Diagnostic.key).toFinset.card := by
        rw [List.toFinset_card_of_nodup nodup, List.length_map]
    _ = (errorKeys calls).card := by rw [same]

theorem check_build (options : ReportOptions) (calls : List Call) :
    (build options calls).check =
      if ∃ call ∈ calls, call.subject.isError = true then .error ⟨(errorKeys calls).card⟩
      else .ok () := by
  rw [check, errorCount_build]
  split_ifs with some_error
  · obtain ⟨call, mem, error⟩ := some_error
    have positive : 0 < (errorKeys calls).card :=
      Finset.card_pos.mpr ⟨_, mem_errorKeys.mpr ⟨call, mem, error, rfl⟩⟩
    split
    · omega
    · rfl
  · have none : errorKeys calls = ∅ := by
      refine Finset.eq_empty_of_forall_notMem fun key mem => some_error ?_
      obtain ⟨call, mem, error, -⟩ := mem_errorKeys.mp mem
      exact ⟨call, mem, error⟩
    rw [none]
    rfl

/-! ## The order of calls -/

/-- Without notes there is nothing but the key, and it does not matter which one came first. -/
theorem mem_build_iff_of_plain (plain : ∀ call ∈ calls, call.subject.notes = []) :
    d ∈ (build options calls).toList ↔ d ∈ admitted options calls := by
  refine ⟨mem_admitted_of_mem_build, fun mem => ?_⟩
  have no_notes (x : Diagnostic) (mem : x ∈ admitted options calls) : x.notes = [] := by
    obtain ⟨call, mem_call, rfl⟩ := List.mem_map.mp (List.mem_filter.mp mem).1
    exact plain call mem_call
  obtain ⟨first, held, same⟩ := exists_mem_build mem
  have notes : first.notes = d.notes :=
    (no_notes first (mem_admitted_of_mem_build held)).trans (no_notes d mem).symm
  exact Diagnostic.eq_of_key_eq same notes ▸ held

theorem build_perm (perm : calls.Perm calls') (plain : ∀ call ∈ calls, call.subject.notes = []) :
    build options calls' = build options calls := by
  have plain' : ∀ call ∈ calls', call.subject.notes = [] := fun call mem =>
    plain call (perm.mem_iff.mpr mem)
  have same : (build options calls').diagnostics = (build options calls).diagnostics := by
    refine SortedSet.ext fun d => ?_
    show d ∈ (build options calls').toList ↔ d ∈ (build options calls).toList
    rw [mem_build_iff_of_plain plain, mem_build_iff_of_plain plain']
    exact ((perm.map _).filter _).symm.mem_iff
  calc build options calls'
      = ⟨options, (build options calls').diagnostics⟩ := by rw [build_eq]
    _ = build options calls := by rw [same, build_eq]

/-- A report is in strictly increasing order and holds, for each key among the calls it does not drop,
the diagnostic that came first.  Every entry is counted once, as an error or as a warning, and the check
fails when an error was added, with the number of different ones.  Calls without notes may come in any
order. -/
theorem build_contents (options : ReportOptions) (calls : List Call) :
    (build options calls).toList.Pairwise (fun a b => Diagnostic.order a b = .lt) ∧
    (∀ key, (build options calls).toList.filter (fun d => d.key = key) =
      ((admitted options calls).find? fun d => d.key = key).toList) ∧
    (build options calls).errorCount + (build options calls).warningCount =
      (build options calls).size ∧
    ((build options calls).check =
      if ∃ call ∈ calls, call.subject.isError = true then .error ⟨(errorKeys calls).card⟩
      else .ok ()) ∧
    ∀ calls', calls.Perm calls' → (∀ call ∈ calls, call.subject.notes = []) →
      build options calls' = build options calls :=
  ⟨increasing_build options calls, filter_build options calls, errorCount_add_warningCount _,
    check_build options calls, fun _ => build_perm⟩

/-- One error twice, through different calls, a second error, and a warning. -/
def untidyCalls : List Call :=
  [.error "bad union" none, .warning "unused type" (some (.point "a.dl" ⟨4, 2⟩)),
    .diagnostic ⟨.error, ⟨"bad union", none⟩, []⟩,
    .error "undefined type" (some (.point "a.dl" ⟨4, 2⟩))]

/-- One error three times, with different notes and with none, and a warning that has the same text. -/
def notedCalls : List Call :=
  [.warning "bad union" none, .diagnostic ⟨.error, ⟨"bad union", none⟩, [⟨"it has no members", none⟩]⟩,
    .error "bad union" none,
    .diagnostic ⟨.error, ⟨"bad union", none⟩, [⟨"it is declared here", some (.point "a.dl" ⟨4, 2⟩)⟩]⟩]

/-- There are two errors in the untidy calls, and the same report comes out when they are made
backwards.  Of the calls with notes the first error stays, with its note; made backwards, they leave
the note of the last one. -/
theorem build_contents_untidyCalls :
    (build {} untidyCalls).check = .error ⟨2⟩ ∧
    build {} untidyCalls.reverse = build {} untidyCalls ∧
    (build {} notedCalls).toList.filter (fun d => d.key = (none, .error, "bad union")) =
      [⟨.error, ⟨"bad union", none⟩, [⟨"it has no members", none⟩]⟩] ∧
    (build {} notedCalls.reverse).toList.filter (fun d => d.key = (none, .error, "bad union")) =
      [⟨.error, ⟨"bad union", none⟩, [⟨"it is declared here", some (.point "a.dl" ⟨4, 2⟩)⟩]⟩] ∧
    (build {} notedCalls).errorCount + (build {} notedCalls).warningCount =
      (build {} notedCalls).size ∧ (build {} notedCalls).check = .error ⟨1⟩ := by
  obtain ⟨-, -, -, check, reorder⟩ := build_contents {} untidyCalls
  obtain ⟨-, held, sum, check_noted, -⟩ := build_contents {} notedCalls
  obtain ⟨-, held_reverse, -⟩ := build_contents {} notedCalls.reverse
  have two : (errorKeys untidyCalls).card = 2 := by decide
  have one : (errorKeys notedCalls).card = 1 := by decide
  refine ⟨?_, reorder _ (List.reverse_perm _).symm (by decide), (held _).trans (by decide),
    (held_reverse _).trans (by decide), sum, ?_⟩
  · rw [check, if_pos ⟨_, List.mem_cons_self, rfl⟩, two]
  · rw [check_noted, if_pos ⟨_, List.mem_cons_of_mem _ List.mem_cons_self, rfl⟩, one]

end Report

end TypeHierarchy
