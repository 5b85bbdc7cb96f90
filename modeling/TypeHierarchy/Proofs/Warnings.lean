import TypeHierarchy.Proofs.Report

/-!
# Reports without warnings

A report that takes no warnings in is the other report less its warnings (`build_noWarn`).  A set that
keeps the first of equal values may be filtered before or after it is filled, provided that equal
values are kept or dropped together (`SortedSet.toList_ofList_filter`).  An error is never the same
entry as a warning, so no warning that is dropped makes room for another error, or hides one.
-/

namespace TypeHierarchy

theorem SortedSet.toList_ofList_filter {α : Type} {cmp : α → α → Ordering} [Std.TransCmp cmp]
    {p : α → Bool} (alike : ∀ a b, cmp a b = .eq → p a = p b) (l : List α) :
    (ofList (l.filter p) : SortedSet α cmp).toList = (ofList l : SortedSet α cmp).toList.filter p := by
  have sorted := (ofList l : SortedSet α cmp).increasing.filter p
  refine eq_of_mem_iff (ofList (l.filter p)).increasing sorted fun x => ?_
  rw [List.mem_filter, ← mem_iff, ← mem_iff, mem_ofList_iff, mem_ofList_iff, List.find?_filter]
  cases kept : p x with
  | true =>
    have first (y : α) : (p y = true ∧ decide (cmp y x = .eq) = true) ↔ cmp y x = .eq := by
      rw [decide_eq_true_iff, and_iff_right_iff_imp]
      exact fun same => (alike y x same).trans kept
    simp only [first, and_true]
  | false =>
    have dropped : l.find? (fun y => decide (p y = true ∧ decide (cmp y x = .eq) = true)) ≠
        some x := by
      intro found
      simpa [kept] using List.find?_some found
    simpa using dropped

namespace Report

theorem isError_eq_of_order (a b : Diagnostic) (same : Diagnostic.order a b = .eq) :
    a.isError = b.isError := by
  have severity : a.severity = b.severity :=
    congrArg (fun key => key.2.1) (Diagnostic.order_eq_iff.mp same)
  rw [Diagnostic.isError, Diagnostic.isError, severity]

theorem admitted_noWarn (calls : List Call) :
    admitted ⟨true⟩ calls = (admitted ⟨false⟩ calls).filter Diagnostic.isError := by
  have wanted (d : Diagnostic) : (!decide (d.severity = .warning)) = d.isError := by
    unfold Diagnostic.isError
    cases d.severity <;> rfl
  simp [admitted, wanted]

theorem toList_build_noWarn (calls : List Call) :
    (build ⟨true⟩ calls).toList = (build ⟨false⟩ calls).toList.filter Diagnostic.isError := by
  rw [build_eq, build_eq, admitted_noWarn]
  exact SortedSet.toList_ofList_filter isError_eq_of_order _

theorem warningCount_build_noWarn (calls : List Call) :
    (build ⟨true⟩ calls).warningCount = 0 := by
  rw [warningCount, count, toList_build_noWarn, List.countP_eq_zero]
  intro d mem
  have error : d.severity = .error := of_decide_eq_true (List.mem_filter.mp mem).2
  simp [error]

/-- Of two reports made by the same calls, the one without warnings lists exactly the errors of the
other, in the same order and with the same notes.  The number of errors, the check and the text of the
errors are the same in both. -/
theorem build_noWarn (calls : List Call) :
    (build ⟨true⟩ calls).toList = (build ⟨false⟩ calls).toList.filter Diagnostic.isError ∧
    (build ⟨true⟩ calls).errorCount = (build ⟨false⟩ calls).errorCount ∧
    (build ⟨true⟩ calls).check = (build ⟨false⟩ calls).check ∧
    (build ⟨true⟩ calls).render = String.join
      (((build ⟨false⟩ calls).toList.filter Diagnostic.isError).map Diagnostic.render) ∧
    (build ⟨true⟩ calls).warningCount = 0 := by
  refine ⟨toList_build_noWarn calls, ?_, ?_, ?_, warningCount_build_noWarn calls⟩
  · rw [errorCount_build, errorCount_build]
  · rw [check_build, check_build]
  · rw [render, toList_build_noWarn]

/-- A warning and an error that differ in nothing else, and the same error again with a note. -/
example : (build ⟨true⟩ [.warning "odd" none, .error "odd" none,
      .diagnostic ⟨.error, ⟨"odd", none⟩, [⟨"see above", none⟩]⟩]).toList =
    [⟨.error, ⟨"odd", none⟩, []⟩] := by decide

end Report

end TypeHierarchy
