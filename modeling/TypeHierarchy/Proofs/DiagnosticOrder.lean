import TypeHierarchy.Proofs.Report
import TypeHierarchy.Proofs.TextOrder

/-!
# The order of diagnostics

A report relies on the order of its diagnostics for what it lists first and for what it takes for the same
entry.  The order is total and sees the key of a diagnostic and nothing else.  For two diagnostics with a
location it is spelled out to the end: file, start and stop come before severity and text, and files and
texts are compared as their bytes are (`order_of_located`).  `order_lawful` has it all.
-/

namespace TypeHierarchy.Diagnostic

open Source Text

variable {x y : Diagnostic} {a b : Location}

/-- The order of two diagnostics at the same place. -/
def contentOrder (x y : Diagnostic) : Ordering :=
  (compare x.severity y.severity).then (compare (bytes x.primary.text) (bytes y.primary.text))

theorem order_eq (x y : Diagnostic) :
    order x y = (compare x.placeRank y.placeRank).then
      ((compare x.primary.location y.primary.location).then (contentOrder x y)) := by
  rw [contentOrder, ← compare_eq_compare_bytes]
  rfl

theorem order_of_located (located : x.primary.location = some a)
    (located' : y.primary.location = some b) :
    order x y = ((compare (bytes a.file) (bytes b.file)).then <|
      (compare a.start.line b.start.line).then <| (compare a.start.column b.start.column).then <|
      (compare a.stop.line b.stop.line).then <| (compare a.stop.column b.stop.column).then <|
      contentOrder x y) := by
  have places : compare (some a) (some b) = compare a b := rfl
  rw [order_eq, placeRank, placeRank, located, located', places, Location.compare_eq,
    Position.compare_eq, Position.compare_eq, ← compare_eq_compare_bytes]
  simp [Ordering.then_assoc]

theorem order_of_mixed (located : x.primary.location = some a)
    (unlocated : y.primary.location = none) : order x y = .lt := by
  rw [order_eq, placeRank, placeRank, located, unlocated]
  rfl

theorem order_of_unlocated (unlocated : x.primary.location = none)
    (unlocated' : y.primary.location = none) : order x y = contentOrder x y := by
  rw [order_eq, placeRank, placeRank, unlocated, unlocated']
  rfl

/-- The order of diagnostics is total.  Two of them are equal in it when they agree in location, severity
and text; notes do not count.  Those with a location come first, by file, start and stop, and only then
by severity and text.  Files and texts are compared by their bytes, and so by their characters. -/
theorem order_lawful (x y z : Diagnostic) :
    order x y = (order y x).swap ∧
    (order x y ≠ .gt → order y z ≠ .gt → order x z ≠ .gt) ∧
    (order x y = .eq ↔ x.primary.location = y.primary.location ∧ x.severity = y.severity ∧
      x.primary.text = y.primary.text) ∧
    (∀ a, x.primary.location = some a → y.primary.location = none → order x y = .lt) ∧
    (∀ a b, x.primary.location = some a → y.primary.location = some b →
      order x y = ((compare (bytes a.file) (bytes b.file)).then <|
        (compare a.start.line b.start.line).then <| (compare a.start.column b.start.column).then <|
        (compare a.stop.line b.stop.line).then <| (compare a.stop.column b.stop.column).then <|
        contentOrder x y)) ∧
    (x.primary.location = none → y.primary.location = none → order x y = contentOrder x y) ∧
    ∀ s t, compare (bytes s) (bytes t) = compare (codePoints s) (codePoints t) := by
  refine ⟨Std.OrientedCmp.eq_swap, fun xy yz => ?_, ?_, fun a => order_of_mixed,
    fun a b => order_of_located, order_of_unlocated, fun s t => ?_⟩
  · rw [ne_eq, ← Ordering.isLE_iff_ne_gt] at xy yz ⊢
    exact Std.TransCmp.isLE_trans xy yz
  · rw [order_eq_iff, key, key, Prod.mk.injEq, Prod.mk.injEq]
  · rw [← compare_eq_compare_bytes, compare_eq_compare_codePoints]

/-- A warning in a file whose name is the last character of three bytes. -/
def lateWarning : Diagnostic :=
  ⟨.warning, ⟨"unused", some ⟨"\uffff", ⟨1, 1⟩, ⟨1, 4⟩⟩⟩, [⟨"here", none⟩]⟩

/-- An error in a file whose name is a character of four bytes. -/
def strayError : Diagnostic := ⟨.error, ⟨"bad union", some ⟨"😀", ⟨1, 1⟩, ⟨1, 1⟩⟩⟩, []⟩

/-- The file decides between the two, though errors come before warnings, and a diagnostic with no
location comes after both. -/
theorem order_lawful_lateWarning :
    order lateWarning strayError = .lt ∧ order strayError ⟨.error, ⟨"bad", none⟩, []⟩ = .lt ∧
    order lateWarning ⟨.error, ⟨"bad", none⟩, []⟩ ≠ .gt := by
  obtain ⟨-, chain, -, -, located, -⟩ :=
    order_lawful lateWarning strayError ⟨.error, ⟨"bad", none⟩, []⟩
  obtain ⟨-, -, -, mixed, -⟩ := order_lawful strayError ⟨.error, ⟨"bad", none⟩, []⟩ lateWarning
  have first : order lateWarning strayError = .lt := by
    rw [located _ _ rfl rfl]
    decide +kernel
  have second := mixed _ rfl rfl
  refine ⟨first, second, chain ?_ ?_⟩
  · rw [first]
    decide
  · rw [second]
    decide

end TypeHierarchy.Diagnostic
