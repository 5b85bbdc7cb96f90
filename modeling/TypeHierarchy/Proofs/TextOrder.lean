/-!
# The order of texts

Texts are compared by their characters, from the left, and characters by their numbers.  The bytes that
UTF-8 writes for a text give the same order (`compare_eq_compare_bytes`): of two different characters the
smaller one has the smaller byte where the two first differ, whatever follows
(`compare_encode_of_lt`), and neither is the beginning of the other.
-/

namespace TypeHierarchy.Text

/-- The numbers of the characters. -/
def codePoints (text : String) : List Nat := text.toList.map Char.toNat

/-- The bytes of the text in UTF-8. -/
def bytes (text : String) : List UInt8 := text.toUTF8.data.toList

theorem bytes_eq (text : String) : bytes text = text.toList.flatMap String.utf8EncodeChar := by
  have encoded : text.toUTF8 = text.toList.utf8Encode := by
    rw [String.toUTF8_eq_toByteArray, ← String.toByteArray_ofList, String.ofList_toList]
  rw [bytes, encoded, List.utf8Encode, List.data_toByteArray]

theorem codePoints_inj {s t : String} : codePoints s = codePoints t ↔ s = t := by
  refine ⟨fun same => String.ext ?_, fun same => same ▸ rfl⟩
  exact (List.map_inj_right fun _ _ => Char.toNat_inj.mp).mp same

/-! ## Comparing numbers -/

theorem lex_iff_compare {l k : List Char} :
    List.Lex (· < ·) l k ↔ compare (l.map Char.toNat) (k.map Char.toNat) = .lt := by
  induction l generalizing k with
  | nil =>
    cases k with
    | nil => exact iff_of_false List.not_lex_nil (by decide)
    | cons d k => exact iff_of_true .nil rfl
  | cons c l ih =>
    cases k with
    | nil => exact iff_of_false List.not_lex_nil (by simp)
    | cons d k =>
      rw [List.cons_lex_cons_iff, List.map_cons, List.map_cons, List.compare_cons_cons,
        Ordering.then_eq_lt, Nat.compare_eq_lt, Nat.compare_eq_eq, Char.toNat_inj, ih]
      rfl

theorem compare_eq_compare_codePoints (s t : String) :
    compare s t = compare (codePoints s) (codePoints t) := by
  have less : s < t ↔ compare (codePoints s) (codePoints t) = .lt :=
    String.lt_iff.trans lex_iff_compare
  show compareOfLessAndEq s t = _
  unfold compareOfLessAndEq
  by_cases below : s < t
  · rw [if_pos below, less.mp below]
  by_cases same : s = t
  · rw [if_neg below, if_pos same, same, Std.ReflOrd.compare_self]
  · rw [if_neg below, if_neg same]
    cases order : compare (codePoints s) (codePoints t) with
    | lt => exact absurd (less.mpr order) below
    | eq => exact absurd (codePoints_inj.mp (Std.LawfulEqOrd.eq_of_compare order)) same
    | gt => rfl

/-! ## Comparing bytes -/

theorem compare_ofNat_eq_lt {m n : Nat} (hm : m < 256) (hn : n < 256) :
    compare (UInt8.ofNat m) (UInt8.ofNat n) = .lt ↔ m < n := by
  rw [Std.compare_eq_lt, UInt8.lt_iff_toNat_lt, UInt8.toNat_ofNat', UInt8.toNat_ofNat',
    Nat.mod_eq_of_lt hm, Nat.mod_eq_of_lt hn]

theorem compare_ofNat_eq_eq {m n : Nat} (hm : m < 256) (hn : n < 256) :
    compare (UInt8.ofNat m) (UInt8.ofNat n) = .eq ↔ m = n := by
  rw [Std.LawfulEqOrd.compare_eq_iff_eq, ← UInt8.toNat_inj, UInt8.toNat_ofNat', UInt8.toNat_ofNat',
    Nat.mod_eq_of_lt hm, Nat.mod_eq_of_lt hn]

/-- The bytes of one character: the first one tells how many there are, and each byte after it has six bits
of the number. -/
theorem encode_cases (c : Char) :
    (c.toNat < 0x80 ∧ String.utf8EncodeChar c = [.ofNat c.toNat]) ∨
    (0x80 ≤ c.toNat ∧ c.toNat < 0x800 ∧ String.utf8EncodeChar c =
      [.ofNat (c.toNat / 64 + 192), .ofNat (c.toNat % 64 + 128)]) ∨
    (0x800 ≤ c.toNat ∧ c.toNat < 0x10000 ∧ String.utf8EncodeChar c =
      [.ofNat (c.toNat / 4096 + 224), .ofNat (c.toNat / 64 % 64 + 128),
        .ofNat (c.toNat % 64 + 128)]) ∨
    (0x10000 ≤ c.toNat ∧ c.toNat < 0x110000 ∧ String.utf8EncodeChar c =
      [.ofNat (c.toNat / 262144 + 240), .ofNat (c.toNat / 4096 % 64 + 128),
        .ofNat (c.toNat / 64 % 64 + 128), .ofNat (c.toNat % 64 + 128)]) := by
  have bound : c.toNat < 0x110000 := by
    rcases c.valid with low | ⟨-, high⟩
    · exact Nat.lt_trans low (by decide)
    · exact high
  have number : c.val.toNat = c.toNat := rfl
  unfold String.utf8EncodeChar
  rw [number]
  generalize c.toNat = n at bound
  simp only
  by_cases one : n ≤ 127
  · rw [if_pos one]
    exact .inl ⟨by omega, rfl⟩
  by_cases two : n ≤ 2047
  · rw [if_neg one, if_pos two, Nat.mod_eq_of_lt (by omega)]
    exact .inr (.inl ⟨by omega, by omega, rfl⟩)
  by_cases three : n ≤ 65535
  · rw [if_neg one, if_neg two, if_pos three, Nat.mod_eq_of_lt (by omega)]
    exact .inr (.inr (.inl ⟨by omega, by omega, rfl⟩))
  · rw [if_neg one, if_neg two, if_neg three, Nat.mod_eq_of_lt (by omega)]
    exact .inr (.inr (.inr ⟨by omega, bound, rfl⟩))

theorem compare_encode_of_lt {c d : Char} (less : c.toNat < d.toNat) (l k : List UInt8) :
    compare (String.utf8EncodeChar c ++ l) (String.utf8EncodeChar d ++ k) = .lt := by
  rcases encode_cases c with ⟨hc, ec⟩ | ⟨hc, hc', ec⟩ | ⟨hc, hc', ec⟩ | ⟨hc, hc', ec⟩ <;>
  rcases encode_cases d with ⟨hd, ed⟩ | ⟨hd, hd', ed⟩ | ⟨hd, hd', ed⟩ | ⟨hd, hd', ed⟩ <;>
  · rw [ec, ed]
    simp (disch := omega) only [List.cons_append, List.compare_cons_cons, Ordering.then_eq_lt,
      compare_ofNat_eq_lt, compare_ofNat_eq_eq]
    omega

theorem compare_append_left (p l k : List UInt8) : compare (p ++ l) (p ++ k) = compare l k := by
  induction p with
  | nil => rfl
  | cons b p ih =>
    rw [List.cons_append, List.cons_append, List.compare_cons_cons, ih, Std.ReflOrd.compare_self]
    rfl

theorem compare_encode (c d : Char) (l k : List UInt8) :
    compare (String.utf8EncodeChar c ++ l) (String.utf8EncodeChar d ++ k) =
      (compare c.toNat d.toNat).then (compare l k) := by
  rcases Nat.lt_trichotomy c.toNat d.toNat with less | same | more
  · rw [compare_encode_of_lt less, Nat.compare_eq_lt.mpr less]
    rfl
  · rw [Char.toNat_inj.mp same, compare_append_left, Std.ReflOrd.compare_self]
    rfl
  · rw [Std.OrientedOrd.eq_swap, compare_encode_of_lt more, Nat.compare_eq_gt.mpr more]
    rfl

theorem exists_encode (c : Char) : ∃ b rest, String.utf8EncodeChar c = b :: rest := by
  rcases encode_cases c with ⟨-, e⟩ | ⟨-, -, e⟩ | ⟨-, -, e⟩ | ⟨-, -, e⟩ <;> exact ⟨_, _, e⟩

theorem compare_flatMap_encode (l k : List Char) :
    compare (l.flatMap String.utf8EncodeChar) (k.flatMap String.utf8EncodeChar) =
      compare (l.map Char.toNat) (k.map Char.toNat) := by
  induction l generalizing k with
  | nil =>
    cases k with
    | nil => rfl
    | cons d k =>
      obtain ⟨b, rest, e⟩ := exists_encode d
      rw [List.flatMap_cons, e]
      rfl
  | cons c l ih =>
    cases k with
    | nil =>
      obtain ⟨b, rest, e⟩ := exists_encode c
      rw [List.flatMap_cons, e]
      rfl
    | cons d k =>
      rw [List.flatMap_cons, List.flatMap_cons, compare_encode, ih, List.map_cons, List.map_cons,
        List.compare_cons_cons]

/-- The order of texts is the order of their bytes in UTF-8. -/
theorem compare_eq_compare_bytes (s t : String) : compare s t = compare (bytes s) (bytes t) := by
  rw [compare_eq_compare_codePoints, bytes_eq, bytes_eq, compare_flatMap_encode]
  rfl

end TypeHierarchy.Text
