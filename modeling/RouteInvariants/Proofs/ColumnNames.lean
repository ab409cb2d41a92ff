import Mathlib.Data.Set.Function
import RouteInvariants.Proofs.Families

/-!
Column names as numerals. The letters are digits from one to twenty-six, and there is no zero, so
every word over the letters is the name of one index (`columnNameOfInt_numbering`). A name ends in
the letter of the remainder, after the name of the quotient: reading a name and comparing two of
them both follow that last letter.
-/

namespace RouteInvariants

/-- The place of a capital letter in the alphabet, counting from one. -/
def letterPosition (c : Char) : Nat := c.toNat - 64

/-- The number that a word stands for: a letter adds its place to 26 times what is before it. -/
def columnIndex (name : String) : Nat :=
  name.toList.foldl (fun acc c => acc * 26 + letterPosition c) 0

/-- A word that is not empty, over the capital letters. -/
def IsColumnName (name : String) : Prop := name ≠ "" ∧ ∀ c ∈ name.toList, 'A' ≤ c ∧ c ≤ 'Z'

/-- Shorter words come first, and words of one length are in alphabetical order. -/
def Precedes (s t : String) : Prop := s.length < t.length ∨ s.length = t.length ∧ s < t

/-! ### Letters -/

theorem letter_mem_alphabet {a : Nat} (ha : a < 26) :
    'A' ≤ Char.ofNat (65 + a) ∧ Char.ofNat (65 + a) ≤ 'Z' := by
  have hletters : ∀ a : Fin 26, 'A' ≤ Char.ofNat (65 + a) ∧ Char.ofNat (65 + a) ≤ 'Z' := by decide
  exact hletters ⟨a, ha⟩

theorem letterPosition_letter {a : Nat} (ha : a < 26) :
    letterPosition (Char.ofNat (65 + a)) = a + 1 := by
  have hletters : ∀ a : Fin 26, letterPosition (Char.ofNat (65 + a)) = a + 1 := by decide
  exact hletters ⟨a, ha⟩

theorem letter_lt_iff {a b : Nat} (ha : a < 26) (hb : b < 26) :
    Char.ofNat (65 + a) < Char.ofNat (65 + b) ↔ a < b := by
  have hletters : ∀ a b : Fin 26, Char.ofNat (65 + a) < Char.ofNat (65 + b) ↔ a < b := by decide
  exact hletters ⟨a, ha⟩ ⟨b, hb⟩

theorem exists_letter {c : Char} (hc : 'A' ≤ c ∧ c ≤ 'Z') :
    ∃ a < 26, c = Char.ofNat (65 + a) := by
  have hlow : 65 ≤ c.toNat := hc.1
  have hhigh : c.toNat ≤ 90 := hc.2
  refine ⟨c.toNat - 65, by omega, ?_⟩
  rw [Nat.add_sub_cancel' hlow, Char.ofNat_toNat]

/-! ### Reading -/

theorem columnIndex_push (name : String) (c : Char) :
    columnIndex (name.push c) = columnIndex name * 26 + letterPosition c := by
  rw [columnIndex, String.toList_push, List.foldl_concat]
  rfl

/-- A name reads back as its index. -/
theorem columnIndex_columnName (i : Nat) : columnIndex (columnName i) = i := by
  induction i using Nat.strongRecOn with
  | ind i ih =>
    cases i with
    | zero =>
      rw [columnName_zero]
      rfl
    | succ i =>
      rw [columnName_succ, columnIndex_push, ih (i / 26) (by omega),
        letterPosition_letter (Nat.mod_lt i (by decide))]
      omega

theorem letters_columnName (i : Nat) : ∀ c ∈ (columnName i).toList, 'A' ≤ c ∧ c ≤ 'Z' := by
  induction i using Nat.strongRecOn with
  | ind i ih =>
    cases i with
    | zero =>
      rw [columnName_zero]
      exact List.forall_mem_nil _
    | succ i =>
      rw [columnName_succ, String.toList_push, List.forall_mem_append, List.forall_mem_singleton]
      exact ⟨ih (i / 26) (by omega), letter_mem_alphabet (Nat.mod_lt i (by decide))⟩

theorem isColumnName_columnName {i : Nat} (hi : 0 < i) : IsColumnName (columnName i) := by
  refine ⟨fun hempty => ?_, letters_columnName i⟩
  have hindex := columnIndex_columnName i
  rw [hempty] at hindex
  exact hi.ne hindex

/-- The name of the number that a word stands for is the word. -/
theorem columnName_columnIndex {name : String} (h : ∀ c ∈ name.toList, 'A' ≤ c ∧ c ≤ 'Z') :
    columnName (columnIndex name) = name := by
  obtain ⟨cs, rfl⟩ : ∃ cs, name = String.ofList cs := ⟨_, String.ofList_toList.symm⟩
  rw [String.toList_ofList] at h
  induction cs using List.reverseRecOn with
  | nil => exact columnName_zero
  | append_singleton cs c ih =>
    rw [List.forall_mem_append, List.forall_mem_singleton] at h
    obtain ⟨a, ha, rfl⟩ := exists_letter h.2
    have hpush : String.ofList (cs ++ [Char.ofNat (65 + a)]) =
        (String.ofList cs).push (Char.ofNat (65 + a)) := by
      rw [← String.toList_inj, String.toList_push, String.toList_ofList, String.toList_ofList]
    have hquotient : (columnIndex (String.ofList cs) * 26 + a) / 26 =
        columnIndex (String.ofList cs) := by omega
    have hremainder : (columnIndex (String.ofList cs) * 26 + a) % 26 = a := by omega
    rw [hpush, columnIndex_push, letterPosition_letter ha, ← Nat.add_assoc, columnName_succ,
      hquotient, hremainder, ih h.1]

theorem columnIndex_pos {name : String} (h : IsColumnName name) : 0 < columnIndex name := by
  refine Nat.pos_of_ne_zero fun hzero => h.1 ?_
  rw [← columnName_columnIndex h.2, hzero, columnName_zero]

/-! ### Order -/

/-- Of two words of one length, the last letters decide where all before them are the same. -/
theorem append_singleton_lt_iff {s t : List Char} (h : s.length = t.length) {c d : Char} :
    s ++ [c] < t ++ [d] ↔ s < t ∨ s = t ∧ c < d := by
  induction s generalizing t with
  | nil =>
    obtain rfl := List.length_eq_zero_iff.1 h.symm
    simp [List.cons_lt_cons_iff]
  | cons a s ih =>
    obtain _ | ⟨b, t⟩ := t
    · cases h
    · rw [List.cons_append, List.cons_append, List.cons_lt_cons_iff, List.cons_lt_cons_iff,
        ih (Nat.succ.inj h), List.cons.injEq]
      tauto

theorem precedes_push {s t : String} {c d : Char} :
    Precedes (s.push c) (t.push d) ↔ Precedes s t ∨ s = t ∧ c < d := by
  unfold Precedes
  rw [String.length_push, String.length_push, Nat.add_lt_add_iff_right, Nat.add_right_cancel_iff,
    or_assoc]
  refine or_congr_right ?_
  rw [String.lt_iff, String.lt_iff, String.toList_push, String.toList_push, ← String.toList_inj]
  constructor
  · rintro ⟨hlength, hlt⟩
    rw [← String.length_toList, ← String.length_toList] at hlength ⊢
    rcases (append_singleton_lt_iff hlength).1 hlt with hlt | hsame
    · exact .inl ⟨hlength, hlt⟩
    · exact .inr hsame
  · rintro (⟨hlength, hlt⟩ | ⟨hsame, hlt⟩)
    · refine ⟨hlength, (append_singleton_lt_iff ?_).2 (.inl hlt)⟩
      rwa [String.length_toList, String.length_toList]
    · have hlength : s.toList.length = t.toList.length := congrArg List.length hsame
      refine ⟨?_, (append_singleton_lt_iff hlength).2 (.inr ⟨hsame, hlt⟩)⟩
      rwa [String.length_toList, String.length_toList] at hlength

theorem not_precedes_empty (s : String) : ¬ Precedes s "" := by
  rintro (hlength | ⟨-, hlt⟩)
  · exact Nat.not_lt_zero _ hlength
  · rw [String.lt_iff] at hlt
    exact List.not_lt_nil _ hlt

theorem empty_precedes_push (s : String) (c : Char) : Precedes "" (s.push c) := by
  refine .inl ?_
  rw [String.length_push]
  exact Nat.succ_pos _

/-- Names are in the order of their indices. -/
theorem precedes_columnName {i j : Nat} : Precedes (columnName i) (columnName j) ↔ i < j := by
  induction i using Nat.strongRecOn generalizing j with
  | ind i ih =>
    cases j with
    | zero =>
      rw [columnName_zero]
      exact iff_of_false (not_precedes_empty _) (Nat.not_lt_zero i)
    | succ j =>
      cases i with
      | zero =>
        rw [columnName_zero, columnName_succ]
        exact iff_of_true (empty_precedes_push _ _) (Nat.succ_pos j)
      | succ i =>
        rw [columnName_succ, columnName_succ, precedes_push, ih (i / 26) (by omega),
          columnName_injective.eq_iff,
          letter_lt_iff (Nat.mod_lt i (by decide)) (Nat.mod_lt j (by decide))]
        omega

/-! ### The numbering -/

/-- Column names are the words over the capital letters, each for one positive index: a name reads
back as its index, and names are in the order of their indices. -/
theorem columnNameOfInt_numbering :
    Set.BijOn columnNameOfInt {i | 0 < i} {name | IsColumnName name} ∧
    (∀ i, 0 < i → (columnIndex (columnNameOfInt i) : Int) = i) ∧
    ∀ i j, 0 < i → 0 < j → (i < j ↔ Precedes (columnNameOfInt i) (columnNameOfInt j)) := by
  have hread : ∀ i, 0 < i → (columnIndex (columnNameOfInt i) : Int) = i := by
    intro i hi
    rw [columnNameOfInt, columnIndex_columnName, Int.toNat_of_nonneg hi.le]
  have hinverse : Set.InvOn (fun name => (columnIndex name : Int)) columnNameOfInt {i | 0 < i}
      {name | IsColumnName name} := by
    refine ⟨hread, fun name hname => ?_⟩
    rw [columnNameOfInt, Int.toNat_natCast, columnName_columnIndex hname.2]
  refine ⟨hinverse.bijOn ?_ ?_, hread, ?_⟩
  · intro i hi
    have hpos : 0 < i := hi
    exact isColumnName_columnName (by omega)
  · intro name hname
    exact Int.natCast_pos.2 (columnIndex_pos hname)
  · intro i j hi hj
    rw [columnNameOfInt, columnNameOfInt, precedes_columnName]
    omega

/-- The step from two letters to three. -/
theorem columnNameOfInt_numbering_carry :
    columnNameOfInt 702 = "ZZ" ∧ columnNameOfInt 703 = "AAA" ∧
      (columnIndex (columnNameOfInt 702) : Int) = 702 ∧
      Precedes (columnNameOfInt 702) (columnNameOfInt 703) := by
  refine ⟨?_, ?_, columnNameOfInt_numbering.2.1 702 (by decide),
    (columnNameOfInt_numbering.2.2 702 703 (by decide) (by decide)).1 (by decide)⟩
  · decide +kernel
  · decide +kernel

end RouteInvariants
