/-
# Strings of UTF-16 code units

The Java platform compares strings by their UTF-16 code units, which is not the order of their
characters: those beyond the basic plane come before some of it.

* `Utf16.compareTo` : the difference of the first two code units that differ, or of the lengths;
* `Utf16.compareTo_neg_iff` : it is negative just if the code units come first in lexicographic
  order;
* `Utf16.units_injective` : different strings have different code units.
-/
import Mathlib.Algebra.Order.Ring.Int
import Mathlib.Data.List.Lex
import Mathlib.Data.Nat.Notation

namespace Utf16

/-- The UTF-16 code units of a character. -/
def utf16 (c : Char) : List ℕ :=
  if c.toNat < 0x10000 then [c.toNat]
  else [0xD800 + (c.toNat - 0x10000) / 0x400, 0xDC00 + (c.toNat - 0x10000) % 0x400]

/-- The code units of a string. -/
def units (s : String) : List ℕ := s.toList.flatMap utf16

/-- The comparison of two sequences of code units. -/
def compareUnits : List ℕ → List ℕ → ℤ
  | a :: s, b :: t => if a = b then compareUnits s t else (a : ℤ) - b
  | s, t => (s.length : ℤ) - t.length

/-- `String.compareTo`. -/
def compareTo (s t : String) : ℤ := compareUnits (units s) (units t)

/-! ## An order -/

/-- It is negative just if the first sequence comes first. -/
theorem compareUnits_neg_iff (s t : List ℕ) : compareUnits s t < 0 ↔ s < t := by
  induction s, t using compareUnits.induct with
  | case1 s b t ih =>
      rw [compareUnits, if_pos rfl, ih, List.cons_lt_cons_iff]
      simp
  | case2 a s b t hne =>
      rw [compareUnits, if_neg hne, List.cons_lt_cons_iff]
      simp only [hne, false_and, or_false]
      omega
  | case3 s t hnot =>
      rw [compareUnits]
      · cases s with
        | nil =>
            cases t with
            | nil => simp
            | cons b t =>
                simp only [List.length_nil, List.length_cons, List.nil_lt_cons, iff_true]
                omega
        | cons a s =>
            cases t with
            | nil =>
                simp only [List.length_nil, List.length_cons, List.not_lt_nil, iff_false]
                omega
            | cons b t => exact absurd rfl (hnot a s b t rfl)
      · exact hnot

/-- **`compareTo` as an order.** -/
theorem compareTo_neg_iff (s t : String) : compareTo s t < 0 ↔ units s < units t :=
  compareUnits_neg_iff _ _

/-! ## Characters from code units -/

/-- A character is no surrogate. -/
theorem toNat_valid (c : Char) : c.toNat < 0xD800 ∨ 0xDFFF < c.toNat ∧ c.toNat < 0x110000 :=
  c.valid

/-- A character is given by its number. -/
theorem toNat_injective {c d : Char} (h : c.toNat = d.toNat) : c = d :=
  Char.ext (UInt32.toNat_inj.mp h)

/-- The first character can be read off. -/
theorem utf16_append_inj {c d : Char} {s t : List ℕ} (h : utf16 c ++ s = utf16 d ++ t) :
    c = d ∧ s = t := by
  have hc := toNat_valid c
  have hd := toNat_valid d
  unfold utf16 at h
  split_ifs at h with hc' hd' hd'
  · simp only [List.cons_append, List.nil_append, List.cons.injEq] at h
    exact ⟨toNat_injective h.1, h.2⟩
  · -- no character of the basic plane is a surrogate
    simp only [List.cons_append, List.nil_append, List.cons.injEq] at h
    omega
  · simp only [List.cons_append, List.nil_append, List.cons.injEq] at h
    omega
  · simp only [List.cons_append, List.nil_append, List.cons.injEq] at h
    exact ⟨toNat_injective (by omega), h.2.2⟩

/-- Each character has a code unit. -/
theorem utf16_ne_nil (c : Char) : utf16 c ≠ [] := by
  unfold utf16
  split_ifs <;> exact List.cons_ne_nil _ _

/-- **Strings are told apart.** -/
theorem units_injective : Function.Injective units := by
  have hlist : ∀ s t : List Char, s.flatMap utf16 = t.flatMap utf16 → s = t := by
    intro s
    induction s with
    | nil =>
        intro t h
        cases t with
        | nil => rfl
        | cons d t => exact absurd (List.append_eq_nil_iff.mp h.symm).1 (utf16_ne_nil d)
    | cons c s ih =>
        intro t h
        cases t with
        | nil => exact absurd (List.append_eq_nil_iff.mp h).1 (utf16_ne_nil c)
        | cons d t =>
            obtain ⟨rfl, hrest⟩ := utf16_append_inj h
            rw [ih t hrest]
  intro s t h
  exact String.toList_injective (hlist _ _ h)

end Utf16
