/-
# Machine integers of a fixed width

A natural number reduced to a width is read back exactly just if it is below a bound, and sums
are reduced like their terms.

* `FixedWidth` : a type of machine integers, signed or not;
* `FixedWidth.toInt_ofNat_eq_iff` : which numbers are exact;
* `FixedWidth.map_exact_iff` : how many terms of a monotone sequence are exact;
* `FixedWidth.toInt_add_eq_iff`, `FixedWidth.toInt_sub` : which sums and differences of 64 bits are
  exact.
-/
import Mathlib.Data.List.Basic
import Mathlib.Order.Monotone.Defs
import Mathlib.Data.Nat.Cast.Order.Ring
import Mathlib.Algebra.Order.Ring.Int

/-- Machine integers. -/
structure FixedWidth (w : Type*) [Add w] where
  ofNat : ℕ → w
  toInt : w → ℤ
  /-- the natural numbers below it have a machine integer of their own -/
  bound : ℕ
  ofNat_add (m n : ℕ) : ofNat (m + n) = ofNat m + ofNat n
  toInt_ofNat {n : ℕ} : n < bound → toInt (ofNat n) = n
  toInt_lt (x : w) : toInt x < bound

namespace FixedWidth

/-- 32 bits with a sign. -/
def int32 : FixedWidth Int32 where
  ofNat := Int32.ofNat
  toInt := Int32.toInt
  bound := 2 ^ 31
  ofNat_add := Int32.ofNat_add
  toInt_ofNat := Int32.toInt_ofNat_of_lt
  toInt_lt := Int32.toInt_lt

/-- 64 bits with a sign. -/
def int64 : FixedWidth Int64 where
  ofNat := Int64.ofNat
  toInt := Int64.toInt
  bound := 2 ^ 63
  ofNat_add := Int64.ofNat_add
  toInt_ofNat := Int64.toInt_ofNat_of_lt
  toInt_lt := Int64.toInt_lt

/-- 64 bits without a sign. -/
def uint64 : FixedWidth UInt64 where
  ofNat := UInt64.ofNat
  toInt x := x.toNat
  bound := 2 ^ 64
  ofNat_add := UInt64.ofNat_add
  toInt_ofNat h := congrArg Nat.cast (UInt64.toNat_ofNat_of_lt' h)
  toInt_lt x := Int.ofNat_lt.mpr x.toNat_lt

variable {w : Type*} [Add w] (W : FixedWidth w)

/-- **Exactness.** -/
theorem toInt_ofNat_eq_iff (n : ℕ) : W.toInt (W.ofNat n) = n ↔ n < W.bound := by
  constructor
  · intro h
    have hlt := W.toInt_lt (W.ofNat n)
    rw [h] at hlt
    exact Int.ofNat_lt.mp hlt
  · exact W.toInt_ofNat

/-- The first `n` terms of a monotone sequence are exact just if they are below the bound, and the
first term that is not says how many there are. -/
theorem map_exact_iff {f : ℕ → ℕ} (hf : Monotone f) {k : ℕ} (hlt : f k < W.bound)
    (hle : W.bound ≤ f (k + 1)) (n : ℕ) :
    ((List.range n).map fun i => W.toInt (W.ofNat (f i))) =
        ((List.range n).map fun i => (f i : ℤ)) ↔
      n ≤ k + 1 := by
  simp only [List.map_inj_left, List.mem_range, W.toInt_ofNat_eq_iff]
  constructor
  · intro h
    by_contra hn
    exact absurd (h (k + 1) (Nat.lt_of_not_le hn)) (Nat.not_lt_of_le hle)
  · intro hn i hi
    exact (hf (Nat.le_of_lt_succ (Nat.lt_of_lt_of_le hi hn))).trans_lt hlt

/-! ## Sums and differences of 64 bits -/

/-- The addition of what is not negative does not wrap around. -/
theorem toInt_add_eq_iff {a b : Int64} (hb : 0 ≤ b.toInt) :
    (a + b).toInt = a.toInt + b.toInt ↔ a.toInt + b.toInt < 2 ^ 63 := by
  constructor
  · intro heq
    have hlt := (a + b).toInt_lt
    omega
  · intro hlt
    have ha := a.le_toInt
    rw [Int64.toInt_add]
    apply Int.bmod_eq_of_le <;> omega

/-- Taking away what is there does not. -/
theorem toInt_sub {a b : Int64} (hb : 0 ≤ b.toInt) (hle : b.toInt ≤ a.toInt) :
    (a - b).toInt = a.toInt - b.toInt :=
  Int64.toInt_sub_of_le a b (Int64.le_iff_toInt_le.mpr hb) (Int64.le_iff_toInt_le.mpr hle)

end FixedWidth
