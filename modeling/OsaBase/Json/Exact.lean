import Mathlib.Algebra.Order.Floor.Ring
import Mathlib.Data.Rat.Floor
import OsaBase.Json.Print

/-!
# What the code relies on of `double`

The texts of `sprintf` fit into the block of a number, and the arithmetic on integers does not
round. Both hold of the rational numbers in the place of `double`.
-/

open Json

namespace OsaBase

/-! ## Lengths of texts -/

theorem decimalDigits_length {n k : ℕ} (hk : 0 < k) (hn : n < 10 ^ k) :
    (decimalDigits n).length ≤ k := by
  rw [decimalDigits]
  split
  · exact hk
  · rw [List.length_reverse]
    exact Nat.digits_length_le_iff (by decide) n |>.mpr hn

/-- A sign and the digits. -/
theorem sprintfD_length {i : ℤ} {k : ℕ} (hk : 0 < k) (hi : i.natAbs < 10 ^ k) :
    (sprintfD i).length ≤ k + 1 := by
  have hdigits := decimalDigits_length hk hi
  have hsign : (if i < 0 then [byte '-'] else []).length ≤ 1 := by
    split
    · exact le_rfl
    · exact Nat.zero_le _
  rw [sprintfD, List.length_append, digitText, List.length_map]
  omega

theorem sprintfD_int (i : Int32) : (sprintfD i.toInt).length < 21 := by
  have hlt := i.toInt_lt
  have hle := i.le_toInt
  have := sprintfD_length (i := i.toInt) (k := 10) (by decide) (by omega)
  omega

/-- The bounds on the texts of `sprintf` that `print_number` relies on. -/
class SprintfFits (D : Type) [CDouble D] : Prop where
  sprintf0f : ∀ d : D, CDouble.lt (CDouble.fabs d) CDouble.huge = true →
    (CDouble.sprintf0f d).length < 64
  sprintfE : ∀ d : D, (CDouble.sprintfE d).length < 64
  sprintfF : ∀ d : D, CDouble.lt (CDouble.fabs d) CDouble.small = false →
    CDouble.lt CDouble.large (CDouble.fabs d) = false → (CDouble.sprintfF d).length < 64

open CDouble

/-- The arithmetic of `double` on integers, which is exact up to `2 ^ 53`. -/
class ExactInts (D : Type) [CDouble D] : Prop where
  add_ofInt : ∀ a b : ℤ, a.natAbs ≤ 2 ^ 53 → b.natAbs ≤ 2 ^ 53 → (a + b).natAbs ≤ 2 ^ 53 →
    add (ofInt a : D) (ofInt b) = ofInt (a + b)
  /-- No factor of a product that is zero is negative. -/
  mul_ofInt : ∀ a b : ℤ, a.natAbs ≤ 2 ^ 53 → b.natAbs ≤ 2 ^ 53 → (a * b).natAbs ≤ 2 ^ 53 →
    (a * b = 0 → 0 ≤ a ∧ 0 ≤ b) → mul (ofInt a : D) (ofInt b) = ofInt (a * b)
  sub_self : ∀ a : ℤ, a.natAbs ≤ 2 ^ 53 → sub (ofInt a : D) (ofInt a) = ofInt 0
  pow_zero : pow (ofInt 10 : D) (ofInt 0) = ofInt 1
  fabs_zero : fabs (ofInt 0 : D) = ofInt 0
  zero_le : le (ofInt 0 : D) dblEpsilon = true
  eq_ofInt : ∀ a b : ℤ, a.natAbs ≤ 2 ^ 53 → b.natAbs ≤ 2 ^ 53 →
    eq (ofInt a : D) (ofInt b) = decide (a = b)
  le_ofInt : ∀ a b : ℤ, a.natAbs ≤ 2 ^ 53 → b.natAbs ≤ 2 ^ 53 →
    le (ofInt a : D) (ofInt b) = decide (a ≤ b)
  toInt_ofInt : ∀ i : Int32, toInt (ofInt i.toInt : D) = i

/-! ## Rational numbers -/

/-- Rational numbers; `%e` is only that of zero. -/
instance : CDouble ℚ where
  ofInt i := i
  add := (· + ·)
  sub := (· - ·)
  mul := (· * ·)
  pow x y := x ^ ⌊y⌋
  fabs x := |x|
  floor x := ⌊x⌋
  eq x y := decide (x = y)
  lt x y := decide (x < y)
  le x y := decide (x ≤ y)
  toInt x := Int32.ofInt (x.num.tdiv x.den)
  dblEpsilon := 1 / 2 ^ 52
  huge := 10 ^ 60
  small := 1 / 10 ^ 6
  large := 10 ^ 9
  sprintf0f x := sprintfD (round x)
  sprintfE _ := "0.000000e+00".toList.map byte
  sprintfF x :=
    sprintfD (x.num.tdiv x.den) ++ byte '.' ::
      digitText ((List.range 6).map fun i ↦ ⌊|x| * 10 ^ (i + 1)⌋.toNat % 10)

theorem natAbs_tdiv_le {x : ℚ} {n : ℕ} (hx : |x| ≤ n) : (x.num.tdiv x.den).natAbs ≤ n := by
  have habs : |x| = (x.num.natAbs : ℚ) / x.den := by
    rw [Rat.abs_def, Rat.divInt_eq_div]
    simp
  rw [habs, div_le_iff₀ (by exact_mod_cast x.den_pos)] at hx
  have hle : x.num.natAbs ≤ n * x.den := by exact_mod_cast hx
  rw [Int.natAbs_tdiv, Int.natAbs_natCast]
  exact Nat.div_le_of_le_mul (by rwa [Nat.mul_comm])

instance : SprintfFits ℚ where
  sprintf0f x hx := by
    have hlt : |x| < 10 ^ 60 := of_decide_eq_true hx
    have hround : (round x).natAbs < 10 ^ 61 := by
      have habs : |(round x : ℚ)| ≤ |x| + 1 / 2 := by
        have h := abs_sub_round x
        have h' := abs_sub_abs_le_abs_sub (round x : ℚ) x
        rw [abs_sub_comm] at h'
        linarith
      have hcast : ((round x).natAbs : ℚ) < ((10 ^ 61 : ℕ) : ℚ) := by
        rw [Nat.cast_natAbs, Int.cast_abs]
        refine lt_of_le_of_lt (le_trans habs (add_le_add_left hlt.le _)) ?_
        norm_num
      exact_mod_cast hcast
    have := sprintfD_length (by decide) hround
    exact lt_of_le_of_lt this (by decide)
  sprintfE _ := show ("0.000000e+00".toList.map byte).length < 64 by decide
  sprintfF x _ hx := by
    have hle : |x| ≤ (10 ^ 9 : ℕ) := by
      have := not_lt.mp (of_decide_eq_false hx)
      exact_mod_cast this
    have htdiv := natAbs_tdiv_le hle
    have := sprintfD_length (i := x.num.tdiv x.den) (k := 10) (by decide) (by omega)
    show (sprintfD (x.num.tdiv x.den) ++ byte '.' :: digitText _).length < 64
    rw [List.length_append, List.length_cons, digitText, List.length_map, List.length_map,
      List.length_range]
    omega

instance : ExactInts ℚ where
  add_ofInt a b _ _ _ := (Int.cast_add a b).symm
  mul_ofInt a b _ _ _ _ := (Int.cast_mul a b).symm
  sub_self a _ := by
    show (a : ℚ) - a = (0 : ℤ)
    rw [sub_self, Int.cast_zero]
  pow_zero := by
    show ((10 : ℤ) : ℚ) ^ ⌊((0 : ℤ) : ℚ)⌋ = ((1 : ℤ) : ℚ)
    rw [Int.floor_intCast, zpow_zero, Int.cast_one]
  fabs_zero := by
    show |((0 : ℤ) : ℚ)| = ((0 : ℤ) : ℚ)
    rw [Int.cast_zero, abs_zero]
  zero_le := by
    show decide (((0 : ℤ) : ℚ) ≤ 1 / 2 ^ 52) = true
    rw [decide_eq_true_eq, Int.cast_zero]
    positivity
  eq_ofInt a b _ _ := decide_eq_decide.mpr Int.cast_inj
  le_ofInt a b _ _ := decide_eq_decide.mpr Int.cast_le
  toInt_ofInt i := by
    show Int32.ofInt (((i.toInt : ℚ)).num.tdiv ((i.toInt : ℚ)).den) = i
    rw [Rat.num_intCast, Rat.den_intCast, Nat.cast_one, Int.tdiv_one, Int32.ofInt_toInt]

end OsaBase
