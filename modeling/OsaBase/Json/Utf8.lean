import Mathlib.Tactic.IntervalCases
import OsaBase.Json.Parse

/-!
# The transcoding of `parse_string`

What `parse_string` stores for a `\u` escape, or for two that are a surrogate pair, is the UTF-8
form of the character.
-/

open Json

namespace OsaBase

/-! ## UTF-8 -/

theorem contByte_eq (v : UInt32) : contByte v = v.toUInt8 &&& 0x3f ||| 0x80 := by
  rw [contByte, UInt32.toUInt8_and, UInt32.toUInt8_or]
  generalize v.toUInt8 = x
  apply UInt8.toBitVec_inj.mp
  ext i hi
  simp only [UInt8.toBitVec_and, UInt8.toBitVec_or, UInt8.toBitVec_ofNat,
    BitVec.getElem_and, BitVec.getElem_or]
  interval_cases i <;> simp

/-- The bits of `v` from the `s`-th on are below `2 ^ k`. -/
theorem shiftRight_mask {v : UInt32} {s k : ℕ} (hs : s < 32) (hk : k ≤ 8)
    (hv : v.toNat < 2 ^ (s + k)) :
    (v >>> UInt32.ofNat s).toUInt8 &&& UInt8.ofNat (2 ^ k - 1) =
      (v >>> UInt32.ofNat s).toUInt8 := by
  have hlt : 2 ^ k - 1 < 2 ^ 8 := by
    have := Nat.pow_le_pow_right (n := 2) (by decide) hk
    omega
  have hs' : (UInt32.ofNat s).toNat = s := UInt32.toNat_ofNat_of_lt' (lt_trans hs (by decide))
  have hshift : (v >>> UInt32.ofNat s).toNat < 2 ^ k := by
    rw [UInt32.toNat_shiftRight, hs', Nat.mod_eq_of_lt hs, Nat.shiftRight_eq_div_pow]
    rw [Nat.pow_add] at hv
    exact Nat.div_lt_of_lt_mul hv
  apply UInt8.toNat_inj.mp
  rw [UInt8.toNat_and, UInt8.toNat_ofNat', Nat.mod_eq_of_lt hlt, Nat.and_two_pow_sub_one_eq_mod,
    UInt32.toNat_toUInt8]
  exact Nat.mod_eq_of_lt (lt_of_le_of_lt (Nat.mod_le _ _) hshift)

theorem toNat_lt (u : Char) : u.toNat < 0x110000 := by
  have h : u.toNat.isValidChar := u.valid
  rcases h with h | h <;> omega

theorem putUtf8_val (u : Char) : putUtf8 u.val = String.utf8EncodeChar u := by
  have hmax : u.val.toNat < 0x110000 := toNat_lt u
  rw [String.utf8EncodeChar_eq_utf8EncodeCharFast]
  simp only [putUtf8, String.utf8EncodeCharFast, contByte_eq, firstByteMark, UInt32.toUInt8_or]
  generalize u.val = v at hmax
  have hlt : ∀ m, m < 2 ^ 32 - 1 → (v < UInt32.ofNat (m + 1) ↔ v ≤ UInt32.ofNat m) := by
    intro m hm
    have hsize : UInt32.size = 2 ^ 32 := rfl
    rw [UInt32.lt_iff_toNat_lt, UInt32.le_iff_toNat_le, UInt32.toNat_ofNat_of_lt' (by omega),
      UInt32.toNat_ofNat_of_lt' (by omega)]
    exact Nat.lt_succ_iff
  have hone : v < 0x80 ↔ v ≤ 0x7f := hlt 0x7f (by decide)
  have htwo : v < 0x800 ↔ v ≤ 0x7ff := hlt 0x7ff (by decide)
  have hthree : v < 0x10000 ↔ v ≤ 0xffff := hlt 0xffff (by decide)
  have htwice : v >>> 6 >>> 6 = v >>> 12 := by
    rw [← UInt32.toNat_inj]
    simp [UInt32.toNat_shiftRight, ← Nat.shiftRight_add]
  have hthrice : v >>> 6 >>> 6 >>> 6 = v >>> 18 := by
    rw [← UInt32.toNat_inj]
    simp [UInt32.toNat_shiftRight, ← Nat.shiftRight_add]
  rw [hthrice, htwice]
  simp only [hone, htwo, hthree]
  split
  · simp
  · split
    · next h =>
      have hv : v.toNat ≤ 0x7ff := UInt32.le_iff_toNat_le.mp h
      have hmask : (v >>> (6 : UInt32)).toUInt8 &&& (31 : UInt8) =
          (v >>> (6 : UInt32)).toUInt8 :=
        shiftRight_mask (v := v) (s := 6) (k := 5) (by decide) (by decide) (by omega)
      rw [hmask]
      rfl
    · split
      · next h =>
        have hv : v.toNat ≤ 0xffff := UInt32.le_iff_toNat_le.mp h
        have hmask : (v >>> (12 : UInt32)).toUInt8 &&& (15 : UInt8) =
          (v >>> (12 : UInt32)).toUInt8 :=
          shiftRight_mask (v := v) (s := 12) (k := 4) (by decide) (by decide) (by omega)
        rw [hmask]
        rfl
      · have hmask : (v >>> (18 : UInt32)).toUInt8 &&& (7 : UInt8) =
          (v >>> (18 : UInt32)).toUInt8 :=
          shiftRight_mask (v := v) (s := 18) (k := 3) (by decide) (by decide) (by omega)
        rw [hmask]
        rfl

theorem putUtf8_ofNat (u : Char) :
    putUtf8 (UInt32.ofNat u.toNat) = String.utf8EncodeChar u := by
  rw [← putUtf8_val]
  congr 1
  exact UInt32.ofNat_toNat

end OsaBase
