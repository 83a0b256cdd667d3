import Mathlib.Data.List.Basic
import Mathlib.Data.Nat.Notation
import Mathlib.Tactic.Ring

/-!
# Little-endian words and slices of byte strings

A structure that is sent as its memory image is a byte string; its fields are slices of it,
and a 32-bit field is four bytes, lowest first.
-/

namespace Bytes

def ofWord (w : BitVec 32) : List UInt8 :=
  [UInt8.ofNat w.toNat, UInt8.ofNat (w.toNat / 2 ^ 8), UInt8.ofNat (w.toNat / 2 ^ 16),
    UInt8.ofNat (w.toNat / 2 ^ 24)]

def toWord : List UInt8 → BitVec 32
  | [a, b, c, d] =>
    BitVec.ofNat 32 (a.toNat + 2 ^ 8 * b.toNat + 2 ^ 16 * c.toNat + 2 ^ 24 * d.toNat)
  | _ => 0

@[simp] theorem length_ofWord (w : BitVec 32) : (ofWord w).length = 4 := rfl

@[simp] theorem toWord_ofWord (w : BitVec 32) : toWord (ofWord w) = w := by
  have hlt := w.isLt
  apply BitVec.eq_of_toNat_eq
  simp only [ofWord, toWord, BitVec.toNat_ofNat, UInt8.toNat_ofNat']
  omega

/-- The `n` bytes from position `off`. -/
def slice {β : Type*} (off n : ℕ) (bs : List β) : List β := (bs.drop off).take n

theorem slice_append_of_length {β : Type*} {pre mid post : List β} {off n : ℕ}
    (hoff : pre.length = off) (hn : mid.length = n) : slice off n (pre ++ (mid ++ post)) = mid := by
  subst hoff hn
  simp [slice]

/-- Store `bs` at position `off` of a buffer. -/
def store {β : Type*} (buf : List β) (off : ℕ) (bs : List β) : List β :=
  buf.take off ++ (bs ++ buf.drop (off + bs.length))

@[simp] theorem store_nil {β : Type*} (buf : List β) (off : ℕ) : store buf off [] = buf := by
  simp [store]

theorem length_store {β : Type*} {buf bs : List β} {off : ℕ} (h : off + bs.length ≤ buf.length) :
    (store buf off bs).length = buf.length := by
  simp only [store, List.length_append, List.length_take, List.length_drop]
  omega

/-- Storing one string after another is storing the two at once. -/
theorem store_store {β : Type*} (buf bs cs : List β) {off : ℕ}
    (h : off + bs.length ≤ buf.length) :
    store (store buf off bs) (off + bs.length) cs = store buf off (bs ++ cs) := by
  have hoff : (buf.take off).length = off := by
    rw [List.length_take]
    omega
  have htake : (store buf off bs).take (off + bs.length) = buf.take off ++ bs := by
    rw [store, ← List.append_assoc, List.take_left']
    rw [List.length_append, hoff]
  have hdrop : (store buf off bs).drop (off + bs.length + cs.length) =
      buf.drop (off + (bs ++ cs).length) := by
    rw [store, ← List.append_assoc, Nat.add_assoc, ← Nat.add_assoc, ← List.drop_drop,
      List.drop_left', List.drop_drop]
    · congr 1
      rw [List.length_append]
      omega
    · rw [List.length_append, hoff]
  rw [store, htake, hdrop, store]
  simp [List.append_assoc]

theorem slice_store_self {β : Type*} {buf bs : List β} {off n : ℕ} (hn : bs.length = n)
    (h : off ≤ buf.length) : slice off n (store buf off bs) = bs := by
  refine slice_append_of_length ?_ hn
  rw [List.length_take]
  omega

/-- A slice in front of what is stored. -/
theorem slice_store_of_le {β : Type*} (buf bs : List β) {off n o : ℕ} (h : off + n ≤ o)
    (ho : o ≤ buf.length) : slice off n (store buf o bs) = slice off n buf := by
  have hlen : (buf.take o).length = o := List.length_take_of_le ho
  rw [slice, slice, store, List.drop_append_of_le_length (by omega), List.drop_take,
    List.take_append_of_le_length, List.take_take]
  · congr 1
    omega
  · rw [List.length_take, List.length_drop]
    omega

/-- What lies behind the stored bytes is left alone. -/
theorem drop_store {β : Type*} (buf bs : List β) {off n : ℕ} (h : off + bs.length ≤ n)
    (hoff : off ≤ buf.length) : (store buf off bs).drop n = buf.drop n := by
  have hlen : (buf.take off).length = off := List.length_take_of_le hoff
  rw [store, ← List.append_assoc, List.drop_append, List.drop_eq_nil_of_le, List.nil_append,
    List.drop_drop]
  · congr 1
    rw [List.length_append]
    omega
  · rw [List.length_append]
    omega

/-- A slice behind what is stored. -/
theorem slice_store_of_ge {β : Type*} (buf bs : List β) {off n o : ℕ} (h : o + bs.length ≤ off)
    (ho : o ≤ buf.length) : slice off n (store buf o bs) = slice off n buf := by
  rw [slice, slice, drop_store buf bs h ho]

end Bytes
