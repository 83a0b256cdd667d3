import Mathlib.Algebra.Group.Int.Defs
import Mathlib.Algebra.Group.Nat.Defs
import Mathlib.Data.Int.Notation
import Mathlib.Data.Nat.Notation

/-!
# Constants and integer widths of `osa.h`

`int` values are integers, `Uint32` and `Uint16` values are natural numbers reduced
where the code can leave their range. `OSA_DEBUG_MODE` is defined, so an `OSA_assert` that fails
prints, reads the standard input until a `q` is typed, and then goes on.
-/

namespace OsaBase

def osaSok : ℤ := 0

def osaEfail : ℤ := -1

/-- `OSA_TIMEOUT_NONE`; every other timeout of a queue call waits for ever. -/
def osaTimeoutNone : ℕ := 0

/-- `OSA_TIMEOUT_FOREVER`, which is `(Uint32)-1`. -/
def osaTimeoutForever : ℕ := 2 ^ 32 - 1

def uint32 (n : ℕ) : ℕ := n % 2 ^ 32

def uint16 (n : ℕ) : ℕ := n % 2 ^ 16

theorem uint32_of_lt {n : ℕ} (h : n < 2 ^ 32) : uint32 n = n := Nat.mod_eq_of_lt h

/-- What is left of a number in an `int` or an `Int32`. -/
def int32 (n : ℤ) : ℤ := (n + 2 ^ 31) % 2 ^ 32 - 2 ^ 31

theorem int32_of_range {n : ℤ} (hge : -2 ^ 31 ≤ n) (hlt : n < 2 ^ 31) : int32 n = n := by
  rw [int32, Int.emod_eq_of_lt] <;> omega

theorem int32_range (n : ℤ) : -2 ^ 31 ≤ int32 n ∧ int32 n < 2 ^ 31 := by
  rw [int32]
  omega

/-- `struct timespec` -/
structure Timespec where
  tvSec : ℕ
  tvNsec : ℕ
  deriving DecidableEq, Repr

theorem osaEfail_ne_osaSok : osaEfail ≠ osaSok := by decide

end OsaBase
