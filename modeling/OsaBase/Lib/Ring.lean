import Mathlib.Data.List.Range
import Mathlib.Data.Nat.ModEq

/-!
# Circular buffers

`window cells len rd n` is the list of the `n` cells read from position `rd` of a ring of
`len` cells, with wrap-around. Writing the first free cell appends to the window and
advancing the read position drops its head; a full ring and an empty one have the same
two positions and differ in `n` only.
-/

namespace Ring

variable {α : Type*}

def window (cells : ℕ → α) (len rd n : ℕ) : List α :=
  (List.range n).map fun i ↦ cells ((rd + i) % len)

@[simp] theorem length_window (cells : ℕ → α) (len rd n : ℕ) :
    (window cells len rd n).length = n := by simp [window]

theorem window_succ (cells : ℕ → α) (len rd n : ℕ) :
    window cells len rd (n + 1) = window cells len rd n ++ [cells ((rd + n) % len)] := by
  simp [window, List.range_succ]

theorem window_congr {cells cells' : ℕ → α} {len rd n : ℕ}
    (h : ∀ i < n, cells ((rd + i) % len) = cells' ((rd + i) % len)) :
    window cells len rd n = window cells' len rd n := by
  apply List.map_congr_left
  intro i hi
  exact h i (List.mem_range.mp hi)

/-- Two offsets less than one revolution apart denote different cells. -/
theorem offset_ne {len rd i j : ℕ} (hij : i < j) (hj : j < i + len) :
    (rd + i) % len ≠ (rd + j) % len := by
  intro h
  have hmod : rd + i ≡ rd + j [MOD len] := h
  have hdvd := (Nat.modEq_iff_dvd' (by omega)).mp hmod
  have := Nat.le_of_dvd (by omega) hdvd
  omega

theorem window_push (cells : ℕ → α) {len rd n : ℕ} (hn : n < len) (v : α) :
    window (Function.update cells ((rd + n) % len) v) len rd (n + 1) =
      window cells len rd n ++ [v] := by
  rw [window_succ, Function.update_self]
  congr 1
  refine window_congr fun i hi ↦ ?_
  exact Function.update_of_ne (offset_ne hi (by omega)) _ _

theorem window_pop (cells : ℕ → α) {len rd n : ℕ} (hrd : rd < len) :
    window cells len rd (n + 1) = cells rd :: window cells len ((rd + 1) % len) n := by
  have hhead : (rd + 0) % len = rd := by rw [Nat.add_zero, Nat.mod_eq_of_lt hrd]
  simp only [window, List.range_succ_eq_map, List.map_cons, List.map_map, hhead]
  congr 1
  refine List.map_congr_left fun i _ ↦ ?_
  simp only [Function.comp_apply, Nat.succ_eq_add_one, Nat.mod_add_mod]
  congr 2
  omega

/-- Advancing the read position by one and the count down by one leaves the write position
where it was. -/
theorem write_pop (len rd n : ℕ) : ((rd + 1) % len + n) % len = (rd + (n + 1)) % len := by
  rw [Nat.mod_add_mod]
  congr 1
  omega

theorem write_push (len rd n : ℕ) : ((rd + n) % len + 1) % len = (rd + (n + 1)) % len := by
  rw [Nat.mod_add_mod, Nat.add_assoc]

end Ring
