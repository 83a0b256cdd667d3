import Mathlib.Data.Multiset.UnionInter
import Mathlib.Logic.Function.Basic

/-!
# Heaps of blocks

A heap maps addresses to the contents of the blocks that are allocated. A multiset of blocks, each
with its address, describes a heap if these are its blocks and no two of them have one address. What
is said of some blocks does not depend on the others, which stand as a summand behind them.
-/

namespace Blocks

variable {A C : Type*}

structure Owns (heap : A → Option C) (blocks : Multiset (A × C)) : Prop where
  nodup : (blocks.map Prod.fst).Nodup
  block_iff : ∀ a c, heap a = some c ↔ (a, c) ∈ blocks

variable {heap : A → Option C} {blocks : Multiset (A × C)} {a : A} {c c' : C}

theorem owns_nil : Owns (fun _ : A ↦ (none : Option C)) 0 where
  nodup := Multiset.nodup_zero
  block_iff := fun a c ↦ by simp

theorem Owns.get (h : Owns heap ({(a, c)} + blocks)) : heap a = some c :=
  (h.block_iff a c).mpr (by simp)

theorem Owns.get_of_mem (h : Owns heap blocks) (hmem : (a, c) ∈ blocks) : heap a = some c :=
  (h.block_iff a c).mpr hmem

theorem Owns.notMem (h : Owns heap ({(a, c)} + blocks)) : ∀ c', (a, c') ∉ blocks := by
  intro c' hmem
  have hnodup := h.nodup
  rw [Multiset.map_add, Multiset.map_singleton, Multiset.singleton_add,
    Multiset.nodup_cons] at hnodup
  exact hnodup.1 (Multiset.mem_map.mpr ⟨(a, c'), hmem, rfl⟩)

theorem Owns.free_iff (h : Owns heap blocks) : heap a = none ↔ ∀ c, (a, c) ∉ blocks := by
  rw [Option.eq_none_iff_forall_ne_some]
  exact forall_congr' fun c ↦ not_congr (h.block_iff a c)

theorem Owns.eq_none (h : Owns heap 0) : heap = fun _ ↦ none := by
  funext a
  exact h.free_iff.mpr fun c ↦ Multiset.notMem_zero _

variable [DecidableEq A]

/-- A block is written. -/
theorem Owns.set (h : Owns heap ({(a, c)} + blocks)) (c' : C) :
    Owns (Function.update heap a (some c')) ({(a, c')} + blocks) where
  nodup := by simpa using h.nodup
  block_iff := by
    intro b d
    by_cases hb : b = a
    · subst hb
      simp [h.notMem d, eq_comm]
    · simp [hb, h.block_iff b d]

/-- A block is freed. -/
theorem Owns.free (h : Owns heap ({(a, c)} + blocks)) :
    Owns (Function.update heap a none) blocks where
  nodup := by
    have hnodup := h.nodup
    rw [Multiset.map_add, Multiset.map_singleton, Multiset.singleton_add,
      Multiset.nodup_cons] at hnodup
    exact hnodup.2
  block_iff := by
    intro b d
    by_cases hb : b = a
    · subst hb
      simp [h.notMem d]
    · simp [hb, h.block_iff b d]

/-- A block is allocated. -/
theorem Owns.alloc (h : Owns heap blocks) (ha : heap a = none) (c : C) :
    Owns (Function.update heap a (some c)) ({(a, c)} + blocks) where
  nodup := by
    rw [Multiset.map_add, Multiset.map_singleton, Multiset.singleton_add, Multiset.nodup_cons]
    refine ⟨fun hmem ↦ ?_, h.nodup⟩
    obtain ⟨⟨b, d⟩, hblock, heq⟩ := Multiset.mem_map.mp hmem
    obtain rfl : b = a := heq
    exact h.free_iff.mp ha d hblock
  block_iff := by
    intro b d
    by_cases hb : b = a
    · subst hb
      simp [h.free_iff.mp ha d, eq_comm]
    · simp [hb, h.block_iff b d]

end Blocks
