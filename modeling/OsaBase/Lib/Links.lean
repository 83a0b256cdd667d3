import Mathlib.Algebra.Order.Group.Multiset
import Mathlib.Tactic.Abel
import OsaBase.Lib.Blocks

/-!
# Doubly linked lists in a heap

A node has a datum and pointers to the nodes before and behind it. `chain p cells q` is the multiset
of the nodes of the cells, when `p` is before them and `q` behind. A list is cut into two at any
place; of the nodes of a list, only the last knows what is behind the list, and only the first what
is before it.
-/

open Blocks

namespace Links

structure Node (A D : Type*) where
  next : Option A
  prev : Option A
  data : D
  deriving DecidableEq, Repr

variable {A D : Type*}

/-- The pointer to the first cell, or to what is behind them. -/
def first : List (A × D) → Option A → Option A
  | [], q => q
  | (a, _) :: _, _ => some a

/-- The pointer to the last cell, or to what is before them. -/
def last : Option A → List (A × D) → Option A
  | p, [] => p
  | _, (a, _) :: cells => last (some a) cells

def chain : Option A → List (A × D) → Option A → Multiset (A × Node A D)
  | _, [], _ => 0
  | p, (a, d) :: cells, q => {(a, ⟨first cells q, p, d⟩)} + chain (some a) cells q

variable {heap : A → Option (Node A D)} {p q : Option A} {a b : A} {d : D}
  {xs ys cells : List (A × D)} {rest : Multiset (A × Node A D)} {n : Node A D}

@[simp] theorem first_nil : first ([] : List (A × D)) q = q := rfl

@[simp] theorem first_cons : first ((a, d) :: cells) q = some a := rfl

@[simp] theorem last_nil : last p ([] : List (A × D)) = p := rfl

@[simp] theorem last_cons : last p ((a, d) :: cells) = last (some a) cells := rfl

@[simp] theorem chain_nil : chain p ([] : List (A × D)) q = 0 := rfl

@[simp] theorem chain_cons :
    chain p ((a, d) :: cells) q = {(a, ⟨first cells q, p, d⟩)} + chain (some a) cells q := rfl

@[simp] theorem first_append : first (xs ++ ys) q = first xs (first ys q) := by
  cases xs <;> rfl

@[simp] theorem last_append : last p (xs ++ ys) = last (last p xs) ys := by
  induction xs generalizing p with
  | nil => rfl
  | cons x xs ih => exact ih

theorem chain_append :
    chain p (xs ++ ys) q = chain p xs (first ys q) + chain (last p xs) ys q := by
  induction xs generalizing p with
  | nil => simp
  | cons x xs ih =>
      obtain ⟨a, d⟩ := x
      rw [List.cons_append, chain_cons, chain_cons, ih, first_append, last_cons, add_assoc]

theorem chain_concat :
    chain p (xs ++ [(a, d)]) q = {(a, ⟨q, last p xs, d⟩)} + chain p xs (some a) := by
  rw [chain_append, chain_cons, chain_nil, add_zero, add_comm]
  rfl

theorem mem_chain (h : (a, n) ∈ chain p cells q) : (a, n.data) ∈ cells := by
  induction cells generalizing p with
  | nil => exact absurd h (Multiset.notMem_zero _)
  | cons x cells ih =>
      obtain ⟨b, d⟩ := x
      rw [chain_cons, Multiset.mem_add, Multiset.mem_singleton] at h
      rcases h with h | h
      · cases h
        exact List.mem_cons_self
      · exact List.mem_cons_of_mem _ (ih h)

/-- Before a node every node has one behind it. -/
theorem next_of_mem_chain (h : (b, n) ∈ chain p cells (some a)) : n.next.isNone = false := by
  induction cells generalizing p with
  | nil => exact absurd h (Multiset.notMem_zero _)
  | cons x cells ih =>
      obtain ⟨c, d⟩ := x
      rw [chain_cons, Multiset.mem_add, Multiset.mem_singleton] at h
      rcases h with h | h
      · cases h
        cases cells <;> rfl
      · exact ih h

theorem map_fst_chain : (chain p cells q).map Prod.fst = (cells.map Prod.fst : List A) := by
  induction cells generalizing p with
  | nil => rfl
  | cons x cells ih =>
      rw [chain_cons, Multiset.map_add, Multiset.map_singleton, ih, List.map_cons,
        Multiset.singleton_add, Multiset.cons_coe]

theorem card_chain : (chain p cells q).card = cells.length := by
  rw [← Multiset.card_map Prod.fst, map_fst_chain, Multiset.coe_card, List.length_map]

/-! ## Writing -/

section Writing

variable [DecidableEq A]

/-- `a->next = q` -/
def setNext (heap : A → Option (Node A D)) (a : A) (q : Option A) :
    Option (A → Option (Node A D)) :=
  (heap a).map fun n ↦ Function.update heap a (some { n with next := q })

/-- `a->prev = p` -/
def setPrev (heap : A → Option (Node A D)) (a : A) (p : Option A) :
    Option (A → Option (Node A D)) :=
  (heap a).map fun n ↦ Function.update heap a (some { n with prev := p })

/-- The next pointer is written where there is a node. -/
def relinkNext (heap : A → Option (Node A D)) : Option A → Option A →
    Option (A → Option (Node A D))
  | none, _ => some heap
  | some a, q => setNext heap a q

def relinkPrev (heap : A → Option (Node A D)) : Option A → Option A →
    Option (A → Option (Node A D))
  | none, _ => some heap
  | some a, p => setPrev heap a p

theorem owns_setNext (h : Owns heap ({(a, n)} + rest)) (q : Option A) :
    ∃ heap', setNext heap a q = some heap' ∧
      Owns heap' ({(a, { n with next := q })} + rest) := by
  refine ⟨_, ?_, h.set { n with next := q }⟩
  rw [setNext, h.get, Option.map_some]

theorem owns_setPrev (h : Owns heap ({(a, n)} + rest)) (p : Option A) :
    ∃ heap', setPrev heap a p = some heap' ∧
      Owns heap' ({(a, { n with prev := p })} + rest) := by
  refine ⟨_, ?_, h.set { n with prev := p }⟩
  rw [setPrev, h.get, Option.map_some]

/-- The last node gets another one behind it. -/
theorem owns_relinkNext (h : Owns heap (chain none xs q + rest)) (q' : Option A) :
    ∃ heap', relinkNext heap (last none xs) q' = some heap' ∧
      Owns heap' (chain none xs q' + rest) := by
  rcases List.eq_nil_or_concat xs with rfl | ⟨xs, ⟨a, d⟩, rfl⟩
  · exact ⟨heap, rfl, h⟩
  · rw [List.concat_eq_append, chain_concat, add_assoc] at h
    rw [List.concat_eq_append, chain_concat, add_assoc, last_append]
    exact owns_setNext h q'

/-- The first node gets another one before it. -/
theorem owns_relinkPrev (h : Owns heap (chain p ys none + rest)) (p' : Option A) :
    ∃ heap', relinkPrev heap (first ys none) p' = some heap' ∧
      Owns heap' (chain p' ys none + rest) := by
  cases ys with
  | nil => exact ⟨heap, rfl, h⟩
  | cons y ys =>
      obtain ⟨b, e⟩ := y
      rw [chain_cons, add_assoc] at h
      rw [chain_cons, add_assoc]
      exact owns_setPrev h p'

end Writing

/-! ## Following the pointers -/

/-- `while (c && which > 0) c = c->next, which--` -/
def walk (heap : A → Option (Node A D)) : ℕ → Option A → Option (Option A)
  | _, none => some none
  | 0, some a => some (some a)
  | k + 1, some a => (heap a).bind fun n ↦ walk heap k n.next

/-- `while (c && !stop(c)) i++, c = c->next` -/
def seek (heap : A → Option (Node A D)) (stop : Node A D → Option Bool) :
    ℕ → ℕ → Option A → Option (ℕ × Option A)
  | _, i, none => some (i, none)
  | 0, _, some _ => none
  | k + 1, i, some a => (heap a).bind fun n ↦ (stop n).bind fun stopped ↦
      if stopped then some (i, some a) else seek heap stop k (i + 1) n.next

theorem walk_chain (h : Owns heap (chain p cells none + rest)) (k : ℕ) :
    walk heap k (first cells none) = some (first (cells.drop k) none) := by
  induction cells generalizing p k rest with
  | nil => rw [List.drop_nil]; cases k <;> rfl
  | cons x cells ih =>
      obtain ⟨a, d⟩ := x
      cases k with
      | zero => rfl
      | succ k =>
          rw [chain_cons, add_assoc] at h
          rw [first_cons, walk, h.get, Option.bind_some, List.drop_succ_cons]
          rw [add_left_comm] at h
          exact ih h k

@[simp] theorem seek_none (heap : A → Option (Node A D)) (stop : Node A D → Option Bool)
    (k i : ℕ) : seek heap stop k i none = some (i, none) := by
  cases k <;> rfl

/-- The nodes that do not stop are passed. -/
theorem seek_pass (stop : Node A D → Option Bool) (h : Owns heap (chain p xs q + rest))
    (hstop : ∀ a n, (a, n) ∈ chain p xs q → stop n = some false) (i k : ℕ) :
    seek heap stop (xs.length + k) i (first xs q) = seek heap stop k (i + xs.length) q := by
  induction xs generalizing p i rest with
  | nil => rw [List.length_nil, Nat.zero_add, Nat.add_zero, first_nil]
  | cons x xs ih =>
      obtain ⟨a, d⟩ := x
      rw [chain_cons, add_assoc] at h
      have hget := h.get
      have hhere := hstop a _ (Multiset.mem_add.mpr (.inl (Multiset.mem_singleton_self _)))
      rw [add_left_comm] at h
      rw [first_cons, List.length_cons, Nat.add_right_comm, seek, hget, Option.bind_some, hhere,
        Option.bind_some, if_neg Bool.false_ne_true,
        ih h fun b n hn ↦ hstop b n (Multiset.mem_add.mpr (.inr hn))]
      congr 1
      omega

theorem seek_hit {stop : Node A D → Option Bool} (hget : heap a = some n)
    (hstop : stop n = some true) (i k : ℕ) :
    seek heap stop (k + 1) i (some a) = some (i, some a) := by
  rw [seek, hget, Option.bind_some, hstop, Option.bind_some, if_pos rfl]

end Links
