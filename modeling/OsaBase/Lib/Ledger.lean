import Mathlib.Data.List.Nodup
import Mathlib.Data.List.Perm.Basic

/-!
# Ledgers of tokens

A token that is live is in exactly one place, and there once; a token that is not live is nowhere.
Tokens come into being in a place, go from one place to another, and cease to be where they are.
-/

namespace Ledger

variable {κ P : Type*}

structure Exact (contents : κ → List P) (live : P → Prop) : Prop where
  nodup : ∀ p, (contents p).Nodup
  unique : ∀ p q x, x ∈ contents p → x ∈ contents q → p = q
  live_iff : ∀ x, live x ↔ ∃ p, x ∈ contents p

/-- The token `x` goes from the place `p` to the place `q`. -/
structure Moved (c c' : κ → List P) (x : P) (p q : κ) : Prop where
  ne : p ≠ q
  taken : (c p).Perm (x :: c' p)
  put : (c' q).Perm (x :: c q)
  same : ∀ r, r ≠ p → r ≠ q → c' r = c r

variable {c c' : κ → List P} {live live' : P → Prop} {x y : P} {p q : κ}

theorem Exact.empty (hnil : ∀ p, c p = []) (hlive : ∀ x, ¬ live x) : Exact c live where
  nodup := fun p ↦ by
    rw [hnil p]
    exact List.nodup_nil
  unique := fun p q x hp ↦ by
    rw [hnil p] at hp
    cases hp
  live_iff := fun x ↦ by simp [hnil, hlive x]

theorem Exact.live_of_mem (h : Exact c live) (hx : x ∈ c p) : live x :=
  (h.live_iff x).mpr ⟨p, hx⟩

theorem Exact.congr (h : Exact c live) (hc : ∀ p, c' p = c p) (hlive : ∀ x, live' x ↔ live x) :
    Exact c' live' := by
  obtain rfl : c' = c := funext hc
  obtain rfl : live' = live := funext fun x ↦ propext (hlive x)
  exact h

/-- A new token comes into being in one place. -/
theorem Exact.insert (h : Exact c live) (hx : ¬ live x) (hput : (c' p).Perm (x :: c p))
    (hsame : ∀ q, q ≠ p → c' q = c q) (hlive : ∀ y, live' y ↔ y = x ∨ live y) :
    Exact c' live' := by
  have hnot : ∀ q, x ∉ c q := fun q hq ↦ hx (h.live_of_mem hq)
  have hmem : ∀ q y, y ∈ c' q ↔ (q = p ∧ y = x) ∨ y ∈ c q := by
    intro q y
    by_cases hq : q = p
    · subst hq
      rw [hput.mem_iff, List.mem_cons]
      simp
    · rw [hsame q hq]
      simp [hq]
  constructor
  · intro q
    by_cases hq : q = p
    · subst hq
      exact hput.nodup_iff.mpr (List.nodup_cons.mpr ⟨hnot q, h.nodup q⟩)
    · rw [hsame q hq]
      exact h.nodup q
  · intro q r y hq hr
    rcases (hmem q y).mp hq with ⟨rfl, rfl⟩ | hq
    · rcases (hmem r y).mp hr with ⟨rfl, -⟩ | hr
      · rfl
      · exact (hnot r hr).elim
    · rcases (hmem r y).mp hr with ⟨rfl, rfl⟩ | hr
      · exact (hnot q hq).elim
      · exact h.unique q r y hq hr
  · intro y
    rw [hlive, h.live_iff]
    simp only [hmem]
    constructor
    · rintro (rfl | ⟨q, hq⟩)
      · exact ⟨p, Or.inl ⟨rfl, rfl⟩⟩
      · exact ⟨q, Or.inr hq⟩
    · rintro ⟨q, ⟨-, rfl⟩ | hq⟩
      · exact Or.inl rfl
      · exact Or.inr ⟨q, hq⟩

/-- A token ceases to be. -/
theorem Exact.remove (h : Exact c live) (htake : (c p).Perm (x :: c' p))
    (hsame : ∀ q, q ≠ p → c' q = c q) (hlive : ∀ y, live' y ↔ live y ∧ y ≠ x) :
    Exact c' live' := by
  obtain ⟨hgone, hrest⟩ := List.nodup_cons.mp (htake.nodup_iff.mp (h.nodup p))
  have hx : x ∈ c p := htake.mem_iff.mpr (by simp)
  have hmem : ∀ q y, y ∈ c' q ↔ y ∈ c q ∧ y ≠ x := by
    intro q y
    by_cases hq : q = p
    · subst hq
      rw [htake.mem_iff, List.mem_cons]
      constructor
      · intro hy
        exact ⟨Or.inr hy, fun heq ↦ hgone (heq ▸ hy)⟩
      · rintro ⟨rfl | hy, hne⟩
        · exact (hne rfl).elim
        · exact hy
    · rw [hsame q hq, iff_self_and]
      rintro hy rfl
      exact hq (h.unique q p y hy hx)
  constructor
  · intro q
    by_cases hq : q = p
    · subst hq
      exact hrest
    · rw [hsame q hq]
      exact h.nodup q
  · intro q r y hq hr
    exact h.unique q r y ((hmem q y).mp hq).1 ((hmem r y).mp hr).1
  · intro y
    rw [hlive, h.live_iff]
    simp only [hmem, exists_and_right]

theorem Moved.mem_iff (hm : Moved c c' x p q) (h : Exact c live) (r : κ) (y : P) :
    y ∈ c' r ↔ (y = x ∧ r = q) ∨ (y ≠ x ∧ y ∈ c r) := by
  have hx : x ∈ c p := hm.taken.mem_iff.mpr (by simp)
  have hgone : x ∉ c' p := (List.nodup_cons.mp (hm.taken.nodup_iff.mp (h.nodup p))).1
  by_cases hy : y = x
  · subst hy
    simp only [true_and, ne_eq, not_true, false_and, or_false]
    constructor
    · intro hr
      by_contra hne
      by_cases hrp : r = p
      · exact hgone (hrp ▸ hr)
      · rw [hm.same r hrp hne] at hr
        exact hrp (h.unique r p y hr hx)
    · rintro rfl
      exact hm.put.mem_iff.mpr (by simp)
  · simp only [hy, false_and, ne_eq, not_false_eq_true, true_and, false_or]
    by_cases hrp : r = p
    · subst hrp
      simp [hm.taken.mem_iff, hy]
    · by_cases hrq : r = q
      · subst hrq
        simp [hm.put.mem_iff, hy]
      · rw [hm.same r hrp hrq]

theorem Exact.move (h : Exact c live) (hm : Moved c c' x p q) : Exact c' live := by
  have hx : x ∈ c p := hm.taken.mem_iff.mpr (by simp)
  have hmem := hm.mem_iff h
  constructor
  · intro r
    by_cases hrp : r = p
    · subst hrp
      exact (List.nodup_cons.mp (hm.taken.nodup_iff.mp (h.nodup r))).2
    · by_cases hrq : r = q
      · subst hrq
        have hnot : x ∉ c r := fun hr ↦ hm.ne (h.unique p r x hx hr)
        exact hm.put.nodup_iff.mpr (List.nodup_cons.mpr ⟨hnot, h.nodup r⟩)
      · rw [hm.same r hrp hrq]
        exact h.nodup r
  · intro r r' y hr hr'
    rcases (hmem r y).mp hr with ⟨rfl, rfl⟩ | ⟨hne, hr⟩
    · rcases (hmem r' y).mp hr' with ⟨-, rfl⟩ | ⟨hne, -⟩
      · rfl
      · exact (hne rfl).elim
    · rcases (hmem r' y).mp hr' with ⟨rfl, -⟩ | ⟨-, hr'⟩
      · exact (hne rfl).elim
      · exact h.unique r r' y hr hr'
  · intro y
    rw [h.live_iff]
    simp only [hmem]
    by_cases hy : y = x
    · subst hy
      exact ⟨fun _ ↦ ⟨q, Or.inl ⟨rfl, rfl⟩⟩, fun _ ↦ ⟨p, hx⟩⟩
    · simp [hy]

end Ledger
