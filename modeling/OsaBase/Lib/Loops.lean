import Mathlib.Data.Stream.Init

/-!
# Loops over answers

A loop tests at its head whether it is done; otherwise it takes one answer of its environment, and
goes on in a new state or returns. `Returns` says that the loop takes exactly the given answers and
returns. A loop with a measure that every turn lowers returns on every endless schedule of answers.
-/

structure Loop (σ ε ρ : Type*) where
  finish : σ → Option ρ
  turn : σ → ε → σ ⊕ ρ

namespace Loop

variable {σ ε ρ : Type*} {L : Loop σ ε ρ} {s s' : σ} {e : ε} {es : List ε} {r : ρ}

/-- The loop on the answers given so far; `none`: it waits for the next one. -/
def run (L : Loop σ ε ρ) : σ → List ε → Option ρ
  | s, [] => L.finish s
  | s, e :: es =>
    match L.finish s with
    | some r => some r
    | none =>
      match L.turn s e with
      | .inl s' => L.run s' es
      | .inr r => some r

theorem run_cons_inl (hfinish : L.finish s = none) (hturn : L.turn s e = .inl s') :
    L.run s (e :: es) = L.run s' es := by
  simp only [run, hfinish, hturn]

theorem run_cons_inr (hfinish : L.finish s = none) (hturn : L.turn s e = .inr r) :
    L.run s (e :: es) = some r := by
  simp only [run, hfinish, hturn]

inductive Returns (L : Loop σ ε ρ) : σ → List ε → ρ → Prop
  | finish {s : σ} {r : ρ} (hfinish : L.finish s = some r) : Returns L s [] r
  | stop {s : σ} {e : ε} {r : ρ} (hfinish : L.finish s = none) (hturn : L.turn s e = .inr r) :
      Returns L s [e] r
  | turn {s s' : σ} {e : ε} {es : List ε} {r : ρ} (hfinish : L.finish s = none)
      (hturn : L.turn s e = .inl s') (h : Returns L s' es r) : Returns L s (e :: es) r

/-- The answers that are left over do not matter. -/
theorem Returns.run_append (h : L.Returns s es r) (more : List ε) :
    L.run s (es ++ more) = some r := by
  induction h with
  | finish hfinish => cases more <;> simp [run, hfinish]
  | stop hfinish hturn => exact run_cons_inr hfinish hturn
  | turn hfinish hturn h ih => exact (run_cons_inl hfinish hturn).trans ih

theorem Returns.run (h : L.Returns s es r) : L.run s es = some r := by
  simpa using h.run_append []

/-- A loop that has returned did so on the answers it took. -/
theorem exists_returns_of_run (h : L.run s es = some r) :
    ∃ pre, pre <+: es ∧ L.Returns s pre r := by
  induction es generalizing s with
  | nil => exact ⟨[], List.nil_prefix, .finish h⟩
  | cons e es ih =>
      cases hfinish : L.finish s with
      | some r' =>
          simp only [run, hfinish] at h
          exact ⟨[], List.nil_prefix, .finish (hfinish.trans h)⟩
      | none =>
          cases hturn : L.turn s e with
          | inl s' =>
              rw [run_cons_inl hfinish hturn] at h
              obtain ⟨pre, hpre, hreturns⟩ := ih h
              exact ⟨e :: pre, List.cons_prefix_cons.mpr ⟨rfl, hpre⟩, .turn hfinish hturn hreturns⟩
          | inr r' =>
              rw [run_cons_inr hfinish hturn] at h
              cases h
              exact ⟨[e], by simp, .stop hfinish hturn⟩

theorem run_append (h : L.run s es = some r) (more : List ε) : L.run s (es ++ more) = some r := by
  obtain ⟨pre, ⟨post, rfl⟩, hreturns⟩ := exists_returns_of_run h
  rw [List.append_assoc]
  exact hreturns.run_append _

/-- Under one schedule the loop returns one value. -/
theorem run_take_unique {f : Stream' ε} {m n : ℕ} {r r' : ρ} (h : L.run s (f.take m) = some r)
    (h' : L.run s (f.take n) = some r') : r = r' := by
  have hlong : ∀ {k k' r}, k ≤ k' → L.run s (f.take k) = some r → L.run s (f.take k') = some r := by
    intro k k' r hle hk
    obtain ⟨j, rfl⟩ := Nat.exists_eq_add_of_le hle
    rw [Stream'.take_add]
    exact run_append hk _
  have hmax := hlong (le_max_left m n) h
  rw [hlong (le_max_right m n) h'] at hmax
  exact (Option.some.inj hmax).symm

theorem Returns.finish_eq (h : L.Returns s [] r) : L.finish s = some r := by
  cases h with
  | finish hfinish => exact hfinish

/-- The first answer makes the loop return, or it goes on to do so. -/
theorem Returns.cons_cases (h : L.Returns s (e :: es) r) :
    (L.turn s e = .inr r ∧ es = []) ∨ ∃ s', L.turn s e = .inl s' ∧ L.Returns s' es r := by
  cases h with
  | stop _ hturn => exact Or.inl ⟨hturn, rfl⟩
  | turn _ hturn h => exact Or.inr ⟨_, hturn, h⟩

/-- The termination rule. -/
theorem exists_returns (μ : σ → ℕ)
    (hμ : ∀ s e s', L.finish s = none → L.turn s e = .inl s' → μ s' < μ s) (s : σ)
    (f : Stream' ε) : ∃ n r, L.Returns s (f.take n) r := by
  generalize hk : μ s = k
  induction k using Nat.strong_induction_on generalizing s f with
  | _ k ih =>
      cases hfinish : L.finish s with
      | some r => exact ⟨0, r, .finish hfinish⟩
      | none =>
          cases hturn : L.turn s f.head with
          | inr r => exact ⟨1, r, .stop hfinish hturn⟩
          | inl s' =>
              obtain ⟨n, r, h⟩ := ih (μ s') (hk ▸ hμ s _ s' hfinish hturn) s' f.tail rfl
              exact ⟨n + 1, r, .turn hfinish hturn h⟩

end Loop
