import Mathlib.Data.Option.Basic
import Mathlib.Logic.Basic

/-!
# Runs of labelled partial transitions

A system is a function `step` that takes a state and a label and gives the next
state, or nothing when the label is not enabled. The label carries every choice
that is not the program's, so a run can be executed. `Reach step ok s t` says
that `t` is reached from `s` by labels each of which satisfies `ok` in the state
where it is taken.
-/

namespace Transition

variable {σ ℓ : Type*} {step : σ → ℓ → Option σ} {ok : σ → ℓ → Prop}

inductive Reach (step : σ → ℓ → Option σ) (ok : σ → ℓ → Prop) (s : σ) : σ → Prop
  | refl : Reach step ok s s
  | tail {t u : σ} (l : ℓ) (h : Reach step ok s t) (hok : ok t l)
      (hstep : step t l = some u) : Reach step ok s u

/-- No condition on the steps: every interleaving. -/
def Always (_ : σ) (_ : ℓ) : Prop := True

instance (s : σ) (l : ℓ) : Decidable (Always s l) := inferInstanceAs (Decidable True)

/-- The invariant rule: what holds at the start and is kept by every admitted
step holds in every state reached. -/
theorem Reach.invariant {I : σ → Prop} {s t : σ} (h : Reach step ok s t) (hs : I s)
    (hstep : ∀ a l b, I a → ok a l → step a l = some b → I b) : I t := by
  induction h with
  | refl => exact hs
  | tail l _ hok hl ih => exact hstep _ l _ ih hok hl

theorem Reach.trans {s t u : σ} (hst : Reach step ok s t) (htu : Reach step ok t u) :
    Reach step ok s u := by
  induction htu with
  | refl => exact hst
  | tail l _ hok hl ih => exact .tail l ih hok hl

theorem Reach.mono {ok' : σ → ℓ → Prop} (himp : ∀ a l, ok a l → ok' a l) {s t : σ}
    (h : Reach step ok s t) : Reach step ok' s t := by
  induction h with
  | refl => exact .refl
  | tail l _ hok hl ih => exact .tail l ih (himp _ _ hok) hl

theorem Reach.always {s t : σ} (h : Reach step ok s t) : Reach step Always s t :=
  h.mono fun _ _ _ ↦ trivial

/-- Execute the labels in order, refusing a label that is not admitted. -/
def exec (step : σ → ℓ → Option σ) (ok : σ → ℓ → Prop) [∀ s l, Decidable (ok s l)] :
    σ → List ℓ → Option σ
  | s, [] => some s
  | s, l :: ls => if ok s l then (step s l).bind fun t ↦ exec step ok t ls else none

theorem Reach.of_exec [∀ s l, Decidable (ok s l)] {s t : σ} {ls : List ℓ}
    (h : exec step ok s ls = some t) : Reach step ok s t := by
  induction ls generalizing s with
  | nil =>
      obtain rfl : s = t := Option.some.inj h
      exact .refl
  | cons l ls ih =>
      simp only [exec] at h
      split at h
      · next hok =>
        obtain ⟨u, hu, hrest⟩ := Option.bind_eq_some_iff.mp h
        exact (Reach.tail l .refl hok hu).trans (ih hrest)
      · cases h

/-- The simulation rule: a relation that each step keeps, with `f` on the other side, relates what
the labels lead to on both sides. -/
theorem exec_simulation {τ : Type*} [∀ s l, Decidable (ok s l)] {R : σ → τ → Prop} {f : τ → ℓ → τ}
    (hstep : ∀ a x l b, R a x → ok a l → step a l = some b → R b (f x l)) {a b : σ} {x : τ}
    {ls : List ℓ} (h : R a x) (hexec : exec step ok a ls = some b) : R b (ls.foldl f x) := by
  induction ls generalizing a x with
  | nil =>
      obtain rfl : a = b := Option.some.inj hexec
      exact h
  | cons l ls ih =>
      simp only [exec] at hexec
      split at hexec
      · next hok =>
        obtain ⟨u, hu, hrest⟩ := Option.bind_eq_some_iff.mp hexec
        exact ih (hstep _ _ _ _ h hok hu) hrest
      · cases hexec

/-- The system with a history of its steps, which takes no step away. -/
def recorded {η : Type*} (step : σ → ℓ → Option σ) (next : σ → ℓ → η → η) (a : σ × η) (l : ℓ) :
    Option (σ × η) :=
  (step a.1 l).map fun s ↦ (s, next a.1 l a.2)

theorem recorded_eq_some {η : Type*} {next : σ → ℓ → η → η} {a b : σ × η} {l : ℓ} :
    recorded step next a l = some b ↔ step a.1 l = some b.1 ∧ b.2 = next a.1 l a.2 := by
  obtain ⟨s, x⟩ := b
  rw [recorded, Option.map_eq_some_iff]
  constructor
  · rintro ⟨s', hstep, heq⟩
    cases heq
    exact ⟨hstep, rfl⟩
  · rintro ⟨hstep, hx⟩
    exact ⟨s, hstep, by rw [← hx]⟩

/-- A run given by its labels, with a decidable property of its last state. -/
theorem Reach.exists_of_exec (step : σ → ℓ → Option σ) (ok : σ → ℓ → Prop)
    [∀ s l, Decidable (ok s l)] (s : σ) (ls : List ℓ) (p : σ → Bool)
    (h : (exec step ok s ls).any p = true) : ∃ t, Reach step ok s t ∧ p t = true := by
  cases ht : exec step ok s ls with
  | none => simp [ht] at h
  | some t => exact ⟨t, .of_exec ht, by simpa [ht] using h⟩

end Transition
