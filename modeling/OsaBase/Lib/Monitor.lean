import Mathlib.Algebra.BigOperators.Group.Finset.Basic
import Mathlib.Algebra.Order.BigOperators.Group.Finset
import Mathlib.Data.Fintype.BigOperators
import OsaBase.Lib.Runs

/-!
# Monitors with condition variables

A monitor is a shared value with calls that run under one lock. A pass through a
critical section either ends the call, having signalled at most one condition, or
puts the thread to sleep on a condition. A signal moves one arbitrary thread asleep
on that condition to `signalled`, from where it re-enters; a thread may also wake for
no reason (`awoken`), and a timed sleep may expire.

Two rules about every run are proved here. If the passes of the calls refine the
operations of a sequential object, then the completed calls, in the order of their
passes, are a legal history of that object. If a condition stands for a number of
available units, then no sleeper misses a unit.
-/

open Transition

namespace Monitor

/-- How a pass through the critical section is entered: from the lock, after the sleep
was ended, or after a timed sleep ran out. -/
inductive Entry
  | first
  | resumed
  | expired
  deriving DecidableEq, Repr

/-- One pass through the critical section. -/
inductive Pass (σ κ ρ : Type*)
  | done (s : σ) (r : ρ) (signal : Option κ)
  | wait (s : σ) (k : κ)
  deriving DecidableEq

inductive Phase (C κ : Type*)
  | idle
  | entering (c : C)
  | blocked (c : C) (k : κ)
  | signalled (c : C) (k : κ)
  | awoken (c : C) (k : κ)
  | expired (c : C) (k : κ)
  deriving DecidableEq

def Phase.blockedOn {C κ : Type*} [DecidableEq κ] (k : κ) : Phase C κ → Bool
  | .blocked _ k' => decide (k' = k)
  | _ => false

def Phase.signalledOn {C κ : Type*} [DecidableEq κ] (k : κ) : Phase C κ → Bool
  | .signalled _ k' => decide (k' = k)
  | _ => false

section

variable {C κ : Type*} [DecidableEq κ] (k : κ)

@[simp] theorem Phase.blockedOn_idle : (idle : Phase C κ).blockedOn k = false := rfl

@[simp] theorem Phase.blockedOn_entering (c : C) : (entering c).blockedOn k = false := rfl

@[simp] theorem Phase.blockedOn_signalled (c : C) (k' : κ) :
    (signalled c k').blockedOn k = false := rfl

@[simp] theorem Phase.blockedOn_awoken (c : C) (k' : κ) :
    (awoken c k').blockedOn k = false := rfl

@[simp] theorem Phase.blockedOn_expired (c : C) (k' : κ) :
    (expired c k').blockedOn k = false := rfl

@[simp] theorem Phase.blockedOn_blocked (c : C) (k' : κ) :
    (blocked c k').blockedOn k = decide (k' = k) := rfl

@[simp] theorem Phase.signalledOn_idle : (idle : Phase C κ).signalledOn k = false := rfl

@[simp] theorem Phase.signalledOn_entering (c : C) : (entering c).signalledOn k = false := rfl

@[simp] theorem Phase.signalledOn_blocked (c : C) (k' : κ) :
    (blocked c k').signalledOn k = false := rfl

@[simp] theorem Phase.signalledOn_awoken (c : C) (k' : κ) :
    (awoken c k').signalledOn k = false := rfl

@[simp] theorem Phase.signalledOn_expired (c : C) (k' : κ) :
    (expired c k').signalledOn k = false := rfl

@[simp] theorem Phase.signalledOn_signalled (c : C) (k' : κ) :
    (signalled c k').signalledOn k = decide (k' = k) := rfl

end

/-- The call a thread is in. -/
def Phase.call {C κ : Type*} : Phase C κ → Option C
  | .idle => none
  | .entering c | .blocked c _ | .signalled c _ | .awoken c _ | .expired c _ => some c

/-- The call of a thread that sleeps and has not been woken. -/
def Phase.blockedCall {C κ : Type*} : Phase C κ → Option C
  | .blocked c _ => some c
  | _ => none

/-- The call of a thread that was woken, with or without a signal, and has not yet taken the
lock again. -/
def Phase.wokenCall {C κ : Type*} : Phase C κ → Option C
  | .signalled c _ | .awoken c _ => some c
  | _ => none

/-- The call a thread will resume when it next takes the lock, with the way it re-enters. -/
def Phase.ready {C κ : Type*} : Phase C κ → Option (Entry × C)
  | .entering c => some (.first, c)
  | .signalled c _ | .awoken c _ => some (.resumed, c)
  | .expired c _ => some (.expired, c)
  | _ => none

end Monitor

/-- The calls of a monitor: what a pass does, and which calls sleep with a time limit. -/
structure Monitor (σ κ C ρ : Type*) where
  pass : Monitor.Entry → C → σ → Monitor.Pass σ κ ρ
  timed : C → Bool := fun _ ↦ false

namespace Monitor

variable {σ κ C ρ T : Type*} [DecidableEq κ] [DecidableEq T]

/-- The shared value, where each thread stands, and the completed calls in order. -/
structure State (T σ κ C ρ : Type*) where
  shared : σ
  phase : T → Phase C κ
  log : List (C × ρ)

def start (T : Type*) {σ κ C ρ : Type*} (s : σ) : State T σ κ C ρ := ⟨s, fun _ ↦ .idle, []⟩

/-- `enter t woken`: thread `t` makes a pass; `woken` is the thread its signal wakes. -/
inductive Label (T C : Type*)
  | invoke (t : T) (c : C)
  | enter (t : T) (woken : Option T)
  | spurious (t : T)
  | expire (t : T)
  deriving DecidableEq

/-- A signal on `k` wakes the chosen sleeper; it is lost only when nobody sleeps on `k`. -/
def wake [Fintype T] (k : κ) (phase : T → Phase C κ) : Option T → Option (T → Phase C κ)
  | some u =>
    match phase u with
    | .blocked c k' => if k' = k then some (Function.update phase u (.signalled c k)) else none
    | _ => none
  | none => if ∀ u, (phase u).blockedOn k = false then some phase else none

def land [Fintype T] (s : State T σ κ C ρ) (t : T) (c : C) (woken : Option T) :
    Pass σ κ ρ → Option (State T σ κ C ρ)
  | .wait s' k =>
    if woken = none then
      some { s with shared := s', phase := Function.update s.phase t (.blocked c k) }
    else none
  | .done s' r none =>
    if woken = none then
      some ⟨s', Function.update s.phase t .idle, s.log ++ [(c, r)]⟩
    else none
  | .done s' r (some k) =>
    (wake k (Function.update s.phase t .idle) woken).map fun ph ↦ ⟨s', ph, s.log ++ [(c, r)]⟩

def step [Fintype T] (m : Monitor σ κ C ρ) (s : State T σ κ C ρ) :
    Label T C → Option (State T σ κ C ρ)
  | .invoke t c =>
    match s.phase t with
    | .idle => some { s with phase := Function.update s.phase t (.entering c) }
    | _ => none
  | .enter t woken =>
    match (s.phase t).ready with
    | some (e, c) => land s t c woken (m.pass e c s.shared)
    | none => none
  | .spurious t =>
    match s.phase t with
    | .blocked c k => some { s with phase := Function.update s.phase t (.awoken c k) }
    | _ => none
  | .expire t =>
    match s.phase t with
    | .blocked c k =>
      if m.timed c then some { s with phase := Function.update s.phase t (.expired c k) } else none
    | _ => none

/-! ## What a step can do -/

/-- Every step with the guards under which it is taken. -/
inductive Effect (m : Monitor σ κ C ρ) (s : State T σ κ C ρ) :
    Label T C → State T σ κ C ρ → Prop
  | invoke (t : T) (c : C) (hidle : s.phase t = .idle) :
      Effect m s (.invoke t c) { s with phase := Function.update s.phase t (.entering c) }
  | spurious (t : T) (c : C) (k : κ) (hsleep : s.phase t = .blocked c k) :
      Effect m s (.spurious t) { s with phase := Function.update s.phase t (.awoken c k) }
  | expire (t : T) (c : C) (k : κ) (hsleep : s.phase t = .blocked c k) (htimed : m.timed c = true) :
      Effect m s (.expire t) { s with phase := Function.update s.phase t (.expired c k) }
  | wait (t : T) (e : Entry) (c : C) (s' : σ) (k : κ) (hready : (s.phase t).ready = some (e, c))
      (hpass : m.pass e c s.shared = .wait s' k) :
      Effect m s (.enter t none)
        { s with shared := s', phase := Function.update s.phase t (.blocked c k) }
  | quiet (t : T) (e : Entry) (c : C) (s' : σ) (r : ρ) (hready : (s.phase t).ready = some (e, c))
      (hpass : m.pass e c s.shared = .done s' r none) :
      Effect m s (.enter t none) ⟨s', Function.update s.phase t .idle, s.log ++ [(c, r)]⟩
  | lost (t : T) (e : Entry) (c : C) (s' : σ) (r : ρ) (k : κ)
      (hready : (s.phase t).ready = some (e, c)) (hpass : m.pass e c s.shared = .done s' r (some k))
      (hnone : ∀ u, (Function.update s.phase t .idle u).blockedOn k = false) :
      Effect m s (.enter t none) ⟨s', Function.update s.phase t .idle, s.log ++ [(c, r)]⟩
  | wake (t u : T) (e : Entry) (c d : C) (s' : σ) (r : ρ) (k : κ)
      (hready : (s.phase t).ready = some (e, c)) (hpass : m.pass e c s.shared = .done s' r (some k))
      (hne : u ≠ t) (hsleep : s.phase u = .blocked d k) :
      Effect m s (.enter t (some u))
        ⟨s', Function.update (Function.update s.phase t .idle) u (.signalled d k),
          s.log ++ [(c, r)]⟩

theorem wake_eq_some [Fintype T] {k : κ} {phase phase' : T → Phase C κ} {woken : Option T}
    (h : wake k phase woken = some phase') :
    (woken = none ∧ phase' = phase ∧ ∀ u, (phase u).blockedOn k = false) ∨
      ∃ u c, woken = some u ∧ phase u = .blocked c k ∧
        phase' = Function.update phase u (.signalled c k) := by
  cases woken with
  | none =>
      simp only [wake] at h
      split at h
      · next hnone => exact Or.inl ⟨rfl, (Option.some.inj h).symm, hnone⟩
      · cases h
  | some u =>
      simp only [wake] at h
      split at h
      · next c k' hu =>
        split at h
        · next hk =>
          subst hk
          exact Or.inr ⟨u, c, rfl, hu, (Option.some.inj h).symm⟩
        · cases h
      · cases h

theorem effect_of_land [Fintype T] {m : Monitor σ κ C ρ} {s s' : State T σ κ C ρ} {t : T}
    {woken : Option T} {e : Entry} {c : C} (hready : (s.phase t).ready = some (e, c))
    (h : land s t c woken (m.pass e c s.shared) = some s') :
    Effect m s (.enter t woken) s' := by
  cases hpass : m.pass e c s.shared with
  | wait a k =>
      simp only [hpass, land] at h
      split at h
      · next hw =>
        subst hw
        obtain rfl := Option.some.inj h
        exact .wait t e c a k hready hpass
      · cases h
  | done a r sig =>
      cases sig with
      | none =>
          simp only [hpass, land] at h
          split at h
          · next hw =>
            subst hw
            obtain rfl := Option.some.inj h
            exact .quiet t e c a r hready hpass
          · cases h
      | some k =>
          simp only [hpass, land] at h
          obtain ⟨ph, hph, rfl⟩ := Option.map_eq_some_iff.mp h
          rcases wake_eq_some hph with ⟨rfl, rfl, hnone⟩ | ⟨u, d, rfl, hu, rfl⟩
          · exact .lost t e c a r k hready hpass hnone
          · have hne : u ≠ t := by
              rintro rfl
              simp at hu
            rw [Function.update_of_ne hne] at hu
            exact .wake t u e c d a r k hready hpass hne hu

theorem effect_of_step [Fintype T] {m : Monitor σ κ C ρ} {s s' : State T σ κ C ρ} {l : Label T C}
    (h : step m s l = some s') : Effect m s l s' := by
  cases l with
  | invoke t c =>
      simp only [step] at h
      split at h
      · next hidle =>
        obtain rfl := Option.some.inj h
        exact .invoke t c hidle
      · cases h
  | enter t woken =>
      simp only [step] at h
      split at h
      · next e c hready => exact effect_of_land hready h
      · cases h
  | spurious t =>
      simp only [step] at h
      split at h
      · next c k hsleep =>
        obtain rfl := Option.some.inj h
        exact .spurious t c k hsleep
      · cases h
  | expire t =>
      simp only [step] at h
      split at h
      · next c k hsleep =>
        split at h
        · next htimed =>
          obtain rfl := Option.some.inj h
          exact .expire t c k hsleep htimed
        · cases h
      · cases h

theorem Phase.call_of_ready {C κ : Type*} {p : Phase C κ} {e : Entry} {c : C}
    (h : p.ready = some (e, c)) : p.call = some c := by
  cases p <;> simp_all [Phase.ready, Phase.call]

/-- Every call that is under way or has been completed satisfies `P`. -/
def CallsSatisfy (P : C → Prop) (s : State T σ κ C ρ) : Prop :=
  (∀ t c, (s.phase t).call = some c → P c) ∧ ∀ c r, (c, r) ∈ s.log → P c

omit [DecidableEq κ] in
theorem calls_update {P : C → Prop} {f : T → Phase C κ} {t : T} {x : Phase C κ}
    (hf : ∀ u c, (f u).call = some c → P c) (hx : ∀ c, x.call = some c → P c) :
    ∀ u c, (Function.update f t x u).call = some c → P c := by
  intro u c hu
  by_cases hut : u = t
  · subst hut
    exact hx c (by simpa using hu)
  · exact hf u c (by simpa [Function.update_of_ne hut] using hu)

theorem callsSatisfy_step [Fintype T] {m : Monitor σ κ C ρ} {P : C → Prop}
    {s s' : State T σ κ C ρ} {l : Label T C} (hs : CallsSatisfy P s)
    (hinvoke : ∀ t c, l = .invoke t c → P c) (h : step m s l = some s') : CallsSatisfy P s' := by
  have hdone : ∀ {t e c r}, (s.phase t).ready = some (e, c) →
      ∀ d q, (d, q) ∈ s.log ++ [(c, r)] → P d := by
    intro t e c r hready d q hq
    rcases List.mem_append.mp hq with hq | hq
    · exact hs.2 d q hq
    · obtain ⟨rfl, -⟩ : d = c ∧ q = r := by simpa using hq
      exact hs.1 t d (Phase.call_of_ready hready)
  cases effect_of_step h with
  | invoke t c _ =>
      exact ⟨calls_update hs.1 fun d hd ↦ by cases hd; exact hinvoke t c rfl, hs.2⟩
  | spurious t c k hsleep =>
      exact ⟨calls_update hs.1 fun d hd ↦ hs.1 t d (by rw [hsleep]; exact hd), hs.2⟩
  | expire t c k hsleep _ =>
      exact ⟨calls_update hs.1 fun d hd ↦ hs.1 t d (by rw [hsleep]; exact hd), hs.2⟩
  | wait t e c a k hready _ =>
      refine ⟨calls_update hs.1 fun d hd ↦ ?_, hs.2⟩
      exact hs.1 t d ((Phase.call_of_ready hready).trans hd)
  | quiet t e c a r hready _ =>
      exact ⟨calls_update hs.1 (fun d hd ↦ by cases hd), hdone hready⟩
  | lost t e c a r k hready _ _ =>
      exact ⟨calls_update hs.1 (fun d hd ↦ by cases hd), hdone hready⟩
  | wake t u e c d a r k hready _ _ hsleep =>
      refine ⟨calls_update (calls_update hs.1 fun d hd ↦ by cases hd) fun d' hd ↦ ?_,
        hdone hready⟩
      exact hs.1 u d' (by rw [hsleep]; exact hd)

theorem callsSatisfy [Fintype T] {m : Monitor σ κ C ρ} {P : C → Prop} {s₀ : σ}
    {ok : State T σ κ C ρ → Label T C → Prop} (hok : ∀ s t c, ok s (.invoke t c) → P c)
    {s : State T σ κ C ρ} (h : Reach (step m) ok (start T s₀) s) : CallsSatisfy P s := by
  refine h.invariant ⟨?_, ?_⟩ fun a l b ha hl hstep ↦
    callsSatisfy_step ha (fun t c hc ↦ hok a t c (hc ▸ hl)) hstep
  · intro t c hc
    cases hc
  · intro c r hr
    cases hr

theorem Phase.ready_of_wokenCall {C κ : Type*} {p : Phase C κ} {c : C}
    (h : p.wokenCall = some c) : p.ready = some (.resumed, c) := by
  cases p with
  | signalled d k | awoken d k =>
      cases h
      rfl
  | idle | entering | blocked | expired => cases h

theorem Phase.wokenCall_of_blockedCall {C κ : Type*} {p : Phase C κ} {c : C}
    (h : p.blockedCall = some c) : p.wokenCall = none := by
  cases p with
  | blocked d k => rfl
  | idle | entering | signalled | awoken | expired => cases h

section

variable {C κ T : Type*} [DecidableEq T] {P : C → Prop} {f : T → Phase C κ} {t : T} {x : Phase C κ}

theorem Phase.forall_blockedCall_update (hx : ∀ c ∈ x.blockedCall, P c)
    (hf : ∀ u, u ≠ t → ∀ c ∈ (f u).blockedCall, P c) :
    ∀ u, ∀ c ∈ (Function.update f t x u).blockedCall, P c := by
  intro u c hc
  by_cases hut : u = t
  · subst hut
    exact hx c (by simpa using hc)
  · exact hf u hut c (by simpa [Function.update_of_ne hut] using hc)

theorem Phase.exists_wokenCall_update (ht : ∀ c ∈ (f t).wokenCall, ¬ P c)
    (hf : ∃ u, ∃ c ∈ (f u).wokenCall, P c) :
    ∃ u, ∃ c ∈ (Function.update f t x u).wokenCall, P c := by
  obtain ⟨u, c, hc, hP⟩ := hf
  have hut : u ≠ t := by
    rintro rfl
    exact ht c hc hP
  exact ⟨u, c, by rwa [Function.update_of_ne hut], hP⟩

theorem Phase.exists_wokenCall_of_update (hx : x.wokenCall = none)
    (hf : ∃ u, ∃ c ∈ (Function.update f t x u).wokenCall, P c) :
    ∃ u, ∃ c ∈ (f u).wokenCall, P c := by
  obtain ⟨u, c, hc, hP⟩ := hf
  have hut : u ≠ t := by
    rintro rfl
    simp [hx] at hc
  exact ⟨u, c, by rwa [Function.update_of_ne hut] at hc, hP⟩

end

theorem Phase.blockedCall_of_ready {C κ : Type*} {p : Phase C κ} {e : Entry} {c : C}
    (h : p.ready = some (e, c)) : p.blockedCall = none := by
  cases p with
  | blocked d k => cases h
  | idle | entering | signalled | awoken | expired => rfl

theorem Phase.eq_of_ready_of_wokenCall {C κ : Type*} {p : Phase C κ} {e : Entry} {c d : C}
    (h : p.ready = some (e, c)) (hd : p.wokenCall = some d) : e = .resumed ∧ c = d := by
  have hready := h.symm.trans (Phase.ready_of_wokenCall hd)
  cases hready
  exact ⟨rfl, rfl⟩

/-- Every call that sleeps, or was woken and has not yet taken the lock, satisfies `P`. -/
def SleepersSatisfy (P : C → Prop) (f : T → Phase C κ) : Prop :=
  ∀ u c, (f u).blockedCall = some c ∨ (f u).wokenCall = some c → P c

omit [DecidableEq κ] in
theorem SleepersSatisfy.update {P : C → Prop} {f : T → Phase C κ} {t : T} {x : Phase C κ}
    (hf : SleepersSatisfy P f)
    (hx : ∀ c, x.blockedCall = some c ∨ x.wokenCall = some c → P c) :
    SleepersSatisfy P (Function.update f t x) := by
  intro u c hc
  by_cases hut : u = t
  · subst hut
    exact hx c (by simpa using hc)
  · exact hf u c (by simpa [Function.update_of_ne hut] using hc)

theorem sleepersSatisfy_step [Fintype T] {m : Monitor σ κ C ρ} {P : C → Prop}
    (hwait : ∀ {e c s s' k}, m.pass e c s = .wait s' k → P c) {s s' : State T σ κ C ρ}
    {l : Label T C} (hs : SleepersSatisfy P s.phase) (h : step m s l = some s') :
    SleepersSatisfy P s'.phase := by
  have hidle : ∀ t, SleepersSatisfy P (Function.update s.phase t .idle) :=
    fun t ↦ hs.update (by rintro d (hd | hd) <;> cases hd)
  cases effect_of_step h with
  | invoke t c _ => exact hs.update (by rintro d (hd | hd) <;> cases hd)
  | expire t c k _ _ => exact hs.update (by rintro d (hd | hd) <;> cases hd)
  | spurious t c k hsleep =>
      apply hs.update
      rintro d (hd | hd) <;> cases hd
      exact hs t c (Or.inl (by rw [hsleep]; rfl))
  | wait t e c a k _ hpass =>
      apply hs.update
      rintro d (hd | hd) <;> cases hd
      exact hwait hpass
  | quiet t e c a r _ _ => exact hidle t
  | lost t e c a r k _ _ _ => exact hidle t
  | wake t u e c d a r k _ _ _ hsleep =>
      apply (hidle t).update
      rintro d' (hd | hd) <;> cases hd
      exact hs u d (Or.inl (by rw [hsleep]; rfl))

theorem sleepersSatisfy [Fintype T] {m : Monitor σ κ C ρ} {P : C → Prop}
    (hwait : ∀ {e c s s' k}, m.pass e c s = .wait s' k → P c) {s₀ : σ}
    {ok : State T σ κ C ρ → Label T C → Prop} {s : State T σ κ C ρ}
    (h : Reach (step m) ok (start T s₀) s) : SleepersSatisfy P s.phase := by
  apply h.invariant
  · rintro u c (hc | hc) <;> cases hc
  · exact fun a l b ha _ hstep ↦ sleepersSatisfy_step hwait ha hstep

/-- A pass that neither changes the shared value nor signals. -/
def Quiet (m : Monitor σ κ C ρ) (e : Entry) (c : C) (s : σ) : Prop :=
  (∃ k, m.pass e c s = .wait s k) ∨ ∃ r, m.pass e c s = .done s r none

theorem exists_quiet_step [Fintype T] {m : Monitor σ κ C ρ} {s : State T σ κ C ρ} {t : T} {c : C}
    (hc : (s.phase t).wokenCall = some c) (hquiet : Quiet m .resumed c s.shared) :
    ∃ s' x, step m s (.enter t none) = some s' ∧ s'.shared = s.shared ∧
      s'.phase = Function.update s.phase t x ∧ x.wokenCall = none := by
  have hready := Phase.ready_of_wokenCall hc
  rcases hquiet with ⟨k, hk⟩ | ⟨r, hr⟩
  · refine ⟨{ s with phase := Function.update s.phase t (.blocked c k) }, .blocked c k, ?_, rfl,
      rfl, rfl⟩
    simp only [step, hready, hk, land, if_true]
  · refine ⟨⟨s.shared, Function.update s.phase t .idle, s.log ++ [(c, r)]⟩, .idle, ?_, rfl, rfl,
      rfl⟩
    simp only [step, hready, hr, land, if_true]

/-- Threads that were woken can take the lock one after the other. When their passes are quiet,
this ends with nobody woken and every sleeper still asleep. -/
theorem exists_drained [Fintype T] {m : Monitor σ κ C ρ} {s : State T σ κ C ρ} (A : Finset T)
    (hA : ∀ t, (s.phase t).wokenCall ≠ none → t ∈ A)
    (hquiet : ∀ t c, (s.phase t).wokenCall = some c → Quiet m .resumed c s.shared) :
    ∃ s', Reach (step m) Always s s' ∧ s'.shared = s.shared ∧
      (∀ t, (s'.phase t).wokenCall = none) ∧
      ∀ t c, (s.phase t).blockedCall = some c → (s'.phase t).blockedCall = some c := by
  induction A using Finset.induction_on generalizing s with
  | empty =>
      refine ⟨s, .refl, rfl, fun t ↦ ?_, fun t c h ↦ h⟩
      by_contra hne
      exact absurd (hA t hne) (Finset.notMem_empty t)
  | insert t A _ ih =>
      cases hc : (s.phase t).wokenCall with
      | none =>
          refine ih (fun u hu ↦ ?_) hquiet
          refine (Finset.mem_insert.mp (hA u hu)).resolve_left ?_
          rintro rfl
          exact hu hc
      | some c =>
          obtain ⟨s₁, x, hstep, hsh, hphase, hx⟩ := exists_quiet_step hc (hquiet t c hc)
          have hself : (s₁.phase t).wokenCall = none := by rw [hphase, Function.update_self, hx]
          have hother : ∀ u, u ≠ t → s₁.phase u = s.phase u := by
            intro u hu
            rw [hphase, Function.update_of_ne hu]
          have hwoken : ∀ u, (s₁.phase u).wokenCall ≠ none → u ≠ t := by
            rintro u hu rfl
            exact hu hself
          obtain ⟨s₂, hreach, hsh₂, hnone, hblocked⟩ := ih (s := s₁)
            (fun u hu ↦ by
              have hne := hwoken u hu
              rw [hother u hne] at hu
              exact (Finset.mem_insert.mp (hA u hu)).resolve_left hne)
            (fun u d hu ↦ by
              have hne := hwoken u (by simp [hu])
              rw [hother u hne] at hu
              rw [hsh]
              exact hquiet u d hu)
          refine ⟨s₂, (Reach.tail _ .refl trivial hstep).trans hreach, hsh₂.trans hsh, hnone, ?_⟩
          intro u d hu
          apply hblocked u d
          have hne : u ≠ t := by
            rintro rfl
            rw [Phase.wokenCall_of_blockedCall hu] at hc
            cases hc
          rwa [hother u hne]

/-! ## Sequential histories -/

/-- `Replay spec a h b`: the calls and results `h`, taken one after the other, are a legal
history of the object `spec` from `a` to `b`. -/
inductive Replay {A : Type*} (spec : A → C → ρ → A → Prop) (a : A) : List (C × ρ) → A → Prop
  | nil : Replay spec a [] a
  | snoc {h : List (C × ρ)} {b d : A} {c : C} {r : ρ} (hprev : Replay spec a h b)
      (hlast : spec b c r d) : Replay spec a (h ++ [(c, r)]) d

/-- The passes of `m` refine the operations of the object `spec` through the view `abs`,
as long as the representation invariant `inv` holds. -/
structure Refines {A : Type*} (m : Monitor σ κ C ρ) (inv : σ → Prop) (abs : σ → A)
    (spec : A → C → ρ → A → Prop) : Prop where
  done : ∀ {e c s s' r sig}, inv s → m.pass e c s = .done s' r sig →
    inv s' ∧ spec (abs s) c r (abs s')
  wait : ∀ {e c s s' k}, inv s → m.pass e c s = .wait s' k → s' = s

variable {A : Type*} {m : Monitor σ κ C ρ} {inv : σ → Prop} {abs : σ → A}
  {spec : A → C → ρ → A → Prop}

/-- A step either leaves the shared value alone and completes no call, or completes one call
that is an operation of the object. -/
theorem Refines.step_cases [Fintype T] (hm : Refines m inv abs spec) {s s' : State T σ κ C ρ}
    {l : Label T C} (hi : inv s.shared) (h : step m s l = some s') :
    (s'.log = s.log ∧ s'.shared = s.shared) ∨
      ∃ e c r sig, m.pass e c s.shared = .done s'.shared r sig ∧
        s'.log = s.log ++ [(c, r)] ∧ inv s'.shared ∧ spec (abs s.shared) c r (abs s'.shared) := by
  cases effect_of_step h with
  | invoke t c _ => exact Or.inl ⟨rfl, rfl⟩
  | spurious t c k _ => exact Or.inl ⟨rfl, rfl⟩
  | expire t c k _ _ => exact Or.inl ⟨rfl, rfl⟩
  | wait t e c a k _ hpass => exact Or.inl ⟨rfl, hm.wait hi hpass⟩
  | quiet t e c a r _ hpass => exact Or.inr ⟨e, c, r, none, hpass, rfl, hm.done hi hpass⟩
  | lost t e c a r k _ hpass _ => exact Or.inr ⟨e, c, r, some k, hpass, rfl, hm.done hi hpass⟩
  | wake t u e c d a r k _ hpass _ _ => exact Or.inr ⟨e, c, r, some k, hpass, rfl, hm.done hi hpass⟩

/-- The refinement rule: in every reachable state the invariant holds and the completed calls
replay on the sequential object. -/
theorem Refines.replay [Fintype T] (hm : Refines m inv abs spec) {s₀ : σ} (h₀ : inv s₀)
    {ok : State T σ κ C ρ → Label T C → Prop} {s : State T σ κ C ρ}
    (h : Reach (step m) ok (start T s₀) s) :
    inv s.shared ∧ Replay spec (abs s₀) s.log (abs s.shared) := by
  refine h.invariant (I := fun s ↦ inv s.shared ∧ Replay spec (abs s₀) s.log (abs s.shared))
    ⟨h₀, .nil⟩ ?_
  rintro a l b ⟨hi, hr⟩ - hstep
  rcases hm.step_cases hi hstep with ⟨hlog, hsh⟩ | ⟨e, c, r, sig, -, hlog, hi', hsp⟩
  · rw [hlog, hsh]
    exact ⟨hi, hr⟩
  · rw [hlog]
    exact ⟨hi', hr.snoc hsp⟩

/-! ## Counting sleepers -/

/-- The number of threads whose value satisfies `p`. -/
def count [Fintype T] {α : Type*} (p : α → Bool) (f : T → α) : ℕ :=
  (Finset.univ.filter fun t ↦ p (f t) = true).card

omit [DecidableEq T] in
theorem count_eq_sum [Fintype T] {α : Type*} (p : α → Bool) (f : T → α) :
    count p f = ∑ t, (p (f t)).toNat := by
  rw [count, Finset.card_filter]
  refine Finset.sum_congr rfl fun t _ ↦ ?_
  cases p (f t) <;> rfl

/-- How a count changes when one thread moves. -/
theorem count_update [Fintype T] {α : Type*} (p : α → Bool) (f : T → α) (t : T) (x : α) :
    count p (Function.update f t x) + (p (f t)).toNat = count p f + (p x).toNat := by
  have hrest : ∑ u ∈ Finset.univ.erase t, (p (Function.update f t x u)).toNat =
      ∑ u ∈ Finset.univ.erase t, (p (f u)).toNat := by
    refine Finset.sum_congr rfl fun u hu ↦ ?_
    rw [Function.update_of_ne (Finset.ne_of_mem_erase hu)]
  have hnew := Finset.add_sum_erase Finset.univ
    (fun u ↦ (p (Function.update f t x u)).toNat) (Finset.mem_univ t)
  have hold := Finset.add_sum_erase Finset.univ (fun u ↦ (p (f u)).toNat) (Finset.mem_univ t)
  simp only [Function.update_self] at hnew
  rw [count_eq_sum, count_eq_sum]
  omega

omit [DecidableEq T] in
theorem count_pos_iff [Fintype T] {α : Type*} (p : α → Bool) (f : T → α) :
    0 < count p f ↔ ∃ t, p (f t) = true := by
  simp [count, Finset.card_pos, Finset.Nonempty]

/-- The number of threads signalled on `k` that have not yet taken the lock again. -/
def pending [Fintype T] (s : State T σ κ C ρ) (k : κ) : ℕ := count (Phase.signalledOn k) s.phase

/-- Some thread sleeps on `k` and nobody has signalled it. -/
def Asleep (s : State T σ κ C ρ) (k : κ) : Prop := ∃ t, (s.phase t).blockedOn k = true

/-- Condition `k` stands for `avail` units: a call sleeps on `k` only when there is none, a
pass makes at most one unit available and signals `k` when it does, and a call resumed from
a sleep on `k` either takes a unit or finds none and sleeps on `k` again. -/
structure Counts (m : Monitor σ κ C ρ) (inv : σ → Prop) (k : κ) (avail : σ → ℕ)
    (waiter : C → Prop) : Prop where
  sleep : ∀ {e c s s'}, inv s → m.pass e c s = .wait s' k → waiter c ∧ avail s' = 0
  other : ∀ {e c s s' k'}, inv s → m.pass e c s = .wait s' k' → k' ≠ k →
    ¬ waiter c ∧ avail s' ≤ avail s
  quiet : ∀ {e c s s' r sig}, inv s → m.pass e c s = .done s' r sig → sig ≠ some k →
    avail s' ≤ avail s
  signal : ∀ {e c s s' r}, inv s → m.pass e c s = .done s' r (some k) → avail s' ≤ avail s + 1
  takes : ∀ {c s s' r sig}, inv s → waiter c → m.pass .resumed c s = .done s' r sig →
    avail s' + 1 ≤ avail s
  done : ∀ {e c s s' r sig}, inv s → m.pass e c s = .done s' r sig → inv s'
  wait : ∀ {e c s s' k'}, inv s → m.pass e c s = .wait s' k' → inv s'

/-- Whoever sleeps on `k`, or was woken from it, is a call that waits for its units; and the
units available never exceed the pending wake-ups while somebody sleeps. -/
structure Covered [Fintype T] (inv : σ → Prop) (k : κ) (avail : σ → ℕ) (waiter : C → Prop)
    (s : State T σ κ C ρ) : Prop where
  inv : inv s.shared
  waits : ∀ t c k', (s.phase t = .blocked c k' ∨ s.phase t = .signalled c k') →
    (waiter c ↔ k' = k)
  covered : Asleep s k → avail s.shared ≤ pending s k

section Covered

variable {k : κ} {avail : σ → ℕ} {waiter : C → Prop}

theorem asleep_of_update {f : T → Phase C κ} {t : T} {x : Phase C κ}
    (hx : x.blockedOn k = false) (h : ∃ u, (Function.update f t x u).blockedOn k = true) :
    ∃ u, (f u).blockedOn k = true := by
  obtain ⟨u, hu⟩ := h
  by_cases hut : u = t
  · subst hut
    simp [hx] at hu
  · exact ⟨u, by simpa [Function.update_of_ne hut] using hu⟩

omit [DecidableEq κ] in
theorem waits_update {f : T → Phase C κ} {t : T} {x : Phase C κ}
    (hf : ∀ u c k', (f u = .blocked c k' ∨ f u = .signalled c k') → (waiter c ↔ k' = k))
    (hx : ∀ c k', (x = .blocked c k' ∨ x = .signalled c k') → (waiter c ↔ k' = k)) :
    ∀ u c k', (Function.update f t x u = .blocked c k' ∨
      Function.update f t x u = .signalled c k') → (waiter c ↔ k' = k) := by
  intro u c k' hu
  by_cases hut : u = t
  · subst hut
    exact hx c k' (by simpa using hu)
  · exact hf u c k' (by simpa [Function.update_of_ne hut] using hu)

omit [DecidableEq κ] in
theorem waits_idle {f : T → Phase C κ} (t : T)
    (hf : ∀ u c k', (f u = .blocked c k' ∨ f u = .signalled c k') → (waiter c ↔ k' = k)) :
    ∀ u c k', (Function.update f t .idle u = .blocked c k' ∨
      Function.update f t .idle u = .signalled c k') → (waiter c ↔ k' = k) :=
  waits_update hf fun c k' h ↦ by rcases h with h | h <;> cases h

variable [Fintype T]

theorem pending_move {f : T → Phase C κ} {t : T} {x : Phase C κ}
    (ht : (f t).signalledOn k = false) (hx : x.signalledOn k = false) :
    count (Phase.signalledOn k) (Function.update f t x) = count (Phase.signalledOn k) f := by
  simpa [ht, hx] using count_update (Phase.signalledOn k) f t x

/-- A thread that leaves its sleep on `k` without being signalled is not counted before or
after; one that was signalled takes its own unit away. -/
theorem Counts.units_after_done (hc : Counts m inv k avail waiter) {s : State T σ κ C ρ}
    (hs : Covered inv k avail waiter s) {t : T} {e : Entry} {c : C} {s' : σ} {r : ρ}
    {sig : Option κ} (hready : (s.phase t).ready = some (e, c))
    (hpass : m.pass e c s.shared = .done s' r sig) (hasleep : Asleep s k) :
    avail s' ≤ count (Phase.signalledOn k) (Function.update s.phase t .idle) +
      if sig = some k then 1 else 0 := by
  have hcov := hs.covered hasleep
  have hcount := count_update (Phase.signalledOn k) s.phase t .idle
  unfold pending at hcov
  by_cases hsig : (s.phase t).signalledOn k = true
  · -- the pass of a thread that was woken from `k`: it takes a unit
    obtain ⟨d, hd⟩ : ∃ d, s.phase t = .signalled d k := by
      cases hp : s.phase t <;> simp_all
    have hec : e = .resumed ∧ c = d := by
      simpa [hd, Phase.ready, eq_comm] using hready
    obtain ⟨rfl, rfl⟩ := hec
    have htakes := hc.takes hs.inv ((hs.waits t c k (Or.inr hd)).mpr rfl) hpass
    simp only [hsig, Phase.signalledOn_idle, Bool.toNat_true, Bool.toNat_false] at hcount
    omega
  · simp only [Bool.not_eq_true] at hsig
    simp only [hsig, Phase.signalledOn_idle, Bool.toNat_false] at hcount
    by_cases hk : sig = some k
    · subst hk
      have := hc.signal hs.inv hpass
      simp only [if_true]
      omega
    · have := hc.quiet hs.inv hpass hk
      simp only [hk, if_false]
      omega

theorem Counts.covered_step (hc : Counts m inv k avail waiter) {s s' : State T σ κ C ρ}
    {l : Label T C} (hs : Covered inv k avail waiter s) (h : step m s l = some s') :
    Covered inv k avail waiter s' := by
  cases effect_of_step h with
  | invoke t c hidle =>
      refine ⟨hs.inv, waits_update hs.waits (by simp), fun ha ↦ ?_⟩
      have hcov := hs.covered (asleep_of_update rfl ha)
      exact hcov.trans (pending_move (by simp [hidle]) rfl).ge
  | spurious t c k' hsleep =>
      refine ⟨hs.inv, waits_update hs.waits (by simp), fun ha ↦ ?_⟩
      have hcov := hs.covered (asleep_of_update rfl ha)
      exact hcov.trans (pending_move (by simp [hsleep]) rfl).ge
  | expire t c k' hsleep _ =>
      refine ⟨hs.inv, waits_update hs.waits (by simp), fun ha ↦ ?_⟩
      have hcov := hs.covered (asleep_of_update rfl ha)
      exact hcov.trans (pending_move (by simp [hsleep]) rfl).ge
  | wait t e c a k' hready hpass =>
      by_cases hk : k' = k
      · subst hk
        obtain ⟨hw, hzero⟩ := hc.sleep hs.inv hpass
        refine ⟨hc.wait hs.inv hpass,
          waits_update hs.waits (by rintro _ _ (h | h) <;> cases h; simp [hw]), fun _ ↦ ?_⟩
        exact hzero.le.trans (Nat.zero_le _)
      · obtain ⟨hw, hle⟩ := hc.other hs.inv hpass hk
        refine ⟨hc.wait hs.inv hpass,
          waits_update hs.waits (by rintro _ _ (h | h) <;> cases h; simp [hw, hk]), fun ha ↦ ?_⟩
        -- the sleeper is not a waiter of `k`, so it was not woken from `k`
        have hnot : (s.phase t).signalledOn k = false := by
          cases hp : s.phase t with
          | signalled d k'' =>
              have hd : c = d := by
                simp only [hp, Phase.ready, Option.some.injEq, Prod.mk.injEq] at hready
                exact hready.2.symm
              subst hd
              have := hs.waits t c k'' (Or.inr hp)
              simp only [Phase.signalledOn_signalled, decide_eq_false_iff_not]
              tauto
          | idle | entering | blocked | awoken | expired => rfl
        have hcov := hs.covered (asleep_of_update (by simp [hk]) ha)
        exact (hle.trans hcov).trans (pending_move hnot rfl).ge
  | quiet t e c a r hready hpass =>
      refine ⟨hc.done hs.inv hpass, waits_idle t hs.waits, fun ha ↦ ?_⟩
      exact hc.units_after_done hs hready hpass (asleep_of_update rfl ha)
  | lost t e c a r k' hready hpass hnone =>
      refine ⟨hc.done hs.inv hpass, waits_idle t hs.waits, fun ha ↦ ?_⟩
      have hunits := hc.units_after_done hs hready hpass (asleep_of_update rfl ha)
      have hk : k' ≠ k := by
        rintro rfl
        obtain ⟨u, hu⟩ := ha
        have := hnone u
        simp_all
      simpa [hk, pending] using hunits
  | wake t u e c d a r k' hready hpass hne hsleep =>
      have hw := hs.waits u d k' (Or.inl hsleep)
      refine ⟨hc.done hs.inv hpass, waits_update (waits_idle t hs.waits)
        (by rintro _ _ (h | h) <;> cases h; exact hw), fun ha ↦ ?_⟩
      have hunits := hc.units_after_done hs hready hpass
        (asleep_of_update rfl (asleep_of_update rfl ha))
      have hcount := count_update (Phase.signalledOn k)
        (Function.update s.phase t .idle) u (.signalled d k')
      simp only [Function.update_of_ne hne, hsleep, Phase.signalledOn_blocked, Bool.toNat_false,
        Nat.add_zero, Phase.signalledOn_signalled] at hcount
      have hone : (if some k' = some k then 1 else 0) = (decide (k' = k)).toNat := by
        by_cases hk : k' = k <;> simp [hk]
      exact hunits.trans (hone ▸ hcount.ge)

/-- No lost wake-up: in every run the units available are covered by pending wake-ups as long
as somebody sleeps on their condition. -/
theorem Counts.covered (hc : Counts m inv k avail waiter) {s₀ : σ} (h₀ : inv s₀)
    {ok : State T σ κ C ρ → Label T C → Prop} {s : State T σ κ C ρ}
    (h : Reach (step m) ok (start T s₀) s) : Covered inv k avail waiter s := by
  refine h.invariant ⟨h₀, ?_, ?_⟩ fun a l b ha _ hstep ↦ hc.covered_step ha hstep
  · rintro t c k' (h | h) <;> cases h
  · rintro ⟨t, ht⟩
    simp [start] at ht

end Covered

end Monitor
