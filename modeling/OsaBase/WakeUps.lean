import OsaBase.QueRuns
import OsaBase.Sem

/-!
# No wake-up is lost

A value in a ring, a free cell of a ring and a unit of a semaphore are each signalled to one
sleeper when they appear. In every run what is available is covered by threads that were
signalled and have not yet taken the lock again, as long as some thread that wants it sleeps.
-/

open Transition Monitor

namespace OsaBase

section

variable {σ κ C ρ T : Type} [DecidableEq κ] [Fintype T]

/-- Condition `k` of the state `s` stands for `avail` units and the calls in `waiter` sleep on
it. -/
structure NoLostWakeUp (s : State T σ κ C ρ) (k : κ) (avail : ℕ) (waiter : C → Prop) : Prop where
  covered : (∃ t, (s.phase t).blockedOn k = true) →
    avail ≤ (Finset.univ.filter fun t ↦ (s.phase t).signalledOn k = true).card
  not_stuck : 0 < avail → (∃ t, (s.phase t).blockedOn k = true) →
    ∃ t, (s.phase t).signalledOn k = true
  waiters : ∀ t c k', (s.phase t = .blocked c k' ∨ s.phase t = .signalled c k') →
    (waiter c ↔ k' = k)

theorem NoLostWakeUp.of_covered {inv : σ → Prop} {avail : σ → ℕ} {waiter : C → Prop} {k : κ}
    {s : State T σ κ C ρ} (h : Covered inv k avail waiter s) :
    NoLostWakeUp s k (avail s.shared) waiter where
  covered := h.covered
  not_stuck := by
    intro hpos hasleep
    have hle := h.covered hasleep
    exact (count_pos_iff _ _).mp (hpos.trans_le hle)
  waiters := h.waits

end

/-! ## The two conditions of a ring -/

def RingCall.BlockingGet {α : Type} : RingCall α → Prop
  | .get _ timeout => timeout ≠ osaTimeoutNone
  | _ => False

def RingCall.BlockingPut {α : Type} : RingCall α → Prop
  | .put _ timeout => timeout ≠ osaTimeoutNone
  | _ => False

section

variable {α C : Type} [Inhabited α] {m : Monitor (RingHndl α) RingCond C (RingResult α)}
  {toRing : C → RingCall α} {e : Entry} {c : C} {hndl hndl' : RingHndl α}

/-- The calls of `m` are those of a ring: put, get, and queries that change nothing. -/
def PassesAre (m : Monitor (RingHndl α) RingCond C (RingResult α)) (toRing : C → RingCall α) :
    Prop :=
  ∀ e c hndl,
    match toRing c with
    | .put v timeout => m.pass e c hndl = hndl.putPass v timeout
    | .get value timeout => m.pass e c hndl = hndl.getPass value timeout
    | _ => ∃ r, m.pass e c hndl = .done hndl r none

theorem queMonitor_passesAre : PassesAre queMonitor id := by
  intro e c hndl
  cases c with
  | put v timeout => rfl
  | get value timeout => rfl
  | peek | getQueuedCount | isEmpty => exact ⟨_, rfl⟩

theorem msgqMonitor_passesAre : PassesAre msgqMonitor MsgqCall.toRing := by
  intro e c hndl
  cases c <;> rfl

omit [Inhabited α] in
theorem RingHndl.putPass_done_cases {v : α} {timeout : ℕ} {r : RingResult α}
    {sig : Option RingCond} (h : hndl.putPass v timeout = .done hndl' r sig) :
    (sig = some .condRd ∧ hndl.count < hndl.len ∧ hndl' = hndl.push v) ∨
      (sig = none ∧ hndl' = hndl ∧ timeout = osaTimeoutNone) := by
  unfold putPass at h
  split at h
  · cases h
    exact Or.inl ⟨rfl, ‹_›, rfl⟩
  · split at h
    · cases h
      exact Or.inr ⟨rfl, rfl, ‹_›⟩
    · cases h

theorem RingHndl.getPass_done_cases {value : Bool} {timeout : ℕ} {r : RingResult α}
    {sig : Option RingCond} (h : hndl.getPass value timeout = .done hndl' r sig) :
    (sig = some .condWr ∧ 0 < hndl.count ∧ hndl' = hndl.pop) ∨
      (sig = none ∧ hndl' = hndl ∧ timeout = osaTimeoutNone) := by
  unfold getPass at h
  split at h
  · cases h
    exact Or.inl ⟨rfl, ‹_›, rfl⟩
  · split at h
    · cases h
      exact Or.inr ⟨rfl, rfl, ‹_›⟩
    · cases h

/-- All that a pass which ends a call can do. -/
inductive RingEffect (toRing : C → RingCall α) (hndl : RingHndl α) (c : C) :
    RingHndl α → Option RingCond → Prop
  | put (v : α) (hroom : hndl.count < hndl.len) (hget : ¬ (toRing c).BlockingGet) :
      RingEffect toRing hndl c (hndl.push v) (some .condRd)
  | get (hsome : 0 < hndl.count) (hput : ¬ (toRing c).BlockingPut) :
      RingEffect toRing hndl c hndl.pop (some .condWr)
  | none (hget : ¬ (toRing c).BlockingGet) (hput : ¬ (toRing c).BlockingPut) :
      RingEffect toRing hndl c hndl none

theorem PassesAre.done (hm : PassesAre m toRing) {r : RingResult α} {sig : Option RingCond}
    (h : m.pass e c hndl = .done hndl' r sig) : RingEffect toRing hndl c hndl' sig := by
  have hpass := hm e c hndl
  cases hc : toRing c with
  | put v timeout =>
      simp only [hc] at hpass
      rcases RingHndl.putPass_done_cases (hpass.symm.trans h) with
        ⟨rfl, hroom, rfl⟩ | ⟨rfl, rfl, ht⟩
      · exact .put v hroom (by simp [hc, RingCall.BlockingGet])
      · exact .none (by simp [hc, RingCall.BlockingGet]) (by simp [hc, RingCall.BlockingPut, ht])
  | get value timeout =>
      simp only [hc] at hpass
      rcases RingHndl.getPass_done_cases (hpass.symm.trans h) with
        ⟨rfl, hsome, rfl⟩ | ⟨rfl, rfl, ht⟩
      · exact .get hsome (by simp [hc, RingCall.BlockingPut])
      · exact .none (by simp [hc, RingCall.BlockingGet, ht]) (by simp [hc, RingCall.BlockingPut])
  | peek | getQueuedCount | isEmpty =>
      simp only [hc] at hpass
      obtain ⟨r', hr'⟩ := hpass
      cases hr'.symm.trans h
      exact .none (by simp [hc, RingCall.BlockingGet]) (by simp [hc, RingCall.BlockingPut])

theorem PassesAre.wait (hm : PassesAre m toRing) {k : RingCond}
    (h : m.pass e c hndl = .wait hndl' k) :
    hndl' = hndl ∧
      (k = .condWr ∧ (toRing c).BlockingPut ∧ ¬ (toRing c).BlockingGet ∧ hndl.len ≤ hndl.count ∨
        k = .condRd ∧ (toRing c).BlockingGet ∧ ¬ (toRing c).BlockingPut ∧ hndl.count = 0) := by
  have hpass := hm e c hndl
  cases hc : toRing c with
  | put v timeout =>
      simp only [hc] at hpass
      have hwait := hpass.symm.trans h
      obtain ⟨rfl, rfl, hfull, -⟩ := RingHndl.putPass_wait hwait
      have ht : timeout ≠ osaTimeoutNone := by
        rintro rfl
        simp [RingHndl.putPass, hfull.not_gt] at hwait
      exact ⟨rfl, Or.inl ⟨rfl, ht, id, hfull⟩⟩
  | get value timeout =>
      simp only [hc] at hpass
      have hwait := hpass.symm.trans h
      obtain ⟨rfl, rfl, hempty, -⟩ := RingHndl.getPass_wait hwait
      have ht : timeout ≠ osaTimeoutNone := by
        rintro rfl
        simp [RingHndl.getPass, hempty] at hwait
      exact ⟨rfl, Or.inr ⟨rfl, ht, id, hempty⟩⟩
  | peek | getQueuedCount | isEmpty =>
      simp only [hc] at hpass
      obtain ⟨r', hr'⟩ := hpass
      cases hr'.symm.trans h

omit [Inhabited α] in
theorem RingEffect.rep {cap : ℕ} {sig : Option RingCond} (h : hndl.Rep cap)
    (heff : RingEffect toRing hndl c hndl' sig) : hndl'.Rep cap := by
  cases heff with
  | put v hroom _ => exact ⟨h.wf.push hroom v, h.len_eq⟩
  | get hsome _ => exact ⟨h.wf.pop hsome, h.len_eq⟩
  | none _ _ => exact h

/-- A queued value is a unit of `condRd`. -/
theorem PassesAre.counts_condRd (hm : PassesAre m toRing) (cap : ℕ) :
    Counts m (RingHndl.Rep cap) .condRd RingHndl.count fun c ↦ (toRing c).BlockingGet where
  sleep := by
    intro e c hndl hndl' _ hpass
    obtain ⟨rfl, ⟨hk, -⟩ | ⟨-, hget, -, hzero⟩⟩ := hm.wait hpass
    · cases hk
    · exact ⟨hget, hzero⟩
  other := by
    intro e c hndl hndl' k' _ hpass hk
    obtain ⟨rfl, ⟨-, -, hget, -⟩ | ⟨hk', -⟩⟩ := hm.wait hpass
    · exact ⟨hget, le_rfl⟩
    · exact (hk hk').elim
  quiet := by
    intro e c hndl hndl' r sig _ hpass hsig
    cases hm.done hpass with
    | put v hroom _ => exact (hsig rfl).elim
    | get hsome _ => exact Nat.sub_le _ _
    | none _ _ => exact le_rfl
  signal := by
    intro e c hndl hndl' r h hpass
    cases hm.done hpass with
    | put v hroom _ => exact (h.wf.push_count hroom v).le
  takes := by
    intro c hndl hndl' r sig h hget hpass
    cases hm.done hpass with
    | put v hroom hnot => exact (hnot hget).elim
    | get hsome _ => exact (Nat.sub_add_cancel hsome).le
    | none hnot _ => exact (hnot hget).elim
  done := fun h hpass ↦ (hm.done hpass).rep h
  wait := fun h hpass ↦ (hm.wait hpass).1 ▸ h

/-- A free cell is a unit of `condWr`. -/
theorem PassesAre.counts_condWr (hm : PassesAre m toRing) (cap : ℕ) :
    Counts m (RingHndl.Rep cap) .condWr (fun hndl ↦ hndl.len - hndl.count)
      fun c ↦ (toRing c).BlockingPut where
  sleep := by
    intro e c hndl hndl' _ hpass
    obtain ⟨rfl, ⟨-, hput, -, hfull⟩ | ⟨hk, -⟩⟩ := hm.wait hpass
    · exact ⟨hput, Nat.sub_eq_zero_of_le hfull⟩
    · cases hk
  other := by
    intro e c hndl hndl' k' _ hpass hk
    obtain ⟨rfl, ⟨hk', -⟩ | ⟨-, -, hput, -⟩⟩ := hm.wait hpass
    · exact (hk hk').elim
    · exact ⟨hput, le_rfl⟩
  quiet := by
    intro e c hndl hndl' r sig h hpass hsig
    cases hm.done hpass with
    | put v hroom _ =>
        have := h.wf.push_count hroom v
        simp only [RingHndl.push_len]
        omega
    | get hsome _ => exact (hsig rfl).elim
    | none _ _ => exact le_rfl
  signal := by
    intro e c hndl hndl' r _ hpass
    cases hm.done hpass with
    | get hsome _ =>
        simp only [RingHndl.pop_len, RingHndl.pop_count]
        omega
  takes := by
    intro c hndl hndl' r sig h hput hpass
    cases hm.done hpass with
    | put v hroom _ =>
        have := h.wf.push_count hroom v
        simp only [RingHndl.push_len]
        omega
    | get hsome hnot => exact (hnot hput).elim
    | none _ hnot => exact (hnot hput).elim
  done := fun h hpass ↦ (hm.done hpass).rep h
  wait := fun h hpass ↦ (hm.wait hpass).1 ▸ h

end

/-! ## The condition of a semaphore -/

def SemCall.BlockingWait : SemCall → Prop
  | .wait timeout => timeout ≠ osaTimeoutNone
  | .signal => False

theorem semMonitor_counts (cap : ℕ) :
    Counts semMonitor (OsaSemHndl.WF cap) .cond OsaSemHndl.count SemCall.BlockingWait where
  sleep := by
    intro e c hndl hndl' _ hpass
    cases c with
    | wait timeout =>
        obtain ⟨rfl, hzero, ht⟩ := OsaSemHndl.osaSemWait_wait hpass
        exact ⟨ht, hzero⟩
    | signal => exact (OsaSemHndl.osaSemSignal_wait hpass).elim
  other := fun _ _ hk ↦ (hk rfl).elim
  quiet := by
    intro e c hndl hndl' r sig h hpass hsig
    cases c with
    | wait timeout =>
        obtain ⟨-, -, ⟨-, hcount⟩ | ⟨-, rfl, -⟩⟩ := OsaSemHndl.osaSemWait_done hpass
        · omega
        · exact le_rfl
    | signal =>
        obtain ⟨-, ⟨hk, -⟩ | ⟨-, rfl⟩⟩ := OsaSemHndl.osaSemSignal_done h hpass
        · exact (hsig hk).elim
        · exact le_rfl
  signal := by
    intro e c hndl hndl' r h hpass
    cases c with
    | wait timeout => cases (OsaSemHndl.osaSemWait_done hpass).1
    | signal =>
        obtain ⟨-, ⟨-, hcount, -⟩ | ⟨hk, -⟩⟩ := OsaSemHndl.osaSemSignal_done h hpass
        · exact hcount.le
        · cases hk
  takes := by
    intro c hndl hndl' r sig _ hwait hpass
    cases c with
    | wait timeout =>
        obtain ⟨-, -, ⟨-, hcount⟩ | ⟨-, -, ht⟩⟩ := OsaSemHndl.osaSemWait_done hpass
        · exact hcount.le
        · exact (hwait ht).elim
    | signal => exact hwait.elim
  done := fun h hpass ↦ h.done hpass
  wait := by
    intro e c hndl hndl' k' h hpass
    cases c with
    | wait timeout => exact (OsaSemHndl.osaSemWait_wait hpass).1 ▸ h
    | signal => exact (OsaSemHndl.osaSemSignal_wait hpass).elim

/-! ## Every run -/

section

variable {T : Type} [Fintype T] [DecidableEq T]

/-- Neither getters nor putters of a ring miss what they wait for. -/
theorem ring_wake_ups {α C : Type} [Inhabited α]
    {m : Monitor (RingHndl α) RingCond C (RingResult α)} {toRing : C → RingCall α}
    (hm : PassesAre m toRing) {cap : ℕ} {h₀ : RingHndl α} (hrep : h₀.Rep cap)
    {s : State T (RingHndl α) RingCond C (RingResult α)}
    (h : Reach (step m) Always (start T h₀) s) :
    NoLostWakeUp s .condRd s.shared.count (fun c ↦ (toRing c).BlockingGet) ∧
      NoLostWakeUp s .condWr (s.shared.len - s.shared.count)
        fun c ↦ (toRing c).BlockingPut := by
  constructor
  · exact .of_covered ((hm.counts_condRd cap).covered hrep h)
  · exact .of_covered ((hm.counts_condWr cap).covered hrep h)

theorem sem_wake_ups {cap : ℕ} {h₀ : OsaSemHndl} (hwf : h₀.WF cap)
    {s : State T OsaSemHndl SemCond SemCall ℤ}
    (h : Reach (step semMonitor) Always (start T h₀) s) :
    NoLostWakeUp s .cond s.shared.count SemCall.BlockingWait ∧
      s.shared.maxCount = cap ∧ s.shared.count ≤ cap := by
  have hcov := (semMonitor_counts cap).covered hwf h
  have hmax := hcov.inv.maxCount_eq
  exact ⟨.of_covered hcov, hmax, hmax ▸ hcov.inv.count_le⟩

end

/-- No wake-up of a queue, a message queue or a semaphore is lost, in any interleaving of any
number of threads. -/
theorem blocking_primitives_lose_no_wake_up (T : Type) [Fintype T] [DecidableEq T] :
    (∀ (maxLen : ℕ) (mem : Option (Vector ℤ maxLen)) (initStatus : ℤ) (h₀ : OsaQueHndl),
      1 ≤ maxLen → maxLen < 2 ^ 32 → osaQueCreate maxLen mem initStatus = (osaSok, h₀) →
      ∀ s : State T OsaQueHndl RingCond (RingCall ℤ) (RingResult ℤ),
        Reach (step queMonitor) Always (start T h₀) s →
        NoLostWakeUp s .condRd s.shared.count RingCall.BlockingGet ∧
        NoLostWakeUp s .condWr (s.shared.len - s.shared.count) RingCall.BlockingPut) ∧
    (∀ (cells : Vector MsgPtr osaMsgqLenMax) (initStatus : ℤ) (h₀ : OsaMsgqHndl),
      osaMsgqCreate cells initStatus = (osaSok, h₀) →
      ∀ s : State T OsaMsgqHndl RingCond MsgqCall (RingResult MsgPtr),
        Reach (step msgqMonitor) Always (start T h₀) s →
        NoLostWakeUp s .condRd s.shared.count (fun c ↦ c.toRing.BlockingGet) ∧
        NoLostWakeUp s .condWr (s.shared.len - s.shared.count) fun c ↦ c.toRing.BlockingPut) ∧
    (∀ (maxCount initVal : ℕ) (initStatus : ℤ) (h₀ : OsaSemHndl), maxCount < 2 ^ 32 →
      osaSemCreate maxCount initVal initStatus = (osaSok, h₀) →
      ∀ s : State T OsaSemHndl SemCond SemCall ℤ,
        Reach (step semMonitor) Always (start T h₀) s →
        NoLostWakeUp s .cond s.shared.count SemCall.BlockingWait ∧
        s.shared.maxCount = h₀.maxCount ∧ s.shared.count ≤ h₀.maxCount) := by
  refine ⟨?_, ?_, ?_⟩
  · intro maxLen mem initStatus h₀ hpos hlt hcreate s hs
    exact ring_wake_ups queMonitor_passesAre (osaQueCreate_rep hpos hlt hcreate).1 hs
  · intro cells initStatus h₀ hcreate s hs
    exact ring_wake_ups msgqMonitor_passesAre (osaMsgqCreate_rep hcreate).1 hs
  · intro maxCount initVal initStatus h₀ hlt hcreate s hs
    obtain rfl : _ = h₀ := congrArg Prod.snd hcreate
    exact sem_wake_ups (osaSemCreate_wf hlt) hs

/-- Two threads wait for a semaphore that was created empty; one signal arrives, and the thread
it chose has not run yet. -/
theorem blocking_primitives_lose_no_wake_up_two_waiters :
    ∃ s : State (Fin 3) OsaSemHndl SemCond SemCall ℤ,
      s.shared.count = 1 ∧ (s.phase 1).blockedOn .cond = true ∧
      NoLostWakeUp s .cond s.shared.count SemCall.BlockingWait := by
  obtain ⟨s, hs, hp⟩ := Reach.exists_of_exec (step semMonitor) Always
    (start (Fin 3) (osaSemCreate 1 0 osaSok).2)
    [.invoke 0 (.wait osaTimeoutForever), .enter 0 none, .invoke 1 (.wait osaTimeoutForever),
      .enter 1 none, .invoke 2 .signal, .enter 2 (some 0)]
    (fun s ↦ decide (s.shared.count = 1 ∧ (s.phase 1).blockedOn .cond = true)) (by decide)
  obtain ⟨hcount, hasleep⟩ := of_decide_eq_true hp
  refine ⟨s, hcount, hasleep, ?_⟩
  exact ((blocking_primitives_lose_no_wake_up (Fin 3)).2.2 1 0 osaSok _ (by decide) rfl s hs).1

end OsaBase
