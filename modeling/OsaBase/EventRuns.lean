import OsaBase.Event

/-!
# Waiters of an event

All the waiters of an event sleep on one condition and `OSA_EventSet` wakes one of them, which
may be one that the new flags do not concern. The rest are reached only when the woken thread
zeroes the flags, or were not concerned themselves. This is the exact condition under which no
run leaves a waiter asleep on flags that meet its request.
-/

open Transition Monitor

namespace OsaBase

abbrev EventState (T : Type) := State T OsaThreadEvent EventCond EventCall EventResult

variable {T : Type} {s s' : EventState T}

/-- Some thread sleeps although the flags meet its request, and nobody was woken who still has
to look at them. -/
def StuckWaiter (s : EventState T) : Prop :=
  (∃ u, ∃ c ∈ (s.phase u).blockedCall, c.metBy s.shared.eFlags = true) ∧
    ∀ t, (s.phase t).wokenCall = none

/-- A thread that was woken will zero the flag word when it takes the lock. -/
def WillZero (s : EventState T) : Prop :=
  ∃ u, ∃ c ∈ (s.phase u).wokenCall, c.zeroes s.shared.eFlags = true

/-- No sleeper is met by the flags, unless they are about to be zeroed. -/
def Attended (s : EventState T) : Prop :=
  (∀ u, ∀ c ∈ (s.phase u).blockedCall, c.metBy s.shared.eFlags = false) ∨ WillZero s

/-- Who sleeps is a retrieve that an empty flag word does not meet. -/
def EventCall.Waits (c : EventCall) : Prop :=
  c.metBy 0 = false ∧ ∃ req op timeout, c = .retrieve req op timeout

/-- `OSA_EventSet` makes the flag word `f` and its signal wakes `woken`: `f` meets the request
of no other sleeper, or it meets the consuming request of a woken thread. -/
def SetOk [DecidableEq T] (s : EventState T) (woken : Option T) (f : ℕ) : Prop :=
  (∀ u, woken ≠ some u → ∀ c ∈ (s.phase u).blockedCall, c.metBy f = false) ∨
    ∃ u, ∃ c ∈ (if woken = some u then (s.phase u).blockedCall else (s.phase u).wokenCall),
      c.zeroes f = true

/-- `OSA_EventRetrieve` looks at the flags, and would sleep if they are not met: they do not meet
its request above bit 31 only, or a woken thread will zero them. -/
def RetrieveOk (s : EventState T) (entry : Entry) (c : EventCall) (uTimeOutMsec : ℕ) : Prop :=
  entry = .expired ∨ (entry = .first ∧ uTimeOutMsec = osaNoSuspend) ∨
    c.metBy s.shared.eFlags = false ∨ c.aboveBit31 s.shared.eFlags = false ∨ WillZero s

/-- The steps that strand nobody. -/
def EventOk [DecidableEq T] (s : EventState T) : Label T EventCall → Prop
  | .enter t woken =>
    match (s.phase t).ready with
    | some (_, .set uEventFlags eOperation) =>
      ∀ f ∈ eventWord s.shared.eFlags uEventFlags eOperation, SetOk s woken f
    | some (entry, .retrieve uRequestedEvents eOperation uTimeOutMsec) =>
      RetrieveOk s entry (.retrieve uRequestedEvents eOperation uTimeOutMsec) uTimeOutMsec
    | none => True
  | .invoke _ _ | .spurious _ | .expire _ => True

section

variable [Fintype T]

instance (s : EventState T) : Decidable (WillZero s) :=
  inferInstanceAs (Decidable (∃ u, ∃ c ∈ (s.phase u).wokenCall, c.zeroes s.shared.eFlags = true))

instance (s : EventState T) : Decidable (StuckWaiter s) :=
  inferInstanceAs (Decidable
    ((∃ u, ∃ c ∈ (s.phase u).blockedCall, c.metBy s.shared.eFlags = true) ∧
      ∀ t, (s.phase t).wokenCall = none))

variable [DecidableEq T]

instance (s : EventState T) (woken : Option T) (f : ℕ) : Decidable (SetOk s woken f) :=
  inferInstanceAs (Decidable ((_ : Prop) ∨ _))

instance (s : EventState T) (entry : Entry) (c : EventCall) (timeout : ℕ) :
    Decidable (RetrieveOk s entry c timeout) :=
  inferInstanceAs (Decidable ((_ : Prop) ∨ _ ∨ _ ∨ _ ∨ _))

instance (s : EventState T) (l : Label T EventCall) : Decidable (EventOk s l) :=
  match l with
  | .enter t woken =>
    match h : (s.phase t).ready with
    | some (_, .set uEventFlags eOperation) =>
      decidable_of_iff
        (∀ f ∈ eventWord s.shared.eFlags uEventFlags eOperation, SetOk s woken f)
        (by simp only [EventOk, h])
    | some (entry, .retrieve uRequestedEvents eOperation uTimeOutMsec) =>
      decidable_of_iff
        (RetrieveOk s entry (.retrieve uRequestedEvents eOperation uTimeOutMsec) uTimeOutMsec)
        (by simp only [EventOk, h])
    | none => .isTrue (by simp only [EventOk, h])
  | .invoke _ _ | .spurious _ | .expire _ => .isTrue trivial

end

/-! ## What one step preserves -/

theorem eventMonitor_wait {e : Entry} {c : EventCall} {ev ev' : OsaThreadEvent} {k : EventCond}
    (h : eventMonitor.pass e c ev = .wait ev' k) : c.Waits := by
  cases c with
  | set flags op => exact (osaEventSet_ne_wait h).elim
  | retrieve req op timeout =>
      have hzero := (osaEventRetrieve_wait h).2.1
      exact ⟨EventCall.metBy_zero_of_isolatedFlags hzero, req, op, timeout, rfl⟩

/-- A set call never sleeps, so the thread that makes it was not woken. -/
theorem not_zeroes_of_ready_set {t : T} {e : Entry} {flags f : ℕ} {op : EventOperation}
    (hready : (s.phase t).ready = some (e, .set flags op)) :
    ∀ c ∈ (s.phase t).wokenCall, ¬ c.zeroes f = true := by
  intro c hc hz
  obtain ⟨-, rfl⟩ := Phase.eq_of_ready_of_wokenCall hready hc
  simp [EventCall.zeroes] at hz

section

variable [DecidableEq T]

/-- The flags are not touched and no sleeper is added. -/
theorem Attended.move {t : T} {x : Phase EventCall EventCond} {ev : OsaThreadEvent}
    {log : List (EventCall × EventResult)} (hs : Attended s) (hev : ev = s.shared)
    (hx : ∀ c ∈ x.blockedCall, c.metBy s.shared.eFlags = false)
    (ht : ∀ c ∈ (s.phase t).wokenCall, ¬ c.zeroes s.shared.eFlags = true) :
    Attended (⟨ev, Function.update s.phase t x, log⟩ : EventState T) := by
  subst hev
  rcases hs with hnone | hzero
  · exact Or.inl (Phase.forall_blockedCall_update hx fun u _ ↦ hnone u)
  · exact Or.inr (Phase.exists_wokenCall_update ht hzero)

theorem attended_retrieve_wait {t : T} {e : Entry} {req timeout : ℕ} {op : EventOperation}
    {ev : OsaThreadEvent} {k : EventCond} (hs : Attended s)
    (hready : (s.phase t).ready = some (e, .retrieve req op timeout))
    (hok : RetrieveOk s e (.retrieve req op timeout) timeout)
    (hpass : osaEventRetrieve e s.shared req op timeout = .wait ev k) :
    Attended (⟨ev, Function.update s.phase t (.blocked (.retrieve req op timeout) k), s.log⟩ :
      EventState T) := by
  obtain ⟨rfl, hzero, hexp, hfirst⟩ := osaEventRetrieve_wait hpass
  have hseen := (isolatedFlags_ne_zero_iff s.shared.eFlags req op timeout).not.mp
    (not_not.mpr hzero)
  have hself : ∀ c ∈ (s.phase t).wokenCall, ¬ c.zeroes s.shared.eFlags = true := by
    intro c hc hz
    obtain ⟨-, rfl⟩ := Phase.eq_of_ready_of_wokenCall hready hc
    exact ((EventCall.zeroes_retrieve_iff _ _ _ _).mp hz).2 hzero
  rcases hok with h | h | hmet | habove | hwill
  · exact (hexp h).elim
  · exact (hfirst h).elim
  · exact hs.move rfl (by rintro c hc; cases hc; exact hmet) hself
  · apply hs.move rfl _ hself
    rintro c hc
    cases hc
    rw [Bool.eq_false_iff]
    exact fun hmet ↦ hseen ⟨hmet, habove⟩
  · exact Or.inr (Phase.exists_wokenCall_update hself hwill)

theorem attended_retrieve_done {t : T} {e : Entry} {req timeout : ℕ} {op : EventOperation}
    {ev : OsaThreadEvent} {r : EventResult} {sig : Option EventCond}
    {log : List (EventCall × EventResult)} (hs : Attended s)
    (hw : SleepersSatisfy EventCall.Waits s.phase)
    (hready : (s.phase t).ready = some (e, .retrieve req op timeout))
    (hpass : osaEventRetrieve e s.shared req op timeout = .done ev r sig) :
    Attended (⟨ev, Function.update s.phase t .idle, log⟩ : EventState T) := by
  obtain ⟨-, ⟨hzero, -⟩ | ⟨hev, hend⟩⟩ := osaEventRetrieve_done hpass
  · refine Or.inl (Phase.forall_blockedCall_update (by rintro c hc; cases hc) fun u _ c hc ↦ ?_)
    simp only [hzero]
    exact (hw u c (Or.inl hc)).1
  · apply hs.move hev (by rintro c hc; cases hc)
    intro c hc hz
    obtain ⟨rfl, rfl⟩ := Phase.eq_of_ready_of_wokenCall hready hc
    rcases hend with hend | hend
    · cases hend
    · simp [hend] at hz

theorem attended_set_wake {t u : T} {e : Entry} {flags f : ℕ} {op : EventOperation}
    {d : EventCall} {k : EventCond} {log : List (EventCall × EventResult)}
    (hready : (s.phase t).ready = some (e, .set flags op)) (hok : SetOk s (some u) f)
    (hne : u ≠ t) (hsleep : s.phase u = .blocked d k) :
    Attended (⟨⟨true, f⟩, Function.update (Function.update s.phase t .idle) u
      (.signalled d k), log⟩ : EventState T) := by
  rcases hok with hnone | ⟨v, c, hc, hz⟩
  · left
    intro v
    by_cases hvu : v = u
    · subst hvu
      simp [Phase.blockedCall]
    · by_cases hvt : v = t
      · subst hvt
        simp [Function.update_of_ne hvu, Phase.blockedCall]
      · simp only [Function.update_of_ne hvu, Function.update_of_ne hvt]
        exact hnone v fun h ↦ hvu (Option.some.inj h).symm
  · right
    by_cases hvu : v = u
    · subst hvu
      refine ⟨v, c, ?_, hz⟩
      simpa [hsleep, Phase.blockedCall, Phase.wokenCall] using hc
    · have hvt : v ≠ t := by
        rintro rfl
        rw [if_neg fun h ↦ hvu (Option.some.inj h).symm] at hc
        exact not_zeroes_of_ready_set hready c hc hz
      refine ⟨v, c, ?_, hz⟩
      rw [if_neg fun h ↦ hvu (Option.some.inj h).symm] at hc
      simpa only [Function.update_of_ne hvu, Function.update_of_ne hvt] using hc

theorem not_attended_of_set {t u : T} {e : Entry} {flags f : ℕ} {op : EventOperation}
    {d : EventCall} {k : EventCond} {log : List (EventCall × EventResult)}
    (hready : (s.phase t).ready = some (e, .set flags op)) (hbad : ¬ SetOk s (some u) f)
    (hne : u ≠ t) (hsleep : s.phase u = .blocked d k) :
    ¬ Attended (⟨⟨true, f⟩, Function.update (Function.update s.phase t .idle) u
      (.signalled d k), log⟩ : EventState T) := by
  intro hatt
  apply hbad
  rcases hatt with hnone | ⟨v, c, hc, hz⟩
  · left
    intro v hv c hc
    have hvu : v ≠ u := fun h ↦ hv (congrArg some h.symm)
    have hvt : v ≠ t := by
      rintro rfl
      rw [Phase.blockedCall_of_ready hready] at hc
      cases hc
    apply hnone v c
    simpa only [Function.update_of_ne hvu, Function.update_of_ne hvt] using hc
  · right
    refine ⟨v, c, ?_, hz⟩
    by_cases hvu : v = u
    · subst hvu
      simpa [hsleep, Phase.blockedCall, Phase.wokenCall] using hc
    · rw [if_neg fun h ↦ hvu (Option.some.inj h).symm]
      simp only [Function.update_of_ne hvu] at hc
      by_cases hvt : v = t
      · subst hvt
        simp [Phase.wokenCall] at hc
      · rwa [Function.update_of_ne hvt] at hc

variable [Fintype T]

theorem attended_step {l : Label T EventCall} (hs : Attended s)
    (hw : SleepersSatisfy EventCall.Waits s.phase) (hok : EventOk s l)
    (h : step eventMonitor s l = some s') : Attended s' := by
  cases effect_of_step h with
  | invoke t c hidle =>
      apply hs.move rfl (by rintro d hd; cases hd)
      rintro d hd
      rw [hidle] at hd
      cases hd
  | spurious t c k hsleep =>
      apply hs.move rfl (by rintro d hd; cases hd)
      rintro d hd
      rw [hsleep] at hd
      cases hd
  | expire t c k hsleep _ =>
      apply hs.move rfl (by rintro d hd; cases hd)
      rintro d hd
      rw [hsleep] at hd
      cases hd
  | wait t e c a k hready hpass =>
      cases c with
      | set flags op => exact (osaEventSet_ne_wait hpass).elim
      | retrieve req op timeout =>
          simp only [EventOk, hready] at hok
          exact attended_retrieve_wait hs hready hok hpass
  | quiet t e c a r hready hpass =>
      cases c with
      | set flags op =>
          rcases osaEventSet_eq_done hpass with ⟨f, -, -, hsig⟩ | ⟨-, rfl, -⟩
          · cases hsig
          · exact hs.move rfl (by rintro d hd; cases hd) (not_zeroes_of_ready_set hready)
      | retrieve req op timeout => exact attended_retrieve_done hs hw hready hpass
  | lost t e c a r k _ _ hnone =>
      refine Or.inl fun u d hd ↦ ?_
      have hawake := hnone u
      cases hp : Function.update s.phase t .idle u with
      | blocked d' k' =>
          cases k
          cases k'
          simp [hp] at hawake
      | idle | entering | signalled | awoken | expired =>
          simp only [hp] at hd
          cases hd
  | wake t u e c d a r k hready hpass hne hsleep =>
      cases c with
      | set flags op =>
          simp only [EventOk, hready] at hok
          rcases osaEventSet_eq_done hpass with ⟨f, hf, rfl, -⟩ | ⟨-, -, hsig⟩
          · exact attended_set_wake hready (hok f hf) hne hsleep
          · cases hsig
      | retrieve req op timeout => cases (osaEventRetrieve_done hpass).1

/-! ## A step that is not admitted strands a waiter -/

theorem not_attended_of_retrieve {t : T} {e : Entry} {req timeout : ℕ} {op : EventOperation}
    {woken : Option T} (hready : (s.phase t).ready = some (e, .retrieve req op timeout))
    (hbad : ¬ RetrieveOk s e (.retrieve req op timeout) timeout)
    (h : step eventMonitor s (.enter t woken) = some s') : ¬ Attended s' := by
  simp only [RetrieveOk, not_or, Bool.not_eq_false] at hbad
  obtain ⟨hexp, hfirst, hmet, habove, hwill⟩ := hbad
  have hzero : isolatedFlags s.shared.eFlags req op = 0 := by
    by_contra hne
    have hseen := ((isolatedFlags_ne_zero_iff s.shared.eFlags req op timeout).mp hne).2
    rw [habove] at hseen
    cases hseen
  have hpass : eventMonitor.pass e (.retrieve req op timeout) s.shared =
      .wait s.shared .condition := by
    simp [eventMonitor, osaEventRetrieve, hexp, hzero, hfirst]
  simp only [step, hready, hpass, land] at h
  split at h
  · obtain rfl := Option.some.inj h
    rintro (hnone | hzeroes)
    · have := hnone t (.retrieve req op timeout) (by simp [Phase.blockedCall])
      rw [hmet] at this
      cases this
    · exact hwill (Phase.exists_wokenCall_of_update rfl hzeroes)
  · cases h

theorem not_attended_step {l : Label T EventCall} (hbad : ¬ EventOk s l)
    (h : step eventMonitor s l = some s') : ¬ Attended s' := by
  cases l with
  | invoke | spurious | expire => exact (hbad trivial).elim
  | enter t woken =>
      cases hready : (s.phase t).ready with
      | none =>
          simp only [EventOk, hready] at hbad
          exact (hbad trivial).elim
      | some p =>
          obtain ⟨e, c⟩ := p
          simp only [EventOk, hready] at hbad
          cases c with
          | retrieve req op timeout => exact not_attended_of_retrieve hready hbad h
          | set flags op =>
              push Not at hbad
              obtain ⟨f, hf, hset⟩ := hbad
              have hpass : eventMonitor.pass e (.set flags op) s.shared =
                  .done ⟨true, f⟩ ⟨osaSok, none⟩ (some .condition) := by
                simp only [eventMonitor, osaEventSet, Option.mem_def.mp hf]
              simp only [step, hready, hpass, land] at h
              obtain ⟨ph, hph, rfl⟩ := Option.map_eq_some_iff.mp h
              rcases wake_eq_some hph with ⟨rfl, rfl, hnone⟩ | ⟨u, d, rfl, hu, rfl⟩
              · refine (hset (Or.inl fun u _ d hd ↦ ?_)).elim
                have hut : u ≠ t := by
                  rintro rfl
                  rw [Phase.blockedCall_of_ready hready] at hd
                  cases hd
                have hawake := hnone u
                rw [Function.update_of_ne hut] at hawake
                cases hp : s.phase u with
                | blocked d' k =>
                    cases k
                    simp [hp] at hawake
                | idle | entering | signalled | awoken | expired =>
                    rw [hp] at hd
                    cases hd
              · have hut : u ≠ t := by
                  rintro rfl
                  simp at hu
                rw [Function.update_of_ne hut] at hu
                exact not_attended_of_set hready hset hut hu

/-- From a state in which a sleeper is overlooked, the woken threads can all run and leave it
asleep. -/
theorem stuckWaiter_of_not_attended (hw : SleepersSatisfy EventCall.Waits s.phase)
    (hs : ¬ Attended s) : ∃ s', Reach (step eventMonitor) Always s s' ∧ StuckWaiter s' := by
  simp only [Attended, not_or] at hs
  obtain ⟨hmet, hzero⟩ := hs
  push Not at hmet
  obtain ⟨u, d, hd, hmet⟩ := hmet
  have hquiet : ∀ t c, (s.phase t).wokenCall = some c → Quiet eventMonitor .resumed c s.shared := by
    intro t c hc
    obtain ⟨-, req, op, timeout, rfl⟩ := hw t c (Or.inr hc)
    have hkeep : ¬ (op.consumes = true ∧ isolatedFlags s.shared.eFlags req op ≠ 0) :=
      fun h ↦ hzero ⟨t, _, hc, (EventCall.zeroes_retrieve_iff _ _ _ timeout).mpr h⟩
    by_cases hseen : isolatedFlags s.shared.eFlags req op = 0
    · left
      exact ⟨.condition, by simp [eventMonitor, osaEventRetrieve, hseen]⟩
    · right
      have hop : op.consumes = false := by
        rw [Bool.eq_false_iff]
        exact fun hop ↦ hkeep ⟨hop, hseen⟩
      exact ⟨foundResult .resumed s.shared.eFlags timeout, by
        simp [eventMonitor, osaEventRetrieve, hseen, hop]⟩
  obtain ⟨s', hreach, hsh, hnone, hblocked⟩ :=
    exists_drained Finset.univ (fun t _ ↦ Finset.mem_univ t) hquiet
  refine ⟨s', hreach, ⟨u, d, hblocked u d hd, ?_⟩, hnone⟩
  rw [hsh]
  exact Bool.eq_true_of_not_eq_false hmet

/-! ## Every run -/

/-- A run whose steps are all admitted strands no waiter, and any step that is not admitted can
be continued until a waiter sleeps on flags that meet its request with nobody left to look. -/
theorem event_waiters_stuck_iff (T : Type) [Fintype T] [DecidableEq T] :
    (∀ s, Reach (step eventMonitor) EventOk (start T osaEventCreate) s → ¬ StuckWaiter s) ∧
    ∀ s l s', Reach (step eventMonitor) EventOk (start T osaEventCreate) s →
      step eventMonitor s l = some s' → ¬ EventOk s l →
      ∃ s'', Reach (step eventMonitor) Always s' s'' ∧ StuckWaiter s'' := by
  constructor
  · intro s hs hstuck
    have hinv : SleepersSatisfy EventCall.Waits s.phase ∧ Attended s := by
      apply hs.invariant (I := fun s ↦ SleepersSatisfy EventCall.Waits s.phase ∧ Attended s)
      · refine ⟨?_, Or.inl ?_⟩
        · rintro u c (hc | hc) <;> cases hc
        · rintro u c hc
          cases hc
      · rintro a l b ⟨hw, ha⟩ hok hstep
        exact ⟨sleepersSatisfy_step eventMonitor_wait hw hstep, attended_step ha hw hok hstep⟩
    obtain ⟨⟨u, c, hc, hmet⟩, hnone⟩ := hstuck
    rcases hinv.2 with hatt | ⟨v, d, hd, -⟩
    · rw [hatt u c hc] at hmet
      cases hmet
    · rw [hnone v] at hd
      cases hd
  · intro s l s' hs hstep hbad
    have hw := sleepersSatisfy eventMonitor_wait (hs.always.tail l trivial hstep)
    exact stuckWaiter_of_not_attended hw (not_attended_step hbad hstep)

/-- Thread 0 waits for bit 0 and thread 1 for bit 1; the signal for bit 1 wakes thread 0, which
goes back to sleep. -/
theorem event_set_strands_waiter :
    ¬ ∀ s : EventState (Fin 3), Reach (step eventMonitor) Always (start (Fin 3) osaEventCreate) s →
      ¬ StuckWaiter s := by
  intro h
  obtain ⟨s, hs, hstuck⟩ := Reach.exists_of_exec (step eventMonitor) Always
    (start (Fin 3) osaEventCreate)
    [.invoke 0 (.retrieve 1 .or osaSuspend), .enter 0 none,
      .invoke 1 (.retrieve 2 .or osaSuspend), .enter 1 none,
      .invoke 2 (.set 2 .or), .enter 2 (some 0), .enter 0 none]
    (fun s ↦ decide (StuckWaiter s)) (by decide)
  exact h s hs (of_decide_eq_true hstuck)

/-- When the first waiter zeroes the flags, the second one is rightly left asleep; when it leaves
them set, the second one can be stranded. -/
theorem event_waiters_stuck_two_waiters :
    (∃ s : EventState (Fin 3), (s.phase 1).blockedCall = some (.retrieve 2 .or osaSuspend) ∧
      s.shared.bSignaled = true ∧ ¬ StuckWaiter s) ∧
    ∃ s s' : EventState (Fin 3), s.shared.eFlags = 2 ∧
      Reach (step eventMonitor) Always s s' ∧ StuckWaiter s' := by
  constructor
  · obtain ⟨s, hs, hp⟩ := Reach.exists_of_exec (step eventMonitor) EventOk
      (start (Fin 3) osaEventCreate)
      [.invoke 0 (.retrieve 3 .orConsume osaSuspend), .enter 0 none,
        .invoke 1 (.retrieve 2 .or osaSuspend), .enter 1 none,
        .invoke 2 (.set 2 .or), .enter 2 (some 0)]
      (fun s ↦ decide ((s.phase 1).blockedCall = some (.retrieve 2 .or osaSuspend) ∧
        s.shared.bSignaled = true)) (by decide)
    obtain ⟨hsleep, hsignaled⟩ := of_decide_eq_true hp
    exact ⟨s, hsleep, hsignaled, (event_waiters_stuck_iff (Fin 3)).1 s hs⟩
  · obtain ⟨s, hs, hp⟩ := Reach.exists_of_exec (step eventMonitor) EventOk
      (start (Fin 3) osaEventCreate)
      [.invoke 0 (.retrieve 1 .or osaSuspend), .enter 0 none,
        .invoke 1 (.retrieve 2 .or osaSuspend), .enter 1 none, .invoke 2 (.set 2 .or)]
      (fun s ↦ (step eventMonitor s (.enter 2 (some 0))).any (fun s' ↦ s'.shared.eFlags == 2) &&
        !decide (EventOk s (.enter 2 (some 0)))) (by decide)
    obtain ⟨hany, hbad⟩ := Bool.and_eq_true_iff.mp hp
    obtain ⟨s', hstep, hflags⟩ := (Option.any_eq_true _ _).mp hany
    obtain ⟨s'', hreach, hstuck⟩ := (event_waiters_stuck_iff (Fin 3)).2 s _ s' hs hstep
      (by simpa using hbad)
    exact ⟨s', s'', by simpa using hflags, hreach, hstuck⟩

end

end OsaBase
