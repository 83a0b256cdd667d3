import OsaBase.Client.Steps

/-!
# Who uses the client handle when it is freed

`OSA_client_destory` waits for `CLIENT_ABOR`, which `OSA_client_processThr` stores when it leaves
its loop. It does not wait for the heart thread, and the process thread has returns of its own that
free the handle.
-/

open Transition

namespace OsaBase.Client

open Server (ClientStatus)

variable {param : ClientParam} {s s' : State} {l : Label}

/-- `OSA_client_destory` can come to its end. -/
def CanReturn (param : ClientParam) (s : State) : Prop :=
  ∃ t, Reach (step param) Always s t ∧ t.app = .returned

/-- The handle is freed once, by `OSA_client_destory`, which comes to that once it has stored
`CLIENT_DISCONNECT`, and it is not used afterwards. -/
structure LifetimeLaw (param : ClientParam) (s : State) : Prop where
  frees : s.frees = if s.app = .returned then [.app] else []
  faults : s.faults = []
  returns : s.app.stopped = true → CanReturn param s

/-- The stop comes while the process thread is in its loop, and no receive fails after it that makes
the thread connect again. -/
def ReturnOk (param : ClientParam) (s : State) : Label → Prop
  | .app _ => s.app = .setDisconnect → s.proc.pc.phase = .receiving
  | .proc (.turn ok) => s.app.stopped = true → ok = true ∨ param.reconFlag ≠ 1
  | _ => True

/-- The process thread has no reason to return early, and the heart thread has returned when the
handle is freed. -/
def FreeOk (param : ClientParam) (s : State) : Label → Prop
  | .create ok => ok = true
  | .proc .next => s.proc.pc = .testEmptyBuf → param.getEmptybuf = true
  | .app _ => s.app = .free → s.heart.over = true
  | _ => True

def LifetimeOk (param : ClientParam) (s : State) (l : Label) : Prop :=
  ReturnOk param s l ∧ FreeOk param s l

instance (param : ClientParam) (s : State) : (l : Label) → Decidable (ReturnOk param s l)
  | .app _ | .proc (.turn _) => inferInstanceAs (Decidable (_ → _))
  | .sendMsg | .destory | .heart _ | .create _ | .proc .next | .proc (.socket _)
  | .proc (.connect _) | .proc .stop => inferInstanceAs (Decidable True)

instance (param : ClientParam) (s : State) : (l : Label) → Decidable (FreeOk param s l)
  | .app _ | .proc .next => inferInstanceAs (Decidable (_ → _))
  | .create ok => inferInstanceAs (Decidable (ok = true))
  | .sendMsg | .destory | .heart _ | .proc (.socket _) | .proc (.connect _) | .proc (.turn _)
  | .proc .stop => inferInstanceAs (Decidable True)

instance (param : ClientParam) (s : State) (l : Label) : Decidable (LifetimeOk param s l) :=
  inferInstanceAs (Decidable (_ ∧ _))

/-! ## The way to the end of `OSA_client_destory` -/

/-- After the stop the process thread is in its loop, with a status that ends it, or behind it. -/
def ReturnInv (s : State) : Prop :=
  s.app.stopped = true →
    s.proc.pc.phase ≠ .connecting ∧ (s.proc.pc.phase = .receiving → s.status ≠ .connect)

theorem ReturnInv.step (hs : ReturnInv s) (hok : ReturnOk param s l)
    (hstep : Client.step param s l = some s') : ReturnInv s' := by
  intro hstop
  cases step_cases hstep with
  | fault | heart => exact hs hstop
  | app l t hfree h =>
      obtain ⟨hproc, ⟨hstop, hstatus⟩ | ⟨hpc, ⟨sent, rfl⟩, hstatus⟩⟩ := h.stopped hstop
      · rw [hproc, hstatus]
        exact hs hstop
      · rw [hproc, hstatus, hok hpc]
        exact ⟨by simp, by simp⟩
  | create hfree hpc | createFailed hfree hpc =>
      exact ((hs hstop).1 (by rw [hpc]; rfl)).elim
  | proc a t hfree h =>
      rw [h.frees.1] at hstop
      obtain ⟨hphase, hst⟩ := hs hstop
      cases h.phase with
      | connect hp | enter hp => exact (hphase hp).elim
      | receive hp hst' hp' => simpa [hp', hst'] using hst hp
      | reconnect ha hrecon =>
          subst ha
          simpa [hrecon] using hok hstop
      | leave _ _ _ hp' | go _ _ hp' => simp [hp']

/-- The steps of the process thread to its end. -/
def ProcPc.rank : ProcPc → ℕ
  | .conn .publishLocked | .conn .receive => 5
  | .testStatus => 4
  | .conn .quit => 3
  | .conn .quitClose => 2
  | .setAbor => 1
  | _ => 0

def AppPc.rank : AppPc → ℕ
  | .testStatus => 3
  | .deleteMutex => 2
  | .free => 1
  | _ => 0

variable (param) in
/-- A process thread that has not ended is not kept in its loop. -/
theorem proc_nearer (hphase : s.proc.pc.phase ≠ .connecting)
    (hst : s.proc.pc.phase = .receiving → s.status ≠ .connect) (hdone : s.proc.pc ≠ .done) :
    ∃ a s', s.osaClientProcessThr param a = some s' ∧ ReturnOk param s (.proc a) ∧
      s'.app = s.app ∧ s'.proc.pc.rank < s.proc.pc.rank := by
  cases hpc : s.proc.pc with
  | testStatus =>
      have hst' : s.status ≠ .connect := hst (by rw [hpc]; rfl)
      refine ⟨.next, s.goto (.conn .quit), ?_, trivial, rfl, ?_⟩
      · simp [State.osaClientProcessThr, hpc, hst']
      · simp [State.goto, ProcPc.rank]
  | setAbor =>
      refine ⟨.next, { s.goto .done with status := .abor }, ?_, trivial, rfl, ?_⟩
      · simp [State.osaClientProcessThr, hpc]
      · simp [State.goto, ProcPc.rank]
  | conn pc =>
      cases pc with
      | publishLocked =>
          refine ⟨.next, { s.goto .testStatus with socket := s.proc.clientSocket }, ?_, trivial,
            rfl, ?_⟩
          · simp [State.osaClientProcessThr, hpc, State.connStep, OsaBase.osaClientProcessThr,
              FdTable.applyOption, State.goto, ProcPc.ofConn]
          · simp [State.goto, ProcPc.rank]
      | receive =>
          refine ⟨.turn true, s.goto .testStatus, ?_, fun _ ↦ Or.inl rfl, rfl, ?_⟩
          · simp [State.osaClientProcessThr, hpc, State.connStep, OsaBase.osaClientProcessThr,
              FdTable.applyOption, State.goto, ProcPc.ofConn]
          · simp [State.goto, ProcPc.rank]
      | quit =>
          refine ⟨.next, { s.goto (.conn .quitClose) with socket := -1 }, ?_, trivial, rfl, ?_⟩
          · simp [State.osaClientProcessThr, hpc, State.connStep, OsaBase.osaClientProcessThr,
              FdTable.applyOption, State.goto, ProcPc.ofConn]
          · simp [State.goto, ProcPc.rank]
      | quitClose =>
          refine ⟨.next, { s.goto .setAbor with table := ⟨Function.update s.table.fds
            s.proc.clientSocket .closed, s.table.connections⟩ }, ?_, trivial, rfl, ?_⟩
          · simp [State.osaClientProcessThr, hpc, State.connStep, OsaBase.osaClientProcessThr,
              FdTable.applyOption, FdTable.apply, State.goto, ProcPc.ofConn]
          · simp [State.goto, ProcPc.rank]
      | repeatConnect | closeOld | create | connect | publish | unset | done =>
          simp [hpc, ProcPc.phase] at hphase
  | done => exact (hdone hpc).elim
  | start | createHeart | testEmptyBuf | deleteMutex | free | setConnect | quit =>
      simp [hpc, ProcPc.phase] at hphase

variable (param) in
/-- A stopped client whose process thread is on its way out comes nearer to the end. -/
theorem nearer (hs : Inv s) (hreturn : ReturnInv s) (hstop : s.app.stopped = true)
    (happ : s.app ≠ .returned) :
    ∃ l s', step param s l = some s' ∧ ReturnOk param s l ∧ s'.app.stopped = true ∧
      s'.proc.pc.rank + s'.app.rank < s.proc.pc.rank + s.app.rank := by
  obtain ⟨hphase, hst⟩ := hreturn hstop
  have hfree : s.frees = [] := by
    by_contra hfreed
    rcases hs.freed hfreed with h | h
    · exact hphase (by rw [h]; rfl)
    · exact happ h
  cases hpc : s.app with
  | testStatus =>
      by_cases habor : s.status = .abor
      · refine ⟨.app true, { s with app := .deleteMutex }, ?_, ?_, rfl, ?_⟩
        · simp [step, guard_of_nil hfree, State.osaClientApp, hpc, habor]
        · simp [ReturnOk, hpc]
        · simp [AppPc.rank]
      · obtain ⟨a, s', hact, hok, hsame, hlt⟩ :=
          proc_nearer param hphase hst (mt hs.abor.mpr habor)
        refine ⟨.proc a, s', ?_, hok, by rw [hsame, hpc]; rfl, ?_⟩
        · rw [step, guard_of_nil hfree, hact]
        · rw [hsame, hpc]
          omega
  | deleteMutex =>
      refine ⟨.app true, { s with app := .free }, ?_, ?_, rfl, ?_⟩
      · simp [step, guard_of_nil hfree, State.osaClientApp, hpc]
      · simp [ReturnOk, hpc]
      · simp [AppPc.rank]
  | free =>
      refine ⟨.app true, { s with app := .returned, frees := s.frees ++ [.app] }, ?_, ?_, rfl, ?_⟩
      · simp [step, guard_of_nil hfree, State.osaClientApp, hpc]
      · simp [ReturnOk, hpc]
      · simp [AppPc.rank]
  | returned => exact (happ hpc).elim
  | idle | sendMsg | log | setDisconnect => simp [hpc, AppPc.stopped] at hstop

theorem canReturn (hs : Inv s) (hreturn : ReturnInv s) (hstop : s.app.stopped = true) :
    CanReturn param s := by
  induction hn : s.proc.pc.rank + s.app.rank using Nat.strong_induction_on generalizing s with
  | _ n ih =>
      by_cases happ : s.app = .returned
      · exact ⟨s, .refl, happ⟩
      · obtain ⟨l, s', hstep, hok, hstop', hlt⟩ := nearer param hs hreturn hstop happ
        obtain ⟨t, ht, hreturned⟩ :=
          ih _ (hn ▸ hlt) (hs.step hstep) (hreturn.step hok hstep) hstop' rfl
        exact ⟨t, (Reach.tail _ .refl trivial hstep).trans ht, hreturned⟩

/-! ## A stop that `OSA_client_destory` waits for in vain -/

/-- The process thread is connecting, or in its loop with a stop that was taken back. -/
structure Stuck (s : State) : Prop where
  app : s.app = .testStatus
  phase : s.proc.pc.phase = .connecting ∨
    (s.proc.pc.phase = .receiving ∧ s.status = .connect)

theorem Stuck.step (hs : Stuck s) (hinv : Inv s) (hstep : Client.step param s l = some s') :
    Stuck s' := by
  cases step_cases hstep with
  | fault | heart => exact ⟨hs.app, hs.phase⟩
  | app l t hfree h =>
      cases h with
      | wait => exact hs
      | abor sent hpc hst =>
          have hdone := hinv.abor.mp hst
          rcases hs.phase with h | ⟨h, -⟩ <;> simp [hdone, ProcPc.phase] at h
      | call hpc | destory hpc | sendMsg _ _ _ hpc | sent _ _ hpc | log _ hpc
      | setDisconnect _ hpc | deleteMutex _ hpc | free _ hpc => simp [hs.app] at hpc
  | create | createFailed => exact ⟨hs.app, Or.inl rfl⟩
  | proc a t hfree h =>
      refine ⟨h.frees.1.trans hs.app, ?_⟩
      cases h.phase with
      | connect _ _ hphase | reconnect _ _ _ _ hphase => exact Or.inl hphase
      | enter _ hst hphase => exact Or.inr ⟨hphase, hst⟩
      | receive hphase hst hphase' => simpa [hphase, hphase', hst] using hs.phase
      | leave hst hphase => simpa [hphase, hst] using hs.phase
      | go hphase => simpa [hphase] using hs.phase

theorem Stuck.not_canReturn (hs : Stuck s) (hinv : Inv s) : ¬ CanReturn param s := by
  rintro ⟨t, ht, hreturned⟩
  have hstuck : Inv t ∧ Stuck t :=
    ht.invariant (I := fun s ↦ Inv s ∧ Stuck s) ⟨hinv, hs⟩
      fun a l b h _ hstep ↦ ⟨h.1.step hstep, h.2.step h.1 hstep⟩
  simp [hstuck.2.app] at hreturned

/-! ## Nobody uses the freed handle -/

/-- The process thread is on its early return. -/
def ProcPc.quits : ProcPc → Bool
  | .deleteMutex | .free | .quit => true
  | _ => false

structure FreeInv (s : State) : Prop where
  frees : s.frees = if s.app = .returned then [.app] else []
  faults : s.faults = []
  proc : s.proc.pc.quits = false
  heart : s.app = .returned → s.heart.over = true

theorem FreeInv.returned (hs : FreeInv s) (hfreed : s.frees ≠ []) : s.app = .returned := by
  by_contra happ
  exact hfreed (by rw [hs.frees, if_neg happ])

theorem FreeInv.not_returned (hs : FreeInv s) (hfree : s.frees = []) : s.app ≠ .returned := by
  intro happ
  rw [hs.frees, if_pos happ] at hfree
  cases hfree

theorem FreeInv.uses_nothing (hs : FreeInv s) (hinv : Inv s) (hfreed : s.frees ≠ [])
    (actor : Actor) : s.uses actor = false := by
  have happ := hs.returned hfreed
  cases actor with
  | app => simp [State.uses, happ]
  | proc => simp [State.uses, hinv.waited (by rw [happ]; rfl), ProcPc.uses]
  | heart => simp [State.uses, hs.heart happ]

theorem FreeInv.app (hs : FreeInv s) (hok : FreeOk param s l) (hfree : s.app = .idle ∨ s.frees = [])
    (h : AppStep s l s') : FreeInv s' := by
  have hnil : s.frees = [] := by
    rcases hfree with hidle | hnil
    · rw [hs.frees, if_neg (by simp [hidle])]
    · exact hnil
  cases h with
  | call | destory | sendMsg | sent | log | setDisconnect | abor | deleteMutex =>
      exact ⟨hnil, hs.faults, hs.proc, fun h ↦ (by cases h)⟩
  | wait => exact hs
  | free sent hpc => exact ⟨by simp [hnil], hs.faults, hs.proc, fun _ ↦ hok hpc⟩

theorem FreeInv.proc_step (hs : FreeInv s) {a : ClientAnswer} (hok : FreeOk param s (.proc a))
    (h : ProcStep param s a s') : FreeInv s' := by
  cases h with
  | begin =>
      refine ⟨hs.frees, hs.faults, ?_, hs.heart⟩
      by_cases htype : param.clientType = .msgType <;> simp [State.goto, htype, ProcPc.quits]
  | noEmptyBuf hpc hbuf => simp [hok hpc] at hbuf
  | deleteMutex hpc | free hpc => simpa [hpc, ProcPc.quits] using hs.proc
  | conn _ _ pc' =>
      refine ⟨hs.frees, hs.faults, ?_, hs.heart⟩
      cases pc' <;> rfl
  | emptyBuf | setConnect | connected | stopped | setAbor =>
      exact ⟨hs.frees, hs.faults, rfl, hs.heart⟩

theorem FreeInv.step (hs : FreeInv s) (hinv : Inv s) (hok : FreeOk param s l)
    (hstep : Client.step param s l = some s') : FreeInv s' := by
  cases step_cases hstep with
  | fault l actor hfreed huses => simp [hs.uses_nothing hinv hfreed actor] at huses
  | app l t hfree h => exact hs.app hok hfree h
  | heart sent heart hfree =>
      exact ⟨hs.frees, hs.faults, hs.proc, fun h ↦ (hs.not_returned hfree h).elim⟩
  | create hfree =>
      exact ⟨hs.frees, hs.faults, rfl, fun h ↦ (hs.not_returned hfree h).elim⟩
  | createFailed => cases hok
  | proc a t hfree h => exact hs.proc_step hok h

/-- In a run in which only `OSA_client_destory` has a reason to free the handle, and the heart
thread has returned by then, nobody uses the freed handle. -/
theorem freeInv_of_reach (h : Reach (step param) (FreeOk param) start s) : FreeInv s := by
  have hboth : Inv s ∧ FreeInv s := by
    refine h.invariant (I := fun s ↦ Inv s ∧ FreeInv s) ⟨start_inv, ?_⟩ ?_
    · exact ⟨rfl, rfl, rfl, fun h ↦ (by cases h)⟩
    · exact fun _ _ _ hs hok hstep ↦ ⟨hs.1.step hstep, hs.2.step hs.1 hok hstep⟩
  exact hboth.2

/-! ## Runs that break the law -/

theorem LifetimeLaw.not_of_proc (hfrees : s.frees = [.proc]) : ¬ LifetimeLaw param s := by
  intro hlaw
  have hboth := hlaw.frees
  rw [hfrees] at hboth
  split at hboth <;> cases hboth

/-- A process thread on its early return frees the handle. -/
theorem quits_frees (hfree : s.frees = []) (hpc : s.proc.pc = .deleteMutex) :
    ∃ t, Reach (step param) Always s t ∧ ¬ LifetimeLaw param t := by
  have hdelete : step param s (.proc .next) = some (s.goto .free) := by
    simp [step, guard_of_nil hfree, State.osaClientProcessThr, hpc]
  have hfrees : step param (s.goto .free) (.proc .next) =
      some { s.goto .quit with frees := s.frees ++ [.proc] } := by
    rw [step, guard_of_nil (s := s.goto .free) hfree]
    rfl
  refine ⟨_, .tail _ (.tail _ .refl trivial hdelete) trivial hfrees, ?_⟩
  exact LifetimeLaw.not_of_proc (by simp [hfree])

/-- A heart thread that has not returned uses the freed handle. -/
theorem heart_faults (hfreed : s.frees ≠ []) (hover : s.heart.over = false) :
    ∃ t, Reach (step param) Always s t ∧ ¬ LifetimeLaw param t := by
  have hnext : ∃ s', s.osaHeartProcess true = some s' := by
    unfold State.osaHeartProcess
    cases hpc : s.heart with
    | start | testStatus => exact ⟨_, rfl⟩
    | sendMsg pc =>
        simp only
        cases s.osaClientSendMsg true pc <;> exact ⟨_, rfl⟩
    | none | done => simp [hpc, HeartPc.over] at hover
  obtain ⟨s', hs'⟩ := hnext
  have hstep : step param s (.heart true) = some { s with faults := s.faults ++ [.heart] } := by
    simp [step, State.guard, State.uses, hover, hfreed, hs']
  exact ⟨_, .tail _ .refl trivial hstep, fun hlaw ↦ by simpa using hlaw.faults⟩

theorem LifetimeLaw.not_of_fault (hfaults : s.faults ≠ []) : ¬ LifetimeLaw param s :=
  fun hlaw ↦ hfaults hlaw.faults

theorem broken_of_not_freeOk (hs : Inv s) (hstep : step param s l = some s')
    (hnot : ¬ FreeOk param s l) :
    ∃ t, Reach (step param) Always s' t ∧ ¬ LifetimeLaw param t := by
  cases step_cases hstep with
  | fault => exact ⟨_, .refl, LifetimeLaw.not_of_fault (by simp)⟩
  | heart => exact (hnot trivial).elim
  | create => exact (hnot rfl).elim
  | createFailed hfree hpc => exact quits_frees hfree rfl
  | app l t hfree h =>
      cases h with
      | free sent hpc =>
          simp only [FreeOk, hpc, true_implies, Bool.not_eq_true] at hnot
          exact heart_faults (by simp) hnot
      | call | destory => exact (hnot trivial).elim
      | sendMsg _ _ _ hpc | sent _ _ hpc | log _ hpc | setDisconnect _ hpc | wait _ hpc
      | abor _ hpc | deleteMutex _ hpc => simp [FreeOk, hpc] at hnot
  | proc a t hfree h =>
      cases h with
      | noEmptyBuf hpc => exact quits_frees (hs.frees_nil (by simp [hpc]) (by simp [hpc])) rfl
      | emptyBuf hpc hbuf => exact (hnot fun _ ↦ hbuf).elim
      | begin hpc | deleteMutex hpc | free hpc | setConnect hpc | connected hpc | stopped hpc
      | setAbor hpc => simp [FreeOk, hpc] at hnot
      | conn a _ _ _ _ _ hpc => cases a <;> simp [FreeOk, hpc] at hnot

theorem broken_of_not_returnOk (hs : Inv s) (hstep : step param s l = some s')
    (hnot : ¬ ReturnOk param s l) :
    ∃ t, Reach (step param) Always s' t ∧ ¬ LifetimeLaw param t := by
  have hinv := hs.step hstep
  cases step_cases hstep with
  | fault => exact ⟨_, .refl, LifetimeLaw.not_of_fault (by simp)⟩
  | heart | create | createFailed => exact (hnot trivial).elim
  | app l t hfree h =>
      cases h with
      | setDisconnect sent hpc =>
          have hphase : s.proc.pc.phase ≠ .receiving := by simpa [ReturnOk, hpc] using hnot
          have hconnecting : s.proc.pc.phase = .connecting := by
            have hleaving := (hs.running (by rw [hpc]; rfl)).1
            cases hp : s.proc.pc.phase <;> simp [hp] at hphase hleaving ⊢
          have hstuck : Stuck { s with status := .disconnect, app := .testStatus } :=
            ⟨rfl, Or.inl hconnecting⟩
          exact ⟨_, .refl, fun hlaw ↦ hstuck.not_canReturn hinv (hlaw.returns rfl)⟩
      | call | destory => exact (hnot trivial).elim
      | sendMsg _ _ _ hpc | sent _ _ hpc | log _ hpc | wait _ hpc | abor _ hpc
      | deleteMutex _ hpc | free _ hpc => simp [ReturnOk, hpc] at hnot
  | proc a t hfree h =>
      cases h with
      | conn a pc pc' clientSocket table socket hpc hnext =>
          cases hnext with
          | turnFailed hrecon =>
              have hstop : s.app.stopped = true := by
                by_contra hstop
                exact hnot fun h ↦ (hstop h).elim
              have hwaited : s.app.waited = false := by
                by_contra hw
                simpa [hpc] using hs.waited (by simpa using hw)
              have happ : s.app = .testStatus := by
                cases hpc : s.app <;> simp [hpc, AppPc.stopped, AppPc.waited] at hstop hwaited ⊢
              have hstuck : Stuck { s with
                  table := table, socket := socket, proc := ⟨.conn .unset, clientSocket⟩ } :=
                ⟨happ, Or.inl rfl⟩
              exact ⟨_, .refl, fun hlaw ↦ hstuck.not_canReturn hinv (hlaw.returns hstop)⟩
          | turn ok hok => exact (hnot fun _ ↦ hok).elim
          | repeatConnect | closeOld | noSocket | socket | connect | connectFailed | publish
          | publishLocked | unset | quit | quitClose => exact (hnot trivial).elim
      | begin | emptyBuf | noEmptyBuf | deleteMutex | free | setConnect | connected | stopped
      | setAbor => exact (hnot trivial).elim

theorem returnInv_of_reach (h : Reach (step param) (ReturnOk param) start s) : ReturnInv s :=
  h.invariant (fun h ↦ by cases h) fun _ _ _ hs hok hstep ↦ hs.step hok hstep

/-- The handle is freed once and not used afterwards in every run whose steps meet the condition; a
step that does not leads to a state that breaks the law. -/
theorem client_freed_once : (∀ s, Reach (step param) (LifetimeOk param) start s →
      LifetimeLaw param s) ∧
    ∀ s l s', Reach (step param) Always start s → step param s l = some s' →
      ¬ LifetimeOk param s l → ∃ t, Reach (step param) Always s' t ∧ ¬ LifetimeLaw param t := by
  constructor
  · intro s hreach
    have hfree : FreeInv s := freeInv_of_reach (hreach.mono fun _ _ hok ↦ hok.2)
    have hreturn : ReturnInv s := returnInv_of_reach (hreach.mono fun _ _ hok ↦ hok.1)
    exact ⟨hfree.frees, hfree.faults, canReturn (inv_of_reach hreach) hreturn⟩
  · intro s l s' hreach hstep hnot
    rcases not_and_or.mp hnot with hreturn | hfree
    · exact broken_of_not_returnOk (inv_of_reach hreach) hstep hreturn
    · exact broken_of_not_freeOk (inv_of_reach hreach) hstep hfree

theorem client_freed_once_run : ∃ s, s.frees = [.app] ∧ LifetimeLaw msgClient s := by
  obtain ⟨s, hreach, hs⟩ := Reach.exists_of_exec (step msgClient) (LifetimeOk msgClient) start
    (connectRun 3 ++ destoryRun ++ [.heart true, .heart true] ++ quitRun ++ returnRun)
    (fun s ↦ s.frees = [.app]) (by decide)
  exact ⟨s, of_decide_eq_true hs, client_freed_once.1 s hreach⟩

/-- The heart thread is in its first `sleep` when the handle is freed. -/
theorem client_freed_used : ∃ s, Reach (step msgClient) Always start s ∧
    ¬ LifetimeLaw msgClient s := by
  obtain ⟨s, hreach, hs⟩ := Reach.exists_of_exec (step msgClient) Always start
    (connectRun 3 ++ destoryRun ++ quitRun ++ returnRun ++ [.heart true])
    (fun s ↦ s.faults = [.heart]) (by decide)
  have hfaults : s.faults = [.heart] := of_decide_eq_true hs
  exact ⟨s, hreach, LifetimeLaw.not_of_fault (by simp [hfaults])⟩

end OsaBase.Client
