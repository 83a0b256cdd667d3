import OsaBase.Client.Model
import OsaBase.Lib.Runs

/-!
# What a step of the client can do

The process thread connects, receives until the status is no longer `CLIENT_CONNECT`, and leaves.
From its loop it goes back to connecting without a look at the status.
-/

open Transition

namespace OsaBase.Client

open Server (ClientStatus)

variable {param : ClientParam} {s s' : State}

/-! ## The steps of the threads -/

/-- The places to which the connection handling goes on. -/
inductive ConnNext (param : ClientParam) : ClientPc → ClientAnswer → ClientPc → Prop
  | repeatConnect : ConnNext param .repeatConnect .next .closeOld
  | closeOld : ConnNext param .closeOld .next .create
  | noSocket (fd) : fd < 3 → param.reconFlag = 1 →
      ConnNext param .create (.socket fd) .repeatConnect
  | socket (fd) : ConnNext param .create (.socket fd) .connect
  | connect (ok) : ok = true ∨ param.reconFlag ≠ 1 → ConnNext param .connect (.connect ok) .publish
  | connectFailed : param.reconFlag = 1 → ConnNext param .connect (.connect false) .repeatConnect
  | publish : ConnNext param .publish .next .publishLocked
  | publishLocked : ConnNext param .publishLocked .next .receive
  | turn (ok) : ok = true ∨ param.reconFlag ≠ 1 → ConnNext param .receive (.turn ok) .receive
  | turnFailed : param.reconFlag = 1 → ConnNext param .receive (.turn false) .unset
  | unset : ConnNext param .unset .next .repeatConnect
  | quit : ConnNext param .quit .next .quitClose
  | quitClose : ConnNext param .quitClose .next .done

theorem connNext {pc : ClientPc} {clientSocket : ℤ} {a : ClientAnswer} {act : OwnerAct ClientThr}
    (hstop : a ≠ .stop)
    (hact : OsaBase.osaClientProcessThr param.reconFlag ⟨pc, clientSocket⟩ a = some act) :
    ConnNext param pc a act.next.pc := by
  cases a with
  | next =>
      simp only [OsaBase.osaClientProcessThr] at hact
      split at hact
      · cases hact; exact .repeatConnect
      · split at hact <;> cases hact <;> exact .closeOld
      · cases hact; exact .publish
      · cases hact; exact .publishLocked
      · cases hact; exact .unset
      · cases hact; exact .quit
      · cases hact; exact .quitClose
      · cases hact
  | socket fd =>
      simp only [OsaBase.osaClientProcessThr] at hact
      split at hact
      · next hpc =>
        obtain ⟨rfl, -⟩ := hpc
        split at hact <;> cases hact
        · next hfail => exact .noSocket fd hfail.1 hfail.2
        · exact .socket fd
      · cases hact
  | connect ok =>
      simp only [OsaBase.osaClientProcessThr] at hact
      split at hact
      · next hpc =>
        subst hpc
        split at hact
        · next hok => cases hact; exact .connect ok (Or.inl hok)
        · next hok =>
          obtain rfl : ok = false := Bool.eq_false_iff.mpr hok
          split at hact <;> cases hact
          · next hrecon => exact .connectFailed hrecon
          · next hrecon => exact .connect false (Or.inr hrecon)
      · cases hact
  | turn ok =>
      simp only [OsaBase.osaClientProcessThr] at hact
      split at hact
      · next hpc =>
        subst hpc
        split at hact <;> cases hact
        · next hfail =>
          obtain ⟨hok, hrecon⟩ := hfail
          obtain rfl : ok = false := Bool.eq_false_iff.mpr hok
          exact .turnFailed hrecon
        · next hfail =>
          refine .turn ok (Or.imp_right ?_ (Bool.eq_false_or_eq_true ok))
          exact fun hok hrecon ↦ hfail ⟨by simp [hok], hrecon⟩
      · cases hact
  | stop => exact (hstop rfl).elim

/-- A step of `OSA_client_processThr`. -/
inductive ProcStep (param : ClientParam) (s : State) : ClientAnswer → State → Prop
  | begin : s.proc.pc = .start →
      ProcStep param s .next
        (s.goto (if param.clientType = .msgType then .createHeart else .testEmptyBuf))
  | emptyBuf : s.proc.pc = .testEmptyBuf → param.getEmptybuf = true →
      ProcStep param s .next (s.goto (.conn .repeatConnect))
  | noEmptyBuf : s.proc.pc = .testEmptyBuf → param.getEmptybuf = false →
      ProcStep param s .next (s.goto .deleteMutex)
  | deleteMutex : s.proc.pc = .deleteMutex → ProcStep param s .next (s.goto .free)
  | free : s.proc.pc = .free →
      ProcStep param s .next { s.goto .quit with frees := s.frees ++ [.proc] }
  | conn (a pc pc' clientSocket table socket) : s.proc.pc = .conn pc → ConnNext param pc a pc' →
      ProcStep param s a
        { s with table := table, socket := socket, proc := ⟨.ofConn pc', clientSocket⟩ }
  | setConnect : s.proc.pc = .setConnect →
      ProcStep param s .next { s.goto (.conn .publishLocked) with status := .connect }
  | connected : s.proc.pc = .testStatus → s.status = .connect →
      ProcStep param s .next (s.goto (.conn .receive))
  | stopped : s.proc.pc = .testStatus → s.status ≠ .connect →
      ProcStep param s .next (s.goto (.conn .quit))
  | setAbor : s.proc.pc = .setAbor → ProcStep param s .next { s.goto .done with status := .abor }

theorem procStep_of_act {a : ClientAnswer} (h : s.osaClientProcessThr param a = some s') :
    ProcStep param s a s' := by
  unfold State.osaClientProcessThr at h
  split at h
  · next hpc => cases h; exact .begin hpc
  · next hpc =>
    cases h
    by_cases hbuf : param.getEmptybuf = true
    · rw [if_pos hbuf]; exact .emptyBuf hpc hbuf
    · rw [if_neg hbuf]; exact .noEmptyBuf hpc (Bool.eq_false_iff.mpr hbuf)
  · next hpc => cases h; exact .deleteMutex hpc
  · next hpc => cases h; exact .free hpc
  · next pc hpc =>
    unfold State.connStep at h
    split at h
    · cases h
    · next hstop =>
      obtain ⟨act, hact, h⟩ := Option.bind_eq_some_iff.mp h
      obtain ⟨table, -, rfl⟩ := Option.map_eq_some_iff.mp h
      exact .conn _ pc _ _ _ _ hpc (connNext hstop hact)
  · next hpc => cases h; exact .setConnect hpc
  · next hpc =>
    cases h
    by_cases hst : s.status = .connect
    · rw [if_pos hst]; exact .connected hpc hst
    · rw [if_neg hst]; exact .stopped hpc hst
  · next hpc => cases h; exact .setAbor hpc
  · cases h

/-- A step of the application, begun by a call or within one. -/
inductive AppStep (s : State) : Label → State → Prop
  | call : s.app = .idle → AppStep s .sendMsg { s with app := .sendMsg .getSocket }
  | destory : s.app = .idle → AppStep s .destory { s with app := .log }
  | sendMsg (sent pc pc') : s.app = .sendMsg pc →
      AppStep s (.app sent) { s with app := .sendMsg pc' }
  | sent (sent pc) : s.app = .sendMsg pc → AppStep s (.app sent) { s with app := .idle }
  | log (sent) : s.app = .log → AppStep s (.app sent) { s with app := .setDisconnect }
  | setDisconnect (sent) : s.app = .setDisconnect →
      AppStep s (.app sent) { s with status := .disconnect, app := .testStatus }
  | wait (sent) : s.app = .testStatus → s.status ≠ .abor → AppStep s (.app sent) s
  | abor (sent) : s.app = .testStatus → s.status = .abor →
      AppStep s (.app sent) { s with app := .deleteMutex }
  | deleteMutex (sent) : s.app = .deleteMutex → AppStep s (.app sent) { s with app := .free }
  | free (sent) : s.app = .free →
      AppStep s (.app sent) { s with app := .returned, frees := s.frees ++ [.app] }

theorem appStep_of_act {sent : Bool} (h : s.osaClientApp sent = some s') :
    AppStep s (.app sent) s' := by
  unfold State.osaClientApp at h
  split at h
  · next pc hpc =>
    split at h <;> cases h
    · exact .sent sent pc hpc
    · exact .sendMsg sent pc _ hpc
  · next hpc => cases h; exact .log sent hpc
  · next hpc => cases h; exact .setDisconnect sent hpc
  · next hpc =>
    cases h
    by_cases hst : s.status = .abor
    · simp only [if_pos hst]; exact .abor sent hpc hst
    · rw [if_neg hst, ← hpc]; exact .wait sent hpc hst
  · next hpc => cases h; exact .deleteMutex sent hpc
  · next hpc => cases h; exact .free sent hpc
  · cases h
  · cases h

/-- A step of the heart thread changes only its own place. -/
theorem heart_of_act {sent : Bool} (h : s.osaHeartProcess sent = some s') :
    ∃ heart, s' = { s with heart := heart } := by
  unfold State.osaHeartProcess at h
  split at h
  · cases h; exact ⟨_, rfl⟩
  · cases h; exact ⟨_, rfl⟩
  · split at h <;> cases h <;> exact ⟨_, rfl⟩
  · cases h
  · cases h

/-- A step of the application keeps the stop, or makes it. -/
theorem AppStep.stopped {l : Label} (h : AppStep s l s') (hstop : s'.app.stopped = true) :
    s'.proc = s.proc ∧ ((s.app.stopped = true ∧ s'.status = s.status) ∨
      (s.app = .setDisconnect ∧ (∃ sent, l = .app sent) ∧ s'.status = .disconnect)) := by
  cases h with
  | call | destory | sendMsg | sent | log => cases hstop
  | setDisconnect sent hpc => exact ⟨rfl, Or.inr ⟨hpc, ⟨sent, rfl⟩, rfl⟩⟩
  | wait => exact ⟨rfl, Or.inl ⟨hstop, rfl⟩⟩
  | abor sent hpc | deleteMutex sent hpc | free sent hpc =>
      exact ⟨rfl, Or.inl ⟨by rw [hpc]; rfl, rfl⟩⟩

/-- What a step of the client can be. A thread that uses the handle finds it not freed. -/
inductive Step (param : ClientParam) (s : State) : Label → State → Prop
  | fault (l actor) : s.frees ≠ [] → s.uses actor = true →
      Step param s l { s with faults := s.faults ++ [actor] }
  | app (l t) : (s.app = .idle ∨ s.frees = []) → AppStep s l t → Step param s l t
  | heart (sent heart) : s.frees = [] → s.heart.over = false →
      Step param s (.heart sent) { s with heart := heart }
  | create : s.frees = [] → s.proc.pc = .createHeart →
      Step param s (.create true) { s.goto (.conn .repeatConnect) with heart := .start }
  | createFailed : s.frees = [] → s.proc.pc = .createHeart →
      Step param s (.create false) (s.goto .deleteMutex)
  | proc (a t) : (s.proc.pc.uses = true → s.frees = []) → ProcStep param s a t →
      Step param s (.proc a) t

theorem guard_of_nil {actor : Actor} {next : Option State} (hfree : s.frees = []) :
    s.guard actor next = next := by
  simp [State.guard, hfree]

theorem guard_cases {actor : Actor} {next : Option State} (h : s.guard actor next = some s') :
    (s.frees ≠ [] ∧ s.uses actor = true ∧ s' = { s with faults := s.faults ++ [actor] }) ∨
      ((s.uses actor = true → s.frees = []) ∧ next = some s') := by
  unfold State.guard at h
  split at h
  · next hfreed =>
    obtain ⟨t, -, rfl⟩ := Option.map_eq_some_iff.mp h
    exact Or.inl ⟨hfreed.2, hfreed.1, rfl⟩
  · next hnot => exact Or.inr ⟨fun huses ↦ by simpa [huses] using hnot, h⟩

theorem step_cases {l : Label} (hstep : step param s l = some s') : Step param s l s' := by
  cases l with
  | sendMsg =>
      obtain ⟨hpc, h⟩ := Option.ite_none_right_eq_some.mp hstep
      cases h
      exact .app _ _ (Or.inl hpc) (.call hpc)
  | destory =>
      obtain ⟨hpc, h⟩ := Option.ite_none_right_eq_some.mp hstep
      cases h
      exact .app _ _ (Or.inl hpc) (.destory hpc)
  | app sent =>
      rcases guard_cases hstep with ⟨hfreed, huses, rfl⟩ | ⟨hfree, h⟩
      · exact .fault _ _ hfreed huses
      · have happ := appStep_of_act h
        refine .app _ _ (Or.inr (hfree ?_)) happ
        cases happ with
        | sendMsg _ _ _ hpc | sent _ _ hpc | log _ hpc | setDisconnect _ hpc | wait _ hpc
        | abor _ hpc | deleteMutex _ hpc | free _ hpc => simp [State.uses, hpc]
  | heart sent =>
      rcases guard_cases hstep with ⟨hfreed, huses, rfl⟩ | ⟨hfree, h⟩
      · exact .fault _ _ hfreed huses
      · have hover : s.heart.over = false := by
          unfold State.osaHeartProcess at h
          split at h
          · next hpc => rw [hpc]; rfl
          · next hpc => rw [hpc]; rfl
          · next pc hpc => rw [hpc]; rfl
          · cases h
          · cases h
        obtain ⟨heart, rfl⟩ := heart_of_act h
        exact .heart sent heart (hfree (by simp [State.uses, hover])) hover
  | create ok =>
      rcases guard_cases hstep with ⟨hfreed, huses, rfl⟩ | ⟨hfree, h⟩
      · exact .fault _ _ hfreed huses
      · obtain ⟨hpc, h⟩ := Option.ite_none_right_eq_some.mp h
        have hnot : s.frees = [] := hfree (by simp [State.uses, hpc, ProcPc.uses])
        cases ok <;> cases h
        · exact .createFailed hnot hpc
        · exact .create hnot hpc
  | proc a =>
      rcases guard_cases hstep with ⟨hfreed, huses, rfl⟩ | ⟨hfree, h⟩
      · exact .fault _ _ hfreed huses
      · exact .proc a _ hfree (procStep_of_act h)

/-! ## The phases of the process thread -/

/-- Before the loop or on the way back to it, in the loop, or behind it. -/
inductive Phase
  | connecting
  | receiving
  | leaving
  deriving DecidableEq, Repr

def ProcPc.phase : ProcPc → Phase
  | .conn .publishLocked | .testStatus | .conn .receive => .receiving
  | .conn .quit | .conn .quitClose | .setAbor | .done => .leaving
  | _ => .connecting

/-- How a step of the process thread changes its phase and the status. -/
inductive PhaseMove (param : ClientParam) (a : ClientAnswer) (status : ClientStatus) (phase : Phase)
    (status' : ClientStatus) (phase' : Phase) : Prop
  | connect : phase = .connecting → status' = status → phase' = .connecting →
      PhaseMove param a status phase status' phase'
  | enter : phase = .connecting → status' = .connect → phase' = .receiving →
      PhaseMove param a status phase status' phase'
  | receive : phase = .receiving → status' = status → phase' = .receiving →
      PhaseMove param a status phase status' phase'
  | reconnect : a = .turn false → param.reconFlag = 1 → phase = .receiving → status' = status →
      phase' = .connecting → PhaseMove param a status phase status' phase'
  | leave : status ≠ .connect → phase = .receiving → status' = status → phase' = .leaving →
      PhaseMove param a status phase status' phase'
  | go : phase = .leaving → (status' = status ∨ status' = .abor) → phase' = .leaving →
      PhaseMove param a status phase status' phase'

theorem ConnNext.phase {pc pc' : ClientPc} {a : ClientAnswer} (h : ConnNext param pc a pc')
    (status : ClientStatus) :
    PhaseMove param a status (ProcPc.conn pc).phase status (ProcPc.ofConn pc').phase := by
  cases h with
  | repeatConnect | closeOld | noSocket | socket | connect | connectFailed | publish | unset =>
      exact .connect rfl rfl rfl
  | publishLocked | turn => exact .receive rfl rfl rfl
  | turnFailed hrecon => exact .reconnect rfl hrecon rfl rfl rfl
  | quit | quitClose => exact .go rfl (Or.inl rfl) rfl

theorem ProcStep.phase {a : ClientAnswer} (h : ProcStep param s a s') :
    PhaseMove param a s.status s.proc.pc.phase s'.status s'.proc.pc.phase := by
  cases h with
  | begin hpc =>
      refine .connect (by rw [hpc]; rfl) rfl ?_
      by_cases htype : param.clientType = .msgType <;> simp [State.goto, htype, ProcPc.phase]
  | emptyBuf hpc | noEmptyBuf hpc | deleteMutex hpc | free hpc =>
      exact .connect (by rw [hpc]; rfl) rfl rfl
  | conn _ pc pc' clientSocket table socket hpc hnext => rw [hpc]; exact hnext.phase s.status
  | setConnect hpc => exact .enter (by rw [hpc]; rfl) rfl rfl
  | connected hpc => exact .receive (by rw [hpc]; rfl) rfl rfl
  | stopped hpc hst => exact .leave hst (by rw [hpc]; rfl) rfl rfl
  | setAbor hpc => exact .go (by rw [hpc]; rfl) (Or.inr rfl) rfl

/-! ## What holds in every run -/

/-- `OSA_client_destory` has seen `CLIENT_ABOR`. -/
def AppPc.waited : AppPc → Bool
  | .deleteMutex | .free | .returned => true
  | _ => false

/-- `CLIENT_ABOR` is stored by the process thread at its end, for which `OSA_client_destory` waits.
Before the stop the thread stays in its loop. The handle is freed by that thread on its early return
or by `OSA_client_destory` behind its wait. -/
structure Inv (s : State) : Prop where
  abor : s.status = .abor ↔ s.proc.pc = .done
  waited : s.app.waited = true → s.proc.pc = .done
  running : s.app.stopped = false → s.proc.pc.phase ≠ .leaving ∧
    (s.proc.pc.phase = .receiving → s.status = .connect)
  freed : s.frees ≠ [] → s.proc.pc = .quit ∨ s.app = .returned

theorem start_inv : Inv start where
  abor := by simp [start]
  waited := fun h ↦ by cases h
  running := fun _ ↦ ⟨fun h ↦ (by cases h), fun h ↦ (by cases h)⟩
  freed := fun h ↦ (h rfl).elim

/-- While the process thread runs the handle is there. -/
theorem Inv.frees_nil (hs : Inv s) (hdone : s.proc.pc ≠ .done) (hquit : s.proc.pc ≠ .quit) :
    s.frees = [] := by
  by_contra hfreed
  rcases hs.freed hfreed with h | h
  · exact hquit h
  · exact hdone (hs.waited (by rw [h]; rfl))

theorem ProcStep.going {a : ClientAnswer} (h : ProcStep param s a s') :
    s.proc.pc ≠ .done ∧ s.proc.pc ≠ .quit := by
  cases h with
  | begin hpc | emptyBuf hpc | noEmptyBuf hpc | deleteMutex hpc | free hpc
  | conn _ _ _ _ _ _ hpc | setConnect hpc | connected hpc | stopped hpc | setAbor hpc =>
      simp [hpc]

/-- The process thread stores `CLIENT_ABOR` where it ends. -/
theorem ProcStep.abor {a : ClientAnswer} (h : ProcStep param s a s') (hst : s.status ≠ .abor) :
    s'.status = .abor ↔ s'.proc.pc = .done := by
  cases h with
  | begin =>
      by_cases htype : param.clientType = .msgType <;> simp [State.goto, htype, hst]
  | emptyBuf | noEmptyBuf | deleteMutex | free | setConnect | connected | stopped | setAbor =>
      simp [State.goto, hst]
  | conn _ _ pc' => cases pc' <;> simp [ProcPc.ofConn, hst]

theorem ProcStep.frees {a : ClientAnswer} (h : ProcStep param s a s') :
    s'.app = s.app ∧ (s'.frees = s.frees ∨ s'.proc.pc = .quit) := by
  cases h with
  | free => exact ⟨rfl, Or.inr rfl⟩
  | begin | emptyBuf | noEmptyBuf | deleteMutex | conn | setConnect | connected | stopped
  | setAbor => exact ⟨rfl, Or.inl rfl⟩

theorem Inv.proc (hs : Inv s) {a : ClientAnswer} (h : ProcStep param s a s') : Inv s' := by
  obtain ⟨hdone, hquit⟩ := h.going
  obtain ⟨happ, hfrees⟩ := h.frees
  refine ⟨h.abor (mt hs.abor.mp hdone), fun hw ↦ (hdone (hs.waited (happ ▸ hw))).elim, ?_, ?_⟩
  · intro hrun
    rw [happ] at hrun
    obtain ⟨hleaving, hconnect⟩ := hs.running hrun
    cases h.phase with
    | connect _ _ hphase | reconnect _ _ _ _ hphase => simp [hphase]
    | enter _ hst hphase => simp [hphase, hst]
    | receive hphase hst hphase' => simpa [hphase', hst] using hconnect hphase
    | leave hst hphase => exact (hst (hconnect hphase)).elim
    | go hphase => exact (hleaving hphase).elim
  · intro hfreed
    rcases hfrees with hsame | hquit
    · exact (hfreed (hsame.trans (hs.frees_nil hdone hquit))).elim
    · exact Or.inl hquit

theorem Inv.app (hs : Inv s) {l : Label} (hfree : s.app = .idle ∨ s.frees = [])
    (h : AppStep s l s') : Inv s' := by
  have hnil (hidle : s.app ≠ .idle) : s.frees = [] := hfree.resolve_left hidle
  cases h with
  | call hpc | destory hpc =>
      refine ⟨hs.abor, fun hw ↦ (by cases hw), fun _ ↦ hs.running (by rw [hpc]; rfl), fun h ↦ ?_⟩
      exact Or.inl ((hs.freed h).resolve_right (by simp [hpc]))
  | sendMsg sent pc pc' hpc | sent sent pc hpc | log sent hpc =>
      exact ⟨hs.abor, fun hw ↦ (by cases hw), fun _ ↦ hs.running (by rw [hpc]; rfl),
        fun h ↦ (h (hnil (by simp [hpc]))).elim⟩
  | setDisconnect sent hpc =>
      have hdone : s.proc.pc ≠ .done := by
        intro hdone
        exact (hs.running (by rw [hpc]; rfl)).1 (by rw [hdone]; rfl)
      exact ⟨by simp [hdone], fun hw ↦ (by cases hw), fun h ↦ (by cases h),
        fun h ↦ (h (hnil (by simp [hpc]))).elim⟩
  | wait => exact hs
  | abor sent hpc hst =>
      exact ⟨hs.abor, fun _ ↦ hs.abor.mp hst, fun h ↦ (by cases h),
        fun h ↦ (h (hnil (by simp [hpc]))).elim⟩
  | deleteMutex sent hpc =>
      exact ⟨hs.abor, fun _ ↦ hs.waited (by rw [hpc]; rfl), fun h ↦ (by cases h),
        fun h ↦ (h (hnil (by simp [hpc]))).elim⟩
  | free sent hpc =>
      exact ⟨hs.abor, fun _ ↦ hs.waited (by rw [hpc]; rfl), fun h ↦ (by cases h),
        fun _ ↦ Or.inr rfl⟩

/-- The thread has come from the creation of the heart thread to `pc`. -/
theorem Inv.created (hs : Inv s) (hfree : s.frees = []) (hpc : s.proc.pc = .createHeart)
    (pc : ProcPc) (hphase : pc.phase = .connecting) (heart : HeartPc) :
    Inv { s.goto pc with heart := heart } where
  abor := by
    have hst : s.status ≠ .abor := fun h ↦ by simpa [hpc] using hs.abor.mp h
    have hdone : pc ≠ .done := fun h ↦ by simp [h, ProcPc.phase] at hphase
    simp [State.goto, hst, hdone]
  waited hw := by simpa [hpc] using hs.waited hw
  running _ := by simp [State.goto, hphase]
  freed h := (h hfree).elim

theorem Inv.step (hs : Inv s) {l : Label} (hstep : Client.step param s l = some s') : Inv s' := by
  cases step_cases hstep with
  | fault | heart => exact ⟨hs.abor, hs.waited, hs.running, hs.freed⟩
  | app l t hfree h => exact hs.app hfree h
  | create hfree hpc => exact hs.created hfree hpc _ rfl .start
  | createFailed hfree hpc => exact hs.created hfree hpc .deleteMutex rfl s.heart
  | proc a t hfree h => exact hs.proc h

theorem inv_of_reach {ok : State → Label → Prop} (h : Reach (step param) ok start s) : Inv s :=
  h.invariant start_inv fun _ _ _ hs _ hstep ↦ hs.step hstep

/-! ## Runs of one client -/

def msgClient : ClientParam := ⟨1, .msgType, false, 8000, by decide⟩

/-- The process thread creates the heart thread, connects at `fd`, and comes to its loop. -/
def connectRun (fd : ℤ) : List Label :=
  [.proc .next, .create true, .proc .next, .proc .next, .proc (.socket fd), .proc (.connect true),
    .proc .next, .proc .next, .proc .next]

/-- `OSA_client_destory` as far as its loop. -/
def destoryRun : List Label := [.destory, .app true, .app true]

/-- The process thread leaves its loop. -/
def quitRun : List Label := [.proc .next, .proc .next, .proc .next, .proc .next]

/-- `OSA_client_destory` from its loop to its end. -/
def returnRun : List Label := [.app true, .app true, .app true]

end OsaBase.Client
