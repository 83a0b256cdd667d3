import OsaBase.Client.Steps

/-!
# The heart thread and the connection

The heart thread is created before the client connects. It looks at the status for the first time
behind a sleep of three seconds, and returns for good when that is not `CLIENT_CONNECT`.
-/

open Transition

namespace OsaBase.Client

open Server (ClientStatus)

variable {param : ClientParam} {s s' : State} {l : Label}

/-- While the process thread is in its loop with `CLIENT_CONNECT` the heart thread, if it was
started, has not returned. -/
def HeartLaw (s : State) : Prop :=
  s.proc.pc = .testStatus ∨ s.proc.pc = .conn .receive → s.status = .connect →
    s.heart ≠ .none → s.heart ≠ .done

/-- The heart thread does not find the status other than `CLIENT_CONNECT` while the process thread
connects, and when it has returned no failed receive makes that thread connect again. -/
def HeartOk (param : ClientParam) (s : State) : Label → Prop
  | .heart _ => s.heart = .testStatus → s.status = .connect ∨ s.proc.pc.phase ≠ .connecting
  | .proc (.turn ok) => s.heart = .done → ok = true ∨ param.reconFlag ≠ 1
  | _ => True

instance (param : ClientParam) (s : State) : (l : Label) → Decidable (HeartOk param s l)
  | .heart _ | .proc (.turn _) => inferInstanceAs (Decidable (_ → _))
  | .sendMsg | .destory | .app _ | .create _ | .proc .next | .proc (.socket _)
  | .proc (.connect _) | .proc .stop => inferInstanceAs (Decidable True)

/-- When the heart thread has returned, the process thread is on its way out. -/
def HeartInv (s : State) : Prop :=
  s.heart = .done →
    s.proc.pc.phase ≠ .connecting ∧ (s.proc.pc.phase = .receiving → s.status ≠ .connect)

/-- The heart thread returns where it finds the status other than `CLIENT_CONNECT`. -/
theorem heart_done_of_act {sent : Bool} (h : s.osaHeartProcess sent = some s')
    (hdone : s'.heart = .done) : s.heart = .testStatus ∧ s.status ≠ .connect := by
  unfold State.osaHeartProcess at h
  split at h
  · cases h; cases hdone
  · next hpc =>
    cases h
    refine ⟨hpc, fun hst ↦ ?_⟩
    simp [hst] at hdone
  · split at h <;> cases h <;> cases hdone
  · cases h
  · cases h

theorem heart_done_of_step {sent : Bool} (hstep : step param s (.heart sent) = some s')
    (hdone : s'.heart = .done) :
    s.heart = .done ∨ (s.heart = .testStatus ∧ s.status ≠ .connect) := by
  rcases guard_cases hstep with ⟨-, -, rfl⟩ | ⟨-, h⟩
  · exact Or.inl hdone
  · exact Or.inr (heart_done_of_act h hdone)

theorem heart_frame {sent : Bool} (hstep : step param s (.heart sent) = some s') :
    s'.proc = s.proc ∧ s'.status = s.status := by
  rcases guard_cases hstep with ⟨-, -, rfl⟩ | ⟨-, h⟩
  · exact ⟨rfl, rfl⟩
  · obtain ⟨heart, rfl⟩ := heart_of_act h
    exact ⟨rfl, rfl⟩

theorem ProcStep.heart {a : ClientAnswer} (h : ProcStep param s a s') : s'.heart = s.heart := by
  cases h <;> rfl

theorem AppStep.frame (h : AppStep s l s') : s'.proc = s.proc ∧ s'.heart = s.heart ∧
    (s'.status = s.status ∨ s'.status = .disconnect) := by
  cases h with
  | setDisconnect => exact ⟨rfl, rfl, Or.inr rfl⟩
  | call | destory | sendMsg | sent | log | wait | abor | deleteMutex | free =>
      exact ⟨rfl, rfl, Or.inl rfl⟩

theorem HeartInv.step (hs : HeartInv s) (hok : HeartOk param s l)
    (hstep : Client.step param s l = some s') : HeartInv s' := by
  intro hdone
  by_cases hheart : ∃ sent, l = .heart sent
  · obtain ⟨sent, rfl⟩ := hheart
    obtain ⟨hproc, hstatus⟩ := heart_frame hstep
    rw [hproc, hstatus]
    rcases heart_done_of_step hstep hdone with hdone | ⟨hpc, hst⟩
    · exact hs hdone
    · exact ⟨(hok hpc).resolve_left hst, fun _ ↦ hst⟩
  · cases step_cases hstep with
    | fault => exact hs hdone
    | heart sent => exact (hheart ⟨sent, rfl⟩).elim
    | app l t hfree h =>
        obtain ⟨hproc, hsame, hstatus⟩ := h.frame
        obtain ⟨hphase, hst⟩ := hs (hsame ▸ hdone)
        rw [hproc]
        refine ⟨hphase, fun hrec ↦ ?_⟩
        rcases hstatus with hstatus | hstatus
        · rw [hstatus]
          exact hst hrec
        · simp [hstatus]
    | create => cases hdone
    | createFailed hfree hpc => exact ((hs hdone).1 (by rw [hpc]; rfl)).elim
    | proc a t hfree h =>
        rw [h.heart] at hdone
        obtain ⟨hphase, hst⟩ := hs hdone
        cases h.phase with
        | connect hcon | enter hcon => exact (hphase hcon).elim
        | receive hrec hstatus hphase' =>
            refine ⟨by simp [hphase'], fun _ ↦ ?_⟩
            rw [hstatus]
            exact hst hrec
        | reconnect hturn hrecon =>
            subst hturn
            exact ((hok hdone).elim (by simp) fun hne ↦ hne hrecon).elim
        | leave _ _ _ hphase' | go _ _ hphase' => simp [hphase']

theorem HeartInv.law (hs : HeartInv s) : HeartLaw s := by
  intro hpc hst _ hdone
  refine (hs hdone).2 ?_ hst
  rcases hpc with hpc | hpc <;> rw [hpc] <;> rfl

/-! ## A heart thread that returns too early -/

/-- The process thread has come past the creation of the heart thread. -/
def ProcPc.begun : ProcPc → Bool
  | .conn .done => false
  | .conn _ | .setConnect | .testStatus | .setAbor | .done => true
  | _ => false

/-- Only finitely many descriptors are open. -/
def FdTable.Bounded (table : FdTable) : Prop := ∃ n : ℤ, ∀ fd, n ≤ fd → table.fds fd = .closed

theorem FdTable.Bounded.applyOption {table table' : FdTable} {op : Option FdOp}
    (h : FdTable.Bounded table) (happly : table.applyOption op = some table') :
    FdTable.Bounded table' := by
  obtain ⟨n, hn⟩ := h
  have hupdate (fd : ℤ) (d : Descriptor) :
      ∃ m : ℤ, ∀ fd', m ≤ fd' → Function.update table.fds fd d fd' = .closed := by
    refine ⟨max n (fd + 1), fun fd' hfd' ↦ ?_⟩
    rw [Function.update_of_ne (by omega)]
    exact hn fd' (by omega)
  cases op with
  | none => cases happly; exact ⟨n, hn⟩
  | some op =>
      cases op with
      | socket fd | connect fd | accept fd =>
          obtain ⟨-, happly⟩ := Option.ite_none_right_eq_some.mp happly
          cases happly
          exact hupdate _ _
      | close fd => cases happly; exact hupdate _ _

/-- A free descriptor of the process. -/
theorem FdTable.Bounded.exists_closed {table : FdTable} (h : FdTable.Bounded table) :
    ∃ fd : ℤ, 3 ≤ fd ∧ table.fds fd = .closed := by
  obtain ⟨n, hn⟩ := h
  exact ⟨max n 3, by omega, hn _ (by omega)⟩

/-- In one step of the process thread. -/
theorem step_conn {pc : ClientPc} {a : ClientAnswer} {act : OwnerAct ClientThr} {table : FdTable}
    (hfree : s.frees = []) (hpc : s.proc.pc = .conn pc) (ha : a ≠ .stop)
    (hact : OsaBase.osaClientProcessThr param.reconFlag ⟨pc, s.proc.clientSocket⟩ a = some act)
    (htable : s.table.applyOption act.fdOp = some table) :
    step param s (.proc a) = some { s with
      table := table
      socket := act.socket.getD s.socket
      proc := ⟨.ofConn act.next.pc, act.next.clientSocket⟩ } := by
  simp [step, guard_of_nil hfree, State.osaClientProcessThr, hpc, State.connStep, ha, hact, htable]

/-- The client can come to be connected with the heart thread gone. -/
def CanLoseHeart (param : ClientParam) (s : State) : Prop :=
  ∃ t, Reach (step param) Always s t ∧ ¬ HeartLaw t

theorem CanLoseHeart.of_step (hstep : step param s l = some s') (h : CanLoseHeart param s') :
    CanLoseHeart param s := by
  obtain ⟨t, hreach, ht⟩ := h
  exact ⟨t, (Reach.tail l .refl trivial hstep).trans hreach, ht⟩

/-- The heart thread has returned, and the handle is there. -/
structure HeartGone (s : State) : Prop where
  done : s.heart = .done
  frees : s.frees = []
  bounded : FdTable.Bounded s.table

/-- The connection handling goes on in a step that the thread can make. -/
theorem CanLoseHeart.of_conn (a : ClientAnswer) (act : OwnerAct ClientThr) {pc : ClientPc}
    {table : FdTable} (h : HeartGone s) (hpc : s.proc.pc = .conn pc) (ha : a ≠ .stop)
    (hact : OsaBase.osaClientProcessThr param.reconFlag ⟨pc, s.proc.clientSocket⟩ a = some act)
    (htable : s.table.applyOption act.fdOp = some table)
    (hnext : ∀ s', HeartGone s' → s'.table = table →
      s'.proc = ⟨.ofConn act.next.pc, act.next.clientSocket⟩ → CanLoseHeart param s') :
    CanLoseHeart param s :=
  .of_step (step_conn h.frees hpc ha hact htable)
    (hnext _ ⟨h.done, h.frees, h.bounded.applyOption htable⟩ rfl rfl)

theorem loses_from_setConnect (h : HeartGone s) (hpc : s.proc.pc = .setConnect) :
    CanLoseHeart param s := by
  have hstep : step param s (.proc .next) =
      some { s.goto (.conn .publishLocked) with status := .connect } := by
    simp [step, guard_of_nil h.frees, State.osaClientProcessThr, hpc]
  refine .of_step hstep (.of_step (step_conn (a := .next) h.frees rfl (by simp) rfl rfl)
    ⟨_, .refl, fun hlaw ↦ ?_⟩)
  exact hlaw (Or.inl rfl) rfl (by simp [State.goto, h.done]) h.done

theorem loses_from_publish (h : HeartGone s) (hpc : s.proc.pc = .conn .publish) :
    CanLoseHeart param s :=
  .of_conn .next _ h hpc (by simp) rfl rfl fun _ h' _ hproc ↦
    loses_from_setConnect h' (by rw [hproc]; rfl)

theorem loses_from_create (h : HeartGone s) (hpc : s.proc.pc = .conn .create) :
    CanLoseHeart param s := by
  by_cases hrecon : param.reconFlag = 1
  · obtain ⟨fd, hfd, hclosed⟩ := h.bounded.exists_closed
    have hact : OsaBase.osaClientProcessThr param.reconFlag ⟨.create, s.proc.clientSocket⟩
        (.socket fd) = some ⟨⟨.connect, fd⟩, none, some (.socket fd)⟩ := by
      have hge : -1 ≤ fd ∧ ¬ fd < 3 ∧ ¬ fd < 0 := by omega
      simp [OsaBase.osaClientProcessThr, hge]
    have hpos : 0 ≤ fd ∧ s.table.fds fd = .closed := ⟨by omega, hclosed⟩
    refine .of_conn _ _ h hpc (by simp) hact (if_pos hpos) fun s₁ h₁ htable hproc ↦ ?_
    have hopened : s₁.table.fds s₁.proc.clientSocket = .opened := by simp [htable, hproc]
    have hconnect : s₁.proc.pc = .conn .connect := by
      rw [hproc]
      rfl
    refine .of_conn (.connect true) _ h₁ hconnect (by simp) rfl (if_pos hopened)
      fun s₂ h₂ _ hproc₂ ↦ ?_
    exact loses_from_publish h₂ (by rw [hproc₂]; rfl)
  · refine .of_conn (.socket (-1)) ⟨⟨.connect, -1⟩, none, none⟩ h hpc (by simp)
      (by simp [OsaBase.osaClientProcessThr, hrecon]) rfl fun s₁ h₁ _ hproc ↦ ?_
    have hconnect : s₁.proc.pc = .conn .connect := by
      rw [hproc]
      rfl
    refine .of_conn (.connect false) ⟨⟨.publish, s₁.proc.clientSocket⟩, none, none⟩ h₁ hconnect
      (by simp) (by simp [OsaBase.osaClientProcessThr, hrecon]) rfl fun s₂ h₂ _ hproc₂ ↦ ?_
    exact loses_from_publish h₂ (by rw [hproc₂]; rfl)

theorem loses_from_closeOld (h : HeartGone s) (hpc : s.proc.pc = .conn .closeOld) :
    CanLoseHeart param s := by
  by_cases hpos : s.proc.clientSocket > 0
  · refine .of_conn .next ⟨⟨.create, -1⟩, none, some (.close s.proc.clientSocket)⟩ h hpc (by simp)
      (by simp [OsaBase.osaClientProcessThr, hpos]) rfl fun s₁ h₁ _ hproc ↦ ?_
    exact loses_from_create h₁ (by rw [hproc]; rfl)
  · refine .of_conn .next ⟨⟨.create, s.proc.clientSocket⟩, none, none⟩ h hpc (by simp)
      (by simp [OsaBase.osaClientProcessThr, hpos]) rfl fun s₁ h₁ _ hproc ↦ ?_
    exact loses_from_create h₁ (by rw [hproc]; rfl)

theorem loses_from_repeatConnect (h : HeartGone s) (hpc : s.proc.pc = .conn .repeatConnect) :
    CanLoseHeart param s :=
  .of_conn .next _ h hpc (by simp) rfl rfl fun _ h' _ hproc ↦
    loses_from_closeOld h' (by rw [hproc]; rfl)

theorem loses_from_connect (h : HeartGone s) (hpc : s.proc.pc = .conn .connect) :
    CanLoseHeart param s := by
  by_cases hrecon : param.reconFlag = 1
  · refine .of_conn (.connect false) ⟨⟨.repeatConnect, s.proc.clientSocket⟩, none, none⟩ h hpc
      (by simp)
      (by simp [OsaBase.osaClientProcessThr, hrecon]) rfl fun s₁ h₁ _ hproc ↦ ?_
    exact loses_from_repeatConnect h₁ (by rw [hproc]; rfl)
  · refine .of_conn (.connect false) ⟨⟨.publish, s.proc.clientSocket⟩, none, none⟩ h hpc (by simp)
      (by simp [OsaBase.osaClientProcessThr, hrecon]) rfl fun s₁ h₁ _ hproc ↦ ?_
    exact loses_from_publish h₁ (by rw [hproc]; rfl)

/-- From anywhere on its way to a connection the process thread can get one. -/
theorem loses_from_connecting (h : HeartGone s) (hbegun : s.proc.pc.begun = true)
    (hphase : s.proc.pc.phase = .connecting) : CanLoseHeart param s := by
  cases hpc : s.proc.pc with
  | conn pc =>
      cases pc with
      | repeatConnect => exact loses_from_repeatConnect h hpc
      | closeOld => exact loses_from_closeOld h hpc
      | create => exact loses_from_create h hpc
      | connect => exact loses_from_connect h hpc
      | publish => exact loses_from_publish h hpc
      | unset =>
          exact .of_conn .next _ h hpc (by simp) rfl rfl fun _ h' _ hproc ↦
            loses_from_repeatConnect h' (by rw [hproc]; rfl)
      | publishLocked | receive | quit | quitClose => simp [hpc, ProcPc.phase] at hphase
      | done => simp [hpc, ProcPc.begun] at hbegun
  | setConnect => exact loses_from_setConnect h hpc
  | testStatus | setAbor | done => simp [hpc, ProcPc.phase] at hphase
  | start | createHeart | testEmptyBuf | deleteMutex | free | quit =>
      simp [hpc, ProcPc.begun] at hbegun

/-- The heart thread is there only behind its creation. -/
structure BegunInv (s : State) : Prop where
  begun : s.heart ≠ .none → s.proc.pc.begun = true
  bounded : FdTable.Bounded s.table

theorem ProcPc.begun_ofConn (pc : ClientPc) : (ProcPc.ofConn pc).begun = true := by
  cases pc <;> rfl

theorem ProcStep.begun {a : ClientAnswer} (h : ProcStep param s a s')
    (hbegun : s.proc.pc.begun = true) : s'.proc.pc.begun = true := by
  cases h with
  | begin hpc | noEmptyBuf hpc | deleteMutex hpc | free hpc => simp [hpc, ProcPc.begun] at hbegun
  | conn => exact ProcPc.begun_ofConn _
  | emptyBuf | setConnect | connected | stopped | setAbor => rfl

theorem table_of_act {a : ClientAnswer} (h : s.osaClientProcessThr param a = some s') :
    ∃ op, s.table.applyOption op = some s'.table := by
  unfold State.osaClientProcessThr at h
  split at h
  · cases h; exact ⟨none, rfl⟩
  · cases h; exact ⟨none, rfl⟩
  · cases h; exact ⟨none, rfl⟩
  · cases h; exact ⟨none, rfl⟩
  · unfold State.connStep at h
    split at h
    · cases h
    · obtain ⟨act, -, h⟩ := Option.bind_eq_some_iff.mp h
      obtain ⟨table, htable, rfl⟩ := Option.map_eq_some_iff.mp h
      exact ⟨_, htable⟩
  · cases h; exact ⟨none, rfl⟩
  · cases h; exact ⟨none, rfl⟩
  · cases h; exact ⟨none, rfl⟩
  · cases h

/-- Only the process thread changes the descriptors. -/
theorem table_of_step (hstep : step param s l = some s') :
    ∃ op, s.table.applyOption op = some s'.table := by
  by_cases hproc : ∃ a, l = .proc a
  · obtain ⟨a, rfl⟩ := hproc
    rcases guard_cases hstep with ⟨-, -, rfl⟩ | ⟨-, h⟩
    · exact ⟨none, rfl⟩
    · exact table_of_act h
  · cases step_cases hstep with
    | app l t hfree h => cases h <;> exact ⟨none, rfl⟩
    | fault | heart | create | createFailed => exact ⟨none, rfl⟩
    | proc a t hfree h => exact (hproc ⟨a, rfl⟩).elim

theorem BegunInv.step (hs : BegunInv s) (hstep : Client.step param s l = some s') :
    BegunInv s' := by
  obtain ⟨op, htable⟩ := table_of_step hstep
  refine ⟨fun hheart ↦ ?_, hs.bounded.applyOption htable⟩
  cases step_cases hstep with
  | fault => exact hs.begun hheart
  | app l t hfree h =>
      obtain ⟨hproc, hsame, -⟩ := h.frame
      rw [hproc]
      exact hs.begun (hsame ▸ hheart)
  | heart sent heart hfree hover =>
      refine hs.begun fun hnone ↦ ?_
      simp [hnone, HeartPc.over] at hover
  | create => rfl
  | createFailed hfree hpc =>
      have := hs.begun hheart
      simp [hpc, ProcPc.begun] at this
  | proc a t hfree h => exact h.begun (hs.begun (h.heart ▸ hheart))

theorem begunInv_of_reach {ok : State → Label → Prop} (h : Reach (step param) ok start s) :
    BegunInv s :=
  h.invariant ⟨fun hheart ↦ (hheart rfl).elim, 0, fun _ _ ↦ rfl⟩ fun _ _ _ hs _ hstep ↦
    hs.step hstep

theorem Inv.frees_nil_of_begun (hs : Inv s) (hbegun : s.proc.pc.begun = true)
    (hphase : s.proc.pc.phase ≠ .leaving) : s.frees = [] := by
  refine hs.frees_nil ?_ ?_ <;> intro hpc
  · simp [hpc, ProcPc.phase] at hphase
  · simp [hpc, ProcPc.begun] at hbegun

/-- A step that does not meet the condition leaves the process thread on its way to a connection
without a heart thread. -/
theorem lost_of_not_ok (hs : Inv s) (hb : BegunInv s) (hstep : step param s l = some s')
    (hnot : ¬ HeartOk param s l) :
    s'.heart = .done ∧ s'.frees = [] ∧ s'.proc.pc.phase = .connecting := by
  cases l with
  | heart sent =>
      simp only [HeartOk, Classical.not_imp, not_or, not_not] at hnot
      obtain ⟨hpc, hst, hphase⟩ := hnot
      have hfree := hs.frees_nil_of_begun (hb.begun (by simp [hpc])) (by simp [hphase])
      simp only [step, guard_of_nil hfree, State.osaHeartProcess, hpc, hst, if_false] at hstep
      cases hstep
      exact ⟨rfl, hfree, hphase⟩
  | proc a =>
      cases a with
      | turn ok =>
          simp only [HeartOk, Classical.not_imp, not_or, not_not, Bool.not_eq_true] at hnot
          obtain ⟨hdone, rfl, hrecon⟩ := hnot
          rcases guard_cases hstep with ⟨hfreed, huses, -⟩ | ⟨-, h⟩
          · refine (hfreed (hs.frees_nil ?_ ?_)).elim <;> intro hpc
            · simp [State.uses, hpc, ProcPc.uses] at huses
            · simp [State.uses, hpc, ProcPc.uses] at huses
          · have hproc := procStep_of_act h
            obtain ⟨hdone', hquit⟩ := hproc.going
            have hfree := hs.frees_nil hdone' hquit
            cases hproc with
            | conn _ pc pc' clientSocket table socket hpc hnext =>
                cases hnext with
                | turn _ hok => exact (hok.elim (by simp) fun hne ↦ hne hrecon).elim
                | turnFailed => exact ⟨hdone, hfree, rfl⟩
      | next | socket | connect | stop => exact (hnot trivial).elim
  | sendMsg | destory | app | create => exact (hnot trivial).elim

/-- The heart thread is there in every run in which it does not look at the status too early; when
it does, the process thread can still come to be connected, without it. -/
theorem client_heart_kept : (∀ s, Reach (step param) (HeartOk param) start s → HeartLaw s) ∧
    ∀ s l s', Reach (step param) Always start s → step param s l = some s' →
      ¬ HeartOk param s l → ∃ t, Reach (step param) Always s' t ∧ ¬ HeartLaw t := by
  constructor
  · intro s hreach
    have hinv : HeartInv s :=
      hreach.invariant (fun h ↦ by cases h) fun _ _ _ hs hok hstep ↦ hs.step hok hstep
    exact hinv.law
  · intro s l s' hreach hstep hnot
    have hb := begunInv_of_reach hreach
    obtain ⟨hdone, hfree, hphase⟩ := lost_of_not_ok (inv_of_reach hreach) hb hstep hnot
    have hb' := hb.step hstep
    exact loses_from_connecting ⟨hdone, hfree, hb'.bounded⟩ (hb'.begun (by simp [hdone])) hphase

/-- A session: the client connects, and the heart thread sends twice. -/
def heartRun : List Label :=
  connectRun 3 ++ [.heart true, .heart true, .heart true, .heart true, .heart true, .heart true]

theorem client_heart_kept_run : ∃ s : State, s.proc.pc = .testStatus ∧ s.status = .connect ∧
    s.heart ≠ .none ∧ s.heart ≠ .done := by
  obtain ⟨s, hreach, hs⟩ := Reach.exists_of_exec (step msgClient) (HeartOk msgClient) start heartRun
    (fun s : State ↦ s.proc.pc = .testStatus ∧ s.status = .connect ∧ s.heart ≠ .none) (by decide)
  obtain ⟨hpc, hst, hheart⟩ := of_decide_eq_true hs
  exact ⟨s, hpc, hst, hheart, client_heart_kept.1 s hreach (Or.inl hpc) hst hheart⟩

/-- The first attempt to connect fails, and the heart thread looks at the status before the
second. -/
def lateRun : List Label :=
  [.proc .next, .create true, .proc .next, .proc .next, .proc (.socket 3), .proc (.connect false),
    .heart true, .heart true, .proc .next, .proc .next, .proc (.socket 3), .proc (.connect true),
    .proc .next, .proc .next, .proc .next]

theorem client_heart_lost : ∃ s, Reach (step msgClient) Always start s ∧
    s.proc.pc = .testStatus ∧ s.status = .connect ∧ s.heart = .done := by
  obtain ⟨s, hreach, hs⟩ := Reach.exists_of_exec (step msgClient) Always start lateRun
    (fun s : State ↦ s.proc.pc = .testStatus ∧ s.status = .connect ∧ s.heart = .done) (by decide)
  exact ⟨s, hreach, of_decide_eq_true hs⟩

end OsaBase.Client
