import OsaBase.Client.Steps

/-!
# The stop request of `OSA_client_destory`

`OSA_client_processThr` stores `CLIENT_CONNECT` behind `OSA_connetBlockFd` without a look at the
status, so the stop must not come while it connects, nor between that and the store.
-/

open Transition

namespace OsaBase.Client

open Server (ClientStatus)

variable {param : ClientParam} {s s' : State} {l : Label}

/-- The client is stopped, and from here on only `CLIENT_ABOR` is stored. -/
structure StopLaw (param : ClientParam) (s : State) : Prop where
  status : s.status ≠ .connect
  later : ∀ l s', step param s l = some s' → s'.status = s.status ∨ s'.status = .abor

/-- The process thread is behind `OSA_connetBlockFd` and is going to store `CLIENT_CONNECT`. -/
def ProcPc.storing : ProcPc → Bool
  | .conn .publish | .setConnect => true
  | _ => false

/-- `CLIENT_DISCONNECT` is not stored while the process thread is going to store `CLIENT_CONNECT`,
and when it was stored no `OSA_connetBlockFd` is left behind. -/
def StopOk (param : ClientParam) (s : State) : Label → Prop
  | .app _ => s.app = .setDisconnect → s.proc.pc.storing = false
  | .proc (.connect ok) => s.proc.pc = .conn .connect → ok = true ∨ param.reconFlag ≠ 1 →
      s.app.stopped = false
  | _ => True

instance (param : ClientParam) (s : State) : (l : Label) → Decidable (StopOk param s l)
  | .app _ => inferInstanceAs (Decidable (_ → _))
  | .proc (.connect _) => inferInstanceAs (Decidable (_ → _ → _))
  | .sendMsg | .destory | .heart _ | .create _ | .proc .next | .proc (.socket _) | .proc (.turn _)
  | .proc .stop => inferInstanceAs (Decidable True)

/-- After the stop the status is not `CLIENT_CONNECT`, and nobody is going to store that. -/
def StopInv (s : State) : Prop :=
  s.app.stopped = true → s.status ≠ .connect ∧ s.proc.pc.storing = false

theorem ProcPc.storing_ofConn {pc : ClientPc} (h : (ProcPc.ofConn pc).storing = true) :
    pc = .publish ∨ pc = .publishLocked := by
  cases pc <;> simp [ProcPc.ofConn, ProcPc.storing] at h ⊢

/-- The status after a step of the process thread, and whether it is going to store
`CLIENT_CONNECT`. -/
theorem ProcStep.stop {a : ClientAnswer} (h : ProcStep param s a s') :
    (s'.status = s.status ∨ s'.status = .abor ∨ s.proc.pc.storing = true) ∧
      (s'.proc.pc.storing = true → s.proc.pc.storing = true ∨
        ∃ ok, s.proc.pc = .conn .connect ∧ a = .connect ok ∧
          (ok = true ∨ param.reconFlag ≠ 1)) := by
  cases h with
  | begin =>
      refine ⟨Or.inl rfl, fun h ↦ ?_⟩
      by_cases htype : param.clientType = .msgType <;>
        simp [State.goto, htype, ProcPc.storing] at h
  | emptyBuf | noEmptyBuf | deleteMutex | free | connected | stopped =>
      exact ⟨Or.inl rfl, fun h ↦ (by cases h)⟩
  | setAbor => exact ⟨Or.inr (Or.inl rfl), fun h ↦ (by cases h)⟩
  | setConnect hpc => exact ⟨Or.inr (Or.inr (by rw [hpc]; rfl)), fun h ↦ (by cases h)⟩
  | conn _ pc pc' clientSocket table socket hpc hnext =>
      refine ⟨Or.inl rfl, fun h ↦ ?_⟩
      rcases ProcPc.storing_ofConn h with rfl | rfl
      · cases hnext with
        | connect ok hcan => exact Or.inr ⟨ok, hpc, rfl, hcan⟩
      · cases hnext with
        | publish => exact Or.inl (by rw [hpc]; rfl)

theorem StopInv.step (hs : StopInv s) (hok : StopOk param s l)
    (hstep : Client.step param s l = some s') : StopInv s' := by
  intro hstop
  cases step_cases hstep with
  | fault => exact hs hstop
  | app l t hfree h =>
      obtain ⟨hproc, ⟨hstop, hstatus⟩ | ⟨hpc, ⟨sent, rfl⟩, hstatus⟩⟩ := h.stopped hstop
      · rw [hproc, hstatus]
        exact hs hstop
      · rw [hproc, hstatus]
        exact ⟨by simp, hok hpc⟩
  | heart => exact hs hstop
  | create | createFailed => exact ⟨(hs hstop).1, rfl⟩
  | proc a t hfree h =>
      obtain ⟨hstatus, hstoring⟩ := h.stop
      rw [h.frees.1] at hstop
      obtain ⟨hst, hnot⟩ := hs hstop
      constructor
      · rcases hstatus with hstatus | hstatus | h
        · rwa [hstatus]
        · simp [hstatus]
        · simp [hnot] at h
      · by_contra hgoing
        rcases hstoring (Bool.not_eq_false _ ▸ hgoing) with h | ⟨ok, hpc, rfl, hcan⟩
        · simp [hnot] at h
        · simp [hok hpc hcan] at hstop

theorem StopLaw.of_inv (hs : StopInv s) (hstop : s.app.stopped = true) : StopLaw param s where
  status := (hs hstop).1
  later := by
    intro l s' hstep
    cases step_cases hstep with
    | fault | heart | create | createFailed => exact Or.inl rfl
    | app l t hfree h =>
        cases h with
        | setDisconnect sent hpc => simp [hpc, AppPc.stopped] at hstop
        | call | destory | sendMsg | sent | log | wait | abor | deleteMutex | free =>
            exact Or.inl rfl
    | proc a t hfree h =>
        rcases h.stop.1 with hstatus | hstatus | hstoring
        · exact Or.inl hstatus
        · exact Or.inr hstatus
        · simp [(hs hstop).2] at hstoring

/-! ## A stop that comes too early -/

variable (param) in
theorem setConnect_stores (hfree : s.frees = []) (hstop : s.app.stopped = true)
    (hpc : s.proc.pc = .setConnect) :
    ∃ t, step param s (.proc .next) = some t ∧ t.app.stopped = true ∧ ¬ StopLaw param t := by
  refine ⟨{ s.goto (.conn .publishLocked) with status := .connect }, ?_, hstop,
    fun hlaw ↦ hlaw.status rfl⟩
  simp [step, guard_of_nil hfree, State.osaClientProcessThr, hpc]

/-- A process thread that is going to store `CLIENT_CONNECT` does so in its next two steps. -/
theorem storing_stores (hfree : s.frees = []) (hstop : s.app.stopped = true)
    (hgoing : s.proc.pc.storing = true) :
    ∃ t, Reach (step param) Always s t ∧ t.app.stopped = true ∧ ¬ StopLaw param t := by
  cases hpc : s.proc.pc with
  | setConnect =>
      obtain ⟨t, hstep, ht⟩ := setConnect_stores param hfree hstop hpc
      exact ⟨t, .tail _ .refl trivial hstep, ht⟩
  | conn pc =>
      cases pc with
      | publish =>
          have hstep : step param s (.proc .next) =
              some { s.goto .setConnect with socket := s.proc.clientSocket } := by
            simp [step, guard_of_nil hfree, State.osaClientProcessThr, hpc, State.connStep,
              OsaBase.osaClientProcessThr, FdTable.applyOption, State.goto, ProcPc.ofConn]
          obtain ⟨t, hstep', ht⟩ := setConnect_stores param
            (s := { s.goto .setConnect with socket := s.proc.clientSocket }) hfree hstop rfl
          exact ⟨t, .tail _ (.tail _ .refl trivial hstep) trivial hstep', ht⟩
      | repeatConnect | closeOld | create | connect | publishLocked | receive | unset | quit
      | quitClose | done => simp [hpc, ProcPc.storing] at hgoing
  | start | createHeart | testEmptyBuf | deleteMutex | free | testStatus | setAbor | done | quit =>
      simp [hpc, ProcPc.storing] at hgoing

theorem connect_publishes (clientSocket : ℤ) {ok : Bool}
    (hcan : ok = true ∨ param.reconFlag ≠ 1) : ∃ fdOp,
      OsaBase.osaClientProcessThr param.reconFlag ⟨.connect, clientSocket⟩ (.connect ok) =
        some ⟨⟨.publish, clientSocket⟩, none, fdOp⟩ := by
  cases ok with
  | true => exact ⟨_, rfl⟩
  | false =>
      have hrecon : param.reconFlag ≠ 1 := hcan.resolve_left (by simp)
      exact ⟨none, by simp [OsaBase.osaClientProcessThr, hrecon]⟩

/-- A step that does not meet the condition leaves a stopped client whose process thread is going
to store `CLIENT_CONNECT`. -/
theorem storing_of_not_ok (hs : Inv s) (hstep : step param s l = some s')
    (hnot : ¬ StopOk param s l) :
    s'.frees = [] ∧ s'.app.stopped = true ∧ s'.proc.pc.storing = true := by
  have hthere (h : s.proc.pc.storing = true) : s.frees = [] := by
    refine hs.frees_nil ?_ ?_ <;>
      · intro hpc
        simp [hpc, ProcPc.storing] at h
  cases l with
  | app sent =>
      simp only [StopOk, Classical.not_imp, Bool.not_eq_false] at hnot
      have hfree := hthere hnot.2
      simp only [step, guard_of_nil hfree, State.osaClientApp, hnot.1] at hstep
      cases hstep
      exact ⟨hfree, rfl, hnot.2⟩
  | proc a =>
      cases a with
      | connect ok =>
          simp only [StopOk, Classical.not_imp, Bool.not_eq_false] at hnot
          obtain ⟨hpc, hcan, hstop⟩ := hnot
          have hfree : s.frees = [] := hs.frees_nil (by simp [hpc]) (by simp [hpc])
          obtain ⟨fdOp, hact⟩ := connect_publishes s.proc.clientSocket hcan
          simp only [step, guard_of_nil hfree, State.osaClientProcessThr, hpc, State.connStep,
            reduceCtorEq, if_false, hact, Option.bind_some, Option.map_eq_some_iff] at hstep
          obtain ⟨table, -, rfl⟩ := hstep
          exact ⟨hfree, hstop, rfl⟩
      | next | socket | turn | stop => exact (hnot trivial).elim
  | sendMsg | destory | heart | create => exact (hnot trivial).elim

/-- The stop request stays in every run in which it does not come too early; when it does, the
process thread takes it back. -/
theorem client_stop_kept : (∀ s, Reach (step param) (StopOk param) start s →
      s.app.stopped = true → StopLaw param s) ∧
    ∀ s l s', Reach (step param) Always start s → step param s l = some s' → ¬ StopOk param s l →
      ∃ t, Reach (step param) Always s' t ∧ t.app.stopped = true ∧ ¬ StopLaw param t := by
  constructor
  · intro s hreach hstop
    have hinv : StopInv s :=
      hreach.invariant (fun h ↦ by cases h) fun _ _ _ hs hok hstep ↦ hs.step hok hstep
    exact .of_inv hinv hstop
  · intro s l s' hreach hstep hnot
    obtain ⟨hfree, hstop, hgoing⟩ := storing_of_not_ok (inv_of_reach hreach) hstep hnot
    exact storing_stores hfree hstop hgoing

theorem client_stop_kept_run : ∃ s, s.app = .returned ∧ StopLaw msgClient s := by
  obtain ⟨s, hreach, hs⟩ := Reach.exists_of_exec (step msgClient) (StopOk msgClient) start
    (connectRun 3 ++ destoryRun ++ quitRun ++ returnRun) (fun s ↦ s.app = .returned) (by decide)
  have hreturned := of_decide_eq_true hs
  exact ⟨s, hreturned, client_stop_kept.1 s hreach (by rw [hreturned]; rfl)⟩

/-- The stop comes while the process thread connects. -/
theorem client_stop_overwritten : ∃ s, Reach (step msgClient) Always start s ∧
    s.app.stopped = true ∧ s.status = .connect := by
  obtain ⟨s, hreach, hs⟩ := Reach.exists_of_exec (step msgClient) Always start
    (destoryRun ++ connectRun 3) (fun s ↦ s.app.stopped && decide (s.status = .connect))
    (by decide)
  rw [Bool.and_eq_true, decide_eq_true_iff] at hs
  exact ⟨s, hreach, hs⟩

end OsaBase.Client
