import OsaBase.Server.Leaks

/-!
# Who uses the server when it is freed

`OSA_server_destory` waits until the list is empty and `OSA_server_thread` has stored `SERVER_ABOR`.
It does not wait for the threads that have not added themselves to the list yet, nor for those that
have removed themselves and still read `init_param`.
-/

open Transition

namespace OsaBase.Server

variable {param : ServerParam} {s s' : State} {l : Label param}

/-- No step is left that reads the server. -/
structure LifetimeLaw (param : ServerParam) (s : State) : Prop where
  server : ∀ a, step param s (.server a) = none
  clients : ∀ (i : ℕ) (a : CliAnswer param) (s' : State) (thr : CliThread) (h : OprHandle),
    step param s (.client i a) = some s' → s.threads[i]? = some thr →
      s.handles thr.handle = some h → thr.readsServer h = false

/-- The thread does not read the server any more: it has returned or is about to, or it waits for a
slot that nobody is going to put. -/
def CliThread.finished (thr : CliThread) (h : OprHandle) : Bool :=
  match thr.pc with
  | .deleteBuf | .free => true
  | .getFull => (osaBufGetFull h.clientBuf osaTimeoutForever).isNone
  | .putEmpty bufId => (osaBufPutEmpty h.clientBuf bufId).isNone
  | pc => pc.over

/-- The server is freed only when each client thread has finished with it. -/
def LifetimeOk (param : ServerParam) (s : State) : Label param → Prop
  | .app => s.app = .freeList → ∀ thr ∈ s.threads, ∀ h ∈ s.handles thr.handle,
      thr.pc.over = true ∨ thr.finished h = true
  | _ => True

instance (param : ServerParam) (s : State) : (l : Label param) → Decidable (LifetimeOk param s l)
  | .app => inferInstanceAs (Decidable (_ → _))
  | .server _ | .client _ _ | .sendBuf | .sender => inferInstanceAs (Decidable True)

/-! ## Finished threads -/

theorem CliThread.not_reads_of_finished {thr : CliThread} {h : OprHandle}
    (hfinished : thr.finished h = true) : thr.readsServer h = false := by
  unfold CliThread.finished at hfinished
  unfold CliThread.readsServer
  cases hpc : thr.pc with
  | getFull =>
      rw [hpc] at hfinished
      simpa using osaBufGetFull_isNone.mp hfinished
  | setConnect | testStatus | putEmpty | exitShutdown | exitClose | exitUnset | shutdown | close
  | deleteLock | deleteBuf | free | done | quit | crash | fault => rfl
  | start | createBuf | getSocket | register | testServer | send | turn | exitStatus | unregister
  | testType | drain => simp [hpc, CliPc.over] at hfinished

/-- A thread that has finished only frees its pool and its handle. -/
theorem Move.finished {server : ServerStatus} {thr thr' : CliThread} {h : OprHandle}
    {a : CliAnswer param} {e : CliEffect} (hmove : Move param server thr h a thr' e)
    (hfinished : thr.finished h = true) :
    thr'.finished (e.handle h) = true := by
  unfold CliThread.finished at hfinished
  cases hmove with
  | deleteBuf | free => rfl
  | getFull r hpc hr => simp [hpc, hr] at hfinished
  | putEmpty bufId r hpc hr => simp [hpc, hr] at hfinished
  | create hpc | quit hpc | connect hpc | noBuf hpc | createBuf mem initStatus r hpc
  | getSocket hpc | register mem hpc | connected hpc | disconnected hpc | running hpc | stopped hpc
  | sent bufId hpc | sendFailed bufId hpc | turn hpc | turnFailed hpc | exitStatus hpc
  | exitShutdown hpc | exitClose hpc | exitUnset hpc | unregister hpc | shutdown hpc | close hpc
  | deleteLock hpc | testType hpc | drain r hpc => simp [hpc, CliPc.over] at hfinished

/-- When the server is freed every thread has finished with it. -/
def FinishedInv (s : State) : Prop :=
  s.app.freed = true → LocalInv (fun thr h ↦ thr.finished h = true) s

theorem server_none_of_done (hdone : s.server = .done) (a : ServerAnswer) :
    step param s (.server a) = none := by
  simp [step, State.osaServerThread, hdone]

theorem FinishedInv.step (hs : FinishedInv s) (hinv : Inv s) (hok : LifetimeOk param s l)
    (hstep : Server.step param s l = some s') : FinishedInv s' := by
  intro hfreed
  cases step_cases hstep with
  | app h =>
      cases h with
      | freeList hpc =>
          intro i thr h hthr hover hh
          rcases hok hpc thr (List.mem_of_getElem? hthr) h hh with hend | hfinished
          · simp [hover] at hend
          · exact hfinished
      | freeHandle hpc => exact hs (by rw [hpc]; rfl)
      | wake | destory | setStop | clients | noClients | notAbor | abor | deleteLocks =>
          simp [AppPc.freed] at hfreed
  | server a h =>
      have hdone : s.server = .done := by
        refine hinv.phase.ending (AppPc.ending_of_freed ?_)
        cases h <;> exact hfreed
      rw [server_none_of_done hdone] at hstep
      cases hstep
  | client i a thr hthr hover h =>
      obtain ⟨thr', hframe⟩ := h.frame
      refine (hs (hframe.app ▸ hfreed)).client hinv.handle hthr hover ?_ h
      exact fun h thr' e _ hmove _ hfinished ↦ hmove.finished hfinished
  | sender l _ hnot h =>
      rw [h.frame.app, hnot] at hfreed
      cases hfreed

/-! ## Threads that have not finished -/

/-- The steps that the thread makes before it reads the server. -/
def CliThread.rank (thr : CliThread) (h : OprHandle) : ℕ :=
  match thr.pc with
  | .exitShutdown => 4
  | .exitClose | .shutdown => 3
  | .exitUnset | .putEmpty _ | .close => 2
  | .setConnect | .testStatus | .deleteLock => 1
  | .drain => h.clientBuf.fullQue.count
  | _ => 0

variable (param) in
/-- A thread that has not finished and does not read the server next comes nearer to that. -/
theorem CliThread.nearer (server : ServerStatus) {thr : CliThread} {h : OprHandle}
    (hover : thr.pc.over = false) (hnot : thr.finished h = false)
    (hreads : thr.readsServer h = false) :
    ∃ a thr' e, Move param server thr h a thr' e ∧ e.isLocal = true ∧
      thr'.handle = thr.handle ∧ thr'.pc.over = false ∧
        thr'.finished (e.handle h) = false ∧ thr'.rank (e.handle h) < thr.rank h := by
  unfold CliThread.finished at hnot
  unfold CliThread.readsServer at hreads
  unfold CliThread.rank
  cases hpc : thr.pc with
  | setConnect => exact ⟨_, _, _, .connect hpc, rfl, rfl, rfl, rfl, by simp⟩
  | testStatus =>
      by_cases hst : h.status = .connect
      · exact ⟨_, _, _, .connected hpc hst, rfl, rfl, rfl, rfl, by simp⟩
      · exact ⟨_, _, _, .disconnected hpc hst, rfl, rfl, rfl, rfl, by simp⟩
  | putEmpty bufId =>
      simp only [hpc, Option.isNone_eq_false_iff, Option.isSome_iff_exists] at hnot
      obtain ⟨r, hr⟩ := hnot
      exact ⟨_, _, _, .putEmpty bufId r hpc hr, rfl, rfl, rfl, rfl, by simp⟩
  | exitShutdown => exact ⟨_, _, _, .exitShutdown hpc, rfl, rfl, rfl, rfl, by simp⟩
  | exitClose => exact ⟨_, _, _, .exitClose hpc, rfl, rfl, rfl, rfl, by simp⟩
  | exitUnset => exact ⟨_, _, _, .exitUnset hpc, rfl, rfl, rfl, rfl, by simp⟩
  | shutdown => exact ⟨_, _, _, .shutdown hpc, rfl, rfl, rfl, rfl, by simp⟩
  | close => exact ⟨_, _, _, .close hpc, rfl, rfl, rfl, rfl, by simp⟩
  | deleteLock => exact ⟨_, _, _, .deleteLock hpc, rfl, rfl, rfl, rfl, by simp⟩
  | drain =>
      simp only [hpc, beq_eq_false_iff_ne] at hreads
      obtain ⟨r, hr, hsok, hcount⟩ := osaBufGetFull_pop hreads osaTimeoutNone
      refine ⟨_, _, _, .drain r hpc hr, rfl, rfl, ?_⟩
      simp only [hsok, if_true, CliEffect.handle]
      exact ⟨rfl, rfl, by omega⟩
  | getFull =>
      simp only [hpc, bne_eq_false_iff_eq] at hreads
      simp [hpc, osaBufGetFull_isNone.mpr hreads] at hnot
  | start | createBuf | getSocket | register | testServer | send | turn | exitStatus | unregister
  | testType => simp [hpc] at hreads
  | deleteBuf | free => simp [hpc] at hnot
  | done | quit | crash | fault => simp [hpc, CliPc.over] at hover

/-! ## Runs -/

theorem LifetimeLaw.not_of_reads (hfreed : s.app.freed = true) {i : ℕ} {thr : CliThread}
    {h : OprHandle} (hthr : s.threads[i]? = some thr) (hover : thr.pc.over = false)
    (hh : s.handles thr.handle = some h) (hreads : thr.readsServer h = true) :
    ¬ LifetimeLaw param s := by
  intro hlaw
  have hstep : step param s (.client i .next) = some (s.setThread i { thr with pc := .fault }) := by
    simp [step, State.client, hthr, hover, hh, hfreed, hreads]
  simpa [hreads] using hlaw.clients i .next _ thr h hstep hthr hh

/-- A thread that has not finished comes to a step that reads the freed server. -/
theorem reads_freed (hfreed : s.app.freed = true) {i : ℕ} {thr : CliThread} {h : OprHandle}
    (hthr : s.threads[i]? = some thr) (hover : thr.pc.over = false)
    (hh : s.handles thr.handle = some h) (hnot : thr.finished h = false) :
    ∃ t, Reach (step param) Always s t ∧ t.app.freed = true ∧ ¬ LifetimeLaw param t := by
  induction hn : thr.rank h using Nat.strong_induction_on generalizing s thr h with
  | _ n ih =>
      by_cases hreads : thr.readsServer h = true
      · exact ⟨s, .refl, hfreed, LifetimeLaw.not_of_reads hfreed hthr hover hh hreads⟩
      · have hreads' := Bool.eq_false_iff.mpr hreads
        obtain ⟨a, thr', e, hmove, hlocal, hhandle, hover', hnot', hlt⟩ :=
          CliThread.nearer param s.status hover hnot hreads'
        obtain ⟨s', hstep, happ, hthr', hh'⟩ :=
          client_of_local hthr hover hh (fun h ↦ hreads h.2) hmove hlocal
        obtain ⟨t, ht, hlaw⟩ := ih _ (hn ▸ hlt) (by rw [happ]; exact hfreed) hthr' hover'
          (by rw [hhandle]; exact hh') hnot' rfl
        exact ⟨t, (Reach.tail _ .refl trivial hstep).trans ht, hlaw⟩

theorem finished_inv (h : Reach (step param) (LifetimeOk param) start s) :
    Inv s ∧ FinishedInv s := by
  refine h.invariant (I := fun s ↦ Inv s ∧ FinishedInv s) ?_ fun s l s' hs hok hstep ↦ ?_
  · exact ⟨start_inv, fun hfreed ↦ by cases hfreed⟩
  · exact ⟨hs.1.step hstep, hs.2.step hs.1 hok hstep⟩

/-- When the server is freed no step is left that reads it, if each client thread has finished with
it by then; a thread that has not comes to such a step. -/
theorem server_freed_unread : (∀ s, Reach (step param) (LifetimeOk param) start s →
      s.app.freed = true → LifetimeLaw param s) ∧
    ∀ s l s', Reach (step param) Always start s → step param s l = some s' →
      ¬ LifetimeOk param s l →
        ∃ t, Reach (step param) Always s' t ∧ t.app.freed = true ∧ ¬ LifetimeLaw param t := by
  constructor
  · intro s hreach hfreed
    obtain ⟨hinv, hfinished⟩ := finished_inv hreach
    refine ⟨server_none_of_done (hinv.phase.ending (AppPc.ending_of_freed hfreed)), ?_⟩
    intro i a s' thr h hstep hthr hh
    obtain ⟨u, hu, hover, -⟩ := client_cases hstep
    obtain rfl : u = thr := Option.some.inj (hu.symm.trans hthr)
    exact CliThread.not_reads_of_finished (hfinished hfreed i u h hthr hover hh)
  · intro s l s' hreach hstep hnot
    cases step_cases hstep with
    | server | client => exact (hnot trivial).elim
    | sender l hl => rcases hl with rfl | rfl <;> exact (hnot trivial).elim
    | app happ =>
        simp only [LifetimeOk, Classical.not_imp, not_forall, not_or, Bool.not_eq_true] at hnot
        obtain ⟨hpc, thr, hthr, h, hh, hover, hfinished⟩ := hnot
        obtain ⟨i, hi⟩ := List.getElem?_of_mem hthr
        obtain rfl : s' = { s with app := .freeHandle } := by
          simp only [step, State.osaServerDestory, hpc, Option.some.injEq] at hstep
          exact hstep.symm
        exact reads_freed (s := { s with app := .freeHandle }) rfl hi hover hh hfinished

theorem server_freed_unread_run : ∃ s, s.app = .returned ∧ LifetimeLaw oneClient s := by
  obtain ⟨s, hreach, hs⟩ := Reach.exists_of_exec (step oneClient) (LifetimeOk oneClient) start
    (listenRun 3 ++ admitRun 4 0 ++ joinRun 0 10 ++ stopRun ++
      [.client 0 .next, .client 0 .next] ++ hangUpRun 0 ++
      [.client 0 .next, .client 0 .next, .client 0 .next] ++ returnRun)
    (fun s ↦ s.app = .returned) (by decide)
  have hreturned := of_decide_eq_true hs
  exact ⟨s, hreturned, server_freed_unread.1 s hreach (by rw [hreturned]; rfl)⟩

/-- A client thread that was created and is not in the list yet. -/
theorem server_freed_read : ∃ s, Reach (step oneClient) Always start s ∧ s.app.freed = true ∧
    ¬ LifetimeLaw oneClient s := by
  obtain ⟨s, hreach, hs⟩ := Reach.exists_of_exec (step oneClient) Always start
    (listenRun 3 ++ admitRun 4 0 ++ stopRun ++ [.app, .app, .app, .app])
    (fun s ↦ s.app.freed = true ∧ (s.threads[0]?).map CliThread.pc = some .start ∧
      (s.threads[0]?).map CliThread.handle = some 0 ∧ (s.handles 0).isSome) (by decide)
  obtain ⟨hfreed, hpc, hhandle, hh⟩ := of_decide_eq_true hs
  obtain ⟨thr, hthr, hpc⟩ := Option.map_eq_some_iff.mp hpc
  obtain ⟨h, hh⟩ := Option.isSome_iff_exists.mp hh
  have hhandle' : thr.handle = 0 := by simpa [hthr] using hhandle
  refine ⟨s, hreach, hfreed, LifetimeLaw.not_of_reads hfreed hthr ?_ (hhandle' ▸ hh) ?_⟩
  · simp [hpc, CliPc.over]
  · simp [hpc, CliThread.readsServer]

end OsaBase.Server
