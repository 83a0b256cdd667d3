import OsaBase.Server.Invariant

/-!
# The stop request of `OSA_server_destory`

The status word has three writers: `OSA_server_thread` stores `SERVER_STAR` once its socket listens
and `SERVER_ABOR` at its end, and `OSA_server_destory` stores `SERVER_STOP`. The store of
`SERVER_STAR` reads nothing before, so it must not come after the stop.
-/

open Transition

namespace OsaBase.Server

variable {param : ServerParam} {s s' : State} {l : Label param}

/-- The server is stopped, and so it is for the loop of `OSA_server_thread` and for that of each
client thread. -/
structure StopLaw (param : ServerParam) (s : State) : Prop where
  status : s.status ≠ .star
  accept : ∀ s', s.server = .test → step param s (.server .next) = some s' → s'.server = .setAbor
  client : ∀ (i : ℕ) (thr : CliThread) (s' : State), s.threads[i]? = some thr →
    thr.pc = .testServer → step param s (.client i .next) = some s' →
      ∃ thr' : CliThread, s'.threads[i]? = some thr' ∧ thr'.pc ≠ .getFull ∧ thr'.pc ≠ .turn

/-- `SERVER_STOP` is not stored while `OSA_server_thread` is about to store `SERVER_STAR`, and no
socket is made to listen when it was stored. -/
def StopOk (param : ServerParam) (s : State) : Label param → Prop
  | .app => s.app = .setStop → s.server ≠ .setStar
  | .server (.create a) =>
    (osaCreateTcpFd param.serverPort a).1 = osaSok → s.app.stopped = false
  | _ => True

instance (param : ServerParam) (s : State) : (l : Label param) → Decidable (StopOk param s l)
  | .app | .server (.create _) => inferInstanceAs (Decidable (_ → _))
  | .server .next | .server (.accept _) | .server (.mem _) | .server (.thread _) | .client _ _
  | .sendBuf | .sender => inferInstanceAs (Decidable True)

/-- After the stop the status is not `SERVER_STAR`, and nobody is about to store that. -/
def StopInv (s : State) : Prop :=
  s.app.stopped = true → s.status ≠ .star ∧ s.server ≠ .setStar

theorem StopInv.congr (hs : StopInv s) (hserver : s'.server = s.server) (happ : s'.app = s.app)
    (hstatus : s'.status = s.status) : StopInv s' := by
  unfold StopInv
  rw [hserver, happ, hstatus]
  exact hs

theorem StopInv.step (hs : StopInv s) (hok : StopOk param s l)
    (hstep : Server.step param s l = some s') : StopInv s' := by
  cases step_cases hstep with
  | app h =>
      cases h with
      | wake hpc | destory hpc => exact fun hstop ↦ by cases hstop
      | setStop hpc => exact fun _ ↦ ⟨fun h ↦ (by cases h), hok hpc⟩
      | clients hpc | noClients hpc | notAbor hpc | abor hpc | deleteLocks hpc | freeList hpc
      | freeHandle hpc => exact fun _ ↦ hs (by rw [hpc]; rfl)
  | server a h =>
      cases h with
      | created a table hpc hsok =>
          intro hstop
          rw [show s.app.stopped = false from hok hsok] at hstop
          cases hstop
      | setStar hpc => exact fun hstop ↦ ((hs hstop).2 hpc).elim
      | setAbor hpc => exact fun _ ↦ ⟨fun h ↦ (by cases h), fun h ↦ (by cases h)⟩
      | createFailed | goOn | leave | noClient | lowClient | accepted | readSize | admitted
      | refused | noMemory | allocated | spawned | spawnFailed =>
          exact fun hstop ↦ ⟨(hs hstop).1, fun h ↦ (by cases h)⟩
  | client i a thr _ _ h =>
      obtain ⟨thr', hframe⟩ := h.frame
      exact hs.congr hframe.server hframe.app hframe.status
  | sender l _ _ h => exact hs.congr h.frame.server h.frame.app h.frame.status

theorem Move.of_testServer {server : ServerStatus} {thr thr' : CliThread} {h : OprHandle}
    {a : CliAnswer param} {e : CliEffect} (hmove : Move param server thr h a thr' e)
    (hpc : thr.pc = .testServer) :
    e = .none ∧ (server = .star ∨ thr'.pc = .unregister) := by
  cases hmove with
  | running _ hstar => exact ⟨rfl, Or.inl hstar⟩
  | stopped => exact ⟨rfl, Or.inr rfl⟩
  | create h | quit h | connect h | noBuf h | createBuf _ _ _ h | getSocket h | register _ h
  | connected h | disconnected h | getFull _ h | sent _ h | sendFailed _ h | putEmpty _ _ h
  | turn h | turnFailed h | exitStatus h | exitShutdown h | exitClose h | exitUnset h
  | unregister h | shutdown h | close h | deleteLock h | testType h | drain _ h | deleteBuf h
  | free h =>
      rw [hpc] at h
      cases h

/-- A thread that reads a stopped status begins no further turn. -/
theorem client_stops (hst : s.status ≠ .star) {i : ℕ} {a : CliAnswer param} {thr : CliThread}
    (hthr : s.threads[i]? = some thr) (hpc : thr.pc = .testServer)
    (hstep : step param s (.client i a) = some s') :
    ∃ thr' : CliThread, s'.threads[i]? = some thr' ∧ thr'.pc ≠ .getFull ∧ thr'.pc ≠ .turn := by
  obtain ⟨thr₀, hthr₀, -, h⟩ := client_cases hstep
  obtain rfl : thr₀ = thr := Option.some.inj (hthr₀.symm.trans hthr)
  have hlt : i < s.threads.length := (List.getElem?_eq_some_iff.mp hthr).1
  cases h with
  | noHandle | fault | pushCrash | earseCrash =>
      exact ⟨_, List.getElem?_set_self hlt, by simp, by simp⟩
  | none h thr' _ hmove =>
      refine ⟨thr', List.getElem?_set_self hlt, ?_⟩
      rcases (hmove.of_testServer hpc).2 with hstar | hleave
      · exact (hst hstar).elim
      · simp [hleave]
  | write h thr' h' _ hmove | push h thr' mem l _ hmove | earse h thr' l _ hmove
  | shutdown h thr' _ hmove | close h thr' _ hmove | free h thr' _ hmove =>
      cases (hmove.of_testServer hpc).1

theorem StopLaw.of_status (hst : s.status ≠ .star) : StopLaw param s where
  status := hst
  accept := by
    intro s' hpc hstep
    simp only [step, State.osaServerThread, hpc, Option.some.injEq] at hstep
    rw [← hstep, if_neg hst]
  client := fun _ _ _ hthr hpc hstep ↦ client_stops hst hthr hpc hstep

/-- The stop request stays in every run in which `OSA_server_thread` has not stored `SERVER_STAR`
too late; when it is going to, its next step takes the request back. -/
theorem server_stop_kept : (∀ s, Reach (step param) (StopOk param) start s →
      s.app.stopped = true → StopLaw param s) ∧
    ∀ s l s', step param s l = some s' → ¬ StopOk param s l →
      ∃ t, step param s' (.server .next) = some t ∧ t.app.stopped = true ∧
        ¬ StopLaw param t := by
  constructor
  · intro s hreach hstop
    have hinv : StopInv s :=
      hreach.invariant (fun h ↦ by cases h) fun _ _ _ hs hok hstep ↦ hs.step hok hstep
    exact .of_status (hinv hstop).1
  · intro s l s' hstep hnot
    suffices h : s'.server = .setStar ∧ s'.app.stopped = true by
      refine ⟨{ s' with status := .star, server := .test }, ?_, h.2, fun hlaw ↦ hlaw.status rfl⟩
      simp only [step, State.osaServerThread, h.1]
    cases step_cases hstep with
    | app h =>
        simp only [StopOk, Classical.not_imp, not_not] at hnot
        cases h with
        | setStop => exact ⟨hnot.2, rfl⟩
        | wake hpc | destory hpc | clients hpc | noClients hpc | notAbor hpc | abor hpc
        | deleteLocks hpc | freeList hpc | freeHandle hpc =>
            rw [hpc] at hnot
            cases hnot.1
    | server a h =>
        cases h with
        | created a table hpc hsok =>
            simp only [StopOk, Classical.not_imp, Bool.not_eq_false] at hnot
            exact ⟨rfl, hnot.2⟩
        | createFailed a table hpc hfail => exact (hnot fun hsok ↦ (hfail hsok).elim).elim
        | setStar | goOn | leave | noClient | lowClient | accepted | readSize | admitted | refused
        | noMemory | allocated | spawned | spawnFailed | setAbor => exact (hnot trivial).elim
    | client i a thr _ _ h => exact (hnot trivial).elim
    | sender l hl _ h =>
        rcases hl with rfl | rfl <;> exact (hnot trivial).elim

theorem server_stop_kept_run : ∃ s, s.app.stopped = true ∧ StopLaw oneClient s := by
  obtain ⟨s, hreach, hs⟩ := Reach.exists_of_exec (step oneClient) (StopOk oneClient) start
    (listenRun 3 ++ [.app, .app, .app]) (fun s ↦ s.app.stopped) (by decide)
  exact ⟨s, hs, server_stop_kept.1 s hreach hs⟩

/-- The stop comes before the socket listens. -/
theorem server_stop_overwritten : ∃ s, Reach (step oneClient) Always start s ∧
    s.app.stopped = true ∧ s.status = .star := by
  obtain ⟨s, hreach, hs⟩ := Reach.exists_of_exec (step oneClient) Always start
    ([.app, .app, .app] ++ listenRun 3) (fun s ↦ s.app.stopped && decide (s.status = .star))
    (by decide)
  rw [Bool.and_eq_true, decide_eq_true_iff] at hs
  exact ⟨s, hreach, hs⟩

end OsaBase.Server
