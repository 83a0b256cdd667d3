import OsaBase.Server.Descriptors

/-!
# Descriptors that the server loses

Nobody closes the listening socket, and nobody closes the descriptor of a client that
`OSA_server_thread` has accepted and does not serve: because the limit is reached, the server was
stopped, or the handle or the thread could not be made.
-/

open Transition

namespace OsaBase.Server

variable {param : ServerParam} {s s' : State} {l : Label param}

/-- A socket that is open is a client's, and its thread has still to close it, or
`OSA_server_thread` is still busy with it. -/
structure NoFdLost (s : State) : Prop where
  listening : ∀ fd, s.table.fds fd ≠ .opened
  clients : ∀ fd c, s.table.fds fd = .connected c →
    (∃ thr ∈ s.threads, thr.conn = c ∧ thr.pc.holdsFd = true) ∨ s.server.hand = some (fd, c)

/-! ## The listening socket -/

/-- The server's socket is open, and nobody takes it for a client's. -/
structure State.Listens (s : State) : Prop where
  pos : 0 ≤ s.serverSocket
  isOpen : s.table.fds s.serverSocket = .opened
  handles : ∀ x h, s.handles x = some h → h.socket ≠ s.serverSocket
  threads : ∀ (i : ℕ) (thr : CliThread), s.threads[i]? = some thr →
    thr.clientSocket ≠ s.serverSocket
  hand : ∀ fd conn, s.server.hand = some (fd, conn) → fd ≠ s.serverSocket

structure ListenInv (s : State) : Prop where
  create : s.server = .create → s.threads = [] ∧ ∀ x, s.handles x = none
  listens : s.server ≠ .create → s.server ≠ .failed → s.Listens

theorem Move.socket {server : ServerStatus} {thr thr' : CliThread} {h : OprHandle}
    {a : CliAnswer param} {e : CliEffect} (hmove : Move param server thr h a thr' e) :
    ((e.handle h).socket = h.socket ∨ (e.handle h).socket = -1) ∧
      (thr'.clientSocket = thr.clientSocket ∨ thr'.clientSocket = h.socket) := by
  cases hmove with
  | getSocket hpc =>
      refine ⟨Or.inl ?_, Or.inr rfl⟩
      simp only [CliEffect.handle]
      split <;> rfl
  | exitUnset hpc => exact ⟨Or.inr rfl, Or.inl rfl⟩
  | create | quit | connect | noBuf | createBuf | register | connected | disconnected | running
  | stopped | getFull | sent | sendFailed | putEmpty | turn | turnFailed | exitStatus | exitShutdown
  | exitClose | unregister | shutdown | close | deleteLock | testType | drain | deleteBuf | free =>
      exact ⟨Or.inl rfl, Or.inl rfl⟩

namespace State.Listens

/-- A client thread moves on; its handle keeps its socket or loses it. -/
theorem thread (hs : s.Listens) {i : ℕ} {thr thr' : CliThread}
    (hframe : ThreadFrame s s' i thr thr')
    (hfds : s'.table.fds s.serverSocket = .opened)
    (hclient : thr'.clientSocket ≠ s.serverSocket)
    (hhandles : ∀ x h, s'.handles x = some h → h.socket ≠ s.serverSocket) : s'.Listens := by
  constructor
  · rw [hframe.serverSocket]
    exact hs.pos
  · rw [hframe.serverSocket]
    exact hfds
  · rw [hframe.serverSocket]
    exact hhandles
  · rw [hframe.serverSocket, hframe.threads]
    intro j u hu
    rcases getElem?_set_cases hu with ⟨-, rfl⟩ | ⟨-, hu⟩
    · exact hclient
    · exact hs.threads j u hu
  · rw [hframe.serverSocket, hframe.server]
    exact hs.hand

theorem client (hs : s.Listens) {i : ℕ} {a : CliAnswer param} {thr : CliThread}
    (hthr : s.threads[i]? = some thr) (h : ClientStep param s i a thr s') : s'.Listens := by
  have hclient := hs.threads i thr hthr
  have hmove : ∀ {h thr' e}, s.handles thr.handle = some h → Move param s.status thr h a thr' e →
      (e.handle h).socket ≠ s.serverSocket ∧ thr'.clientSocket ≠ s.serverSocket := by
    intro h thr' e hh hm
    have hpos := hs.pos
    have hne := hs.handles _ h hh
    obtain ⟨hsocket, hfd⟩ := hm.socket
    refine ⟨?_, ?_⟩
    · rcases hsocket with heq | heq <;> omega
    · rcases hfd with heq | heq <;> rw [heq] <;> assumption
  cases h with
  | noHandle | fault | pushCrash | earseCrash =>
      exact hs.thread ⟨rfl, rfl, rfl, rfl, rfl, rfl, rfl, rfl, rfl⟩ hs.isOpen hclient hs.handles
  | none h thr' hh hm | push h thr' mem l hh hm | earse h thr' l hh hm | shutdown h thr' hh hm =>
      exact hs.thread hm.frame hs.isOpen (hmove hh hm).2
        hs.handles
  | write h thr' h' hh hm =>
      refine hs.thread hm.frame hs.isOpen (hmove hh hm).2
        fun x u hu ↦ ?_
      rcases update_eq_cases (f := s.handles) hu with ⟨-, heq⟩ | ⟨-, hu⟩
      · rw [← Option.some.inj heq]
        exact (hmove hh hm).1
      · exact hs.handles x u hu
  | close h thr' hh hm =>
      exact hs.thread hm.frame
        ((Function.update_of_ne hclient.symm ..).trans hs.isOpen) (hmove hh hm).2 hs.handles
  | free h thr' hh hm =>
      refine hs.thread hm.frame hs.isOpen (hmove hh hm).2
        fun x u hu ↦ ?_
      rcases update_eq_cases (f := s.handles) hu with ⟨-, heq⟩ | ⟨-, hu⟩
      · cases heq
      · exact hs.handles x u hu

end State.Listens

/-- The socket, the descriptors, the threads and the handles' sockets stay. -/
theorem State.Listens.congr (hs : s.Listens) (hsocket : s'.serverSocket = s.serverSocket)
    (hfds : s'.table.fds s.serverSocket = .opened) (hthreads : s'.threads = s.threads)
    (hhandles : ∀ x h, s'.handles x = some h → h.socket ≠ s.serverSocket)
    (hhand : ∀ fd conn, s'.server.hand = some (fd, conn) → fd ≠ s.serverSocket) :
    s'.Listens := by
  constructor
  · rw [hsocket]
    exact hs.pos
  · rw [hsocket]
    exact hfds
  · rw [hsocket]
    exact hhandles
  · rw [hsocket, hthreads]
    exact hs.threads
  · rw [hsocket]
    exact hhand

namespace ListenInv

theorem server (hs : ListenInv s) {a : ServerAnswer} (h : ServerStep param s a s') :
    ListenInv s' := by
  have hlistens := hs.listens
  cases h with
  | created a table hpc hsok htable =>
      obtain ⟨hthreads, hhandles⟩ := hs.create hpc
      refine ⟨fun h ↦ (by cases h), fun _ _ ↦ ?_⟩
      simp only [FdTable.apply] at htable
      split at htable
      · next hfd =>
        cases htable
        refine ⟨hfd.1, Function.update_self .., fun x h hh ↦ ?_, fun i thr hthr ↦ ?_,
          fun _ _ h ↦ by cases h⟩
        · change s.handles x = some h at hh
          rw [hhandles x] at hh
          cases hh
        · change s.threads[i]? = some thr at hthr
          rw [hthreads] at hthr
          cases hthr
      · cases htable
  | createFailed => exact ⟨fun h ↦ (by cases h), fun _ h ↦ (h rfl).elim⟩
  | setStar hpc | goOn hpc | leave hpc | noClient client hpc | refused fd conn clientSize hpc
  | noMemory fd conn hpc | spawnFailed fd conn handle hpc | setAbor hpc =>
      rw [hpc] at hlistens
      have hl := hlistens (by simp) (by simp)
      refine ⟨fun h ↦ (by cases h), fun _ _ ↦ ?_⟩
      exact hl.congr rfl hl.isOpen rfl hl.handles fun _ _ h ↦ by cases h
  | readSize fd conn hpc | admitted fd conn clientSize hpc =>
      have hl := hlistens (by simp [hpc]) (by simp [hpc])
      refine ⟨fun h ↦ (by cases h), fun _ _ ↦ ?_⟩
      refine hl.congr rfl hl.isOpen rfl hl.handles fun fd' conn' h ↦ hl.hand fd' conn' ?_
      rw [hpc]
      exact h
  | lowClient client fd table hpc htable | accepted client fd table hpc _ htable =>
      have hl := hlistens (by simp [hpc]) (by simp [hpc])
      simp only [FdTable.apply] at htable
      split at htable
      · next hfd =>
        cases htable
        have hne : fd ≠ s.serverSocket := by
          rintro rfl
          have hopen := hl.isOpen
          rw [hfd.2] at hopen
          cases hopen
        refine ⟨fun h ↦ (by cases h), fun _ _ ↦ ?_⟩
        refine hl.congr rfl ((Function.update_of_ne hne.symm ..).trans hl.isOpen) rfl hl.handles
          fun fd' conn' h ↦ ?_
        cases h
        try exact hne
      · cases htable
  | allocated fd conn handle hpc =>
      have hl := hlistens (by simp [hpc]) (by simp [hpc])
      have hne := hl.hand fd conn (by rw [hpc]; rfl)
      refine ⟨fun h ↦ (by cases h), fun _ _ ↦ ?_⟩
      refine hl.congr rfl hl.isOpen rfl (fun x h hh ↦ ?_) fun fd' conn' h ↦ ?_
      · rcases update_eq_cases (f := s.handles) hh with ⟨-, heq⟩ | ⟨-, hh⟩
        · rw [← Option.some.inj heq]
          exact hne
        · exact hl.handles x h hh
      · cases h
        exact hne
  | spawned fd conn handle hpc =>
      have hl := hlistens (by simp [hpc]) (by simp [hpc])
      refine ⟨fun h ↦ (by cases h), fun _ _ ↦ ?_⟩
      refine ⟨hl.pos, hl.isOpen, hl.handles, fun i thr hthr ↦ ?_, fun _ _ h ↦ by cases h⟩
      rcases getElem?_snoc_cases hthr with ⟨-, rfl⟩ | hthr
      · have := hl.pos
        change (-1 : ℤ) ≠ s.serverSocket
        omega
      · exact hl.threads i thr hthr

theorem step (hs : ListenInv s) (hstep : Server.step param s l = some s') :
    ListenInv s' := by
  cases step_cases hstep with
  | app h =>
      cases h <;> refine ⟨hs.create, fun hc hf ↦ ?_⟩ <;>
        exact (hs.listens hc hf).congr rfl (hs.listens hc hf).isOpen rfl (hs.listens hc hf).handles
          (hs.listens hc hf).hand
  | server a h => exact hs.server h
  | client i a thr hthr hover h =>
      obtain ⟨thr', hframe⟩ := h.frame
      constructor
      · intro hpc
        rw [hframe.server] at hpc
        rw [(hs.create hpc).1] at hthr
        cases hthr
      · rw [hframe.server]
        exact fun hc hf ↦ (hs.listens hc hf).client hthr h
  | sender l hl hfree h =>
      obtain ⟨hthreads, hserver, -, -, hsocket, -, htable, -⟩ := h.frame
      constructor
      · rw [hserver, hthreads]
        refine fun hpc ↦ ⟨(hs.create hpc).1, fun x ↦ ?_⟩
        by_contra hne
        obtain ⟨h', hh'⟩ := Option.ne_none_iff_exists'.mp hne
        obtain ⟨h₀, hh₀, -⟩ := h.handles hh'
        rw [(hs.create hpc).2 x] at hh₀
        cases hh₀
      · rw [hserver]
        intro hc hf
        have hl := hs.listens hc hf
        refine hl.congr hsocket (htable ▸ hl.isOpen) hthreads (fun x h' hh' ↦ ?_)
          (hserver ▸ hl.hand)
        obtain ⟨h₀, hh₀, heq⟩ := h.handles hh'
        rw [heq]
        exact hl.handles x h₀ hh₀

end ListenInv

theorem listen_inv {ok : State → Label param → Prop} (h : Reach (step param) ok start s) :
    ListenInv s := by
  refine h.invariant ?_ fun s l s' hs _ hstep ↦ hs.step hstep
  exact ⟨fun _ ↦ ⟨rfl, fun _ ↦ rfl⟩, fun hc _ ↦ (hc rfl).elim⟩

/-! ## The clients that are not served -/

/-- The connection is at its descriptor and nobody's. -/
structure State.Lost (s : State) (fd : ℤ) (conn : ℕ) : Prop where
  isOpen : s.table.fds fd = .connected conn
  made : conn < s.table.connections
  threads : ∀ (i : ℕ) (thr : CliThread), s.threads[i]? = some thr → thr.conn ≠ conn
  hand : ∀ fd', s.server.hand ≠ some (fd', conn)

namespace State.Lost

variable {fd : ℤ} {conn : ℕ}

theorem client (hs : s.Lost fd conn) (hfd : FdInv s) (hl : LocalInv SocketInv s) {i : ℕ}
    {a : CliAnswer param} {thr : CliThread} (hthr : s.threads[i]? = some thr)
    (hover : thr.pc.over = false) (h : ClientStep param s i a thr s') : s'.Lost fd conn := by
  obtain ⟨thr', hframe⟩ := h.frame
  have htable : s'.table.fds fd = .connected conn ∧ s'.table.connections = s.table.connections := by
    cases h with
    | noHandle | fault | none | write | push | pushCrash | earse | earseCrash | shutdown | free =>
        exact ⟨hs.isOpen, rfl⟩
    | close h thr' hh hmove =>
        obtain ⟨hsocket, hhit⟩ := hfd.hit hl hthr hover hh hmove
        have hne : fd ≠ thr.clientSocket := by
          rintro rfl
          have hopen := hs.isOpen
          rw [hsocket, hhit, Descriptor.connected.injEq] at hopen
          exact hs.threads i thr hthr hopen
        exact ⟨(Function.update_of_ne hne ..).trans hs.isOpen, rfl⟩
  refine ⟨htable.1, htable.2 ▸ hs.made, fun j u hu ↦ ?_, fun fd' ↦ ?_⟩
  · rw [hframe.threads] at hu
    rcases getElem?_set_cases hu with ⟨-, rfl⟩ | ⟨-, hu⟩
    · rw [hframe.conn]
      exact hs.threads i thr hthr
    · exact hs.threads j u hu
  · rw [hframe.server]
    exact hs.hand fd'

theorem server (hs : s.Lost fd conn) (hthreads : s'.threads = s.threads)
    (hconnections : s.table.connections ≤ s'.table.connections)
    (hfds : ∀ x c, s.table.fds x = .connected c → s'.table.fds x = .connected c)
    (hhand : ∀ fd', s'.server.hand ≠ some (fd', conn)) : s'.Lost fd conn :=
  ⟨hfds _ _ hs.isOpen, hs.made.trans_le hconnections, hthreads ▸ hs.threads, hhand⟩

theorem step (hs : s.Lost fd conn) (hfd : FdInv s) (hl : LocalInv SocketInv s)
    (hstep : Server.step param s l = some s') : s'.Lost fd conn := by
  cases step_cases hstep with
  | app h => cases h <;> exact ⟨hs.isOpen, hs.made, hs.threads, hs.hand⟩
  | server a h =>
      obtain ⟨hle, hkeep⟩ := h.table
      have hhand : ∀ fd', s'.server.hand ≠ some (fd', conn) := by
        intro fd' hnow
        rcases h.hand fd' conn hnow with hold | ⟨-, heq, -⟩
        · exact hs.hand fd' hold
        · exact hs.made.ne heq
      cases h with
      | spawned fd' conn' handle hpc =>
          refine ⟨hs.isOpen, hs.made, fun i thr hthr ↦ ?_, hhand⟩
          rcases getElem?_snoc_cases hthr with ⟨-, rfl⟩ | hthr
          · rintro rfl
            exact hs.hand fd' (by rw [hpc]; rfl)
          · exact hs.threads i thr hthr
      | created | createFailed | setStar | goOn | leave | noClient | lowClient | accepted | readSize
      | admitted | refused | noMemory | allocated | spawnFailed | setAbor =>
          exact hs.server rfl hle hkeep hhand
  | client i a thr hthr hover h => exact hs.client hfd hl hthr hover h
  | sender l _ _ h =>
      obtain ⟨hthreads, hserver, -, -, -, -, htable, -⟩ := h.frame
      exact hs.server hthreads (by rw [htable]) (fun _ _ h ↦ htable ▸ h) (hserver ▸ hs.hand)

end State.Lost

/-- What `OSA_server_thread` has in its hand and drops is lost. -/
theorem lost_of_drop {fd : ℤ} {conn : ℕ} (hfd : FdInv s) (hhand : s.server.hand = some (fd, conn))
    (hstep : step param s l = some s') (hdrop : s'.server.hand = none)
    (hthreads : s'.threads = s.threads) : s'.Lost fd conn := by
  obtain ⟨hopen, hmade, hnew⟩ := hfd.hand fd conn hhand
  suffices htable : s'.table = s.table by
    refine ⟨htable ▸ hopen, htable ▸ hmade, hthreads ▸ hnew, fun fd' h ↦ ?_⟩
    rw [hdrop] at h
    cases h
  cases step_cases hstep with
  | app h => cases h <;> rfl
  | server a h =>
      cases h with
      | created a table hpc | createFailed a table hpc | lowClient client fd table hpc
      | accepted client fd table hpc =>
          rw [hpc] at hhand
          cases hhand
      | setStar | goOn | leave | noClient | readSize | admitted | refused | noMemory | allocated
      | spawned | spawnFailed | setAbor => rfl
  | client i a thr _ _ h =>
      obtain ⟨thr', hframe⟩ := h.frame
      rw [hframe.server, hhand] at hdrop
      cases hdrop
  | sender l _ _ h => exact h.frame.table

theorem lost_of_reach {fd : ℤ} {conn : ℕ} (hs : Reach (step param) (FdOk param) start s)
    (h : Reach (step param) (FdOk param) s s') (hlost : s.Lost fd conn) : s'.Lost fd conn := by
  refine (h.invariant (I := fun t ↦ Reach (step param) (FdOk param) start t ∧ t.Lost fd conn)
    ⟨hs, hlost⟩ ?_).2
  rintro t l u ⟨hreach, hlost⟩ hok hstep
  obtain ⟨hfd, hl⟩ := fd_inv hreach
  exact ⟨hreach.tail l hok hstep, hlost.step hfd hl hstep⟩

/-! ## Runs -/

theorem osaCreateTcpFd_keeps {port : ℤ} (hport : 0 < port) {a : TcpFdAnswer}
    (hfail : (osaCreateTcpFd port a).1 ≠ osaSok) :
    (osaCreateTcpFd port a).2 = none ↔ a.socket < 0 := by
  unfold osaCreateTcpFd at hfail ⊢
  rw [if_neg (by omega)] at hfail ⊢
  by_cases hsocket : a.socket < 0
  · simp [hsocket]
  · rw [if_neg hsocket] at hfail ⊢
    cases hopt : a.setsockopt <;> cases hbind : a.bind <;> simp_all

/-- When `OSA_server_destory` returns, the listening socket is still open. A client that
`OSA_server_thread` does not serve keeps its descriptor for ever, and so does a socket that
`OSA_createTcpFd` has made before it fails. -/
theorem server_loses_descriptors :
    (∀ s, Reach (step param) Always start s → s.app = .returned → ¬ NoFdLost s) ∧
      (∀ s l s' fd conn, Reach (step param) (FdOk param) start s →
        s.server.hand = some (fd, conn) → FdOk param s l → step param s l = some s' →
          s'.server.hand = none → s'.threads = s.threads →
            ∀ t, Reach (step param) (FdOk param) s' t → t.Lost fd conn ∧ ¬ NoFdLost t) ∧
      ∀ a, (osaCreateTcpFd param.serverPort a).1 ≠ osaSok →
        ((osaCreateTcpFd param.serverPort a).2 = none ↔ a.socket < 0) := by
  refine ⟨fun s hreach hreturned hlaw ↦ ?_, ?_, fun a ↦ osaCreateTcpFd_keeps param.port_pos⟩
  · have hdone := (reach_inv hreach).phase.ending (by rw [hreturned]; rfl)
    exact hlaw.listening _ ((listen_inv hreach).listens (by simp [hdone]) (by simp [hdone])).isOpen
  · intro s l s' fd conn hreach hhand hok hstep hdrop hthreads t ht
    have hlost := lost_of_reach (hreach.tail l hok hstep) ht
      (lost_of_drop (fd_inv hreach).1 hhand hstep hdrop hthreads)
    refine ⟨hlost, fun hlaw ↦ ?_⟩
    rcases hlaw.clients fd conn hlost.isOpen with ⟨thr, hthr, hconn, -⟩ | hhand
    · obtain ⟨i, hi⟩ := List.getElem?_of_mem hthr
      exact hlost.threads i thr hi hconn
    · exact hlost.hand fd hhand

/-- `OSA_server_destory` is called, and `OSA_server_thread` ends. -/
def stopRun : List (Label param) := [.app, .app, .app, .server .next, .server .next]

/-- `OSA_server_destory` finds no client and the status `SERVER_ABOR`, and returns. -/
def returnRun : List (Label param) := [.app, .app, .app, .app, .app]

theorem server_loses_descriptors_run : ∃ s, s.app = .returned ∧ ¬ NoFdLost s := by
  obtain ⟨s, hreach, hs⟩ := Reach.exists_of_exec (step oneClient) Always start
    (listenRun 3 ++ stopRun ++ returnRun) (fun s ↦ s.app = .returned) (by decide)
  have hreturned := of_decide_eq_true hs
  exact ⟨s, hreturned, server_loses_descriptors.1 s hreach hreturned⟩

/-- One client is served and leaves, and a second one is refused. -/
theorem server_loses_refused_client : ∃ s, Reach (step oneClient) Always start s ∧
    s.app = .returned ∧ s.table.fds 3 = .opened ∧ s.table.fds 5 = .connected 1 := by
  obtain ⟨s, hreach, hs⟩ := Reach.exists_of_exec (step oneClient) Always start
    (listenRun 3 ++ admitRun 4 0 ++ joinRun 0 10 ++
      [.server .next, .server (.accept (some 5)), .server .next, .server .next] ++ stopRun ++
      [.client 0 .next, .client 0 .next] ++ hangUpRun 0 ++
      [.client 0 .next, .client 0 .next, .client 0 .next] ++ returnRun)
    (fun s ↦ s.app = .returned ∧ s.table.fds 3 = .opened ∧ s.table.fds 5 = .connected 1) (by decide)
  exact ⟨s, hreach, of_decide_eq_true hs⟩

end OsaBase.Server
