import OsaBase.Server.Invariant

/-!
# Who closes a client's descriptor

A client thread shuts down and closes its descriptor behind its loop. The error exit of the loop
does so as well, with the same saved number, so that a thread that takes it hangs up twice; between
the two calls another client may be accepted at that number.
-/

open Transition

namespace OsaBase.Server

variable {param : ServerParam} {s s' : State} {l : Label param}

namespace State

/-- How often thread `i` has made the call. -/
def calls (s : State) (i : ℕ) (call : HangCall) : ℕ :=
  s.hangUps.countP fun u ↦ u.thread == i && u.call == call

end State

/-- A client thread hangs up once, and only on its own connection. -/
structure FdLaw (s : State) : Prop where
  once : ∀ i < s.threads.length, ∀ call, s.calls i call ≤ 1
  own : ∀ u ∈ s.hangUps, ∀ c ∈ u.hit.conn, (s.threads[u.thread]?).map CliThread.conn = some c

/-- No receive of a MSG_TYPE client fails and no send of a STREAM_TYPE client. -/
def FdOk (param : ServerParam) (_ : State) : Label param → Prop
  | .client _ (.turn ok) | .client _ (.send ok) => ok = true
  | _ => True

instance (param : ServerParam) (s : State) : (l : Label param) → Decidable (FdOk param s l)
  | .client _ (.turn ok) | .client _ (.send ok) => inferInstanceAs (Decidable (ok = true))
  | .client _ .next | .client _ (.mutex _) | .client _ (.buf _ _) | .client _ (.node _)
  | .app | .server _ | .sendBuf | .sender => inferInstanceAs (Decidable True)

/-! ## How often a thread has hung up -/

/-- The place is in the error exit. -/
def CliPc.exits : CliPc → Bool
  | .exitStatus | .exitShutdown | .exitClose | .exitUnset => true
  | _ => false

/-- The place is in the error exit, before the call. -/
def CliPc.exitsTo (call : HangCall) : CliPc → Bool
  | .exitStatus | .exitShutdown => true
  | .exitClose => call == .close
  | _ => false

/-- The call behind the loop has been made. -/
def CliPc.hungUp (call : HangCall) : CliPc → Bool
  | .close => call == .shutdown
  | .deleteLock | .testType | .drain | .deleteBuf | .free | .done => true
  | _ => false

/-- A thread is only here if it has not taken the error exit. -/
def CliPc.healthy : CliPc → Bool
  | .start | .setConnect | .createBuf | .getSocket | .register | .testServer | .getFull | .send _
  | .putEmpty _ | .turn | .quit => true
  | _ => false

/-- The calls that the thread has made. -/
def CliThread.hangs (thr : CliThread) (call : HangCall) : ℕ :=
  (thr.failed && !thr.pc.exitsTo call).toNat + (thr.pc.hungUp call).toNat

def CliEffect.makes (call : HangCall) : CliEffect → Bool
  | .hang call' => call' == call
  | _ => false

/-- A thread that has taken the error exit has marked its handle, and takes it only once. -/
structure FailInv (thr : CliThread) (h : OprHandle) : Prop where
  healthy : thr.pc.healthy = true → thr.failed = false
  exits : thr.pc.exits = true → thr.failed = true
  status : thr.failed = true → thr.pc ≠ .exitStatus → h.status ≠ .connect

theorem FailInv.move {server : ServerStatus} {thr thr' : CliThread} {h : OprHandle}
    {a : CliAnswer param} {e : CliEffect} (hs : FailInv thr h)
    (hmove : Move param server thr h a thr' e) : FailInv thr' (e.handle h) := by
  have hhealthy := hs.healthy
  have hexits := hs.exits
  have hstatus := hs.status
  cases hmove with
  | running hpc _ | getFull r hpc _ =>
      rw [hpc] at hhealthy
      have hfailed := hhealthy rfl
      refine ⟨fun _ ↦ hfailed, fun h ↦ ?_, fun h ↦ ?_⟩
      · dsimp only at h
        split at h <;> cases h
      · rw [hfailed] at h
        cases h
  | connected hpc hst =>
      refine ⟨fun _ ↦ ?_, fun h ↦ (by cases h), fun h _ ↦ hstatus h (by simp [hpc])⟩
      by_contra hfailed
      exact hstatus (by simpa using hfailed) (by simp [hpc]) hst
  | sendFailed bufId hpc | turnFailed hpc =>
      exact ⟨fun h ↦ (by cases h), fun _ ↦ rfl, fun _ h ↦ (h rfl).elim⟩
  | create hpc | quit hpc | connect hpc | noBuf hpc | createBuf mem initStatus r hpc
  | getSocket hpc | register mem hpc | sent bufId hpc | putEmpty bufId r hpc | turn hpc
  | stopped hpc =>
      rw [hpc] at hhealthy
      have hfailed := hhealthy rfl
      refine ⟨fun _ ↦ hfailed, fun h ↦ (by cases h), fun h ↦ ?_⟩
      rw [show _ = false from hfailed] at h
      cases h
  | exitStatus hpc =>
      rw [hpc] at hexits
      exact ⟨fun h ↦ (by cases h), fun _ ↦ hexits rfl, fun _ _ h ↦ (by cases h)⟩
  | exitShutdown hpc | exitClose hpc =>
      rw [hpc] at hexits hstatus
      exact ⟨fun h ↦ (by cases h), fun _ ↦ hexits rfl, fun h _ ↦ hstatus h (by simp)⟩
  | disconnected hpc | exitUnset hpc | unregister hpc | shutdown hpc | close hpc | deleteLock hpc
  | deleteBuf hpc | free hpc =>
      rw [hpc] at hstatus
      exact ⟨fun h ↦ (by cases h), fun h ↦ (by cases h), fun h _ ↦ hstatus h (by simp)⟩
  | testType hpc | drain r hpc =>
      rw [hpc] at hstatus
      refine ⟨fun h ↦ ?_, fun h ↦ ?_, fun h _ ↦ hstatus h (by simp)⟩
      all_goals
        dsimp only at h
        split at h <;> cases h

theorem failInv_step (hs : LocalInv FailInv s) (hh : HandleInv s)
    (hstep : Server.step param s l = some s') : LocalInv FailInv s' :=
  hs.step hh hstep (fun _ _ _ ↦ ⟨fun _ ↦ rfl, fun h ↦ (by cases h), fun h ↦ (by cases h)⟩)
    (fun _ _ _ h ↦ ⟨h.healthy, h.exits, h.status⟩) fun _ _ _ _ _ _ _ _ _ _ hmove _ h ↦
      h.move hmove

/-- A move makes the calls that are counted for it. -/
theorem Move.hangs {server : ServerStatus} {thr thr' : CliThread} {h : OprHandle}
    {a : CliAnswer param} {e : CliEffect} (hmove : Move param server thr h a thr' e)
    (hs : FailInv thr h) (call : HangCall) :
    thr'.hangs call = thr.hangs call + (e.makes call).toNat := by
  have hhealthy := hs.healthy
  have hexits := hs.exits
  unfold CliThread.hangs
  cases hmove with
  | running hpc _ | getFull r hpc _ | testType hpc | drain r hpc =>
      rw [hpc]
      dsimp only
      split <;> rfl
  | sendFailed bufId hpc | turnFailed hpc =>
      rw [hpc] at hhealthy ⊢
      rw [hhealthy rfl]
      cases call <;> rfl
  | exitStatus hpc | exitShutdown hpc | exitClose hpc =>
      rw [hpc] at hexits ⊢
      rw [hexits rfl]
      cases call <;> rfl
  | shutdown hpc | close hpc | unregister hpc =>
      rw [hpc]
      cases call <;> cases thr.failed <;> rfl
  | create hpc | quit hpc | connect hpc | noBuf hpc | createBuf mem initStatus r hpc
  | getSocket hpc | register mem hpc | connected hpc | disconnected hpc | stopped hpc
  | sent bufId hpc | putEmpty bufId r hpc | turn hpc | exitUnset hpc | deleteLock hpc
  | deleteBuf hpc | free hpc =>
      rw [hpc]
      rfl

/-- The calls of each thread, as long as it has not crashed, are those that its place stands for. -/
structure HangInv (s : State) : Prop where
  calls : ∀ (i : ℕ) (thr : CliThread), s.threads[i]? = some thr → thr.pc ≠ .crash →
    thr.pc ≠ .fault → ∀ call, s.calls i call = thr.hangs call
  bound : ∀ (i : ℕ) (thr : CliThread), s.threads[i]? = some thr → ∀ call,
    s.calls i call ≤ thr.failed.toNat + 1
  none : ∀ i, s.threads.length ≤ i → ∀ call, s.calls i call = 0

theorem HangInv.congr (hs : HangInv s) (hthreads : s'.threads = s.threads)
    (hhangUps : s'.hangUps = s.hangUps) : HangInv s' := by
  have hcalls : ∀ i call, s'.calls i call = s.calls i call := by
    intro i call
    unfold State.calls
    rw [hhangUps]
  constructor
  · intro i thr hthr hcrash hfault call
    rw [hcalls]
    exact hs.calls i thr (hthreads ▸ hthr) hcrash hfault call
  · intro i thr hthr call
    rw [hcalls]
    exact hs.bound i thr (hthreads ▸ hthr) call
  · intro i hi call
    rw [hcalls]
    exact hs.none i (hthreads ▸ hi) call

theorem CliThread.hangs_le (thr : CliThread) (call : HangCall) :
    thr.hangs call ≤ thr.failed.toNat + 1 := by
  unfold CliThread.hangs
  cases thr.failed <;> cases thr.pc.exitsTo call <;> cases thr.pc.hungUp call <;> decide

/-- The record that a move leaves. -/
def CliEffect.hangUps (i : ℕ) (hit : Descriptor) : CliEffect → List HangUp
  | .hang call => [⟨call, i, hit⟩]
  | _ => []

/-- A step of a client thread: it ends with a crash, or is a move and leaves the move's record. -/
theorem ClientStep.hangUps {i : ℕ} {a : CliAnswer param} {thr : CliThread}
    (hstep : ClientStep param s i a thr s') : ∃ thr', s'.threads = s.threads.set i thr' ∧
      ((thr' = { thr with pc := .crash } ∨ thr' = { thr with pc := .fault }) ∧
          s'.hangUps = s.hangUps ∨
        ∃ h e, s.handles thr.handle = some h ∧ Move param s.status thr h a thr' e ∧
          s'.hangUps = s.hangUps ++ e.hangUps i (s.table.fds thr.clientSocket)) := by
  cases hstep with
  | noHandle | pushCrash | earseCrash => exact ⟨_, rfl, Or.inl ⟨Or.inl rfl, rfl⟩⟩
  | fault => exact ⟨_, rfl, Or.inl ⟨Or.inr rfl, rfl⟩⟩
  | none h thr' hh hmove | write h thr' h' hh hmove | push h thr' mem l hh hmove
  | earse h thr' l hh hmove | free h thr' hh hmove =>
      exact ⟨thr', rfl, Or.inr ⟨h, _, hh, hmove, (List.append_nil _).symm⟩⟩
  | shutdown h thr' hh hmove | close h thr' hh hmove =>
      exact ⟨thr', rfl, Or.inr ⟨h, _, hh, hmove, rfl⟩⟩

theorem calls_append {e : CliEffect} {i : ℕ} {hit : Descriptor}
    (h : s'.hangUps = s.hangUps ++ e.hangUps i hit) (j : ℕ) (call : HangCall) :
    s'.calls j call = s.calls j call + if j = i then (e.makes call).toNat else 0 := by
  unfold State.calls
  rw [h, List.countP_append]
  congr 1
  cases e with
  | hang call' =>
      by_cases hj : j = i
      · subst hj
        cases call <;> cases call' <;> simp [CliEffect.hangUps, CliEffect.makes] <;> rfl
      · simp [CliEffect.hangUps, hj, Ne.symm hj]
  | none | write | push | earse | free => simp [CliEffect.hangUps, CliEffect.makes]

namespace HangInv

/-- Thread `i` makes a step, and its calls are those of its new place, unless it crashes. -/
theorem thread (hs : HangInv s) {i : ℕ} {thr thr' : CliThread} (hthr : s.threads[i]? = some thr)
    (hthreads : s'.threads = s.threads.set i thr')
    (hother : ∀ j ≠ i, ∀ call, s'.calls j call = s.calls j call)
    (hown : thr'.pc ≠ .crash → thr'.pc ≠ .fault → ∀ call, s'.calls i call = thr'.hangs call)
    (hbound : ∀ call, s'.calls i call ≤ thr'.failed.toNat + 1) : HangInv s' := by
  constructor
  · intro j u hu
    rw [hthreads] at hu
    rcases getElem?_set_cases hu with ⟨rfl, rfl⟩ | ⟨hj, hu⟩
    · exact hown
    · intro hcrash hfault call
      rw [hother j hj]
      exact hs.calls j u hu hcrash hfault call
  · intro j u hu
    rw [hthreads] at hu
    rcases getElem?_set_cases hu with ⟨rfl, rfl⟩ | ⟨hj, hu⟩
    · exact hbound
    · intro call
      rw [hother j hj]
      exact hs.bound j u hu call
  · intro j hj call
    rw [hthreads, List.length_set] at hj
    have hlt := (List.getElem?_eq_some_iff.mp hthr).1
    rw [hother j (by omega)]
    exact hs.none j hj call

theorem client (hs : HangInv s) (hf : LocalInv FailInv s) {i : ℕ} {a : CliAnswer param}
    {thr : CliThread} (hthr : s.threads[i]? = some thr) (hover : thr.pc.over = false)
    (h : ClientStep param s i a thr s') : HangInv s' := by
  obtain ⟨thr', hthreads, ⟨hend, hsame⟩ | ⟨h, e, hh, hmove, hlog⟩⟩ := h.hangUps
  · have hcalls : ∀ j call, s'.calls j call = s.calls j call := by
      intro j call
      unfold State.calls
      rw [hsame]
    refine hs.thread hthr hthreads (fun j _ call ↦ hcalls j call) ?_ fun call ↦ ?_
    · rcases hend with rfl | rfl
      · exact fun hnot ↦ (hnot rfl).elim
      · exact fun _ hnot ↦ (hnot rfl).elim
    · rw [hcalls]
      rcases hend with rfl | rfl <;> exact hs.bound i thr hthr call
  · have hnow : ∀ call, s.calls i call = thr.hangs call :=
      hs.calls i thr hthr (by rintro h; rw [h] at hover; cases hover)
        (by rintro h; rw [h] at hover; cases hover)
    have hown : ∀ call, s'.calls i call = thr'.hangs call := by
      intro call
      rw [calls_append hlog, if_pos rfl, hnow, hmove.hangs (hf i thr h hthr hover hh)]
    refine hs.thread hthr hthreads (fun j hj call ↦ ?_) (fun _ _ ↦ hown) fun call ↦ ?_
    · rw [calls_append hlog, if_neg hj, Nat.add_zero]
    · rw [hown]
      exact thr'.hangs_le call

theorem step (hs : HangInv s) (hf : LocalInv FailInv s)
    (hstep : Server.step param s l = some s') : HangInv s' := by
  cases step_cases hstep with
  | app h => cases h <;> exact hs.congr rfl rfl
  | server a h =>
      cases h with
      | created | createFailed | setStar | goOn | leave | noClient | lowClient | accepted | readSize
      | admitted | refused | noMemory | allocated | spawnFailed | setAbor => exact hs.congr rfl rfl
      | spawned fd conn handle hpc =>
          have hnew := hs.none s.threads.length le_rfl
          constructor
          · intro i thr hthr hcrash hfault call
            rcases getElem?_snoc_cases hthr with ⟨rfl, rfl⟩ | hthr
            · exact hnew call
            · exact hs.calls i thr hthr hcrash hfault call
          · intro i thr hthr call
            rcases getElem?_snoc_cases hthr with ⟨rfl, rfl⟩ | hthr
            · exact (hnew call).trans_le (Nat.zero_le _)
            · exact hs.bound i thr hthr call
          · intro i hi call
            rw [List.length_append] at hi
            exact hs.none i (by omega) call
  | client i a thr hthr hover h => exact hs.client hf hthr hover h
  | sender l hl hfree h => exact hs.congr h.frame.threads h.frame.hangUps

end HangInv

/-! ## Which connection a thread hangs up on -/

/-- The thread has read the socket of its handle. -/
def CliPc.hasSocket : CliPc → Bool
  | .start | .setConnect | .createBuf | .getSocket | .quit => false
  | _ => true

/-- The thread has its descriptor open. -/
def CliPc.holdsFd (pc : CliPc) : Bool := !pc.over && !pc.hungUp .close

/-- The descriptor that `OSA_server_thread` has accepted and not given to a thread yet. -/
def ServerPc.hand : ServerPc → Option (ℤ × ℕ)
  | .readSize fd conn | .compare fd conn _ | .alloc fd conn | .spawn fd conn _ => some (fd, conn)
  | _ => none

/-- A thread that has not failed has one number for its descriptor. -/
structure SocketInv (thr : CliThread) (h : OprHandle) : Prop where
  failed : thr.failed = false
  socket : h.socket = thr.fd
  clientSocket : thr.pc.hasSocket = true → thr.clientSocket = thr.fd

theorem SocketInv.move {s : State} {i : ℕ} {thr thr' : CliThread} {h : OprHandle}
    {a : CliAnswer param} {e : CliEffect} (hs : SocketInv thr h) (hfail : FailInv thr h)
    (hok : FdOk param s (.client i a)) (hmove : Move param s.status thr h a thr' e) :
    SocketInv thr' (e.handle h) := by
  have hexits := hfail.exits
  obtain ⟨hfailed, hsocket, hclient⟩ := hs
  cases hmove with
  | sendFailed | turnFailed => cases hok
  | exitStatus hpc | exitShutdown hpc | exitClose hpc | exitUnset hpc =>
      rw [hpc, hfailed] at hexits
      cases hexits rfl
  | create hpc | quit hpc | connect hpc | noBuf hpc | createBuf mem initStatus r hpc =>
      exact ⟨hfailed, hsocket, fun h ↦ by cases h⟩
  | getSocket hpc =>
      refine ⟨hfailed, ?_, fun _ ↦ hsocket⟩
      simp only [CliEffect.handle]
      split <;> exact hsocket
  | register mem hpc | connected hpc | disconnected hpc | running hpc | stopped hpc | getFull r hpc
  | sent bufId hpc | putEmpty bufId r hpc | turn hpc | unregister hpc | shutdown hpc | close hpc
  | deleteLock hpc | testType hpc | drain r hpc | deleteBuf hpc | free hpc =>
      rw [hpc] at hclient
      exact ⟨hfailed, hsocket, fun _ ↦ hclient rfl⟩

/-- Each thread that has its descriptor open has its own connection there, and so has
`OSA_server_thread` with the descriptor in its hand. -/
structure FdInv (s : State) : Prop where
  isOpen : ∀ (i : ℕ) (thr : CliThread), s.threads[i]? = some thr → thr.pc.holdsFd = true →
    s.table.fds thr.fd = .connected thr.conn
  made : ∀ (i : ℕ) (thr : CliThread), s.threads[i]? = some thr → thr.conn < s.table.connections
  distinct : ∀ (i j : ℕ) (thr thr' : CliThread), s.threads[i]? = some thr →
    s.threads[j]? = some thr' → thr.conn = thr'.conn → i = j
  hand : ∀ fd conn, s.server.hand = some (fd, conn) → s.table.fds fd = .connected conn ∧
    conn < s.table.connections ∧
      ∀ (i : ℕ) (thr : CliThread), s.threads[i]? = some thr → thr.conn ≠ conn
  own : ∀ u ∈ s.hangUps, ∀ c ∈ u.hit.conn, (s.threads[u.thread]?).map CliThread.conn = some c

/-- A new descriptor is none of those that are connected. -/
theorem FdTable.keeps {table table' : FdTable} {op : FdOp}
    (hop : (∃ fd, op = .socket fd) ∨ ∃ fd, op = .accept fd) (h : table.apply op = some table') :
    table.connections ≤ table'.connections ∧
      ∀ x c, table.fds x = .connected c → table'.fds x = .connected c := by
  have hupdate : ∀ fd d, table.fds fd = .closed → ∀ x c, table.fds x = .connected c →
      Function.update table.fds fd d x = .connected c := by
    intro fd d hclosed x c hx
    have hne : x ≠ fd := by
      rintro rfl
      rw [hclosed] at hx
      cases hx
    rw [Function.update_of_ne hne]
    exact hx
  rcases hop with ⟨fd, rfl⟩ | ⟨fd, rfl⟩
  all_goals
    simp only [FdTable.apply] at h
    split at h
    · next hfd =>
      cases h
      exact ⟨by simp, hupdate fd _ hfd.2⟩
    · cases h

theorem ServerStep.table {a : ServerAnswer} (h : ServerStep param s a s') :
    s.table.connections ≤ s'.table.connections ∧
      ∀ x c, s.table.fds x = .connected c → s'.table.fds x = .connected c := by
  cases h with
  | created a table hpc hsok htable => exact FdTable.keeps (Or.inl ⟨_, rfl⟩) htable
  | lowClient client fd table hpc htable | accepted client fd table hpc hpos htable =>
      exact FdTable.keeps (Or.inr ⟨_, rfl⟩) htable
  | createFailed a table hpc hfail htable =>
      cases hfd : (osaCreateTcpFd param.serverPort a).2 with
      | none =>
          rw [hfd] at htable
          obtain rfl : s.table = table := Option.some.inj htable
          exact ⟨le_rfl, fun _ _ h ↦ h⟩
      | some fd =>
          rw [hfd] at htable
          exact FdTable.keeps (Or.inl ⟨_, rfl⟩) htable
  | setStar | goOn | leave | noClient | readSize | admitted | refused | noMemory | allocated
  | spawned | spawnFailed | setAbor => exact ⟨le_rfl, fun _ _ h ↦ h⟩

/-- What `OSA_server_thread` has in its hand it had before, or it has just accepted it. -/
theorem ServerStep.hand {a : ServerAnswer} (h : ServerStep param s a s') (fd : ℤ) (conn : ℕ)
    (hnow : s'.server.hand = some (fd, conn)) : s.server.hand = some (fd, conn) ∨
      s'.table.fds fd = .connected conn ∧ conn = s.table.connections ∧
        conn < s'.table.connections := by
  cases h with
  | accepted client fd' table hpc hpos htable =>
      cases hnow
      simp only [FdTable.apply] at htable
      split at htable
      · cases htable
        exact Or.inr ⟨Function.update_self .., rfl, Nat.lt_succ_self _⟩
      · cases htable
  | readSize fd' conn' hpc | admitted fd' conn' clientSize hpc | allocated fd' conn' handle hpc =>
      rw [hpc]
      exact Or.inl hnow
  | created | createFailed | setStar | goOn | leave | noClient | lowClient | refused | noMemory
  | spawned | spawnFailed | setAbor => cases hnow

theorem Move.holdsFd {server : ServerStatus} {thr thr' : CliThread} {h : OprHandle}
    {a : CliAnswer param} {e : CliEffect} (hmove : Move param server thr h a thr' e)
    (hholds : thr'.pc.holdsFd = true) : thr.pc.holdsFd = true := by
  cases hmove with
  | close | deleteLock | testType | drain | deleteBuf | free | quit =>
      try dsimp only at hholds
      try split at hholds
      all_goals cases hholds
  | create hpc | connect hpc | noBuf hpc | createBuf mem initStatus r hpc | getSocket hpc
  | register mem hpc | connected hpc | disconnected hpc | running hpc | stopped hpc | getFull r hpc
  | sent bufId hpc | sendFailed bufId hpc | putEmpty bufId r hpc | turn hpc | turnFailed hpc
  | exitStatus hpc | exitShutdown hpc | exitClose hpc | exitUnset hpc | unregister hpc
  | shutdown hpc =>
      rw [hpc]
      rfl

namespace FdInv

/-- The descriptors of the others are not touched. -/
theorem thread (hs : FdInv s) {i : ℕ} {thr thr' : CliThread} (hthr : s.threads[i]? = some thr)
    (hframe : ThreadFrame s s' i thr thr')
    (hholds : thr'.pc.holdsFd = true → thr.pc.holdsFd = true)
    (hconnections : s'.table.connections = s.table.connections)
    (hfds : ∀ x c, s.table.fds x = .connected c → c ≠ thr.conn ∨ thr'.pc.holdsFd = true →
      s'.table.fds x = .connected c)
    (hown : ∀ u ∈ s'.hangUps, u ∈ s.hangUps ∨ u.thread = i ∧ ∀ c ∈ u.hit.conn, c = thr.conn) :
    FdInv s' := by
  have hconn : ∀ (j : ℕ) (u : CliThread), s'.threads[j]? = some u →
      ∃ u₀ : CliThread, s.threads[j]? = some u₀ ∧ u.conn = u₀.conn := by
    intro j u hu
    rw [hframe.threads] at hu
    rcases getElem?_set_cases hu with ⟨rfl, rfl⟩ | ⟨-, hu⟩
    · exact ⟨thr, hthr, hframe.conn⟩
    · exact ⟨u, hu, rfl⟩
  constructor
  · intro j u hu hh
    rw [hframe.threads] at hu
    rcases getElem?_set_cases hu with ⟨-, rfl⟩ | ⟨hj, hu⟩
    · rw [hframe.fd, hframe.conn]
      exact hfds _ _ (hs.isOpen i thr hthr (hholds hh)) (Or.inr hh)
    · exact hfds _ _ (hs.isOpen j u hu hh) (Or.inl fun heq ↦ hj (hs.distinct j i u thr hu hthr heq))
  · intro j u hu
    obtain ⟨u₀, hu₀, heq⟩ := hconn j u hu
    rw [hconnections, heq]
    exact hs.made j u₀ hu₀
  · intro j k u v hu hv heq
    obtain ⟨u₀, hu₀, hu'⟩ := hconn j u hu
    obtain ⟨v₀, hv₀, hv'⟩ := hconn k v hv
    exact hs.distinct j k u₀ v₀ hu₀ hv₀ (hu'.symm.trans (heq.trans hv'))
  · intro fd conn hhand
    rw [hframe.server] at hhand
    obtain ⟨hfd, hlt, hne⟩ := hs.hand fd conn hhand
    refine ⟨hfds _ _ hfd (Or.inl (hne i thr hthr).symm), hconnections ▸ hlt, fun j u hu ↦ ?_⟩
    obtain ⟨u₀, hu₀, heq⟩ := hconn j u hu
    rw [heq]
    exact hne j u₀ hu₀
  · intro u hu c hc
    have hmap : (s'.threads[u.thread]?).map CliThread.conn =
        (s.threads[u.thread]?).map CliThread.conn := by
      rw [hframe.threads, List.getElem?_set]
      split
      · next heq =>
        subst heq
        rw [if_pos (List.getElem?_eq_some_iff.mp hthr).1, hthr, Option.map_some, Option.map_some,
          hframe.conn]
      · rfl
    rcases hown u hu with hu | ⟨hi, hu⟩
    · rw [hmap]
      exact hs.own u hu c hc
    · rw [hmap, hi, hthr, Option.map_some, hu c hc]

/-- A thread that hangs up has its connection at the number that it has saved. -/
theorem hit (hs : FdInv s) (hl : LocalInv SocketInv s) {i : ℕ} {thr thr' : CliThread}
    {h : OprHandle} {a : CliAnswer param} {call : HangCall} (hthr : s.threads[i]? = some thr)
    (hover : thr.pc.over = false) (hh : s.handles thr.handle = some h)
    (hmove : Move param s.status thr h a thr' (.hang call)) :
    thr.clientSocket = thr.fd ∧ s.table.fds thr.fd = .connected thr.conn := by
  have hplace : thr.pc.hasSocket = true ∧ thr.pc.holdsFd = true := by
    cases hmove with
    | exitShutdown hpc | exitClose hpc | shutdown hpc | close hpc =>
        rw [hpc]
        exact ⟨rfl, rfl⟩
  exact ⟨(hl i thr h hthr hover hh).clientSocket hplace.1, hs.isOpen i thr hthr hplace.2⟩

theorem client (hs : FdInv s) (hf : LocalInv FailInv s) (hl : LocalInv SocketInv s) {i : ℕ}
    {a : CliAnswer param} {thr : CliThread} (hthr : s.threads[i]? = some thr)
    (hover : thr.pc.over = false) (h : ClientStep param s i a thr s') : FdInv s' := by
  have hlog : ∀ (call : HangCall) (u : HangUp), s.table.fds thr.clientSocket = .connected thr.conn →
      u ∈ s.hangUps ++ [⟨call, i, s.table.fds thr.clientSocket⟩] →
        u ∈ s.hangUps ∨ u.thread = i ∧ ∀ c ∈ u.hit.conn, c = thr.conn := by
    intro call u hhit hu
    rcases List.mem_append.mp hu with hu | hu
    · exact Or.inl hu
    · rw [List.mem_singleton.mp hu, hhit]
      exact Or.inr ⟨rfl, fun c hc ↦ (Option.some.inj hc).symm⟩
  cases h with
  | noHandle | fault | pushCrash | earseCrash =>
      exact hs.thread hthr ⟨rfl, rfl, rfl, rfl, rfl, rfl, rfl, rfl, rfl⟩ (fun h ↦ by cases h) rfl
        (fun _ _ h _ ↦ h) fun _ hu ↦ Or.inl hu
  | none h thr' hh hmove | write h thr' h' hh hmove | push h thr' mem l hh hmove
  | earse h thr' l hh hmove | free h thr' hh hmove =>
      exact hs.thread hthr hmove.frame hmove.holdsFd rfl (fun _ _ h _ ↦ h) fun _ hu ↦ Or.inl hu
  | shutdown h thr' hh hmove =>
      obtain ⟨hsocket, hhit⟩ := hs.hit hl hthr hover hh hmove
      exact hs.thread hthr hmove.frame hmove.holdsFd rfl
        (fun _ _ h _ ↦ h) fun u hu ↦ hlog _ u (hsocket ▸ hhit) hu
  | close h thr' hh hmove =>
      obtain ⟨hsocket, hhit⟩ := hs.hit hl hthr hover hh hmove
      refine hs.thread hthr hmove.frame hmove.holdsFd rfl
        (fun x c hx hor ↦ ?_) fun u hu ↦ hlog _ u (hsocket ▸ hhit) hu
      have hgone : thr'.pc.holdsFd = false := by
        have hexits := (hf i thr h hthr hover hh).exits
        rw [(hl i thr h hthr hover hh).failed] at hexits
        cases hmove with
        | exitClose hpc =>
            rw [hpc] at hexits
            cases hexits rfl
        | close hpc => rfl
      have hne : x ≠ thr.clientSocket := by
        rintro rfl
        rw [hsocket, hhit, Descriptor.connected.injEq] at hx
        rcases hor with hc | hholds
        · exact hc hx.symm
        · rw [hgone] at hholds
          cases hholds
      exact (Function.update_of_ne hne ..).trans hx

/-- `OSA_server_thread` makes a descriptor or none, and keeps, takes or drops the one in its
hand. -/
theorem server (hs : FdInv s) (hthreads : s'.threads = s.threads)
    (hhangUps : s'.hangUps = s.hangUps)
    (hconnections : s.table.connections ≤ s'.table.connections)
    (hfds : ∀ x c, s.table.fds x = .connected c → s'.table.fds x = .connected c)
    (hhand : ∀ fd conn, s'.server.hand = some (fd, conn) → s.server.hand = some (fd, conn) ∨
      s'.table.fds fd = .connected conn ∧ conn = s.table.connections ∧
        conn < s'.table.connections) : FdInv s' := by
  constructor
  · intro i thr hthr hholds
    rw [hthreads] at hthr
    exact hfds _ _ (hs.isOpen i thr hthr hholds)
  · intro i thr hthr
    rw [hthreads] at hthr
    exact (hs.made i thr hthr).trans_le hconnections
  · rw [hthreads]
    exact hs.distinct
  · rw [hthreads]
    intro fd conn hnow
    rcases hhand fd conn hnow with hold | ⟨hfd, rfl, hlt⟩
    · obtain ⟨hfd, hlt, hne⟩ := hs.hand fd conn hold
      exact ⟨hfds _ _ hfd, hlt.trans_le hconnections, hne⟩
    · exact ⟨hfd, hlt, fun i thr hthr ↦ (hs.made i thr hthr).ne⟩
  · rw [hthreads, hhangUps]
    exact hs.own

/-- The thread that is created gets the descriptor in the hand of `OSA_server_thread`. -/
theorem spawn (hs : FdInv s) {fd : ℤ} {conn : ℕ} (handle : ℕ)
    (hpc : s.server = .spawn fd conn handle) :
    FdInv { s with
      threads := s.threads ++ [⟨handle, -1, .start, fd, conn, false⟩], server := .test } := by
  obtain ⟨hfd, hlt, hne⟩ := hs.hand fd conn (by rw [hpc]; rfl)
  constructor
  · intro i thr hthr hholds
    rcases getElem?_snoc_cases hthr with ⟨-, rfl⟩ | hthr
    · exact hfd
    · exact hs.isOpen i thr hthr hholds
  · intro i thr hthr
    rcases getElem?_snoc_cases hthr with ⟨-, rfl⟩ | hthr
    · exact hlt
    · exact hs.made i thr hthr
  · intro i j u v hu hv heq
    rcases getElem?_snoc_cases hu with ⟨rfl, rfl⟩ | hu
    · rcases getElem?_snoc_cases hv with ⟨rfl, -⟩ | hv
      · rfl
      · exact (hne j v hv heq.symm).elim
    · rcases getElem?_snoc_cases hv with ⟨rfl, rfl⟩ | hv
      · exact (hne i u hu heq).elim
      · exact hs.distinct i j u v hu hv heq
  · intro fd' conn' hnow
    cases hnow
  · intro u hu c hc
    have hown := hs.own u hu c hc
    cases hthr : s.threads[u.thread]? with
    | none =>
        rw [hthr] at hown
        cases hown
    | some thr =>
        rw [hthr] at hown
        rw [List.getElem?_append_left (List.getElem?_eq_some_iff.mp hthr).1, hthr]
        exact hown

theorem step (hs : FdInv s) (hf : LocalInv FailInv s) (hl : LocalInv SocketInv s)
    (hstep : Server.step param s l = some s') : FdInv s' := by
  cases step_cases hstep with
  | app h => cases h <;> exact hs.server rfl rfl le_rfl (fun _ _ h ↦ h) fun _ _ h ↦ Or.inl h
  | server a h =>
      obtain ⟨hle, hkeep⟩ := h.table
      have hhand := h.hand
      cases h with
      | spawned fd conn handle hpc => exact hs.spawn handle hpc
      | created | createFailed | setStar | goOn | leave | noClient | lowClient | accepted | readSize
      | admitted | refused | noMemory | allocated | spawnFailed | setAbor =>
          exact hs.server rfl rfl hle hkeep hhand
  | client i a thr hthr hover h => exact hs.client hf hl hthr hover h
  | sender l hl' hfree h =>
      obtain ⟨hthreads, hserver, -, -, -, -, htable, hhangUps⟩ := h.frame
      refine hs.server hthreads hhangUps (by rw [htable]) (fun _ _ h ↦ htable ▸ h) fun _ _ h ↦ ?_
      rw [hserver] at h
      exact Or.inl h

end FdInv

/-! ## Runs -/

theorem hang_inv {ok : State → Label param → Prop} (h : Reach (step param) ok start s) :
    LocalInv FailInv s ∧ HangInv s := by
  refine (h.invariant (I := fun s ↦ Inv s ∧ LocalInv FailInv s ∧ HangInv s) ?_ ?_).2
  · exact ⟨start_inv, LocalInv.start, fun i thr h ↦ (by cases h), fun i thr h ↦ (by cases h),
      fun _ _ _ ↦ rfl⟩
  · rintro s l s' ⟨hinv, hf, hh⟩ - hstep
    exact ⟨hinv.step hstep, failInv_step hf hinv.handle hstep, hh.step hf hstep⟩

theorem fd_inv (h : Reach (step param) (FdOk param) start s) : FdInv s ∧ LocalInv SocketInv s := by
  refine (h.invariant (I := fun s ↦ Inv s ∧ LocalInv FailInv s ∧ FdInv s ∧ LocalInv SocketInv s)
    ?_ ?_).2.2
  · refine ⟨start_inv, LocalInv.start, ⟨?_, ?_, ?_, ?_, ?_⟩, LocalInv.start⟩
    · exact fun i thr h ↦ by cases h
    · exact fun i thr h ↦ by cases h
    · exact fun i j thr thr' h ↦ by cases h
    · exact fun fd conn h ↦ by cases h
    · exact fun u hu ↦ by cases hu
  · rintro s l s' ⟨hinv, hf, hfd, hl⟩ hok hstep
    refine ⟨hinv.step hstep, failInv_step hf hinv.handle hstep, hfd.step hf hl hstep, ?_⟩
    refine hl.step hinv.handle hstep (fun _ _ _ ↦ ⟨rfl, rfl, fun h ↦ by cases h⟩)
      (fun _ _ _ h ↦ ⟨h.failed, h.socket, h.clientSocket⟩) ?_
    rintro i a thr h thr' e rfl hthr hover hh hmove - hsock
    exact hsock.move (hf i thr h hthr hover hh) hok hmove

/-- A thread that has failed has failed for good. -/
theorem failed_of_reach {ok : State → Label param → Prop} {i : ℕ}
    (h : Reach (step param) ok s s') (hs : ∃ thr ∈ s.threads[i]?, thr.failed = true) :
    ∃ thr ∈ s'.threads[i]?, thr.failed = true := by
  refine h.invariant (I := fun s ↦ ∃ thr ∈ s.threads[i]?, thr.failed = true) hs ?_
  rintro t l u ⟨thr, hthr, hfailed⟩ - hstep
  have hthr' : t.threads[i]? = some thr := hthr
  cases step_cases hstep with
  | app h => cases h <;> exact ⟨thr, hthr, hfailed⟩
  | server a h =>
      cases h with
      | created | createFailed | setStar | goOn | leave | noClient | lowClient | accepted | readSize
      | admitted | refused | noMemory | allocated | spawnFailed | setAbor =>
          exact ⟨thr, hthr, hfailed⟩
      | spawned =>
          have hlt := (List.getElem?_eq_some_iff.mp hthr').1
          exact ⟨thr, (List.getElem?_append_left hlt).trans hthr', hfailed⟩
  | client j a thr₀ hthr₀ _ h =>
      obtain ⟨thr₁, hthreads, hend⟩ := h.hangUps
      rw [hthreads]
      by_cases hj : i = j
      · subst hj
        obtain rfl : thr₀ = thr := Option.some.inj (hthr₀.symm.trans hthr')
        refine ⟨thr₁, List.getElem?_set_self (List.getElem?_eq_some_iff.mp hthr').1, ?_⟩
        rcases hend with ⟨rfl | rfl, -⟩ | ⟨h, e, -, hmove, -⟩
        · exact hfailed
        · exact hfailed
        · cases hmove <;> first | exact hfailed | rfl
      · exact ⟨thr, by rw [List.getElem?_set_ne (Ne.symm hj)]; exact hthr, hfailed⟩
  | sender l _ _ h =>
      rw [h.frame.threads]
      exact ⟨thr, hthr, hfailed⟩

/-- A thread only fails in a step that is not admitted. -/
theorem failed_step (hstep : step param s l = some s') (hok : FdOk param s l) {i : ℕ}
    {thr' : CliThread} (hthr' : s'.threads[i]? = some thr') (hfailed : thr'.failed = true) :
    ∃ thr, s.threads[i]? = some thr ∧ thr.failed = true := by
  cases step_cases hstep with
  | app h => cases h <;> exact ⟨thr', hthr', hfailed⟩
  | server a h =>
      cases h with
      | created | createFailed | setStar | goOn | leave | noClient | lowClient | accepted | readSize
      | admitted | refused | noMemory | allocated | spawnFailed | setAbor =>
          exact ⟨thr', hthr', hfailed⟩
      | spawned =>
          rcases getElem?_snoc_cases hthr' with ⟨-, rfl⟩ | hthr'
          · cases hfailed
          · exact ⟨thr', hthr', hfailed⟩
  | client j a thr hthr _ h =>
      obtain ⟨thr₁, hthreads, hend⟩ := h.hangUps
      rw [hthreads] at hthr'
      rcases getElem?_set_cases hthr' with ⟨rfl, rfl⟩ | ⟨-, hthr'⟩
      · refine ⟨thr, hthr, ?_⟩
        rcases hend with ⟨rfl | rfl, -⟩ | ⟨h, e, -, hmove, -⟩
        · exact hfailed
        · exact hfailed
        · cases hmove <;> first | exact hfailed | cases hok
      · exact ⟨thr', hthr', hfailed⟩
  | sender l _ _ h =>
      rw [h.frame.threads] at hthr'
      exact ⟨thr', hthr', hfailed⟩

theorem not_failed (h : Reach (step param) (FdOk param) start s) :
    ∀ (i : ℕ) (thr : CliThread), s.threads[i]? = some thr → thr.failed = false := by
  refine h.invariant (I := fun s ↦ ∀ (i : ℕ) (thr : CliThread), s.threads[i]? = some thr →
    thr.failed = false) (fun i thr h ↦ by cases h) ?_
  intro s l s' hs hok hstep i thr' hthr'
  by_contra hfailed
  obtain ⟨thr, hthr, hfailed'⟩ := failed_step hstep hok hthr' (by simpa using hfailed)
  rw [hs i thr hthr] at hfailed'
  cases hfailed'

/-- A step that is not admitted makes its thread fail. -/
theorem failed_of_not_ok (hinv : Inv s) (hfreed : s.app.freed = false)
    (hstep : step param s l = some s') (hnot : ¬ FdOk param s l) :
    ∃ (i : ℕ) (thr : CliThread), s'.threads[i]? = some thr ∧ thr.failed = true := by
  cases step_cases hstep with
  | app | server => exact (hnot trivial).elim
  | sender l hl => rcases hl with rfl | rfl <;> exact (hnot trivial).elim
  | client i a thr hthr hover h =>
      obtain ⟨h₀, thr', e, -, hmove, hsame, -⟩ := h.moves hinv hfreed hthr hover
      have hset : (s.threads.set i thr')[i]? = some thr' :=
        List.getElem?_set_self (List.getElem?_eq_some_iff.mp hthr).1
      cases hmove with
      | sendFailed | turnFailed =>
          obtain rfl := hsame rfl
          exact ⟨i, _, hset, rfl⟩
      | sent | turn => exact (hnot rfl).elim
      | create | quit | connect | noBuf | createBuf | getSocket | register | connected
      | disconnected | running | stopped | getFull | putEmpty | exitStatus | exitShutdown
      | exitClose | exitUnset | unregister | shutdown | close | deleteLock | testType | drain
      | deleteBuf | free => exact (hnot trivial).elim

theorem CliPc.of_hungUp {pc : CliPc} (h : pc.hungUp .close = true) :
    pc ≠ .crash ∧ pc ≠ .fault ∧ pc.exitsTo .close = false := by
  refine ⟨?_, ?_, ?_⟩
  · rintro rfl
    cases h
  · rintro rfl
    cases h
  · cases pc <;> first | rfl | cases h

/-- Each client thread hangs up once, on its own connection, in every run in which no receive or
send of the loops fails; a thread for which one fails hangs up twice. -/
theorem client_hangs_up_once : (∀ s, Reach (step param) (FdOk param) start s → FdLaw s) ∧
    ∀ s l s', Reach (step param) Always start s → s.app.freed = false →
      step param s l = some s' → ¬ FdOk param s l →
        ∃ i : ℕ, ∀ t, Reach (step param) Always s' t → ∀ thr : CliThread,
          t.threads[i]? = some thr → thr.pc.hungUp .close = true → ¬ FdLaw t := by
  constructor
  · intro s hreach
    refine ⟨fun i hi call ↦ ?_, (fd_inv hreach).1.own⟩
    have hthr : s.threads[i]? = some s.threads[i] := List.getElem?_eq_getElem hi
    have hbound := (hang_inv hreach).2.bound i _ hthr call
    rwa [not_failed hreach i _ hthr] at hbound
  · intro s l s' hreach hfreed hstep hnot
    obtain ⟨i, hfailed⟩ := failed_of_not_ok (reach_inv hreach) hfreed hstep hnot
    refine ⟨i, fun t ht thr hthr hend hlaw ↦ ?_⟩
    obtain ⟨u, hu, hfailed⟩ := failed_of_reach ht hfailed
    obtain rfl : u = thr := Option.some.inj (hu.symm.trans hthr)
    have hreach' : Reach (step param) Always start t := (hreach.tail l trivial hstep).trans ht
    have hplace := CliPc.of_hungUp hend
    have hcalls := (hang_inv hreach').2.calls i u hthr hplace.1 hplace.2.1 .close
    have honce := hlaw.once i (List.getElem?_eq_some_iff.mp hthr).1 .close
    rw [hcalls, CliThread.hangs, hfailed, hplace.2.2, hend] at honce
    exact absurd honce (by decide)

/-- The client thread ends its loop and hangs up. -/
def hangUpRun (i : ℕ) : List (Label param) :=
  [.client i .next, .client i .next, .client i .next]

theorem client_hangs_up_once_run : ∃ s, s.calls 0 .close = 1 ∧ FdLaw s := by
  obtain ⟨s, hreach, hs⟩ := Reach.exists_of_exec (step oneClient) (FdOk oneClient) start
    (listenRun 3 ++ admitRun 4 0 ++ joinRun 0 10 ++ [.client 0 .next, .app, .app, .app,
      .client 0 .next] ++ hangUpRun 0) (fun s ↦ s.calls 0 .close = 1) (by decide)
  exact ⟨s, of_decide_eq_true hs, client_hangs_up_once.1 s hreach⟩

/-- Between its two calls of `close` another client is accepted at the number. -/
theorem client_hangs_up_on_another : ∃ s, Reach (step twoClients) Always start s ∧
    ¬ FdLaw s := by
  obtain ⟨s, hreach, hs⟩ := Reach.exists_of_exec (step twoClients) Always start
    (listenRun 3 ++ admitRun 4 0 ++ joinRun 0 10 ++ [.client 0 .next, .client 0 .next,
      .client 0 (.turn false), .client 0 .next, .client 0 .next, .client 0 .next] ++
      admitRun 4 1 ++ [.client 0 .next, .client 0 .next] ++ hangUpRun 0)
    (fun s ↦ (⟨.close, 0, .connected 1⟩ : HangUp) ∈ s.hangUps ∧
      (s.threads[0]?).map CliThread.conn = some 0) (by decide)
  obtain ⟨hmem, hconn⟩ := of_decide_eq_true hs
  refine ⟨s, hreach, fun hlaw ↦ ?_⟩
  have hown := hlaw.own _ hmem 1 rfl
  rw [hconn] at hown
  cases hown

end OsaBase.Server
