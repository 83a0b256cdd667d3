import OsaBase.Server.Broadcast
import OsaBase.Server.Descriptors

/-!
# The set-up of a client

The set-up begins in `OSA_server_thread`, which makes the handle and the thread, and goes on in the
thread, which makes the lock and the pool. A handle is cleaned up only if the thread comes to the
end of `OSA_processClient_thread`: not when the thread or the lock could not be made. That the pool
could not be made is not noticed at all.
-/

open Transition

namespace OsaBase.Server

variable {param : ServerParam} {s s' : State} {l : Label param}

/-- The thread is in a turn of its loop. -/
def CliPc.serving : CliPc → Bool
  | .getFull | .send _ | .putEmpty _ | .turn | .exitStatus | .exitShutdown | .exitClose
  | .exitUnset => true
  | _ => false

/-- The attempt is over: the thread has returned. -/
def CliPc.ended : CliPc → Bool
  | .done | .quit => true
  | _ => false

/-- What the loop of the thread needs was made; a pool has `buf_num` slots only if that is not
negative. -/
structure Equipped (param : ServerParam) (thr : CliThread) (h : OprHandle) : Prop where
  lock : h.lock = true
  socket : 3 ≤ thr.clientSocket
  pool : param.serverType = .streamType → h.pool = true ∧ 0 ≤ param.bufNum

/-- A thread is in its loop only with all that it needs. A handle that is allocated, and one that is
in the list, belongs to an attempt that is not over; an attempt that is over has closed its socket,
and has deleted before what it had created. -/
structure SetUpLaw (param : ServerParam) (s : State) : Prop where
  ready : ∀ (i : ℕ) (thr : CliThread) (h : OprHandle), s.threads[i]? = some thr →
    s.handles thr.handle = some h → thr.pc.serving = true → Equipped param thr h
  slots : ∀ (i : ℕ) (thr : CliThread) (h : OprHandle), s.threads[i]? = some thr →
    s.handles thr.handle = some h → thr.pc = .getSocket ∨ thr.pc = .register → h.pool = true →
    0 ≤ param.bufNum →
    (h.clientBuf.emptyQue.count : ℤ) = param.bufNum ∧ h.clientBuf.fullQue.count = 0
  owned : ∀ (x : ℕ) (h : OprHandle), s.handles x = some h →
    (∃ fd conn, s.server = .spawn fd conn x) ∨
      ∃ (i : ℕ) (thr : CliThread), s.threads[i]? = some thr ∧ thr.handle = x ∧ thr.pc.ended = false
  listed : ∀ x ∈ s.list.contents,
    ∃ (i : ℕ) (thr : CliThread), s.threads[i]? = some thr ∧ thr.handle = x ∧ thr.pc.ended = false
  closed : ∀ (i : ℕ) (thr : CliThread), s.threads[i]? = some thr → thr.pc.ended = true →
    s.table.fds thr.fd ≠ .connected thr.conn
  deleted : ∀ (i : ℕ) (thr : CliThread) (h : OprHandle), s.threads[i]? = some thr →
    s.handles thr.handle = some h → thr.pc = .free → h.lock = false ∧ h.pool = false

/-- The thread and the lock can be made, and a thread whose pool was not made, or has no slots, does
not find `SERVER_STAR` at its loop. -/
def SetUpOk (param : ServerParam) (s : State) : Label param → Prop
  | .server (.thread ok) => ok = true
  | .client _ (.mutex ok) => ok = true
  | .client i .next => ∀ thr ∈ s.threads[i]?, ∀ h ∈ s.handles thr.handle,
      thr.pc = .testServer → s.status = .star → param.serverType = .streamType →
      h.pool = true ∧ 0 ≤ param.bufNum
  | _ => True

instance (s : State) : (l : Label param) → Decidable (SetUpOk param s l)
  | .server (.thread ok) => inferInstanceAs (Decidable (ok = true))
  | .client _ (.mutex ok) => inferInstanceAs (Decidable (ok = true))
  | .client _ .next => inferInstanceAs (Decidable (∀ thr ∈ _, ∀ h ∈ _, _ → _ → _ → _ ∧ _))
  | .server .next | .server (.create _) | .server (.accept _) | .server (.mem _) | .app | .sendBuf
  | .sender | .client _ (.buf ..) | .client _ (.node _) | .client _ (.turn _)
  | .client _ (.send _) => inferInstanceAs (Decidable True)

/-! ## What a thread has made -/

/-- The thread has deleted its lock. -/
def CliPc.unlocked : CliPc → Bool
  | .testType | .drain | .deleteBuf | .free => true
  | _ => false

structure MadeInv (param : ServerParam) (thr : CliThread) (h : OprHandle) : Prop where
  lock : thr.pc.locked = true → h.lock = true
  unlocked : thr.pc.unlocked = true → h.lock = false
  noPool : thr.pc = .free ∨ param.serverType = .msgType → h.pool = false
  socket : thr.pc.hasSocket = true →
    3 ≤ thr.clientSocket ∨ (h.status ≠ .connect ∧ thr.pc ≠ .testServer ∧ thr.pc.serving = false)

theorem MadeInv.move {thr thr' : CliThread} {h : OprHandle} {server : ServerStatus}
    {a : CliAnswer param} {e : CliEffect} (hs : MadeInv param thr h)
    (hmove : Move param server thr h a thr' e) : MadeInv param thr' (e.handle h) := by
  obtain ⟨hlock, hunlocked, hpool, hsocket⟩ := hs
  have hfree : ∀ {pc : CliPc}, pc ≠ .free → pc = .free ∨ param.serverType = .msgType →
      h.pool = false := fun hne hor ↦ hpool (Or.inr (hor.resolve_left hne))
  cases hmove with
  | create hpc => exact ⟨fun _ ↦ rfl, fun h ↦ (by cases h), hfree (by simp), fun h ↦ by cases h⟩
  | quit hpc =>
      exact ⟨fun h ↦ (by cases h), fun h ↦ (by cases h), hfree (by simp), fun h ↦ by cases h⟩
  | connect hpc | noBuf hpc =>
      rw [hpc] at hlock
      exact ⟨fun _ ↦ hlock rfl, fun h ↦ (by cases h), hfree (by simp), fun h ↦ by cases h⟩
  | createBuf mem initStatus r hpc htype =>
      rw [hpc] at hlock
      refine ⟨fun _ ↦ hlock rfl, fun h ↦ (by cases h), fun hor ↦ ?_, fun h ↦ by cases h⟩
      simp [htype] at hor
  | getSocket hpc =>
      rw [hpc] at hlock
      simp only [CliEffect.handle]
      split
      · exact ⟨fun _ ↦ hlock rfl, fun h ↦ (by cases h), hfree (by simp),
          fun _ ↦ Or.inr (by simp [CliPc.serving])⟩
      · next hge =>
        exact ⟨fun _ ↦ hlock rfl, fun h ↦ (by cases h), hfree (by simp),
          fun _ ↦ Or.inl (not_lt.mp hge)⟩
  | connected hpc hst =>
      rw [hpc] at hlock hsocket
      exact ⟨fun _ ↦ hlock rfl, fun h ↦ (by cases h), hfree (by simp),
        fun _ ↦ Or.inl ((hsocket rfl).resolve_right fun h ↦ h.1 hst)⟩
  | disconnected hpc hst =>
      rw [hpc] at hlock
      exact ⟨fun _ ↦ hlock rfl, fun h ↦ (by cases h), hfree (by simp),
        fun _ ↦ Or.inr ⟨hst, by simp, rfl⟩⟩
  | running hpc =>
      rw [hpc] at hlock hsocket
      refine ⟨fun _ ↦ hlock rfl, fun h ↦ ?_, hfree (by dsimp only; split <;> simp),
        fun _ ↦ Or.inl ((hsocket rfl).resolve_right fun h ↦ h.2.1 rfl)⟩
      dsimp only at h
      split at h <;> cases h
  | getFull r hpc =>
      rw [hpc] at hlock hsocket
      refine ⟨fun _ ↦ hlock rfl, fun h ↦ ?_, hfree (by dsimp only; split <;> simp),
        fun _ ↦ Or.inl ((hsocket rfl).resolve_right fun h ↦ by simp [CliPc.serving] at h)⟩
      dsimp only at h
      split at h <;> cases h
  | sent bufId hpc | sendFailed bufId hpc | putEmpty bufId r hpc | turn hpc | turnFailed hpc
  | exitStatus hpc | exitShutdown hpc | exitClose hpc | exitUnset hpc | stopped hpc =>
      -- the socket was checked before the turn
      rw [hpc] at hlock hsocket
      exact ⟨fun _ ↦ hlock rfl, fun h ↦ (by cases h), hfree (by simp),
        fun _ ↦ Or.inl ((hsocket rfl).resolve_right fun h ↦ by simp [CliPc.serving] at h)⟩
  | register mem hpc | unregister hpc | shutdown hpc | close hpc =>
      rw [hpc] at hlock hsocket
      exact ⟨fun _ ↦ hlock rfl, fun h ↦ (by cases h), hfree (by simp),
        fun _ ↦ (hsocket rfl).imp_right fun h ↦ ⟨h.1, by simp, rfl⟩⟩
  | deleteLock hpc =>
      rw [hpc] at hsocket
      exact ⟨fun h ↦ (by cases h), fun _ ↦ rfl, hfree (by simp),
        fun _ ↦ (hsocket rfl).imp_right fun h ↦ ⟨h.1, by simp, rfl⟩⟩
  | testType hpc =>
      rw [hpc] at hunlocked hsocket
      refine ⟨fun h ↦ ?_, fun _ ↦ hunlocked rfl, fun hor ↦ ?_, fun _ ↦ ?_⟩
      · dsimp only at h
        split at h <;> cases h
      · cases htype : param.serverType with
        | msgType => exact hpool (Or.inr htype)
        | streamType => simp [htype] at hor
      · refine (hsocket rfl).imp_right fun h ↦ ⟨h.1, ?_⟩
        dsimp only
        split <;> simp [CliPc.serving]
  | drain r hpc =>
      rw [hpc] at hunlocked hsocket
      refine ⟨fun h ↦ ?_, fun _ ↦ hunlocked rfl, hfree (by dsimp only; split <;> simp), fun _ ↦ ?_⟩
      · dsimp only at h
        split at h <;> cases h
      · refine (hsocket rfl).imp_right fun h ↦ ⟨h.1, ?_⟩
        dsimp only
        split <;> simp [CliPc.serving]
  | deleteBuf hpc =>
      rw [hpc] at hunlocked hsocket
      exact ⟨fun h ↦ (by cases h), fun _ ↦ hunlocked rfl, fun _ ↦ rfl,
        fun _ ↦ (hsocket rfl).imp_right fun h ↦ ⟨h.1, by simp, rfl⟩⟩
  | free hpc =>
      rw [hpc] at hsocket
      exact ⟨fun h ↦ (by cases h), fun h ↦ (by cases h), hfree (by simp),
        fun _ ↦ (hsocket rfl).imp_right fun h ↦ ⟨h.1, by simp, rfl⟩⟩

/-! ## The slots of a new pool -/

theorem osaBufCreate_slots {bufNum : ℤ} (hpos : 0 ≤ bufNum)
    {mem : Bool → Option (Vector ℤ (bufNum % 2 ^ 32).toNat)} {initStatus : Bool → ℤ}
    {garbage : OsaBufHndl} {r : ℤ × OsaBufHndl}
    (h : osaBufCreate bufNum mem initStatus garbage = some r) (hsok : r.1 = osaSok) :
    (r.2.emptyQue.count : ℤ) = bufNum ∧ r.2.fullQue.count = 0 := by
  obtain ⟨status, hndl⟩ := r
  obtain rfl : status = osaSok := hsok
  lift bufNum to ℕ using hpos
  have hmax : (bufNum : ℤ) ≤ osaBufNumMax := by
    by_contra hgt
    simp only [osaBufCreate, not_le.mp hgt, if_true, Option.some.injEq, Prod.mk.injEq] at h
    exact osaEfail_ne_osaSok h.1
  rcases Nat.eq_zero_or_pos bufNum with rfl | hpos
  · -- no slot is put into the queue as it was created
    have hcount : ∀ b, (osaQueCreate _ (mem b) (initStatus b)).2.count = 0 := by
      intro b
      cases mem b <;> rfl
    simp only [osaBufCreate, not_lt.mpr hmax, if_false] at h
    split at h
    · next hbad =>
      simp only [Option.some.injEq, Prod.mk.injEq] at h
      exact (hbad h.1).elim
    · split at h
      · next hbad =>
        simp only [Option.some.injEq, Prod.mk.injEq] at h
        exact (hbad h.1).elim
      · obtain ⟨que, hfill, heq⟩ := Option.map_eq_some_iff.mp h
        obtain rfl := Option.some.inj hfill
        obtain rfl := (Prod.mk.inj heq).2
        exact ⟨congrArg Nat.cast (hcount false), hcount true⟩
  · have hfresh := osaBufCreate_fresh hpos hmax h
    have hempty := congrArg List.length hfresh.empty
    have hfull := congrArg List.length hfresh.full
    rw [RingHndl.length_items, List.length_map, List.length_range] at hempty
    rw [RingHndl.length_items] at hfull
    exact ⟨congrArg Nat.cast hempty, hfull⟩

/-- Nobody has used the pool yet. -/
def NewPool (param : ServerParam) (thr : CliThread) (h : OprHandle) : Prop :=
  thr.pc = .getSocket ∨ thr.pc = .register → h.pool = true → 0 ≤ param.bufNum →
    (h.clientBuf.emptyQue.count : ℤ) = param.bufNum ∧ h.clientBuf.fullQue.count = 0

theorem NewPool.move {server : ServerStatus} {thr thr' : CliThread} {h : OprHandle}
    {a : CliAnswer param} {e : CliEffect} (hs : NewPool param thr h) (hmade : MadeInv param thr h)
    (hmove : Move param server thr h a thr' e) : NewPool param thr' (e.handle h) := by
  cases hmove with
  | createBuf mem initStatus r hpc htype hr =>
      exact fun _ hpool hpos ↦ osaBufCreate_slots hpos hr (of_decide_eq_true hpool)
  | noBuf hpc htype =>
      intro _ hpool
      change h.pool = true at hpool
      rw [hmade.noPool (Or.inr htype)] at hpool
      cases hpool
  | getSocket hpc =>
      simp only [CliEffect.handle]
      split <;> exact fun _ hpool hpos ↦ hs (Or.inl hpc) hpool hpos
  | running | getFull | testType | drain =>
      intro hor
      dsimp only at hor
      split at hor <;> simp at hor
  | _ => exact fun hor ↦ by simp at hor

/-- The thread has read its socket, or is to read it. -/
structure OwnSocket (thr : CliThread) (h : OprHandle) : Prop where
  socket : thr.pc.hasSocket = false → h.socket = thr.fd
  clientSocket : thr.pc.hasSocket = true → thr.clientSocket = thr.fd

theorem OwnSocket.move {thr thr' : CliThread} {h : OprHandle} {server : ServerStatus}
    {a : CliAnswer param} {e : CliEffect} (hs : OwnSocket thr h)
    (hmove : Move param server thr h a thr' e) : OwnSocket thr' (e.handle h) := by
  obtain ⟨hsocket, hclient⟩ := hs
  cases hmove with
  | create hpc | quit hpc | connect hpc | noBuf hpc | createBuf mem initStatus r hpc =>
      rw [hpc] at hsocket
      exact ⟨fun _ ↦ hsocket rfl, fun h ↦ by cases h⟩
  | getSocket hpc =>
      rw [hpc] at hsocket
      exact ⟨fun h ↦ (by cases h), fun _ ↦ hsocket rfl⟩
  | running hpc | getFull r hpc | testType hpc | drain r hpc =>
      rw [hpc] at hclient
      refine ⟨fun h ↦ ?_, fun _ ↦ hclient rfl⟩
      dsimp only at h
      split at h <;> cases h
  | register mem hpc | connected hpc | disconnected hpc | stopped hpc | sent bufId hpc
  | sendFailed bufId hpc | putEmpty bufId r hpc | turn hpc | turnFailed hpc | exitStatus hpc
  | exitShutdown hpc | exitClose hpc | exitUnset hpc | unregister hpc | shutdown hpc | close hpc
  | deleteLock hpc | deleteBuf hpc | free hpc =>
      rw [hpc] at hclient
      exact ⟨fun h ↦ (by cases h), fun _ ↦ hclient rfl⟩

/-- A thread that has hung up does not have its connection open any more; connections are numbered
as they are made. -/
structure GoneInv (s : State) : Prop where
  made : ∀ (i : ℕ) (thr : CliThread), s.threads[i]? = some thr → thr.conn < s.table.connections
  hand : ∀ fd conn, s.server.hand = some (fd, conn) → conn < s.table.connections
  closed : ∀ (i : ℕ) (thr : CliThread), s.threads[i]? = some thr → thr.pc.hungUp .close = true →
    s.table.fds thr.fd ≠ .connected thr.conn

/-- No old connection is opened again. -/
structure Older (table table' : FdTable) : Prop where
  connections : table.connections ≤ table'.connections
  fds : ∀ x c, c < table.connections → table'.fds x = .connected c → table.fds x = .connected c

theorem Older.refl (table : FdTable) : Older table table := ⟨le_rfl, fun _ _ _ h ↦ h⟩

theorem Older.update {table : FdTable} {fd : ℤ} {d : Descriptor} {n : ℕ}
    (hle : table.connections ≤ n) (hd : ∀ c, d = .connected c → table.connections ≤ c) :
    Older table ⟨Function.update table.fds fd d, n⟩ := by
  refine ⟨hle, fun x c hc hx ↦ ?_⟩
  rcases eq_or_ne x fd with rfl | hne
  · change Function.update table.fds x d x = _ at hx
    rw [Function.update_self] at hx
    exact absurd (hd c hx) (not_le.mpr hc)
  · change Function.update table.fds fd d x = _ at hx
    rwa [Function.update_of_ne hne] at hx

theorem Older.of_apply {table table' : FdTable} {op : FdOp}
    (h : table.apply op = some table') : Older table table' := by
  cases op with
  | socket fd =>
      simp only [FdTable.apply] at h
      split at h
      · cases h
        exact Older.update le_rfl (by simp)
      · cases h
  | connect fd | accept fd =>
      simp only [FdTable.apply] at h
      split at h
      · cases h
        exact Older.update (Nat.le_succ _) (by simp)
      · cases h
  | close fd =>
      cases h
      exact Older.update le_rfl (by simp)

theorem ServerStep.older {a : ServerAnswer} (h : ServerStep param s a s') :
    Older s.table s'.table := by
  cases h with
  | created a table hpc hsok htable => exact Older.of_apply htable
  | lowClient client fd table hpc htable | accepted client fd table hpc hpos htable =>
      exact Older.of_apply htable
  | createFailed a table hpc hfail htable =>
      cases hfd : (osaCreateTcpFd param.serverPort a).2 with
      | none =>
          rw [hfd] at htable
          obtain rfl : s.table = table := Option.some.inj htable
          exact .refl s.table
      | some fd =>
          rw [hfd] at htable
          exact Older.of_apply (show s.table.apply (.socket fd) = some table from htable)
  | setStar | goOn | leave | noClient | readSize | admitted | refused | noMemory | allocated
  | spawned | spawnFailed | setAbor => exact .refl s.table

namespace GoneInv

theorem server (hs : GoneInv s) (hthreads : s'.threads = s.threads)
    (holder : Older s.table s'.table)
    (hhand : ∀ fd conn, s'.server.hand = some (fd, conn) → s.server.hand = some (fd, conn) ∨
      conn < s'.table.connections) : GoneInv s' := by
  constructor
  · rw [hthreads]
    exact fun i thr hthr ↦ (hs.made i thr hthr).trans_le holder.connections
  · intro fd conn hnow
    rcases hhand fd conn hnow with hold | hlt
    · exact (hs.hand fd conn hold).trans_le holder.connections
    · exact hlt
  · rw [hthreads]
    exact fun i thr hthr hgone hfd ↦
      hs.closed i thr hthr hgone (holder.fds _ _ (hs.made i thr hthr) hfd)

theorem thread (hs : GoneInv s) {i : ℕ} {thr thr' : CliThread} (hthr : s.threads[i]? = some thr)
    (hframe : ThreadFrame s s' i thr thr') (holder : Older s.table s'.table)
    (hclosed : thr'.pc.hungUp .close = true → thr.pc.hungUp .close = true ∨
      s'.table.fds thr.fd = .closed) : GoneInv s' := by
  constructor
  · rw [hframe.threads]
    intro j u hu
    rcases getElem?_set_cases hu with ⟨-, rfl⟩ | ⟨-, hu⟩
    · rw [hframe.conn]
      exact (hs.made i thr hthr).trans_le holder.connections
    · exact (hs.made j u hu).trans_le holder.connections
  · rw [hframe.server]
    exact fun fd conn hnow ↦ (hs.hand fd conn hnow).trans_le holder.connections
  · rw [hframe.threads]
    intro j u hu hgone hfd
    rcases getElem?_set_cases hu with ⟨-, rfl⟩ | ⟨-, hu⟩
    · rw [hframe.fd, hframe.conn] at hfd
      rcases hclosed hgone with hgone' | heq
      · exact hs.closed i thr hthr hgone' (holder.fds _ _ (hs.made i thr hthr) hfd)
      · rw [heq] at hfd
        cases hfd
    · exact hs.closed j u hu hgone (holder.fds _ _ (hs.made j u hu) hfd)

end GoneInv

theorem Move.hungUp_close {server : ServerStatus} {thr thr' : CliThread} {h : OprHandle}
    {a : CliAnswer param} {e : CliEffect} (hmove : Move param server thr h a thr' e)
    (hgone : thr'.pc.hungUp .close = true) :
    thr.pc.hungUp .close = true ∨ (thr.pc = .close ∧ e = .hang .close) := by
  cases hmove with
  | close hpc => exact Or.inr ⟨hpc, rfl⟩
  | deleteLock hpc | testType hpc | drain r hpc | deleteBuf hpc | free hpc =>
      rw [hpc]
      exact Or.inl rfl
  | running | getFull =>
      dsimp only at hgone
      split at hgone <;> cases hgone
  | _ => cases hgone

theorem GoneInv.client (hs : GoneInv s) (hown : LocalInv OwnSocket s) {i : ℕ}
    {a : CliAnswer param} {thr : CliThread} (hthr : s.threads[i]? = some thr)
    (hover : thr.pc.over = false) (h : ClientStep param s i a thr s') : GoneInv s' := by
  have hmoved : ∀ {h₁ thr' e}, Move param s.status thr h₁ a thr' e → e ≠ .hang .close →
      thr'.pc.hungUp .close = true → thr.pc.hungUp .close = true := by
    intro h₁ thr' e hmove hne hgone
    exact (hmove.hungUp_close hgone).resolve_right fun hclose ↦ hne hclose.2
  cases h with
  | noHandle | fault | pushCrash | earseCrash =>
      exact hs.thread hthr ⟨rfl, rfl, rfl, rfl, rfl, rfl, rfl, rfl, rfl⟩ (.refl s.table)
        fun h ↦ by cases h
  | none h thr' hh hmove | write h thr' h' hh hmove | push h thr' mem l hh hmove
  | earse h thr' l hh hmove | free h thr' hh hmove | shutdown h thr' hh hmove =>
      exact hs.thread hthr hmove.frame (.refl s.table) fun hgone ↦
        Or.inl (hmoved hmove (by simp) hgone)
  | close h thr' hh hmove =>
      refine hs.thread hthr hmove.frame (Older.update le_rfl (by simp)) fun hgone ↦ ?_
      refine (hmove.hungUp_close hgone).imp_right fun hclose ↦ ?_
      have hsocket := (hown i thr h hthr hover hh).clientSocket (by rw [hclose.1]; rfl)
      change Function.update s.table.fds thr.clientSocket .closed thr.fd = .closed
      rw [hsocket, Function.update_self]

theorem GoneInv.step (hs : GoneInv s) (hown : LocalInv OwnSocket s)
    (hstep : Server.step param s l = some s') : GoneInv s' := by
  cases step_cases hstep with
  | app h => cases h <;> exact hs.server rfl (.refl s.table) fun _ _ h ↦ Or.inl h
  | server a h =>
      have holder := h.older
      have hhand : ∀ fd conn, s'.server.hand = some (fd, conn) →
          s.server.hand = some (fd, conn) ∨ conn < s'.table.connections :=
        fun fd conn hnow ↦ (h.hand fd conn hnow).imp_right fun h ↦ h.2.2
      cases h with
      | spawned fd conn handle hpc =>
          have hlt := hs.hand fd conn (by rw [hpc]; rfl)
          constructor
          · intro i thr hthr
            rcases getElem?_snoc_cases hthr with ⟨-, rfl⟩ | hthr
            · exact hlt
            · exact hs.made i thr hthr
          · exact fun fd conn hnow ↦ by cases hnow
          · intro i thr hthr hgone
            rcases getElem?_snoc_cases hthr with ⟨-, rfl⟩ | hthr
            · cases hgone
            · exact hs.closed i thr hthr hgone
      | created | createFailed | setStar | goOn | leave | noClient | lowClient | accepted | readSize
      | admitted | refused | noMemory | allocated | spawnFailed | setAbor =>
          exact hs.server rfl holder hhand
  | client i a thr hthr hover h => exact hs.client hown hthr hover h
  | sender l hl' hfree h =>
      obtain ⟨hthreads, hserver, -, -, -, -, htable, -⟩ := h.frame
      refine hs.server hthreads (by rw [htable]; exact .refl s.table) fun _ _ h ↦ ?_
      rw [hserver] at h
      exact Or.inl h

/-! ## The handles -/

/-- A handle belongs to `OSA_server_thread`, or to a thread that has not returned. -/
def OwnedInv (s : State) : Prop :=
  ∀ (x : ℕ) (h : OprHandle), s.handles x = some h → (∃ fd conn, s.server = .spawn fd conn x) ∨
    ∃ (i : ℕ) (thr : CliThread), s.threads[i]? = some thr ∧ thr.handle = x ∧ thr.pc.ended = false

theorem CliPc.ended_of_ne {pc : CliPc} (hdone : pc ≠ .done) (hquit : pc ≠ .quit) :
    pc.ended = false := by
  cases pc <;> first | rfl | exact (hdone rfl).elim | exact (hquit rfl).elim

theorem Move.ended {server : ServerStatus} {thr thr' : CliThread} {h : OprHandle}
    {a : CliAnswer param} {e : CliEffect} (hmove : Move param server thr h a thr' e)
    (hended : thr'.pc.ended = true) : e = .free ∨ (thr'.pc = .quit ∧ a = .mutex false) := by
  cases hmove with
  | free => exact Or.inl rfl
  | quit => exact Or.inr ⟨rfl, rfl⟩
  | running | getFull | testType | drain =>
      dsimp only at hended
      split at hended <;> cases hended
  | _ => cases hended

theorem OwnedInv.thread (hs : OwnedInv s) {i : ℕ} {thr thr' : CliThread}
    (hthr : s.threads[i]? = some thr) (hframe : ThreadFrame s s' i thr thr')
    (hhandles : ∀ x h, s'.handles x = some h → ∃ h', s.handles x = some h')
    (hended : thr'.pc.ended = true → s'.handles thr.handle = none) : OwnedInv s' := by
  intro x h hx
  obtain ⟨h', hx'⟩ := hhandles x h hx
  rw [hframe.server, hframe.threads]
  refine (hs x h' hx').imp_right ?_
  rintro ⟨j, u, hu, rfl, hu'⟩
  by_cases hj : j = i
  · subst hj
    obtain rfl : u = thr := Option.some.inj (hu.symm.trans hthr)
    refine ⟨j, thr', List.getElem?_set_self (List.getElem?_eq_some_iff.mp hthr).1, hframe.handle,
      ?_⟩
    cases hpc : thr'.pc.ended with
    | false => rfl
    | true =>
        rw [hended hpc] at hx
        cases hx
  · exact ⟨j, u, (List.getElem?_set_ne (Ne.symm hj)).trans hu, rfl, hu'⟩

theorem OwnedInv.client (hs : OwnedInv s) {i : ℕ} {a : CliAnswer param} {thr : CliThread}
    (hok : SetUpOk param s (.client i a)) (hthr : s.threads[i]? = some thr)
    (h : ClientStep param s i a thr s') : OwnedInv s' := by
  have hmoved : ∀ {h₁ thr' e}, Move param s.status thr h₁ a thr' e → e ≠ .free →
      thr'.pc.ended = true → s'.handles thr.handle = none := by
    intro h₁ thr' e hmove hne hended
    rcases hmove.ended hended with hfree | ⟨-, rfl⟩
    · exact (hne hfree).elim
    · cases hok
  cases h with
  | noHandle | fault | pushCrash | earseCrash =>
      exact hs.thread hthr ⟨rfl, rfl, rfl, rfl, rfl, rfl, rfl, rfl, rfl⟩ (fun x h hx ↦ ⟨h, hx⟩)
        fun h ↦ by cases h
  | none h thr' hh hmove | push h thr' mem l hh hmove | earse h thr' l hh hmove
  | shutdown h thr' hh hmove | close h thr' hh hmove =>
      exact hs.thread hthr hmove.frame (fun x h hx ↦ ⟨h, hx⟩) (hmoved hmove (by simp))
  | write h thr' h' hh hmove =>
      refine hs.thread hthr hmove.frame (fun x h₁ hx ↦ ?_) (hmoved hmove (by simp))
      rcases update_eq_cases (f := s.handles) hx with ⟨rfl, -⟩ | ⟨-, hx⟩
      · exact ⟨h, hh⟩
      · exact ⟨h₁, hx⟩
  | free h thr' hh hmove =>
      refine hs.thread hthr hmove.frame (fun x h₁ hx ↦ ?_) fun _ ↦ Function.update_self ..
      rcases update_eq_cases (f := s.handles) hx with ⟨-, heq⟩ | ⟨-, hx⟩
      · cases heq
      · exact ⟨h₁, hx⟩

theorem OwnedInv.step (hs : OwnedInv s) (hok : SetUpOk param s l)
    (hstep : Server.step param s l = some s') : OwnedInv s' := by
  cases step_cases hstep with
  | app h => cases h <;> exact hs
  | server a h =>
      have hkeep : ∀ pc : ServerPc, (∀ fd conn x, s.server ≠ .spawn fd conn x) →
          OwnedInv { s with server := pc } := fun pc hne x h hx ↦
        (hs x h hx).imp_left fun ⟨fd, conn, hpc⟩ ↦ (hne fd conn x hpc).elim
      cases h with
      | spawnFailed fd conn handle hpc => cases hok
      | spawned fd conn handle hpc =>
          intro x h hx
          refine Or.inr ?_
          rcases hs x h hx with ⟨fd', conn', hpc'⟩ | ⟨i, thr, hthr, hhandle, hended⟩
          · obtain ⟨-, -, rfl⟩ := ServerPc.spawn.inj (hpc.symm.trans hpc')
            exact ⟨s.threads.length, _, List.getElem?_concat_length, rfl, rfl⟩
          · have hlt := (List.getElem?_eq_some_iff.mp hthr).1
            exact ⟨i, thr, (List.getElem?_append_left hlt).trans hthr, hhandle, hended⟩
      | allocated fd conn handle hpc =>
          intro x h hx
          rcases update_eq_cases (f := s.handles) hx with ⟨rfl, -⟩ | ⟨-, hx⟩
          · exact Or.inl ⟨fd, conn, rfl⟩
          · exact hkeep .test (by simp [hpc]) x h hx |>.imp_left fun ⟨_, _, h⟩ ↦ by cases h
      | created a table hpc | createFailed a table hpc | setStar hpc | goOn hpc | leave hpc
      | noClient client hpc | lowClient client fd table hpc | accepted client fd table hpc
      | readSize fd conn hpc | admitted fd conn clientSize hpc | refused fd conn clientSize hpc
      | noMemory fd conn hpc | setAbor hpc => exact fun x h hx ↦ hkeep _ (by simp [hpc]) x h hx
  | client i a thr hthr hover h => exact hs.client hok hthr h
  | sender l hl hfree h =>
      obtain ⟨hthreads, hserver, -⟩ := h.frame
      intro x h' hx
      obtain ⟨h₁, hx₁, -⟩ := h.handles hx
      rw [hthreads, hserver]
      exact hs x h₁ hx₁

/-- No thread has returned because it had no lock. -/
def NoneQuit (s : State) : Prop :=
  ∀ (i : ℕ) (thr : CliThread), s.threads[i]? = some thr → thr.pc ≠ .quit

theorem NoneQuit.step (hs : NoneQuit s) (hok : SetUpOk param s l)
    (hstep : Server.step param s l = some s') : NoneQuit s' := by
  cases step_cases hstep with
  | app h => cases h <;> exact hs
  | server a h =>
      cases h with
      | spawned =>
          intro i thr hthr
          rcases getElem?_snoc_cases hthr with ⟨-, rfl⟩ | hthr
          · simp
          · exact hs i thr hthr
      | created | createFailed | setStar | goOn | leave | noClient | lowClient | accepted | readSize
      | admitted | refused | noMemory | allocated | spawnFailed | setAbor => exact hs
  | client i a thr hthr hover h =>
      have hset : ∀ {thr' : CliThread}, thr'.pc ≠ .quit →
          ∀ (j : ℕ) (u : CliThread), (s.threads.set i thr')[j]? = some u → u.pc ≠ .quit := by
        intro thr' hne j u hu
        rcases getElem?_set_cases hu with ⟨-, rfl⟩ | ⟨-, hu⟩
        · exact hne
        · exact hs j u hu
      have hmoved : ∀ {h₁ thr' e}, Move param s.status thr h₁ a thr' e → thr'.pc ≠ .quit := by
        intro h₁ thr' e hmove hpc
        rcases hmove.ended (by rw [hpc]; rfl) with rfl | ⟨-, rfl⟩
        · cases hmove
          cases hpc
        · cases hok
      cases h with
      | noHandle | fault | pushCrash | earseCrash => exact hset (by simp)
      | none h thr' hh hmove | write h thr' h' hh hmove | push h thr' mem l hh hmove
      | earse h thr' l hh hmove | shutdown h thr' hh hmove | close h thr' hh hmove
      | free h thr' hh hmove => exact hset (hmoved hmove)
  | sender l hl hfree h =>
      intro i thr hthr
      rw [h.frame.threads] at hthr
      exact hs i thr hthr

/-! ## The pools of the threads in their loops -/

def PoolReady (param : ServerParam) (thr : CliThread) (h : OprHandle) : Prop :=
  thr.pc.serving = true → param.serverType = .streamType → h.pool = true ∧ 0 ≤ param.bufNum

theorem PoolReady.move {i : ℕ} {thr thr' : CliThread} {h : OprHandle} {a : CliAnswer param}
    {e : CliEffect} (hs : PoolReady param thr h) (hok : SetUpOk param s (.client i a))
    (hthr : s.threads[i]? = some thr) (hh : s.handles thr.handle = some h)
    (hmove : Move param s.status thr h a thr' e) : PoolReady param thr' (e.handle h) := by
  cases hmove with
  | running hpc hst => exact fun _ htype ↦ hok thr hthr h hh hpc hst htype
  | getFull r hpc | sent bufId hpc | sendFailed bufId hpc | turnFailed hpc | exitStatus hpc
  | exitShutdown hpc | exitClose hpc => exact fun _ htype ↦ hs (by rw [hpc]; rfl) htype
  | testType | drain =>
      intro hserving
      dsimp only at hserving
      split at hserving <;> cases hserving
  | _ => exact fun hserving ↦ by cases hserving

/-! ## Every run -/

structure SetUpInv (param : ServerParam) (s : State) : Prop where
  inv : Inv s
  made : LocalInv (MadeInv param) s
  new : LocalInv (NewPool param) s
  own : LocalInv OwnSocket s
  gone : GoneInv s
  owned : OwnedInv s
  quit : NoneQuit s
  pool : LocalInv (PoolReady param) s

theorem SetUpInv.law (hs : SetUpInv param s) : SetUpLaw param s where
  ready := by
    intro i thr h hthr hh hserving
    have hover : thr.pc.over = false := by
      cases hpc : thr.pc <;> first | rfl | (rw [hpc] at hserving; cases hserving)
    have hlocked : thr.pc.locked = true := by
      cases hpc : thr.pc <;> first | rfl | (rw [hpc] at hserving; cases hserving)
    have hsocket : thr.pc.hasSocket = true := by
      cases hpc : thr.pc <;> first | rfl | (rw [hpc] at hserving; cases hserving)
    have hmade := hs.made i thr h hthr hover hh
    refine ⟨hmade.lock hlocked, ?_, hs.pool i thr h hthr hover hh hserving⟩
    exact (hmade.socket hsocket).resolve_right fun hnot ↦ by simp [hserving] at hnot
  slots := by
    intro i thr h hthr hh hor
    have hover : thr.pc.over = false := by
      rcases hor with hpc | hpc <;> rw [hpc] <;> rfl
    exact hs.new i thr h hthr hover hh hor
  owned := hs.owned
  listed := by
    intro x hx
    obtain ⟨i, thr, hthr, hhandle, hlisted⟩ := hs.inv.reg.listed x hx
    refine ⟨i, thr, hthr, hhandle, CliPc.ended_of_ne (CliPc.ne_done_of_listed hlisted) ?_⟩
    exact hs.quit i thr hthr
  closed := by
    intro i thr hthr hended
    have hdone : thr.pc = .done := by
      by_contra hne
      rw [CliPc.ended_of_ne hne (hs.quit i thr hthr)] at hended
      cases hended
    exact hs.gone.closed i thr hthr (by rw [hdone]; rfl)
  deleted := by
    intro i thr h hthr hh hpc
    have hmade := hs.made i thr h hthr (by rw [hpc]; rfl) hh
    exact ⟨hmade.unlocked (by rw [hpc]; rfl), hmade.noPool (Or.inl hpc)⟩

end OsaBase.Server
