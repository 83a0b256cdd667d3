import OsaBase.Lib.Runs
import OsaBase.Server.Model

/-!
# What a step of the server can do

A client thread goes through four phases: it is to add itself to the list, is in the list, has
removed itself, and has returned. Each of its steps is a move between two places with one effect,
and the steps of the other threads are a few assignments each.
-/

open Transition

namespace OsaBase.Server

variable {param : ServerParam} {s s' : State}

/-! ## The phases of a client thread -/

/-- The thread was created and has not added itself to the list yet. -/
def CliPc.pending : CliPc → Bool
  | .start | .setConnect | .createBuf | .getSocket | .register => true
  | _ => false

/-- The thread is in the list. -/
def CliPc.registered : CliPc → Bool
  | .testStatus | .testServer | .getFull | .send _ | .putEmpty _ | .turn | .exitStatus
  | .exitShutdown | .exitClose | .exitUnset | .unregister => true
  | _ => false

/-- The thread has removed itself from the list and has not returned yet. -/
def CliPc.leaving : CliPc → Bool
  | .shutdown | .close | .deleteLock | .testType | .drain | .deleteBuf | .free => true
  | _ => false

/-! ## The moves of a client thread -/

/-- The move of a thread at `thr` with the handle `h`: where it is then, and the effect. -/
inductive Move (param : ServerParam) (server : ServerStatus) (thr : CliThread) (h : OprHandle) :
    CliAnswer param → CliThread → CliEffect → Prop
  | create : thr.pc = .start →
      Move param server thr h (.mutex true) { thr with pc := .setConnect }
        (.write { h with lock := true })
  | quit : thr.pc = .start → Move param server thr h (.mutex false) { thr with pc := .quit } .none
  | connect : thr.pc = .setConnect →
      Move param server thr h .next { thr with pc := .createBuf }
        (.write { h with status := .connect })
  | noBuf : thr.pc = .createBuf → param.serverType = .msgType →
      Move param server thr h .next { thr with pc := .getSocket } .none
  | createBuf (mem initStatus r) : thr.pc = .createBuf → param.serverType = .streamType →
      osaBufCreate param.bufNum mem initStatus h.clientBuf = some r →
      Move param server thr h (.buf mem initStatus) { thr with pc := .getSocket }
        (.write { h with clientBuf := r.2, pool := r.1 = osaSok })
  | getSocket : thr.pc = .getSocket →
      Move param server thr h .next { thr with pc := .register, clientSocket := h.socket }
        (.write (if h.socket < 3 then { h with status := .disconnect } else h))
  | register (mem) : thr.pc = .register →
      Move param server thr h (.node mem) { thr with pc := .testStatus } (.push mem)
  | connected : thr.pc = .testStatus → h.status = .connect →
      Move param server thr h .next { thr with pc := .testServer } .none
  | disconnected : thr.pc = .testStatus → h.status ≠ .connect →
      Move param server thr h .next { thr with pc := .unregister } .none
  | running : thr.pc = .testServer → server = .star →
      Move param server thr h .next
        { thr with pc := if param.serverType = .streamType then .getFull else .turn } .none
  | stopped : thr.pc = .testServer → server ≠ .star →
      Move param server thr h .next { thr with pc := .unregister } .none
  | getFull (r) : thr.pc = .getFull → osaBufGetFull h.clientBuf osaTimeoutForever = some r →
      Move param server thr h .next
        { thr with pc := if r.2.2 > -1 ∧ r.2.2 ≤ param.bufNum then .send r.2.2 else .testStatus }
        (.write { h with clientBuf := r.1 })
  | sent (bufId) : thr.pc = .send bufId →
      Move param server thr h (.send true) { thr with pc := .putEmpty bufId } .none
  | sendFailed (bufId) : thr.pc = .send bufId →
      Move param server thr h (.send false) { thr with pc := .exitStatus, failed := true } .none
  | putEmpty (bufId r) : thr.pc = .putEmpty bufId → osaBufPutEmpty h.clientBuf bufId = some r →
      Move param server thr h .next { thr with pc := .testStatus }
        (.write { h with clientBuf := r.1 })
  | turn : thr.pc = .turn →
      Move param server thr h (.turn true) { thr with pc := .testStatus } .none
  | turnFailed : thr.pc = .turn →
      Move param server thr h (.turn false) { thr with pc := .exitStatus, failed := true } .none
  | exitStatus : thr.pc = .exitStatus →
      Move param server thr h .next { thr with pc := .exitShutdown }
        (.write { h with status := .disconnect })
  | exitShutdown : thr.pc = .exitShutdown →
      Move param server thr h .next { thr with pc := .exitClose } (.hang .shutdown)
  | exitClose : thr.pc = .exitClose →
      Move param server thr h .next { thr with pc := .exitUnset } (.hang .close)
  | exitUnset : thr.pc = .exitUnset →
      Move param server thr h .next { thr with pc := .testStatus } (.write { h with socket := -1 })
  | unregister : thr.pc = .unregister →
      Move param server thr h .next { thr with pc := .shutdown } .earse
  | shutdown : thr.pc = .shutdown →
      Move param server thr h .next { thr with pc := .close } (.hang .shutdown)
  | close : thr.pc = .close →
      Move param server thr h .next { thr with pc := .deleteLock } (.hang .close)
  | deleteLock : thr.pc = .deleteLock →
      Move param server thr h .next { thr with pc := .testType } (.write { h with lock := false })
  | testType : thr.pc = .testType →
      Move param server thr h .next
        { thr with pc := if param.serverType = .streamType then .drain else .free } .none
  | drain (r) : thr.pc = .drain → osaBufGetFull h.clientBuf osaTimeoutNone = some r →
      Move param server thr h .next { thr with pc := if r.2.1 = osaSok then .drain else .deleteBuf }
        (.write { h with clientBuf := r.1 })
  | deleteBuf : thr.pc = .deleteBuf →
      Move param server thr h .next { thr with pc := .free } (.write { h with pool := false })
  | free : thr.pc = .free → Move param server thr h .next { thr with pc := .done } .free

theorem move_of_act {server : ServerStatus} {thr thr' : CliThread} {h : OprHandle}
    {a : CliAnswer param} {e : CliEffect}
    (hact : osaProcessClientThread param server thr h a = some (thr', e)) :
    Move param server thr h a thr' e := by
  unfold osaProcessClientThread at hact
  split at hact
  · next ok hpc =>
    cases ok <;> cases hact
    · exact .quit hpc
    · exact .create hpc
  · next hpc => cases hact; exact .connect hpc
  · next hpc =>
    split at hact
    · next htype => cases hact; exact .noBuf hpc htype
    · cases hact
  · next mem initStatus hpc =>
    split at hact
    · next htype =>
      obtain ⟨r, hr, hact⟩ := Option.bind_eq_some_iff.mp hact
      cases hact
      exact .createBuf mem initStatus r hpc htype hr
    · cases hact
  · next hpc => cases hact; exact .getSocket hpc
  · next mem hpc => cases hact; exact .register mem hpc
  · next hpc =>
    cases hact
    by_cases hst : h.status = .connect
    · rw [if_pos hst]; exact .connected hpc hst
    · rw [if_neg hst]; exact .disconnected hpc hst
  · next hpc =>
    split at hact
    · next hst => cases hact; exact .running hpc hst
    · next hst => cases hact; exact .stopped hpc hst
  · next hpc =>
    obtain ⟨r, hr, hact⟩ := Option.bind_eq_some_iff.mp hact
    cases hact
    exact .getFull r hpc hr
  · next bufId ok hpc =>
    cases ok <;> simp only [Bool.false_eq_true, if_true, if_false, Bool.not_true, Bool.not_false,
      Bool.or_true, Bool.or_false, Option.some.injEq, Prod.mk.injEq] at hact
    · obtain ⟨rfl, rfl⟩ := hact
      exact .sendFailed bufId hpc
    · obtain ⟨rfl, rfl⟩ := hact
      exact .sent bufId hpc
  · next bufId hpc =>
    obtain ⟨r, hr, hact⟩ := Option.bind_eq_some_iff.mp hact
    cases hact
    exact .putEmpty bufId r hpc hr
  · next ok hpc =>
    cases ok <;> simp only [Bool.false_eq_true, if_true, if_false, Bool.not_true, Bool.not_false,
      Bool.or_true, Bool.or_false, Option.some.injEq, Prod.mk.injEq] at hact
    · obtain ⟨rfl, rfl⟩ := hact
      exact .turnFailed hpc
    · obtain ⟨rfl, rfl⟩ := hact
      exact .turn hpc
  · next hpc => cases hact; exact .exitStatus hpc
  · next hpc => cases hact; exact .exitShutdown hpc
  · next hpc => cases hact; exact .exitClose hpc
  · next hpc => cases hact; exact .exitUnset hpc
  · next hpc => cases hact; exact .unregister hpc
  · next hpc => cases hact; exact .shutdown hpc
  · next hpc => cases hact; exact .close hpc
  · next hpc => cases hact; exact .deleteLock hpc
  · next hpc => cases hact; exact .testType hpc
  · next hpc =>
    obtain ⟨r, hr, hact⟩ := Option.bind_eq_some_iff.mp hact
    cases hact
    exact .drain r hpc hr
  · next hpc => cases hact; exact .deleteBuf hpc
  · next hpc => cases hact; exact .free hpc
  · cases hact

/-- The moves are just the steps of `osaProcessClientThread`. -/
theorem act_of_move {server : ServerStatus} {thr thr' : CliThread} {h : OprHandle}
    {a : CliAnswer param} {e : CliEffect} (hmove : Move param server thr h a thr' e) :
    osaProcessClientThread param server thr h a = some (thr', e) := by
  unfold osaProcessClientThread
  cases hmove with
  | create hpc | quit hpc | connect hpc | getSocket hpc | register mem hpc | turn hpc
  | turnFailed hpc | exitStatus hpc | exitShutdown hpc | exitClose hpc | exitUnset hpc
  | unregister hpc | shutdown hpc | close hpc | deleteLock hpc | testType hpc | deleteBuf hpc
  | free hpc | sent bufId hpc | sendFailed bufId hpc => simp [hpc]
  | noBuf hpc htype => simp [hpc, htype]
  | createBuf mem initStatus r hpc htype hr => simp [hpc, htype, hr]
  | connected hpc hst | disconnected hpc hst | running hpc hst | stopped hpc hst =>
      simp [hpc, hst]
  | getFull r hpc hr | putEmpty bufId r hpc hr | drain r hpc hr => simp [hpc, hr]

/-- The thread's handle after the effect. -/
def CliEffect.handle (h : OprHandle) : CliEffect → OprHandle
  | .write h' => h'
  | _ => h

/-! ## The steps of the threads -/

/-- A step of client thread `i`, which is at `thr`. -/
inductive ClientStep (param : ServerParam) (s : State) (i : ℕ) (a : CliAnswer param)
    (thr : CliThread) : State → Prop
  | noHandle : s.handles thr.handle = none →
      ClientStep param s i a thr (s.setThread i { thr with pc := .crash })
  | fault (h) : s.handles thr.handle = some h → s.app.freed = true → thr.readsServer h = true →
      ClientStep param s i a thr (s.setThread i { thr with pc := .fault })
  | none (h thr') : s.handles thr.handle = some h → Move param s.status thr h a thr' .none →
      ClientStep param s i a thr (s.setThread i thr')
  | write (h thr' h') : s.handles thr.handle = some h →
      Move param s.status thr h a thr' (.write h') →
      ClientStep param s i a thr
        { s.setThread i thr' with handles := Function.update s.handles thr.handle (some h') }
  | push (h thr' mem l) : s.handles thr.handle = some h →
      Move param s.status thr h a thr' (.push mem) → s.sender = .idle → s.list.Fresh mem →
      s.list.listPushBack mem thr.handle = some l →
      ClientStep param s i a thr { s.setThread i thr' with list := l }
  | pushCrash (h thr' mem) : s.handles thr.handle = some h →
      Move param s.status thr h a thr' (.push mem) → s.list.listPushBack mem thr.handle = none →
      ClientStep param s i a thr (s.setThread i { thr with pc := .crash })
  | earse (h thr' l) : s.handles thr.handle = some h → Move param s.status thr h a thr' .earse →
      s.sender = .idle → s.list.listEarseData thr.handle = some l →
      ClientStep param s i a thr { s.setThread i thr' with list := l }
  | earseCrash (h thr') : s.handles thr.handle = some h → Move param s.status thr h a thr' .earse →
      s.list.listEarseData thr.handle = none →
      ClientStep param s i a thr (s.setThread i { thr with pc := .crash })
  | shutdown (h thr') : s.handles thr.handle = some h →
      Move param s.status thr h a thr' (.hang .shutdown) →
      ClientStep param s i a thr { s.setThread i thr' with
        hangUps := s.hangUps ++ [⟨.shutdown, i, s.table.fds thr.clientSocket⟩] }
  | close (h thr') : s.handles thr.handle = some h →
      Move param s.status thr h a thr' (.hang .close) →
      ClientStep param s i a thr { s.setThread i thr' with
        hangUps := s.hangUps ++ [⟨.close, i, s.table.fds thr.clientSocket⟩]
        table := { s.table with fds := Function.update s.table.fds thr.clientSocket .closed } }
  | free (h thr') : s.handles thr.handle = some h → Move param s.status thr h a thr' .free →
      ClientStep param s i a thr
        { s.setThread i thr' with handles := Function.update s.handles thr.handle none }

theorem client_cases {i : ℕ} {a : CliAnswer param} (h : s.client param i a = some s') :
    ∃ thr, s.threads[i]? = some thr ∧ thr.pc.over = false ∧ ClientStep param s i a thr s' := by
  unfold State.client at h
  split at h
  · cases h
  · next thr hthr =>
    split at h
    · cases h
    · next hover =>
      refine ⟨thr, hthr, Bool.eq_false_iff.mpr hover, ?_⟩
      split at h
      · next hnone =>
        cases h
        exact .noHandle hnone
      · next hd hhd =>
        split at h
        · next hfault =>
          cases h
          exact .fault hd hhd hfault.1 hfault.2
        · obtain ⟨⟨thr', e⟩, hact, happly⟩ := Option.bind_eq_some_iff.mp h
          have hmove := move_of_act hact
          cases e with
          | none => cases happly; exact .none hd thr' hhd hmove
          | write h' => cases happly; exact .write hd thr' h' hhd hmove
          | push mem =>
              simp only [State.apply] at happly
              split at happly
              · next hfree =>
                split at happly
                · next hpush => cases happly; exact .pushCrash hd thr' mem hhd hmove hpush
                · next l hpush =>
                  cases happly
                  exact .push hd thr' mem l hhd hmove hfree.1 hfree.2 hpush
              · cases happly
          | earse =>
              simp only [State.apply] at happly
              split at happly
              · next hidle =>
                split at happly
                · next hearse => cases happly; exact .earseCrash hd thr' hhd hmove hearse
                · next l hearse => cases happly; exact .earse hd thr' l hhd hmove hidle hearse
              · cases happly
          | hang call =>
              cases call with
              | shutdown => cases happly; exact .shutdown hd thr' hhd hmove
              | close => cases happly; exact .close hd thr' hhd hmove
          | free => cases happly; exact .free hd thr' hhd hmove

/-- A step of `OSA_server_thread`. -/
inductive ServerStep (param : ServerParam) (s : State) : ServerAnswer → State → Prop
  | created (a table) : s.server = .create → (osaCreateTcpFd param.serverPort a).1 = osaSok →
      s.table.apply (.socket a.socket) = some table →
      ServerStep param s (.create a)
        { s with table := table, serverSocket := a.socket, server := .setStar }
  | createFailed (a table) : s.server = .create →
      (osaCreateTcpFd param.serverPort a).1 ≠ osaSok →
      s.table.applyOption ((osaCreateTcpFd param.serverPort a).2.map .socket) = some table →
      ServerStep param s (.create a) { s with table := table, server := .failed }
  | setStar : s.server = .setStar →
      ServerStep param s .next { s with status := .star, server := .test }
  | goOn : s.server = .test → s.status = .star →
      ServerStep param s .next { s with server := .accept }
  | leave : s.server = .test → s.status ≠ .star →
      ServerStep param s .next { s with server := .setAbor }
  | noClient (client) : s.server = .accept →
      ServerStep param s (.accept client) { s with server := .test }
  | lowClient (client fd table) : s.server = .accept → s.table.apply (.accept fd) = some table →
      ServerStep param s (.accept client) { s with table := table, server := .test }
  | accepted (client fd table) : s.server = .accept → 2 < fd →
      s.table.apply (.accept fd) = some table →
      ServerStep param s (.accept client)
        { s with table := table, server := .readSize fd s.table.connections }
  | readSize (fd conn) : s.server = .readSize fd conn →
      ServerStep param s .next { s with server := .compare fd conn s.list.listSize }
  | admitted (fd conn clientSize) : s.server = .compare fd conn clientSize →
      clientSize < param.maxClient → s.status = .star →
      ServerStep param s .next { s with server := .alloc fd conn }
  | refused (fd conn clientSize) : s.server = .compare fd conn clientSize →
      ServerStep param s .next { s with server := .test }
  | noMemory (fd conn) : s.server = .alloc fd conn →
      ServerStep param s (.mem none) { s with server := .test }
  | allocated (fd conn handle) : s.server = .alloc fd conn → s.handles handle = none →
      ServerStep param s (.mem (some handle)) { s with
        handles := Function.update s.handles handle (some (newHandle fd))
        server := .spawn fd conn handle }
  | spawned (fd conn handle) : s.server = .spawn fd conn handle →
      ServerStep param s (.thread true) { s with
        threads := s.threads ++ [⟨handle, -1, .start, fd, conn, false⟩]
        server := .test }
  | spawnFailed (fd conn handle) : s.server = .spawn fd conn handle →
      ServerStep param s (.thread false) { s with server := .test }
  | setAbor : s.server = .setAbor →
      ServerStep param s .next { s with status := .abor, server := .done }

theorem server_cases {a : ServerAnswer} (h : s.osaServerThread param a = some s') :
    ServerStep param s a s' := by
  unfold State.osaServerThread at h
  split at h
  · next a hpc =>
    obtain ⟨table, htable, rfl⟩ := Option.map_eq_some_iff.mp h
    by_cases hok : (osaCreateTcpFd param.serverPort a).1 = osaSok
    · rw [if_pos hok]
      rw [osaCreateTcpFd_sok hok] at htable
      exact .created a table hpc hok htable
    · rw [if_neg hok]
      exact .createFailed a table hpc hok htable
  · next hpc => cases h; exact .setStar hpc
  · next hpc =>
    cases h
    by_cases hst : s.status = .star
    · rw [if_pos hst]; exact .goOn hpc hst
    · rw [if_neg hst]; exact .leave hpc hst
  · next client hpc =>
    simp only at h
    split at h
    · cases h; exact .noClient client hpc
    · obtain ⟨table, htable, rfl⟩ := Option.map_eq_some_iff.mp h
      split
      · next hfd => exact .accepted client _ table hpc hfd htable
      · exact .lowClient client _ table hpc htable
  · next fd conn hpc => cases h; exact .readSize fd conn hpc
  · next fd conn clientSize hpc =>
    split at h
    · next hok => cases h; exact .admitted fd conn clientSize hpc hok.1 hok.2
    · cases h; exact .refused fd conn clientSize hpc
  · next fd conn addr hpc =>
    split at h
    · cases h; exact .noMemory fd conn hpc
    · next handle =>
      split at h
      · next hfree =>
        cases h
        exact .allocated fd conn handle hpc (Option.isNone_iff_eq_none.mp hfree)
      · cases h
  · next fd conn handle ok hpc =>
    cases ok <;> cases h
    · exact .spawnFailed fd conn handle hpc
    · exact .spawned fd conn handle hpc
  · next hpc => cases h; exact .setAbor hpc
  · cases h

/-- A step of the caller of `OSA_server_init` and `OSA_server_destory`. -/
inductive AppStep (s : State) : State → Prop
  | wake : s.app = .sleep → AppStep s { s with app := .running }
  | destory : s.app = .running → AppStep s { s with app := .setStop }
  | setStop : s.app = .setStop → AppStep s { s with status := .stop, app := .listLoop }
  | clients : s.app = .listLoop → AppStep s { s with app := .listLoop }
  | noClients : s.app = .listLoop → s.sender = .idle → s.list.listSize = 0 →
      AppStep s { s with app := .statusLoop }
  | notAbor : s.app = .statusLoop → AppStep s { s with app := .statusLoop }
  | abor : s.app = .statusLoop → s.status = .abor → AppStep s { s with app := .deleteLocks }
  | deleteLocks : s.app = .deleteLocks → AppStep s { s with app := .freeList }
  | freeList : s.app = .freeList → AppStep s { s with app := .freeHandle }
  | freeHandle : s.app = .freeHandle → AppStep s { s with app := .returned }

theorem app_cases (h : s.osaServerDestory = some s') : AppStep s s' := by
  unfold State.osaServerDestory at h
  split at h
  · next hpc => cases h; exact .wake hpc
  · next hpc => cases h; exact .destory hpc
  · next hpc => cases h; exact .setStop hpc
  · next hpc =>
    split at h
    · next hidle =>
      cases h
      by_cases hsize : s.list.listSize = 0
      · rw [if_pos hsize]; exact .noClients hpc hidle hsize
      · rw [if_neg hsize]; exact .clients hpc
    · cases h
  · next hpc =>
    cases h
    by_cases hst : s.status = .abor
    · rw [if_pos hst]; exact .abor hpc hst
    · rw [if_neg hst]; exact .notAbor hpc
  · next hpc => cases h; exact .deleteLocks hpc
  · next hpc => cases h; exact .freeList hpc
  · next hpc => cases h; exact .freeHandle hpc
  · cases h

/-- A step of a call of `OSA_server_sendBuf`. -/
inductive SenderStep (s : State) : State → Prop
  | start : s.sender = .idle → SenderStep s { s with sender := .node s.list.listBegin }
  | finish : s.sender = .node none → SenderStep s { s with sender := .idle }
  | skip (a pNode h) : s.sender = .node (some a) → s.list.nodes a = some pNode →
      s.handles pNode.data = some h → SenderStep s { s with sender := .node pNode.next }
  | fill (a pNode h) : s.sender = .node (some a) → s.list.nodes a = some pNode →
      s.handles pNode.data = some h → SenderStep s { s with sender := .getEmpty a pNode.data }
  | noSlot (a handle pNode h r) : s.sender = .getEmpty a handle → s.list.nodes a = some pNode →
      s.handles handle = some h → osaBufGetEmpty h.clientBuf osaTimeoutNone = some r →
      r.2.1 ≠ osaSok →
      SenderStep s { s with
        handles := Function.update s.handles handle (some { h with clientBuf := r.1 })
        sender := .node pNode.next }
  | slot (a handle h r) : s.sender = .getEmpty a handle → s.handles handle = some h →
      osaBufGetEmpty h.clientBuf osaTimeoutNone = some r → r.2.1 = osaSok →
      SenderStep s { s with
        handles := Function.update s.handles handle (some { h with clientBuf := r.1 })
        sender := .putFull a handle r.2.2 }
  | put (a handle bufId pNode h r) : s.sender = .putFull a handle bufId →
      s.list.nodes a = some pNode → s.handles handle = some h →
      osaBufPutFull h.clientBuf bufId = some r →
      SenderStep s { s with
        handles := Function.update s.handles handle (some { h with clientBuf := r.1 })
        sender := .node pNode.next }

theorem sendNext_eq {a : ℕ} (h : s.sendNext a = some s') :
    ∃ pNode, s.list.nodes a = some pNode ∧ s' = { s with sender := .node pNode.next } := by
  obtain ⟨next, hnext, rfl⟩ := Option.map_eq_some_iff.mp h
  obtain ⟨pNode, hnode, rfl⟩ := Option.map_eq_some_iff.mp hnext
  exact ⟨pNode, hnode, rfl⟩

theorem sendBuf_cases (h : s.osaServerSendBuf = some s') : SenderStep s s' := by
  unfold State.osaServerSendBuf at h
  split at h
  · next hidle => cases h; exact .start hidle.1
  · cases h

theorem fillBuf_cases (h : s.serverFillBuf = some s') : SenderStep s s' := by
  unfold State.serverFillBuf at h
  split at h
  · cases h
  · next hpc => cases h; exact .finish hpc
  · next a hpc =>
    obtain ⟨pNode, hnode, h⟩ := Option.bind_eq_some_iff.mp h
    obtain ⟨hd, hhd, h⟩ := Option.bind_eq_some_iff.mp h
    split at h
    · obtain ⟨pNode', hnode', rfl⟩ := sendNext_eq h
      exact .skip a pNode' hd hpc hnode' (by rwa [Option.some.inj (hnode'.symm.trans hnode)])
    · cases h
      exact .fill a pNode hd hpc hnode hhd
  · next a handle hpc =>
    obtain ⟨hd, hhd, h⟩ := Option.bind_eq_some_iff.mp h
    obtain ⟨r, hr, h⟩ := Option.bind_eq_some_iff.mp h
    split at h
    · next hst =>
      obtain ⟨pNode, hnode, rfl⟩ := sendNext_eq h
      exact .noSlot a handle pNode hd r hpc hnode hhd hr hst
    · next hst =>
      cases h
      exact .slot a handle hd r hpc hhd hr (not_not.mp hst)
  · next a handle bufId hpc =>
    obtain ⟨hd, hhd, h⟩ := Option.bind_eq_some_iff.mp h
    obtain ⟨r, hr, h⟩ := Option.bind_eq_some_iff.mp h
    obtain ⟨pNode, hnode, rfl⟩ := sendNext_eq h
    exact .put a handle bufId pNode hd r hpc hnode hhd hr

/-- A step, by the thread that makes it. -/
inductive StepOf (param : ServerParam) (s s' : State) : Label param → Prop
  | app : AppStep s s' → StepOf param s s' .app
  | server (a) : ServerStep param s a s' → StepOf param s s' (.server a)
  | client (i a thr) : s.threads[i]? = some thr → thr.pc.over = false →
      ClientStep param s i a thr s' → StepOf param s s' (.client i a)
  | sender (l) : (l = .sendBuf ∨ l = .sender) → s.app.freed = false → SenderStep s s' →
      StepOf param s s' l

theorem step_cases {l : Label param} (h : step param s l = some s') : StepOf param s s' l := by
  cases l with
  | app => exact .app (app_cases h)
  | server a => exact .server a (server_cases h)
  | client i a =>
      obtain ⟨thr, hthr, hover, hstep⟩ := client_cases h
      exact .client i a thr hthr hover hstep
  | sendBuf =>
      simp only [step] at h
      split at h
      · cases h
      · next hfree => exact .sender _ (Or.inl rfl) (Bool.eq_false_iff.mpr hfree) (sendBuf_cases h)
  | sender =>
      simp only [step] at h
      split at h
      · cases h
      · next hfree => exact .sender _ (Or.inr rfl) (Bool.eq_false_iff.mpr hfree) (fillBuf_cases h)

/-! ## Steps that are always possible -/

/-- The effect is on the thread's handle and descriptor only. -/
def CliEffect.isLocal : CliEffect → Bool
  | .none | .write _ | .hang _ => true
  | .push _ | .earse | .free => false

/-- A move of a thread with such an effect can be made while the server is not freed, or the thread
does not read it. -/
theorem client_of_local {i : ℕ} {a : CliAnswer param} {thr thr' : CliThread} {h : OprHandle}
    {e : CliEffect} (hthr : s.threads[i]? = some thr) (hover : thr.pc.over = false)
    (hh : s.handles thr.handle = some h)
    (hlives : ¬ (s.app.freed = true ∧ thr.readsServer h = true))
    (hmove : Move param s.status thr h a thr' e) (hlocal : e.isLocal = true) :
    ∃ s', step param s (.client i a) = some s' ∧ s'.app = s.app ∧ s'.threads[i]? = some thr' ∧
      s'.handles thr.handle = some (e.handle h) := by
  have hset : (s.threads.set i thr')[i]? = some thr' :=
    List.getElem?_set_self (List.getElem?_eq_some_iff.mp hthr).1
  simp only [step, State.client, hthr, hover, hh, hlives, act_of_move hmove, Bool.false_eq_true,
    if_false, Option.bind_some]
  cases e with
  | none => exact ⟨_, rfl, rfl, hset, hh⟩
  | write h' => exact ⟨_, rfl, rfl, hset, Function.update_self ..⟩
  | hang call =>
      cases call with
      | shutdown => exact ⟨_, rfl, rfl, hset, hh⟩
      | close => exact ⟨_, rfl, rfl, hset, hh⟩
  | push mem | earse | free => simp [CliEffect.isLocal] at hlocal

/-- `OSA_server_thread` goes on until it has returned. -/
theorem server_of_not_over (hdone : s.server ≠ .done) (hfailed : s.server ≠ .failed) :
    ∃ a s', step param s (.server a) = some s' := by
  have hport := param.port_pos
  cases hpc : s.server with
  | create =>
      refine ⟨.create ⟨-1, false, false, false⟩, ?_⟩
      simp [step, State.osaServerThread, hpc, osaCreateTcpFd, FdTable.applyOption]
  | setStar | test | readSize | setAbor => exact ⟨.next, by simp [step, State.osaServerThread, hpc]⟩
  | accept =>
      refine ⟨.accept none, ?_⟩
      have hfail : osaAcceptNonblockFd s.serverSocket none < 0 := by
        unfold osaAcceptNonblockFd
        split <;> simp [osaEfail]
      simp [step, State.osaServerThread, hpc, hfail]
  | compare fd conn clientSize =>
      refine ⟨.next, ?_⟩
      simp only [step, State.osaServerThread, hpc]
      split <;> exact ⟨_, rfl⟩
  | alloc => exact ⟨.mem none, by simp [step, State.osaServerThread, hpc]⟩
  | spawn => exact ⟨.thread false, by simp [step, State.osaServerThread, hpc]⟩
  | done => exact (hdone hpc).elim
  | failed => exact (hfailed hpc).elim

end OsaBase.Server
