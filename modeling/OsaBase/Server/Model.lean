import OsaBase.Buf
import OsaBase.Communication.Receive
import OsaBase.Communication.Senders
import OsaBase.OsaList

/-!
# The server of `osa_communication.c`

One server handle with its threads: the caller of `OSA_server_init` and `OSA_server_destory`, the
thread of `OSA_server_thread`, any number of threads of `OSA_processClient_thread`, and the calls of
`OSA_server_sendBuf`. A step is one critical section or one system call. A section of `list_mutex`
is one step, but for a broadcast, which holds it while it walks the list.

`logFun` comes back from every call. The jump from a failed `net_send_buf` to `EXIT` passes over the
initialisers of `tmp_msg` and `flag`, and what these then hold gives nothing to free here;
`OsaBase.CopyState` has them as answers.
-/

namespace OsaBase.Server

inductive ServerStatus
  | star
  | stop
  | abor
  deriving DecidableEq, Repr

inductive ClientStatus
  | disconnect
  | connect
  | abor
  deriving DecidableEq, Repr

/-- The parameters that `OSA_server_init` accepts. -/
structure ServerParam where
  serverType : ComType
  serverPort : ℤ
  bufNum : ℤ
  maxClient : ℤ
  port_pos : 0 < serverPort
  max_pos : 0 < maxClient

/-- `OSA_CliOpreateHanle_t`; `lock` and `pool` say that `opreate_lock` and `clientBuf_Hndl` were
created and not deleted yet. -/
structure OprHandle where
  socket : ℤ
  status : ClientStatus
  lock : Bool
  clientBuf : OsaBufHndl
  pool : Bool

/-- A pool of zeroed memory. -/
def zeroBuf : OsaBufHndl :=
  ⟨fun _ ↦ ⟨zeroHead, none⟩, ⟨0, 0, 0, 0, []⟩, ⟨0, 0, 0, 0, []⟩, 0⟩

/-! ## `OSA_processClient_thread` -/

/-- The next thing that the thread does. `exitStatus` to `exitUnset` are the end of the block behind
the label `EXIT`, `unregister` and what follows come after the loop. `quit` is the early return,
`crash` a `NULL` pointer followed, `fault` a use of the server handle after it was freed. -/
inductive CliPc
  | start
  | setConnect
  | createBuf
  | getSocket
  | register
  | testStatus
  | testServer
  | getFull
  | send (bufId : ℤ)
  | putEmpty (bufId : ℤ)
  | turn
  | exitStatus
  | exitShutdown
  | exitClose
  | exitUnset
  | unregister
  | shutdown
  | close
  | deleteLock
  | testType
  | drain
  | deleteBuf
  | free
  | done
  | quit
  | crash
  | fault
  deriving DecidableEq, Repr

/-- A client thread: its handle, its local `client_socket`, and for the record the descriptor and
the connection it was given, and whether its loop took the error exit. -/
structure CliThread where
  handle : ℕ
  clientSocket : ℤ
  pc : CliPc
  fd : ℤ
  conn : ℕ
  failed : Bool
  deriving DecidableEq, Repr

inductive HangCall
  | shutdown
  | close
  deriving DecidableEq, Repr

/-- What a step does besides the thread's own variables. -/
inductive CliEffect
  | none
  | write (h : OprHandle)
  | push (mem : Option ℕ)
  | earse
  | hang (call : HangCall)
  | free

/-- The answers of the system calls and of the callbacks. A turn of the message loop and a
`net_send_buf` end with `ret` zero or not. -/
inductive CliAnswer (param : ServerParam)
  | next
  | mutex (ok : Bool)
  | buf (mem : Bool → Option (Vector ℤ (param.bufNum % 2 ^ 32).toNat)) (initStatus : Bool → ℤ)
  | node (mem : Option ℕ)
  | turn (ok : Bool)
  | send (ok : Bool)

section

variable (param : ServerParam)

/-- `server` is the status of the server and `h` the handle of the client. -/
def osaProcessClientThread (server : ServerStatus) (thr : CliThread) (h : OprHandle)
    (a : CliAnswer param) : Option (CliThread × CliEffect) :=
  let goto pc : Option (CliThread × CliEffect) := some ({ thr with pc := pc }, .none)
  let act pc e : Option (CliThread × CliEffect) := some ({ thr with pc := pc }, e)
  match thr.pc, a with
  | .start, .mutex ok => if ok then act .setConnect (.write { h with lock := true }) else goto .quit
  | .setConnect, .next => act .createBuf (.write { h with status := .connect })
  | .createBuf, .next => if param.serverType = .msgType then goto .getSocket else none
  | .createBuf, .buf mem initStatus =>
    -- `ret` is not the status of `OSA_bufCreate`, so a failure is not noticed
    if param.serverType = .streamType then
      (osaBufCreate param.bufNum mem initStatus h.clientBuf).bind fun r ↦
        act .getSocket (.write { h with clientBuf := r.2, pool := r.1 = osaSok })
    else none
  | .getSocket, .next =>
    some ({ thr with pc := .register, clientSocket := h.socket },
      .write (if h.socket < 3 then { h with status := .disconnect } else h))
  | .register, .node mem => act .testStatus (.push mem)
  | .testStatus, .next => goto (if h.status = .connect then .testServer else .unregister)
  | .testServer, .next =>
    if server = .star then goto (if param.serverType = .streamType then .getFull else .turn)
    else goto .unregister
  | .getFull, .next => (osaBufGetFull h.clientBuf osaTimeoutForever).bind fun r ↦
      act (if r.2.2 > -1 ∧ r.2.2 ≤ param.bufNum then .send r.2.2 else .testStatus)
        (.write { h with clientBuf := r.1 })
  | .send bufId, .send ok =>
    -- the jump to `EXIT` leaves `tmp_msg` and `flag` unset
    some ({ thr with pc := if ok then .putEmpty bufId else .exitStatus,
                     failed := thr.failed || !ok }, .none)
  | .putEmpty bufId, .next => (osaBufPutEmpty h.clientBuf bufId).bind fun r ↦
      act .testStatus (.write { h with clientBuf := r.1 })
  | .turn, .turn ok =>
    some ({ thr with pc := if ok then .testStatus else .exitStatus,
                     failed := thr.failed || !ok }, .none)
  | .exitStatus, .next => act .exitShutdown (.write { h with status := .disconnect })
  | .exitShutdown, .next => act .exitClose (.hang .shutdown)
  | .exitClose, .next => act .exitUnset (.hang .close)
  | .exitUnset, .next => act .testStatus (.write { h with socket := -1 })
  | .unregister, .next => act .shutdown .earse
  | .shutdown, .next => act .close (.hang .shutdown)
  | .close, .next => act .deleteLock (.hang .close)
  | .deleteLock, .next => act .testType (.write { h with lock := false })
  | .testType, .next => goto (if param.serverType = .streamType then .drain else .free)
  | .drain, .next => (osaBufGetFull h.clientBuf osaTimeoutNone).bind fun r ↦
      act (if r.2.1 = osaSok then .drain else .deleteBuf) (.write { h with clientBuf := r.1 })
  | .deleteBuf, .next => act .free (.write { h with pool := false })
  | .free, .next => act .done .free
  | _, _ => none

end

/-- The step reads `server_handle`, if only for `logFun`. -/
def CliThread.readsServer (thr : CliThread) (h : OprHandle) : Bool :=
  match thr.pc with
  | .start | .createBuf | .getSocket | .register | .testServer | .send _ | .turn | .exitStatus
  | .unregister | .testType => true
  -- `buf_num` is read behind the wait for a slot, `logFun` when no slot is left
  | .getFull => h.clientBuf.fullQue.count != 0
  | .drain => h.clientBuf.fullQue.count == 0
  | .setConnect | .testStatus | .putEmpty _ | .exitShutdown | .exitClose | .exitUnset | .shutdown
  | .close | .deleteLock | .deleteBuf | .free | .done | .quit | .crash | .fault => false

/-- The thread has returned. -/
def CliPc.over : CliPc → Bool
  | .done | .quit | .crash | .fault => true
  | _ => false

/-! ## The other threads -/

/-- `create` to `setAbor` are the steps of `OSA_server_thread` with its local variables; `failed` is
the return behind a failed `OSA_createTcpFd`. -/
inductive ServerPc
  | create
  | setStar
  | test
  | accept
  | readSize (fd : ℤ) (conn : ℕ)
  | compare (fd : ℤ) (conn : ℕ) (clientSize : ℤ)
  | alloc (fd : ℤ) (conn : ℕ)
  | spawn (fd : ℤ) (conn : ℕ) (handle : ℕ)
  | setAbor
  | done
  | failed
  deriving DecidableEq, Repr

/-- `OSA_server_init` sleeps behind the creation of the thread; with `setStop` begins
`OSA_server_destory`. -/
inductive AppPc
  | sleep
  | running
  | setStop
  | listLoop
  | statusLoop
  | deleteLocks
  | freeList
  | freeHandle
  | returned
  deriving DecidableEq, Repr

/-- A call of `OSA_server_sendBuf` that holds `list_mutex`: at a node of the list, or in
`server_fill_buf` with the node and its handle. -/
inductive SendPc
  | idle
  | node (pFindNode : Option ℕ)
  | getEmpty (pFindNode handle : ℕ)
  | putFull (pFindNode handle : ℕ) (bufId : ℤ)
  deriving DecidableEq, Repr

/-- A call of `shutdown` or `close` by a client thread, and what its descriptor stood for. -/
structure HangUp where
  call : HangCall
  thread : ℕ
  hit : Descriptor
  deriving DecidableEq, Repr

/-- `handles` are the client handles that are allocated. -/
structure State where
  table : FdTable
  serverSocket : ℤ
  status : ServerStatus
  list : ListHandle
  handles : ℕ → Option OprHandle
  threads : List CliThread
  server : ServerPc
  app : AppPc
  sender : SendPc
  hangUps : List HangUp

/-- What `socket`, `setsockopt`, `bind` and `listen` answer. -/
structure TcpFdAnswer where
  socket : ℤ
  setsockopt : Bool
  bind : Bool
  listen : Bool
  deriving DecidableEq, Repr

/-- `OSA_createTcpFd`: its status and the descriptor that it has opened. -/
def osaCreateTcpFd (port : ℤ) (a : TcpFdAnswer) : ℤ × Option ℤ :=
  if port ≤ 0 then (osaEfail, none)
  else if a.socket < 0 then (osaEfail, none)
  else if a.setsockopt = false then (osaEfail, some a.socket)
  else if a.bind = false then (osaEfail, some a.socket)
  else (osaSok, some a.socket)

theorem osaCreateTcpFd_sok {port : ℤ} {a : TcpFdAnswer} (h : (osaCreateTcpFd port a).1 = osaSok) :
    (osaCreateTcpFd port a).2 = some a.socket := by
  unfold osaCreateTcpFd at h ⊢
  split at h
  · exact (osaEfail_ne_osaSok h).elim
  next hport =>
  split at h
  · exact (osaEfail_ne_osaSok h).elim
  next hsocket =>
  split at h
  · exact (osaEfail_ne_osaSok h).elim
  next hopt =>
  split at h
  · exact (osaEfail_ne_osaSok h).elim
  next hbind => rw [if_neg hport, if_neg hsocket, if_neg hopt, if_neg hbind]

/-- `OSA_acceptNonblockFd`; `client` is what `accept` returns if `select` finds a connection. -/
def osaAcceptNonblockFd (fd : ℤ) (client : Option ℤ) : ℤ :=
  if fd < 3 then osaEfail
  else match client with
    | none => osaEfail
    | some clnFd => if clnFd < 0 then osaEfail else clnFd

inductive ServerAnswer
  | next
  | create (a : TcpFdAnswer)
  | accept (client : Option ℤ)
  | mem (addr : Option ℕ)
  | thread (ok : Bool)
  deriving DecidableEq, Repr

inductive Label (param : ServerParam)
  | app
  | server (a : ServerAnswer)
  | client (i : ℕ) (a : CliAnswer param)
  | sendBuf
  | sender

/-- `OSA_server_destory` has freed the list, and then the handle. -/
def AppPc.freed : AppPc → Bool
  | .freeHandle | .returned => true
  | _ => false

/-- `OSA_server_destory` has stored `SERVER_STOP`. -/
def AppPc.stopped : AppPc → Bool
  | .sleep | .running | .setStop => false
  | _ => true

instance (l : ListHandle) (mem : Option ℕ) : Decidable (l.Fresh mem) :=
  inferInstanceAs (Decidable (∀ a ∈ mem, l.nodes a = none))

/-- The handle that `OSA_server_thread` fills in for a new client. -/
def newHandle (fd : ℤ) : OprHandle := ⟨fd, .disconnect, false, zeroBuf, false⟩

namespace State

variable (param : ServerParam) (s : State)

def setThread (i : ℕ) (thr : CliThread) : State := { s with threads := s.threads.set i thr }

/-- The effect of a step of thread `i`, which was `thr`. -/
def apply (i : ℕ) (thr thr' : CliThread) : CliEffect → Option State
  | .none => some (s.setThread i thr')
  | .write h =>
    some { s.setThread i thr' with handles := Function.update s.handles thr.handle (some h) }
  | .push mem =>
    if s.sender = .idle ∧ s.list.Fresh mem then
      match s.list.listPushBack mem thr.handle with
      | none => some (s.setThread i { thr with pc := .crash })
      | some l => some { s.setThread i thr' with list := l }
    else none
  | .earse =>
    if s.sender = .idle then
      match s.list.listEarseData thr.handle with
      | none => some (s.setThread i { thr with pc := .crash })
      | some l => some { s.setThread i thr' with list := l }
    else none
  | .hang call =>
    let s' := { s.setThread i thr' with
      hangUps := s.hangUps ++ [⟨call, i, s.table.fds thr.clientSocket⟩] }
    match call with
    | .shutdown => some s'
    | .close => (s.table.apply (.close thr.clientSocket)).map fun table ↦ { s' with table := table }
  | .free => some { s.setThread i thr' with handles := Function.update s.handles thr.handle none }

def client (i : ℕ) (a : CliAnswer param) : Option State :=
  match s.threads[i]? with
  | none => none
  | some thr =>
    if thr.pc.over then none
    else
      match s.handles thr.handle with
      | none => some (s.setThread i { thr with pc := .crash })
      | some h =>
        if s.app.freed ∧ thr.readsServer h then some (s.setThread i { thr with pc := .fault })
        else (osaProcessClientThread param s.status thr h a).bind fun r ↦ s.apply i thr r.1 r.2

def osaServerThread (a : ServerAnswer) : Option State :=
  match s.server, a with
  | .create, .create a =>
    let r := osaCreateTcpFd param.serverPort a
    (s.table.applyOption (r.2.map .socket)).map fun table ↦
      if r.1 = osaSok then
        { s with table := table, serverSocket := a.socket, server := .setStar }
      else { s with table := table, server := .failed }
  | .setStar, .next => some { s with status := .star, server := .test }
  | .test, .next => some { s with server := if s.status = .star then .accept else .setAbor }
  | .accept, .accept client =>
    let clientSocket := osaAcceptNonblockFd s.serverSocket client
    if clientSocket < 0 then some { s with server := .test }
    else (s.table.apply (.accept clientSocket)).map fun table ↦
      { s with
        table := table
        server := if clientSocket > 2 then .readSize clientSocket s.table.connections else .test }
  | .readSize fd conn, .next => some { s with server := .compare fd conn s.list.listSize }
  | .compare fd conn clientSize, .next =>
    if clientSize < param.maxClient ∧ s.status = .star then some { s with server := .alloc fd conn }
    else some { s with server := .test }
  | .alloc fd conn, .mem addr =>
    match addr with
    | none => some { s with server := .test }
    | some handle =>
      if (s.handles handle).isNone then
        some { s with
          handles := Function.update s.handles handle (some (newHandle fd))
          server := .spawn fd conn handle }
      else none
  | .spawn fd conn handle, .thread ok =>
    if ok then
      some { s with
        threads := s.threads ++ [⟨handle, -1, .start, fd, conn, false⟩]
        server := .test }
    else
      -- the key of the assertion in `OSA_thrCreate` has been typed
      some { s with server := .test }
  | .setAbor, .next => some { s with status := .abor, server := .done }
  | _, _ => none

/-- `OSA_server_init` behind the creation of the thread, and `OSA_server_destory`. -/
def osaServerDestory : Option State :=
  match s.app with
  | .sleep => some { s with app := .running }
  | .running => some { s with app := .setStop }
  | .setStop => some { s with status := .stop, app := .listLoop }
  | .listLoop =>
    if s.sender = .idle then
      some { s with app := if s.list.listSize = 0 then .statusLoop else .listLoop }
    else none
  | .statusLoop => some { s with app := if s.status = .abor then .deleteLocks else .statusLoop }
  | .deleteLocks => some { s with app := .freeList }
  | .freeList => some { s with app := .freeHandle }
  | .freeHandle => some { s with app := .returned }
  | .returned => none

/-- A call of `OSA_server_sendBuf`, from the time it has `list_mutex`. -/
def osaServerSendBuf : Option State :=
  if s.sender = .idle ∧ s.app ≠ .sleep then some { s with sender := .node s.list.listBegin }
  else none

def sendNext (pFindNode : ℕ) : Option State :=
  (s.list.listNext pFindNode).map fun next ↦ { s with sender := .node next }

/-- The loop of `OSA_server_sendBuf`, with `server_fill_buf` in it. The frame itself is not
modelled here. -/
def serverFillBuf : Option State :=
  match s.sender with
  | .idle => none
  | .node none => some { s with sender := .idle }
  | .node (some pFindNode) => (s.list.nodes pFindNode).bind fun pNode ↦
      (s.handles pNode.data).bind fun h ↦
        if h.socket < 3 then s.sendNext pFindNode
        else some { s with sender := .getEmpty pFindNode pNode.data }
  | .getEmpty pFindNode handle => (s.handles handle).bind fun h ↦
      (osaBufGetEmpty h.clientBuf osaTimeoutNone).bind fun r ↦
        let s' :=
          { s with handles := Function.update s.handles handle (some { h with clientBuf := r.1 }) }
        if r.2.1 ≠ osaSok then s'.sendNext pFindNode
        else some { s' with sender := .putFull pFindNode handle r.2.2 }
  | .putFull pFindNode handle bufId => (s.handles handle).bind fun h ↦
      (osaBufPutFull h.clientBuf bufId).bind fun r ↦
        let s' :=
          { s with handles := Function.update s.handles handle (some { h with clientBuf := r.1 }) }
        s'.sendNext pFindNode

end State

/-- The caller of `OSA_server_sendBuf` does not call it with a handle that is freed. -/
def step (param : ServerParam) (s : State) : Label param → Option State
  | .app => s.osaServerDestory
  | .server a => s.osaServerThread param a
  | .client i a => s.client param i a
  | .sendBuf => if s.app.freed then none else s.osaServerSendBuf
  | .sender => if s.app.freed then none else s.serverFillBuf

/-- `OSA_server_init` has created the thread of the server; the handle was zeroed. -/
def start : State where
  table := ⟨fun _ ↦ .closed, 0⟩
  serverSocket := 0
  status := .star
  list := listCreate
  handles := fun _ ↦ none
  threads := []
  server := .create
  app := .sleep
  sender := .idle
  hangUps := []

end OsaBase.Server
