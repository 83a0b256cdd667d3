import OsaBase.Communication.Senders
import OsaBase.Server.Model

/-!
# The client of `osa_communication.c`

The handle that `OSA_client_init` returns is shared by the application, by the thread of
`OSA_client_processThr` and, on a MSG_TYPE client, by the one of `OSA_heart_process`. A step is one
critical section or one system call, with the accesses to the handle that lie before it.
-/

namespace OsaBase.Client

open Server (ClientStatus)

/-- The parameters that `OSA_client_init` accepts; `getEmptybuf` says that the callback is there. -/
structure ClientParam where
  reconFlag : ℤ
  clientType : ComType
  getEmptybuf : Bool
  serverPort : ℤ
  port_pos : 0 < serverPort

/-! ## The threads -/

/-- A call of `OSA_client_sendMsg`; `log` is `logFun` behind a send that failed. -/
inductive SendMsgPc
  | getSocket
  | sendHead (socket : ℤ)
  | sendLoad (socket : ℤ)
  | log
  deriving DecidableEq, Repr

/-- `OSA_heart_process`: `none` before it was created, `start` in its first `sleep`. -/
inductive HeartPc
  | none
  | start
  | testStatus
  | sendMsg (pc : SendMsgPc)
  | done
  deriving DecidableEq, Repr

/-- `OSA_client_processThr`. In `conn` it is at a place where it handles its connection, and
`setConnect`, `testStatus` and `setAbor` are its accesses to the status. `quit` is the early
return. -/
inductive ProcPc
  | start
  | createHeart
  | testEmptyBuf
  | deleteMutex
  | free
  | conn (pc : ClientPc)
  | setConnect
  | testStatus
  | setAbor
  | done
  | quit
  deriving DecidableEq, Repr

structure ProcThr where
  pc : ProcPc
  clientSocket : ℤ
  deriving DecidableEq, Repr

/-- The application, which has the handle; with `log` begins `OSA_client_destory`. -/
inductive AppPc
  | idle
  | sendMsg (pc : SendMsgPc)
  | log
  | setDisconnect
  | testStatus
  | deleteMutex
  | free
  | returned
  deriving DecidableEq, Repr

inductive Actor
  | app
  | proc
  | heart
  deriving DecidableEq, Repr

/-- `frees` are the threads that have freed the handle, and `faults` those that came to use it, or
its mutex, after that. -/
structure State where
  table : FdTable
  socket : ℤ
  status : ClientStatus
  proc : ProcThr
  heart : HeartPc
  app : AppPc
  frees : List Actor
  faults : List Actor

/-- The answers of the system calls: a send goes through or not, the heart thread is created or not,
and those to the process thread. -/
inductive Label
  | sendMsg
  | destory
  | app (sent : Bool)
  | heart (sent : Bool)
  | create (ok : Bool)
  | proc (a : ClientAnswer)
  deriving DecidableEq, Repr

/-- The next step of the process thread reads or writes the handle or its mutex. -/
def ProcPc.uses : ProcPc → Bool
  | .testEmptyBuf | .conn .closeOld | .conn .create | .conn .connect | .conn .receive
  | .conn .quitClose | .done | .quit => false
  | _ => true

/-- The thread has not been created or has returned. -/
def HeartPc.over : HeartPc → Bool
  | .none | .done => true
  | _ => false

/-- The next step of the thread uses the handle. -/
def State.uses (s : State) : Actor → Bool
  | .app => s.app ≠ .idle && s.app ≠ .returned
  | .proc => s.proc.pc.uses
  | .heart => !s.heart.over

/-- Where the thread is when it has come to a place of its connection handling: `CLIENT_CONNECT` is
stored before `set_reClient_socket`, each turn begins with a look at the status, and behind the last
`close` comes `CLIENT_ABOR`. -/
def ProcPc.ofConn : ClientPc → ProcPc
  | .publishLocked => .setConnect
  | .receive => .testStatus
  | .done => .setAbor
  | pc => .conn pc

namespace State

variable (param : ClientParam) (s : State)

/-- A step of `OSA_client_sendMsg`, with the answer to its send; `none` when the call returns. -/
def osaClientSendMsg (sent : Bool) : SendMsgPc → Option SendMsgPc
  | .getSocket => if s.socket < 3 then none else some (.sendHead s.socket)
  | .sendHead socket =>
    some (if sent ∧ (s.table.fds socket).conn.isSome then .sendLoad socket else .log)
  | .sendLoad socket => if sent ∧ (s.table.fds socket).conn.isSome then none else some .log
  | .log => none

def osaHeartProcess (sent : Bool) : Option State :=
  match s.heart with
  -- behind the `sleep`: the parameters are copied and checked again
  | .start => some { s with heart := .testStatus }
  | .testStatus =>
    some { s with heart := if s.status = .connect then .sendMsg .getSocket else .done }
  | .sendMsg pc =>
    match s.osaClientSendMsg sent pc with
    | none => some { s with heart := .testStatus }
    | some pc' => some { s with heart := .sendMsg pc' }
  | .none | .done => none

def goto (pc : ProcPc) : State := { s with proc := { s.proc with pc := pc } }

/-- The heart thread of a MSG_TYPE client. -/
def createHeart (ok : Bool) : Option State :=
  if s.proc.pc = .createHeart then
    if ok then some { s.goto (.conn .repeatConnect) with heart := .start }
    else some (s.goto .deleteMutex)
  else none

/-- A step in which the thread handles its connection. It leaves the receive loop through the status
only. -/
def connStep (pc : ClientPc) (a : ClientAnswer) : Option State :=
  if a = .stop then none
  else
    (OsaBase.osaClientProcessThr param.reconFlag ⟨pc, s.proc.clientSocket⟩ a).bind fun act ↦
      (s.table.applyOption act.fdOp).map fun table ↦ { s with
        table := table
        socket := act.socket.getD s.socket
        proc := ⟨.ofConn act.next.pc, act.next.clientSocket⟩ }

def osaClientProcessThr (a : ClientAnswer) : Option State :=
  match s.proc.pc, a with
  -- the thread's check of the parameters is that of `OSA_client_init` again
  | .start, .next =>
    some (s.goto (if param.clientType = .msgType then .createHeart else .testEmptyBuf))
  | .testEmptyBuf, .next =>
    some (s.goto (if param.getEmptybuf then .conn .repeatConnect else .deleteMutex))
  | .deleteMutex, .next => some (s.goto .free)
  | .free, .next => some { s.goto .quit with frees := s.frees ++ [.proc] }
  | .conn pc, a => s.connStep param pc a
  | .setConnect, .next => some { s.goto (.conn .publishLocked) with status := .connect }
  | .testStatus, .next =>
    some (s.goto (if s.status = .connect then .conn .receive else .conn .quit))
  | .setAbor, .next => some { s.goto .done with status := .abor }
  | _, _ => none

/-- A call of `OSA_client_sendMsg` by the application, or `OSA_client_destory`. -/
def osaClientApp (sent : Bool) : Option State :=
  match s.app with
  | .sendMsg pc =>
    match s.osaClientSendMsg sent pc with
    | none => some { s with app := .idle }
    | some pc' => some { s with app := .sendMsg pc' }
  | .log => some { s with app := .setDisconnect }
  | .setDisconnect => some { s with status := .disconnect, app := .testStatus }
  | .testStatus => some { s with app := if s.status = .abor then .deleteMutex else .testStatus }
  | .deleteMutex => some { s with app := .free }
  | .free => some { s with app := .returned, frees := s.frees ++ [.app] }
  | .idle | .returned => none

/-- A step that uses the handle does nothing but fault once the handle is freed. -/
def guard (actor : Actor) (next : Option State) : Option State :=
  if s.uses actor = true ∧ s.frees ≠ [] then
    next.map fun _ ↦ { s with faults := s.faults ++ [actor] }
  else next

end State

def step (param : ClientParam) (s : State) : Label → Option State
  | .sendMsg => if s.app = .idle then some { s with app := .sendMsg .getSocket } else none
  | .destory => if s.app = .idle then some { s with app := .log } else none
  | .app sent => s.guard .app (s.osaClientApp sent)
  | .heart sent => s.guard .heart (s.osaHeartProcess sent)
  | .create ok => s.guard .proc (s.createHeart ok)
  | .proc a => s.guard .proc (s.osaClientProcessThr param a)

/-- `OSA_client_init` has created the thread and returned the zeroed handle. -/
def start : State where
  table := ⟨fun _ ↦ .closed, 0⟩
  socket := 0
  status := .disconnect
  proc := ⟨.start, -1⟩
  heart := .none
  app := .idle
  frees := []
  faults := []

/-- `OSA_client_destory` has stored `CLIENT_DISCONNECT`. -/
def AppPc.stopped : AppPc → Bool
  | .testStatus | .deleteMutex | .free | .returned => true
  | _ => false

end OsaBase.Client
