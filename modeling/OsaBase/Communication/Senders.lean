import Mathlib.Data.Fintype.Basic
import OsaBase.Communication.SendMsg
import OsaBase.Lib.Writers

/-!
# Threads that send on one handle

Several threads call `OSA_client_sendMsg` or `OSA_server_sendMsg` on one handle while the handle's
own thread closes its socket and, on the client, connects a new one. A call reads the socket under
the handle's lock and then makes its two sends without it. The calls of `OSA_tcpSndNonblockFd`
succeed unless no connection is left at their descriptor.
-/

open Transition Framing

namespace OsaBase

/-! ## Descriptors -/

/-- What a descriptor of the process stands for: a socket that is not connected, or a connection,
numbered in the order in which they were made. -/
inductive Descriptor
  | closed
  | opened
  | connected (c : ℕ)
  deriving DecidableEq, Repr

def Descriptor.conn : Descriptor → Option ℕ
  | .connected c => some c
  | _ => none

structure FdTable where
  fds : ℤ → Descriptor
  connections : ℕ

inductive FdOp
  | socket (fd : ℤ)
  | connect (fd : ℤ)
  | accept (fd : ℤ)
  | close (fd : ℤ)
  deriving DecidableEq, Repr

/-- `socket` and `accept` give any descriptor that is not in use. -/
def FdTable.apply (table : FdTable) : FdOp → Option FdTable
  | .socket fd =>
    if 0 ≤ fd ∧ table.fds fd = .closed then
      some { table with fds := Function.update table.fds fd .opened }
    else none
  | .connect fd =>
    if table.fds fd = .opened then
      some ⟨Function.update table.fds fd (.connected table.connections), table.connections + 1⟩
    else none
  | .accept fd =>
    if 0 ≤ fd ∧ table.fds fd = .closed then
      some ⟨Function.update table.fds fd (.connected table.connections), table.connections + 1⟩
    else none
  | .close fd => some { table with fds := Function.update table.fds fd .closed }

/-! ## The threads -/

/-- Where a thread is in a call: it has not read the socket yet, or has, or has sent the header. The
last two numbers record the call and the connection that took the header. -/
inductive SenderPc
  | idle
  | called (m : Msg)
  | hasSocket (m : Msg) (socket : ℤ)
  | sentHead (m : Msg) (socket : ℤ) (call conn : ℕ)
  deriving DecidableEq

/-- What a step of the handle's own thread does: it may write the handle's socket field, and it
may make one system call. -/
structure OwnerAct (O : Type) where
  next : O
  socket : Option ℤ
  fdOp : Option FdOp

/-- The thread that owns the connection of a handle, with the answers it gets; `holds` says that
the handle is not freed yet. -/
structure Owner (O A : Type) where
  act : O → A → Option (OwnerAct O)
  holds : O → Bool

structure SendState (T O : Type) where
  table : FdTable
  /-- The socket field of the handle. -/
  socket : ℤ
  owner : O
  sender : T → SenderPc
  /-- The sends on each connection. -/
  sent : ℕ → List (Writers.Piece UInt8)
  /-- The messages whose header went out. -/
  calls : List Msg
  /-- The messages passed to the calls. -/
  passed : List Msg

inductive SendLabel (T A : Type)
  | invoke (t : T) (m : Msg)
  | getSocket (t : T)
  | sendHead (t : T) (es : List SndEvent)
  | sendLoad (t : T) (es : List SndEvent)
  | owner (a : A)

variable {T O A : Type}

def FdTable.applyOption (table : FdTable) : Option FdOp → Option FdTable
  | none => some table
  | some op => table.apply op

def sendStep [DecidableEq T] (own : Owner O A) (s : SendState T O) :
    SendLabel T A → Option (SendState T O)
  | .invoke t m =>
    match s.sender t with
    | .idle => some { s with
        sender := Function.update s.sender t (.called m)
        passed := s.passed ++ [m] }
    | _ => none
  | .getSocket t =>
    match s.sender t with
    | .called m =>
      if own.holds s.owner then
        if s.socket < 3 then some { s with sender := Function.update s.sender t .idle }
        else some { s with sender := Function.update s.sender t (.hasSocket m s.socket) }
      else none
    | _ => none
  | .sendHead t es =>
    match s.sender t with
    | .hasSocket m socket =>
      match s.table.fds socket with
      | .connected c =>
        (osaTcpSndNonblockFd socket (some (sendHead m.message.length m.code).bytes) msgHeadSize
          es).bind fun r ↦
            if r.status = osaSok then some { s with
              sender := Function.update s.sender t (.sentHead m socket s.calls.length c)
              sent := Function.update s.sent c (s.sent c ++ [⟨s.calls.length, false, r.sent⟩])
              calls := s.calls ++ [m] }
            else none
      | _ => some { s with sender := Function.update s.sender t .idle }
    | _ => none
  | .sendLoad t es =>
    match s.sender t with
    | .sentHead m socket call _ =>
      match s.table.fds socket with
      | .connected c =>
        (osaTcpSndNonblockFd socket (some m.message) m.message.length es).bind fun r ↦
          if r.status = osaSok then some { s with
            sender := Function.update s.sender t .idle
            sent := Function.update s.sent c (s.sent c ++ [⟨call, true, r.sent⟩]) }
          else none
      | _ => some { s with sender := Function.update s.sender t .idle }
    | _ => none
  | .owner a =>
    (own.act s.owner a).bind fun act ↦
      (s.table.applyOption act.fdOp).map fun table ↦ { s with
        table := table
        socket := act.socket.getD s.socket
        owner := act.next }

/-! ## `OSA_client_processThr` -/

inductive ClientPc
  | repeatConnect
  | closeOld
  | create
  | connect
  | publish
  | publishLocked
  | receive
  | unset
  | quit
  | quitClose
  | done
  deriving DecidableEq, Repr

/-- The thread with its local `client_socket`. -/
structure ClientThr where
  pc : ClientPc
  clientSocket : ℤ
  deriving DecidableEq, Repr

/-- What `socket`, `OSA_connetBlockFd` and a turn of the receive loop answer; `stop` is the end of
the loop when the status is no longer `CLIENT_CONNECT`. -/
inductive ClientAnswer
  | next
  | socket (fd : ℤ)
  | connect (ok : Bool)
  | turn (ok : Bool)
  | stop
  deriving DecidableEq, Repr

def osaClientProcessThr (reconFlag : ℤ) (thr : ClientThr) : ClientAnswer →
    Option (OwnerAct ClientThr)
  | .next =>
    match thr.pc with
    | .repeatConnect => some ⟨{ thr with pc := .closeOld }, some (-1), none⟩
    | .closeOld =>
      if thr.clientSocket > 0 then some ⟨⟨.create, -1⟩, none, some (.close thr.clientSocket)⟩
      else some ⟨{ thr with pc := .create }, none, none⟩
    | .publish => some ⟨{ thr with pc := .publishLocked }, some thr.clientSocket, none⟩
    | .publishLocked => some ⟨{ thr with pc := .receive }, some thr.clientSocket, none⟩
    | .unset => some ⟨{ thr with pc := .repeatConnect }, some (-1), none⟩
    | .quit => some ⟨{ thr with pc := .quitClose }, some (-1), none⟩
    | .quitClose => some ⟨{ thr with pc := .done }, none, some (.close thr.clientSocket)⟩
    | _ => none
  | .socket fd =>
    if thr.pc = .create ∧ -1 ≤ fd then
      let fdOp := if fd < 0 then none else some (FdOp.socket fd)
      if fd < 3 ∧ reconFlag = 1 then some ⟨⟨.repeatConnect, fd⟩, none, fdOp⟩
      else some ⟨⟨.connect, fd⟩, none, fdOp⟩
    else none
  | .connect ok =>
    if thr.pc = .connect then
      if ok then some ⟨{ thr with pc := .publish }, none, some (.connect thr.clientSocket)⟩
      else if reconFlag = 1 then some ⟨{ thr with pc := .repeatConnect }, none, none⟩
      else some ⟨{ thr with pc := .publish }, none, none⟩
    else none
  | .turn ok =>
    if thr.pc = .receive then
      if ¬ ok ∧ reconFlag = 1 then some ⟨{ thr with pc := .unset }, none, none⟩
      else some ⟨thr, none, none⟩
    else none
  | .stop => if thr.pc = .receive then some ⟨{ thr with pc := .quit }, none, none⟩ else none

def clientOwner (reconFlag : ℤ) : Owner ClientThr ClientAnswer where
  act := osaClientProcessThr reconFlag
  holds := fun _ ↦ true

/-- After `OSA_client_init`: the handle is zeroed and nothing is connected. -/
def clientStart (T : Type) : SendState T ClientThr where
  table := ⟨fun _ ↦ .closed, 0⟩
  socket := 0
  owner := ⟨.repeatConnect, -1⟩
  sender := fun _ ↦ .idle
  sent := fun _ ↦ []
  calls := []
  passed := []

/-! ## The MSG_TYPE part of `OSA_processClient_thread` -/

inductive ServicePc
  | receive
  | close
  | unset
  | closeAgain
  | free
  | freed
  deriving DecidableEq, Repr

/-- The answers to the service loop of one client, and what the rest of the server does to the
descriptors: it accepts other clients, and their service loops close theirs. A service loop that
fails closes its descriptor twice, the second time when it may be another client's. -/
inductive ServiceAnswer
  | next
  | turn (ok : Bool)
  | stop
  | accept (fd : ℤ)
  | closeOther (fd : ℤ)
  deriving DecidableEq, Repr

def osaProcessClientThread (clientSocket : ℤ) (pc : ServicePc) : ServiceAnswer →
    Option (OwnerAct ServicePc)
  | .next =>
    match pc with
    | .close => some ⟨.unset, none, some (.close clientSocket)⟩
    | .unset => some ⟨.closeAgain, some (-1), none⟩
    | .closeAgain => some ⟨.free, none, some (.close clientSocket)⟩
    | .free => some ⟨.freed, none, none⟩
    | _ => none
  | .turn ok => if pc = .receive then some ⟨if ok then .receive else .close, none, none⟩ else none
  | .stop => if pc = .receive then some ⟨.closeAgain, none, none⟩ else none
  | .accept fd => some ⟨pc, none, some (.accept fd)⟩
  | .closeOther fd => some ⟨pc, none, some (.close fd)⟩

def serviceOwner (clientSocket : ℤ) : Owner ServicePc ServiceAnswer where
  act := osaProcessClientThread clientSocket
  holds := fun pc ↦ pc ≠ .freed

/-- A client was accepted at `clientSocket` and its service loop has begun. -/
def serviceStart (T : Type) (clientSocket : ℤ) : SendState T ServicePc where
  table := ⟨Function.update (fun _ ↦ .closed) clientSocket (.connected 0), 1⟩
  socket := clientSocket
  owner := .receive
  sender := fun _ ↦ .idle
  sent := fun _ ↦ []
  calls := []
  passed := []

/-! ## The condition on the steps -/

def SenderPc.socket? : SenderPc → Option ℤ
  | .hasSocket _ socket | .sentHead _ socket _ _ => some socket
  | _ => none

/-- The connection that took the header of the call in progress. -/
def SenderPc.conn? : SenderPc → Option ℕ
  | .sentHead _ _ _ conn => some conn
  | _ => none

/-- A header is sent on a connection on which no call is between its two sends; a payload is sent
on the connection that took the header. -/
def SendOk (s : SendState T O) : SendLabel T A → Prop
  | .sendHead t _ => ∀ socket ∈ (s.sender t).socket?, ∀ u, ∀ c ∈ (s.sender u).conn?,
      (s.table.fds socket).conn ≠ some c
  | .sendLoad t _ => ∀ socket ∈ (s.sender t).socket?, ∀ c ∈ (s.sender t).conn?,
      ∀ c' ∈ (s.table.fds socket).conn, c' = c
  | _ => True

instance [Fintype T] (s : SendState T O) : (l : SendLabel T A) → Decidable (SendOk s l)
  | .sendHead t _ => inferInstanceAs (Decidable (∀ socket ∈ (s.sender t).socket?, ∀ u,
      ∀ c ∈ (s.sender u).conn?, (s.table.fds socket).conn ≠ some c))
  | .sendLoad t _ => inferInstanceAs (Decidable (∀ socket ∈ (s.sender t).socket?,
      ∀ c ∈ (s.sender t).conn?, ∀ c' ∈ (s.table.fds socket).conn, c' = c))
  | .invoke .. | .getSocket _ | .owner _ => inferInstanceAs (Decidable True)

/-! ## The writers behind the threads -/

def SenderPc.half : SenderPc → Option (Writers.Half ℤ msgFormat)
  | .sentHead m socket call conn => some ⟨call, m.frame, socket, conn⟩
  | _ => none

def SenderPc.msg? : SenderPc → Option Msg
  | .idle => none
  | .called m | .hasSocket m _ | .sentHead m _ _ _ => some m

def SendState.writers (s : SendState T O) : Writers.State T ℤ msgFormat where
  conn := fun fd ↦ (s.table.fds fd).conn
  opened := s.table.connections
  written := s.sent
  calls := s.calls.map Msg.frame
  half := fun t ↦ (s.sender t).half

theorem half_update [DecidableEq T] (sender : T → SenderPc) (t : T) (pc : SenderPc) :
    (fun u ↦ (Function.update sender t pc u).half) =
      Function.update (fun u ↦ (sender u).half) t pc.half :=
  Function.comp_update SenderPc.half sender t pc

theorem conn_update (fds : ℤ → Descriptor) (fd : ℤ) (d : Descriptor) :
    (fun fd' ↦ (Function.update fds fd d fd').conn) =
      Function.update (fun fd' ↦ (fds fd').conn) fd d.conn :=
  Function.comp_update Descriptor.conn fds fd d

/-- A step of a thread that is not between its two sends, before or after it. -/
theorem half_update_same [DecidableEq T] {sender : T → SenderPc} {t : T} {pc : SenderPc}
    (h : pc.half = (sender t).half) :
    (fun u ↦ (Function.update sender t pc u).half) = fun u ↦ (sender u).half := by
  rw [half_update, h]
  exact Function.update_eq_self t fun u ↦ (sender u).half

theorem SenderPc.conn?_of_half {pc : SenderPc} {h : Writers.Half ℤ msgFormat}
    (hpc : pc.half = some h) : pc.conn? = some h.conn ∧ pc.socket? = some h.desc := by
  cases pc with
  | sentHead m socket call conn =>
      cases hpc
      exact ⟨rfl, rfl⟩
  | idle | called | hasSocket => cases hpc

theorem SenderPc.half_of_conn? {pc : SenderPc} {c : ℕ} (hpc : pc.conn? = some c) :
    ∃ h, pc.half = some h ∧ h.conn = c := by
  cases pc with
  | sentHead m socket call conn =>
      cases hpc
      exact ⟨_, rfl, rfl⟩
  | idle | called | hasSocket => cases hpc

theorem Descriptor.conn_eq_some {d : Descriptor} {c : ℕ} : d.conn = some c ↔ d = .connected c := by
  cases d <;> simp [Descriptor.conn]

theorem SndResult.Sends.sent_of_sok {r : SndResult} {buf : List UInt8} {len : ℕ}
    (h : r.Sends buf len) (hok : r.status = osaSok) : r.sent = buf.take len := by
  rcases h with ⟨-, hsent⟩ | ⟨hfail, -⟩
  · exact hsent
  · exact (osaEfail_ne_osaSok (hfail.symm.trans hok)).elim

/-- All that a step can do. -/
inductive SenderEffect [DecidableEq T] (own : Owner O A) (s : SendState T O) :
    SendLabel T A → SendState T O → Prop
  | invoke (t : T) (m : Msg) (hpc : s.sender t = .idle) :
      SenderEffect own s (.invoke t m) { s with
        sender := Function.update s.sender t (.called m)
        passed := s.passed ++ [m] }
  | noSocket (t : T) (m : Msg) (hpc : s.sender t = .called m) :
      SenderEffect own s (.getSocket t) { s with sender := Function.update s.sender t .idle }
  | getSocket (t : T) (m : Msg) (hpc : s.sender t = .called m) :
      SenderEffect own s (.getSocket t)
        { s with sender := Function.update s.sender t (.hasSocket m s.socket) }
  | head (t : T) (es : List SndEvent) (m : Msg) (socket : ℤ) (c : ℕ)
      (hpc : s.sender t = .hasSocket m socket) (hfd : s.table.fds socket = .connected c) :
      SenderEffect own s (.sendHead t es) { s with
        sender := Function.update s.sender t (.sentHead m socket s.calls.length c)
        sent := Function.update s.sent c (s.sent c ++ [⟨s.calls.length, false, m.frame.head⟩])
        calls := s.calls ++ [m] }
  | noHead (t : T) (es : List SndEvent) (m : Msg) (socket : ℤ)
      (hpc : s.sender t = .hasSocket m socket) (hfd : ∀ c, s.table.fds socket ≠ .connected c) :
      SenderEffect own s (.sendHead t es) { s with sender := Function.update s.sender t .idle }
  | load (t : T) (es : List SndEvent) (m : Msg) (socket : ℤ) (call conn c : ℕ)
      (hpc : s.sender t = .sentHead m socket call conn)
      (hfd : s.table.fds socket = .connected c) :
      SenderEffect own s (.sendLoad t es) { s with
        sender := Function.update s.sender t .idle
        sent := Function.update s.sent c (s.sent c ++ [⟨call, true, m.frame.body⟩]) }
  | noLoad (t : T) (es : List SndEvent) (m : Msg) (socket : ℤ) (call conn : ℕ)
      (hpc : s.sender t = .sentHead m socket call conn)
      (hfd : ∀ c, s.table.fds socket ≠ .connected c) :
      SenderEffect own s (.sendLoad t es) { s with sender := Function.update s.sender t .idle }
  | owner (a : A) (act : OwnerAct O) (table : FdTable) (hact : own.act s.owner a = some act)
      (htable : s.table.applyOption act.fdOp = some table) :
      SenderEffect own s (.owner a) { s with
        table := table, socket := act.socket.getD s.socket, owner := act.next }

theorem senderEffect [DecidableEq T] {own : Owner O A} {s s' : SendState T O} {l : SendLabel T A}
    (hstep : sendStep own s l = some s') : SenderEffect own s l s' := by
  cases l with
  | invoke t m =>
      simp only [sendStep] at hstep
      split at hstep
      · next hpc =>
        cases hstep
        exact .invoke t m hpc
      · cases hstep
  | getSocket t =>
      simp only [sendStep] at hstep
      split at hstep
      · next m hpc =>
        split at hstep
        · split at hstep
          · cases hstep
            exact .noSocket t m hpc
          · cases hstep
            exact .getSocket t m hpc
        · cases hstep
      · cases hstep
  | sendHead t es =>
      simp only [sendStep] at hstep
      split at hstep
      · next m socket hpc =>
        split at hstep
        · next c hfd =>
          obtain ⟨r, hr, hsent⟩ := Option.bind_eq_some_iff.mp hstep
          split at hsent
          · next hok =>
            cases hsent
            have hbytes : r.sent = m.frame.head := by
              have hall := (osaTcpSndNonblockFd_sends (by decide) hr).sent_of_sok hok
              rw [hall, ← length_sendHead_bytes m.message.length m.code, List.take_length]
              rfl
            rw [hbytes]
            exact .head t es m socket c hpc hfd
          · cases hsent
        · next hfd =>
          cases hstep
          exact .noHead t es m socket hpc hfd
      · cases hstep
  | sendLoad t es =>
      simp only [sendStep] at hstep
      split at hstep
      · next m socket call conn hpc =>
        split at hstep
        · next c hfd =>
          obtain ⟨r, hr, hsent⟩ := Option.bind_eq_some_iff.mp hstep
          split at hsent
          · next hok =>
            cases hsent
            have hbytes : r.sent = m.frame.body := by
              have hall := (osaTcpSndNonblockFd_sends m.length_pos hr).sent_of_sok hok
              rw [hall, List.take_length]
              rfl
            rw [hbytes]
            exact .load t es m socket call conn c hpc hfd
          · cases hsent
        · next hfd =>
          cases hstep
          exact .noLoad t es m socket call conn hpc hfd
      · cases hstep
  | owner a =>
      obtain ⟨act, hact, hbind⟩ := Option.bind_eq_some_iff.mp hstep
      obtain ⟨table, htable, rfl⟩ := Option.map_eq_some_iff.mp hbind
      exact .owner a act table hact htable

/-- What a step of the threads is to the writers: nothing, or a move that is clean if and only if
the step is admitted. -/
def Simulates (s s' : SendState T O) (l : SendLabel T A) [DecidableEq T] : Prop :=
  (s'.writers = s.writers ∧ SendOk s l) ∨
    ∃ mv, Writers.step s.writers mv = some s'.writers ∧ (Writers.Clean s.writers mv ↔ SendOk s l)

section

variable [DecidableEq T] {own : Owner O A} {s s' : SendState T O}

theorem simulates_fdOp {table : FdTable} {op : FdOp} (htable : s.table.apply op = some table)
    (socket : ℤ) (owner : O) (a : A) :
    Simulates s { s with table := table, socket := socket, owner := owner } (.owner a) := by
  cases op with
  | socket fd =>
      simp only [FdTable.apply] at htable
      split at htable
      · next hfd =>
        cases htable
        left
        have hsame : Descriptor.opened.conn = (s.table.fds fd).conn := by rw [hfd.2]; rfl
        refine ⟨?_, trivial⟩
        simp only [SendState.writers, conn_update, hsame]
        rw [Function.update_eq_self fd fun fd' ↦ (s.table.fds fd').conn]
      · cases htable
  | connect fd =>
      simp only [FdTable.apply] at htable
      split at htable
      · cases htable
        right
        refine ⟨.connect fd, ?_, Iff.rfl⟩
        simp only [Writers.step, SendState.writers, conn_update]
        rfl
      · cases htable
  | accept fd =>
      simp only [FdTable.apply] at htable
      split at htable
      · cases htable
        right
        refine ⟨.connect fd, ?_, Iff.rfl⟩
        simp only [Writers.step, SendState.writers, conn_update]
        rfl
      · cases htable
  | close fd =>
      cases htable
      right
      refine ⟨.close fd, ?_, Iff.rfl⟩
      simp only [Writers.step, SendState.writers, conn_update]
      rfl

theorem simulates {l : SendLabel T A} (hstep : sendStep own s l = some s') :
    Simulates s s' l := by
  -- a thread that has not sent a header is no writer at work
  have hsame : ∀ {t : T} {old : SenderPc} (pc : SenderPc), s.sender t = old → old.half = none →
      pc.half = none →
        (fun u ↦ (Function.update s.sender t pc u).half) = fun u ↦ (s.sender u).half := by
    rintro t _ pc rfl hold hpc
    exact half_update_same (hpc.trans hold.symm)
  cases senderEffect hstep with
  | invoke t m hpc =>
      left
      simp only [SendState.writers, hsame (.called m) hpc rfl rfl, SendOk, and_self]
  | noSocket t m hpc =>
      left
      simp only [SendState.writers, hsame .idle hpc rfl rfl, SendOk, and_self]
  | getSocket t m hpc =>
      left
      simp only [SendState.writers, hsame (.hasSocket m s.socket) hpc rfl rfl, SendOk, and_self]
  | head t es m socket c hpc hfd =>
      have hnone : (s.sender t).half = none := by rw [hpc]; rfl
      have hconn : (s.table.fds socket).conn = some c := by rw [hfd]; rfl
      right
      refine ⟨.head t socket m.frame, ?_, ?_⟩
      · simp only [Writers.step, SendState.writers, hnone, hconn, half_update, List.map_append,
          List.length_map]
        rfl
      · simp only [Writers.Clean, SendOk, SendState.writers, hpc, SenderPc.socket?,
          Option.mem_some_iff, forall_eq']
        constructor
        · intro h u c' hu heq
          obtain ⟨k, hk, rfl⟩ := SenderPc.half_of_conn? hu
          exact h u k hk heq
        · intro h u k hk heq
          exact h u k.conn (SenderPc.conn?_of_half hk).1 heq
  | noHead t es m socket hpc hfd =>
      left
      constructor
      · simp only [SendState.writers, hsame .idle hpc rfl rfl]
      · intro socket' hsocket u c _ hconn
        rw [hpc] at hsocket
        cases hsocket
        exact hfd c (Descriptor.conn_eq_some.mp hconn)
  | load t es m socket call conn c hpc hfd =>
      have hhalf : (s.sender t).half = some ⟨call, m.frame, socket, conn⟩ := by rw [hpc]; rfl
      have hconn : (s.table.fds socket).conn = some c := by rw [hfd]; rfl
      right
      refine ⟨.body t, ?_, ?_⟩
      · simp only [Writers.step, SendState.writers, hhalf, hconn, half_update]
        rfl
      · simp only [Writers.Clean, SendOk, SendState.writers, hpc, SenderPc.half, SenderPc.socket?,
          SenderPc.conn?, Option.mem_some_iff, forall_eq', hconn, Option.some.injEq]
  | noLoad t es m socket call conn hpc hfd =>
      have hhalf : (s.sender t).half = some ⟨call, m.frame, socket, conn⟩ := by rw [hpc]; rfl
      have hconn : (s.table.fds socket).conn = none := by
        rw [Option.eq_none_iff_forall_ne_some]
        exact fun c hc ↦ hfd c (Descriptor.conn_eq_some.mp hc)
      right
      refine ⟨.giveUp t, ?_, ?_⟩
      · simp only [Writers.step, SendState.writers, hhalf, hconn, half_update, if_true]
        rfl
      · simp [Writers.Clean, SendOk, hpc, SenderPc.socket?, SenderPc.conn?, hconn]
  | owner a act table hact htable =>
      cases hop : act.fdOp with
      | none =>
          rw [hop] at htable
          cases htable
          exact Or.inl ⟨rfl, trivial⟩
      | some op =>
          rw [hop] at htable
          exact simulates_fdOp htable _ _ a

end

end OsaBase
