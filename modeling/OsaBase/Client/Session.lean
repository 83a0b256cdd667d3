import OsaBase.Client.Steps

/-!
# The calls of `OSA_client_processThr`

The process thread alone, call by call: what it makes of every answer to `socket`,
`OSA_connetBlockFd`, `OSA_tcpRcvBlockFd`, the allocations and the status. Between two looks at the
status lies one turn of its loop, which `OsaBase.osaClientProcessThr` takes in one step.
-/

open Transition

namespace OsaBase.Client

/-- A call that the thread has made, with its result; `hangUp` is `shutdown` and `close`. -/
inductive ClientCall
  | socket (fd : ℤ)
  | connect (fd ret : ℤ)
  | rcv (fd ret : ℤ)
  | hangUp (fd : ℤ)
  | setAbor
  deriving DecidableEq, Repr

/-- `tmp_msg`: `NULL`, the array `msg_l`, or a buffer, numbered in the order in which the thread
obtained them. -/
inductive TmpMsg
  | null
  | msgL
  | buf (b : ℕ)
  deriving DecidableEq, Repr

def TmpMsg.obtained : TmpMsg → Option ℕ
  | .buf b => some b
  | .null | .msgL => none

/-- `load` is the payload buffer with its bytes. -/
inductive SessionPc
  | conn (pc : ClientPc)
  | testStatus
  | recvHead
  | checkHead (headBuf : List UInt8)
  | getBuf (headBuf : List UInt8)
  | asserted (headBuf : List UInt8)
  | recvLoad (headBuf : List UInt8) (load : Option (List UInt8))
  | msgFun (dealmsg : CallbackMsg)
  | exit
  | setAbor
  | done
  deriving DecidableEq, Repr

/-- `calls` is the log of the calls, the last one first. `frees` are the buffers that the thread
freed, `handed` those that `msgFun` got. -/
structure Session where
  pc : SessionPc
  clientSocket : ℤ
  ret : ℤ
  tmpMsg : TmpMsg
  flag : Bool
  calls : List ClientCall
  obtained : ℕ
  frees : List ℕ
  handed : List ℕ

/-- `key` is the key that the assertion waits for. -/
inductive SessionAnswer
  | next
  | socket (fd : ℤ)
  | connect (ok : Bool)
  | status (connected : Bool)
  | rcv (stream : List UInt8) (es : List RcvEvent)
  | mem (ok : Bool)
  | key
  deriving DecidableEq, Repr

/-- `ok` is the answer of `connect`. -/
def osaConnetBlockFd (fd servPort : ℤ) (ok : Bool) : ℤ :=
  if fd < 0 ∨ servPort < 1 then osaEfail else if ok then osaSok else osaEfail

/-- Where the thread is when it has come to a place of its connection handling. -/
def SessionPc.ofConn : ClientPc → SessionPc
  | .receive => .testStatus
  | .done => .setAbor
  | pc => .conn pc

namespace Session

variable (param : ClientParam) (s : Session)

/-- A step in which the thread handles its connection, with the calls that it makes. -/
def connStep (a : ClientAnswer) (calls : List ClientCall) (pc : ClientPc) : Option Session :=
  (OsaBase.osaClientProcessThr param.reconFlag ⟨pc, s.clientSocket⟩ a).map fun act ↦
    { s with
      pc := .ofConn act.next.pc
      clientSocket := act.next.clientSocket
      calls := calls ++ s.calls }

/-- `OSA_memFree(tmp_msg)` if `flag` says that it was allocated. -/
def freeTmp : Session :=
  match s.tmpMsg with
  | .buf b => if s.flag then { s with frees := s.frees ++ [b], tmpMsg := .null } else s
  | .null | .msgL => s

/-- The payload buffer of a MSG_TYPE client comes from `OSA_memAlloc` only if it is long. -/
def getBuf (headBuf : List UInt8) (ok : Bool) : Session :=
  let kind := param.clientType.headKind
  let s' := { s with
    tmpMsg := if ok then .buf s.obtained else .null
    flag := decide (param.clientType = ComType.msgType)
    obtained := if ok then s.obtained + 1 else s.obtained }
  if ok = false ∧ kind.asserts then { s' with pc := .asserted headBuf }
  else { s' with pc := .recvLoad headBuf (memAlloc (kind.recvLen headBuf) ok) }

/-- The head or the payload is received. -/
def rcv (buf : Option (List UInt8)) (rcvLen : ℤ) (stream : List UInt8) (es : List RcvEvent)
    (next : List UInt8 → SessionPc) (fail : Session → Session) : Option Session :=
  (osaTcpRcvBlockFd s.clientSocket buf rcvLen stream es).map fun r ↦
    let s' := { s with ret := r.status, calls := .rcv s.clientSocket r.status :: s.calls }
    if r.status ≠ osaSok then { fail s' with pc := .exit } else { s' with pc := next r.rcvBuf }

end Session

def sessionStep (param : ClientParam) (s : Session) (a : SessionAnswer) : Option Session :=
  let kind := param.clientType.headKind
  match s.pc, a with
  | .conn .create, .socket fd => s.connStep param (.socket fd) [.socket fd] .create
  | .conn .connect, .connect ok =>
    let ret := osaConnetBlockFd s.clientSocket param.serverPort ok
    s.connStep param (.connect (ret = osaSok)) [.connect s.clientSocket ret] .connect
  | .conn .closeOld, .next =>
    s.connStep param .next
      (if s.clientSocket > 0 then [.hangUp s.clientSocket] else []) .closeOld
  | .conn .quitClose, .next => s.connStep param .next [.hangUp s.clientSocket] .quitClose
  | .conn pc, .next => s.connStep param .next [] pc
  | .testStatus, .status connected =>
    if connected then some { s with pc := .recvHead, tmpMsg := .null, flag := false }
    else s.connStep param .stop [] .receive
  | .recvHead, .rcv stream es =>
    s.rcv (some (List.replicate kind.format.headSize 0)) kind.format.headSize stream es
      .checkHead id
  | .checkHead headBuf, .next =>
    if kind.check headBuf ≠ 0 then some { s with pc := .exit }
    else if param.clientType = .msgType ∧ kind.recvLen headBuf ≤ maxRecv then
      some { s with pc := .recvLoad headBuf (some (List.replicate maxRecv 0)), tmpMsg := .msgL }
    else some { s with pc := .getBuf headBuf }
  | .getBuf headBuf, .mem ok => some (s.getBuf param headBuf ok)
  -- behind the assertion the thread goes on with a `NULL` buffer
  | .asserted headBuf, .key => some { s with pc := .recvLoad headBuf none }
  | .recvLoad headBuf load, .rcv stream es =>
    s.rcv load (kind.recvLen headBuf) stream es
      (fun recvValue ↦ .msgFun ⟨param.clientType, headBuf, recvValue⟩) Session.freeTmp
  | .msgFun _, .next =>
    some { s with pc := .exit, handed := s.handed ++ s.tmpMsg.obtained.toList }
  | .exit, .next => s.freeTmp.connStep param (.turn (s.ret = 0)) [] .receive
  | .setAbor, .next => some { s with pc := .done, calls := .setAbor :: s.calls }
  | _, _ => none

/-- Behind the creation of the heart thread. -/
def sessionStart : Session where
  pc := .conn .repeatConnect
  clientSocket := -1
  ret := 0
  tmpMsg := .null
  flag := false
  calls := []
  obtained := 0
  frees := []
  handed := []

variable {param : ClientParam} {s s' : Session} {a : SessionAnswer}

/-! ## What a step can do -/

/-- The steps of the connection handling that make no call. -/
inductive Quiet : ClientPc → ClientPc → Prop
  | repeatConnect : Quiet .repeatConnect .closeOld
  | publish : Quiet .publish .publishLocked
  | publishLocked : Quiet .publishLocked .receive
  | unset : Quiet .unset .repeatConnect
  | quit : Quiet .quit .quitClose

inductive SessionStep (param : ClientParam) (s : Session) : SessionAnswer → Session → Prop
  | quiet (pc pc') : s.pc = .conn pc → Quiet pc pc' →
      SessionStep param s .next { s with pc := .ofConn pc' }
  | closeOld : s.pc = .conn .closeOld → 0 < s.clientSocket →
      SessionStep param s .next
        { s with
          pc := .conn .create
          clientSocket := -1
          calls := .hangUp s.clientSocket :: s.calls }
  | noOld : s.pc = .conn .closeOld → s.clientSocket ≤ 0 →
      SessionStep param s .next { s with pc := .conn .create }
  | socket (fd) : s.pc = .conn .create → -1 ≤ fd →
      SessionStep param s (.socket fd)
        { s with
          pc := .conn (if fd < 3 ∧ param.reconFlag = 1 then .repeatConnect else .connect)
          clientSocket := fd
          calls := .socket fd :: s.calls }
  | connect (ok ret) : s.pc = .conn .connect →
      ret = osaConnetBlockFd s.clientSocket param.serverPort ok →
      SessionStep param s (.connect ok)
        { s with
          pc := .conn (if ret ≠ osaSok ∧ param.reconFlag = 1 then .repeatConnect else .publish)
          calls := .connect s.clientSocket ret :: s.calls }
  | quitClose : s.pc = .conn .quitClose →
      SessionStep param s .next
        { s with pc := .setAbor, calls := .hangUp s.clientSocket :: s.calls }
  | enter : s.pc = .testStatus →
      SessionStep param s (.status true)
        { s with pc := .recvHead, tmpMsg := .null, flag := false }
  | leave : s.pc = .testStatus → SessionStep param s (.status false) { s with pc := .conn .quit }
  | head (stream es) (r : RcvResult) : s.pc = .recvHead →
      SessionStep param s (.rcv stream es)
        { s with
          pc := if r.status ≠ osaSok then .exit else .checkHead r.rcvBuf
          ret := r.status
          calls := .rcv s.clientSocket r.status :: s.calls }
  | badHead (h) : s.pc = .checkHead h → SessionStep param s .next { s with pc := .exit }
  | array (h buf) : s.pc = .checkHead h → param.clientType = .msgType →
      SessionStep param s .next { s with pc := .recvLoad h buf, tmpMsg := .msgL }
  | goodHead (h) : s.pc = .checkHead h → SessionStep param s .next { s with pc := .getBuf h }
  | buffer (h buf) : s.pc = .getBuf h →
      SessionStep param s (.mem true)
        { s with
          pc := .recvLoad h buf
          tmpMsg := .buf s.obtained
          flag := decide (param.clientType = ComType.msgType)
          obtained := s.obtained + 1 }
  | noBuffer (h pc) : s.pc = .getBuf h → pc = .asserted h ∨ pc = .recvLoad h none →
      SessionStep param s (.mem false)
        { s with pc := pc, tmpMsg := .null, flag := decide (param.clientType = ComType.msgType) }
  | key (h) : s.pc = .asserted h →
      SessionStep param s .key { s with pc := .recvLoad h none }
  | load (h buf stream es r) : s.pc = .recvLoad h buf →
      osaTcpRcvBlockFd s.clientSocket buf (param.clientType.headKind.recvLen h) stream es = some r →
      r.status = osaSok →
      SessionStep param s (.rcv stream es)
        { s with
          pc := .msgFun ⟨param.clientType, h, r.rcvBuf⟩
          ret := r.status
          calls := .rcv s.clientSocket r.status :: s.calls }
  | noLoad (h buf stream es r) : s.pc = .recvLoad h buf →
      osaTcpRcvBlockFd s.clientSocket buf (param.clientType.headKind.recvLen h) stream es = some r →
      r.status ≠ osaSok →
      SessionStep param s (.rcv stream es)
        { Session.freeTmp { s with
            ret := r.status
            calls := .rcv s.clientSocket r.status :: s.calls } with pc := .exit }
  | msgFun (d) : s.pc = .msgFun d →
      SessionStep param s .next
        { s with pc := .exit, handed := s.handed ++ s.tmpMsg.obtained.toList }
  | exit : s.pc = .exit →
      SessionStep param s .next
        { s.freeTmp with
          pc := if s.ret ≠ 0 ∧ param.reconFlag = 1 then .conn .unset else .testStatus }
  | setAbor : s.pc = .setAbor →
      SessionStep param s .next { s with pc := .done, calls := .setAbor :: s.calls }

@[simp] theorem Session.freeTmp_pc (s : Session) : s.freeTmp.pc = s.pc := by
  unfold Session.freeTmp
  split
  · split <;> rfl
  · rfl
  · rfl

@[simp] theorem Session.freeTmp_clientSocket (s : Session) :
    s.freeTmp.clientSocket = s.clientSocket := by
  unfold Session.freeTmp
  split
  · split <;> rfl
  · rfl
  · rfl

@[simp] theorem Session.freeTmp_calls (s : Session) : s.freeTmp.calls = s.calls := by
  unfold Session.freeTmp
  split
  · split <;> rfl
  · rfl
  · rfl

@[simp] theorem Session.freeTmp_ret (s : Session) : s.freeTmp.ret = s.ret := by
  unfold Session.freeTmp
  split
  · split <;> rfl
  · rfl
  · rfl

theorem session_step_of_rcv {buf : Option (List UInt8)} {rcvLen : ℤ} {stream : List UInt8}
    {es : List RcvEvent} {next : List UInt8 → SessionPc} {fail : Session → Session}
    (h : s.rcv buf rcvLen stream es next fail = some s') :
    ∃ r, osaTcpRcvBlockFd s.clientSocket buf rcvLen stream es = some r ∧
      ((r.status = osaSok ∧ s' =
        { s with
          pc := next r.rcvBuf
          ret := r.status
          calls := .rcv s.clientSocket r.status :: s.calls }) ∨
      (r.status ≠ osaSok ∧ s' =
        { fail { s with
            ret := r.status
            calls := .rcv s.clientSocket r.status :: s.calls } with pc := .exit })) := by
  obtain ⟨r, hr, hs'⟩ := Option.map_eq_some_iff.mp h
  refine ⟨r, hr, ?_⟩
  by_cases hok : r.status = osaSok
  · rw [if_neg (not_not.mpr hok)] at hs'
    exact Or.inl ⟨hok, hs'.symm⟩
  · rw [if_pos hok] at hs'
    exact Or.inr ⟨hok, hs'.symm⟩

theorem session_socket {fd : ℤ} (hpc : s.pc = .conn .create)
    (h : s.connStep param (.socket fd) [.socket fd] .create = some s') :
    SessionStep param s (.socket fd) s' := by
  simp only [Session.connStep, OsaBase.osaClientProcessThr, true_and] at h
  split at h
  · next hge =>
    have hs' : s' = { s with
        pc := .conn (if fd < 3 ∧ param.reconFlag = 1 then .repeatConnect else .connect)
        clientSocket := fd
        calls := .socket fd :: s.calls } := by
      split at h <;> next hfd =>
        cases h
        simp [hfd, SessionPc.ofConn]
    exact hs' ▸ .socket fd hpc hge
  · cases h

theorem session_connect {ok : Bool} {ret : ℤ} (hpc : s.pc = .conn .connect)
    (hret : ret = osaConnetBlockFd s.clientSocket param.serverPort ok)
    (h : s.connStep param (.connect (ret = osaSok)) [.connect s.clientSocket ret] .connect =
      some s') : SessionStep param s (.connect ok) s' := by
  have hs' : s' = { s with
      pc := .conn (if ret ≠ osaSok ∧ param.reconFlag = 1 then .repeatConnect else .publish)
      calls := .connect s.clientSocket ret :: s.calls } := by
    simp only [Session.connStep, OsaBase.osaClientProcessThr, if_true] at h
    split at h
    · next hok =>
      cases h
      simp only [decide_eq_true_eq] at hok
      simp [hok, SessionPc.ofConn]
    · next hok =>
      simp only [decide_eq_true_eq] at hok
      split at h <;> next hrecon =>
        cases h
        simp [hok, hrecon, SessionPc.ofConn]
  exact hs' ▸ .connect ok ret hpc hret

theorem session_cases (h : sessionStep param s a = some s') : SessionStep param s a s' := by
  simp only [sessionStep] at h
  split at h
  · next fd hpc => exact session_socket hpc h
  · next ok hpc => exact session_connect hpc rfl h
  · next hpc =>
    by_cases hpos : s.clientSocket > 0 <;>
      simp only [Session.connStep, OsaBase.osaClientProcessThr, hpos, if_true, if_false] at h <;>
      cases h
    · exact .closeOld hpc hpos
    · exact .noOld hpc (by omega)
  · next hpc => cases h; exact .quitClose hpc
  · next pc hclose hquit hpc =>
    cases pc with
    | repeatConnect => cases h; exact .quiet _ _ hpc .repeatConnect
    | publish => cases h; exact .quiet _ _ hpc .publish
    | publishLocked => cases h; exact .quiet _ _ hpc .publishLocked
    | unset => cases h; exact .quiet _ _ hpc .unset
    | quit => cases h; exact .quiet _ _ hpc .quit
    | closeOld => exact (hclose rfl).elim
    | quitClose => exact (hquit rfl).elim
    | create | connect | receive | done => cases h
  · next connected hpc =>
    split at h
    · next hc => cases h; subst hc; exact .enter hpc
    · next hc =>
      cases h
      obtain rfl : connected = false := Bool.eq_false_iff.mpr hc
      exact .leave hpc
  · next stream es hpc =>
    obtain ⟨r, hr, ⟨hok, rfl⟩ | ⟨hok, rfl⟩⟩ := session_step_of_rcv h
    · have hstep : SessionStep param s _ _ := .head stream es r hpc
      rwa [if_neg (not_not.mpr hok)] at hstep
    · have hstep : SessionStep param s _ _ := .head stream es r hpc
      rwa [if_pos hok] at hstep
  · next headBuf hpc =>
    split at h
    · cases h; exact .badHead headBuf hpc
    · split at h
      · next hcond => cases h; exact .array headBuf _ hpc hcond.1
      · cases h; exact .goodHead headBuf hpc
  · next headBuf ok hpc =>
    cases ok with
    | true =>
        cases h
        exact .buffer headBuf _ hpc
    | false =>
        cases h
        by_cases hasserts : param.clientType.headKind.asserts = true
        · simp only [Session.getBuf, hasserts, Bool.false_eq_true, if_false, and_self, if_true]
          exact .noBuffer headBuf _ hpc (Or.inl rfl)
        · simp only [Session.getBuf, hasserts, Bool.false_eq_true, if_false, and_false]
          exact .noBuffer headBuf _ hpc (Or.inr rfl)
  · next headBuf hpc => cases h; exact .key headBuf hpc
  · next headBuf load stream es hpc =>
    obtain ⟨r, hr, ⟨hok, rfl⟩ | ⟨hok, rfl⟩⟩ := session_step_of_rcv h
    · exact .load headBuf load stream es r hpc hr hok
    · exact .noLoad headBuf load stream es r hpc hr hok
  · next d hpc => cases h; exact .msgFun d hpc
  · next hpc =>
    have hs' : s' = { s.freeTmp with
        pc := if s.ret ≠ 0 ∧ param.reconFlag = 1 then .conn .unset else .testStatus } := by
      simp only [Session.connStep, OsaBase.osaClientProcessThr, if_true, decide_eq_true_eq] at h
      split at h <;> next hret =>
        cases h
        simp [hret, SessionPc.ofConn]
    exact hs' ▸ .exit hpc
  · next hpc => cases h; exact .setAbor hpc
  · cases h

/-! ## The turns as single steps -/

/-- Where the thread is when a turn of its loop is one step. -/
def SessionPc.place : SessionPc → ClientPc
  | .conn pc => pc
  | .setAbor | .done => .done
  | _ => .receive

def Session.thr (s : Session) : ClientThr := ⟨s.pc.place, s.clientSocket⟩

theorem SessionPc.place_ofConn (pc : ClientPc) : (SessionPc.ofConn pc).place = pc := by
  cases pc <;> rfl

theorem connStep_thr {a : ClientAnswer} {calls : List ClientCall} {pc : ClientPc}
    (hplace : s.pc.place = pc) (h : s.connStep param a calls pc = some s') :
    ∃ a act, OsaBase.osaClientProcessThr param.reconFlag s.thr a = some act ∧
      act.next = s'.thr := by
  obtain ⟨act, hact, rfl⟩ := Option.map_eq_some_iff.mp h
  subst hplace
  refine ⟨a, act, hact, ?_⟩
  rw [Session.thr, SessionPc.place_ofConn]

/-- A call is a step of `OsaBase.osaClientProcessThr`, or one within a turn of the loop. -/
theorem session_refines (h : sessionStep param s a = some s') : s'.thr = s.thr ∨
    ∃ a act, OsaBase.osaClientProcessThr param.reconFlag s.thr a = some act ∧
      act.next = s'.thr := by
  simp only [sessionStep] at h
  split at h
  · next fd hpc => exact Or.inr (connStep_thr (congrArg SessionPc.place hpc) h)
  · next ok hpc => exact Or.inr (connStep_thr (congrArg SessionPc.place hpc) h)
  · next hpc => exact Or.inr (connStep_thr (congrArg SessionPc.place hpc) h)
  · next hpc => exact Or.inr (connStep_thr (congrArg SessionPc.place hpc) h)
  · next pc _ _ hpc => exact Or.inr (connStep_thr (congrArg SessionPc.place hpc) h)
  · next connected hpc =>
    split at h
    · cases h
      simp [Session.thr, hpc, SessionPc.place]
    · exact Or.inr (connStep_thr (congrArg SessionPc.place hpc) h)
  · next stream es hpc =>
    obtain ⟨r, hr, ⟨-, rfl⟩ | ⟨-, rfl⟩⟩ := session_step_of_rcv h <;>
      simp [Session.thr, hpc, SessionPc.place]
  · next headBuf hpc =>
    split at h
    · cases h
      simp [Session.thr, hpc, SessionPc.place]
    · split at h <;> cases h <;> simp [Session.thr, hpc, SessionPc.place]
  · next headBuf ok hpc =>
    cases h
    refine Or.inl ?_
    unfold Session.getBuf
    dsimp only
    split <;> simp [Session.thr, hpc, SessionPc.place]
  · next headBuf hpc => cases h; simp [Session.thr, hpc, SessionPc.place]
  · next headBuf load stream es hpc =>
    obtain ⟨r, hr, ⟨-, rfl⟩ | ⟨-, rfl⟩⟩ := session_step_of_rcv h <;>
      simp [Session.thr, hpc, SessionPc.place]
  · next d hpc => cases h; simp [Session.thr, hpc, SessionPc.place]
  · next hpc =>
    obtain ⟨a, act, hact, hnext⟩ :=
      connStep_thr (by rw [Session.freeTmp_pc]; exact congrArg SessionPc.place hpc) h
    refine Or.inr ⟨a, act, ?_, hnext⟩
    simpa [Session.thr] using hact
  · next hpc => cases h; simp [Session.thr, hpc, SessionPc.place]
  · cases h

end OsaBase.Client
