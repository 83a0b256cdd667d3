import OsaBase.Lib.Runs
import OsaBase.QueRuns

/-!
# The mailboxes of `osa_mbx.c`

Any number of threads call the mailbox functions on any number of mailboxes. Every call of a queue
function is one step, and so is everything a thread does with a message between two of them; a queue
function that would wait is not enabled. A step that reads or frees a handle that is not allocated
ends in `fault`. Every `OSA_assert` here stands between two steps; one that fails only delays its
thread until the key is typed, so it is no branch.
-/

open Transition Monitor

namespace OsaBase

def osaMbxWaitAck : ℕ := 0x2

def osaMbxFreePrm : ℕ := 0x4

def osaMbxBroadcastMax : ℕ := 10

/-- The test `flags & flag`. -/
def hasFlag (flags flag : ℕ) : Bool := flags &&& flag != 0

/-- The address of a message queue: one of the two queues of a mailbox. -/
inductive MsgqPtr (M : Type)
  | rcvMbx (m : M)
  | ackMbx (m : M)
  deriving DecidableEq, Repr

/-- A parameter `pPrm` is the block it points to; `none` is `NULL`. -/
structure OsaMsgHndl (M : Type) where
  pTo : MsgqPtr M
  pFrom : Option (MsgqPtr M)
  pPrm : Option ℕ
  status : ℤ
  cmd : ℕ
  flags : ℕ
  deriving DecidableEq, Repr

/-- An allocated handle; `serial` counts the allocations and is not in the code. -/
structure MsgBlock (M : Type) extends OsaMsgHndl M where
  serial : ℕ
  deriving DecidableEq, Repr

/-- The arguments of `OSA_mbxSendMsg` and `OSA_mbxBroadcastMsg` besides the targets. -/
structure MbxSend (M : Type) where
  broadcast : Bool
  pMbxFrom : Option M
  cmd : ℕ
  pPrm : Option ℕ
  flags : ℕ
  deriving DecidableEq, Repr

/-- An entry of `pSentMsgList` with its entry of `ackList`, and the serial number of the message. -/
structure SentMsg where
  msg : MsgPtr
  ack : Bool
  serial : ℕ
  deriving DecidableEq, Repr

/-- Where `OSA_mbxAckOrFreeMsg` returns to: its caller, or the loop of `OSA_mbxWaitCmd` or
`OSA_mbxFlush`. -/
inductive MbxNext (M : Type)
  | ret
  | waitCmd (m : M) (pMsg : Bool) (waitCmd : ℕ)
  | flush (m : M)
  deriving DecidableEq, Repr

/-- `alloc` and `put` are the two halves of `OSA_msgqSendMsg`: the call, what it sent so far, the
handle, the target and the targets after it. `idle` keeps the value that the last call returned. -/
inductive MbxPc (M : Type)
  | idle (retVal : ℤ)
  | alloc (c : MbxSend M) (sent : List SentMsg) (pMbxTo : M) (rest : List M)
  | put (c : MbxSend M) (sent : List SentMsg) (data : SentMsg) (pMbxTo : M) (rest : List M)
  | sendWait (c : MbxSend M) (pSentMsg : SentMsg)
  | sendGot (c : MbxSend M) (pSentMsg : SentMsg) (pRcvMsg : MsgPtr)
  | bcastWait (c : MbxSend M) (sent : List SentMsg) (ackRetVal : ℤ)
  | bcastGot (c : MbxSend M) (sent : List SentMsg) (ackRetVal : ℤ) (pRcvMsg : MsgPtr)
  | recv (m : M) (timeout : ℕ)
  | waitCmd (m : M) (pMsg : Bool) (waitCmd : ℕ)
  | waitCmdGot (m : M) (pMsg : Bool) (waitCmd : ℕ) (pRcvMsg : MsgPtr)
  | ackOrFree (pMsg : MsgPtr) (ackRetVal : ℤ) (next : MbxNext M)
  | sendAck (pFrom : MsgqPtr M) (pMsg : MsgPtr) (next : MbxNext M)
  | flushRcv (m : M)
  | flushAck (m : M)
  | flushGot (m : M) (pMsg : MsgPtr)
  | fault
  deriving DecidableEq, Repr

/-- What happened so far, by serial numbers: the answers that receivers gave, the values that
`OSA_mbxSendMsg` returned after an ACK, and which message carries a parameter to be freed. -/
structure MbxLog where
  allocs : ℕ
  freed : List ℕ
  acks : List (ℕ × ℤ)
  returned : List (ℕ × ℤ)
  prmSent : List ℕ
  prmFreed : List ℕ
  carried : List (ℕ × ℕ)
  deriving DecidableEq, Repr

/-- `hands r` are the messages that were returned to the caller `r` and not passed to
`OSA_mbxAckOrFreeMsg` yet. -/
structure MbxState (M T : Type) where
  msgq : MsgqPtr M → OsaMsgqHndl
  mem : MsgPtr → Option (MsgBlock M)
  hands : T → List MsgPtr
  pc : T → MbxPc M
  log : MbxLog

inductive MbxCall (M T : Type)
  | sendMsg (pMbxTo : M) (pMbxFrom : Option M) (cmd : ℕ) (pPrm : Option ℕ) (flags : ℕ)
  | broadcastMsg (pMbxToList : List M) (pMbxFrom : Option M) (cmd : ℕ) (pPrm : Option ℕ)
      (flags : ℕ)
  | waitMsg (m : M)
  | checkMsg (m : M)
  | waitCmd (m : M) (pMsg : Bool) (waitCmd : ℕ)
  | ackOrFreeMsg (r : T) (pMsg : Option MsgPtr) (ackRetVal : ℤ)
  | flush (m : M)
  deriving DecidableEq, Repr

/-- The next step of a thread; `addr` is where `OSA_memAlloc` finds room. -/
inductive MbxLabel (M T : Type)
  | invoke (t : T) (call : MbxCall M T)
  | run (t : T) (addr : MsgPtr)
  deriving DecidableEq, Repr

section

variable {M T : Type}

def MbxSend.ackMbx (c : MbxSend M) : Option (MsgqPtr M) := c.pMbxFrom.map .ackMbx

/-- The test behind the sends. -/
def MbxSend.waitsAck (c : MbxSend M) : Bool := hasFlag c.flags osaMbxWaitAck && c.ackMbx.isSome

/-- The parameter that the call is to free. -/
def MbxSend.prm (c : MbxSend M) : Option ℕ := if hasFlag c.flags osaMbxFreePrm then c.pPrm else none

/-- The parameter that `OSA_mbxFreeMsg` frees with the message. -/
def MsgBlock.prm (b : MsgBlock M) : Option ℕ :=
  if hasFlag b.flags osaMbxFreePrm then b.pPrm else none

def osaMsgqAllocMsgHndl (serial : ℕ) (pTo : MsgqPtr M) (pFrom : Option (MsgqPtr M)) (cmd : ℕ)
    (prm : Option ℕ) (msgFlags : ℕ) : MsgBlock M where
  serial := serial
  pTo := pTo
  pFrom := pFrom
  pPrm := prm
  status := osaSok
  cmd := uint16 cmd
  flags := uint16 msgFlags

/-- The message that the call makes for a target. -/
def MbxSend.block (c : MbxSend M) (serial : ℕ) (pMbxTo : M) : MsgBlock M :=
  osaMsgqAllocMsgHndl serial (.rcvMbx pMbxTo) c.ackMbx c.cmd c.pPrm c.flags

/-- What follows a call of `OSA_msgqSendMsg`. -/
def MbxSend.afterSend (c : MbxSend M) (sent : List SentMsg) (data : SentMsg) : List M → MbxPc M
  | pMbxTo :: rest => .alloc c (sent ++ [data]) pMbxTo rest
  | [] =>
    if c.waitsAck then
      if c.broadcast then .bcastWait c (sent ++ [data]) osaSok else .sendWait c data
    else .idle osaSok

def MbxNext.pc : MbxNext M → MbxPc M
  | .ret => .idle osaSok
  | .waitCmd m pMsg cmd => .waitCmd m pMsg cmd
  | .flush m => .flushRcv m

/-- Mark the first entry of `pSentMsgList` that is the message. -/
def markAck (pRcvMsg : MsgPtr) : List SentMsg → List SentMsg
  | [] => []
  | d :: ds => if pRcvMsg = d.msg then { d with ack := true } :: ds else d :: markAck pRcvMsg ds

namespace MbxState

/-- `none` when the handle is not allocated. -/
def osaMsgqFreeMsgHndl (s : MbxState M T) (msg : MsgPtr) : Option (MbxState M T) :=
  (s.mem msg).map fun b ↦
    { s with
      mem := Function.update s.mem msg none
      log := { s.log with freed := s.log.freed ++ [b.serial] } }

def freePrm (s : MbxState M T) (prm : Option ℕ) : MbxState M T :=
  { s with log := { s.log with prmFreed := s.log.prmFreed ++ prm.toList } }

def osaMbxFreeMsg (s : MbxState M T) (msg : MsgPtr) : Option (MbxState M T) :=
  (s.mem msg).bind fun b ↦ (s.freePrm b.prm).osaMsgqFreeMsgHndl msg

theorem osaMsgqFreeMsgHndl_eq {s : MbxState M T} {x : MsgPtr} {b : MsgBlock M}
    (hb : s.mem x = some b) :
    s.osaMsgqFreeMsgHndl x = some { s with
      mem := Function.update s.mem x none
      log := { s.log with freed := s.log.freed ++ [b.serial] } } := by
  simp [osaMsgqFreeMsgHndl, hb]

theorem osaMbxFreeMsg_eq {s : MbxState M T} {x : MsgPtr} {b : MsgBlock M}
    (hb : s.mem x = some b) :
    s.osaMbxFreeMsg x = some { s with
      mem := Function.update s.mem x none
      log := { s.log with
        freed := s.log.freed ++ [b.serial]
        prmFreed := s.log.prmFreed ++ b.prm.toList } } := by
  simp [osaMbxFreeMsg, osaMsgqFreeMsgHndl, freePrm, hb]

variable [DecidableEq T]

def goto (s : MbxState M T) (t : T) (pc : MbxPc M) : MbxState M T :=
  { s with pc := Function.update s.pc t pc }

@[simp] theorem goto_pc_self (s : MbxState M T) (t : T) (pc : MbxPc M) :
    (s.goto t pc).pc t = pc := Function.update_self ..

theorem goto_pc_of_ne (s : MbxState M T) (pc : MbxPc M) {t t' : T} (h : t' ≠ t) :
    (s.goto t pc).pc t' = s.pc t' := Function.update_of_ne h ..

/-- The loop of `OSA_mbxSendMsg` behind `OSA_msgqRecvMsg`. -/
def osaMbxSendMsgGot (s : MbxState M T) (t : T) (c : MbxSend M) (pSentMsg : SentMsg)
    (pRcvMsg : MsgPtr) : Option (MbxState M T) :=
  if pRcvMsg = pSentMsg.msg then
    (s.mem pRcvMsg).bind fun b ↦ (s.osaMbxFreeMsg pRcvMsg).map fun s' ↦
      { s'.goto t (.idle b.status) with
        log := { s'.log with returned := s'.log.returned ++ [(pSentMsg.serial, b.status)] } }
  else
    -- the message out of order is printed with the `cmd` of both
    (s.mem pSentMsg.msg).bind fun _ ↦ (s.osaMbxFreeMsg pRcvMsg).map fun s' ↦
      s'.goto t (.sendWait c pSentMsg)

/-- The loop of `OSA_mbxBroadcastMsg` behind `OSA_msgqRecvMsg`, and what follows it. -/
def osaMbxBroadcastMsgGot (s : MbxState M T) (t : T) (c : MbxSend M) (sent : List SentMsg)
    (ackRetVal : ℤ) (pRcvMsg : MsgPtr) : Option (MbxState M T) :=
  (s.mem pRcvMsg).bind fun b ↦
    let unknownAck := sent.all fun d ↦ pRcvMsg != d.msg
    let sent' := markAck pRcvMsg sent
    let ackRetVal' := if unknownAck = false ∧ ackRetVal = osaSok then b.status else ackRetVal
    let freed := if unknownAck then s.osaMbxFreeMsg pRcvMsg else s.osaMsgqFreeMsgHndl pRcvMsg
    freed.map fun s' ↦
      if sent'.any fun d ↦ d.ack == false then s'.goto t (.bcastWait c sent' ackRetVal')
      else (s'.freePrm c.prm).goto t (.idle ackRetVal')

/-- `OSA_mbxAckOrFreeMsg` up to the call of `OSA_msgqSend`. -/
def osaMbxAckOrFreeMsg (s : MbxState M T) (t : T) (pMsg : MsgPtr) (ackRetVal : ℤ)
    (next : MbxNext M) : Option (MbxState M T) :=
  (s.mem pMsg).bind fun b ↦
    let s₁ : MbxState M T :=
      { s with log := { s.log with acks := s.log.acks ++ [(b.serial, ackRetVal)] } }
    if hasFlag b.flags osaMbxWaitAck then
      b.pFrom.map fun pFrom ↦
        { s₁ with mem := Function.update s.mem pMsg (some { b with status := ackRetVal }) }.goto t
          (.sendAck pFrom pMsg next)
    else (s₁.osaMbxFreeMsg pMsg).map fun s' ↦ s'.goto t next.pc

variable [DecidableEq M]

/-- `OSA_msgqSend` with `OSA_TIMEOUT_FOREVER`. -/
def send (s : MbxState M T) (q : MsgqPtr M) (msg : MsgPtr) : Option (MbxState M T) :=
  match osaMsgqSend (s.msgq q) msg osaTimeoutForever with
  | .done hndl _ _ => some { s with msgq := Function.update s.msgq q hndl }
  | _ => none

/-- `OSA_msgqRecvMsg`; the message is `none` when the status is not `OSA_SOK`. -/
def recvMsg (s : MbxState M T) (q : MsgqPtr M) (timeout : ℕ) :
    Option (MbxState M T × Option MsgPtr) :=
  match osaMsgqRecvMsg (s.msgq q) true timeout with
  | .done hndl (.value status msg) _ =>
    some ({ s with msgq := Function.update s.msgq q hndl }, if status = osaSok then msg else none)
  | _ => none

/-- Start a function of `osa_mbx.c`. -/
def invoke (s : MbxState M T) (t : T) : MbxCall M T → MbxState M T
  | .sendMsg pMbxTo pMbxFrom cmd pPrm flags =>
    let c : MbxSend M := ⟨false, pMbxFrom, cmd, pPrm, flags⟩
    { s.goto t (.alloc c [] pMbxTo []) with
      log := { s.log with prmSent := s.log.prmSent ++ c.prm.toList } }
  | .broadcastMsg [] _ _ _ _ => s.goto t (.idle osaSok)
  | .broadcastMsg (pMbxTo :: rest) pMbxFrom cmd pPrm flags =>
    let c : MbxSend M := ⟨true, pMbxFrom, cmd, pPrm, flags⟩
    { s.goto t (.alloc c [] pMbxTo rest) with
      log := { s.log with prmSent := s.log.prmSent ++ c.prm.toList } }
  | .waitMsg m => s.goto t (.recv m osaTimeoutForever)
  | .checkMsg m => s.goto t (.recv m osaTimeoutNone)
  | .waitCmd m pMsg waitCmd => s.goto t (.waitCmd m pMsg waitCmd)
  | .ackOrFreeMsg _ none _ => s.goto t (.idle osaEfail)
  | .ackOrFreeMsg r (some msg) ackRetVal =>
    { s.goto t (.ackOrFree msg ackRetVal .ret) with
      hands := Function.update s.hands r ((s.hands r).erase msg) }
  | .flush m => s.goto t (.flushRcv m)

/-- The next step of the function that the thread is in. -/
def run (s : MbxState M T) (t : T) (addr : MsgPtr) : Option (MbxState M T) :=
  let orFault (o : Option (MbxState M T)) := some (o.getD (s.goto t .fault))
  match s.pc t with
  | .idle _ | .fault => none
  | .alloc c sent pMbxTo rest =>
    if s.mem addr = none then
      let b := c.block s.log.allocs pMbxTo
      some { s.goto t (.put c sent ⟨addr, false, b.serial⟩ pMbxTo rest) with
        mem := Function.update s.mem addr (some b)
        log := { s.log with
          allocs := s.log.allocs + 1
          carried := s.log.carried ++ b.prm.toList.map fun a ↦ (b.serial, a) } }
    else none
  | .put c sent data pMbxTo rest =>
    (s.send (.rcvMbx pMbxTo) data.msg).map fun s' ↦ s'.goto t (c.afterSend sent data rest)
  | .sendWait c pSentMsg =>
    c.ackMbx.bind fun q ↦ (s.recvMsg q osaTimeoutForever).bind fun r ↦
      r.2.map fun msg ↦ r.1.goto t (.sendGot c pSentMsg msg)
  | .sendGot c pSentMsg pRcvMsg => orFault (s.osaMbxSendMsgGot t c pSentMsg pRcvMsg)
  | .bcastWait c sent ackRetVal =>
    c.ackMbx.bind fun q ↦ (s.recvMsg q osaTimeoutForever).bind fun r ↦
      r.2.map fun msg ↦ r.1.goto t (.bcastGot c sent ackRetVal msg)
  | .bcastGot c sent ackRetVal pRcvMsg =>
    orFault (s.osaMbxBroadcastMsgGot t c sent ackRetVal pRcvMsg)
  | .recv m timeout =>
    (s.recvMsg (.rcvMbx m) timeout).map fun r ↦
      match r.2 with
      | some msg =>
        { r.1.goto t (.idle osaSok) with
          hands := Function.update s.hands t (msg :: s.hands t) }
      | none => r.1.goto t (.idle osaEfail)
  | .waitCmd m pMsg waitCmd =>
    (s.recvMsg (.rcvMbx m) osaTimeoutForever).bind fun r ↦
      r.2.map fun msg ↦ r.1.goto t (.waitCmdGot m pMsg waitCmd msg)
  | .waitCmdGot m pMsg waitCmd pRcvMsg =>
    match s.mem pRcvMsg with
    | none => some (s.goto t .fault)
    | some b =>
      if b.cmd = uint16 waitCmd then
        if pMsg then
          some { s.goto t (.idle osaSok) with
            hands := Function.update s.hands t (pRcvMsg :: s.hands t) }
        else some (s.goto t (.ackOrFree pRcvMsg osaSok .ret))
      else some (s.goto t (.ackOrFree pRcvMsg osaSok (.waitCmd m pMsg waitCmd)))
  | .ackOrFree pMsg ackRetVal next => orFault (s.osaMbxAckOrFreeMsg t pMsg ackRetVal next)
  | .sendAck pFrom pMsg next => (s.send pFrom pMsg).map fun s' ↦ s'.goto t next.pc
  | .flushRcv m =>
    (s.recvMsg (.rcvMbx m) osaTimeoutNone).map fun r ↦
      match r.2 with
      | some msg => r.1.goto t (.ackOrFree msg osaSok (.flush m))
      | none => r.1.goto t (.flushAck m)
  | .flushAck m =>
    (s.recvMsg (.ackMbx m) osaTimeoutNone).map fun r ↦
      match r.2 with
      | some msg => r.1.goto t (.flushGot m msg)
      | none => r.1.goto t (.idle osaEfail)
  | .flushGot m pMsg => orFault ((s.osaMbxFreeMsg pMsg).map fun s' ↦ s'.goto t (.flushAck m))

end MbxState

variable [DecidableEq M] [DecidableEq T]

def mbxStep (s : MbxState M T) : MbxLabel M T → Option (MbxState M T)
  | .invoke t call =>
    match s.pc t with
    | .idle _ => some (s.invoke t call)
    | _ => none
  | .run t addr => s.run t addr

/-- Mailboxes just created, with whatever their cells hold, and no message yet. -/
def mbxStart (cells : MsgqPtr M → Vector MsgPtr osaMsgqLenMax) : MbxState M T where
  msgq := fun q ↦ (osaMsgqCreate (cells q) osaSok).2
  mem := fun _ ↦ none
  hands := fun _ ↦ []
  pc := fun _ ↦ .idle osaSok
  log := ⟨0, [], [], [], [], [], []⟩

/-! ## What a thread is at -/

namespace MbxPc

/-- The send or broadcast in progress. -/
def call : MbxPc M → Option (MbxSend M)
  | .alloc c _ _ _ | .put c _ _ _ _ | .sendWait c _ | .sendGot c _ _ | .bcastWait c _ _
  | .bcastGot c _ _ _ => some c
  | _ => none

/-- The mailbox that the call in progress has as `pMbxFrom`. -/
def mbxFrom (pc : MbxPc M) : Option M := pc.call.bind MbxSend.pMbxFrom

/-- The mailbox that is being flushed. -/
def flushing : MbxPc M → Option M
  | .flushRcv m | .flushAck m | .flushGot m _ | .ackOrFree _ _ (.flush m)
  | .sendAck _ _ (.flush m) => some m
  | _ => none

/-- The messages that the call in progress has sent. -/
def sent : MbxPc M → List SentMsg
  | .alloc _ sent _ _ | .put _ sent _ _ _ | .bcastWait _ sent _ | .bcastGot _ sent _ _ => sent
  | .sendWait _ d | .sendGot _ d _ => [d]
  | _ => []

/-- The message that the thread has in its variables and in no queue. -/
def held : MbxPc M → Option MsgPtr
  | .put _ _ data _ _ => some data.msg
  | .sendGot _ _ msg | .bcastGot _ _ _ msg | .waitCmdGot _ _ _ msg | .ackOrFree msg _ _
  | .sendAck _ msg _ | .flushGot _ msg => some msg
  | _ => none

end MbxPc

/-! ## The conditions on the calls -/

/-- The send or broadcast that begins, with the number of its targets. -/
def MbxLabel.send : MbxLabel M T → Option (MbxSend M × ℕ)
  | .invoke _ (.sendMsg _ pMbxFrom cmd pPrm flags) => some (⟨false, pMbxFrom, cmd, pPrm, flags⟩, 1)
  | .invoke _ (.broadcastMsg pMbxToList pMbxFrom cmd pPrm flags) =>
    some (⟨true, pMbxFrom, cmd, pPrm, flags⟩, pMbxToList.length)
  | _ => none

/-- A broadcast has fewer than `OSA_MBX_BROADCAST_MAX` targets, and a call that waits for an ACK has
a mailbox for it. -/
def AckCall (c : MbxSend M) (numMsg : ℕ) : Prop :=
  numMsg < osaMbxBroadcastMax ∧ (hasFlag c.flags osaMbxWaitAck = true → c.pMbxFrom ≠ none)

/-- No call in progress has the mailbox as `pMbxFrom`, and nobody flushes it. -/
def MbxState.Free (s : MbxState M T) (m : M) : Prop :=
  ∀ t, (s.pc t).mbxFrom ≠ some m ∧ (s.pc t).flushing ≠ some m

/-- A mailbox is the `pMbxFrom` of one call at a time and is not flushed meanwhile, and a message is
passed to `OSA_mbxAckOrFreeMsg` once, out of the hands it was returned to. -/
def MbxOk (s : MbxState M T) (l : MbxLabel M T) : Prop :=
  (∀ cn ∈ l.send, AckCall cn.1 cn.2 ∧ ∀ m ∈ cn.1.pMbxFrom, s.Free m) ∧
    match l with
    | .invoke _ (.ackOrFreeMsg r pMsg _) => ∀ msg ∈ pMsg, msg ∈ s.hands r
    | .invoke _ (.flush m) => ∀ t, (s.pc t).mbxFrom ≠ some m
    | _ => True

instance (c : MbxSend M) (numMsg : ℕ) : Decidable (AckCall c numMsg) :=
  inferInstanceAs (Decidable (_ ∧ _))

instance [Fintype T] (s : MbxState M T) (m : M) : Decidable (s.Free m) :=
  inferInstanceAs (Decidable (∀ t, (s.pc t).mbxFrom ≠ some m ∧ (s.pc t).flushing ≠ some m))

instance [Fintype T] (s : MbxState M T) (l : MbxLabel M T) : Decidable (MbxOk s l) :=
  @instDecidableAnd _ _ inferInstance <|
    match l with
    | .invoke _ (.ackOrFreeMsg r pMsg _) =>
      inferInstanceAs (Decidable (∀ msg ∈ pMsg, msg ∈ s.hands r))
    | .invoke _ (.flush m) => inferInstanceAs (Decidable (∀ t, (s.pc t).mbxFrom ≠ some m))
    | .invoke _ (.sendMsg _ _ _ _ _) | .invoke _ (.broadcastMsg _ _ _ _ _)
    | .invoke _ (.waitMsg _) | .invoke _ (.checkMsg _) | .invoke _ (.waitCmd _ _ _) | .run _ _ =>
      inferInstanceAs (Decidable True)

end

end OsaBase
