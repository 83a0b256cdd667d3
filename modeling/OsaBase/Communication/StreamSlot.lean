import OsaBase.Buf
import OsaBase.Communication.Receive
import OsaBase.Communication.SendMsg
import OsaBase.Lib.Pool
import OsaBase.Lib.Runs

/-!
# The slots of a stream client

`server_fill_buf` puts a frame into a slot of a client's pool; the STREAM_TYPE loop of
`OSA_processClient_thread` takes it out and sends it. The slots themselves are not locked, so every
access to one is a step of its own. A step that follows a `NULL` or a freed pointer ends in `fault`.
-/

open Transition

namespace OsaBase

/-- What is passed to `server_fill_buf`: a header and `nFrameLength` bytes. -/
structure StreamFrame where
  head : FrameHead
  data : List UInt8
  length_data : data.length = (FrameHead.nFrameLength head.bytes).toNat

/-- The header and the data that `net_send_buf` is to transmit. -/
def StreamFrame.pair (f : StreamFrame) : List UInt8 × List UInt8 :=
  ((netInitStreamHead f.head).bytes, f.data)

/-- In `asserted` the producer waits for the key of the assertion. The copy behind it would go to
`NULL`, so that no step leads out of it. -/
inductive ProducerPc
  | idle
  | getEmpty (f : StreamFrame)
  | copyHead (f : StreamFrame) (bufId : ℤ)
  | alloc (f : StreamFrame) (bufId : ℤ)
  | copyData (f : StreamFrame) (bufId : ℤ)
  | putFull (f : StreamFrame) (bufId : ℤ)
  | asserted (bufId : ℤ)
  | fault

inductive ConsumerPc
  | getFull
  | send (bufId : ℤ)
  | putEmpty (bufId : ℤ)
  | test (bufId : ℤ)
  | free (bufId : ℤ)
  | null (bufId : ℤ)
  | left
  | fault
  deriving DecidableEq, Repr

structure SlotState where
  buf : OsaBufHndl
  /-- The data blocks that are allocated, with their contents. -/
  mem : ℕ → Option (List UInt8)
  socket : ℤ
  producer : ProducerPc
  consumer : ConsumerPc
  enqueued : List StreamFrame
  sent : List (List UInt8 × List UInt8)

/-- The answers to a step of the producer: which block an allocation gives. -/
inductive SlotLabel
  | fill (f : StreamFrame)
  | producer (addr : Option ℕ)
  | consumer (es : SendSchedule)

/-- `data` is the block that the slot's pointer leads to. -/
def netSendBuf (socket : ℤ) (head : FrameHead) (data : Option (List UInt8)) (es : SendSchedule) :
    Option SendRun :=
  if data = none then some ⟨-1, []⟩
  else if socket < 3 then some ⟨-1, []⟩
  else
    (osaTcpSndNonblockFd socket (some head.bytes) frameHeadSize es.head).bind fun r ↦
      if r.status ≠ osaSok then some ⟨r.status, r.sent⟩
      else
        (osaTcpSndNonblockFd socket data (FrameHead.nFrameLength head.bytes).toInt es.load).map
          fun q ↦ ⟨q.status, r.sent ++ q.sent⟩

def OsaBufHndl.setSlot (hndl : OsaBufHndl) (bufId : ℤ) (info : OsaBufInfo) : OsaBufHndl :=
  { hndl with bufInfo := Function.update hndl.bufInfo bufId info }

/-- `server_fill_buf` behind the test of the socket. -/
def serverFillBuf (s : SlotState) (addr : Option ℕ) : Option SlotState :=
  match s.producer with
  | .getEmpty f =>
    (osaBufGetEmpty s.buf osaTimeoutNone).map fun r ↦
      if r.2.1 ≠ osaSok then { s with buf := r.1, producer := .idle }
      else { s with buf := r.1, producer := .copyHead f r.2.2 }
  | .copyHead f bufId =>
    some { s with
      buf := s.buf.setSlot bufId { s.buf.bufInfo bufId with head := netInitStreamHead f.head }
      producer := .alloc f bufId }
  | .alloc f bufId =>
    match addr with
    | none =>
      some { s with
        buf := s.buf.setSlot bufId { s.buf.bufInfo bufId with data := none }
        producer := .asserted bufId }
    | some a =>
      if s.mem a = none then
        let n := FrameHead.nFrameLength (netInitStreamHead f.head).bytes
        some { s with
          buf := s.buf.setSlot bufId { s.buf.bufInfo bufId with data := some a }
          mem := Function.update s.mem a (memAlloc n.toNat true)
          producer := .copyData f bufId }
      else none
  | .copyData f bufId =>
    match (s.buf.bufInfo bufId).data with
    | none => some { s with producer := .fault }
    | some a =>
      match s.mem a with
      | none => some { s with producer := .fault }
      | some block => some { s with
          mem := Function.update s.mem a (some (Bytes.store block 0 f.data))
          producer := .putFull f bufId }
  | .putFull f bufId =>
    (osaBufPutFull s.buf bufId).map fun r ↦
      if r.2 = osaSok then
        { s with buf := r.1, producer := .idle, enqueued := s.enqueued ++ [f] }
      else { s with buf := r.1, producer := .idle }
  | .idle | .asserted _ | .fault => none

/-- The STREAM_TYPE loop of `OSA_processClient_thread`, up to the end of the loop. The sends
succeed. -/
def osaProcessClientStream (bufNum : ℤ) (s : SlotState) (es : SendSchedule) : Option SlotState :=
  match s.consumer with
  | .getFull =>
    (osaBufGetFull s.buf osaTimeoutForever).map fun r ↦
      if r.2.2 > -1 ∧ r.2.2 ≤ bufNum then { s with buf := r.1, consumer := .send r.2.2 }
      else { s with buf := r.1 }
  | .send bufId =>
    let info := s.buf.bufInfo bufId
    let data := info.data.bind s.mem
    if info.data ≠ none ∧ data = none then some { s with consumer := .fault }
    else
      (netSendBuf s.socket info.head data es).bind fun run ↦
        if run.status = 0 then
          some { s with
            consumer := .putEmpty bufId
            sent := s.sent ++ [(run.sent.take frameHeadSize, run.sent.drop frameHeadSize)] }
        else if data = none then some { s with consumer := .left, socket := -1 }
        else none
  | .putEmpty bufId =>
    (osaBufPutEmpty s.buf bufId).map fun r ↦ { s with buf := r.1, consumer := .test bufId }
  | .test bufId =>
    if (s.buf.bufInfo bufId).data = none then some { s with consumer := .getFull }
    else some { s with consumer := .free bufId }
  | .free bufId =>
    match (s.buf.bufInfo bufId).data with
    | none => some { s with consumer := .null bufId }
    | some a =>
      if s.mem a = none then some { s with consumer := .fault }
      else some { s with mem := Function.update s.mem a none, consumer := .null bufId }
  | .null bufId =>
    some { s with
      buf := s.buf.setSlot bufId { s.buf.bufInfo bufId with data := none }
      consumer := .getFull }
  | .left | .fault => none

def slotStep (bufNum : ℤ) (s : SlotState) : SlotLabel → Option SlotState
  | .fill f =>
    match s.producer with
    | .idle => if s.socket < 3 then some s else some { s with producer := .getEmpty f }
    | _ => none
  | .producer addr => serverFillBuf s addr
  | .consumer es => osaProcessClientStream bufNum s es

/-- A client whose pool was just created. -/
def slotStart (hndl : OsaBufHndl) (socket : ℤ) : SlotState where
  buf := hndl
  mem := fun _ ↦ none
  socket := socket
  producer := .idle
  consumer := .getFull
  enqueued := []
  sent := []

/-! ## Who has which slot -/

/-- The slot that the producer took from `emptyQue` and has not put into `fullQue` yet. -/
def ProducerPc.slot : ProducerPc → Option ℤ
  | .copyHead _ bufId | .alloc _ bufId | .copyData _ bufId | .putFull _ bufId
  | .asserted bufId => some bufId
  | _ => none

/-- The slot that the consumer took from `fullQue` and has not put into `emptyQue` yet. -/
def ConsumerPc.slot : ConsumerPc → Option ℤ
  | .send bufId | .putEmpty bufId => some bufId
  | _ => none

/-- The slot that the consumer put into `emptyQue` and still cleans up. -/
def ConsumerPc.cleanup : ConsumerPc → Option ℤ
  | .test bufId | .free bufId | .null bufId => some bufId
  | _ => none

def SlotState.places (s : SlotState) : Pool.Places ℤ where
  empty := s.buf.emptyQue.items
  filling := s.producer.slot
  full := s.buf.fullQue.items
  draining := s.consumer.slot

/-- From the moment the producer takes a slot until the consumer takes it. -/
def SlotState.Custody (s : SlotState) (bufId : ℤ) : Prop :=
  s.producer.slot = some bufId ∨ bufId ∈ s.buf.fullQue.items

/-- A step changes none of these slots and none of their blocks. -/
def KeepsOff (s s' : SlotState) : Prop :=
  ∀ bufId, s.Custody bufId → s'.buf.bufInfo bufId = s.buf.bufInfo bufId ∧
    ∀ a ∈ (s.buf.bufInfo bufId).data, s'.mem a = s.mem a

/-- The next step of the producer is its call of `OSA_bufGetEmpty`. -/
def ProducerPc.getsEmpty : ProducerPc → Bool
  | .getEmpty _ => true
  | _ => false

/-- The condition on the steps: the producer takes no slot that the consumer still cleans up. -/
def SlotOk (s : SlotState) : SlotLabel → Prop
  | .producer _ => s.producer.getsEmpty = true → ∀ bufId ∈ s.consumer.cleanup,
      s.buf.emptyQue.items.head? ≠ some bufId
  | _ => True

instance (s : SlotState) : (l : SlotLabel) → Decidable (SlotOk s l)
  | .producer _ => inferInstanceAs (Decidable (s.producer.getsEmpty = true →
      ∀ bufId ∈ s.consumer.cleanup, s.buf.emptyQue.items.head? ≠ some bufId))
  | .fill _ | .consumer _ => inferInstanceAs (Decidable True)

end OsaBase
