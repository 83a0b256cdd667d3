import OsaBase.Communication.Head
import OsaBase.Socket

/-!
# Sending a message

`OSA_client_sendMsg` and `OSA_server_sendMsg` differ in the handle they read the descriptor from
and in their log texts. Each makes two calls of `OSA_tcpSndNonblockFd`, one for the header and one
for the message, and returns the first status that is not `OSA_SOK`.
-/

namespace OsaBase

/-- What `OSA_client_sendMsg` reads of an `OSA_ClientHandle_t`. -/
structure OsaClientHandle where
  clientSocket : ℤ
  deriving DecidableEq, Repr

/-- What `OSA_server_sendMsg` reads of an `OSA_CliOpreateHanle_t`. -/
structure OsaCliOpreateHandle where
  socket : ℤ
  deriving DecidableEq, Repr

/-- The status of a call and the bytes it put on the wire. -/
structure SendRun where
  status : ℤ
  sent : List UInt8
  deriving DecidableEq, Repr

/-- The schedules of the two sends of a call. -/
structure SendSchedule where
  head : List SndEvent
  load : List SndEvent
  deriving DecidableEq, Repr

def sendMsg (socket : ℤ) (message : Option (List UInt8)) (nLen : ℤ) (code : BitVec 32)
    (es : SendSchedule) : Option SendRun :=
  if message = none ∨ nLen ≤ 0 then some ⟨-1, []⟩
  else if socket < 3 then some ⟨-1, []⟩
  else
    (osaTcpSndNonblockFd socket (some (sendHead nLen code).bytes) msgHeadSize es.head).bind
      fun r ↦
        if r.status ≠ osaSok then some ⟨r.status, r.sent⟩
        else
          (osaTcpSndNonblockFd socket message nLen es.load).map fun q ↦
            ⟨q.status, r.sent ++ q.sent⟩

def osaClientSendMsg (handle : OsaClientHandle) (message : Option (List UInt8)) (nLen : ℤ)
    (code : BitVec 32) (es : SendSchedule) : Option SendRun :=
  sendMsg handle.clientSocket message nLen code es

def osaServerSendMsg (pOprHandle : OsaCliOpreateHandle) (message : Option (List UInt8))
    (nLen : ℤ) (code : BitVec 32) (es : SendSchedule) : Option SendRun :=
  sendMsg pOprHandle.socket message nLen code es

/-- A message with its code, of a length that `nLen` can hold. -/
structure Msg where
  code : BitVec 32
  message : List UInt8
  length_pos : 0 < message.length
  length_lt : message.length < 2 ^ 31
  deriving DecidableEq

def Msg.frame (m : Msg) : Framing.Frame msgFormat :=
  msgFrame m.message m.code m.length_pos m.length_lt

theorem Msg.bytes_frame (m : Msg) :
    m.frame.bytes = (sendHead m.message.length m.code).bytes ++ m.message := rfl

/-- A call puts the whole frame on the wire and succeeds, or a proper prefix of it and fails. -/
theorem sendMsg_sends {socket : ℤ} (m : Msg) {es : SendSchedule} {run : SendRun}
    (h : sendMsg socket (some m.message) m.message.length m.code es = some run) :
    (run.status = osaSok ∧ run.sent = m.frame.bytes) ∨
      (run.status ≠ osaSok ∧ ∃ k < m.frame.bytes.length, run.sent = m.frame.bytes.take k) := by
  have hpos := m.length_pos
  have hhead : (sendHead m.message.length m.code).bytes.length = msgHeadSize :=
    length_sendHead_bytes _ _
  have hnlen : ¬ ((m.message.length : ℤ) ≤ 0) := by omega
  rw [Msg.bytes_frame]
  simp only [sendMsg, reduceCtorEq, hnlen, or_self, if_false] at h
  have hzero : 0 < ((sendHead m.message.length m.code).bytes ++ m.message).length := by
    rw [List.length_append]
    omega
  split at h
  · cases h
    exact Or.inr ⟨by decide, 0, hzero, rfl⟩
  · obtain ⟨r, hr, hrun⟩ := Option.bind_eq_some_iff.mp h
    rcases osaTcpSndNonblockFd_sends (by decide) hr with ⟨hok, hsent⟩ | ⟨hfail, k, hk, hsent⟩
    · simp only [hok, ne_eq, not_true, if_false] at hrun
      obtain ⟨q, hq, rfl⟩ := Option.map_eq_some_iff.mp hrun
      have hall : r.sent = (sendHead m.message.length m.code).bytes := by
        rw [hsent, ← hhead, List.take_length]
      rcases osaTcpSndNonblockFd_sends hpos hq with ⟨hok', hsent'⟩ | ⟨hfail', k, hk, hsent'⟩
      · left
        exact ⟨hok', by simp only [hall, hsent', List.take_length]⟩
      · right
        refine ⟨by simp only [hfail']; exact osaEfail_ne_osaSok,
          (sendHead m.message.length m.code).bytes.length + k, ?_, ?_⟩
        · rw [List.length_append]
          omega
        · simp only [hall, hsent', List.take_length_add_append]
    · have hne : r.status ≠ osaSok := by
        rw [hfail]
        exact osaEfail_ne_osaSok
      simp only [hne, ne_eq, not_false_eq_true, if_true] at hrun
      cases hrun
      right
      refine ⟨hne, k, ?_, ?_⟩
      · rw [List.length_append]
        omega
      · simp only [hsent]
        rw [List.take_append_of_le_length (by omega)]

end OsaBase
