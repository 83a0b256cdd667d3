import OsaBase.Communication.RoundTrip
import OsaBase.Server.SendBuf

/-!
# Which frames can be delivered

`OSA_server_sendBuf` does not look at `nFrameLength`. The sender and the receiver take it as an
`int`, so a length of zero or from `2 ^ 31` on is found out only when the frame is sent.
-/

namespace OsaBase.Server

variable {bufInfo : OsaBufInfo} {d a c : ℕ} {bytes : List UInt8} {s s' : Clients}

/-- The frame in the slot is sent with success, and the client accepts the header, asks for a buffer
of `nFrameLength` bytes and hands both on. -/
def Delivers (socket : ℤ) (info : OsaBufInfo) (mem : ℕ → Option (List UInt8))
    (data : List UInt8) : Prop :=
  ∀ (es : SendSchedule) (ts : TurnSchedule) (fd : ℤ) (more : List UInt8), 0 ≤ fd →
    Accepts frameHeadSize es.head → Accepts data.length es.load →
    ts.Serves streamKind data.length →
    ∃ run buf, netSendBuf socket info.head (info.data.bind mem) es = some run ∧
      run.status = osaSok ∧ streamKind.recvLen info.head.bytes = data.length ∧
      recvTurn streamKind osaClientProcessLog fd ts (run.sent ++ more) = .exit osaSok
        [.checkHead info.head.bytes, .deal ⟨.streamType, info.head.bytes, buf⟩] more ∧
      buf.take data.length = data

/-- Whatever `server_fill_buf` enqueues with this header is delivered. -/
def HeadDeliverable (head : FrameHead) : Prop :=
  ∀ (s : Clients) (c d a bufNum : ℕ) (h : OprHandle) (holders : List ℤ) (bytes : List UInt8),
    s.handles c = some h → Conserved h.clientBuf bufNum holders → 3 ≤ h.socket →
    h.clientBuf.emptyQue.items ≠ [] → Passed s ⟨head, some d⟩ d bytes →
    ∃ st s' h' bufId, s.serverFillBuf c ⟨head, some d⟩ (some a) = some (st, s') ∧
      s'.handles c = some h' ∧ Filled ⟨head, some d⟩ bytes a s'.mem h h' bufId ∧
      Delivers h'.socket (h'.clientBuf.bufInfo bufId) s'.mem
        (bytes.take (FrameHead.nFrameLength head.bytes).toNat)

/-- A length that `int` holds. -/
theorem toInt_of_lt {w : BitVec 32} (hlt : w.toNat < 2 ^ 31) : w.toInt = w.toNat := by
  rw [BitVec.toInt_eq_toNat_cond, if_pos (by omega)]

theorem toInt_nonpos_iff {w : BitVec 32} : w.toInt ≤ 0 ↔ w.toNat = 0 ∨ 2 ^ 31 ≤ w.toNat := by
  rw [BitVec.toInt_eq_toNat_cond]
  have := w.isLt
  split <;> omega

/-- A slot with a length that `int` holds, and is not zero, is delivered. -/
theorem Filled.delivers {mem : ℕ → Option (List UInt8)} {h h' : OprHandle} {bufId : ℤ}
    (hf : Filled bufInfo bytes a mem h h' bufId) (hsocket : 3 ≤ h.socket)
    (hlen : (FrameHead.nFrameLength bufInfo.head.bytes).toNat ≤ bytes.length)
    (hpos : 0 < (FrameHead.nFrameLength bufInfo.head.bytes).toNat)
    (hlt : (FrameHead.nFrameLength bufInfo.head.bytes).toNat < 2 ^ 31) :
    Delivers h'.socket (h'.clientBuf.bufInfo bufId) mem
      (bytes.take (FrameHead.nFrameLength bufInfo.head.bytes).toNat) := by
  intro es ts fd more hfd hhead hload hserves
  have hsame : h'.socket = h.socket := by rw [hf.same]
  have hmark := hf.head
  have hblock := hf.data
  have hcopy := hf.copy
  generalize hinfo : h'.clientBuf.bufInfo bufId = info at *
  generalize hn : (FrameHead.nFrameLength bufInfo.head.bytes).toNat = n at *
  have hdata : (bytes.take n).length = n := by
    rw [List.length_take]
    omega
  have hint : (FrameHead.nFrameLength info.head.bytes).toInt = n := by
    rw [hmark.nFrameLength, toInt_of_lt (by omega), hn]
  have hcheck := hmark.check (by omega)
  have hbytes := info.head.length_bytes
  rw [hdata] at hload hserves ⊢
  have hsocket : 0 ≤ h'.socket := by omega
  obtain ⟨r, hr, hrok, hrsent⟩ := hhead.sends hsocket info.head.bytes (by decide)
  obtain ⟨q, hq, hqok, hqsent⟩ := hload.sends hsocket (bytes.take n) hpos
  have hsend : netSendBuf h'.socket info.head (info.data.bind mem) es =
      some ⟨osaSok, info.head.bytes ++ bytes.take n⟩ := by
    have hnot : ¬ h'.socket < 3 := by omega
    have hfst : info.head.bytes.take frameHeadSize = info.head.bytes := by
      rw [← hbytes, List.take_length]
    have hsnd : (bytes.take n).take n = bytes.take n := by rw [List.take_take, min_self]
    rw [hfst] at hrsent
    rw [hsnd] at hqsent
    simp [netSendBuf, hblock, hcopy, hnot, hr, hrok, hint, hq, hqok, hrsent, hqsent]
  let f : Framing.Frame streamKind.format :=
    ⟨info.head.bytes, bytes.take n, hbytes, decide_eq_true hcheck, by
      rw [hdata, streamKind.bodySize_eq]
      exact (congrArg Int.toNat hint).symm⟩
  have hbrings : ts.Brings f more := by
    refine TurnSchedule.Serves.brings ?_ ?_
    · rw [show f.body.length = n from hdata]
      exact hserves
    · rw [show f.body.length = n from hdata]
      exact hpos
  obtain ⟨buf, hbuf, hturn⟩ := recvTurn_of_brings _ hfd hbrings
  rw [show f.body.length = n from hdata] at hbuf
  rw [osaClientProcessLog_goesOn, if_pos rfl] at hturn
  refine ⟨_, buf, hsend, rfl, hint, ?_, hbuf⟩
  rw [List.append_assoc]
  exact hturn

/-- With any other length the send fails, and the connection is given up. -/
theorem netSendBuf_fails {socket : ℤ} {head : FrameHead} {data : Option (List UInt8)}
    {es : SendSchedule} {run : SendRun}
    (hlen : (FrameHead.nFrameLength head.bytes).toInt ≤ 0)
    (h : netSendBuf socket head data es = some run) : run.status ≠ osaSok := by
  unfold netSendBuf at h
  split at h
  · cases h
    simp [osaSok]
  · split at h
    · cases h
      simp [osaSok]
    · obtain ⟨r, -, h⟩ := Option.bind_eq_some_iff.mp h
      split at h
      · next hfail =>
        cases h
        exact hfail
      · obtain ⟨q, hq, rfl⟩ := Option.map_eq_some_iff.mp h
        cases data with
        | none =>
            cases hq
            exact osaEfail_ne_osaSok
        | some buf =>
            simp only [osaTcpSndNonblockFd, hlen, if_true] at hq
            split at hq <;> cases hq <;> exact osaEfail_ne_osaSok

/-- A client with a free slot, and a caller with a block of `n` bytes. -/
def oneListed (n : ℕ) : Clients where
  list := listCreate
  handles := fun _ ↦ some ⟨5, .connect, true, oneSlot, true⟩
  mem := fun d ↦ if d = 3 then some (List.replicate n 0) else none

/-- A frame with another length is enqueued, and cannot be sent. -/
theorem not_deliverable {head : FrameHead}
    (hlen : (FrameHead.nFrameLength head.bytes).toNat = 0 ∨
      2 ^ 31 ≤ (FrameHead.nFrameLength head.bytes).toNat) : ¬ HeadDeliverable head := by
  intro hall
  generalize hn : (FrameHead.nFrameLength head.bytes).toNat = n at hlen
  obtain ⟨st, s', h', bufId, -, -, hf, hdelivers⟩ := hall (oneListed n) 0 3 7 1 _ []
    (List.replicate n 0) rfl oneSlot_conserved (by decide) (by decide) ⟨rfl, rfl, by simp [hn]⟩
  rw [hn] at hdelivers
  obtain ⟨run, buf, hsend, hok, -⟩ := hdelivers ⟨[.writable frameHeadSize], [.writable (n + 1)]⟩
    ⟨[.data frameHeadSize], true, true, [.data (n + 1)], 0⟩ 5 [] (by decide)
    ⟨by simp [SndEvent.taken, frameHeadSize], by simp [SndEvent.taken]⟩
    ⟨by simp [SndEvent.taken], by simp [SndEvent.taken]⟩
    ⟨⟨by simp [RcvEvent.patient, frameHeadSize], by simp, by simp [RcvEvent.bytes]; rfl⟩, rfl,
      ⟨by simp [RcvEvent.patient], by simp, by simp [RcvEvent.bytes]⟩⟩
  refine netSendBuf_fails ?_ hsend hok
  rw [hf.head.nFrameLength, toInt_nonpos_iff]
  simp only [hn]
  exact hlen

/-- What is enqueued is delivered exactly if its length is neither zero nor more than `int`
holds. -/
theorem head_deliverable_iff (head : FrameHead) : HeadDeliverable head ↔
    1 ≤ (FrameHead.nFrameLength head.bytes).toNat ∧
      (FrameHead.nFrameLength head.bytes).toNat < 2 ^ 31 := by
  constructor
  · intro hall
    by_contra hlen
    exact not_deliverable (by omega) hall
  · rintro ⟨hpos, hlt⟩ s c d a bufNum h holders bytes hh hpool hsocket hempty hpassed
    obtain ⟨st, s', hcall, -, -, -, h', hh', heff⟩ := serverFillBuf_spec hh hpool hpassed (a := a)
    obtain ⟨bufId, hf⟩ := heff.taken hsocket hempty
    exact ⟨st, s', h', bufId, hcall, hh', hf, hf.delivers hsocket hpassed.length hpos hlt⟩

/-- The length is zero: the frame is enqueued, and `net_send_buf` fails. -/
theorem zeroHead_not_deliverable : ¬ HeadDeliverable zeroHead := not_deliverable (by decide)

end OsaBase.Server
