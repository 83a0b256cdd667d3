import OsaBase.Communication.Receive
import OsaBase.Communication.SendMsg

/-!
# What the message loop hands on

A stream of whole messages that ends in the middle of one is handed on up to its last whole message,
whatever the receives bring, if no receive that loses bytes is outlived.
-/

open Framing

namespace OsaBase

/-- The code and the payload of a message, as the callback sees them. -/
def CallbackMsg.pair (dealmsg : CallbackMsg) : BitVec 32 × List UInt8 :=
  ((MsgHead.ofBytes dealmsg.head).msgCode,
    dealmsg.recvValue.take (MsgHead.ofBytes dealmsg.head).loadLen.toInt.toNat)

def Msg.pair (m : Msg) : BitVec 32 × List UInt8 := (m.code, m.message)

theorem Msg.length_bytes (m : Msg) : m.frame.bytes.length = msgHeadSize + m.message.length := by
  rw [Msg.bytes_frame, List.length_append, length_sendHead_bytes]

/-- What a cut frame of one of the messages `ms` and fewer bytes than it misses look like to a
reader. -/
inductive Unfinished (ms : List Msg) : List UInt8 → Prop
  | head {t : List UInt8} (hshort : t.length < msgHeadSize) : Unfinished ms t
  | body (m : Msg) {t : List UInt8} (hm : m ∈ ms) (hshort : t.length < m.message.length) :
      Unfinished ms (m.frame.head ++ t)

theorem Unfinished.mono {ms ms' : List Msg} {t : List UInt8} (h : Unfinished ms t)
    (hsub : ∀ m ∈ ms, m ∈ ms') : Unfinished ms' t := by
  cases h with
  | head hshort => exact .head hshort
  | body m hm hshort => exact .body m (hsub m hm) hshort

theorem actions_of_unfinished {ms : List Msg} {t r : List UInt8} {acts : List (Action UInt8)}
    (ht : Unfinished ms t) (h : Scan msgFormat t acts r) :
    acts = [] ∨ ∃ m ∈ ms, acts = [.head m.frame.head] := by
  cases ht with
  | head hshort => exact Or.inl (h.eq_nil_of_short hshort)
  | body m hm hshort =>
      have hpre := h.prefix_of_short_body m.frame.length_head m.frame.ok
        (m.frame.length_body ▸ hshort)
      rcases List.prefix_cons_iff.mp hpre with hnil | ⟨acts', rfl, hpre'⟩
      · exact Or.inl hnil
      · rw [List.prefix_nil.mp hpre']
        exact Or.inr ⟨m, hm, rfl⟩

/-- A reader of whole frames with an unfinished rest behind them looks at headers of the messages
and hands on some of the first bodies. -/
theorem actions_of_wire {ms ms' : List Msg} {t r : List UInt8} {acts : List (Action UInt8)}
    (ht : Unfinished ms' t) (h : Scan msgFormat (stream (ms.map Msg.frame) ++ t) acts r) :
    (bodies acts <+: ms.map fun m ↦ (m.frame.head, m.message)) ∧
      ∀ h, .head h ∈ acts → ∃ m, (m ∈ ms ∨ m ∈ ms') ∧ h = m.frame.head := by
  have hframes :
      bodies (actions (ms.map Msg.frame)) = ms.map fun m ↦ (m.frame.head, m.message) := by
    rw [bodies_actions, List.map_map]
    rfl
  have hheads : ∀ h, .head h ∈ actions (ms.map Msg.frame) →
      ∃ m, (m ∈ ms ∨ m ∈ ms') ∧ h = m.frame.head := by
    intro h hh
    obtain ⟨f, hf, hact⟩ := List.mem_flatMap.mp hh
    obtain ⟨m, hm, rfl⟩ := List.mem_map.mp hf
    refine ⟨m, Or.inl hm, ?_⟩
    simpa [Frame.actions] using hact
  rw [← hframes]
  rcases h.of_stream with hpre | ⟨acts', rfl, hrest⟩
  · exact ⟨bodies_mono hpre, fun h hh ↦ hheads h (hpre.subset hh)⟩
  · rcases actions_of_unfinished ht hrest with rfl | ⟨m, hm, rfl⟩
    · rw [List.append_nil]
      exact ⟨List.prefix_rfl, hheads⟩
    · constructor
      · simp
      · intro h hh
        rcases List.mem_append.mp hh with hh | hh
        · exact hheads h hh
        · exact ⟨m, Or.inr hm, by simpa using hh⟩

/-- The pairs at the callback are the bodies that the loop handed on. -/
theorem map_pair_dealt (run : LoopRun) :
    run.dealt.map CallbackMsg.pair = (bodies (run.acts.map msgKind.view)).map fun b ↦
      ((MsgHead.ofBytes b.1).msgCode, b.2) := by
  obtain ⟨acts, stop⟩ := run
  induction acts with
  | nil => rfl
  | cons a acts ih =>
      cases a with
      | checkHead h => exact ih
      | deal d => exact congrArg (d.pair :: ·) ih

theorem Msg.pair_eq (m : Msg) :
    ((MsgHead.ofBytes m.frame.head).msgCode, m.message) = m.pair := by
  simp only [Msg.frame, msgFrame, ofBytes_sendHead]
  rfl

variable {log : LoopLog} {fd : ℤ} {drops : ℤ → Bool}

/-- The pairs at the callback are those of the first messages, and the headers looked at are
headers of messages. -/
theorem dealt_of_wire {ms ms' : List Msg} {t : List UInt8} {turns : List TurnSchedule}
    (hfd : 0 ≤ fd) (hkeeps : ∀ es ∈ turns, KeepsPlace msgKind log fd drops es)
    (ht : Unfinished ms' t) :
    let run := recvLoop msgKind log drops fd turns (stream (ms.map Msg.frame) ++ t)
    (run.dealt.map CallbackMsg.pair <+: ms.map Msg.pair) ∧
      ∀ h, .checkHead h ∈ run.acts → ∃ m, (m ∈ ms ∨ m ∈ ms') ∧ h = m.frame.head := by
  intro run
  obtain ⟨r, hscan⟩ := @recvLoop_scan msgKind log fd drops hfd turns hkeeps
    (stream (ms.map Msg.frame) ++ t)
  obtain ⟨hbodies, hheads⟩ := actions_of_wire ht hscan
  constructor
  · rw [map_pair_dealt]
    have hpre := hbodies.map fun b : List UInt8 × List UInt8 ↦
      ((MsgHead.ofBytes b.1).msgCode, b.2)
    have hpairs : ms.map ((fun b : List UInt8 × List UInt8 ↦
        ((MsgHead.ofBytes b.1).msgCode, b.2)) ∘ fun m ↦ (m.frame.head, m.message)) =
          ms.map Msg.pair := List.map_congr_left fun m _ ↦ m.pair_eq
    rw [List.map_map, hpairs] at hpre
    exact hpre
  · intro h hh
    exact hheads h (List.mem_map.mpr ⟨_, hh, rfl⟩)

/-! ## Receives that fail -/

/-- Neither an error nor the end of the connection nor a third timeout. -/
def Patience (es : List RcvEvent) : Prop :=
  (∀ e ∈ es, e.patient = true) ∧ es.count .timeout < 3

/-- The receive of a header may fail when it brought nothing; nothing else fails. -/
structure TurnSchedule.Gentle (es : TurnSchedule) : Prop where
  head : Patience es.head ∨ ∀ e ∈ es.head, e.bytes = 0
  alloc : es.alloc = true
  load : Patience es.load

theorem osaTcpRcvBlockFd_patience {len : ℤ} {buf stream : List UInt8} {es : List RcvEvent}
    {r : RcvResult} (hfd : 0 ≤ fd) (hlen : 0 < len) (hes : Patience es)
    (h : osaTcpRcvBlockFd fd (some buf) len stream es = some r) : r.status = osaSok := by
  have hfd' : ¬ fd < 0 := by omega
  have hlen' : ¬ len ≤ 0 := by omega
  simp only [osaTcpRcvBlockFd, hfd', hlen', if_false] at h
  exact (rcvReturns h).sok_of_patient hes.1 (by simpa using hes.2)

theorem osaTcpRcvBlockFd_noData {len : ℤ} {buf stream : List UInt8} {es : List RcvEvent}
    {r : RcvResult} (hes : ∀ e ∈ es, e.bytes = 0)
    (h : osaTcpRcvBlockFd fd (some buf) len stream es = some r) : r.stream = stream := by
  simp only [osaTcpRcvBlockFd] at h
  split at h
  · cases h
    rfl
  · split at h
    · cases h
      rfl
    · exact (rcvReturns h).stream_of_noData hes

theorem TurnSchedule.Gentle.keepsPlace {es : TurnSchedule} (hfd : 0 ≤ fd) (hes : es.Gentle) :
    KeepsPlace msgKind log fd drops es := by
  intro s ret acts s' hturn hret
  right
  unfold recvTurn at hturn
  cases hrcv : osaTcpRcvBlockFd fd (some (List.replicate msgKind.format.headSize 0))
      msgKind.format.headSize s es.head with
  | none =>
      rw [hrcv] at hturn
      cases hturn
  | some r =>
      rw [hrcv] at hturn
      simp only at hturn
      split at hturn
      · next hfail =>
        cases hturn
        rcases hes.head with hpat | hnone
        · exact (hfail (osaTcpRcvBlockFd_patience hfd (by decide) hpat hrcv)).elim
        · exact ⟨rfl, osaTcpRcvBlockFd_noData hnone hrcv⟩
      · next hok =>
        split at hturn
        · cases hturn
          exact (hret (not_not.mp hok)).elim
        · next hgood =>
          have hpos : 0 < msgKind.recvLen r.rcvBuf := by
            have hcheck : clientCheckMsgHead (.ofBytes r.rcvBuf) = 0 := not_not.mp hgood
            unfold clientCheckMsgHead at hcheck
            split at hcheck
            · cases hcheck
            · split at hcheck
              · cases hcheck
              · next hlen => exact not_le.mp hlen
          obtain ⟨buf, hbuf⟩ := Option.ne_none_iff_exists'.mp
            (msgKind.tmpMsg_of_alloc (msgKind.recvLen r.rcvBuf))
          simp only [loadTurn, hes.alloc, hbuf, reduceCtorEq, false_and, if_false] at hturn
          split at hturn
          · cases hturn
          · next q hq =>
            have hqok := osaTcpRcvBlockFd_patience hfd hpos hes.load hq
            rw [if_neg (not_not.mpr hqok)] at hturn
            split at hturn
            · cases hturn
              exact (hret hqok).elim
            · cases hturn

theorem keepsPlace_of_drops (hdrops : ∀ ret, ret ≠ osaSok → drops ret = true)
    (es : TurnSchedule) : KeepsPlace msgKind log fd drops es :=
  fun _ ret _ _ _ hret ↦ Or.inl (hdrops ret hret)

end OsaBase
