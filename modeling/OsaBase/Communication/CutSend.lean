import OsaBase.Communication.Delivery
import OsaBase.Communication.RoundTrip

/-!
# A send that fails half-way

A call of the send functions that fails may leave a part of its frame on the wire, and neither the
call nor the ones after it close the connection. The receiver waits for the rest of the header or of
the payload and takes it from the next calls. It cannot do that exactly when the later calls put
fewer bytes on the wire than are missing.
-/

open Framing

namespace OsaBase

/-- The bytes that the receiver still waits for when `p` bytes of a frame have arrived: the rest of
the header, or the rest of the payload. -/
def missing (m : Msg) (p : ℕ) : ℕ :=
  if p < msgHeadSize then msgHeadSize - p else msgHeadSize + m.message.length - p

def wire (sent : List (Msg × SendRun)) : List UInt8 := sent.flatMap fun c ↦ c.2.sent

/-- After the first call that failed with a part of its frame on the wire, the later calls put fewer
bytes there than are missing. -/
def CutsHarmless (sent : List (Msg × SendRun)) : Prop :=
  ∀ pre m run post, sent = pre ++ (m, run) :: post →
    (∀ c ∈ pre, c.2.status = osaSok ∨ c.2.sent = []) → run.status ≠ osaSok → run.sent ≠ [] →
    (wire post).length < missing m run.sent.length

/-- A call put its frame on the wire, or a proper part of it. -/
def Sends (c : Msg × SendRun) : Prop :=
  (c.2.status = osaSok ∧ c.2.sent = c.1.frame.bytes) ∨
    (c.2.status ≠ osaSok ∧ ∃ k < c.1.frame.bytes.length, c.2.sent = c.1.frame.bytes.take k)

/-! ## What is on the wire -/

/-- A send that ends in the message has sent the whole header. -/
theorem take_frame_bytes {m : Msg} {p : ℕ} (hp : msgHeadSize ≤ p) :
    m.frame.bytes.take p = m.frame.head ++ m.message.take (p - msgHeadSize) := by
  have hhead : m.frame.head.length = msgHeadSize := m.frame.length_head
  have hp' : p = m.frame.head.length + (p - msgHeadSize) := by omega
  rw [Frame.bytes]
  conv_lhs => rw [hp']
  exact List.take_length_add_append _

theorem unfinished_of_missing {ms : List Msg} {m : Msg} {p : ℕ} {t : List UInt8} (hm : m ∈ ms)
    (hp : p < m.frame.bytes.length) (ht : t.length < missing m p) :
    Unfinished ms (m.frame.bytes.take p ++ t) := by
  have hbytes := m.length_bytes
  unfold missing at ht
  split at ht
  · apply Unfinished.head
    rw [List.length_append, List.length_take]
    omega
  · next hge =>
    rw [take_frame_bytes (not_lt.mp hge), List.append_assoc]
    apply Unfinished.body m hm
    rw [List.length_append, List.length_take]
    omega

/-- Under the condition the wire holds the frames of some of the messages, in order, and then an
unfinished rest. -/
theorem wire_of_cutsHarmless {sent : List (Msg × SendRun)} (hsends : ∀ c ∈ sent, Sends c)
    (hcuts : CutsHarmless sent) :
    ∃ (ms : List Msg) (t : List UInt8), ms.Sublist (sent.map Prod.fst) ∧
      Unfinished (sent.map Prod.fst) t ∧ wire sent = stream (ms.map Msg.frame) ++ t := by
  induction sent with
  | nil => exact ⟨[], [], List.Sublist.refl _, .head (by decide), rfl⟩
  | cons c sent ih =>
      obtain ⟨m, run⟩ := c
      have hrest : ∀ c ∈ sent, Sends c := fun c hc ↦ hsends c (List.mem_cons_of_mem _ hc)
      have hkeep : run.status = osaSok ∨ run.sent = [] → CutsHarmless sent := by
        rintro hrun pre m' run' post rfl hpre hfail hne
        refine hcuts ((m, run) :: pre) m' run' post rfl ?_ hfail hne
        intro c hc
        rcases List.mem_cons.mp hc with rfl | hc
        · exact hrun
        · exact hpre c hc
      rcases hsends (m, run) List.mem_cons_self with ⟨hok, hall⟩ | ⟨hfail, p, hp, hpart⟩
      · obtain ⟨ms, t, hsub, ht, hwire⟩ := ih hrest (hkeep (Or.inl hok))
        refine ⟨m :: ms, t, hsub.cons_cons m, ht.mono fun _ ↦ List.mem_cons_of_mem _, ?_⟩
        simp only at hall
        rw [wire, List.flatMap_cons, ← wire, hwire, hall]
        simp [stream, List.append_assoc]
      · simp only at hfail hpart
        by_cases hnil : run.sent = []
        · obtain ⟨ms, t, hsub, ht, hwire⟩ := ih hrest (hkeep (Or.inr hnil))
          refine ⟨ms, t, hsub.cons m, ht.mono fun _ ↦ List.mem_cons_of_mem _, ?_⟩
          rw [wire, List.flatMap_cons, ← wire, hwire, hnil, List.nil_append]
        · have hmiss := hcuts [] m run sent rfl (by simp) hfail hnil
          have hlen : run.sent.length = p := by
            rw [hpart, List.length_take]
            exact min_eq_left hp.le
          refine ⟨[], wire (( m, run) :: sent), List.nil_sublist _, ?_, rfl⟩
          rw [wire, List.flatMap_cons, ← wire, hpart]
          exact unfinished_of_missing List.mem_cons_self hp (hlen ▸ hmiss)

/-! ## What the receiver makes of it -/

variable {log : LoopLog} {fd : ℤ} {drops : ℤ → Bool} {sent : List (Msg × SendRun)}

/-- What the callback got is a part of what was passed to the calls, in order, and every header
looked at is the header of one call. -/
structure Uncorrupted (sent : List (Msg × SendRun)) (run : LoopRun) : Prop where
  pairs : (run.dealt.map CallbackMsg.pair).Sublist (sent.map fun c ↦ c.1.pair)
  heads : ∀ h, .checkHead h ∈ run.acts → ∃ c ∈ sent, h = c.1.frame.head

theorem uncorrupted (hfd : 0 ≤ fd) (hsends : ∀ c ∈ sent, Sends c) (hcuts : CutsHarmless sent)
    {turns : List TurnSchedule} (hkeeps : ∀ es ∈ turns, KeepsPlace msgKind log fd drops es) :
    Uncorrupted sent (recvLoop msgKind log drops fd turns (wire sent)) := by
  obtain ⟨ms, t, hsub, ht, hwire⟩ := wire_of_cutsHarmless hsends hcuts
  rw [hwire]
  obtain ⟨hdealt, hheads⟩ := @dealt_of_wire log fd drops ms _ t turns hfd hkeeps ht
  constructor
  · apply hdealt.sublist.trans
    have hcalls := hsub.map Msg.pair
    rw [List.map_map] at hcalls
    exact hcalls
  · intro h hh
    obtain ⟨m, hm, rfl⟩ := hheads h hh
    have hmem : m ∈ sent.map Prod.fst := hm.elim (fun hm ↦ hsub.subset hm) id
    obtain ⟨c, hc, rfl⟩ := List.mem_map.mp hmem
    exact ⟨c, hc, rfl⟩

/-! ## What happens otherwise -/

/-- The loop looked at a header, or handed on a payload, that is put together of the bytes `bs`. -/
def PutTogether (acts : List LoopAct) (bs : List UInt8) : Prop :=
  .checkHead bs ∈ acts ∨ ∃ d, .deal d ∈ acts ∧ d.head ++ d.pair.2 = bs

/-- What a failed call left on the wire was completed with bytes of the calls after it. -/
def Mixes (sent : List (Msg × SendRun)) (acts : List LoopAct) : Prop :=
  ∃ pre m run post, sent = pre ++ (m, run) :: post ∧ run.status ≠ osaSok ∧ run.sent ≠ [] ∧
    missing m run.sent.length ≤ (wire post).length ∧
    PutTogether acts (run.sent ++ (wire post).take (missing m run.sent.length))

/-- The schedule of a turn on a whole message, which the application takes. -/
def Msg.turn (m : Msg) : TurnSchedule :=
  ⟨[.data msgHeadSize], true, true, [.data m.message.length], 0⟩

theorem serves_data {n : ℕ} (hpos : 0 < n) : Serves n [.data n] where
  patient := by simpa [RcvEvent.patient] using hpos
  timeouts := by simp
  enough := by simp [RcvEvent.bytes]

theorem Msg.turn_serves (m : Msg) : m.turn.Serves msgKind m.message.length where
  head := serves_data (by decide)
  alloc := rfl
  load := serves_data m.length_pos

theorem wire_of_whole {pre : List (Msg × SendRun)} (hsends : ∀ c ∈ pre, Sends c)
    (hwhole : ∀ c ∈ pre, c.2.status = osaSok ∨ c.2.sent = []) :
    ∃ ms : List Msg, wire pre = stream (ms.map Msg.frame) := by
  induction pre with
  | nil => exact ⟨[], rfl⟩
  | cons c pre ih =>
      obtain ⟨ms, hms⟩ := ih (fun c hc ↦ hsends c (List.mem_cons_of_mem _ hc))
        fun c hc ↦ hwhole c (List.mem_cons_of_mem _ hc)
      rcases hwhole c List.mem_cons_self with hok | hnil
      · refine ⟨c.1 :: ms, ?_⟩
        rcases hsends c List.mem_cons_self with ⟨-, hall⟩ | ⟨hfail, -⟩
        · rw [wire, List.flatMap_cons, ← wire, hms, hall]
          rfl
        · exact (hfail hok).elim
      · exact ⟨ms, by rw [wire, List.flatMap_cons, ← wire, hms, hnil, List.nil_append]⟩

/-- The turn after the whole messages completes the cut frame with the next bytes. -/
theorem putTogether_of_cut (hfd : 0 ≤ fd) {m : Msg} {p : ℕ} (hp : p < m.frame.bytes.length)
    {later : List UInt8} (henough : missing m p ≤ later.length) :
    PutTogether (recvLoop msgKind log drops fd [m.turn] (m.frame.bytes.take p ++ later)).acts
      (m.frame.bytes.take p ++ later.take (missing m p)) := by
  have hbytes := m.length_bytes
  have hhead : m.frame.head.length = msgHeadSize := m.frame.length_head
  have hplen : (m.frame.bytes.take p).length = p := by
    rw [List.length_take]
    omega
  have hst : m.frame.bytes.take p ++ later =
      (m.frame.bytes.take p ++ later.take (missing m p)) ++ later.drop (missing m p) := by
    rw [List.append_assoc, List.take_append_drop]
  have htake : (later.take (missing m p)).length = missing m p := by
    rw [List.length_take]
    omega
  by_cases hlt : p < msgHeadSize
  · left
    apply turn_acts_subset
    rw [hst]
    have hmix : (m.frame.bytes.take p ++ later.take (missing m p)).length =
        msgKind.format.headSize := by
      rw [List.length_append, hplen, htake, missing, if_pos hlt]
      exact Nat.add_sub_cancel' hlt.le
    have harr : msgKind.format.headSize ≤ ((m.frame.bytes.take p ++ later.take (missing m p)) ++
        later.drop (missing m p)).length := by
      rw [List.length_append, hmix]
      exact Nat.le_add_right _ _
    exact checkHead_mem_of_arrives hfd hmix (m.turn_serves.head.arrives harr)
  · right
    have hsplit := take_frame_bytes (m := m) (not_lt.mp hlt)
    have hbody : (m.message.take (p - msgHeadSize) ++ later.take (missing m p)).length =
        m.message.length := by
      rw [List.length_append, htake, missing, if_neg hlt, List.length_take]
      omega
    let g : Frame msgKind.format :=
      ⟨m.frame.head, m.message.take (p - msgHeadSize) ++ later.take (missing m p),
        m.frame.length_head, m.frame.ok, hbody.trans m.frame.length_body⟩
    have hserves : m.turn.Serves msgKind g.body.length := by
      simp only [g, hbody]
      exact m.turn_serves
    obtain ⟨buf, hbuf, hturn⟩ := recvTurn_of_brings _ hfd
      (hserves.brings (s := later.drop (missing m p)) (by simp only [g, hbody]; exact m.length_pos))
    refine ⟨⟨.msgType, m.frame.head, buf⟩, ?_, ?_⟩
    · apply turn_acts_subset
      have hst' : m.frame.bytes.take p ++ later =
          g.head ++ (g.body ++ later.drop (missing m p)) := by
        rw [hst, hsplit]
        simp only [g, List.append_assoc]
      rw [hst', hturn]
      simp [TurnEnd.acts, g, msgKind, Msg.turn]
    · have hlen : (MsgHead.ofBytes m.frame.head).loadLen.toInt.toNat = m.message.length :=
        m.frame.length_body.symm
      rw [hsplit, CallbackMsg.pair, hlen, List.append_assoc]
      simp only [g, hbody] at hbuf
      exact congrArg _ hbuf

theorem mixes_of_not_harmless (hfd : 0 ≤ fd) (hdrops : drops osaSok = false)
    (hsends : ∀ c ∈ sent, Sends c) (hcuts : ¬ CutsHarmless sent) :
    ∃ turns, Mixes sent (recvLoop msgKind log drops fd turns (wire sent)).acts := by
  unfold CutsHarmless at hcuts
  push Not at hcuts
  obtain ⟨pre, m, run, post, rfl, hwhole, hfail, hne, henough⟩ := hcuts
  obtain ⟨ms, hms⟩ := wire_of_whole (fun c hc ↦ hsends c (List.mem_append_left _ hc)) hwhole
  have hserves : List.Forall₂ (fun m es ↦ TurnSchedule.Serves es msgKind m.message.length ∧
      log.goesOn es.dealRet m.frame.head = true) ms (ms.map Msg.turn) :=
    List.forall₂_map_right_iff.mpr (List.forall₂_same.mpr fun m _ ↦ ⟨m.turn_serves, rfl⟩)
  have hst : wire (pre ++ (m, run) :: post) =
      stream (ms.map Msg.frame) ++ (run.sent ++ wire post) := by
    rw [← hms, wire, List.flatMap_append, List.flatMap_cons]
    rfl
  obtain ⟨acts, -, hacts⟩ := recvLoop_of_serves hdrops hfd hserves [m.turn] (run.sent ++ wire post)
  refine ⟨ms.map Msg.turn ++ [m.turn], pre, m, run, post, rfl, hfail, hne, henough, ?_⟩
  rw [hst, hacts]
  rcases hsends (m, run) (by simp) with ⟨hok, -⟩ | ⟨-, p, hp, hpart⟩
  · exact (hfail hok).elim
  · simp only at hpart
    have hlen : run.sent.length = p := by
      rw [hpart, List.length_take]
      exact min_eq_left hp.le
    rw [hlen] at henough ⊢
    rw [hpart]
    rcases @putTogether_of_cut log fd drops hfd m p hp (wire post) henough with hhead | ⟨d, hd, hbs⟩
    · exact Or.inl (List.mem_append_right _ hhead)
    · exact Or.inr ⟨d, List.mem_append_right _ hd, hbs⟩

/-! ## Both directions -/

theorem sends_of_sendMsg {socket : ℤ}
    (h : ∀ c ∈ sent, ∃ es,
      sendMsg socket (some c.1.message) c.1.message.length c.1.code es = some c.2) :
    ∀ c ∈ sent, Sends c := by
  intro c hc
  obtain ⟨es, hes⟩ := h c hc
  exact sendMsg_sends c.1 hes

/-- Failed sends corrupt nothing as long as the later calls put fewer bytes on the wire than the
receiver misses; with as many or more, it can complete the cut frame with their bytes. -/
theorem cut_sends_harmless_iff (sent : List (Msg × SendRun)) (fd : ℤ) (hfd : 3 ≤ fd) :
    (∀ (logFun : LogFun) (handle : OsaClientHandle),
      (∀ c ∈ sent, ∃ es, osaClientSendMsg handle (some c.1.message) c.1.message.length c.1.code es =
        some c.2) →
      (CutsHarmless sent →
        ∀ turns, Uncorrupted sent (osaProcessClientLoop logFun fd turns (wire sent))) ∧
      (¬ CutsHarmless sent →
        ∃ turns, Mixes sent (osaProcessClientLoop logFun fd turns (wire sent)).acts)) ∧
    ∀ (pOprHandle : OsaCliOpreateHandle) (reconFlag : ℤ),
      (∀ c ∈ sent, ∃ es, osaServerSendMsg pOprHandle (some c.1.message) c.1.message.length c.1.code
        es = some c.2) →
      (CutsHarmless sent → ∀ turns, (reconFlag = 1 ∨ ∀ es ∈ turns, es.Gentle) →
        Uncorrupted sent (osaClientProcessLoop .msgType reconFlag fd turns (wire sent))) ∧
      (¬ CutsHarmless sent →
        ∃ turns,
          Mixes sent (osaClientProcessLoop .msgType reconFlag fd turns (wire sent)).acts) := by
  have hfd' : 0 ≤ fd := by omega
  constructor
  · intro logFun handle hsent
    have hsends := sends_of_sendMsg hsent
    constructor
    · intro hcuts turns
      exact uncorrupted hfd' hsends hcuts fun es _ ↦
        keepsPlace_of_drops (fun ret hret ↦ by simpa [osaSok] using hret) es
    · exact mixes_of_not_harmless hfd' (by decide) hsends
  · intro pOprHandle reconFlag hsent
    have hsends := sends_of_sendMsg hsent
    constructor
    · rintro hcuts turns (rfl | hgentle)
      · exact uncorrupted hfd' hsends hcuts fun es _ ↦
          keepsPlace_of_drops (fun ret hret ↦ by simpa [osaSok] using hret) es
      · exact uncorrupted hfd' hsends hcuts fun es hes ↦ (hgentle es hes).keepsPlace hfd'
    · exact mixes_of_not_harmless hfd' (by simp [osaSok]) hsends

/-- The payload of the first message is not sent; the receiver takes the first byte of the next
header for it. -/
theorem cut_send_corrupts_payload :
    ¬ ∀ (logFun : LogFun) (handle : OsaClientHandle) (sent : List (Msg × SendRun)) (fd : ℤ)
        (turns : List TurnSchedule), 3 ≤ fd →
      (∀ c ∈ sent, ∃ es, osaClientSendMsg handle (some c.1.message) c.1.message.length c.1.code es =
        some c.2) →
      ((osaProcessClientLoop logFun fd turns (wire sent)).dealt.map CallbackMsg.pair).Sublist
        (sent.map fun c ↦ c.1.pair) := by
  intro h
  have hsub := h (fun _ _ ↦ false) ⟨4⟩
    [(⟨1, [65], by decide, by decide⟩, ⟨osaEfail, (sendHead 1 1).bytes⟩),
      (⟨2, [66], by decide, by decide⟩, ⟨osaSok, (sendHead 1 2).bytes ++ [66]⟩)] 5
    [⟨[.data 16], true, true, [.data 1], 0⟩] (by decide) (by
      intro c hc
      simp only [List.mem_cons, List.not_mem_nil, or_false] at hc
      rcases hc with rfl | rfl
      · exact ⟨⟨[.writable 16], [.selectError]⟩, by decide⟩
      · exact ⟨⟨[.writable 16], [.writable 1]⟩, by decide⟩)
  revert hsub
  decide

/-- A send that failed with five bytes of its payload on the wire, and the next message, which is
shorter than what is missing: the message before them is all that is handed on. -/
theorem cut_sends_harmless_partly_sent :
    Uncorrupted [(⟨3, [67], by decide, by decide⟩, ⟨osaSok, (sendHead 1 3).bytes ++ [67]⟩),
        (⟨1, List.replicate 40 65, by decide, by decide⟩,
          ⟨osaEfail, (sendHead 40 1).bytes ++ List.replicate 5 65⟩),
        (⟨2, [66], by decide, by decide⟩, ⟨osaSok, (sendHead 1 2).bytes ++ [66]⟩)]
      (osaProcessClientLoop (fun _ _ ↦ false) 5 [⟨[.data 16], true, true, [.data 1], 0⟩,
          ⟨[.data 16], true, true, [.data 40, .closed], 0⟩]
        (((sendHead 1 3).bytes ++ [67]) ++ (((sendHead 40 1).bytes ++ List.replicate 5 65) ++
          ((sendHead 1 2).bytes ++ [66])))) := by
  have hsent := (cut_sends_harmless_iff
    [(⟨3, [67], by decide, by decide⟩, ⟨osaSok, (sendHead 1 3).bytes ++ [67]⟩),
      (⟨1, List.replicate 40 65, by decide, by decide⟩,
        ⟨osaEfail, (sendHead 40 1).bytes ++ List.replicate 5 65⟩),
      (⟨2, [66], by decide, by decide⟩, ⟨osaSok, (sendHead 1 2).bytes ++ [66]⟩)] 5
    (by decide)).1 (fun _ _ ↦ false) ⟨4⟩
  apply (hsent _).1
  · rintro (_ | ⟨c, _ | ⟨c', _ | ⟨c'', pre⟩⟩⟩) m run post hsplit _ hfail hne
    · cases hsplit
      exact absurd rfl hfail
    · cases hsplit
      decide
    · cases hsplit
      exact absurd rfl hfail
    · simp at hsplit
  · intro c hc
    simp only [List.mem_cons, List.not_mem_nil, or_false] at hc
    rcases hc with rfl | rfl | rfl
    · exact ⟨⟨[.writable 16], [.writable 1]⟩, by decide⟩
    · exact ⟨⟨[.writable 16], [.writable 5, .selectError]⟩, by decide⟩
    · exact ⟨⟨[.writable 16], [.writable 1]⟩, by decide⟩

end OsaBase
