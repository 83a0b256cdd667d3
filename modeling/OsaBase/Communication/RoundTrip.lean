import Mathlib.Data.List.Forall2
import OsaBase.Communication.Receive
import OsaBase.Communication.SendMsg

/-!
# Messages arrive as they were sent

Between a sender whose calls all succeed and the message loop of its peer lies a byte stream that
both may cut at any place. The calls put whole frames on it; a turn whose receives are served takes
one frame off. The loop of the server goes on behind a message that `dealFun` refused only if the
report of it comes back.
-/

open Framing

namespace OsaBase

variable {k : HeadKind} {log : LoopLog} {fd : ℤ} {s : List UInt8}

/-- The answers that serve one turn on a frame with a body of `n` bytes. -/
structure TurnSchedule.Serves (es : TurnSchedule) (k : HeadKind) (n : ℕ) : Prop where
  head : OsaBase.Serves k.format.headSize es.head
  alloc : es.alloc = true
  load : OsaBase.Serves n es.load

theorem TurnSchedule.Serves.brings {es : TurnSchedule} {f : Frame k.format}
    (h : es.Serves k f.body.length) (hpos : 0 < f.body.length) : es.Brings f s where
  head := h.head.arrives (by simp [f.length_head])
  buffer := h.alloc ▸ k.tmpMsg_of_alloc _
  pos := hpos
  load := h.load.arrives (by simp)

/-! ## A run of served turns -/

/-- The callback got the message and its code. -/
structure CallbackMsg.Carries (dealmsg : CallbackMsg) (m : Msg) : Prop where
  clientType : dealmsg.clientType = .msgType
  msgCode : (MsgHead.ofBytes dealmsg.head).msgCode = m.code
  loadLen : (MsgHead.ofBytes dealmsg.head).loadLen.toInt = m.message.length
  recvValue : dealmsg.recvValue.take m.message.length = m.message

/-- A loop on a stream too short for a header does nothing. -/
theorem recvLoop_short {drops : ℤ → Bool} (hfd : 0 ≤ fd) (envs : List TurnSchedule)
    (hshort : s.length < k.format.headSize) : (recvLoop k log drops fd envs s).acts = [] := by
  induction envs generalizing s with
  | nil => rfl
  | cons es rest ih =>
      have hnot : ∀ {h t : List UInt8}, h.length = k.format.headSize → s ≠ h ++ t := by
        rintro h t hlen rfl
        rw [List.length_append] at hshort
        omega
      have hcases := recvTurn_cases hfd k log es s
      simp only [recvLoop]
      generalize recvTurn k log fd es s = e at hcases
      cases hcases with
      | noHead => rfl
      | headFails ret s' _ hsuf =>
          simp only
          split
          · rfl
          · rw [List.nil_append]
            exact ih (hsuf.length_le.trans_lt hshort)
      | badHead h s' hlen hs _ _ => exact (hnot hlen hs).elim
      | noLoad h s' hlen hs _ _ => exact (hnot hlen hs).elim
      | noKey h s' hlen hs _ _ => exact (hnot hlen hs).elim
      | loadFails h s' _ _ hlen hs _ _ _ _ => exact (hnot hlen hs).elim
      | loadCrashes h s' hlen hs _ _ => exact (hnot hlen hs).elim
      | deals f s' buf hs _ _ _ => exact (hnot f.length_head hs).elim
      | dealCrashes f s' buf hs _ _ _ => exact (hnot f.length_head hs).elim

@[simp] theorem Msg.msgCode_head (m : Msg) : (MsgHead.ofBytes m.frame.head).msgCode = m.code := by
  simp only [Msg.frame, msgFrame, ofBytes_sendHead]
  rfl

theorem Msg.carries_of_take {m : Msg} {buf : List UInt8}
    (h : buf.take m.message.length = m.message) :
    CallbackMsg.Carries ⟨.msgType, m.frame.head, buf⟩ m where
  clientType := rfl
  msgCode := m.msgCode_head
  loadLen := by
    simp only [Msg.frame, msgFrame, ofBytes_sendHead]
    exact sendHead_loadLen m.code m.length_lt
  recvValue := h

variable (log) in
/-- A served turn hands its message on, and the loop goes on behind it if the turn does. -/
theorem recvLoop_cons_of_serves {drops : ℤ → Bool} (hdrops : drops osaSok = false) (hfd : 0 ≤ fd)
    {m : Msg} {es : TurnSchedule} (hserves : es.Serves msgKind m.message.length)
    (rest : List TurnSchedule) (s : List UInt8) :
    ∃ d : CallbackMsg, d.Carries m ∧
      (recvLoop msgKind log drops fd (es :: rest) (m.frame.bytes ++ s)).acts =
        .checkHead m.frame.head :: .deal d ::
          if log.goesOn es.dealRet m.frame.head then (recvLoop msgKind log drops fd rest s).acts
          else [] := by
  have hbrings : es.Brings (k := msgKind) m.frame s :=
    TurnSchedule.Serves.brings hserves m.length_pos
  obtain ⟨buf, htake, hturn⟩ := recvTurn_of_brings log hfd hbrings
  refine ⟨⟨.msgType, m.frame.head, buf⟩, Msg.carries_of_take htake, ?_⟩
  rw [Frame.bytes, List.append_assoc, recvLoop, hturn]
  cases hgoes : log.goesOn es.dealRet m.frame.head with
  | false => rfl
  | true => simp [hdrops, msgKind]

/-- Every served turn that goes on hands one message on, in order, and the loop goes on behind
it. -/
theorem recvLoop_of_serves {drops : ℤ → Bool} (hdrops : drops osaSok = false) (hfd : 0 ≤ fd)
    {ms : List Msg} {turns : List TurnSchedule}
    (hserves : List.Forall₂ (fun m es ↦ es.Serves msgKind m.message.length ∧
      log.goesOn es.dealRet m.frame.head = true) ms turns)
    (more : List TurnSchedule) (s : List UInt8) :
    ∃ acts, List.Forall₂ (fun m d ↦ CallbackMsg.Carries d m) ms (LoopRun.dealt ⟨acts, .running⟩) ∧
      (recvLoop msgKind log drops fd (turns ++ more) (stream (ms.map Msg.frame) ++ s)).acts =
        acts ++ (recvLoop msgKind log drops fd more s).acts := by
  induction hserves with
  | nil => exact ⟨[], .nil, rfl⟩
  | @cons m es ms turns hm _ ih =>
      obtain ⟨acts, hacts, hrest⟩ := ih
      obtain ⟨d, hd, hloop⟩ := recvLoop_cons_of_serves log hdrops hfd hm.1
        (turns ++ more) (stream (ms.map Msg.frame) ++ s)
      refine ⟨.checkHead m.frame.head :: .deal d :: acts, .cons hd hacts, ?_⟩
      rw [if_pos hm.2, hrest] at hloop
      simpa [stream, List.append_assoc] using hloop

variable (log) in
/-- The loop hands all messages on exactly if it goes on behind each of them but the last. -/
theorem recvLoop_round_trip_iff {drops : ℤ → Bool} (hdrops : drops osaSok = false) (hfd : 0 ≤ fd)
    {ms : List Msg} {turns : List TurnSchedule}
    (hserves : List.Forall₂ (fun m es ↦ TurnSchedule.Serves es msgKind m.message.length) ms turns)
    (more : List TurnSchedule) :
    List.Forall₂ (fun m d ↦ CallbackMsg.Carries d m) ms
        (recvLoop msgKind log drops fd (turns ++ more) (stream (ms.map Msg.frame))).dealt ↔
      List.Forall₂ (fun m es ↦ log.goesOn es.dealRet m.frame.head = true) ms.dropLast
        turns.dropLast := by
  have hnil : (recvLoop msgKind log drops fd ([] ++ more)
      (stream (([] : List Msg).map Msg.frame))).dealt = [] := by
    rw [LoopRun.dealt, recvLoop_short hfd _ (by decide)]
    rfl
  induction hserves with
  | nil =>
      rw [hnil]
      exact iff_of_true .nil .nil
  | @cons m es ms turns hm hms ih =>
      obtain ⟨d, hd, hloop⟩ := recvLoop_cons_of_serves log hdrops hfd hm (turns ++ more)
        (stream (ms.map Msg.frame))
      have hdealt : (recvLoop msgKind log drops fd (es :: turns ++ more)
          (stream ((m :: ms).map Msg.frame))).dealt =
            d :: if log.goesOn es.dealRet m.frame.head then (recvLoop msgKind log drops fd
              (turns ++ more) (stream (ms.map Msg.frame))).dealt else [] := by
        have hst : stream ((m :: ms).map Msg.frame) =
            m.frame.bytes ++ stream (ms.map Msg.frame) := rfl
        rw [LoopRun.dealt, hst, List.cons_append, hloop]
        split <;> rfl
      rw [hdealt]
      cases hms with
      | nil =>
          rw [hnil, ite_self]
          exact iff_of_true (.cons hd .nil) .nil
      | cons hm' hms' =>
          simp only [List.dropLast_cons_cons, List.forall₂_cons]
          cases hgoes : log.goesOn es.dealRet m.frame.head with
          | false => simp
          | true =>
              simp only [if_true, true_and, ← ih]
              exact and_iff_right hd

/-! ## From the send functions to the callbacks -/

/-- The bytes of calls that all succeed are the frames of their messages. -/
theorem stream_of_sends {socket : ℤ} {calls : List (Msg × SendSchedule)} {runs : List SendRun}
    (h : List.Forall₂ (fun c run ↦
      sendMsg socket (some c.1.message) c.1.message.length c.1.code c.2 = some run ∧
        run.status = osaSok) calls runs) :
    runs.flatMap SendRun.sent = stream (calls.map fun c ↦ c.1.frame) := by
  induction h with
  | nil => rfl
  | @cons c run calls runs hc _ ih =>
      rcases sendMsg_sends c.1 hc.1 with ⟨-, hsent⟩ | ⟨hne, -⟩
      · rw [List.flatMap_cons, ih, hsent]
        rfl
      · exact (hne hc.2).elim

/-- The messages arrive exactly if the loop goes on behind each of them but the last. -/
theorem round_trip_iff {drops : ℤ → Bool} (hdrops : drops osaSok = false) (hfd : 0 ≤ fd)
    {socket : ℤ} {calls : List (Msg × SendSchedule)} {runs : List SendRun}
    {turns : List TurnSchedule}
    (hsent : List.Forall₂ (fun c run ↦
      sendMsg socket (some c.1.message) c.1.message.length c.1.code c.2 = some run ∧
        run.status = osaSok) calls runs)
    (hserves : List.Forall₂ (fun c es ↦ es.Serves msgKind c.1.message.length) calls turns)
    (more : List TurnSchedule) :
    List.Forall₂ (fun c d ↦ CallbackMsg.Carries d c.1) calls
        (recvLoop msgKind log drops fd (turns ++ more) (runs.flatMap SendRun.sent)).dealt ↔
      List.Forall₂ (fun c es ↦ log.goesOn es.dealRet c.1.frame.head = true) calls.dropLast
        turns.dropLast := by
  have hms : List.Forall₂ (fun m es ↦ TurnSchedule.Serves es msgKind m.message.length)
      (calls.map Prod.fst) turns := List.forall₂_map_left_iff.mpr hserves
  have hiff := recvLoop_round_trip_iff log hdrops hfd hms more
  rw [List.map_map, ← List.map_dropLast, List.forall₂_map_left_iff,
    List.forall₂_map_left_iff] at hiff
  rw [stream_of_sends hsent]
  exact hiff

/-- What keeps the server's loop going behind a message: `dealFun` takes it, or the report that it
does not comes back. -/
def Outlived (logFun : LogFun) (m : Msg) (es : TurnSchedule) : Prop :=
  es.dealRet = 0 ∨ logFun "%s %d dealCmd is failed,the msg_code is [%d],\n" [m.code.toInt] = true

theorem goesOn_iff_outlived (logFun : LogFun) (m : Msg) (es : TurnSchedule) :
    (osaProcessClientLog logFun).goesOn es.dealRet m.frame.head = true ↔ Outlived logFun m es := by
  simp [LoopLog.goesOn, osaProcessClientLog, Outlived]

/-- Messages sent with success arrive exactly once, in order and unchanged, for every cutting of the
stream: at the server exactly if its loop outlives each of them but the last, and always at the
client. -/
theorem msg_round_trip_iff (calls : List (Msg × SendSchedule)) (runs : List SendRun) (fd : ℤ)
    (hfd : 3 ≤ fd) (turns more : List TurnSchedule)
    (hserves : List.Forall₂ (fun c es ↦ es.Serves msgKind c.1.message.length) calls turns) :
    (∀ (logFun : LogFun) (handle : OsaClientHandle),
      List.Forall₂ (fun c run ↦ osaClientSendMsg handle (some c.1.message) c.1.message.length
        c.1.code c.2 = some run ∧ run.status = osaSok) calls runs →
      (List.Forall₂ (fun c d ↦ CallbackMsg.Carries d c.1) calls
          (osaProcessClientLoop logFun fd (turns ++ more) (runs.flatMap SendRun.sent)).dealt ↔
        List.Forall₂ (fun c es ↦ Outlived logFun c.1 es) calls.dropLast turns.dropLast)) ∧
    ∀ (pOprHandle : OsaCliOpreateHandle) (reconFlag : ℤ),
      List.Forall₂ (fun c run ↦ osaServerSendMsg pOprHandle (some c.1.message) c.1.message.length
        c.1.code c.2 = some run ∧ run.status = osaSok) calls runs →
      List.Forall₂ (fun c d ↦ CallbackMsg.Carries d c.1) calls
        (osaClientProcessLoop .msgType reconFlag fd (turns ++ more)
          (runs.flatMap SendRun.sent)).dealt := by
  have hfd' : 0 ≤ fd := by omega
  constructor
  · intro logFun handle hsent
    simp only [← goesOn_iff_outlived]
    exact round_trip_iff (by decide) hfd' hsent hserves more
  · intro pOprHandle reconFlag hsent
    refine (round_trip_iff (by simp [osaSok]) hfd' hsent hserves more).mpr ?_
    have hlen : calls.dropLast.length = turns.dropLast.length := by
      rw [List.length_dropLast, List.length_dropLast, hserves.length_eq]
    exact List.forall₂_iff_zip.mpr ⟨hlen, fun _ ↦ osaClientProcessLog_goesOn _ _⟩

/-- `dealFun` refuses the first of two messages, and the report of it, which lacks two arguments,
does not come back: the second message is never handed on. -/
theorem msg_lost_behind_report :
    ¬ ∀ (logFun : LogFun) (handle : OsaClientHandle) (calls : List (Msg × SendSchedule))
        (runs : List SendRun) (fd : ℤ) (turns : List TurnSchedule), 3 ≤ fd →
      List.Forall₂ (fun c es ↦ es.Serves msgKind c.1.message.length) calls turns →
      List.Forall₂ (fun c run ↦ osaClientSendMsg handle (some c.1.message) c.1.message.length
        c.1.code c.2 = some run ∧ run.status = osaSok) calls runs →
      List.Forall₂ (fun c d ↦ CallbackMsg.Carries d c.1) calls
        (osaProcessClientLoop logFun fd turns (runs.flatMap SendRun.sent)).dealt := by
  intro h
  have hgoes : ∀ (calls : List (Msg × SendSchedule)) (runs : List SendRun)
      (turns : List TurnSchedule),
      List.Forall₂ (fun c es ↦ es.Serves msgKind c.1.message.length) calls turns →
      List.Forall₂ (fun c run ↦ osaClientSendMsg ⟨4⟩ (some c.1.message) c.1.message.length
        c.1.code c.2 = some run ∧ run.status = osaSok) calls runs →
      List.Forall₂ (fun c es ↦ (osaProcessClientLog fun _ _ ↦ false).goesOn es.dealRet
        c.1.frame.head = true) calls.dropLast turns.dropLast := by
    intro calls runs turns hserves hsent
    have hall := h (fun _ _ ↦ false) ⟨4⟩ calls runs 5 turns (by decide) hserves hsent
    rw [← List.append_nil turns] at hall
    exact (round_trip_iff (by decide) (by decide) hsent hserves []).mp hall
  have hfirst := hgoes
    [(⟨1, [65], by decide, by decide⟩, ⟨[.writable 16], [.writable 1]⟩),
      (⟨2, [66], by decide, by decide⟩, ⟨[.writable 16], [.writable 1]⟩)]
    [⟨osaSok, (sendHead 1 1).bytes ++ [65]⟩, ⟨osaSok, (sendHead 1 2).bytes ++ [66]⟩]
    [⟨[.data 16], true, true, [.data 1], -1⟩, ⟨[.data 16], true, true, [.data 1], 0⟩]
    (.cons ⟨⟨by decide, by decide, by decide⟩, rfl, by decide, by decide, by decide⟩
      (.cons ⟨⟨by decide, by decide, by decide⟩, rfl, by decide, by decide, by decide⟩ .nil))
    (.cons ⟨by decide, rfl⟩ (.cons ⟨by decide, rfl⟩ .nil))
  cases hfirst with
  | cons hbad _ => exact absurd hbad (by decide)

theorem dealt_pair {c₁ c₂ : Msg × SendSchedule} {ds : List CallbackMsg}
    (h : List.Forall₂ (fun c d ↦ CallbackMsg.Carries d c.1) [c₁, c₂] ds) :
    ∃ d₁ d₂, ds = [d₁, d₂] ∧ d₁.Carries c₁.1 ∧ d₂.Carries c₂.1 := by
  cases h with
  | cons h₁ h =>
      cases h with
      | cons h₂ h =>
          cases h
          exact ⟨_, _, rfl, h₁, h₂⟩

/-- Two messages that cross the wire in pieces, with a timeout on the way. The application refuses
the second one, behind which nothing is to come. -/
theorem msg_round_trip_pieces :
    (∃ d₁ d₂ : CallbackMsg, (osaProcessClientLoop (fun _ _ ↦ false) 5
        [⟨[.data 7, .timeout, .data 9], true, true, [.data 1, .data 1], 0⟩,
          ⟨[.data 16], true, true, [.data 1], -1⟩]
        ((sendHead 2 800).bytes ++ [10, 20] ++ ((sendHead 1 801).bytes ++ [30]))).dealt = [d₁, d₂] ∧
      d₁.Carries ⟨800, [10, 20], by decide, by decide⟩ ∧
      d₂.Carries ⟨801, [30], by decide, by decide⟩) ∧
    ∃ d₁ d₂ : CallbackMsg, (osaClientProcessLoop .msgType 1 5
        [⟨[.data 7, .timeout, .data 9], true, true, [.data 1, .data 1], 0⟩,
          ⟨[.data 16], true, true, [.data 1], -1⟩]
        ((sendHead 2 800).bytes ++ [10, 20] ++ ((sendHead 1 801).bytes ++ [30]))).dealt = [d₁, d₂] ∧
      d₁.Carries ⟨800, [10, 20], by decide, by decide⟩ ∧
      d₂.Carries ⟨801, [30], by decide, by decide⟩ := by
  have h := msg_round_trip_iff
    [(⟨800, [10, 20], by decide, by decide⟩, ⟨[.writable 3, .writable 20], [.writable 2]⟩),
      (⟨801, [30], by decide, by decide⟩, ⟨[.writable 16], [.writable 1]⟩)]
    [⟨osaSok, (sendHead 2 800).bytes ++ [10, 20]⟩, ⟨osaSok, (sendHead 1 801).bytes ++ [30]⟩] 5
    (by decide)
    [⟨[.data 7, .timeout, .data 9], true, true, [.data 1, .data 1], 0⟩,
      ⟨[.data 16], true, true, [.data 1], -1⟩] []
    (.cons ⟨⟨by decide, by decide, by decide⟩, rfl, by decide, by decide, by decide⟩
      (.cons ⟨⟨by decide, by decide, by decide⟩, rfl, by decide, by decide, by decide⟩ .nil))
  constructor
  · exact dealt_pair ((h.1 (fun _ _ ↦ false) ⟨4⟩
      (.cons ⟨by decide, rfl⟩ (.cons ⟨by decide, rfl⟩ .nil))).mpr (.cons (Or.inl rfl) .nil))
  · exact dealt_pair (h.2 ⟨4⟩ 1 (.cons ⟨by decide, rfl⟩ (.cons ⟨by decide, rfl⟩ .nil)))

end OsaBase
