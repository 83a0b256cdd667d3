import Mathlib.Data.Fintype.Basic
import OsaBase.Mailbox.Steps

/-!
# Every ACK finds the call that waits for it

Over any run of the mailbox functions the `ackMbx` of a mailbox holds only messages of the call in
progress that has it as `pMbxFrom`. So the queue never fills, the branches for a message out of
order and for an unknown ACK are dead, and a send that waits returns what its receiver answered.
-/

open Transition

namespace OsaBase

variable {M T : Type} {P : MbxSend M → ℕ → Prop} {s s' : MbxState M T} {t : T}

/-- The matching of ACKs in one state. -/
structure AckLaw [DecidableEq M] [DecidableEq T] (s : MbxState M T) : Prop where
  own : ∀ m, ∀ x ∈ (s.msgq (.ackMbx m)).items, ∃ t c d b, (s.pc t).call = some c ∧
    c.pMbxFrom = some m ∧ d ∈ (s.pc t).sent ∧ d.msg = x ∧ s.mem x = some b ∧ b.serial = d.serial
  once : ∀ m, (s.msgq (.ackMbx m)).items.Nodup
  slots : ∀ m, (s.msgq (.ackMbx m)).count ≤ osaMbxBroadcastMax - 1 ∧
    (s.msgq (.ackMbx m)).len = osaMsgqLenMax
  notBlocked : ∀ t q x next, s.pc t = .sendAck q x next →
    ∀ addr, (mbxStep s (.run t addr)).isSome = true
  inOrder : ∀ t c d x, s.pc t = .sendGot c d x → x = d.msg
  known : ∀ t c sent v x, s.pc t = .bcastGot c sent v x → x ∈ sent.map SentMsg.msg
  returns : ∀ t c d x addr s', s.pc t = .sendGot c d x → mbxStep s (.run t addr) = some s' →
    ∃ v, s'.pc t = .idle v ∧ (d.serial, v) ∈ s.log.acks
  returned : ∀ r ∈ s.log.returned, r ∈ s.log.acks
  supplied : (s.log.acks.map Prod.fst).Nodup

/-! ## What waits in an `ackMbx` -/

theorem MbxPc.Stage.length_pending {pc : MbxPc M} (h : pc.Stage P) :
    pc.pending.length ≤ osaMbxBroadcastMax - 1 := by
  have hfilter : ∀ sent : List SentMsg, sent.length < osaMbxBroadcastMax →
      (sent.filter fun d ↦ d.ack == false).length ≤ osaMbxBroadcastMax - 1 := by
    intro sent hlen
    have hle := List.length_filter_le (fun d : SentMsg ↦ d.ack == false) sent
    omega
  cases pc with
  | alloc c sent pMbxTo rest =>
      have hlen : sent.length + 1 + rest.length < osaMbxBroadcastMax := h.1.1.1
      simp only [MbxPc.pending]
      split
      · omega
      · exact Nat.zero_le _
  | put c sent data pMbxTo rest =>
      have hlen : sent.length + 1 + rest.length < osaMbxBroadcastMax := h.1.1.1
      simp only [MbxPc.pending]
      split
      · rw [List.length_append, List.length_singleton]
        omega
      · exact Nat.zero_le _
  | bcastWait c sent | bcastGot c sent => exact hfilter sent h.1.1
  | sendWait | sendGot => simp [MbxPc.pending, osaMbxBroadcastMax]
  | idle | recv | waitCmd | waitCmdGot | ackOrFree | sendAck | flushRcv | flushAck | flushGot
  | fault => exact Nat.zero_le _

/-- A pending message that is not in the thread's hand has been sent. -/
theorem MbxPc.sent_of_pending {pc : MbxPc M} {d : SentMsg} (hd : d ∈ pc.pending)
    (hheld : pc.held ≠ some d.msg) : d ∈ pc.sent := by
  cases pc with
  | alloc c sent =>
      simp only [MbxPc.pending] at hd
      split at hd
      · exact hd
      · cases hd
  | put c sent data =>
      simp only [MbxPc.pending] at hd
      split at hd
      · rcases List.mem_append.mp hd with hd | hd
        · exact hd
        · rw [List.mem_singleton.mp hd] at hheld
          exact (hheld rfl).elim
      · cases hd
  | bcastWait c sent | bcastGot c sent => exact (List.mem_filter.mp hd).1
  | sendWait | sendGot => exact hd
  | idle | recv | waitCmd | waitCmdGot | ackOrFree | sendAck | flushRcv | flushAck | flushGot
  | fault => cases hd

/-- All messages in one `ackMbx` are pending in one call. -/
theorem MbxInv.ackMbx_pending (hs : MbxInv P s) {m : M} {x : MsgPtr}
    (hx : x ∈ (s.msgq (.ackMbx m)).items) :
    ∃ t, (s.pc t).mbxFrom = some m ∧ ∀ y ∈ (s.msgq (.ackMbx m)).items, y ∈ s.pendings t := by
  have hcaller : ∀ y ∈ (s.msgq (.ackMbx m)).items, ∃ t, (s.pc t).mbxFrom = some m ∧
      y ∈ s.pendings t := by
    intro y hy
    obtain ⟨-, t, c, d, m', -, hc, hm, heq, hd, rfl, -⟩ := hs.back (p := .queue (.ackMbx m)) hy rfl
    cases heq
    exact ⟨t, by rw [MbxPc.mbxFrom, hc, Option.bind_some, hm], List.mem_map_of_mem hd⟩
  obtain ⟨t, ht, -⟩ := hcaller x hx
  refine ⟨t, ht, fun y hy ↦ ?_⟩
  obtain ⟨t', ht', hy⟩ := hcaller y hy
  rwa [hs.callers.one t t' m ht ht']

theorem MbxInv.length_ackMbx (hs : MbxInv P s) (m : M) :
    (s.msgq (.ackMbx m)).items.length ≤ osaMbxBroadcastMax - 1 := by
  cases hitems : (s.msgq (.ackMbx m)).items with
  | nil => exact Nat.zero_le _
  | cons x xs =>
      obtain ⟨t, -, hsub⟩ := hs.ackMbx_pending (m := m) (x := x) (by simp [hitems])
      rw [← hitems]
      calc
        (s.msgq (.ackMbx m)).items.length ≤ (s.pendings t).length :=
          (List.subperm_of_subset (hs.handles.nodup (.queue (.ackMbx m))) hsub).length_le
        _ = (s.pc t).pending.length := List.length_map ..
        _ ≤ osaMbxBroadcastMax - 1 := (hs.stage t).length_pending

theorem MbxInv.ackMbx_own (hs : MbxInv P s) {m : M} {x : MsgPtr}
    (hx : x ∈ (s.msgq (.ackMbx m)).items) :
    ∃ t c d b, (s.pc t).call = some c ∧ c.pMbxFrom = some m ∧ d ∈ (s.pc t).sent ∧ d.msg = x ∧
      s.mem x = some b ∧ b.serial = d.serial := by
  obtain ⟨b, t, c, d, m', hb, hc, hm, heq, hd, rfl, hsent, -⟩ :=
    hs.back (p := .queue (.ackMbx m)) hx rfl
  cases heq
  refine ⟨t, c, d, b, hc, hm, MbxPc.sent_of_pending hd ?_, rfl, hb, hsent.serial⟩
  intro hheld
  have hthread : d.msg ∈ s.places (.thread t) := by simp [MbxState.places, hheld]
  cases hs.handles.unique (.thread t) (.queue (.ackMbx m)) d.msg hthread hx

/-! ## What a call gets -/

theorem MbxInv.in_order (hs : MbxInv P s) {c : MbxSend M} {d : SentMsg} {x : MsgPtr}
    (hpc : s.pc t = .sendGot c d x) :
    x = d.msg ∧ ∃ b, s.mem x = some b ∧ (d.serial, b.status) ∈ s.log.acks := by
  have hstage := hs.stage t
  rw [hpc] at hstage
  obtain ⟨b, d', hb, hd, rfl, hsent, hacked⟩ := hs.got (t := t) (by rw [hpc]; rfl)
    (by rw [hpc]; rfl) hstage.2.1 (by rw [hpc]; rfl)
  rw [hpc] at hd
  obtain rfl := List.mem_singleton.mp hd
  exact ⟨rfl, b, hb, hsent.serial ▸ hacked⟩

theorem MbxInv.known_ack (hs : MbxInv P s) {c : MbxSend M} {sent : List SentMsg} {v : ℤ}
    {x : MsgPtr} (hpc : s.pc t = .bcastGot c sent v x) : x ∈ sent.map SentMsg.msg := by
  have hstage := hs.stage t
  rw [hpc] at hstage
  obtain ⟨b, d, -, hd, rfl, -⟩ := hs.got (t := t) (by rw [hpc]; rfl) (by rw [hpc]; rfl) hstage.2.1
    (by rw [hpc]; rfl)
  rw [hpc] at hd
  exact List.mem_map_of_mem (List.mem_filter.mp hd).1

section

variable [DecidableEq M] [DecidableEq T]

/-- `OSA_msgqSendAck` finds room. -/
theorem MbxInv.sendAck_runs (hs : MbxInv P s) {q : MsgqPtr M} {x : MsgPtr} {next : MbxNext M}
    (hpc : s.pc t = .sendAck q x next) (addr : MsgPtr) :
    (mbxStep s (.run t addr)).isSome = true := by
  have hx : x ∈ s.places (.thread t) := by simp [MbxState.places, hpc, MbxPc.held]
  obtain ⟨-, -, -, -, m, -, -, -, rfl, -⟩ := hs.back hx (q := q) (by rw [MbxState.dest, hpc]; rfl)
  have hroom : (s.msgq (.ackMbx m)).count < (s.msgq (.ackMbx m)).len := by
    have hlen := hs.length_ackMbx m
    rw [RingHndl.length_items] at hlen
    rw [(hs.rings _).len_eq]
    exact lt_of_le_of_lt hlen (by decide)
  simp [mbxStep, MbxState.run, hpc, MbxState.send, osaMsgqSend, RingHndl.putPass, hroom]

/-- The value that `OSA_mbxSendMsg` returns after its ACK. -/
theorem MbxInv.send_returns (hs : MbxInv P s) {c : MbxSend M} {d : SentMsg} {x addr : MsgPtr}
    (hpc : s.pc t = .sendGot c d x) (h : mbxStep s (.run t addr) = some s') :
    ∃ v, s'.pc t = .idle v ∧ (d.serial, v) ∈ s.log.acks := by
  obtain ⟨rfl, b, hb, hacked⟩ := hs.in_order hpc
  refine ⟨b.status, ?_, hacked⟩
  simp only [mbxStep, MbxState.run, hpc, Option.some.injEq] at h
  rw [MbxState.osaMbxSendMsgGot, if_pos rfl, hb, Option.bind_some, MbxState.osaMbxFreeMsg_eq hb,
    Option.map_some, Option.getD_some] at h
  rw [← h]
  exact MbxState.goto_pc_self ..

theorem MbxInv.ackLaw (hs : MbxInv P s) : AckLaw s where
  own := fun _ _ hx ↦ hs.ackMbx_own hx
  once := fun m ↦ hs.handles.nodup (.queue (.ackMbx m))
  slots := fun m ↦ by
    rw [← RingHndl.length_items]
    exact ⟨hs.length_ackMbx m, (hs.rings _).len_eq⟩
  notBlocked := fun _ _ _ _ hpc addr ↦ hs.sendAck_runs hpc addr
  inOrder := fun _ _ _ _ hpc ↦ (hs.in_order hpc).1
  known := fun _ _ _ _ _ hpc ↦ hs.known_ack hpc
  returns := fun _ _ _ _ _ _ hpc h ↦ hs.send_returns hpc h
  returned := hs.returned
  supplied := hs.acks_nodup

theorem mbxInv_of_reach (cells : MsgqPtr M → Vector MsgPtr osaMsgqLenMax)
    (h : Reach mbxStep MbxOk (mbxStart cells) s) : MbxInv (fun _ _ ↦ True) s := by
  apply h.invariant (mbxStart_inv cells)
  exact fun a l b ha hok hstep ↦ ha.step hok (fun _ _ ↦ trivial) hstep

/-- ACKs match in every state of every run. -/
theorem mailbox_acks_match (cells : MsgqPtr M → Vector MsgPtr osaMsgqLenMax)
    (h : Reach mbxStep MbxOk (mbxStart cells) s) : AckLaw s :=
  (mbxInv_of_reach cells h).ackLaw

end

/-- Thread 1 answers 5 to the message of thread 0, which is what the send returns. -/
theorem mailbox_acks_match_answer :
    ∃ s : MbxState (Fin 2) (Fin 2), s.pc 0 = .idle 5 ∧ s.log.acks = [(0, 5)] ∧ AckLaw s := by
  obtain ⟨s, hs, hlog⟩ := Reach.exists_of_exec mbxStep MbxOk
    (mbxStart fun _ : MsgqPtr (Fin 2) ↦ Vector.replicate osaMsgqLenMax 0 : MbxState (Fin 2) (Fin 2))
    [.invoke 0 (.sendMsg 1 (some 0) 7 (some 3) 6), .run 0 100, .run 0 0, .invoke 1 (.waitMsg 1),
      .run 1 0, .invoke 1 (.ackOrFreeMsg 1 (some 100) 5), .run 1 0, .run 1 0, .run 0 0, .run 0 0]
    (fun s ↦ decide (s.pc 0 = .idle 5 ∧ s.log.acks = [(0, 5)])) (by decide)
  obtain ⟨hpc, hacks⟩ := of_decide_eq_true hlog
  exact ⟨s, hpc, hacks, mailbox_acks_match _ hs⟩

end OsaBase
