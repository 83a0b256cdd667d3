import OsaBase.Mailbox.Acks

/-!
# The messages that the calls put into queues

The log of a run names every call of `OSA_msgqSend` that ended: who called it, which queue, and the
message as it was then. A queue gets what the log says and nothing else, and loses messages only to
the threads that receive from it.
-/

open Transition

namespace OsaBase

variable {M T : Type} {P : MbxSend M → ℕ → Prop} {s s' : MbxState M T} {t : T}

/-! ## The log -/

structure MsgqSend (M T : Type) where
  thread : T
  msgq : MsgqPtr M
  msg : MsgPtr
  block : MsgBlock M
  deriving DecidableEq, Repr

/-- The call of `OSA_msgqSend` that the step ends. -/
def MbxState.msgqSend (s : MbxState M T) : MbxLabel M T → Option (MsgqSend M T)
  | .run t _ =>
    match s.pc t with
    | .put _ _ data pMbxTo _ => (s.mem data.msg).map (.mk t (.rcvMbx pMbxTo) data.msg)
    | .sendAck pFrom pMsg _ => (s.mem pMsg).map (.mk t pFrom pMsg)
    | _ => none
  | .invoke _ _ => none

def MbxLabel.thread : MbxLabel M T → T
  | .invoke t _ | .run t _ => t

/-- The queue that the next step of the thread receives from. -/
def MbxPc.source : MbxPc M → Option (MsgqPtr M)
  | .sendWait c _ | .bcastWait c _ _ => c.ackMbx
  | .recv m _ | .waitCmd m _ _ | .flushRcv m => some (.rcvMbx m)
  | .flushAck m => some (.ackMbx m)
  | _ => none

/-- The messages that the thread sent. -/
def sentFrom [DecidableEq T] (t : T) (log : List (MsgqSend M T)) : List (MsgqSend M T) :=
  log.filter fun e ↦ e.thread = t

/-- The messages that came to the queue. -/
def arrived [DecidableEq M] (q : MsgqPtr M) (log : List (MsgqSend M T)) : List (MsgqSend M T) :=
  log.filter fun e ↦ e.msgq = q

/-! ## What a step does to a queue -/

theorem osaMsgqFreeMsgHndl_msgq {x : MsgPtr} (h : s.osaMsgqFreeMsgHndl x = some s') :
    s'.msgq = s.msgq := by
  obtain ⟨b, -, rfl⟩ := Option.map_eq_some_iff.mp h
  rfl

theorem osaMbxFreeMsg_msgq {x : MsgPtr} (h : s.osaMbxFreeMsg x = some s') : s'.msgq = s.msgq := by
  obtain ⟨b, -, h⟩ := Option.bind_eq_some_iff.mp h
  rw [osaMsgqFreeMsgHndl_msgq h]
  rfl

section

variable [DecidableEq T]

@[simp] theorem MbxState.goto_msgq (s : MbxState M T) (t : T) (pc : MbxPc M) :
    (s.goto t pc).msgq = s.msgq := rfl

theorem getD_goto_msgq {o : Option (MbxState M T)} {pc : MbxPc M}
    (h : ∀ s' ∈ o, s'.msgq = s.msgq) : (o.getD (s.goto t pc)).msgq = s.msgq := by
  cases o with
  | none => rfl
  | some s' => exact h s' rfl

theorem osaMbxSendMsgGot_msgq {c : MbxSend M} {d : SentMsg} {x : MsgPtr} :
    ∀ s' ∈ s.osaMbxSendMsgGot t c d x, s'.msgq = s.msgq := by
  intro s' h
  unfold MbxState.osaMbxSendMsgGot at h
  split at h
  all_goals
    obtain ⟨b, -, h⟩ := Option.bind_eq_some_iff.mp h
    obtain ⟨s₁, hfree, rfl⟩ := Option.map_eq_some_iff.mp h
    have hmsgq := osaMbxFreeMsg_msgq hfree
    exact hmsgq

theorem osaMbxBroadcastMsgGot_msgq {c : MbxSend M} {sent : List SentMsg} {v : ℤ} {x : MsgPtr} :
    ∀ s' ∈ s.osaMbxBroadcastMsgGot t c sent v x, s'.msgq = s.msgq := by
  intro s' h
  obtain ⟨b, -, h⟩ := Option.bind_eq_some_iff.mp h
  obtain ⟨s₁, hfree, rfl⟩ := Option.map_eq_some_iff.mp h
  have hmsgq : s₁.msgq = s.msgq := by
    split at hfree
    · exact osaMbxFreeMsg_msgq hfree
    · exact osaMsgqFreeMsgHndl_msgq hfree
  split
  · exact hmsgq
  · exact hmsgq

theorem osaMbxAckOrFreeMsg_msgq {x : MsgPtr} {v : ℤ} {next : MbxNext M} :
    ∀ s' ∈ s.osaMbxAckOrFreeMsg t x v next, s'.msgq = s.msgq := by
  intro s' h
  obtain ⟨b, -, h⟩ := Option.bind_eq_some_iff.mp h
  split at h
  · obtain ⟨pFrom, -, rfl⟩ := Option.map_eq_some_iff.mp h
    rfl
  · obtain ⟨s₁, hfree, rfl⟩ := Option.map_eq_some_iff.mp h
    have hmsgq := osaMbxFreeMsg_msgq hfree
    exact hmsgq

theorem flushGot_msgq {x : MsgPtr} {pc : MbxPc M} :
    ∀ s' ∈ (s.osaMbxFreeMsg x).map (fun s₁ ↦ s₁.goto t pc), s'.msgq = s.msgq := by
  intro s' h
  obtain ⟨s₁, hfree, rfl⟩ := Option.map_eq_some_iff.mp h
  have hmsgq := osaMbxFreeMsg_msgq hfree
  exact hmsgq

end

section Queues

variable [DecidableEq M]

theorem recvMsg_items (hrings : ∀ q, (s.msgq q).Rep osaMsgqLenMax) {q r : MsgqPtr M}
    {timeout : ℕ} {res : MbxState M T × Option MsgPtr} (h : s.recvMsg r timeout = some res)
    (hq : r ≠ q) : (res.1.msgq q).items = (s.msgq q).items := by
  rcases recvMsg_cases hrings h with ⟨hndl, x, rfl, -, -⟩ | ⟨rfl, -⟩
  · change (Function.update s.msgq r hndl q).items = _
    rw [Function.update_of_ne hq.symm]
  · rfl

variable [DecidableEq T]

theorem send_items (hrings : ∀ q, (s.msgq q).Rep osaMsgqLenMax) {q r : MsgqPtr M} {x : MsgPtr}
    {pc : MbxPc M} (h : (s.send r x).map (fun s' ↦ s'.goto t pc) = some s') :
    (s'.msgq q).items = (s.msgq q).items ++ if r = q then [x] else [] := by
  obtain ⟨s₁, hsend, rfl⟩ := Option.map_eq_some_iff.mp h
  obtain ⟨hndl, rfl, -, hitems⟩ := send_cases hrings hsend
  change (Function.update s.msgq r hndl q).items = _
  by_cases hq : r = q
  · subst hq
    rw [Function.update_self, hitems, if_pos rfl]
  · rw [Function.update_of_ne fun heq ↦ hq heq.symm, if_neg hq, List.append_nil]

/-- A queue that the thread does not receive from gets what the step puts into it. -/
theorem run_items (hrings : ∀ q, (s.msgq q).Rep osaMsgqLenMax)
    (hheld : ∀ x, (s.pc t).held = some x → ∃ b, s.mem x = some b) {addr : MsgPtr}
    (h : s.run t addr = some s') {q : MsgqPtr M} (hq : (s.pc t).source ≠ some q) :
    (s'.msgq q).items = (s.msgq q).items ++
      ((s.msgqSend (.run t addr)).toList.filter fun e ↦ e.msgq = q).map MsgqSend.msg := by
  simp only [MbxState.run] at h
  simp only [MbxState.msgqSend]
  cases hpc : s.pc t with
  | idle | fault => simp [hpc] at h
  | alloc c sent pMbxTo rest =>
      simp only [hpc] at h ⊢
      split at h
      · cases h
        simp [MbxState.goto]
      · cases h
  | put c sent data pMbxTo rest =>
      obtain ⟨b, hb⟩ := hheld data.msg (by rw [hpc]; rfl)
      simp only [hpc] at h ⊢
      rw [send_items hrings h, hb]
      by_cases hto : MsgqPtr.rcvMbx pMbxTo = q
      · simp [hto]
      · simp [hto]
  | sendAck pFrom x next =>
      obtain ⟨b, hb⟩ := hheld x (by rw [hpc]; rfl)
      simp only [hpc] at h ⊢
      rw [send_items hrings h, hb]
      by_cases hto : pFrom = q
      · simp [hto]
      · simp [hto]
  | sendWait c | bcastWait c =>
      rw [hpc] at hq
      simp only [hpc] at h ⊢
      obtain ⟨r, hr, h⟩ := Option.bind_eq_some_iff.mp h
      obtain ⟨res, hres, h⟩ := Option.bind_eq_some_iff.mp h
      obtain ⟨x, -, rfl⟩ := Option.map_eq_some_iff.mp h
      have hne : r ≠ q := fun heq ↦ hq (heq ▸ hr)
      simpa using recvMsg_items hrings hres hne
  | waitCmd m =>
      rw [hpc] at hq
      simp only [hpc] at h ⊢
      obtain ⟨res, hres, h⟩ := Option.bind_eq_some_iff.mp h
      obtain ⟨x, -, rfl⟩ := Option.map_eq_some_iff.mp h
      have hne : MsgqPtr.rcvMbx m ≠ q := fun heq ↦ hq (heq ▸ rfl)
      simpa using recvMsg_items hrings hres hne
  | recv m | flushRcv m =>
      rw [hpc] at hq
      simp only [hpc] at h ⊢
      obtain ⟨res, hres, rfl⟩ := Option.map_eq_some_iff.mp h
      have hne : MsgqPtr.rcvMbx m ≠ q := fun heq ↦ hq (heq ▸ rfl)
      have hitems := recvMsg_items hrings hres hne
      split
      all_goals simpa using hitems
  | flushAck m =>
      rw [hpc] at hq
      simp only [hpc] at h ⊢
      obtain ⟨res, hres, rfl⟩ := Option.map_eq_some_iff.mp h
      have hne : MsgqPtr.ackMbx m ≠ q := fun heq ↦ hq (heq ▸ rfl)
      have hitems := recvMsg_items hrings hres hne
      split
      all_goals simpa using hitems
  | sendGot c d x =>
      simp only [hpc, Option.some.injEq] at h ⊢
      rw [← h, getD_goto_msgq osaMbxSendMsgGot_msgq]
      simp
  | bcastGot c sent v x =>
      simp only [hpc, Option.some.injEq] at h ⊢
      rw [← h, getD_goto_msgq osaMbxBroadcastMsgGot_msgq]
      simp
  | ackOrFree x v next =>
      simp only [hpc, Option.some.injEq] at h ⊢
      rw [← h, getD_goto_msgq osaMbxAckOrFreeMsg_msgq]
      simp
  | waitCmdGot m pMsg cmd x =>
      obtain ⟨b, hb⟩ := hheld x (by rw [hpc]; rfl)
      simp only [hpc, hb] at h ⊢
      have hmsgq : s'.msgq = s.msgq := by
        split at h
        · split at h
          all_goals
            cases h
            rfl
        · cases h
          rfl
      rw [hmsgq]
      simp
  | flushGot m x =>
      simp only [hpc, Option.some.injEq] at h ⊢
      rw [← h, getD_goto_msgq flushGot_msgq]
      simp

theorem MbxInv.step_items (hs : MbxInv P s) {l : MbxLabel M T} (h : mbxStep s l = some s')
    {q : MsgqPtr M} (hq : (s.pc l.thread).source ≠ some q) :
    (s'.msgq q).items = (s.msgq q).items ++
      (arrived q (s.msgqSend l).toList).map MsgqSend.msg := by
  cases l with
  | run t addr => exact run_items hs.rings (fun x hx ↦ hs.allocated_of_held hx) h hq
  | invoke t call =>
      simp only [mbxStep] at h
      split at h
      · cases h
        have hmsgq : (s.invoke t call).msgq = s.msgq := by
          cases call with
          | broadcastMsg pMbxToList => cases pMbxToList <;> rfl
          | ackOrFreeMsg r pMsg => cases pMsg <;> rfl
          | sendMsg | waitMsg | checkMsg | waitCmd | flush => rfl
        simp [hmsgq, MbxState.msgqSend, arrived]
      · cases h

/-- The message that is put into a queue is as the log says, before and after. -/
theorem msgqSend_mem {l : MbxLabel M T} (h : mbxStep s l = some s') {e : MsgqSend M T}
    (he : s.msgqSend l = some e) :
    s.mem e.msg = some e.block ∧ s'.mem = s.mem ∧ e.thread = l.thread ∧
      (s.pc l.thread).held = some e.msg := by
  cases l with
  | invoke => cases he
  | run t addr =>
      have hmem : ∀ {q : MsgqPtr M} {x : MsgPtr} {pc : MbxPc M},
          (s.send q x).map (fun s₁ ↦ s₁.goto t pc) = some s' → s'.mem = s.mem := by
        intro q x pc h
        obtain ⟨s₁, hsend, rfl⟩ := Option.map_eq_some_iff.mp h
        unfold MbxState.send at hsend
        split at hsend
        · cases hsend
          rfl
        · cases hsend
      simp only [mbxStep, MbxState.run] at h
      simp only [MbxState.msgqSend] at he
      simp only [MbxLabel.thread]
      cases hpc : s.pc t with
      | put c sent data pMbxTo rest =>
          simp only [hpc] at h he
          obtain ⟨b, hb, rfl⟩ := Option.map_eq_some_iff.mp he
          exact ⟨hb, hmem h, rfl, rfl⟩
      | sendAck q x next =>
          simp only [hpc] at h he
          obtain ⟨b, hb, rfl⟩ := Option.map_eq_some_iff.mp he
          exact ⟨hb, hmem h, rfl, rfl⟩
      | idle | alloc | sendWait | sendGot | bcastWait | bcastGot | recv | waitCmd | waitCmdGot
      | ackOrFree | flushRcv | flushAck | flushGot | fault =>
          simp [hpc] at he

end Queues

/-- Nobody else receives from the `ackMbx` that a call waits at. -/
theorem Callers.source_ne {pc : T → MbxPc M} (h : Callers pc) {t u : T} {m : M}
    (ht : (pc t).mbxFrom = some m) (hu : u ≠ t) : (pc u).source ≠ some (.ackMbx m) := by
  intro hsource
  have hcaller : (pc u).mbxFrom ≠ some m := fun hm ↦ hu (h.one u t m hm ht)
  have hflush := h.notFlushed t u m ht
  cases hpc : pc u with
  | sendWait c | bcastWait c =>
      rw [hpc] at hsource hcaller
      obtain ⟨m', hm, heq⟩ := MbxSend.ackMbx_eq hsource
      cases heq
      exact hcaller hm
  | flushAck m' =>
      rw [hpc] at hsource hflush
      cases hsource
      exact hflush rfl
  | idle | alloc | put | sendGot | bcastGot | recv | waitCmd | waitCmdGot | ackOrFree | sendAck
  | flushRcv | flushGot | fault =>
      rw [hpc] at hsource
      cases hsource

/-- What comes to an `ackMbx` has been answered with the status it has. -/
theorem MbxInv.msgqSend_answered (hs : MbxInv P s) {l : MbxLabel M T} {m : M} {e : MsgqSend M T}
    (he : s.msgqSend l = some e) (hq : e.msgq = .ackMbx m) :
    (e.block.serial, e.block.status) ∈ s.log.acks := by
  cases l with
  | invoke => cases he
  | run t addr =>
      simp only [MbxState.msgqSend] at he
      cases hpc : s.pc t with
      | put c sent data pMbxTo rest =>
          simp only [hpc] at he
          obtain ⟨b, -, rfl⟩ := Option.map_eq_some_iff.mp he
          cases hq
      | sendAck q x next =>
          simp only [hpc] at he
          obtain ⟨b, hb, rfl⟩ := Option.map_eq_some_iff.mp he
          have hx : x ∈ s.places (.thread t) := by simp [MbxState.places, hpc, MbxPc.held]
          obtain ⟨b', -, -, -, -, hb', -, -, -, -, -, -, hack⟩ :=
            hs.back hx (q := q) (by rw [MbxState.dest, hpc]; rfl)
          obtain rfl := Option.some.inj (hb.symm.trans hb')
          exact hack
      | idle | alloc | sendWait | sendGot | bcastWait | bcastGot | recv | waitCmd | waitCmdGot
      | ackOrFree | flushRcv | flushAck | flushGot | fault =>
          simp [hpc] at he

/-! ## What a step leaves to other threads -/

/-- The step leaves alone what the thread is at, what it holds and what waits in queues, and takes
nothing off the lists of the freed and the answered. -/
structure Leaves (s : MbxState M T) (t : T) (s' : MbxState M T) : Prop where
  pc : s'.pc t = s.pc t
  held : ∀ x ∈ (s.pc t).held, s'.mem x = s.mem x
  queued : ∀ q, ∀ x ∈ (s.msgq q).items, s'.mem x = s.mem x
  freed : ∀ n ∈ s.log.freed, n ∈ s'.log.freed
  acks : ∀ r ∈ s.log.acks, r ∈ s'.log.acks

theorem Writes.leaves {x : MsgPtr} {o : Option (MsgBlock M)} (h : Writes s t x o s')
    (hx : ∀ p, x ∈ s.places p → p = .thread t) {u : T} (hu : u ≠ t)
    (hfreed : ∀ n ∈ s.log.freed, n ∈ s'.log.freed)
    (hacks : ∀ r ∈ s.log.acks, r ∈ s'.log.acks) : Leaves s u s' := by
  have hmem : ∀ p y, y ∈ s.places p → p ≠ .thread t → s'.mem y = s.mem y := by
    intro p y hy hp
    apply h.mem_of_ne
    rintro rfl
    exact hp (hx p hy)
  refine ⟨h.other u hu, fun y hy ↦ ?_, fun q y hy ↦ ?_, hfreed, hacks⟩
  · refine hmem (.thread u) y (Option.mem_toList.mpr hy) fun heq ↦ ?_
    cases heq
    exact hu rfl
  · exact hmem (.queue q) y hy fun heq ↦ by cases heq

theorem MbxEffect.leaves (hs : MbxInv P s) {prms : List ℕ} (h : MbxEffect P s t prms s') {u : T}
    (hu : u ≠ t) : Leaves s u s' := by
  have hheld : ∀ x, (s.pc t).held = some x → ∀ p, x ∈ s.places p → p = .thread t := by
    intro x hx p hp
    exact hs.handles.unique p (.thread t) x hp (Option.mem_toList.mpr hx)
  cases h with
  | transfer h =>
      refine ⟨h.other u hu, fun x _ ↦ by rw [h.mem], fun q x _ ↦ by rw [h.mem], ?_, ?_⟩
      all_goals
        rw [h.log]
        exact fun _ hr ↦ hr
  | alloc c sent pMbxTo rest x h hpc hpc' hfree hlog =>
      refine h.leaves (fun p hp ↦ ?_) hu ?_ ?_
      · obtain ⟨b, hb⟩ := hs.handles.live_of_mem hp
        rw [hfree] at hb
        cases hb
      all_goals
        rw [hlog]
        exact fun _ hr ↦ hr
  | answer x b v q next h hpc hpc' hb hwaits hfrom hlog =>
      refine h.leaves (hheld x (by rw [hpc]; rfl)) hu ?_ ?_
      all_goals rw [hlog]
      · exact fun _ hn ↦ hn
      · exact fun _ hr ↦ List.mem_append_left _ hr
  | release x b v next h hpc hpc' hb hwaits hlog =>
      refine h.leaves (hheld x (by rw [hpc]; rfl)) hu ?_ ?_
      all_goals
        rw [hlog]
        exact fun _ hr ↦ List.mem_append_left _ hr
  | collect x b rets freed h hx hheld' hstage hb hwaits hack hpendings hsub hlog =>
      refine h.leaves (hheld x hx) hu ?_ ?_
      all_goals rw [hlog]
      · exact fun _ hn ↦ List.mem_append_left _ hn
      · exact fun _ hr ↦ hr

theorem MbxInv.step_leaves [DecidableEq M] [DecidableEq T] (hs : MbxInv P s) {l : MbxLabel M T}
    (hok : MbxOk s l) (hcall : ∀ cn ∈ l.send, P cn.1 cn.2) (h : mbxStep s l = some s') {u : T}
    (hu : u ≠ l.thread) : Leaves s u s' := by
  cases l with
  | run t addr => exact (run_effect hs h).leaves hs hu
  | invoke t call =>
      simp only [mbxStep] at h
      split at h
      · next hpc =>
        cases h
        obtain ⟨prms, htransfer, -⟩ := invoke_effect hs hpc hok hcall
        exact (MbxEffect.transfer htransfer).leaves hs hu
      · cases h

end OsaBase
