import OsaBase.Mailbox.QueueLog

/-!
# What becomes of a received message

`OSA_mbxAckOrFreeMsg` releases a message: one that waits for an ACK goes into the `ackMbx` of its
sender with the status, any other is freed together with its parameter. A thread that drains a
mailbox releases its messages one by one; what its steps do to queues and memory is said here once.
-/

namespace OsaBase

variable {M T : Type} {s s' : MbxState M T} {t : T}

/-! ## Releases -/

/-- A message in a queue: its handle and what is there. -/
structure RcvMsg (M : Type) where
  msg : MsgPtr
  block : MsgBlock M
  deriving DecidableEq, Repr

/-- A message that waits for an ACK has the `ackMbx` of its sender. -/
def RcvMsg.HasSender (e : RcvMsg M) : Prop :=
  e.block.waitsAck = true → ∃ k, e.block.pFrom = some (.ackMbx k)

inductive Release (M : Type)
  | ack (pFrom : Option (MsgqPtr M)) (msg : MsgPtr) (block : MsgBlock M)
  | free (msg : MsgPtr) (block : MsgBlock M)
  deriving DecidableEq, Repr

/-- The message with the answer `OSA_SOK`. -/
def RcvMsg.answered (e : RcvMsg M) : RcvMsg M :=
  { e with block := { e.block with status := osaSok } }

/-- What `OSA_mbxAckOrFreeMsg` is to do with the message when the answer is `OSA_SOK`. -/
def RcvMsg.release (e : RcvMsg M) : Release M :=
  if e.block.waitsAck then .ack e.block.pFrom e.msg e.answered.block else .free e.msg e.block

/-- The release that the next step of the thread completes. -/
def MbxState.release (s : MbxState M T) (t : T) : Option (Release M) :=
  match s.pc t with
  | .sendAck pFrom pMsg _ => (s.mem pMsg).map (.ack (some pFrom) pMsg)
  | .ackOrFree pMsg _ _ =>
    (s.mem pMsg).bind fun b ↦ if b.waitsAck then none else some (.free pMsg b)
  | .flushGot _ pMsg => (s.mem pMsg).map (.free pMsg)
  | _ => none

/-- The message that the release puts into the queue. -/
def Release.ackTo [DecidableEq M] (q : MsgqPtr M) : Release M → Option MsgPtr
  | .ack pFrom x _ => if pFrom = some q then some x else none
  | .free _ _ => none

/-- No answer goes into a `rcvMbx`. -/
theorem RcvMsg.HasSender.ackTo_rcvMbx [DecidableEq M] {e : RcvMsg M} (h : e.HasSender) (k : M) :
    e.release.ackTo (.rcvMbx k) = none := by
  cases hwaits : e.block.waitsAck with
  | false => simp [RcvMsg.release, hwaits, Release.ackTo]
  | true =>
      obtain ⟨q, hq⟩ := h hwaits
      simp [RcvMsg.release, hwaits, Release.ackTo, hq]

def Release.freed : Release M → Option (MsgBlock M)
  | .free _ b => some b
  | .ack _ _ _ => none

/-- The message is as the release leaves it. -/
def Release.Stored (mem : MsgPtr → Option (MsgBlock M)) : Release M → Prop
  | .ack _ x b => mem x = some b
  | .free x _ => mem x = none

/-- The releases, in order, are all that changed the queues outside `drained` and the lists of what
was freed. -/
structure Released [DecidableEq M] (drained : MsgqPtr M → Prop) (s : MbxState M T)
    (rs : List (Release M)) (s' : MbxState M T) : Prop where
  queues : ∀ q, ¬drained q → (s'.msgq q).items = (s.msgq q).items ++ rs.filterMap (Release.ackTo q)
  freed : s'.log.freed = s.log.freed ++ (rs.filterMap Release.freed).map MsgBlock.serial
  prmFreed : s'.log.prmFreed =
    s.log.prmFreed ++ (rs.filterMap Release.freed).flatMap fun b ↦ b.prm.toList

theorem Released.mono [DecidableEq M] {drained drained' : MsgqPtr M → Prop}
    {rs : List (Release M)} (h : Released drained s rs s') (hsub : ∀ q, drained q → drained' q) :
    Released drained' s rs s' :=
  ⟨fun q hq ↦ h.queues q fun hd ↦ hq (hsub q hd), h.freed, h.prmFreed⟩

theorem Released.refl [DecidableEq M] (drained : MsgqPtr M → Prop) (s : MbxState M T) :
    Released drained s [] s :=
  ⟨fun _ _ ↦ (List.append_nil _).symm, (List.append_nil _).symm, (List.append_nil _).symm⟩

theorem Released.trans [DecidableEq M] {drained : MsgqPtr M → Prop} {s'' : MbxState M T}
    {rs rs' : List (Release M)} (h : Released drained s rs s') (h' : Released drained s' rs' s'') :
    Released drained s (rs ++ rs') s'' := by
  constructor
  · intro q hq
    rw [h'.queues q hq, h.queues q hq, List.filterMap_append, List.append_assoc]
  · rw [h'.freed, h.freed, List.filterMap_append, List.map_append, List.append_assoc]
  · rw [h'.prmFreed, h.prmFreed, List.filterMap_append, List.flatMap_append, List.append_assoc]

/-- Nothing was released, and at most a drained queue changed. -/
theorem Released.none [DecidableEq M] {drained : MsgqPtr M → Prop}
    (hqueues : ∀ q, ¬drained q → (s'.msgq q).items = (s.msgq q).items) (hlog : s'.log = s.log) :
    Released drained s [] s' := by
  refine ⟨fun q hq ↦ ?_, ?_, ?_⟩
  · rw [hqueues q hq]
    exact (List.append_nil _).symm
  all_goals
    rw [hlog]
    exact (List.append_nil _).symm

/-! ## Queue functions that do not wait -/

section Queues

variable [DecidableEq M] {q : MsgqPtr M} {x : MsgPtr}

theorem recvMsg_eq (hrep : (s.msgq q).Rep osaMsgqLenMax) {xs : List MsgPtr}
    (hitems : (s.msgq q).items = x :: xs) (timeout : ℕ) :
    ∃ hndl : OsaMsgqHndl,
      s.recvMsg q timeout = some ({ s with msgq := Function.update s.msgq q hndl }, some x) ∧
        hndl.items = xs := by
  have hsome : 0 < (s.msgq q).count := by
    rw [← RingHndl.length_items, hitems]
    exact Nat.succ_pos _
  have hpop := hrep.wf.items_pop hsome
  rw [hitems] at hpop
  obtain ⟨hx, hxs⟩ := List.cons.inj hpop
  refine ⟨(s.msgq q).pop, ?_, hxs.symm⟩
  simp [MbxState.recvMsg, osaMsgqRecvMsg, RingHndl.getPass, hsome, hx]

theorem recvMsg_nil (hrep : (s.msgq q).Rep osaMsgqLenMax) (hitems : (s.msgq q).items = []) :
    s.recvMsg q osaTimeoutNone = some (s, none) := by
  have hzero : (s.msgq q).count = 0 := hrep.wf.items_eq_nil_iff.mp hitems
  simp [MbxState.recvMsg, osaMsgqRecvMsg, RingHndl.getPass, hzero, osaEfail_ne_osaSok]

theorem send_eq (hrep : (s.msgq q).Rep osaMsgqLenMax)
    (hroom : (s.msgq q).items.length < osaMsgqLenMax) :
    ∃ s₁, s.send q x = some s₁ ∧ s₁.mem = s.mem := by
  rw [RingHndl.length_items, ← hrep.len_eq] at hroom
  refine ⟨{ s with msgq := Function.update s.msgq q ((s.msgq q).push x) }, ?_, rfl⟩
  simp [MbxState.send, osaMsgqSend, RingHndl.putPass, hroom]

omit [DecidableEq M] in
theorem length_items_le (hrep : (s.msgq q).Rep osaMsgqLenMax) :
    (s.msgq q).items.length ≤ osaMsgqLenMax := by
  rw [RingHndl.length_items, ← hrep.len_eq]
  exact hrep.wf.count_le

end Queues

/-! ## The steps of a thread that drains a mailbox -/

/-- A step outside a send or a broadcast moves a message, notes the answer in it, or frees it. -/
inductive DrainEffect (s : MbxState M T) (t : T) (s' : MbxState M T) : Prop
  | move (hmem : s'.mem = s.mem) (hlog : s'.log = s.log)
      (hrings : ∀ q, (s'.msgq q).Rep osaMsgqLenMax)
      (hrelease : ∀ r ∈ s.release t, r.freed = none ∧ r.Stored s.mem)
  | answer (x : MsgPtr) (b : MsgBlock M) (hheld : (s.pc t).held = some x)
      (hmem : s'.mem = Function.update s.mem x (some b)) (hmsgq : s'.msgq = s.msgq)
      (hfreed : s'.log.freed = s.log.freed) (hprm : s'.log.prmFreed = s.log.prmFreed)
      (hrelease : s.release t = none)
  | free (x : MsgPtr) (b : MsgBlock M) (hheld : (s.pc t).held = some x)
      (hmem : s'.mem = Function.update s.mem x none) (hmsgq : s'.msgq = s.msgq)
      (hfreed : s'.log.freed = s.log.freed ++ [b.serial])
      (hprm : s'.log.prmFreed = s.log.prmFreed ++ b.prm.toList)
      (hrelease : s.release t = some (.free x b))

section Steps

variable [DecidableEq M] [DecidableEq T] {addr : MsgPtr}

/-- The answer of `OSA_mbxAckOrFreeMsg` to a message that waits for it. -/
theorem run_answer {x : MsgPtr} {v : ℤ} {next : MbxNext M} {b : MsgBlock M} {q : MsgqPtr M}
    (hpc : s.pc t = .ackOrFree x v next) (hb : s.mem x = some b) (hwaits : b.waitsAck = true)
    (hfrom : b.pFrom = some q) :
    s.run t addr = some ({ s with
      mem := Function.update s.mem x (some { b with status := v })
      log := { s.log with acks := s.log.acks ++ [(b.serial, v)] } }.goto t
        (.sendAck q x next)) := by
  have hflag : hasFlag b.flags osaMbxWaitAck = true := hwaits
  simp only [MbxState.run, hpc, MbxState.osaMbxAckOrFreeMsg, hb, Option.bind_some, hflag, if_true,
    hfrom, Option.map_some, Option.getD_some]

/-- `OSA_mbxAckOrFreeMsg` frees any other message. -/
theorem run_free {x : MsgPtr} {v : ℤ} {next : MbxNext M} {b : MsgBlock M}
    (hpc : s.pc t = .ackOrFree x v next) (hb : s.mem x = some b) (hwaits : b.waitsAck = false) :
    s.run t addr = some ({ s with
      mem := Function.update s.mem x none
      log := { s.log with
        acks := s.log.acks ++ [(b.serial, v)]
        freed := s.log.freed ++ [b.serial]
        prmFreed := s.log.prmFreed ++ b.prm.toList } }.goto t next.pc) := by
  have hflag : hasFlag b.flags osaMbxWaitAck = false := hwaits
  have hb' : ({ s with log := { s.log with acks := s.log.acks ++ [(b.serial, v)] } } :
      MbxState M T).mem x = some b := hb
  simp only [MbxState.run, hpc, MbxState.osaMbxAckOrFreeMsg, hb, Option.bind_some, hflag,
    Bool.false_eq_true, if_false, MbxState.osaMbxFreeMsg_eq hb', Option.map_some, Option.getD_some]

/-- The loop over the `ackMbx` of `OSA_mbxFlush` frees a message. -/
theorem run_flushGot {m : M} {x : MsgPtr} {b : MsgBlock M} (hpc : s.pc t = .flushGot m x)
    (hb : s.mem x = some b) :
    s.run t addr = some ({ s with
      mem := Function.update s.mem x none
      log := { s.log with
        freed := s.log.freed ++ [b.serial]
        prmFreed := s.log.prmFreed ++ b.prm.toList } }.goto t (.flushAck m)) := by
  simp only [MbxState.run, hpc, MbxState.osaMbxFreeMsg_eq hb, Option.map_some, Option.getD_some]

/-- A message that is passed to `OSA_mbxAckOrFreeMsg` and waits for an ACK has a sender. -/
def MbxState.Answers (s : MbxState M T) (t : T) : Prop :=
  ∀ x v next b, s.pc t = .ackOrFree x v next → s.mem x = some b → b.waitsAck = true →
    ∃ q, b.pFrom = some q

omit [DecidableEq M] [DecidableEq T] in
theorem MbxState.answers_of_held {x : MsgPtr} {b : MsgBlock M} (hheld : (s.pc t).held = some x)
    (hb : s.mem x = some b) (hsender : b.waitsAck = true → ∃ q, b.pFrom = some q) :
    s.Answers t := by
  intro y v next b' hpc hb'
  obtain rfl : y = x := by
    rw [hpc] at hheld
    exact Option.some.inj hheld
  obtain rfl : b = b' := Option.some.inj (hb.symm.trans hb')
  exact hsender

omit [DecidableEq M] [DecidableEq T] in
theorem MbxState.answers_of_ne (hpc : ∀ x v next, s.pc t ≠ .ackOrFree x v next) : s.Answers t :=
  fun x v next _ h ↦ (hpc x v next h).elim

theorem run_drainEffect (hrings : ∀ q, (s.msgq q).Rep osaMsgqLenMax)
    (hcall : (s.pc t).call = none)
    (hheld : ∀ x, (s.pc t).held = some x → ∃ b, s.mem x = some b) (hsender : s.Answers t)
    (h : s.run t addr = some s') : DrainEffect s t s' := by
  have hstill : ∀ pc hands, s.release t = none →
      DrainEffect s t { s.goto t pc with hands := hands } := by
    intro pc hands hnone
    exact .move rfl rfl hrings fun r hr ↦ by rw [hnone] at hr; cases hr
  have htake : ∀ {q hndl} pc hands, hndl.Rep osaMsgqLenMax → s.release t = none →
      DrainEffect s t { { s with msgq := Function.update s.msgq q hndl }.goto t pc with
        hands := hands } := by
    intro q hndl pc hands hrep hnone
    exact .move rfl rfl (rings_update hrings hrep) fun r hr ↦ by rw [hnone] at hr; cases hr
  cases hpc : s.pc t with
  | idle | fault => simp [MbxState.run, hpc] at h
  | alloc | put | sendWait | sendGot | bcastWait | bcastGot =>
      rw [hpc] at hcall
      cases hcall
  | recv m timeout =>
      have hnone : s.release t = none := by simp [MbxState.release, hpc]
      simp only [MbxState.run, hpc] at h
      obtain ⟨r, hr, rfl⟩ := Option.map_eq_some_iff.mp h
      rcases recvMsg_cases hrings hr with ⟨hndl, x, rfl, hrep, -⟩ | ⟨rfl, -⟩
      · exact htake _ _ hrep hnone
      · exact hstill _ _ hnone
  | waitCmd m pMsg cmd =>
      have hnone : s.release t = none := by simp [MbxState.release, hpc]
      simp only [MbxState.run, hpc] at h
      obtain ⟨r, hr, h⟩ := Option.bind_eq_some_iff.mp h
      obtain ⟨x, -, rfl⟩ := Option.map_eq_some_iff.mp h
      rcases recvMsg_cases hrings hr with ⟨hndl, x, rfl, hrep, -⟩ | ⟨rfl, -⟩
      · exact htake _ _ hrep hnone
      · exact hstill _ _ hnone
  | flushRcv m | flushAck m =>
      have hnone : s.release t = none := by simp [MbxState.release, hpc]
      simp only [MbxState.run, hpc] at h
      obtain ⟨r, hr, rfl⟩ := Option.map_eq_some_iff.mp h
      rcases recvMsg_cases hrings hr with ⟨hndl, x, rfl, hrep, -⟩ | ⟨rfl, -⟩
      · exact htake _ _ hrep hnone
      · exact hstill _ _ hnone
  | waitCmdGot m pMsg cmd x =>
      have hnone : s.release t = none := by simp [MbxState.release, hpc]
      obtain ⟨b, hb⟩ := hheld x (by rw [hpc]; rfl)
      simp only [MbxState.run, hpc, hb] at h
      split at h
      · split at h
        · cases h
          exact hstill _ _ hnone
        · cases h
          exact hstill _ _ hnone
      · cases h
        exact hstill _ _ hnone
  | ackOrFree x v next =>
      obtain ⟨b, hb⟩ := hheld x (by rw [hpc]; rfl)
      cases hwaits : b.waitsAck with
      | true =>
          obtain ⟨q, hq⟩ := hsender x v next b hpc hb hwaits
          rw [run_answer hpc hb hwaits hq] at h
          cases h
          exact .answer x _ (by rw [hpc]; rfl) rfl rfl rfl rfl
            (by simp [MbxState.release, hpc, hb, hwaits])
      | false =>
          rw [run_free hpc hb hwaits] at h
          cases h
          exact .free x b (by rw [hpc]; rfl) rfl rfl rfl rfl
            (by simp [MbxState.release, hpc, hb, hwaits])
  | sendAck q x next =>
      obtain ⟨b, hb⟩ := hheld x (by rw [hpc]; rfl)
      simp only [MbxState.run, hpc] at h
      obtain ⟨s₁, hsend, rfl⟩ := Option.map_eq_some_iff.mp h
      obtain ⟨hndl, rfl, hrep, -⟩ := send_cases hrings hsend
      refine .move rfl rfl (rings_update hrings hrep) fun r hr ↦ ?_
      simp only [MbxState.release, hpc, hb, Option.map_some, Option.mem_some_iff] at hr
      subst hr
      exact ⟨rfl, hb⟩
  | flushGot m x =>
      obtain ⟨b, hb⟩ := hheld x (by rw [hpc]; rfl)
      rw [run_flushGot hpc hb] at h
      cases h
      exact .free x b (by rw [hpc]; rfl) rfl rfl rfl rfl (by simp [MbxState.release, hpc, hb])

/-- What such a step does to queues and memory: no message is touched but the one in the thread's
hand, and no queue changes otherwise than by the release. -/
structure Drains (s : MbxState M T) (t : T) (s' : MbxState M T) : Prop where
  rings : ∀ q, (s'.msgq q).Rep osaMsgqLenMax
  mem : ∀ y, (s.pc t).held ≠ some y → s'.mem y = s.mem y
  released : Released (fun q ↦ (s.pc t).source = some q) s (s.release t).toList s'
  stored : ∀ r ∈ s.release t, r.Stored s'.mem

omit [DecidableEq T] in
/-- The queues get what the release puts into them. -/
theorem msgqSend_release (hcall : (s.pc t).call = none) (q : MsgqPtr M) :
    ((s.msgqSend (.run t addr)).toList.filter fun e ↦ e.msgq = q).map MsgqSend.msg =
      (s.release t).toList.filterMap (Release.ackTo q) := by
  simp only [MbxState.msgqSend, MbxState.release]
  cases hpc : s.pc t with
  | alloc | put | sendWait | sendGot | bcastWait | bcastGot =>
      rw [hpc] at hcall
      cases hcall
  | idle | recv | waitCmd | waitCmdGot | flushRcv | flushAck | fault => rfl
  | sendAck r x next =>
      cases hb : s.mem x with
      | none => simp [hb]
      | some b =>
          by_cases hr : r = q
          · simp [hb, hr, Release.ackTo]
          · simp [hb, hr, Release.ackTo]
  | ackOrFree x v next =>
      cases hb : s.mem x with
      | none => simp [hb]
      | some b => cases hwaits : b.waitsAck <;> simp [hb, hwaits, Release.ackTo]
  | flushGot m x => cases hb : s.mem x <;> simp [hb, Release.ackTo]

theorem run_drains (hrings : ∀ q, (s.msgq q).Rep osaMsgqLenMax) (hcall : (s.pc t).call = none)
    (hheld : ∀ x, (s.pc t).held = some x → ∃ b, s.mem x = some b) (hsender : s.Answers t)
    (h : s.run t addr = some s') : Drains s t s' := by
  have hqueues : ∀ q, ¬(s.pc t).source = some q → (s'.msgq q).items =
      (s.msgq q).items ++ (s.release t).toList.filterMap (Release.ackTo q) := by
    intro q hq
    rw [run_items hrings hheld h hq, msgqSend_release hcall q]
  cases run_drainEffect hrings hcall hheld hsender h with
  | move hmem hlog hrings' hrelease =>
      have hnone : (s.release t).toList.filterMap Release.freed = [] := by
        rw [List.filterMap_eq_nil_iff]
        exact fun r hr ↦ (hrelease r (Option.mem_toList.mp hr)).1
      refine ⟨hrings', fun y _ ↦ by rw [hmem], ⟨hqueues, ?_, ?_⟩, fun r hr ↦ ?_⟩
      · rw [hlog, hnone]
        exact (List.append_nil _).symm
      · rw [hlog, hnone]
        exact (List.append_nil _).symm
      · rw [hmem]
        exact (hrelease r hr).2
  | answer x b hx hmem hmsgq hfreed hprm hrelease =>
      refine ⟨fun q ↦ by rw [hmsgq]; exact hrings q, fun y hy ↦ ?_, ⟨hqueues, ?_, ?_⟩, ?_⟩
      · rw [hmem, Function.update_of_ne]
        rintro rfl
        exact hy hx
      · rw [hfreed, hrelease]
        exact (List.append_nil _).symm
      · rw [hprm, hrelease]
        exact (List.append_nil _).symm
      · rw [hrelease]
        exact fun r hr ↦ by cases hr
  | free x b hx hmem hmsgq hfreed hprm hrelease =>
      refine ⟨fun q ↦ by rw [hmsgq]; exact hrings q, fun y hy ↦ ?_, ⟨hqueues, ?_, ?_⟩,
        fun r hr ↦ ?_⟩
      · rw [hmem, Function.update_of_ne]
        rintro rfl
        exact hy hx
      · rw [hfreed, hrelease]
        rfl
      · rw [hprm, hrelease]
        simp [Release.freed]
      · rw [hrelease, Option.mem_some_iff] at hr
        subst hr
        rw [hmem]
        exact Function.update_self ..

end Steps

end OsaBase
