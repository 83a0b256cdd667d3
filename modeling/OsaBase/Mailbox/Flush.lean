import Mathlib.Computability.StateTransition
import OsaBase.Mailbox.WaitCmd

/-!
# Flushing a mailbox

`OSA_mbxFlush` drains `rcvMbx`, releasing its messages, and then `ackMbx`, freeing what is there; a
message of the mailbox to itself goes from the first queue into the second. The thread runs alone.
Each loop ends when `OSA_msgqRecvMsg` fails, and the status that ended the second is returned.
-/

open StateTransition

namespace OsaBase

variable {M T : Type} {s s' : MbxState M T} {t : T} {m : M}

/-! ## One drain loop -/

section Loop

variable [DecidableEq M] {src : MsgqPtr M} {rel : RcvMsg M → Release M}
  {after : RcvMsg M → Option (MsgBlock M)}

/-- The messages `es` were taken off `src` and released as `rel` says; `after` is what is left at
their handles, and nothing else in the memory has changed. -/
structure Drained (src : MsgqPtr M) (rel : RcvMsg M → Release M)
    (after : RcvMsg M → Option (MsgBlock M)) (s : MbxState M T) (es : List (RcvMsg M))
    (s' : MbxState M T) : Prop where
  rings : ∀ q, (s'.msgq q).Rep osaMsgqLenMax
  released : Released (· = src) s (es.map rel) s'
  other : ∀ y, y ∉ es.map RcvMsg.msg → s'.mem y = s.mem y
  each : ∀ e ∈ es, s'.mem e.msg = after e

theorem Drained.cons {s'' : MbxState M T} {e : RcvMsg M} {es : List (RcvMsg M)}
    (h : Drained src rel after s [e] s') (h' : Drained src rel after s' es s'')
    (hnew : e.msg ∉ es.map RcvMsg.msg) : Drained src rel after s (e :: es) s'' := by
  refine ⟨h'.rings, h.released.trans h'.released, fun y hy ↦ ?_, fun d hd ↦ ?_⟩
  · rw [List.map_cons, List.mem_cons, not_or] at hy
    rw [h'.other y hy.2, h.other y (by simpa using hy.1)]
  · rcases List.mem_cons.mp hd with rfl | hd
    · rw [h'.other _ hnew, h.each _ (by simp)]
    · exact h'.each d hd

/-- The answers to the messages find room. -/
def Room (src : MsgqPtr M) (rel : RcvMsg M → Release M) (s : MbxState M T)
    (es : List (RcvMsg M)) : Prop :=
  ∀ q, q ≠ src →
    (s.msgq q).items.length + ((es.map rel).filterMap (Release.ackTo q)).length ≤ osaMsgqLenMax

theorem Room.next {e : RcvMsg M} {es : List (RcvMsg M)} (h : Room src rel s (e :: es))
    (hd : Drained src rel after s [e] s') : Room src rel s' es := by
  intro q hq
  have hroom := h q hq
  rw [hd.released.queues q hq]
  rw [List.map_cons, List.filterMap_cons] at hroom
  simp only [List.map_cons, List.map_nil, List.length_append]
  cases hack : (rel e).ackTo q with
  | none => simpa [hack] using hroom
  | some x =>
      simp only [hack, List.length_cons] at hroom
      simp only [List.filterMap_cons, hack, List.filterMap_nil, List.length_singleton]
      omega

variable [DecidableEq T] {pc : MbxPc M}

/-- A loop whose passes each release the message at the front releases all of them. -/
theorem drain_loop (good : RcvMsg M → Prop) (addr : MsgPtr)
    (hpass : ∀ (s : MbxState M T) (e : RcvMsg M) (xs : List MsgPtr), s.pc t = pc →
      (∀ q, (s.msgq q).Rep osaMsgqLenMax) → (s.msgq src).items = e.msg :: xs →
      s.mem e.msg = some e.block → good e → Room src rel s [e] →
      ∃ s', Reaches (fun s ↦ s.run t addr) s s' ∧ s'.pc t = pc ∧ (s'.msgq src).items = xs ∧
        Drained src rel after s [e] s')
    (es : List (RcvMsg M)) (hpc : s.pc t = pc) (hrings : ∀ q, (s.msgq q).Rep osaMsgqLenMax)
    (hitems : (s.msgq src).items = es.map RcvMsg.msg) (hnodup : (es.map RcvMsg.msg).Nodup)
    (hstored : ∀ e ∈ es, s.mem e.msg = some e.block) (hgood : ∀ e ∈ es, good e)
    (hroom : Room src rel s es) :
    ∃ s', Reaches (fun s ↦ s.run t addr) s s' ∧ s'.pc t = pc ∧ (s'.msgq src).items = [] ∧
      Drained src rel after s es s' := by
  induction es generalizing s with
  | nil =>
      exact ⟨s, .refl, hpc, hitems, hrings, Released.refl _ s, fun _ _ ↦ rfl,
        fun e he ↦ by cases he⟩
  | cons e es ih =>
      have hnew : e.msg ∉ es.map RcvMsg.msg := (List.nodup_cons.mp hnodup).1
      have hfirst : Room src rel s [e] := by
        intro q hq
        refine le_trans (Nat.add_le_add_left ?_ _) (hroom q hq)
        exact ((List.sublist_append_left [rel e] (es.map rel)).filterMap _).length_le
      obtain ⟨s₁, hreach, hpc₁, hitems₁, hd⟩ := hpass s e (es.map RcvMsg.msg) hpc hrings hitems
        (hstored e (by simp)) (hgood e (by simp)) hfirst
      have hstored₁ : ∀ d ∈ es, s₁.mem d.msg = some d.block := by
        intro d hd'
        rw [hd.other d.msg, hstored d (by simp [hd'])]
        rintro hmem
        rw [List.map_singleton, List.mem_singleton] at hmem
        exact hnew (hmem ▸ List.mem_map_of_mem hd')
      obtain ⟨s₂, hreach', hpc₂, hitems₂, hd'⟩ := ih hpc₁ hd.rings hitems₁
        (List.nodup_cons.mp hnodup).2 hstored₁ (fun d hd ↦ hgood d (by simp [hd])) (hroom.next hd)
      exact ⟨s₂, hreach.trans hreach', hpc₂, hitems₂, hd.cons hd' hnew⟩

end Loop

/-! ## One pass of each loop -/

section Pass

variable [DecidableEq M]

/-- Some steps of the thread that handle the message `x` and release `rs`. -/
structure Handles (src : MsgqPtr M) (x : MsgPtr) (s : MbxState M T) (rs : List (Release M))
    (s' : MbxState M T) : Prop where
  rings : ∀ q, (s'.msgq q).Rep osaMsgqLenMax
  released : Released (· = src) s rs s'
  other : ∀ y, y ≠ x → s'.mem y = s.mem y

variable {src : MsgqPtr M} {x : MsgPtr} {rs : List (Release M)}

theorem Handles.refl (hrings : ∀ q, (s.msgq q).Rep osaMsgqLenMax) : Handles src x s [] s :=
  ⟨hrings, Released.refl _ s, fun _ _ ↦ rfl⟩

theorem Handles.step {s'' : MbxState M T} (h : Handles src x s rs s') (hd : Drains s' t s'')
    (hsource : ∀ q, (s'.pc t).source = some q → q = src)
    (hheld : ∀ y, (s'.pc t).held = some y → y = x) :
    Handles src x s (rs ++ (s'.release t).toList) s'' := by
  refine ⟨hd.rings, h.released.trans (hd.released.mono hsource), fun y hy ↦ ?_⟩
  rw [hd.mem y fun hy' ↦ hy (hheld y hy'), h.other y hy]

theorem Handles.drained {rel : RcvMsg M → Release M} {after : RcvMsg M → Option (MsgBlock M)}
    {e : RcvMsg M} (h : Handles src e.msg s [rel e] s') (hleft : s'.mem e.msg = after e) :
    Drained src rel after s [e] s' := by
  refine ⟨h.rings, h.released, fun y hy ↦ h.other y (by simpa using hy), fun d hd ↦ ?_⟩
  obtain rfl := List.mem_singleton.mp hd
  exact hleft

variable [DecidableEq T]

/-- The message at the front of the queue is taken. -/
theorem take_front (addr : MsgPtr) (pc : MbxPc M) {xs : List MsgPtr}
    (hrun : ∀ r, s.recvMsg src osaTimeoutNone = some (r, some x) →
      s.run t addr = some (r.goto t pc))
    (hsource : (s.pc t).source = some src) (hheld : (s.pc t).held = none)
    (hcall : (s.pc t).call = none) (hrelease : s.release t = none)
    (hrings : ∀ q, (s.msgq q).Rep osaMsgqLenMax) (hitems : (s.msgq src).items = x :: xs) :
    ∃ s₁, s.run t addr = some s₁ ∧ s₁.pc t = pc ∧ (s₁.msgq src).items = xs ∧
      s₁.mem x = s.mem x ∧ Handles src x s [] s₁ := by
  obtain ⟨hndl, hrecv, hxs⟩ := recvMsg_eq (hrings src) hitems osaTimeoutNone
  have hstep := hrun _ hrecv
  have hnotHeld : ∀ y, (s.pc t).held ≠ some y := by
    intro y hy
    rw [hheld] at hy
    cases hy
  have hanswers : s.Answers t :=
    MbxState.answers_of_ne fun y v next hpc ↦ hnotHeld y (by rw [hpc]; rfl)
  have hd := run_drains hrings hcall (fun y hy ↦ (hnotHeld y hy).elim) hanswers hstep
  refine ⟨_, hstep, MbxState.goto_pc_self .., ?_, rfl, ?_⟩
  · change (Function.update s.msgq src hndl src).items = xs
    rw [Function.update_self, hxs]
  · have h := (Handles.refl (x := x) hrings).step hd
      (fun q hq ↦ Option.some.inj (hq.symm.trans hsource)) (fun y hy ↦ (hnotHeld y hy).elim)
    rwa [hrelease] at h

/-- The thread goes on with the message in its hand. -/
theorem Handles.run {s₁ s₂ : MbxState M T} {addr : MsgPtr} (h : Handles src x s rs s₁)
    (hcall : (s₁.pc t).call = none) (hsource : (s₁.pc t).source = none)
    (hheld : (s₁.pc t).held = some x) {b : MsgBlock M} (hmem : s₁.mem x = some b)
    (hanswers : s₁.Answers t) (hrun : s₁.run t addr = some s₂) :
    Handles src x s (rs ++ (s₁.release t).toList) s₂ ∧
      (s₂.msgq src).items =
        (s₁.msgq src).items ++ (s₁.release t).toList.filterMap (Release.ackTo src) := by
  have hx : ∀ y, (s₁.pc t).held = some y → y = x := fun y hy ↦
    Option.some.inj (hy.symm.trans hheld)
  have hd := run_drains h.rings hcall (fun y hy ↦ ⟨b, hx y hy ▸ hmem⟩) hanswers hrun
  refine ⟨h.step hd (fun q hq ↦ ?_) hx, hd.released.queues src ?_⟩
  · rw [hsource] at hq
    cases hq
  · rw [hsource]
    exact fun hq ↦ by cases hq

/-- What is left at the handle of a message that `OSA_mbxAckOrFreeMsg` released. -/
def RcvMsg.left (e : RcvMsg M) : Option (MsgBlock M) :=
  if e.block.waitsAck then some e.answered.block else none

section Released

variable {s₁ : MbxState M T} {e : RcvMsg M}

/-- A message that waits for no ACK is freed. -/
theorem free_held (addr : MsgPtr) (h : Handles (.rcvMbx m) e.msg s [] s₁)
    (hpc : s₁.pc t = .ackOrFree e.msg osaSok (.flush m)) (hmem : s₁.mem e.msg = some e.block)
    (hwaits : e.block.waitsAck = false) :
    ∃ s', Reaches (fun s ↦ s.run t addr) s₁ s' ∧ s'.pc t = .flushRcv m ∧
      (s'.msgq (.rcvMbx m)).items = (s₁.msgq (.rcvMbx m)).items ∧
        Drained (.rcvMbx m) RcvMsg.release RcvMsg.left s [e] s' := by
  obtain ⟨s₂, hrun, hpc₂, hmem₂⟩ : ∃ s₂, s₁.run t addr = some s₂ ∧ s₂.pc t = .flushRcv m ∧
      s₂.mem e.msg = none :=
    ⟨_, run_free hpc hmem hwaits, MbxState.goto_pc_self .., Function.update_self ..⟩
  have hrelease : s₁.release t = some e.release := by
    simp [MbxState.release, hpc, hmem, hwaits, RcvMsg.release]
  have hheld : (s₁.pc t).held = some e.msg := by rw [hpc]; rfl
  have hanswers : s₁.Answers t :=
    MbxState.answers_of_held hheld hmem fun htrue ↦ by rw [hwaits] at htrue; cases htrue
  obtain ⟨h₂, hitems₂⟩ := h.run (by rw [hpc]; rfl) (by rw [hpc]; rfl) hheld hmem hanswers hrun
  rw [hrelease] at h₂ hitems₂
  refine ⟨s₂, .single hrun, hpc₂, ?_, h₂.drained ?_⟩
  · rw [hitems₂]
    simp [RcvMsg.release, hwaits, Release.ackTo]
  · rw [hmem₂, RcvMsg.left, hwaits]
    rfl

/-- A message that waits for an ACK is answered and put into the queue of its sender. -/
theorem answer_held (addr : MsgPtr) (h : Handles (.rcvMbx m) e.msg s [] s₁)
    (hpc : s₁.pc t = .ackOrFree e.msg osaSok (.flush m)) (hmem : s₁.mem e.msg = some e.block)
    (hwaits : e.block.waitsAck = true) {k : M} (hk : e.block.pFrom = some (.ackMbx k))
    (hroom : (s.msgq (.ackMbx k)).items.length < osaMsgqLenMax) :
    ∃ s', Reaches (fun s ↦ s.run t addr) s₁ s' ∧ s'.pc t = .flushRcv m ∧
      (s'.msgq (.rcvMbx m)).items = (s₁.msgq (.rcvMbx m)).items ∧
        Drained (.rcvMbx m) RcvMsg.release RcvMsg.left s [e] s' := by
  obtain ⟨s₂, hrun₂, hpc₂, hmem₂, hmsgq₂⟩ : ∃ s₂, s₁.run t addr = some s₂ ∧
      s₂.pc t = .sendAck (.ackMbx k) e.msg (.flush m) ∧
      s₂.mem e.msg = some e.answered.block ∧ s₂.msgq = s₁.msgq :=
    ⟨_, run_answer hpc hmem hwaits hk, MbxState.goto_pc_self .., Function.update_self .., rfl⟩
  have hrelease₁ : s₁.release t = none := by simp [MbxState.release, hpc, hmem, hwaits]
  have hheld : (s₁.pc t).held = some e.msg := by rw [hpc]; rfl
  obtain ⟨h₂, -⟩ := h.run (by rw [hpc]; rfl) (by rw [hpc]; rfl) hheld hmem
    (MbxState.answers_of_held hheld hmem fun _ ↦ ⟨_, hk⟩) hrun₂
  rw [hrelease₁] at h₂
  have hroom₂ : (s₂.msgq (.ackMbx k)).items.length < osaMsgqLenMax := by
    have hsame := h₂.released.queues (.ackMbx k) (fun heq ↦ by cases heq)
    simp only [List.append_nil, Option.toList_none, List.filterMap_nil] at hsame
    rwa [hsame]
  obtain ⟨s₃, hsend, hmem₃⟩ := send_eq (x := e.msg) (h₂.rings (.ackMbx k)) hroom₂
  have hrun₃ : s₂.run t addr = some (s₃.goto t (.flushRcv m)) := by
    simp only [MbxState.run, hpc₂, hsend, Option.map_some]
    rfl
  have hrelease₂ : s₂.release t = some e.release := by
    simp [MbxState.release, hpc₂, hmem₂, hwaits, hk, RcvMsg.release]
  obtain ⟨h₃, hitems₃⟩ := h₂.run (by rw [hpc₂]; rfl) (by rw [hpc₂]; rfl) (by rw [hpc₂]; rfl) hmem₂
    (MbxState.answers_of_ne fun x v next hpc ↦ by rw [hpc₂] at hpc; cases hpc) hrun₃
  rw [hrelease₂] at h₃ hitems₃
  refine ⟨_, .head hrun₂ (.single hrun₃), MbxState.goto_pc_self .., ?_, h₃.drained ?_⟩
  · rw [hitems₃, hmsgq₂]
    simp [RcvMsg.release, hwaits, hk, Release.ackTo]
  · rw [RcvMsg.left, hwaits]
    exact (congrFun hmem₃ e.msg).trans hmem₂

end Released

/-- The message at the front of `rcvMbx` is released. -/
theorem rcv_pass (addr : MsgPtr) (hpc : s.pc t = .flushRcv m)
    (hrings : ∀ q, (s.msgq q).Rep osaMsgqLenMax) {e : RcvMsg M} {xs : List MsgPtr}
    (hitems : (s.msgq (.rcvMbx m)).items = e.msg :: xs)
    (hstored : s.mem e.msg = some e.block) (hsender : e.HasSender)
    (hroom : Room (.rcvMbx m) RcvMsg.release s [e]) :
    ∃ s', Reaches (fun s ↦ s.run t addr) s s' ∧ s'.pc t = .flushRcv m ∧
      (s'.msgq (.rcvMbx m)).items = xs ∧
        Drained (.rcvMbx m) RcvMsg.release RcvMsg.left s [e] s' := by
  obtain ⟨s₁, hrun₁, hpc₁, hitems₁, hmem₁, h₁⟩ :=
    take_front (t := t) addr (.ackOrFree e.msg osaSok (.flush m))
      (fun r hr ↦ by simp only [MbxState.run, hpc, hr, Option.map_some])
      (by rw [hpc]; rfl) (by rw [hpc]; rfl) (by rw [hpc]; rfl)
      (by simp [MbxState.release, hpc]) hrings hitems
  rw [hstored] at hmem₁
  obtain ⟨s', hreach, hpc', hitems', hd⟩ : ∃ s', Reaches (fun s ↦ s.run t addr) s₁ s' ∧
      s'.pc t = .flushRcv m ∧ (s'.msgq (.rcvMbx m)).items = (s₁.msgq (.rcvMbx m)).items ∧
        Drained (.rcvMbx m) RcvMsg.release RcvMsg.left s [e] s' := by
    cases hwaits : e.block.waitsAck with
    | false => exact free_held addr h₁ hpc₁ hmem₁ hwaits
    | true =>
        obtain ⟨k, hk⟩ := hsender hwaits
        refine answer_held addr h₁ hpc₁ hmem₁ hwaits hk ?_
        have hfree := hroom (.ackMbx k) (fun h ↦ by cases h)
        simpa [RcvMsg.release, hwaits, hk, Release.ackTo, Nat.succ_le_iff] using hfree
  exact ⟨s', .head hrun₁ hreach, hpc', hitems'.trans hitems₁, hd⟩

/-- What the loop over `ackMbx` does with a message. -/
def RcvMsg.free (e : RcvMsg M) : Release M := .free e.msg e.block

/-- The message at the front of `ackMbx` is freed. -/
theorem ack_pass (addr : MsgPtr) (hpc : s.pc t = .flushAck m)
    (hrings : ∀ q, (s.msgq q).Rep osaMsgqLenMax) {e : RcvMsg M} {xs : List MsgPtr}
    (hitems : (s.msgq (.ackMbx m)).items = e.msg :: xs)
    (hstored : s.mem e.msg = some e.block) :
    ∃ s', Reaches (fun s ↦ s.run t addr) s s' ∧ s'.pc t = .flushAck m ∧
      (s'.msgq (.ackMbx m)).items = xs ∧
        Drained (.ackMbx m) RcvMsg.free (fun _ ↦ none) s [e] s' := by
  obtain ⟨s₁, hrun₁, hpc₁, hitems₁, hmem₁, h₁⟩ :=
    take_front (t := t) addr (.flushGot m e.msg)
      (fun r hr ↦ by simp only [MbxState.run, hpc, hr, Option.map_some])
      (by rw [hpc]; rfl) (by rw [hpc]; rfl) (by rw [hpc]; rfl)
      (by simp [MbxState.release, hpc]) hrings hitems
  rw [hstored] at hmem₁
  obtain ⟨s₂, hrun₂, hpc₂, hmem₂⟩ : ∃ s₂, s₁.run t addr = some s₂ ∧ s₂.pc t = .flushAck m ∧
      s₂.mem e.msg = none :=
    ⟨_, run_flushGot hpc₁ hmem₁, MbxState.goto_pc_self .., Function.update_self ..⟩
  have hrelease : s₁.release t = some e.free := by
    simp [MbxState.release, hpc₁, hmem₁, RcvMsg.free]
  obtain ⟨h₂, hitems₂⟩ := h₁.run (by rw [hpc₁]; rfl) (by rw [hpc₁]; rfl) (by rw [hpc₁]; rfl) hmem₁
    (MbxState.answers_of_ne fun x v next hpc ↦ by rw [hpc₁] at hpc; cases hpc) hrun₂
  rw [hrelease] at h₂ hitems₂
  refine ⟨s₂, .head hrun₁ (.single hrun₂), hpc₂, ?_, h₂.drained hmem₂⟩
  rw [hitems₂, hitems₁]
  simp [RcvMsg.free, Release.ackTo]

end Pass

/-! ## The call -/

section Call

variable [DecidableEq M] {rcv ack : List (RcvMsg M)}

/-- What the two queues hold when the call begins; the answers to `rcv` find room. -/
structure FlushContent (m : M) (s : MbxState M T) (rcv ack : List (RcvMsg M)) : Prop where
  rings : ∀ q, (s.msgq q).Rep osaMsgqLenMax
  rcvMbx : (s.msgq (.rcvMbx m)).items = rcv.map RcvMsg.msg
  ackMbx : (s.msgq (.ackMbx m)).items = ack.map RcvMsg.msg
  nodup : ((rcv ++ ack).map RcvMsg.msg).Nodup
  stored : ∀ e ∈ rcv ++ ack, s.mem e.msg = some e.block
  sender : ∀ e ∈ rcv, e.HasSender
  room : ∀ k, (s.msgq (.ackMbx k)).items.length +
    ((rcv.map RcvMsg.release).filterMap (Release.ackTo (.ackMbx k))).length ≤ osaMsgqLenMax

/-- A message of the mailbox to itself that waits for its ACK. -/
def RcvMsg.isOwn (m : M) (e : RcvMsg M) : Bool :=
  e.block.waitsAck && e.block.pFrom == some (.ackMbx m)

/-- The messages that go from `rcvMbx` into `ackMbx`. -/
def toItself (m : M) (rcv : List (RcvMsg M)) : List (RcvMsg M) :=
  (rcv.filter (RcvMsg.isOwn m)).map RcvMsg.answered

/-- Both queues are empty; the messages of `rcvMbx` were released in order and those that were or
came into `ackMbx` were freed in order, and nothing else was. -/
structure Flushed (m : M) (s : MbxState M T) (rcv ack : List (RcvMsg M)) (s' : MbxState M T) :
    Prop where
  rcvMbx : (s'.msgq (.rcvMbx m)).items = []
  ackMbx : (s'.msgq (.ackMbx m)).items = []
  released : Released (fun q ↦ q = .rcvMbx m ∨ q = .ackMbx m) s
    (rcv.map RcvMsg.release ++ (ack ++ toItself m rcv).map RcvMsg.free) s'
  answered : ∀ e ∈ rcv, e.block.waitsAck = true → e.isOwn m = false →
    s'.mem e.msg = some e.answered.block
  freed : ∀ e ∈ rcv, (e.block.waitsAck = true → e.isOwn m = true) → s'.mem e.msg = none
  ackFreed : ∀ e ∈ ack, s'.mem e.msg = none

theorem answered_toItself (m : M) (rcv : List (RcvMsg M)) :
    (rcv.map RcvMsg.release).filterMap (Release.ackTo (.ackMbx m)) =
      (toItself m rcv).map RcvMsg.msg := by
  induction rcv with
  | nil => rfl
  | cons e rcv ih =>
      rw [List.map_cons, List.filterMap_cons, ih, toItself, toItself, List.filter_cons]
      cases hwaits : e.block.waitsAck with
      | false => simp [RcvMsg.release, RcvMsg.isOwn, hwaits, Release.ackTo]
      | true =>
          by_cases hfrom : e.block.pFrom = some (.ackMbx m)
          · simp [RcvMsg.release, RcvMsg.isOwn, hwaits, hfrom, Release.ackTo, RcvMsg.answered]
          · simp [RcvMsg.release, RcvMsg.isOwn, hwaits, hfrom, Release.ackTo]

theorem toItself_msg (m : M) (rcv : List (RcvMsg M)) :
    ((toItself m rcv).map RcvMsg.msg).Sublist (rcv.map RcvMsg.msg) := by
  have hmsg : (toItself m rcv).map RcvMsg.msg = (rcv.filter (RcvMsg.isOwn m)).map RcvMsg.msg := by
    rw [toItself, List.map_map]
    rfl
  rw [hmsg]
  exact List.filter_sublist.map _

variable [DecidableEq T]

/-- The call runs to its end, drains both queues and returns `retVal`. -/
def FlushEnds (m : M) (t : T) (addr : MsgPtr) (s : MbxState M T) (rcv ack : List (RcvMsg M))
    (retVal : ℤ) : Prop :=
  ∃ s' ∈ eval (fun s ↦ s.run t addr) (s.invoke t (.flush m)),
    s'.pc t = .idle retVal ∧ Flushed m s rcv ack s'

/-- A call returns one value. -/
theorem FlushEnds.unique {addr : MsgPtr} {retVal retVal' : ℤ}
    (h : FlushEnds m t addr s rcv ack retVal) (h' : FlushEnds m t addr s rcv ack retVal') :
    retVal = retVal' := by
  obtain ⟨s₁, heval, hpc, -⟩ := h
  obtain ⟨s₂, heval', hpc', -⟩ := h'
  obtain rfl := Part.mem_unique heval heval'
  rw [hpc] at hpc'
  exact MbxPc.idle.inj hpc'

omit [DecidableEq T] in
theorem FlushContent.room_rcv (h : FlushContent m s rcv ack) :
    Room (.rcvMbx m) RcvMsg.release s rcv := by
  intro q _
  cases q with
  | ackMbx k => exact h.room k
  | rcvMbx k =>
      have hnone : (rcv.map RcvMsg.release).filterMap (Release.ackTo (.rcvMbx k)) = [] := by
        rw [List.filterMap_eq_nil_iff]
        intro r hr
        obtain ⟨e, he, rfl⟩ := List.mem_map.mp hr
        exact (h.sender e he).ackTo_rcvMbx k
      rw [hnone]
      exact length_items_le (h.rings _)

omit [DecidableEq T] in
theorem acks_free (q : MsgqPtr M) (es : List (RcvMsg M)) :
    (es.map RcvMsg.free).filterMap (Release.ackTo q) = [] := by
  rw [List.filterMap_eq_nil_iff]
  intro r hr
  obtain ⟨e, he, rfl⟩ := List.mem_map.mp hr
  rfl

omit [DecidableEq T] in
theorem room_free {src : MsgqPtr M} (hrings : ∀ q, (s.msgq q).Rep osaMsgqLenMax)
    (es : List (RcvMsg M)) : Room src RcvMsg.free s es := by
  intro q _
  rw [acks_free]
  exact length_items_le (hrings q)

omit [DecidableEq T] in
theorem FlushContent.nodup_ack (h : FlushContent m s rcv ack) :
    ((ack ++ toItself m rcv).map RcvMsg.msg).Nodup := by
  have hall := h.nodup
  rw [List.map_append] at hall
  rw [List.map_append]
  exact List.Nodup.sublist ((List.Sublist.refl _).append (toItself_msg m rcv))
    (List.perm_append_comm.nodup hall)

omit [DecidableEq T] in
/-- The other messages of `rcvMbx` do not come into `ackMbx`. -/
theorem FlushContent.not_mem_ack (h : FlushContent m s rcv ack) {e : RcvMsg M} (he : e ∈ rcv)
    (hown : e.isOwn m = false) : e.msg ∉ (ack ++ toItself m rcv).map RcvMsg.msg := by
  have hall := h.nodup
  rw [List.map_append] at hall
  rw [List.map_append, List.mem_append, not_or]
  constructor
  · exact fun hmem ↦ (List.nodup_append.mp hall).2.2 e.msg (List.mem_map_of_mem he) e.msg hmem rfl
  · intro hmem
    obtain ⟨d', hd', hmsg⟩ := List.mem_map.mp hmem
    obtain ⟨d, hd, rfl⟩ := List.mem_map.mp hd'
    obtain ⟨hd, hdown⟩ := List.mem_filter.mp hd
    obtain rfl := List.inj_on_of_nodup_map (List.nodup_append.mp hall).1 hd he hmsg
    rw [hown] at hdown
    cases hdown

/-- The first loop, until `rcvMbx` is empty. -/
theorem FlushContent.drain_rcv (h : FlushContent m s rcv ack) (addr : MsgPtr) :
    ∃ s₁, Reaches (fun s ↦ s.run t addr) (s.invoke t (.flush m)) s₁ ∧ s₁.pc t = .flushAck m ∧
      (s₁.msgq (.rcvMbx m)).items = [] ∧
        (s₁.msgq (.ackMbx m)).items = (ack ++ toItself m rcv).map RcvMsg.msg ∧
          Drained (.rcvMbx m) RcvMsg.release RcvMsg.left s rcv s₁ := by
  have hnodup := h.nodup
  rw [List.map_append] at hnodup
  obtain ⟨s₁, hreach, hpc, hitems, hd⟩ := drain_loop (s := s.invoke t (.flush m)) RcvMsg.HasSender
    addr
    (fun _ _ _ hpc hrings hitems hstored hgood hroom ↦
      rcv_pass addr hpc hrings hitems hstored hgood hroom) rcv (MbxState.goto_pc_self ..) h.rings
    h.rcvMbx (List.nodup_append.mp hnodup).1
    (fun e he ↦ h.stored e (List.mem_append_left _ he)) h.sender h.room_rcv
  have hrun : s₁.run t addr = some (s₁.goto t (.flushAck m)) := by
    simp only [MbxState.run, hpc, recvMsg_nil (hd.rings _) hitems, Option.map_some]
  have hreleased : Released (· = .rcvMbx m) s (rcv.map RcvMsg.release) (s₁.goto t (.flushAck m)) :=
    ⟨hd.released.queues, hd.released.freed, hd.released.prmFreed⟩
  refine ⟨_, hreach.tail hrun, MbxState.goto_pc_self .., hitems, ?_, hd.rings, hreleased, hd.other,
    hd.each⟩
  rw [hreleased.queues (.ackMbx m) (fun heq ↦ by cases heq), h.ackMbx, answered_toItself,
    List.map_append]

omit [DecidableEq T] in
/-- The messages of `ackMbx` when the second loop begins. -/
theorem FlushContent.stored_ack (h : FlushContent m s rcv ack)
    (hd : Drained (.rcvMbx m) RcvMsg.release RcvMsg.left s rcv s') :
    ∀ e ∈ ack ++ toItself m rcv, s'.mem e.msg = some e.block := by
  intro e he
  rcases List.mem_append.mp he with he | he
  · have hall := h.nodup
    rw [List.map_append] at hall
    rw [hd.other e.msg, h.stored e (List.mem_append_right _ he)]
    exact fun hmem ↦ (List.nodup_append.mp hall).2.2 e.msg hmem e.msg (List.mem_map_of_mem he) rfl
  · obtain ⟨d, hd', rfl⟩ := List.mem_map.mp he
    obtain ⟨hmem, hown⟩ := List.mem_filter.mp hd'
    have hwaits : d.block.waitsAck = true := (Bool.and_eq_true_iff.mp hown).1
    have hleft := hd.each d hmem
    rw [RcvMsg.left, hwaits] at hleft
    exact hleft

/-- The call drains both queues, but the status that ends the second loop is `OSA_EFAIL`. -/
theorem FlushContent.ends (h : FlushContent m s rcv ack) (addr : MsgPtr) :
    FlushEnds m t addr s rcv ack osaEfail := by
  obtain ⟨s₁, hreach₁, hpc₁, hrcv₁, hack₁, hd₁⟩ := h.drain_rcv (t := t) addr
  obtain ⟨s₂, hreach₂, hpc₂, hack₂, hd₂⟩ := drain_loop (fun _ ↦ True) addr
    (fun _ _ _ hpc hrings hitems hstored _ _ ↦ ack_pass addr hpc hrings hitems hstored)
    (ack ++ toItself m rcv) hpc₁ hd₁.rings hack₁ h.nodup_ack (h.stored_ack hd₁)
    (fun _ _ ↦ trivial) (room_free hd₁.rings _)
  have hrun : s₂.run t addr = some (s₂.goto t (.idle osaEfail)) := by
    simp only [MbxState.run, hpc₂, recvMsg_nil (hd₂.rings _) hack₂, Option.map_some]
  have hend : (s₂.goto t (.idle osaEfail)).run t addr = none := by simp [MbxState.run]
  refine ⟨_, mem_eval.mpr ⟨hreach₁.trans (hreach₂.tail hrun), hend⟩, MbxState.goto_pc_self .., ?_,
    hack₂, ?_, fun e he hwaits hown ↦ ?_, fun e he hown ↦ ?_, fun e he ↦ ?_⟩
  · have hsame := hd₂.released.queues (.rcvMbx m) (fun heq ↦ by cases heq)
    rwa [hrcv₁, acks_free] at hsame
  · have h₁ : Released (fun q ↦ q = .rcvMbx m ∨ q = .ackMbx m) s (rcv.map RcvMsg.release) s₁ :=
      hd₁.released.mono fun q hq ↦ Or.inl hq
    have hall := h₁.trans (hd₂.released.mono fun q hq ↦ Or.inr hq)
    exact ⟨hall.queues, hall.freed, hall.prmFreed⟩
  · have hleft := hd₁.each e he
    rw [RcvMsg.left, hwaits] at hleft
    exact (hd₂.other e.msg (h.not_mem_ack he hown)).trans hleft
  · cases hown' : e.isOwn m with
    | true =>
        have hmem : e.answered ∈ toItself m rcv :=
          List.mem_map_of_mem (List.mem_filter.mpr ⟨he, hown'⟩)
        exact hd₂.each e.answered (List.mem_append_right _ hmem)
    | false =>
        have hleft := hd₁.each e he
        have hwaits : e.block.waitsAck = false := by
          cases hwaits : e.block.waitsAck with
          | false => rfl
          | true =>
              rw [hown hwaits] at hown'
              cases hown'
        rw [RcvMsg.left, hwaits] at hleft
        exact (hd₂.other e.msg (h.not_mem_ack he hown')).trans hleft
  · exact hd₂.each e (List.mem_append_left _ he)

/-- Whatever the queues hold, `OSA_mbxFlush` does what it is for and never returns `OSA_SOK`. -/
theorem osaMbxFlush_never_sok (m : M) (t : T) (addr : MsgPtr) (h : FlushContent m s rcv ack) :
    FlushEnds m t addr s rcv ack osaEfail ∧ ¬FlushEnds m t addr s rcv ack osaSok :=
  ⟨h.ends addr, fun hsok ↦ osaEfail_ne_osaSok ((h.ends addr).unique hsok)⟩

end Call

/-- Three messages, the first of the mailbox to itself. -/
theorem osaMbxFlush_never_sok_three :
    FlushEnds () () 0 threeMsgsState threeMsgs [] osaEfail ∧
      ¬FlushEnds () () 0 threeMsgsState threeMsgs [] osaSok := by
  have hqueued := threeMsgsState_queued
  refine osaMbxFlush_never_sok () () 0 ⟨hqueued.rings, hqueued.items, by decide, ?_, ?_,
    hqueued.sender, by decide⟩
  · rw [List.append_nil]
    exact hqueued.nodup
  · rw [List.append_nil]
    exact hqueued.stored

/-- A flush of an empty mailbox. -/
theorem flush_empty_not_sok :
    ¬FlushEnds () () 0
      (mbxStart fun _ : MsgqPtr Unit ↦ Vector.replicate osaMsgqLenMax 0 : MbxState Unit Unit)
      [] [] osaSok := by
  intro h
  have hcontent : FlushContent () (mbxStart fun _ : MsgqPtr Unit ↦
      Vector.replicate osaMsgqLenMax 0 : MbxState Unit Unit) [] [] :=
    ⟨fun q ↦ (osaMsgqCreate_rep rfl).1, by decide, by decide, by decide, by decide,
      (fun e he ↦ by cases he), by decide⟩
  exact osaEfail_ne_osaSok ((hcontent.ends 0).unique h)

end OsaBase
