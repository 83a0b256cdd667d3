import OsaBase.Lib.Ledger
import OsaBase.Mailbox.Mbx

/-!
# The invariant of the mailboxes

Three ledgers carry it: every allocated handle is in one queue, one receiver's hands or one thread;
every allocated message that is to be acknowledged is pending in one call; every serial number is
that of one allocated handle or was freed. A message has been answered exactly when it is on its
way back.
-/

open Transition

namespace OsaBase

variable {M T : Type}

/-! ## Where messages are -/

inductive MbxPlace (M T : Type)
  | queue (q : MsgqPtr M)
  | hands (r : T)
  | thread (t : T)

inductive SerialPlace
  | allocated (addr : MsgPtr)
  | freed

namespace MbxPc

/-- The messages of the call in progress that have not been collected. -/
def pending : MbxPc M → List SentMsg
  | .alloc c sent _ _ => if c.waitsAck then sent else []
  | .put c sent data _ _ => if c.waitsAck then sent ++ [data] else []
  | .sendWait _ d | .sendGot _ d _ => [d]
  | .bcastWait _ sent _ | .bcastGot _ sent _ _ => sent.filter fun d ↦ d.ack == false
  | _ => []

/-- The queue that the message in the thread's hand is being returned to, or came back by. -/
def dest : MbxPc M → Option (MsgqPtr M)
  | .sendAck q _ _ => some q
  | .sendGot c _ _ | .bcastGot c _ _ _ => c.ackMbx
  | .flushGot m _ => some (.ackMbx m)
  | _ => none

/-- The parameter that the call in progress still has to free. -/
def prm : MbxPc M → Option ℕ
  | .alloc c sent _ _ => if c.waitsAck || sent.isEmpty then c.prm else none
  | .put c _ _ _ _ => if c.waitsAck then c.prm else none
  | .sendWait c _ | .sendGot c _ _ | .bcastWait c _ _ | .bcastGot c _ _ _ => c.prm
  | _ => none

/-- What is known of a call by how far it is; `P` is what is known of calls from the start. -/
def Stage (P : MbxSend M → ℕ → Prop) : MbxPc M → Prop
  | .alloc c sent _ rest =>
    (AckCall c (sent.length + 1 + rest.length) ∧ P c (sent.length + 1 + rest.length)) ∧
      (∀ d ∈ sent, d.ack = false) ∧ (c.broadcast = false → sent = [] ∧ rest = [])
  | .put c sent data _ rest =>
    (AckCall c (sent.length + 1 + rest.length) ∧ P c (sent.length + 1 + rest.length)) ∧
      (∀ d ∈ sent ++ [data], d.ack = false) ∧ (c.broadcast = false → sent = [] ∧ rest = [])
  | .sendWait c d | .sendGot c d _ => AckCall c 1 ∧ c.waitsAck = true ∧ d.ack = false
  | .bcastWait c sent _ | .bcastGot c sent _ _ =>
    AckCall c sent.length ∧ c.waitsAck = true ∧ (sent.map SentMsg.msg).Nodup
  | .flushGot _ _ | .fault => False
  | _ => True

end MbxPc

def MsgqPtr.dest : MsgqPtr M → Option (MsgqPtr M)
  | .rcvMbx _ => none
  | .ackMbx m => some (.ackMbx m)

def MsgBlock.waitsAck (b : MsgBlock M) : Bool := hasFlag b.flags osaMbxWaitAck

/-- The message is what the call made of it. -/
structure MsgBlock.SentBy (b : MsgBlock M) (c : MbxSend M) (d : SentMsg) : Prop where
  serial : b.serial = d.serial
  flags : b.flags = uint16 c.flags
  pPrm : b.pPrm = c.pPrm
  pFrom : b.pFrom = c.ackMbx

/-- A message on its way back to a queue has been answered with the status it has, and no other
message has been answered. -/
def MsgBlock.Answered (b : MsgBlock M) (acks : List (ℕ × ℤ)) : Option (MsgqPtr M) → Prop
  | some q => b.waitsAck = true ∧ b.pFrom = some q ∧ (b.serial, b.status) ∈ acks
  | none => b.serial ∉ acks.map Prod.fst

namespace MbxState

def places (s : MbxState M T) : MbxPlace M T → List MsgPtr
  | .queue q => (s.msgq q).items
  | .hands r => s.hands r
  | .thread t => (s.pc t).held.toList

def dest (s : MbxState M T) : MbxPlace M T → Option (MsgqPtr M)
  | .queue q => q.dest
  | .hands _ => none
  | .thread t => (s.pc t).dest

def pendings (s : MbxState M T) (t : T) : List MsgPtr := (s.pc t).pending.map SentMsg.msg

def serialPlaces (s : MbxState M T) : SerialPlace → List ℕ
  | .allocated addr => (s.mem addr).toList.map MsgBlock.serial
  | .freed => s.log.freed

def Allocated (s : MbxState M T) (x : MsgPtr) : Prop := ∃ b, s.mem x = some b

def AwaitsAck (s : MbxState M T) (x : MsgPtr) : Prop := ∃ b, s.mem x = some b ∧ b.waitsAck = true

end MbxState

/-- A mailbox is the `pMbxFrom` of one call and is not flushed meanwhile. -/
structure Callers (pc : T → MbxPc M) : Prop where
  one : ∀ t t' m, (pc t).mbxFrom = some m → (pc t').mbxFrom = some m → t = t'
  notFlushed : ∀ t t' m, (pc t).mbxFrom = some m → (pc t').flushing ≠ some m

structure MbxInv (P : MbxSend M → ℕ → Prop) (s : MbxState M T) : Prop where
  rings : ∀ q, (s.msgq q).Rep osaMsgqLenMax
  callers : Callers s.pc
  stage : ∀ t, (s.pc t).Stage P
  handles : Ledger.Exact s.places s.Allocated
  pending : Ledger.Exact s.pendings s.AwaitsAck
  serials : Ledger.Exact s.serialPlaces (· < s.log.allocs)
  sentBy : ∀ t c d b, (s.pc t).call = some c → d ∈ (s.pc t).pending → s.mem d.msg = some b →
    b.SentBy c d
  answered : ∀ p x b, x ∈ s.places p → s.mem x = some b → b.Answered s.log.acks (s.dest p)
  acks_lt : ∀ n ∈ s.log.acks.map Prod.fst, n < s.log.allocs
  acks_nodup : (s.log.acks.map Prod.fst).Nodup
  freed_acked : ∀ n ∈ s.log.freed, n ∈ s.log.acks.map Prod.fst
  returned : ∀ r ∈ s.log.returned, r ∈ s.log.acks

variable {P : MbxSend M → ℕ → Prop} {s s' : MbxState M T} {t : T}

/-! ## Flags -/

theorem hasFlag_uint16 (flags : ℕ) {flag : ℕ} (h : flag < 2 ^ 16) :
    hasFlag (uint16 flags) flag = hasFlag flags flag := by
  have hmask : flag = flag % 2 ^ 16 := (Nat.mod_eq_of_lt h).symm
  have hand : uint16 flags &&& flag = flags &&& flag := by
    apply Nat.eq_of_testBit_eq
    intro i
    rw [uint16, Nat.testBit_and, Nat.testBit_and, Nat.testBit_mod_two_pow, hmask,
      Nat.testBit_mod_two_pow]
    by_cases hi : i < 16 <;> simp [hi]
  rw [hasFlag, hand, hasFlag]

theorem AckCall.waitsAck {c : MbxSend M} {n : ℕ} (h : AckCall c n) :
    c.waitsAck = hasFlag c.flags osaMbxWaitAck := by
  unfold MbxSend.waitsAck MbxSend.ackMbx
  cases hflag : hasFlag c.flags osaMbxWaitAck with
  | false => rfl
  | true =>
      have hfrom := h.2 hflag
      cases hm : c.pMbxFrom with
      | none => exact (hfrom hm).elim
      | some m => rfl

theorem MsgBlock.SentBy.waitsAck {b : MsgBlock M} {c : MbxSend M} {d : SentMsg}
    (h : b.SentBy c d) : b.waitsAck = hasFlag c.flags osaMbxWaitAck := by
  rw [MsgBlock.waitsAck, h.flags]
  exact hasFlag_uint16 _ (by decide)

theorem MsgBlock.SentBy.prm {b : MsgBlock M} {c : MbxSend M} {d : SentMsg}
    (h : b.SentBy c d) : b.prm = c.prm := by
  rw [MsgBlock.prm, MbxSend.prm, h.flags, hasFlag_uint16 _ (by decide), h.pPrm]

theorem MbxSend.waitsAck_block {c : MbxSend M} {n : ℕ} (h : AckCall c n) (serial : ℕ) (pMbxTo : M) :
    (c.block serial pMbxTo).waitsAck = c.waitsAck := by
  rw [h.waitsAck]
  exact hasFlag_uint16 c.flags (by decide)

theorem MbxSend.block_sentBy (c : MbxSend M) (serial : ℕ) (pMbxTo : M) (addr : MsgPtr) :
    (c.block serial pMbxTo).SentBy c ⟨addr, false, serial⟩ := ⟨rfl, rfl, rfl, rfl⟩

theorem MbxSend.ackMbx_eq {c : MbxSend M} {q : MsgqPtr M} (h : c.ackMbx = some q) :
    ∃ m, c.pMbxFrom = some m ∧ q = .ackMbx m := by
  obtain ⟨m, hm, rfl⟩ := Option.map_eq_some_iff.mp h
  exact ⟨m, hm, rfl⟩

/-! ## A message on its way back -/

theorem MbxPc.call_of_pending {pc : MbxPc M} {d : SentMsg} (h : d ∈ pc.pending) :
    ∃ c, pc.call = some c := by
  cases pc with
  | alloc c | put c | sendWait c | sendGot c | bcastWait c | bcastGot c => exact ⟨c, rfl⟩
  | idle | recv | waitCmd | waitCmdGot | ackOrFree | sendAck | flushRcv | flushAck | flushGot
  | fault => cases h

theorem MbxPc.Stage.ackMbx_of_pending {pc : MbxPc M} (hstage : pc.Stage P) {c : MbxSend M}
    (hc : pc.call = some c) {d : SentMsg} (hd : d ∈ pc.pending) : ∃ q, c.ackMbx = some q := by
  have hwaits : c.waitsAck = true := by
    cases pc with
    | alloc c' | put c' =>
        obtain rfl : c' = c := Option.some.inj hc
        by_contra hno
        simp [MbxPc.pending, hno] at hd
    | sendWait c' | sendGot c' | bcastWait c' | bcastGot c' =>
        obtain rfl : c' = c := Option.some.inj hc
        exact hstage.2.1
    | idle | recv | waitCmd | waitCmdGot | ackOrFree | sendAck | flushRcv | flushAck | flushGot
    | fault => cases hc
  simp only [MbxSend.waitsAck, Bool.and_eq_true] at hwaits
  exact Option.isSome_iff_exists.mp hwaits.2

/-- The message is pending in the call that has the queue's mailbox as `pMbxFrom`. -/
theorem MbxInv.back (hs : MbxInv P s) {p : MbxPlace M T} {x : MsgPtr} {q : MsgqPtr M}
    (hx : x ∈ s.places p) (hq : s.dest p = some q) :
    ∃ b t c d m, s.mem x = some b ∧ (s.pc t).call = some c ∧ c.pMbxFrom = some m ∧ q = .ackMbx m ∧
      d ∈ (s.pc t).pending ∧ d.msg = x ∧ b.SentBy c d ∧ (b.serial, b.status) ∈ s.log.acks := by
  obtain ⟨b, hb⟩ := hs.handles.live_of_mem hx
  have hback := hs.answered p x b hx hb
  rw [hq] at hback
  obtain ⟨hwaits, hfrom, hack⟩ := hback
  obtain ⟨t, ht⟩ := (hs.pending.live_iff x).mp ⟨b, hb, hwaits⟩
  obtain ⟨d, hd, rfl⟩ := List.mem_map.mp ht
  obtain ⟨c, hc⟩ := MbxPc.call_of_pending hd
  have hsent := hs.sentBy t c d b hc hd hb
  obtain ⟨m, hm, rfl⟩ := MbxSend.ackMbx_eq (hsent.pFrom.symm.trans hfrom)
  exact ⟨b, t, c, d, m, hb, hc, hm, rfl, hd, rfl, hsent, hack⟩

/-- What a call gets out of its `ackMbx` is a message of its own that is still pending. -/
theorem MbxInv.back_own (hs : MbxInv P s) {p : MbxPlace M T} {x : MsgPtr} {c : MbxSend M}
    (hx : x ∈ s.places p) (hc : (s.pc t).call = some c) (hwaits : c.waitsAck = true)
    (hdest : s.dest p = c.ackMbx) :
    ∃ b d, s.mem x = some b ∧ d ∈ (s.pc t).pending ∧ d.msg = x ∧ b.SentBy c d ∧
      (b.serial, b.status) ∈ s.log.acks := by
  simp only [MbxSend.waitsAck, Bool.and_eq_true] at hwaits
  obtain ⟨q, hq⟩ := Option.isSome_iff_exists.mp hwaits.2
  obtain ⟨b, t', c', d, m, hb, hc', hm, rfl, hd, hdx, hsent, hack⟩ := hs.back hx (hdest.trans hq)
  obtain ⟨m', hm', heq⟩ := MbxSend.ackMbx_eq hq
  cases heq
  have hfrom : (s.pc t').mbxFrom = some m := by rw [MbxPc.mbxFrom, hc', Option.bind_some, hm]
  have hfrom' : (s.pc t).mbxFrom = some m := by rw [MbxPc.mbxFrom, hc, Option.bind_some, hm']
  obtain rfl := hs.callers.one t' t m hfrom hfrom'
  obtain rfl : c = c' := Option.some.inj (hc.symm.trans hc')
  exact ⟨b, d, hb, hd, hdx, hsent, hack⟩

/-- What a call gets is a message of its own that has been answered. -/
theorem MbxInv.got (hs : MbxInv P s) {c : MbxSend M} {x : MsgPtr} (hheld : (s.pc t).held = some x)
    (hcall : (s.pc t).call = some c) (hwaits : c.waitsAck = true)
    (hdest : (s.pc t).dest = c.ackMbx) :
    ∃ b d, s.mem x = some b ∧ d ∈ (s.pc t).pending ∧ d.msg = x ∧ b.SentBy c d ∧
      (b.serial, b.status) ∈ s.log.acks := by
  have hx : x ∈ s.places (.thread t) := by simp [MbxState.places, hheld]
  exact hs.back_own hx hcall hwaits hdest

/-- An `ackMbx` that is flushed is empty. -/
theorem MbxInv.flushed_nil (hs : MbxInv P s) {m : M} (hflush : (s.pc t).flushing = some m) :
    (s.msgq (.ackMbx m)).items = [] := by
  apply List.eq_nil_iff_forall_not_mem.mpr
  intro x hx
  obtain ⟨b, t', c, d, m', -, hc, hm, heq, -⟩ := hs.back (p := .queue (.ackMbx m)) hx rfl
  cases heq
  have hfrom : (s.pc t').mbxFrom = some m := by rw [MbxPc.mbxFrom, hc, Option.bind_some, hm]
  exact hs.callers.notFlushed t' t m hfrom hflush

/-! ## What one message has to itself -/

theorem MbxInv.serial_inj (hs : MbxInv P s) {x y : MsgPtr} {b b' : MsgBlock M}
    (hx : s.mem x = some b) (hy : s.mem y = some b') (h : b.serial = b'.serial) : x = y := by
  have hmem : ∀ {z : MsgPtr} {d : MsgBlock M}, s.mem z = some d →
      d.serial ∈ s.serialPlaces (.allocated z) := by
    intro z d hz
    simp [MbxState.serialPlaces, hz]
  have hsame := hs.serials.unique _ _ _ (hmem hx) (h ▸ hmem hy)
  cases hsame
  rfl

theorem MbxInv.serial_lt (hs : MbxInv P s) {x : MsgPtr} {b : MsgBlock M} (hx : s.mem x = some b) :
    b.serial < s.log.allocs := by
  apply hs.serials.live_of_mem (p := .allocated x)
  simp [MbxState.serialPlaces, hx]

theorem MbxInv.allocated_of_held (hs : MbxInv P s) {x : MsgPtr} (hx : (s.pc t).held = some x) :
    ∃ b, s.mem x = some b := by
  have hmem : x ∈ s.places (.thread t) := by simp [MbxState.places, hx]
  exact hs.handles.live_of_mem hmem

theorem MbxInv.no_fault (hs : MbxInv P s) (t : T) : s.pc t ≠ .fault := by
  intro hpc
  have hstage := hs.stage t
  rw [hpc] at hstage
  exact hstage

theorem Callers.of_le {pc pc' : T → MbxPc M} (h : Callers pc)
    (hfrom : ∀ t, (pc' t).mbxFrom = none ∨ (pc' t).mbxFrom = (pc t).mbxFrom)
    (hflush : ∀ t, (pc' t).flushing = none ∨ (pc' t).flushing = (pc t).flushing) :
    Callers pc' := by
  have hf : ∀ t m, (pc' t).mbxFrom = some m → (pc t).mbxFrom = some m := by
    intro t m hm
    rcases hfrom t with hnone | hsame
    · rw [hnone] at hm
      cases hm
    · rwa [← hsame]
  constructor
  · intro t t' m ht ht'
    exact h.one t t' m (hf t m ht) (hf t' m ht')
  · intro t t' m ht ht'
    rcases hflush t' with hnone | hsame
    · rw [hnone] at ht'
      cases ht'
    · exact h.notFlushed t t' m (hf t m ht) (hsame ▸ ht')

end OsaBase
