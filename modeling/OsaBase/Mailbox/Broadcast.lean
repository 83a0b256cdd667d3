import OsaBase.Mailbox.QueueLog

/-!
# Broadcasts that wait for their ACKs

The messages of a broadcast are acknowledged in any order, while some are still being sent or after
all have been. The call collects the ACKs in the order in which they came to its `ackMbx`, and marks
one entry of `ackList` for each.
-/

open Transition

namespace OsaBase

variable {M T : Type} {P : MbxSend M → ℕ → Prop} {s s' : MbxState M T} {t : T}

/-! ## The value of several ACKs -/

/-- The first value that is not `OSA_SOK`. -/
def ackValue (status : List ℤ) : ℤ := (status.find? (· != osaSok)).getD osaSok

theorem ackValue_eq_osaSok (status : List ℤ) :
    ackValue status = osaSok ↔ ∀ v ∈ status, v = osaSok := by
  unfold ackValue
  cases hfind : status.find? (· != osaSok) with
  | none => simpa using List.find?_eq_none.mp hfind
  | some v =>
      have hv : v ≠ osaSok := by simpa using List.find?_some hfind
      have hmem := List.mem_of_find?_eq_some hfind
      exact ⟨fun h ↦ (hv h).elim, fun h ↦ h v hmem⟩

/-- One pass of the loop: the value is kept as soon as it is not `OSA_SOK`. -/
theorem ackValue_snoc (status : List ℤ) (v : ℤ) :
    ackValue (status ++ [v]) = if ackValue status = osaSok then v else ackValue status := by
  unfold ackValue
  rw [List.find?_append]
  cases hfind : status.find? (· != osaSok) with
  | none =>
      by_cases hv : v = osaSok
      · simp [hv]
      · simp [hv]
  | some w =>
      have hw : w ≠ osaSok := by simpa using List.find?_some hfind
      simp [hw]

/-! ## The law -/

def logSend (s : MbxState M T) (l : MbxLabel M T) (log : List (MsgqSend M T)) :
    List (MsgqSend M T) := log ++ (s.msgqSend l).toList

theorem logSend_none {l : MbxLabel M T} (h : s.msgqSend l = none) : logSend s l log = log := by
  rw [logSend, h]
  exact List.append_nil _

theorem sentFrom_append [DecidableEq T] (log new : List (MsgqSend M T)) :
    sentFrom t (log ++ new) = sentFrom t log ++ sentFrom t new := List.filter_append ..

theorem arrived_append [DecidableEq M] (q : MsgqPtr M) (log new : List (MsgqSend M T)) :
    arrived q (log ++ new) = arrived q log ++ arrived q new := List.filter_append ..

/-- The messages of a call that are pending have serial numbers of their own. -/
theorem MbxInv.pending_serials (hs : MbxInv P s) : ((s.pc t).pending.map SentMsg.serial).Nodup := by
  have hnodup := hs.pending.nodup t
  rw [MbxState.pendings] at hnodup
  refine List.Nodup.map_on ?_ hnodup.of_map
  intro d hd e he heq
  have hblock : ∀ d ∈ (s.pc t).pending, ∃ b, s.mem d.msg = some b ∧ b.serial = d.serial := by
    intro d hd
    obtain ⟨b, hb, -⟩ := hs.pending.live_of_mem (p := t) (List.mem_map_of_mem hd)
    obtain ⟨c, hc⟩ := MbxPc.call_of_pending hd
    exact ⟨b, hb, (hs.sentBy t c d b hc hd hb).serial⟩
  obtain ⟨b, hb, hbd⟩ := hblock d hd
  obtain ⟨b', hb', hbe⟩ := hblock e he
  have hmsg := hs.serial_inj hb hb' (by rw [hbd, hbe, heq])
  exact List.inj_on_of_nodup_map hnodup hd he hmsg

section

variable [DecidableEq M] [DecidableEq T]

/-- What is known when the broadcast has returned `retVal`; the log begins with the call. -/
structure Acknowledged (c : MbxSend M) (m : M) (pMbxToList : List M) (t : T) (s : MbxState M T)
    (log : List (MsgqSend M T)) (retVal : ℤ) : Prop where
  targets : (sentFrom t log).map MsgqSend.msgq = pMbxToList.map .rcvMbx
  distinct : ((sentFrom t log).map MsgqSend.msg).Nodup
  serials : ((sentFrom t log).map fun e ↦ e.block.serial).Nodup
  same : ∀ e ∈ sentFrom t log,
    e.block.cmd = c.cmd ∧ e.block.pPrm = c.pPrm ∧ e.block.flags = c.flags
  acked : ((arrived (.ackMbx m) log).map fun e ↦ e.block.serial).Perm
    ((sentFrom t log).map fun e ↦ e.block.serial)
  answers : ∀ e ∈ arrived (.ackMbx m) log, (e.block.serial, e.block.status) ∈ s.log.acks
  sok : retVal = osaSok ↔ ∀ e ∈ arrived (.ackMbx m) log, e.block.status = osaSok
  first : ∀ v, ((arrived (.ackMbx m) log).map fun e ↦ e.block.status).find? (· != osaSok) = some v →
    retVal = v
  empty : (s.msgq (.ackMbx m)).items = []
  freedOnce : ∀ e ∈ sentFrom t log, s.log.freed.count e.block.serial = 1

/-- The steps of all threads while the call is in progress. -/
def InCall (t : T) (a : MbxState M T × List (MsgqSend M T)) (l : MbxLabel M T) : Prop :=
  MbxOk a.1 l ∧ (a.1.pc t).call ≠ none

instance [Fintype T] (t : T) (a : MbxState M T × List (MsgqSend M T)) (l : MbxLabel M T) :
    Decidable (InCall t a l) := inferInstanceAs (Decidable (_ ∧ _))

/-- The steps of the call itself. -/
def OwnStep (t : T) (a : MbxState M T × List (MsgqSend M T)) (l : MbxLabel M T) : Prop :=
  InCall t a l ∧ ∃ addr, l = .run t addr

/-- A broadcast at any time: it is no fault, it returns as soon as it is scheduled when every
message has been acknowledged, and what it has done then. -/
structure BcastLaw (c : MbxSend M) (m : M) (pMbxToList : List M) (t : T)
    (a : MbxState M T × List (MsgqSend M T)) : Prop where
  noFault : a.1.pc t ≠ .fault
  returned : ∀ retVal, a.1.pc t = .idle retVal →
    Acknowledged c m pMbxToList t a.1 a.2 retVal
  returns : (arrived (.ackMbx m) a.2).length = pMbxToList.length →
    ∃ b retVal, Reach (recorded mbxStep logSend) (OwnStep t) a b ∧ b.1.pc t = .idle retVal

/-! ## The phases of the call -/

/-- The messages to all targets but `rest` have been sent. -/
structure BcastSends (c : MbxSend M) (pMbxToList : List M) (t : T) (log : List (MsgqSend M T))
    (sent : List SentMsg) (rest : List M) : Prop where
  targets : (sentFrom t log).map MsgqSend.msgq ++ rest.map .rcvMbx = pMbxToList.map .rcvMbx
  msgs : (sentFrom t log).map MsgqSend.msg = sent.map SentMsg.msg
  serials : (sentFrom t log).map (fun e ↦ e.block.serial) = sent.map SentMsg.serial
  same : ∀ e ∈ sentFrom t log,
    e.block.cmd = uint16 c.cmd ∧ e.block.pPrm = c.pPrm ∧ e.block.flags = uint16 c.flags

/-- Of the ACKs that came to the `ackMbx`, `got` have been collected, one is in the thread's hand
and the others wait in the queue. -/
structure Collected (m : M) (s : MbxState M T) (log : List (MsgqSend M T)) (hand : Option MsgPtr)
    (got : List (MsgBlock M)) : Prop where
  came : (arrived (.ackMbx m) log).map (fun e ↦ some e.block) =
    got.map some ++ (hand.toList ++ (s.msgq (.ackMbx m)).items).map s.mem
  answers : ∀ e ∈ arrived (.ackMbx m) log, (e.block.serial, e.block.status) ∈ s.log.acks
  freed : ∀ b ∈ got, b.serial ∈ s.log.freed

/-- The marks of `ackList` and the value are those of the ACKs collected. -/
structure Marks (sent : List SentMsg) (got : List (MsgBlock M)) (ackRetVal : ℤ) : Prop where
  serials : (sent.map SentMsg.serial).Nodup
  marked : (got.map fun b ↦ b.serial).Perm
    ((sent.filter fun d ↦ d.ack).map SentMsg.serial)
  value : ackRetVal = ackValue (got.map fun b ↦ b.status)

def BcastPhase (c : MbxSend M) (m : M) (pMbxToList : List M) (t : T) (s : MbxState M T)
    (log : List (MsgqSend M T)) : MbxPc M → Prop
  | .alloc c' sent pMbxTo rest =>
    c' = c ∧ BcastSends c pMbxToList t log sent (pMbxTo :: rest) ∧ Collected m s log none []
  | .put c' sent data pMbxTo rest =>
    c' = c ∧ BcastSends c pMbxToList t log sent (pMbxTo :: rest) ∧ Collected m s log none [] ∧
      s.mem data.msg = some (c.block data.serial pMbxTo)
  | .bcastWait c' sent v =>
    c' = c ∧ BcastSends c pMbxToList t log sent [] ∧ unacked sent ≠ [] ∧
      ∃ got, Collected m s log none got ∧ Marks sent got v
  | .bcastGot c' sent v x =>
    c' = c ∧ BcastSends c pMbxToList t log sent [] ∧
      ∃ got, Collected m s log (some x) got ∧ Marks sent got v
  | .idle v => Acknowledged c m pMbxToList t s log v
  | _ => False

structure BcastInv (c : MbxSend M) (m : M) (pMbxToList : List M) (t : T)
    (a : MbxState M T × List (MsgqSend M T)) : Prop where
  inv : MbxInv (fun _ _ ↦ True) a.1
  phase : BcastPhase c m pMbxToList t a.1 a.2 (a.1.pc t)

omit [DecidableEq T] in
/-- More ACKs come. -/
theorem Collected.more {m : M} {log new : List (MsgqSend M T)} {hand : Option MsgPtr}
    {got : List (MsgBlock M)} (h : Collected m s log hand got)
    (hmem : ∀ x ∈ hand.toList ++ (s.msgq (.ackMbx m)).items, s'.mem x = s.mem x)
    (hitems : (s'.msgq (.ackMbx m)).items =
      (s.msgq (.ackMbx m)).items ++ (arrived (.ackMbx m) new).map MsgqSend.msg)
    (hnew : ∀ e ∈ arrived (.ackMbx m) new,
      s'.mem e.msg = some e.block ∧ (e.block.serial, e.block.status) ∈ s.log.acks)
    (hfreed : ∀ n ∈ s.log.freed, n ∈ s'.log.freed) (hacks : ∀ r ∈ s.log.acks, r ∈ s'.log.acks) :
    Collected m s' (log ++ new) hand got := by
  have hold : (hand.toList ++ (s.msgq (.ackMbx m)).items).map s'.mem =
      (hand.toList ++ (s.msgq (.ackMbx m)).items).map s.mem := List.map_congr_left hmem
  have hcame : ((arrived (.ackMbx m) new).map MsgqSend.msg).map s'.mem =
      (arrived (.ackMbx m) new).map fun e ↦ some e.block := by
    rw [List.map_map]
    exact List.map_congr_left fun e he ↦ (hnew e he).1
  constructor
  · have hall : (hand.toList ++ (s'.msgq (.ackMbx m)).items).map s'.mem =
        (hand.toList ++ (s.msgq (.ackMbx m)).items).map s.mem ++
          (arrived (.ackMbx m) new).map fun e ↦ some e.block := by
      rw [hitems, ← List.append_assoc, List.map_append, hold, hcame]
    rw [arrived_append, List.map_append, h.came, hall, List.append_assoc]
  · intro e he
    rw [arrived_append, List.mem_append] at he
    rcases he with he | he
    · exact hacks _ (h.answers e he)
    · exact hacks _ (hnew e he).2
  · exact fun b hb ↦ hfreed _ (h.freed b hb)

/-- A step of another thread. -/
theorem BcastInv.other {c : MbxSend M} {m : M} {pMbxToList : List M}
    {log : List (MsgqSend M T)} (h : BcastInv c m pMbxToList t (s, log)) {l : MbxLabel M T}
    (hm : c.pMbxFrom = some m) (hok : InCall t (s, log) l) (hstep : mbxStep s l = some s')
    (hl : t ≠ l.thread) : BcastPhase c m pMbxToList t s' (logSend s l log) (s'.pc t) := by
  have hphase := h.phase
  have hleaves := h.inv.step_leaves hok.1 (fun _ _ ↦ trivial) hstep hl
  have hnone : sentFrom t (s.msgqSend l).toList = [] := by
    rw [sentFrom, List.filter_eq_nil_iff]
    intro e he hthread
    obtain ⟨-, -, heq, -⟩ := msgqSend_mem hstep (Option.mem_toList.mp he)
    exact hl ((of_decide_eq_true hthread).symm.trans heq)
  have hsends : ∀ {sent rest}, BcastSends c pMbxToList t log sent rest →
      BcastSends c pMbxToList t (logSend s l log) sent rest := by
    intro sent rest hs
    have hlog : sentFrom t (logSend s l log) = sentFrom t log := by
      rw [logSend, sentFrom_append, hnone, List.append_nil]
    exact ⟨hlog ▸ hs.targets, hlog ▸ hs.msgs, hlog ▸ hs.serials, hlog ▸ hs.same⟩
  have hcollected : ∀ {hand got}, (s.pc t).mbxFrom = some m →
      (∀ x ∈ hand, x ∈ (s.pc t).held) → Collected m s log hand got →
      Collected m s' (logSend s l log) hand got := by
    intro hand got hcaller hhand hc
    have hsource := h.inv.callers.source_ne hcaller hl.symm
    refine hc.more (fun x hx ↦ ?_) (h.inv.step_items hstep hsource) (fun e he ↦ ?_)
      hleaves.freed hleaves.acks
    · rcases List.mem_append.mp hx with hx | hx
      · exact hleaves.held x (hhand x (Option.mem_toList.mp hx))
      · exact hleaves.queued _ x hx
    · obtain ⟨he, hq⟩ := List.mem_filter.mp he
      have he := Option.mem_toList.mp he
      obtain ⟨hmem, hsame, -⟩ := msgqSend_mem hstep he
      exact ⟨hsame ▸ hmem, h.inv.msgqSend_answered he (of_decide_eq_true hq)⟩
  rw [hleaves.pc]
  cases hpc : s.pc t with
  | alloc c' sent pMbxTo rest =>
      rw [hpc] at hphase hcollected
      obtain ⟨rfl, hs, hc⟩ := hphase
      exact ⟨rfl, hsends hs, hcollected hm (fun _ hx ↦ by cases hx) hc⟩
  | put c' sent data pMbxTo rest =>
      rw [hpc] at hphase hcollected
      obtain ⟨rfl, hs, hc, hdata⟩ := hphase
      refine ⟨rfl, hsends hs, hcollected hm (fun _ hx ↦ by cases hx) hc, ?_⟩
      rw [hleaves.held data.msg (by rw [hpc]; rfl), hdata]
  | bcastWait c' sent v =>
      rw [hpc] at hphase hcollected
      obtain ⟨rfl, hs, hwait, got, hc, hmarks⟩ := hphase
      exact ⟨rfl, hsends hs, hwait, got, hcollected hm (fun _ hx ↦ by cases hx) hc, hmarks⟩
  | bcastGot c' sent v x =>
      rw [hpc] at hphase hcollected
      obtain ⟨rfl, hs, got, hc, hmarks⟩ := hphase
      exact ⟨rfl, hsends hs, got, hcollected hm (fun _ hx ↦ hx) hc, hmarks⟩
  | idle => exact (hok.2 (by rw [hpc]; rfl)).elim
  | sendWait | sendGot | recv | waitCmd | waitCmdGot | ackOrFree | sendAck | flushRcv | flushAck
  | flushGot | fault =>
      rw [hpc] at hphase
      exact hphase.elim

/-! ## The steps of the call -/

section Own

variable {c : MbxSend M} {m : M} {pMbxToList : List M} {log : List (MsgqSend M T)} {addr : MsgPtr}

omit [DecidableEq T] in
/-- Nothing has come or gone at the `ackMbx`, and the messages there are as before. -/
theorem Collected.same {hand : Option MsgPtr} {got : List (MsgBlock M)}
    (h : Collected m s log hand got)
    (hmem : ∀ x ∈ hand.toList ++ (s.msgq (.ackMbx m)).items, s'.mem x = s.mem x)
    (hitems : (s'.msgq (.ackMbx m)).items = (s.msgq (.ackMbx m)).items)
    (hlog : s'.log.freed = s.log.freed ∧ s'.log.acks = s.log.acks) :
    Collected m s' log hand got := by
  have hmore : Collected m s' (log ++ []) hand got :=
    h.more hmem (by rw [hitems]; simp [arrived]) (fun e he ↦ by cases he)
      (fun n hn ↦ hlog.1 ▸ hn) (fun r hr ↦ hlog.2 ▸ hr)
  rwa [List.append_nil] at hmore

/-- A message is allocated. -/
theorem BcastInv.alloc (h : BcastInv c m pMbxToList t (s, log)) {sent : List SentMsg}
    {pMbxTo : M} {rest : List M} (hpc : s.pc t = .alloc c sent pMbxTo rest)
    (hstep : mbxStep s (.run t addr) = some s') :
    BcastPhase c m pMbxToList t s' (logSend s (.run t addr) log) (s'.pc t) := by
  have hphase := h.phase
  rw [hpc] at hphase
  obtain ⟨-, hsends, hc⟩ := hphase
  rw [logSend_none (by simp [MbxState.msgqSend, hpc])]
  simp only [mbxStep, MbxState.run, hpc] at hstep
  split at hstep
  · next hfree =>
    cases hstep
    rw [MbxState.goto_pc_self]
    refine ⟨rfl, hsends, hc.same (fun x hx ↦ ?_) rfl ⟨rfl, rfl⟩, Function.update_self ..⟩
    have hmem : x ∈ s.places (.queue (.ackMbx m)) := hx
    obtain ⟨b, hb⟩ := h.inv.handles.live_of_mem hmem
    apply Function.update_of_ne
    rintro rfl
    rw [hfree] at hb
    cases hb
  · cases hstep

/-- A message is put into the mailbox of its target. -/
theorem BcastInv.put (h : BcastInv c m pMbxToList t (s, log)) (hbcast : c.broadcast = true)
    (hwaits : c.waitsAck = true) {sent : List SentMsg} {data : SentMsg} {pMbxTo : M} {rest : List M}
    (hpc : s.pc t = .put c sent data pMbxTo rest) (hstep : mbxStep s (.run t addr) = some s') :
    BcastPhase c m pMbxToList t s' (logSend s (.run t addr) log) (s'.pc t) := by
  have hphase := h.phase
  rw [hpc] at hphase
  obtain ⟨-, hsends, hc, (hdata : s.mem data.msg = _)⟩ := hphase
  have hsend : s.msgqSend (.run t addr) =
      some ⟨t, .rcvMbx pMbxTo, data.msg, c.block data.serial pMbxTo⟩ := by
    simp [MbxState.msgqSend, hpc, hdata]
  have hmem : s'.mem = s.mem := (msgqSend_mem hstep hsend).2.1
  have hitems := h.inv.step_items hstep (q := .ackMbx m)
    (by simp [MbxLabel.thread, hpc, MbxPc.source])
  have hlog : s'.log = s.log ∧ s'.pc t = c.afterSend sent data rest := by
    simp only [mbxStep, MbxState.run, hpc] at hstep
    obtain ⟨s₁, hsend, rfl⟩ := Option.map_eq_some_iff.mp hstep
    obtain ⟨hndl, rfl, -, -⟩ := send_cases h.inv.rings hsend
    exact ⟨rfl, MbxState.goto_pc_self ..⟩
  have hsends' : BcastSends c pMbxToList t (logSend s (.run t addr) log) (sent ++ [data]) rest := by
    have hfrom : sentFrom t (logSend s (.run t addr) log) =
        sentFrom t log ++ [⟨t, .rcvMbx pMbxTo, data.msg, c.block data.serial pMbxTo⟩] := by
      rw [logSend, hsend, sentFrom_append]
      simp [sentFrom]
    constructor
    · rw [hfrom, ← hsends.targets]
      simp
    · rw [hfrom, List.map_append, hsends.msgs, List.map_append]
      rfl
    · rw [hfrom, List.map_append, hsends.serials, List.map_append]
      rfl
    · rw [hfrom]
      intro e he
      rcases List.mem_append.mp he with he | he
      · exact hsends.same e he
      · rw [List.mem_singleton.mp he]
        exact ⟨rfl, rfl, rfl⟩
  have hcollected : Collected m s' (logSend s (.run t addr) log) none [] := by
    refine hc.more (fun x _ ↦ by rw [hmem]) hitems (fun e he ↦ ?_) (fun n hn ↦ hlog.1 ▸ hn)
      (fun r hr ↦ hlog.1 ▸ hr)
    rw [hsend] at he
    simp [arrived] at he
  rw [hlog.2]
  cases rest with
  | cons pMbxTo' rest => exact ⟨rfl, hsends', hcollected⟩
  | nil =>
      have hstage := h.inv.stage t
      rw [hpc] at hstage
      have hpending : (s.pc t).pending = sent ++ [data] := by
        rw [hpc, MbxPc.pending, if_pos hwaits]
      have hserials := h.inv.pending_serials (t := t)
      rw [hpending] at hserials
      have hunacked : ∀ d ∈ sent ++ [data], d.ack = false := hstage.2.1
      have hafter : c.afterSend sent data [] = .bcastWait c (sent ++ [data]) osaSok := by
        simp [MbxSend.afterSend, hwaits, hbcast]
      rw [hafter]
      refine ⟨rfl, hsends', ?_, [], hcollected, hserials, ?_, rfl⟩
      · intro hnil
        rw [unacked, List.filter_eq_nil_iff] at hnil
        exact hnil data (by simp) (by simp [hunacked data (by simp)])
      · have hnone : ((sent ++ [data]).filter fun d ↦ d.ack) = [] := by
          rw [List.filter_eq_nil_iff]
          intro d hd
          simp [hunacked d hd]
        rw [hnone]
        exact List.Perm.refl _

/-- An ACK is taken out of the `ackMbx`. -/
theorem BcastInv.wait (h : BcastInv c m pMbxToList t (s, log)) (hm : c.pMbxFrom = some m)
    {sent : List SentMsg} {v : ℤ} (hpc : s.pc t = .bcastWait c sent v)
    (hstep : mbxStep s (.run t addr) = some s') :
    BcastPhase c m pMbxToList t s' (logSend s (.run t addr) log) (s'.pc t) := by
  have hphase := h.phase
  rw [hpc] at hphase
  obtain ⟨-, hsends, -, got, hc, hmarks⟩ := hphase
  have hq : c.ackMbx = some (.ackMbx m) := by rw [MbxSend.ackMbx, hm, Option.map_some]
  rw [logSend_none (by simp [MbxState.msgqSend, hpc])]
  simp only [mbxStep, MbxState.run, hpc, hq, Option.bind_some] at hstep
  obtain ⟨r, hr, hstep⟩ := Option.bind_eq_some_iff.mp hstep
  rcases recvMsg_cases h.inv.rings hr with ⟨hndl, x, rfl, -, hitems⟩ | ⟨rfl, -⟩
  · cases hstep
    rw [MbxState.goto_pc_self]
    refine ⟨rfl, hsends, got, ⟨?_, hc.answers, hc.freed⟩, hmarks⟩
    have hrest : (Function.update s.msgq (.ackMbx m) hndl (.ackMbx m)).items = hndl.items := by
      rw [Function.update_self]
    rw [hc.came, hitems]
    change _ = got.map some ++ ([x] ++
      (Function.update s.msgq (.ackMbx m) hndl (.ackMbx m)).items).map s.mem
    rw [hrest]
    rfl
  · cases hstep

omit [DecidableEq T] in
/-- The ACK in the thread's hand is collected, and the message is freed. -/
theorem Collected.collect {x : MsgPtr} {b : MsgBlock M} {got : List (MsgBlock M)}
    (h : Collected m s log (some x) got) (hb : s.mem x = some b)
    (hmsgq : s'.msgq = s.msgq) (hmem : ∀ y ∈ (s.msgq (.ackMbx m)).items, s'.mem y = s.mem y)
    (hacks : s'.log.acks = s.log.acks) (hfreed : s'.log.freed = s.log.freed ++ [b.serial]) :
    Collected m s' log none (got ++ [b]) := by
  constructor
  · have hrest : (s.msgq (.ackMbx m)).items.map s'.mem = (s.msgq (.ackMbx m)).items.map s.mem :=
      List.map_congr_left hmem
    rw [h.came, hmsgq]
    simp [hb, hrest]
  · rw [hacks]
    exact h.answers
  · rw [hfreed]
    intro b' hb'
    rcases List.mem_append.mp hb' with hb' | hb'
    · exact List.mem_append_left _ (h.freed b' hb')
    · simp [List.mem_singleton.mp hb']

/-- The loop over `pSentMsgList` marks the entry of the message. -/
theorem perm_serial_markAck {d : SentMsg} {ds : List SentMsg} (hnodup : (ds.map SentMsg.msg).Nodup)
    (hd : d ∈ unacked ds) :
    (((markAck d.msg ds).filter fun e ↦ e.ack).map SentMsg.serial).Perm
      (d.serial :: (ds.filter fun e ↦ e.ack).map SentMsg.serial) := by
  induction ds with
  | nil => cases hd
  | cons e ds ih =>
      obtain ⟨hnot, hnodup⟩ := List.nodup_cons.mp hnodup
      obtain ⟨hmem, hack⟩ := List.mem_filter.mp hd
      by_cases he : d.msg = e.msg
      · obtain rfl : d = e := by
          rcases List.mem_cons.mp hmem with heq | hmem
          · exact heq
          · exact (hnot (he ▸ List.mem_map_of_mem hmem)).elim
        have hack : d.ack = false := eq_of_beq hack
        simp [markAck, hack]
      · have hmem : d ∈ ds := by
          rcases List.mem_cons.mp hmem with rfl | hmem
          · exact (he rfl).elim
          · exact hmem
        have hperm := ih hnodup (List.mem_filter.mpr ⟨hmem, hack⟩)
        simp only [markAck, he, if_false, List.filter_cons]
        split
        · exact (hperm.cons _).trans (List.Perm.swap _ _ _)
        · exact hperm

omit [DecidableEq M] [DecidableEq T] in
theorem Marks.collect {sent : List SentMsg} {got : List (MsgBlock M)} {v : ℤ}
    (h : Marks sent got v) {d : SentMsg} {b : MsgBlock M} (hnodup : (sent.map SentMsg.msg).Nodup)
    (hd : d ∈ unacked sent) (hb : b.serial = d.serial) :
    Marks (markAck d.msg sent) (got ++ [b]) (if v = osaSok then b.status else v) := by
  constructor
  · rw [map_markAck SentMsg.serial fun _ ↦ rfl]
    exact h.serials
  · have hmark := perm_serial_markAck hnodup hd
    rw [List.map_append, List.map_singleton, hb]
    exact (List.perm_append_singleton _ _).trans ((h.marked.cons _).trans hmark.symm)
  · rw [List.map_append, List.map_singleton, ackValue_snoc, ← h.value]

/-- When all entries are marked, every ACK has come and has been collected. -/
theorem Acknowledged.of_marks (hs : MbxInv P s) {sent : List SentMsg} {got : List (MsgBlock M)}
    {v : ℤ} (hcmd : c.cmd < 2 ^ 16) (hflags : c.flags < 2 ^ 16)
    (hsends : BcastSends c pMbxToList t log sent []) (hc : Collected m s log none got)
    (hmarks : Marks sent got v) (hmsgs : (sent.map SentMsg.msg).Nodup) (hall : unacked sent = [])
    (hempty : (s.msgq (.ackMbx m)).items = []) : Acknowledged c m pMbxToList t s log v := by
  have hgot : (arrived (.ackMbx m) log).map MsgqSend.block = got := by
    have hcame : (arrived (.ackMbx m) log).map (fun e ↦ some e.block) = got.map some := by
      rw [hc.came, hempty]
      exact List.append_nil _
    apply List.map_injective_iff.mpr (Option.some_injective _)
    rw [List.map_map]
    exact hcame
  have hmarked : sent.filter (fun d ↦ d.ack) = sent := by
    rw [List.filter_eq_self]
    intro d hd
    by_contra hack
    have hmem : d ∈ unacked sent := List.mem_filter.mpr ⟨hd, by simpa using hack⟩
    rw [hall] at hmem
    cases hmem
  have hperm := hmarks.marked
  rw [hmarked] at hperm
  have hstatus : (arrived (.ackMbx m) log).map (fun e ↦ e.block.status) =
      got.map fun b ↦ b.status := by
    rw [← hgot, List.map_map]
    rfl
  constructor
  · simpa using hsends.targets
  · rwa [hsends.msgs]
  · rw [hsends.serials]
    exact hmarks.serials
  · intro e he
    obtain ⟨hecmd, heprm, heflags⟩ := hsends.same e he
    refine ⟨hecmd.trans ?_, heprm, heflags.trans ?_⟩
    · exact Nat.mod_eq_of_lt hcmd
    · exact Nat.mod_eq_of_lt hflags
  · have hcame : (arrived (.ackMbx m) log).map (fun e ↦ e.block.serial) =
        got.map fun b ↦ b.serial := by
      rw [← hgot, List.map_map]
      rfl
    rwa [hsends.serials, hcame]
  · exact hc.answers
  · rw [hmarks.value, ackValue_eq_osaSok, ← hstatus]
    simp
  · intro w hw
    rw [hmarks.value, ackValue, ← hstatus, hw]
    rfl
  · exact hempty
  · intro e he
    have hmem : e.block.serial ∈ got.map fun b ↦ b.serial := by
      rw [hperm.mem_iff, ← hsends.serials]
      exact List.mem_map_of_mem he
    obtain ⟨b, hb, heq⟩ := List.mem_map.mp hmem
    exact List.count_eq_one_of_mem (hs.serials.nodup .freed) (heq ▸ hc.freed b hb)

omit [DecidableEq M] in
/-- The `ackMbx` of a call that has returned is empty. -/
theorem ackMbx_nil (hs : MbxInv P s) (hs' : MbxInv P s') (hcaller : (s.pc t).mbxFrom = some m)
    (hother : ∀ u, u ≠ t → s'.pc u = s.pc u) (hidle : (s'.pc t).mbxFrom ≠ some m) :
    (s'.msgq (.ackMbx m)).items = [] := by
  apply List.eq_nil_iff_forall_not_mem.mpr
  intro x hx
  obtain ⟨u, hu, -⟩ := hs'.ackMbx_pending hx
  by_cases hut : u = t
  · subst hut
    exact hidle hu
  · rw [hother u hut] at hu
    exact hut (hs.callers.one u t m hu hcaller)

/-- The pass of the loop behind `OSA_msgqRecvMsg`: the message `d` of the call is marked and freed;
the call waits on, or returns. -/
structure GotAck (s : MbxState M T) (t : T) (c : MbxSend M) (sent : List SentMsg) (ackRetVal : ℤ)
    (d : SentMsg) (b : MsgBlock M) (s' : MbxState M T) : Prop where
  block : s.mem d.msg = some b
  pending : d ∈ unacked sent
  sentBy : b.SentBy c d
  msgq : s'.msgq = s.msgq
  mem : s'.mem = Function.update s.mem d.msg none
  acks : s'.log.acks = s.log.acks
  freed : s'.log.freed = s.log.freed ++ [b.serial]
  other : ∀ u, u ≠ t → s'.pc u = s.pc u
  pc : s'.pc t =
    if unacked (markAck d.msg sent) = [] then
      .idle (if ackRetVal = osaSok then b.status else ackRetVal)
    else .bcastWait c (markAck d.msg sent) (if ackRetVal = osaSok then b.status else ackRetVal)

theorem gotAck (hs : MbxInv P s) {sent : List SentMsg} {v : ℤ} {x : MsgPtr}
    (hpc : s.pc t = .bcastGot c sent v x) (hstep : mbxStep s (.run t addr) = some s') :
    ∃ d b, x = d.msg ∧ GotAck s t c sent v d b s' := by
  have hstage := hs.stage t
  rw [hpc] at hstage
  obtain ⟨b, d, hb, hd, rfl, hsent, -⟩ := hs.got (t := t) (by rw [hpc]; rfl) (by rw [hpc]; rfl)
    hstage.2.1 (by rw [hpc]; rfl)
  rw [hpc] at hd
  have hknown : (sent.all fun e ↦ d.msg != e.msg) = false := by
    rw [List.all_eq_false]
    exact ⟨d, (List.mem_filter.mp hd).1, by simp⟩
  have hany : (markAck d.msg sent).any (fun e ↦ e.ack == false) = true ↔
      unacked (markAck d.msg sent) ≠ [] := by
    rw [unacked, Ne, List.filter_eq_nil_iff, List.any_eq_true]
    simp
  simp only [mbxStep, MbxState.run, hpc, MbxState.osaMbxBroadcastMsgGot, hb, Option.bind_some,
    hknown, MbxState.osaMsgqFreeMsgHndl_eq hb, Bool.false_eq_true, if_false, Option.map_some,
    Option.getD_some, true_and, Option.some.injEq] at hstep
  refine ⟨d, b, rfl, ?_⟩
  split at hstep
  · next hmore =>
    subst hstep
    refine ⟨hb, hd, hsent, rfl, rfl, rfl, rfl, fun u hu ↦ Function.update_of_ne hu _ _, ?_⟩
    rw [if_neg (hany.mp hmore), MbxState.goto_pc_self]
  · next hdone =>
    subst hstep
    refine ⟨hb, hd, hsent, rfl, rfl, rfl, rfl, fun u hu ↦ Function.update_of_ne hu _ _, ?_⟩
    rw [if_pos (not_not.mp (mt hany.mpr hdone)), MbxState.goto_pc_self]

/-- An ACK is collected. -/
theorem BcastInv.got (h : BcastInv c m pMbxToList t (s, log)) (hm : c.pMbxFrom = some m)
    (hcmd : c.cmd < 2 ^ 16) (hflags : c.flags < 2 ^ 16) {sent : List SentMsg} {v : ℤ} {x : MsgPtr}
    (hpc : s.pc t = .bcastGot c sent v x) (hstep : mbxStep s (.run t addr) = some s') :
    BcastPhase c m pMbxToList t s' (logSend s (.run t addr) log) (s'.pc t) := by
  have hphase := h.phase
  rw [hpc] at hphase
  obtain ⟨-, hsends, got, hc, hmarks⟩ := hphase
  have hstage := h.inv.stage t
  rw [hpc] at hstage
  obtain ⟨d, b, rfl, hgot⟩ := gotAck h.inv hpc hstep
  have hmsgs : ((markAck d.msg sent).map SentMsg.msg).Nodup := by
    rw [map_msg_markAck]
    exact hstage.2.2
  have hmarks' := hmarks.collect hstage.2.2 hgot.pending hgot.sentBy.serial
  have hsends' : BcastSends c pMbxToList t log (markAck d.msg sent) [] := by
    refine ⟨hsends.targets, ?_, ?_, hsends.same⟩
    · rw [map_msg_markAck]
      exact hsends.msgs
    · rw [map_markAck SentMsg.serial fun _ ↦ rfl]
      exact hsends.serials
  have hcollected : Collected m s' log none (got ++ [b]) := by
    refine hc.collect hgot.block hgot.msgq (fun y hy ↦ ?_) hgot.acks hgot.freed
    rw [hgot.mem]
    apply Function.update_of_ne
    rintro rfl
    have hthread : d.msg ∈ s.places (.thread t) := by simp [MbxState.places, hpc, MbxPc.held]
    cases h.inv.handles.unique (.thread t) (.queue (.ackMbx m)) d.msg hthread hy
  have hpc' := hgot.pc
  rw [logSend_none (by simp [MbxState.msgqSend, hpc]), hpc']
  by_cases hnil : unacked (markAck d.msg sent) = []
  · rw [if_pos hnil] at hpc' ⊢
    have hs' : MbxInv _ s' := h.inv.effect (run_effect h.inv hstep)
    have hcaller : (s.pc t).mbxFrom = some m := by
      rw [hpc]
      exact hm
    have hempty := ackMbx_nil h.inv hs' hcaller hgot.other
      (by rw [hpc']; exact fun hf ↦ by cases hf)
    exact .of_marks hs' hcmd hflags hsends' hcollected hmarks' hmsgs hnil hempty
  · rw [if_neg hnil]
    exact ⟨rfl, hsends', hnil, got ++ [b], hcollected, hmarks'⟩

/-- One step of any thread while the call is in progress. -/
theorem BcastInv.step {a b : MbxState M T × List (MsgqSend M T)} (h : BcastInv c m pMbxToList t a)
    (hm : c.pMbxFrom = some m) (hbcast : c.broadcast = true) (hwaits : c.waitsAck = true)
    (hcmd : c.cmd < 2 ^ 16) (hflags : c.flags < 2 ^ 16) {l : MbxLabel M T} (hok : InCall t a l)
    (hstep : recorded mbxStep logSend a l = some b) : BcastInv c m pMbxToList t b := by
  obtain ⟨s, log⟩ := a
  obtain ⟨s', log'⟩ := b
  obtain ⟨hstep, heq⟩ := recorded_eq_some.mp hstep
  obtain rfl : log' = logSend s l log := heq
  change mbxStep s l = some s' at hstep
  refine ⟨h.inv.step hok.1 (fun _ _ ↦ trivial) hstep, ?_⟩
  by_cases hl : t = l.thread
  · cases l with
    | invoke u call =>
        obtain rfl : t = u := hl
        have hcall : (s.pc t).call ≠ none := hok.2
        simp only [mbxStep] at hstep
        split at hstep
        · next hpc => exact (hcall (by rw [hpc]; rfl)).elim
        · cases hstep
    | run u addr =>
        obtain rfl : t = u := hl
        have hphase := h.phase
        cases hpc : s.pc t with
        | alloc c' sent pMbxTo rest =>
            rw [hpc] at hphase
            obtain rfl := hphase.1
            exact h.alloc hpc hstep
        | put c' sent data pMbxTo rest =>
            rw [hpc] at hphase
            obtain rfl := hphase.1
            exact h.put hbcast hwaits hpc hstep
        | bcastWait c' sent v =>
            rw [hpc] at hphase
            obtain rfl := hphase.1
            exact h.wait hm hpc hstep
        | bcastGot c' sent v x =>
            rw [hpc] at hphase
            obtain rfl := hphase.1
            exact h.got hm hcmd hflags hpc hstep
        | idle => exact (hok.2 (by rw [hpc]; rfl)).elim
        | sendWait | sendGot | recv | waitCmd | waitCmdGot | ackOrFree | sendAck | flushRcv
        | flushAck | flushGot | fault =>
            rw [hpc] at hphase
            exact hphase.elim
  · exact h.other hm hok hstep hl

/-! ## The return -/

/-- While a message is unsent, not all have been acknowledged. -/
theorem BcastInv.arrived_lt (h : BcastInv c m pMbxToList t (s, log)) (hm : c.pMbxFrom = some m)
    {sent : List SentMsg} {pMbxTo : M} {rest : List M}
    (hcall : (s.pc t).call = some c) (hsent : (s.pc t).sent = sent)
    (hsends : BcastSends c pMbxToList t log sent (pMbxTo :: rest))
    (hc : Collected m s log none []) :
    (arrived (.ackMbx m) log).length < pMbxToList.length := by
  have hsub : (s.msgq (.ackMbx m)).items ⊆ sent.map SentMsg.msg := by
    intro x hx
    obtain ⟨u, c', d, b, hu, hm', hd, rfl, -⟩ := h.inv.ackMbx_own hx
    have hut : u = t := by
      apply h.inv.callers.one u t m
      · rw [MbxPc.mbxFrom, hu, Option.bind_some, hm']
      · rw [MbxPc.mbxFrom, hcall, Option.bind_some, hm]
    rw [hut, hsent] at hd
    exact List.mem_map_of_mem hd
  have hle := (List.subperm_of_subset (h.inv.handles.nodup (.queue (.ackMbx m))) hsub).length_le
  have hcame := congrArg List.length hc.came
  have htargets := congrArg List.length hsends.targets
  have hmsgs := congrArg List.length hsends.msgs
  simp only [List.length_map, List.length_append, List.length_cons, List.length_nil, zero_add,
    Option.toList_none] at hle hcame htargets hmsgs
  change (s.msgq (.ackMbx m)).items.length ≤ _ at hle
  omega

/-- A call that waits while an acknowledged message is in the queue goes on. -/
theorem wait_goes_on (hm : c.pMbxFrom = some m) {sent : List SentMsg} {v : ℤ}
    (hpc : s.pc t = .bcastWait c sent v) (hitems : (s.msgq (.ackMbx m)).items ≠ [])
    (addr : MsgPtr) :
    ∃ s' x, mbxStep s (.run t addr) = some s' ∧ s'.pc t = .bcastGot c sent v x := by
  have hq : c.ackMbx = some (.ackMbx m) := by rw [MbxSend.ackMbx, hm, Option.map_some]
  have hcount : 0 < (s.msgq (.ackMbx m)).count := by
    rw [← RingHndl.length_items]
    exact List.length_pos_iff.mpr hitems
  have hrecv : ∃ r x, s.recvMsg (.ackMbx m) osaTimeoutForever = some (r, some x) := by
    simp [MbxState.recvMsg, osaMsgqRecvMsg, RingHndl.getPass, hcount]
  obtain ⟨r, x, hr⟩ := hrecv
  refine ⟨r.goto t (.bcastGot c sent v x), x, ?_, MbxState.goto_pc_self ..⟩
  simp only [mbxStep, MbxState.run, hpc, hq, Option.bind_some, hr, Option.map_some]

/-- When every message has been acknowledged, the call is in its loop or has returned. -/
theorem BcastInv.waiting (h : BcastInv c m pMbxToList t (s, log)) (hm : c.pMbxFrom = some m)
    (hall : (arrived (.ackMbx m) log).length = pMbxToList.length) :
    (∃ sent v, s.pc t = .bcastWait c sent v ∧ (s.msgq (.ackMbx m)).items ≠ []) ∨
      (∃ sent v x, s.pc t = .bcastGot c sent v x) ∨ ∃ v, s.pc t = .idle v := by
  have hphase := h.phase
  cases hpc : s.pc t with
  | alloc c' sent pMbxTo rest =>
      rw [hpc] at hphase
      obtain ⟨rfl, hsends, hc⟩ := hphase
      have hlt := h.arrived_lt hm (by rw [hpc]; rfl) (by rw [hpc]; rfl) hsends hc
      omega
  | put c' sent data pMbxTo rest =>
      rw [hpc] at hphase
      obtain ⟨rfl, hsends, hc, -⟩ := hphase
      have hlt := h.arrived_lt hm (by rw [hpc]; rfl) (by rw [hpc]; rfl) hsends hc
      omega
  | bcastWait c' sent v =>
      rw [hpc] at hphase
      obtain ⟨rfl, hsends, hwait, got, hc, hmarks⟩ := hphase
      refine Or.inl ⟨sent, v, rfl, fun hnil ↦ ?_⟩
      -- every ACK is marked, so an entry would be left over
      have hcame := congrArg List.length hc.came
      have htargets := congrArg List.length hsends.targets
      have hmsgs := congrArg List.length hsends.msgs
      have hmarked := hmarks.marked.length_eq
      change (s.msgq (.ackMbx m)).items = [] at hnil
      change _ = (got.map some ++ ([] ++ (s.msgq (.ackMbx m)).items).map s.mem).length at hcame
      rw [hnil] at hcame
      simp only [List.length_map, List.map_nil, List.append_nil] at hcame htargets hmsgs hmarked
      have hfull : (sent.filter fun d ↦ d.ack).length = sent.length := by omega
      obtain ⟨d, hd⟩ := List.exists_mem_of_ne_nil _ hwait
      obtain ⟨hd, hack⟩ := List.mem_filter.mp hd
      have hmark := List.length_filter_eq_length_iff.mp hfull d hd
      simp [hmark] at hack
  | bcastGot c' sent v x =>
      rw [hpc] at hphase
      obtain rfl := hphase.1
      exact Or.inr (Or.inl ⟨sent, v, x, rfl⟩)
  | idle v => exact Or.inr (Or.inr ⟨v, rfl⟩)
  | sendWait | sendGot | recv | waitCmd | waitCmdGot | ackOrFree | sendAck | flushRcv | flushAck
  | flushGot | fault =>
      rw [hpc] at hphase
      exact hphase.elim

/-- A step of the call once everything has been sent. -/
theorem ownStep {a : MbxState M T × List (MsgqSend M T)} {s' : MbxState M T}
    (hcall : (a.1.pc t).call ≠ none) (hquiet : a.1.msgqSend (.run t addr) = none)
    (hstep : mbxStep a.1 (.run t addr) = some s') :
    OwnStep t a (.run t addr) ∧ recorded mbxStep logSend a (.run t addr) = some (s', a.2) := by
  refine ⟨⟨⟨⟨fun cn hcn ↦ (by cases hcn), trivial⟩, hcall⟩, addr, rfl⟩, ?_⟩
  exact recorded_eq_some.mpr ⟨hstep, (logSend_none hquiet).symm⟩

/-- The call returns by its own steps when every message has been acknowledged: each two of them
collect one ACK. -/
theorem BcastInv.returns (hm : c.pMbxFrom = some m) (hbcast : c.broadcast = true)
    (hwaits : c.waitsAck = true) (hcmd : c.cmd < 2 ^ 16) (hflags : c.flags < 2 ^ 16)
    (hall : (arrived (.ackMbx m) log).length = pMbxToList.length) {n : ℕ} :
    ∀ {s : MbxState M T}, BcastInv c m pMbxToList t (s, log) → (s.pc t).pending.length = n →
      ∃ b retVal, Reach (recorded mbxStep logSend) (OwnStep t) (s, log) b ∧
        b.1.pc t = .idle retVal := by
  induction n using Nat.strong_induction_on with
  | _ n ih =>
    have hgot : ∀ {s : MbxState M T} {sent : List SentMsg} {v : ℤ} {x : MsgPtr},
        BcastInv c m pMbxToList t (s, log) → s.pc t = .bcastGot c sent v x →
        (unacked sent).length = n → ∃ b retVal,
          Reach (recorded mbxStep logSend) (OwnStep t) (s, log) b ∧ b.1.pc t = .idle retVal := by
      intro s sent v x h hpc hn
      have hstage := h.inv.stage t
      rw [hpc] at hstage
      obtain ⟨s', hstep⟩ : ∃ s', mbxStep s (.run t 0) = some s' := by
        simp [mbxStep, MbxState.run, hpc]
      obtain ⟨hok, hrec⟩ := ownStep (a := (s, log)) (by simp [hpc, MbxPc.call])
        (by simp [MbxState.msgqSend, hpc]) hstep
      have h' := h.step hm hbcast hwaits hcmd hflags hok.1 hrec
      obtain ⟨d, b, rfl, hack⟩ := gotAck h.inv hpc hstep
      have hfewer := (perm_markAck hstage.2.2 (List.mem_map_of_mem hack.pending)).length_eq
      simp only [List.length_map, List.length_cons] at hfewer
      have hpending : (s'.pc t).pending.length < n := by
        rw [hack.pc]
        split
        · exact Nat.zero_lt_of_lt (by omega : (unacked (markAck d.msg sent)).length < n)
        · change (unacked (markAck d.msg sent)).length < n
          omega
      obtain ⟨b', retVal, hreach, hidle⟩ := ih _ hpending h' rfl
      exact ⟨b', retVal, (Reach.tail (.run t 0) .refl hok hrec).trans hreach, hidle⟩
    intro s h hn
    rcases h.waiting hm hall with ⟨sent, v, hpc, hitems⟩ | ⟨sent, v, x, hpc⟩ | ⟨v, hpc⟩
    · obtain ⟨s', x, hstep, hpc'⟩ := wait_goes_on hm hpc hitems 0
      obtain ⟨hok, hrec⟩ := ownStep (a := (s, log)) (by simp [hpc, MbxPc.call])
        (by simp [MbxState.msgqSend, hpc]) hstep
      have h' := h.step hm hbcast hwaits hcmd hflags hok.1 hrec
      rw [hpc] at hn
      obtain ⟨b, retVal, hreach, hidle⟩ := hgot h' hpc' hn
      exact ⟨b, retVal, (Reach.tail (.run t 0) .refl hok hrec).trans hreach, hidle⟩
    · rw [hpc] at hn
      exact hgot h hpc hn
    · exact ⟨(s, log), v, .refl, hpc⟩

/-- The call begins with nothing in its `ackMbx`. -/
theorem BcastInv.start (hs : MbxInv (fun _ _ ↦ True) s) {cmd : ℕ} {pPrm : Option ℕ} {flags : ℕ}
    {pMbxTo : M} {rest : List M}
    (hok : MbxOk s (.invoke t (.broadcastMsg (pMbxTo :: rest) (some m) cmd pPrm flags)))
    (hcall : mbxStep s (.invoke t (.broadcastMsg (pMbxTo :: rest) (some m) cmd pPrm flags)) =
      some s') :
    BcastInv ⟨true, some m, cmd, pPrm, flags⟩ m (pMbxTo :: rest) t (s', []) := by
  refine ⟨hs.step hok (fun _ _ ↦ trivial) hcall, ?_⟩
  have hnone : (s.msgq (.ackMbx m)).items = [] := by
    apply List.eq_nil_iff_forall_not_mem.mpr
    intro x hx
    obtain ⟨u, hu, -⟩ := hs.ackMbx_pending hx
    exact ((hok.1 _ rfl).2 m rfl u).1 hu
  simp only [mbxStep] at hcall
  split at hcall
  · cases hcall
    simp only [MbxState.invoke, MbxState.goto_pc_self]
    refine ⟨rfl, ⟨rfl, rfl, rfl, fun e he ↦ (by cases he)⟩, ?_, fun e he ↦ (by cases he),
      fun b hb ↦ (by cases hb)⟩
    change [] = ((s.msgq (.ackMbx m)).items).map _
    rw [hnone]
    rfl
  · cases hcall

theorem BcastInv.law {a : MbxState M T × List (MsgqSend M T)} (h : BcastInv c m pMbxToList t a)
    (hm : c.pMbxFrom = some m) (hbcast : c.broadcast = true) (hwaits : c.waitsAck = true)
    (hcmd : c.cmd < 2 ^ 16) (hflags : c.flags < 2 ^ 16) : BcastLaw c m pMbxToList t a := by
  have hphase := h.phase
  constructor
  · exact h.inv.no_fault t
  · intro retVal hpc
    rwa [hpc] at hphase
  · intro hall
    exact h.returns hm hbcast hwaits hcmd hflags hall rfl

end Own

/-! ## Every run of a call -/

/-- A broadcast that waits for its ACKs. -/
theorem broadcast_acknowledged (cells : MsgqPtr M → Vector MsgPtr osaMsgqLenMax)
    {s₀ s₁ : MbxState M T} {m : M} {pMbxToList : List M} {cmd : ℕ} {pPrm : Option ℕ} {flags : ℕ}
    {a : MbxState M T × List (MsgqSend M T)} (h₀ : Reach mbxStep MbxOk (mbxStart cells) s₀)
    (hlist : pMbxToList ≠ []) (hcmd : cmd < 2 ^ 16) (hflags : flags < 2 ^ 16)
    (hwait : hasFlag flags osaMbxWaitAck = true)
    (hok : MbxOk s₀ (.invoke t (.broadcastMsg pMbxToList (some m) cmd pPrm flags)))
    (hcall : mbxStep s₀ (.invoke t (.broadcastMsg pMbxToList (some m) cmd pPrm flags)) = some s₁)
    (h : Reach (recorded mbxStep logSend) (InCall t) (s₁, []) a) :
    BcastLaw ⟨true, some m, cmd, pPrm, flags⟩ m pMbxToList t a := by
  obtain ⟨pMbxTo, rest, rfl⟩ := List.exists_cons_of_ne_nil hlist
  have hwaits : MbxSend.waitsAck (⟨true, some m, cmd, pPrm, flags⟩ : MbxSend M) = true := by
    simp [MbxSend.waitsAck, MbxSend.ackMbx, hwait]
  have hinv : BcastInv ⟨true, some m, cmd, pPrm, flags⟩ m (pMbxTo :: rest) t a := by
    apply h.invariant (.start (mbxInv_of_reach cells h₀) hok hcall)
    intro a l b ha hok hstep
    exact ha.step rfl rfl hwaits hcmd hflags hok hstep
  exact hinv.law rfl rfl hwaits hcmd hflags

end

/-- A broadcast to one mailbox twice: the second message is acknowledged first, with `OSA_SOK`, then
the first with 7, which is returned. -/
theorem broadcast_acknowledged_twice :
    ∃ a : MbxState (Fin 2) (Fin 2) × List (MsgqSend (Fin 2) (Fin 2)),
      a.1.pc 0 = .idle 7 ∧ a.1.log.freed = [1, 0] ∧
        BcastLaw ⟨true, some 0, 7, some 3, 6⟩ 0 [1, 1] 0 a := by
  have hok : MbxOk (mbxStart fun _ : MsgqPtr (Fin 2) ↦ Vector.replicate osaMsgqLenMax 0 :
      MbxState (Fin 2) (Fin 2)) (.invoke 0 (.broadcastMsg [1, 1] (some 0) 7 (some 3) 6)) := by
    decide
  obtain ⟨a, ha, hlog⟩ := Reach.exists_of_exec (recorded mbxStep logSend) (InCall 0)
    ((mbxStart fun _ : MsgqPtr (Fin 2) ↦ Vector.replicate osaMsgqLenMax 0 :
      MbxState (Fin 2) (Fin 2)).invoke 0 (.broadcastMsg [1, 1] (some 0) 7 (some 3) 6), [])
    [.run 0 100, .run 0 0, .run 0 101, .run 0 0, .invoke 1 (.waitMsg 1), .run 1 0,
      .invoke 1 (.waitMsg 1), .run 1 0, .invoke 1 (.ackOrFreeMsg 1 (some 101) 0), .run 1 0,
      .run 1 0, .invoke 1 (.ackOrFreeMsg 1 (some 100) 7), .run 1 0, .run 1 0, .run 0 0, .run 0 0,
      .run 0 0, .run 0 0]
    (fun a ↦ decide (a.1.pc 0 = .idle 7 ∧ a.1.log.freed = [1, 0])) (by decide)
  obtain ⟨hpc, hfreed⟩ := of_decide_eq_true hlog
  exact ⟨a, hpc, hfreed, broadcast_acknowledged _ .refl (by decide) (by decide) (by decide)
    (by decide) hok rfl ha⟩

end OsaBase
