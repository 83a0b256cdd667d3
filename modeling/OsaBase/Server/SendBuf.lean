import OsaBase.BufRuns
import OsaBase.Communication.StreamRuns
import OsaBase.Server.Invariant

/-!
# What a broadcast does to the pools

`OSA_server_sendBuf` puts a copy of one frame into a free slot of each client. A call is one step
here: it holds `list_mutex` while it walks the list.
-/

open Chain Transition

namespace OsaBase.Server

/-- What a call works on; `mem` are the data blocks that are allocated. -/
structure Clients where
  list : ListHandle
  handles : ℕ → Option OprHandle
  mem : ℕ → Option (List UInt8)

namespace Clients

def setBuf (s : Clients) (pOprHandle : ℕ) (h : OprHandle) (buf : OsaBufHndl) : Clients :=
  { s with handles := Function.update s.handles pOprHandle (some { h with clientBuf := buf }) }

/-- `OSA_memAlloc` gives the block `addr`; a call without memory ends in an assertion and gives
nothing here, as does one that waits for a queue or follows a bad pointer. -/
def serverFillBuf (s : Clients) (pOprHandle : ℕ) (bufInfo : OsaBufInfo) (addr : Option ℕ) :
    Option (ℤ × Clients) :=
  (s.handles pOprHandle).bind fun h ↦
    if h.socket < 3 then some (-1, s)
    else (osaBufGetEmpty h.clientBuf osaTimeoutNone).bind fun r ↦
      if r.2.1 ≠ osaSok then some (0, s.setBuf pOprHandle h r.1)
      else
        let bufId := r.2.2
        let head := netInitStreamHead bufInfo.head
        let nFrameLength := (FrameHead.nFrameLength head.bytes).toNat
        addr.bind fun a ↦ (memAlloc nFrameLength true).bind fun block ↦
          (bufInfo.data.bind s.mem).bind fun data ↦
            if data.length < nFrameLength then none
            else (osaBufPutFull (r.1.setSlot bufId ⟨head, some a⟩) bufId).map fun p ↦
              (0, { s.setBuf pOprHandle h p.1 with
                mem := Function.update s.mem a
                  (some (Bytes.store block 0 (data.take nFrameLength))) })

/-- The loop of `OSA_server_sendBuf`; `addr` gives the block for each client. -/
def sendLoop (bufInfo : OsaBufInfo) (addr : ℕ → Option ℕ) : ℕ → Option ℕ → Clients → Option Clients
  | _, none, s => some s
  | 0, some _, _ => none
  | k + 1, some pFindNode, s => (s.list.nodes pFindNode).bind fun pNode ↦
      (s.serverFillBuf pNode.data bufInfo (addr pNode.data)).bind fun r ↦
        (r.2.list.listNext pFindNode).bind fun next ↦ sendLoop bufInfo addr k next r.2

def osaServerSendBuf (s : Clients) (bufInfo : OsaBufInfo) (addr : ℕ → Option ℕ) :
    Option (ℤ × Clients) :=
  if bufInfo.data = none then some (osaEfail, s)
  else (sendLoop bufInfo addr s.list.nSize.toNat s.list.listBegin s).map fun s' ↦ (osaSok, s')

end Clients

/-! ## The pool of one client -/

/-- Each slot of the pool is in one of the two queues or with one holder. -/
structure Conserved (buf : OsaBufHndl) (bufNum : ℕ) (holders : List ℤ) : Prop where
  rep : buf.Rep bufNum
  places : (buf.emptyQue.items ++ buf.fullQue.items ++ holders).Perm
    ((List.range bufNum).map fun i : ℕ ↦ (i : ℤ))

variable {buf : OsaBufHndl} {bufNum : ℕ} {holders : List ℤ} {bufInfo : OsaBufInfo} {d : ℕ}
  {s s' : Clients} {addr : ℕ → Option ℕ}

/-- A new pool is conserved. -/
theorem Conserved.of_fresh (h : buf.Fresh bufNum) : Conserved buf bufNum [] where
  rep := h.rep
  places := by rw [h.empty, h.full, List.append_nil, List.append_nil]

/-- The slot at the head of `emptyQue` has room in `fullQue`. -/
theorem Conserved.room (h : Conserved buf bufNum holders) {bufId : ℤ} {rest : List ℤ}
    (hempty : buf.emptyQue.items = bufId :: rest) :
    buf.fullQue.items.length < bufNum ∧ 0 ≤ bufId ∧ bufId < (bufNum : ℤ) := by
  have hlen := h.places.length_eq
  have hmem : bufId ∈ (List.range bufNum).map fun i : ℕ ↦ (i : ℤ) := by
    rw [← h.places.mem_iff, hempty]
    simp
  obtain ⟨i, hi, rfl⟩ := List.mem_map.mp hmem
  rw [List.mem_range] at hi
  simp only [hempty, List.length_append, List.length_cons, List.length_map, List.length_range]
    at hlen
  omega

/-- What the caller passes: a block of at least `nFrameLength` bytes. -/
structure Passed (s : Clients) (bufInfo : OsaBufInfo) (d : ℕ) (bytes : List UInt8) : Prop where
  data : bufInfo.data = some d
  block : s.mem d = some bytes
  length : (FrameHead.nFrameLength bufInfo.head.bytes).toNat ≤ bytes.length

/-- The slot `bufId` went from the head of `emptyQue` to the end of `fullQue` and holds a copy of
the frame in the block `a`; nothing else of the client changed. -/
structure Filled (bufInfo : OsaBufInfo) (bytes : List UInt8) (a : ℕ)
    (mem : ℕ → Option (List UInt8)) (h h' : OprHandle) (bufId : ℤ) : Prop where
  empty : h.clientBuf.emptyQue.items = bufId :: h'.clientBuf.emptyQue.items
  full : h'.clientBuf.fullQue.items = h.clientBuf.fullQue.items ++ [bufId]
  head : bufInfo.head.Marked (h'.clientBuf.bufInfo bufId).head
  data : (h'.clientBuf.bufInfo bufId).data = some a
  copy : mem a = some (bytes.take (FrameHead.nFrameLength bufInfo.head.bytes).toNat)
  slots : ∀ i, i ≠ bufId → h'.clientBuf.bufInfo i = h.clientBuf.bufInfo i
  same : h' = { h with clientBuf := h'.clientBuf }
  conserved : ∀ bufNum holders, Conserved h.clientBuf bufNum holders →
    Conserved h'.clientBuf bufNum holders

/-- What the call does to one client. -/
structure FillEffect (bufInfo : OsaBufInfo) (bytes : List UInt8) (a : ℕ)
    (mem : ℕ → Option (List UInt8)) (h h' : OprHandle) : Prop where
  taken : 3 ≤ h.socket → h.clientBuf.emptyQue.items ≠ [] →
    ∃ bufId, Filled bufInfo bytes a mem h h' bufId
  untouched : h.socket < 3 ∨ h.clientBuf.emptyQue.items = [] → h' = h

theorem store_zeroes {n : ℕ} {bytes : List UInt8} (h : n ≤ bytes.length) :
    Bytes.store (List.replicate n 0) 0 (bytes.take n) = bytes.take n := by
  simp [Bytes.store, h]

/-- The queues behind a get and a put. -/
theorem Conserved.fill {bufId : ℤ} {que que' : OsaQueHndl} {info : ℤ → OsaBufInfo}
    (h : Conserved buf bufNum holders) (hempty : buf.emptyQue.items = bufId :: que.items)
    (hque : que.Rep bufNum) (hfull : que'.items = buf.fullQue.items ++ [bufId])
    (hque' : que'.Rep bufNum) :
    Conserved { bufInfo := info, emptyQue := que, fullQue := que', numBuf := buf.numBuf } bufNum
      holders where
  rep := ⟨fun q ↦ by cases q <;> assumption, h.rep.numBuf⟩
  places := by
    refine List.Perm.trans ?_ h.places
    simp only [hempty, hfull]
    refine List.Perm.append_right _ ?_
    rw [← List.append_assoc]
    exact List.perm_append_singleton ..

/-- The call on one client comes to its end and changes nothing but its pool and the new block. -/
theorem serverFillBuf_spec {c a : ℕ} {h : OprHandle} {bytes : List UInt8}
    (hh : s.handles c = some h) (hpool : Conserved h.clientBuf bufNum holders)
    (hpassed : Passed s bufInfo d bytes) :
    ∃ st s', s.serverFillBuf c bufInfo (some a) = some (st, s') ∧ s'.list = s.list ∧
      (∀ x, x ≠ c → s'.handles x = s.handles x) ∧ (∀ x, x ≠ a → s'.mem x = s.mem x) ∧
      ∃ h', s'.handles c = some h' ∧ FillEffect bufInfo bytes a s'.mem h h' := by
  simp only [Clients.serverFillBuf, hh, Option.bind_some]
  by_cases hsocket : h.socket < 3
  · rw [if_pos hsocket]
    exact ⟨_, s, rfl, rfl, fun _ _ ↦ rfl, fun _ _ ↦ rfl, h, hh, fun hge ↦ by omega, fun _ ↦ rfl⟩
  · rw [if_neg hsocket]
    obtain ⟨⟨que, st, bufId⟩, hget⟩ := bufGet_none_isSome h.clientBuf.emptyQue
    obtain ⟨hque, hcase⟩ := bufGet_cases (hpool.rep.que .empty) hget
    rw [osaBufGetEmpty, hget, Option.map_some, Option.bind_some]
    rcases hcase with ⟨rfl, hempty⟩ | ⟨rfl, hempty, rfl, rfl⟩
    · obtain ⟨hroom, hid⟩ := hpool.room hempty
      obtain ⟨hput, hrep', hitems⟩ :=
        osaQuePut_done (hpool.rep.que .full) hroom bufId osaTimeoutForever
      have hvalid : ¬ (bufId ≥ h.clientBuf.numBuf ∨ bufId < 0) := by
        rw [hpool.rep.numBuf]
        omega
      have hlen := hpassed.length
      simp only [ne_eq, not_true, if_false, nFrameLength_netInitStreamHead, memAlloc, if_true,
        Option.bind_some, hpassed.data, hpassed.block, Nat.not_lt.mpr hlen, osaBufPutFull, bufPut,
        OsaBufHndl.setSlot, hvalid, Int.toNat_natCast, store_zeroes hlen]
      rw [show osaQuePut h.clientBuf.fullQue bufId osaTimeoutForever = _ from hput]
      refine ⟨_, _, rfl, rfl, fun x hx ↦ Function.update_of_ne hx ..,
        fun x hx ↦ Function.update_of_ne hx .., _, Function.update_self .., fun _ _ ↦ ⟨bufId, ?_⟩,
        fun hnot ↦ ?_⟩
      · refine ⟨hempty, hitems, ?_, ?_, Function.update_self .., fun i hi ↦ ?_, rfl, ?_⟩
        · simpa using netInitStreamHead_marked bufInfo.head
        · simp
        · simp [Function.update_of_ne hi]
        · intro n hs hc
          have hn : n = bufNum := by
            exact_mod_cast hc.rep.numBuf.symm.trans hpool.rep.numBuf
          subst hn
          exact hc.fill hempty hque hitems hrep'
      · rcases hnot with hlt | hnil
        · exact (hsocket hlt).elim
        · rw [show h.clientBuf.emptyQue.items = _ from hempty] at hnil
          cases hnil
    · simp only [ne_eq, osaEfail_ne_osaSok, not_false_eq_true, if_true]
      refine ⟨_, _, rfl, rfl, fun x hx ↦ Function.update_of_ne hx .., fun _ _ ↦ rfl, h, ?_,
        fun _ hne ↦ (hne hempty).elim, fun _ ↦ rfl⟩
      exact Function.update_self ..

/-- The call does in one step what the producer of the slot model does in several. -/
theorem serverFillBuf_steps {t : SlotState} {f : StreamFrame} {c a : ℕ} {h : OprHandle} {st : ℤ}
    (hidle : t.producer = .idle) (hh : s.handles c = some h) (hbuf : h.clientBuf = t.buf)
    (hsocket : h.socket = t.socket) (hmem : s.mem = t.mem) (hblock : s.mem d = some f.data)
    (ha : s.mem a = none)
    (hcall : s.serverFillBuf c ⟨f.head, some d⟩ (some a) = some (st, s')) :
    ∃ t', Reach (slotStep bufNum) Always t t' ∧ t'.producer = .idle ∧ t'.mem = s'.mem ∧
      s'.handles = Function.update s.handles c (some { h with clientBuf := t'.buf }) := by
  simp only [Clients.serverFillBuf, hh, Option.bind_some] at hcall
  split at hcall
  · cases hcall
    refine ⟨t, .refl, hidle, hmem.symm, ?_⟩
    rw [← hbuf]
    exact (Function.update_eq_self_iff.mpr hh.symm).symm
  · next hopen =>
    have hfill : slotStep bufNum t (.fill f) = some { t with producer := .getEmpty f } := by
      simp [slotStep, hidle, ← hsocket, hopen]
    obtain ⟨⟨buf, status, bufId⟩, hget, hcall⟩ := Option.bind_eq_some_iff.mp hcall
    rw [hbuf] at hget
    have hstart : Reach (slotStep bufNum) Always t { t with producer := .getEmpty f } :=
      .tail _ .refl trivial hfill
    split at hcall
    · next hst =>
      cases hcall
      refine ⟨{ t with buf := buf, producer := .idle }, .tail (.producer none) hstart trivial ?_,
        rfl, hmem.symm, rfl⟩
      simp [slotStep, OsaBase.serverFillBuf, hget, hst]
    · next hst =>
      simp only [Option.bind_some, memAlloc, if_true, hblock] at hcall
      split at hcall
      · cases hcall
      · next hlen =>
        obtain ⟨⟨buf', status'⟩, hput, hcall⟩ := Option.map_eq_some_iff.mp hcall
        cases hcall
        have htake : f.data.take (FrameHead.nFrameLength (netInitStreamHead f.head).bytes).toNat =
            f.data := by
          rw [nFrameLength_netInitStreamHead, ← f.length_data, List.take_length]
        rw [htake]
        let slot : OsaBufInfo := ⟨netInitStreamHead f.head, (buf.bufInfo bufId).data⟩
        let block : List UInt8 := List.replicate
          (FrameHead.nFrameLength (netInitStreamHead f.head).bytes).toNat 0
        let filled : OsaBufInfo := ⟨netInitStreamHead f.head, some a⟩
        have hslot : (buf.setSlot bufId slot).setSlot bufId filled = buf.setSlot bufId filled := by
          simp [OsaBufHndl.setSlot]
        have h₁ : slotStep bufNum { t with producer := .getEmpty f } (.producer none) =
            some { t with buf := buf, producer := .copyHead f bufId } := by
          simp [slotStep, OsaBase.serverFillBuf, hget, hst]
        have h₂ : slotStep bufNum { t with buf := buf, producer := .copyHead f bufId }
            (.producer none) =
            some { t with buf := buf.setSlot bufId slot, producer := .alloc f bufId } := rfl
        have h₃ : slotStep bufNum
            { t with buf := buf.setSlot bufId slot, producer := .alloc f bufId }
            (.producer (some a)) = some
              { t with
                buf := buf.setSlot bufId filled
                mem := Function.update t.mem a (some block)
                producer := .copyData f bufId } := by
          rw [← hslot]
          simp [slotStep, OsaBase.serverFillBuf, ← hmem, ha, OsaBufHndl.setSlot, memAlloc, slot,
            filled, block]
        have h₄ : slotStep bufNum
            { t with
              buf := buf.setSlot bufId filled
              mem := Function.update t.mem a (some block)
              producer := .copyData f bufId } (.producer none) = some
              { t with
                buf := buf.setSlot bufId filled
                mem := Function.update t.mem a (some (Bytes.store block 0 f.data))
                producer := .putFull f bufId } := by
          simp [slotStep, OsaBase.serverFillBuf, OsaBufHndl.setSlot, filled]
        have hreach := (((hstart.tail _ trivial h₁).tail _ trivial h₂).tail _ trivial h₃).tail _
          trivial h₄
        have hlast : osaBufPutFull (buf.setSlot bufId filled) bufId = some (buf', status') := hput
        have h₅ : ∃ t', slotStep bufNum
            { t with
              buf := buf.setSlot bufId filled
              mem := Function.update t.mem a (some (Bytes.store block 0 f.data))
              producer := .putFull f bufId } (.producer none) = some t' ∧ t'.producer = .idle ∧
            t'.mem = Function.update t.mem a (some (Bytes.store block 0 f.data)) ∧
            t'.buf = buf' := by
          simp only [slotStep, OsaBase.serverFillBuf, hlast, Option.map_some]
          split <;> exact ⟨_, rfl, rfl, rfl, rfl⟩
        obtain ⟨t', hstep, hidle', hmem', rfl⟩ := h₅
        refine ⟨t', hreach.tail _ trivial hstep, hidle', ?_, rfl⟩
        rw [hmem', ← hmem]
        rfl

/-! ## The list of clients -/

/-- The clients are different, the pool of each is conserved, and there is new memory for each. -/
structure Ready (s : Clients) (addr : ℕ → Option ℕ) (clients : List ℕ) : Prop where
  distinct : clients.Nodup
  pools : ∀ c ∈ clients, ∃ h bufNum holders, s.handles c = some h ∧
    Conserved h.clientBuf bufNum holders
  memory : ∀ c ∈ clients, ∃ a, addr c = some a ∧ s.mem a = none
  apart : ∀ c ∈ clients, ∀ c' ∈ clients, addr c' = addr c → c' = c

/-- What the call does to all clients. -/
structure SendEffect (bufInfo : OsaBufInfo) (bytes : List UInt8) (addr : ℕ → Option ℕ)
    (clients : List ℕ) (s s' : Clients) : Prop where
  list : s'.list = s.list
  each : ∀ c ∈ clients, ∃ h h' a, s.handles c = some h ∧ s'.handles c = some h' ∧
    addr c = some a ∧ FillEffect bufInfo bytes a s'.mem h h'
  others : ∀ x, x ∉ clients → s'.handles x = s.handles x
  blocks : ∀ x, (∀ c ∈ clients, addr c ≠ some x) → s'.mem x = s.mem x

theorem FillEffect.congr {bytes : List UInt8} {a : ℕ} {mem mem' : ℕ → Option (List UInt8)}
    {h h' : OprHandle} (heff : FillEffect bufInfo bytes a mem h h') (hmem : mem' a = mem a) :
    FillEffect bufInfo bytes a mem' h h' where
  taken := fun hsocket hempty ↦ by
    obtain ⟨bufId, hfilled⟩ := heff.taken hsocket hempty
    exact ⟨bufId, { hfilled with copy := hmem.trans hfilled.copy }⟩
  untouched := heff.untouched

theorem Passed.congr {bytes : List UInt8} (h : Passed s bufInfo d bytes)
    (hmem : s'.mem d = s.mem d) : Passed s' bufInfo d bytes :=
  { h with block := hmem.trans h.block }

/-- The call on the first client leaves the others ready. -/
theorem Ready.tail {c a : ℕ} {clients : List ℕ} (h : Ready s addr (c :: clients))
    (ha : addr c = some a) (hhandles : ∀ x, x ≠ c → s'.handles x = s.handles x)
    (hmem : ∀ x, x ≠ a → s'.mem x = s.mem x) : Ready s' addr clients := by
  obtain ⟨hc, hdistinct⟩ := List.nodup_cons.mp h.distinct
  have hne : ∀ x ∈ clients, x ≠ c := fun x hx heq ↦ hc (heq ▸ hx)
  refine ⟨hdistinct, fun x hx ↦ ?_, fun x hx ↦ ?_, fun x hx y hy ↦ ?_⟩
  · rw [hhandles x (hne x hx)]
    exact h.pools x (List.mem_cons_of_mem _ hx)
  · obtain ⟨b, hb, hnone⟩ := h.memory x (List.mem_cons_of_mem _ hx)
    refine ⟨b, hb, ?_⟩
    rw [hmem b, hnone]
    rintro rfl
    exact hne x hx (h.apart c (List.mem_cons_self ..) x (List.mem_cons_of_mem _ hx)
      (hb.trans ha.symm))
  · exact h.apart x (List.mem_cons_of_mem _ hx) y (List.mem_cons_of_mem _ hy)

theorem sendLoop_spec {cells : List (ℕ × ℕ)} {p : Option ℕ} {k : ℕ} {bytes : List UInt8}
    (hseg : Segment s.list.nodes p cells none) (hk : cells.length ≤ k)
    (hready : Ready s addr (cells.map Prod.snd)) (hpassed : Passed s bufInfo d bytes) :
    ∃ s', Clients.sendLoop bufInfo addr k p s = some s' ∧
      SendEffect bufInfo bytes addr (cells.map Prod.snd) s s' := by
  induction cells generalizing s p k with
  | nil =>
      obtain rfl : p = none := hseg
      refine ⟨s, by cases k <;> rfl, rfl, ?_, fun _ _ ↦ rfl, fun _ _ ↦ rfl⟩
      simp
  | cons x cells ih =>
      obtain ⟨pNode, c⟩ := x
      obtain ⟨k, rfl⟩ : ∃ j, k = j + 1 := ⟨k - 1, by simp at hk; omega⟩
      obtain ⟨rfl, next, hnode, hrest⟩ := hseg
      rw [List.map_cons] at hready
      obtain ⟨h, bufNum, holders, hh, hpool⟩ := hready.pools c (List.mem_cons_self ..)
      obtain ⟨a, ha, hfresh⟩ := hready.memory c (List.mem_cons_self ..)
      obtain ⟨st, s₁, hfill, hlist, hhandles, hmem, h', hh', heff⟩ :=
        serverFillBuf_spec hh hpool hpassed (a := a)
      have hd : d ≠ a := by
        rintro rfl
        simp [hpassed.block] at hfresh
      obtain ⟨s', hloop, heffect⟩ := ih (hlist ▸ hrest) (by simpa using hk)
        (hready.tail ha hhandles hmem) (hpassed.congr (hmem d hd))
      have hnext : s₁.list.listNext pNode = some next := by
        rw [hlist]
        simp [ListHandle.listNext, hnode]
      refine ⟨s', ?_, heffect.list.trans hlist, ?_, fun x hx ↦ ?_, fun x hx ↦ ?_⟩
      · simp [Clients.sendLoop, hnode, ha, hfill, hnext, hloop]
      · have hne : ∀ x ∈ cells.map Prod.snd, x ≠ c := by
          rintro x hx rfl
          exact (List.nodup_cons.mp hready.distinct).1 hx
        intro x hx
        rcases List.mem_cons.mp hx with rfl | hx
        · have hkeep : s'.handles x = s₁.handles x :=
            heffect.others x fun hmem ↦ hne x hmem rfl
          refine ⟨h, h', a, hh, hkeep.trans hh', ha, heff.congr (heffect.blocks a ?_)⟩
          intro y hy hya
          exact hne y hy (hready.apart x (List.mem_cons_self ..) y (List.mem_cons_of_mem _ hy)
            (hya.trans ha.symm))
        · obtain ⟨g, g', b, hg, hg', hb, hfilled⟩ := heffect.each x hx
          exact ⟨g, g', b, (hhandles x (hne x hx)).symm.trans hg, hg', hb, hfilled⟩
      · rw [List.map_cons, List.mem_cons, not_or] at hx
        exact (heffect.others x hx.2).trans (hhandles x hx.1)
      · rw [heffect.blocks x fun y hy ↦ hx y (List.mem_cons_of_mem _ hy)]
        refine hmem x ?_
        rintro rfl
        exact hx c (List.mem_cons_self ..) ha

/-- `OSA_server_sendBuf` comes to its end; each client with a socket and a free slot gets a copy of
the frame at the end of its `fullQue`, and nothing else is changed. -/
theorem server_sendBuf_effect {clients : List ℕ} {bytes : List UInt8}
    (hlist : s.list.Holds clients) (hready : Ready s addr clients)
    (hpassed : Passed s bufInfo d bytes) :
    ∃ s', s.osaServerSendBuf bufInfo addr = some (osaSok, s') ∧
      SendEffect bufInfo bytes addr clients s s' ∧ s'.mem d = some bytes := by
  have hfuel := hlist.toNat_size
  obtain ⟨⟨cells, hcells, rfl⟩, -⟩ := hlist
  rw [List.length_map] at hfuel
  obtain ⟨s', hloop, heffect⟩ := sendLoop_spec hcells.segment hfuel hready hpassed
  refine ⟨s', ?_, heffect, ?_⟩
  · rw [Clients.osaServerSendBuf, if_neg (by simp [hpassed.data]), ListHandle.listBegin, hloop,
      Option.map_some]
  · rw [heffect.blocks d, hpassed.block]
    intro c hc hd
    obtain ⟨a, ha, hnone⟩ := hready.memory c hc
    obtain rfl : d = a := Option.some.inj (hd.symm.trans ha)
    simp [hpassed.block] at hnone

/-- In every run of the server the list holds client handles, each once. -/
theorem registered_distinct {param : ServerParam} {ok : State → Label param → Prop} {t : State}
    (h : Reach (step param) ok start t) :
    t.list.Holds t.list.contents ∧ t.list.contents.Nodup := by
  have hinv : Inv t := h.invariant start_inv fun _ _ _ ha _ hl ↦ ha.step hl
  exact ⟨hinv.reg.holds, hinv.reg.nodup⟩

theorem oneSlot_conserved : Conserved oneSlot 1 [] :=
  .of_fresh (osaBufCreate_fresh le_rfl (by decide) oneSlot_create)

/-- Two clients, the second without a socket. -/
def twoListed : Clients where
  list := (listCreate.listPushFront (some 21) 1).listPushFront (some 20) 0
  handles := fun c ↦
    if c < 2 then some ⟨if c = 0 then 5 else -1, .connect, true, oneSlot, true⟩ else none
  mem := fun d ↦ if d = 3 then some [10] else none

theorem server_sendBuf_effect_two : ∃ s', twoListed.osaServerSendBuf
      ⟨(oneByteFrame 10).head, some 3⟩ (fun c ↦ some (c + 7)) = some (osaSok, s') ∧
    SendEffect ⟨(oneByteFrame 10).head, some 3⟩ [10] (fun c ↦ some (c + 7)) [0, 1] twoListed s' ∧
      s'.mem 3 = some [10] := by
  have hcells := (ListHandle.listCreate_cells.pushFront (a := 21) rfl 1).pushFront (a := 20) rfl 0
  refine server_sendBuf_effect ⟨⟨_, hcells, rfl⟩, by decide⟩ ⟨by decide, fun c hc ↦ ?_,
    fun c hc ↦ ⟨c + 7, rfl, ?_⟩, fun c _ c' _ h ↦ by simpa using h⟩ ⟨rfl, rfl, by decide⟩
  · have hlt : c < 2 := by
      simp at hc
      omega
    exact ⟨_, 1, [], if_pos hlt, oneSlot_conserved⟩
  · have hne : c + 7 ≠ 3 := by omega
    simp [twoListed, hne]

end OsaBase.Server
