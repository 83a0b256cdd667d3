import Mathlib.Data.List.Forall2
import OsaBase.Communication.StreamEffects

/-!
# The invariant of the slots

Every slot is in one place, every slot that is not being nulled has a block of its own, and what was
enqueued is what was sent followed by what is on its way. Each step of the producer and the consumer
keeps this if the producer takes no slot that the consumer still cleans up.
-/

open Transition

namespace OsaBase

variable {bufNum : ℕ} {s s' : SlotState} {l : SlotLabel}

/-! ## What a slot holds -/

/-- The slot holds the frame, with its data in a block of its own. -/
def Holds (s : SlotState) (bufId : ℤ) (f : StreamFrame) : Prop :=
  (s.buf.bufInfo bufId).head = netInitStreamHead f.head ∧
    ∃ a, (s.buf.bufInfo bufId).data = some a ∧ s.mem a = some f.data

/-- Slot and block are the same in both states. -/
def Agrees (s s' : SlotState) (bufId : ℤ) : Prop :=
  s'.buf.bufInfo bufId = s.buf.bufInfo bufId ∧
    ∀ a ∈ (s.buf.bufInfo bufId).data, s'.mem a = s.mem a

theorem Holds.of_agrees {bufId : ℤ} {f : StreamFrame} (h : Holds s bufId f)
    (hsame : Agrees s s' bufId) : Holds s' bufId f := by
  obtain ⟨hhead, a, hdata, hmem⟩ := h
  refine ⟨?_, a, ?_, ?_⟩
  · rw [hsame.1, hhead]
  · rw [hsame.1, hdata]
  · rw [hsame.2 a hdata, hmem]

theorem netSendBuf_sok {socket : ℤ} {head : FrameHead} {data : List UInt8} {es : SendSchedule}
    {run : SendRun} (hlen : data.length = (FrameHead.nFrameLength head.bytes).toNat)
    (h : netSendBuf socket head (some data) es = some run) (hok : run.status = osaSok) :
    run.sent = head.bytes ++ data := by
  simp only [netSendBuf, reduceCtorEq, if_false] at h
  split at h
  · cases h
    cases hok
  · obtain ⟨r, hr, hrun⟩ := Option.bind_eq_some_iff.mp h
    split at hrun
    · next hbad =>
      cases hrun
      exact (hbad hok).elim
    · next hgood =>
      obtain ⟨q, hq, rfl⟩ := Option.map_eq_some_iff.mp hrun
      have hhead : r.sent = head.bytes := by
        rcases osaTcpSndNonblockFd_sends (by decide) hr with ⟨-, hsent⟩ | ⟨hfail, -⟩
        · rw [hsent, ← head.length_bytes, List.take_length]
        · exact (hgood fun hok' ↦ osaEfail_ne_osaSok (hfail.symm.trans hok')).elim
      have hint : ((FrameHead.nFrameLength head.bytes).toInt = data.length ∧ 0 < data.length) ∨
          (FrameHead.nFrameLength head.bytes).toInt ≤ 0 := by
        rw [hlen, BitVec.toInt_eq_toNat_cond]
        split <;> omega
      rcases hint with ⟨hint, hpos⟩ | hneg
      · rw [hint] at hq
        rcases osaTcpSndNonblockFd_sends hpos hq with ⟨-, hsent⟩ | ⟨hfail, -⟩
        · simp only [hhead, hsent, List.take_length]
        · exact (osaEfail_ne_osaSok (hfail.symm.trans hok)).elim
      · simp only [osaTcpSndNonblockFd, hneg, if_true] at hq
        split at hq
        · cases hq
          exact (osaEfail_ne_osaSok hok).elim
        · cases hq
          exact (osaEfail_ne_osaSok hok).elim

/-! ## The invariant -/

/-- What the producer has done to the slot in its hand so far. -/
def ProducerPc.Stage (s : SlotState) : ProducerPc → Prop
  | .alloc f bufId => (s.buf.bufInfo bufId).head = netInitStreamHead f.head
  | .copyData f bufId => (s.buf.bufInfo bufId).head = netInitStreamHead f.head ∧
      ∃ a block, (s.buf.bufInfo bufId).data = some a ∧ s.mem a = some block ∧
        block.length = f.data.length
  | .putFull f bufId => Holds s bufId f
  | .fault => False
  | _ => True

/-- The frame in the consumer's hand that has not been sent yet. -/
def ConsumerPc.Unsent (s : SlotState) (fs : List StreamFrame) : ConsumerPc → Prop
  | .send bufId => ∃ f, fs = [f] ∧ Holds s bufId f
  | .putEmpty bufId => fs = [] ∧ (s.buf.bufInfo bufId).data ≠ none
  | .fault | .left => False
  | _ => fs = []

/-- What was enqueued is what was sent, then the frame in the consumer's hand, then what waits in
`fullQue`. -/
def Contents (s : SlotState) : Prop :=
  ∃ done hand waiting : List StreamFrame, s.enqueued = done ++ hand ++ waiting ∧
    s.sent = done.map StreamFrame.pair ∧ s.consumer.Unsent s hand ∧
    List.Forall₂ (Holds s) s.buf.fullQue.items waiting

structure SlotInv (bufNum : ℕ) (s : SlotState) : Prop where
  emptyRep : s.buf.emptyQue.Rep bufNum
  fullRep : s.buf.fullQue.Rep bufNum
  numBuf : s.buf.numBuf = bufNum
  bound : ∀ i ∈ s.places.all, 0 ≤ i ∧ i < bufNum
  nodup : s.places.all.Nodup
  cleanup : ∀ i ∈ s.consumer.cleanup, i ∈ s.buf.emptyQue.items ∧ (s.buf.bufInfo i).data ≠ none
  live : ∀ i a, (s.buf.bufInfo i).data = some a → s.consumer ≠ .null i → s.mem a ≠ none
  distinct : ∀ i j a, (s.buf.bufInfo i).data = some a → (s.buf.bufInfo j).data = some a →
    s.consumer ≠ .null i → s.consumer ≠ .null j → i = j
  stage : s.producer.Stage s
  contents : Contents s

theorem SlotInv.queues (hs : SlotInv bufNum s) : SlotQueues bufNum s :=
  ⟨hs.emptyRep, hs.fullRep, hs.numBuf, hs.bound, hs.nodup⟩

theorem SlotInv.not_cleanup_of_custody (hs : SlotInv bufNum s) {i : ℤ} (hi : s.Custody i) :
    s.consumer.cleanup ≠ some i := by
  intro h
  obtain ⟨hfill, hfull, -⟩ := Pool.Places.not_custody_of_empty hs.nodup (hs.cleanup i h).1
  rcases hi with hi | hi
  · exact hfill hi
  · exact hfull hi

/-! ## Steps that move a slot -/

/-- The slots and the blocks are as before, and at most one slot went to its next place. -/
structure Moves (s s' : SlotState) : Prop where
  bufInfo : s'.buf.bufInfo = s.buf.bufInfo
  mem : s'.mem = s.mem
  numBuf : s'.buf.numBuf = s.buf.numBuf
  places : s'.places = s.places ∨ Pool.Move s.places s'.places
  null : ∀ i, s.consumer = .null i → s'.consumer = .null i

theorem SlotInv.moves (hs : SlotInv bufNum s) (h : Moves s s')
    (hempty : s'.buf.emptyQue.Rep bufNum) (hfull : s'.buf.fullQue.Rep bufNum)
    (hcleanup : ∀ i ∈ s'.consumer.cleanup,
      i ∈ s'.buf.emptyQue.items ∧ (s.buf.bufInfo i).data ≠ none)
    (hstage : s'.producer.Stage s') (hcontents : Contents s') : SlotInv bufNum s' := by
  have hperm : s.places.all.Perm s'.places.all := by
    rcases h.places with heq | hmove
    · rw [heq]
    · exact hmove.perm
  have hnull : ∀ i, s'.consumer ≠ .null i → s.consumer ≠ .null i := fun i ↦ mt (h.null i)
  constructor
  · exact hempty
  · exact hfull
  · rw [h.numBuf, hs.numBuf]
  · exact fun i hi ↦ hs.bound i (hperm.mem_iff.mpr hi)
  · exact hperm.nodup_iff.mp hs.nodup
  · rw [h.bufInfo]
    exact hcleanup
  · rw [h.bufInfo, h.mem]
    exact fun i a hi hn ↦ hs.live i a hi (hnull i hn)
  · rw [h.bufInfo]
    exact fun i j a hi hj hni hnj ↦ hs.distinct i j a hi hj (hnull i hni) (hnull j hnj)
  · exact hstage
  · exact hcontents

/-! ## Steps that change a slot -/

theorem SlotInv.not_null_of_cleanup_ne (i : ℤ) (h : s.consumer.cleanup ≠ some i) :
    s.consumer ≠ .null i := by
  intro hnull
  rw [hnull] at h
  exact h rfl

theorem Contents.of_agrees (h : Contents s) (henq : s'.enqueued = s.enqueued)
    (hsent : s'.sent = s.sent) (hitems : s'.buf.fullQue.items = s.buf.fullQue.items)
    (hagrees : ∀ i ∈ s.buf.fullQue.items, Agrees s s' i)
    (hunsent : ∀ fs, s.consumer.Unsent s fs → s'.consumer.Unsent s' fs) : Contents s' := by
  obtain ⟨done, hand, waiting, he, hs, hhand, hwaiting⟩ := h
  refine ⟨done, hand, waiting, henq.trans he, hsent.trans hs, hunsent hand hhand, ?_⟩
  rw [hitems]
  have hmem : List.Forall₂ (fun i f ↦ i ∈ s.buf.fullQue.items ∧ Holds s i f)
      s.buf.fullQue.items waiting := List.forall₂_and_left _ _ |>.mpr ⟨fun i hi ↦ hi, hwaiting⟩
  exact hmem.imp fun i f hf ↦ hf.2.of_agrees (hagrees i hf.1)

/-- A slot and the blocks are written. -/
def SlotState.write (s : SlotState) (bufId : ℤ) (info : OsaBufInfo)
    (mem : ℕ → Option (List UInt8)) : SlotState :=
  { s with buf := s.buf.setSlot bufId info, mem := mem }

theorem bufInfo_write (s : SlotState) {bufId : ℤ} (info : OsaBufInfo)
    (mem : ℕ → Option (List UInt8)) {i : ℤ} (hi : i ≠ bufId) :
    (s.write bufId info mem).buf.bufInfo i = s.buf.bufInfo i := by
  simp [SlotState.write, OsaBufHndl.setSlot, hi]

@[simp] theorem bufInfo_write_self (s : SlotState) (bufId : ℤ) (info : OsaBufInfo)
    (mem : ℕ → Option (List UInt8)) : (s.write bufId info mem).buf.bufInfo bufId = info := by
  simp [SlotState.write, OsaBufHndl.setSlot]

theorem write_same (s : SlotState) (bufId : ℤ) (mem : ℕ → Option (List UInt8)) :
    s.write bufId (s.buf.bufInfo bufId) mem = { s with mem := mem } := by
  simp only [SlotState.write, OsaBufHndl.setSlot, Function.update_eq_self]

/-- The producer works on the slot in its hand and on a block that no other slot has. -/
theorem SlotInv.touches {bufId : ℤ} (hs : SlotInv bufNum s)
    (hslot : s.producer.slot = some bufId) (info : OsaBufInfo) (mem : ℕ → Option (List UInt8))
    (pc : ProducerPc) (hpc : pc.slot = some bufId)
    (hmem : ∀ i ≠ bufId, ∀ a, (s.buf.bufInfo i).data = some a → s.consumer ≠ .null i →
      mem a = s.mem a)
    (hlive : ∀ a, info.data = some a → mem a ≠ none)
    (hown : ∀ a, info.data = some a → ∀ i ≠ bufId, (s.buf.bufInfo i).data = some a →
      s.consumer ≠ .null i → False)
    (hstage : pc.Stage (s.write bufId info mem)) :
    SlotInv bufNum { s.write bufId info mem with producer := pc } := by
  have hplaces : SlotState.places { s.write bufId info mem with producer := pc } = s.places := by
    simp only [SlotState.places, hslot, hpc]
    rfl
  have hcustody := hs.not_cleanup_of_custody (Or.inl hslot)
  have hagrees : ∀ i ≠ bufId, s.consumer ≠ .null i →
      Agrees s { s.write bufId info mem with producer := pc } i :=
    fun i hi hn ↦ ⟨bufInfo_write s info mem hi, fun a ha ↦ hmem i hi a ha hn⟩
  have hplace : ∀ i, i ∈ s.buf.fullQue.items ∨ s.consumer.slot = some i → i ≠ bufId := by
    rintro i hi rfl
    have hnodup := hs.nodup
    simp only [Pool.Places.all, SlotState.places, hslot, Option.toList_some, List.nodup_append,
      List.mem_append, Option.mem_toList, List.mem_singleton] at hnodup
    obtain ⟨⟨-, -, hfull⟩, -, hhand⟩ := hnodup
    rcases hi with hi | hi
    · exact hfull i (Or.inr rfl) i hi rfl
    · exact hhand i (Or.inl (Or.inr rfl)) i hi rfl
  have hdata : ∀ i a, ((s.write bufId info mem).buf.bufInfo i).data = some a →
      (i = bufId ∧ info.data = some a) ∨ (i ≠ bufId ∧ (s.buf.bufInfo i).data = some a) := by
    intro i a ha
    by_cases hi : i = bufId
    · subst hi
      rw [bufInfo_write_self] at ha
      exact Or.inl ⟨rfl, ha⟩
    · rw [bufInfo_write s info mem hi] at ha
      exact Or.inr ⟨hi, ha⟩
  constructor
  · exact hs.emptyRep
  · exact hs.fullRep
  · exact hs.numBuf
  · rw [hplaces]
    exact hs.bound
  · rw [hplaces]
    exact hs.nodup
  · intro i hi
    have hne : i ≠ bufId := by
      rintro rfl
      exact hcustody hi
    simp only [bufInfo_write s info mem hne]
    exact hs.cleanup i hi
  · intro i a ha hn
    rcases hdata i a ha with ⟨-, ha⟩ | ⟨hi, ha⟩
    · exact hlive a ha
    · change mem a ≠ none
      rw [hmem i hi a ha hn]
      exact hs.live i a ha hn
  · intro i j a hi hj hni hnj
    rcases hdata i a hi with ⟨hib, hi⟩ | ⟨hib, hi⟩
    · rcases hdata j a hj with ⟨hjb, -⟩ | ⟨hjb, hj⟩
      · rw [hib, hjb]
      · exact (hown a hi j hjb hj hnj).elim
    · rcases hdata j a hj with ⟨-, hj⟩ | ⟨-, hj⟩
      · exact (hown a hj i hib hi hni).elim
      · exact hs.distinct i j a hi hj hni hnj
  · exact hstage
  · apply hs.contents.of_agrees
    · rfl
    · rfl
    · rfl
    · intro i hi
      apply hagrees i (hplace i (Or.inl hi))
      exact SlotInv.not_null_of_cleanup_ne i (hs.not_cleanup_of_custody (Or.inr hi))
    · intro fs hfs
      change s.consumer.Unsent _ fs
      cases hc : s.consumer with
      | send i =>
          rw [hc] at hfs
          obtain ⟨f, rfl, hf⟩ := hfs
          refine ⟨f, rfl, hf.of_agrees (hagrees i (hplace i (Or.inr ?_)) ?_)⟩
          · rw [hc]
            rfl
          · rw [hc]
            exact fun h ↦ by cases h
      | putEmpty i =>
          rw [hc] at hfs
          refine ⟨hfs.1, ?_⟩
          simp only [bufInfo_write s info mem (hplace i (Or.inr (by rw [hc]; rfl)))]
          exact hfs.2
      | getFull | test | free | null | left | fault =>
          rw [hc] at hfs
          exact hfs

/-- In the hand of the producer a slot has its block for itself. -/
theorem SlotInv.own (hs : SlotInv bufNum s) {bufId : ℤ} (hslot : s.producer.slot = some bufId)
    {a : ℕ} (ha : (s.buf.bufInfo bufId).data = some a) :
    s.mem a ≠ none ∧ ∀ i ≠ bufId, (s.buf.bufInfo i).data = some a → s.consumer ≠ .null i →
      False := by
  have hnull := SlotInv.not_null_of_cleanup_ne bufId (hs.not_cleanup_of_custody (Or.inl hslot))
  exact ⟨hs.live bufId a ha hnull, fun i hi hdata hn ↦
    hi (hs.distinct i bufId a hdata ha hn hnull)⟩

/-- The producer gives its slot a new block. -/
theorem SlotInv.alloc (hs : SlotInv bufNum s) {f : StreamFrame} {bufId : ℤ} {a : ℕ}
    (hpc : s.producer = .alloc f bufId) (hfree : s.mem a = none) :
    SlotInv bufNum { s with
      buf := s.buf.setSlot bufId { s.buf.bufInfo bufId with data := some a }
      mem := Function.update s.mem a
        (memAlloc (FrameHead.nFrameLength (netInitStreamHead f.head).bytes).toNat true)
      producer := .copyData f bufId } := by
  have hslot : s.producer.slot = some bufId := by rw [hpc]; rfl
  have hhead : (s.buf.bufInfo bufId).head = netInitStreamHead f.head := by
    have hstage := hs.stage
    rwa [hpc] at hstage
  have hne : ∀ i b, (s.buf.bufInfo i).data = some b → s.consumer ≠ .null i → b ≠ a := by
    rintro i b hi hn rfl
    exact hs.live i b hi hn hfree
  apply hs.touches hslot _ (Function.update s.mem a (memAlloc _ true)) (.copyData f bufId) (by rfl)
  · exact fun i _ b hb hn ↦ Function.update_of_ne (hne i b hb hn) _ _
  · intro b hb
    obtain rfl : a = b := Option.some.inj hb
    simp [memAlloc]
  · intro b hb i _ hi hn
    exact hne i b hi hn (Option.some.inj hb).symm
  · refine ⟨?_, a, List.replicate f.data.length 0, ?_, ?_, List.length_replicate⟩
    · rw [bufInfo_write_self]
      exact hhead
    · rw [bufInfo_write_self]
    · simp [SlotState.write, memAlloc, nFrameLength_netInitStreamHead, f.length_data]

theorem SlotInv.fill (hs : SlotInv bufNum s) {addr : Option ℕ} (hok : SlotOk s (.producer addr))
    (h : FillEffect bufNum s s') : SlotInv bufNum s' := by
  have hstage := hs.stage
  cases h with
  | none f hpc =>
      apply hs.moves
      · refine ⟨rfl, rfl, rfl, Or.inl ?_, fun _ ↦ id⟩
        simp only [SlotState.places, hpc]
        rfl
      · exact hs.emptyRep
      · exact hs.fullRep
      · exact hs.cleanup
      · trivial
      · exact hs.contents
  | take f bufId que hpc hrep hitems =>
      have hne : ∀ i ∈ s.consumer.cleanup, i ≠ bufId := by
        rintro i hi rfl
        apply hok (by rw [hpc]; rfl) i hi
        rw [hitems]
        rfl
      apply hs.moves
      · refine ⟨rfl, rfl, rfl, Or.inr ?_, fun _ ↦ id⟩
        simp only [SlotState.places, hpc, hitems]
        exact .take _ _ _ _
      · exact hrep
      · exact hs.fullRep
      · intro i hi
        obtain ⟨hmem, hdata⟩ := hs.cleanup i hi
        rw [hitems] at hmem
        exact ⟨(List.mem_cons.mp hmem).resolve_left (hne i hi), hdata⟩
      · trivial
      · exact hs.contents
  | head f bufId hpc =>
      have hslot : s.producer.slot = some bufId := by rw [hpc]; rfl
      apply hs.touches hslot _ s.mem (.alloc f bufId) (by rfl)
      · exact fun _ _ _ _ _ ↦ rfl
      · exact fun a ha ↦ (hs.own hslot ha).1
      · exact fun a ha ↦ (hs.own hslot ha).2
      · simp [ProducerPc.Stage]
  | noMem f bufId hpc =>
      have hslot : s.producer.slot = some bufId := by rw [hpc]; rfl
      apply hs.touches hslot _ s.mem (.asserted bufId) (by rfl)
      · exact fun _ _ _ _ _ ↦ rfl
      · intro a ha
        cases ha
      · intro a ha
        cases ha
      · trivial
  | dead f bufId hpc hdead =>
      rw [hpc] at hstage
      obtain ⟨-, a, block, hdata, hblock, -⟩ := hstage
      rw [hdata, Option.bind_some, hblock] at hdead
      cases hdead
  | copy f bufId a block hpc hdata hblock =>
      have hslot : s.producer.slot = some bufId := by rw [hpc]; rfl
      rw [hpc] at hstage
      obtain ⟨hhead, a', block', hdata', hblock', hlen⟩ := hstage
      obtain rfl : a = a' := Option.some.inj (hdata.symm.trans hdata')
      obtain rfl : block = block' := Option.some.inj (hblock.symm.trans hblock')
      have hstore : Bytes.store block 0 f.data = f.data := by simp [Bytes.store, hlen]
      rw [hstore]
      have htouch := hs.touches hslot (s.buf.bufInfo bufId)
        (Function.update s.mem a (some f.data)) (.putFull f bufId) (by rfl)
      rw [write_same] at htouch
      apply htouch
      · intro i hi b hb hn
        apply Function.update_of_ne
        rintro rfl
        exact (hs.own hslot hdata).2 i hi hb hn
      · intro b hb
        obtain rfl : a = b := Option.some.inj (hdata.symm.trans hb)
        simp
      · exact fun b hb ↦ (hs.own hslot hb).2
      · exact ⟨hhead, a, hdata, Function.update_self ..⟩
  | give f bufId que hpc hrep hitems =>
      have hholds : Holds s bufId f := by rwa [hpc] at hstage
      apply hs.moves
      · refine ⟨rfl, rfl, rfl, Or.inr ?_, fun _ ↦ id⟩
        simp only [SlotState.places, hpc, hitems]
        exact .give _ _ _ _
      · exact hs.emptyRep
      · exact hrep
      · exact hs.cleanup
      · trivial
      · obtain ⟨done, hand, waiting, henq, hsent, hhand, hwaiting⟩ := hs.contents
        refine ⟨done, hand, waiting ++ [f], ?_, hsent, hhand, ?_⟩
        · simp only [henq, List.append_assoc]
        · rw [hitems]
          exact List.rel_append hwaiting (.cons hholds .nil)

theorem ProducerPc.Stage.of_agrees {pc : ProducerPc} (h : pc.Stage s)
    (hagrees : ∀ i, pc.slot = some i → Agrees s s' i) : pc.Stage s' := by
  cases pc with
  | alloc f bufId =>
      have hsame := hagrees bufId rfl
      simp only [ProducerPc.Stage, hsame.1]
      exact h
  | copyData f bufId =>
      have hsame := hagrees bufId rfl
      obtain ⟨hhead, a, block, hdata, hblock, hlen⟩ := h
      refine ⟨?_, a, block, ?_, ?_, hlen⟩
      · rw [hsame.1, hhead]
      · rw [hsame.1, hdata]
      · rw [hsame.2 a hdata, hblock]
  | putFull f bufId => exact Holds.of_agrees h (hagrees bufId rfl)
  | fault => exact h
  | idle | getEmpty | copyHead | asserted => trivial

/-- The consumer works on the slot that it cleans up and on that slot's block: it frees the block,
and then it nulls the pointer. -/
theorem SlotInv.cleans {bufId : ℤ} (hs : SlotInv bufNum s)
    (hclean : s.consumer.cleanup = some bufId) (info : OsaBufInfo)
    (mem : ℕ → Option (List UInt8)) (pc : ConsumerPc)
    (hpc : (pc = .null bufId ∧ info.data ≠ none) ∨ (pc = .getFull ∧ info.data = none))
    (hmem : ∀ i ≠ bufId, ∀ a ∈ (s.buf.bufInfo i).data, mem a = s.mem a) :
    KeepsOff s { s.write bufId info mem with consumer := pc } ∧
      SlotInv bufNum { s.write bufId info mem with consumer := pc } := by
  have hkeeps : KeepsOff s { s.write bufId info mem with consumer := pc } := by
    intro i hi
    have hne : i ≠ bufId := by
      rintro rfl
      exact hs.not_cleanup_of_custody hi hclean
    exact ⟨bufInfo_write s info mem hne, hmem i hne⟩
  have hempty : s.consumer.slot = none ∧ ∀ fs, s.consumer.Unsent s fs → fs = [] := by
    cases hc : s.consumer with
    | test | free | null => exact ⟨rfl, fun _ ↦ id⟩
    | getFull | send | putEmpty | left | fault =>
        rw [hc] at hclean
        cases hclean
  have hplaces : SlotState.places { s.write bufId info mem with consumer := pc } = s.places := by
    simp only [SlotState.places, hempty.1]
    rcases hpc with ⟨rfl, -⟩ | ⟨rfl, -⟩ <;> rfl
  have hother : ∀ i a, ((s.write bufId info mem).buf.bufInfo i).data = some a → pc ≠ .null i →
      i ≠ bufId ∧ (s.buf.bufInfo i).data = some a ∧ s.consumer ≠ .null i := by
    intro i a ha hn
    have hi : i ≠ bufId := by
      rintro rfl
      rw [bufInfo_write_self] at ha
      rcases hpc with ⟨rfl, -⟩ | ⟨-, hnone⟩
      · exact hn rfl
      · rw [hnone] at ha
        cases ha
    refine ⟨hi, bufInfo_write s info mem hi ▸ ha, fun hnull ↦ ?_⟩
    rw [hnull] at hclean
    exact hi (Option.some.inj hclean)
  refine ⟨hkeeps, ?_⟩
  constructor
  · exact hs.emptyRep
  · exact hs.fullRep
  · exact hs.numBuf
  · rw [hplaces]
    exact hs.bound
  · rw [hplaces]
    exact hs.nodup
  · intro i hi
    rcases hpc with ⟨rfl, hkept⟩ | ⟨rfl, -⟩
    · obtain rfl : bufId = i := Option.some.inj hi
      simp only [bufInfo_write_self]
      exact ⟨(hs.cleanup bufId hclean).1, hkept⟩
    · cases hi
  · intro i a ha hn
    obtain ⟨hi, ha, hn⟩ := hother i a ha hn
    change mem a ≠ none
    rw [hmem i hi a ha]
    exact hs.live i a ha hn
  · intro i j a hi hj hni hnj
    obtain ⟨-, hi, hni⟩ := hother i a hi hni
    obtain ⟨-, hj, hnj⟩ := hother j a hj hnj
    exact hs.distinct i j a hi hj hni hnj
  · exact hs.stage.of_agrees fun i hi ↦ hkeeps i (Or.inl hi)
  · apply hs.contents.of_agrees
    · rfl
    · rfl
    · rfl
    · exact fun i hi ↦ hkeeps i (Or.inr hi)
    · intro fs hfs
      obtain rfl := hempty.2 fs hfs
      rcases hpc with ⟨rfl, -⟩ | ⟨rfl, -⟩ <;> rfl

theorem keepsOff_of_same (hbuf : s'.buf.bufInfo = s.buf.bufInfo) (hmem : s'.mem = s.mem) :
    KeepsOff s s' := fun i _ ↦ ⟨congrFun hbuf i, fun a _ ↦ congrFun hmem a⟩

/-- The consumer leaves the slots in custody alone. -/
theorem SlotInv.consume (hs : SlotInv bufNum s) {es : SendSchedule}
    (h : ConsumerEffect bufNum s es s') : KeepsOff s s' ∧ SlotInv bufNum s' := by
  obtain ⟨done, hand, waiting, henq, hsent, hhand, hwaiting⟩ := hs.contents
  cases h with
  | fetch bufId que hpc hrep hitems =>
      refine ⟨keepsOff_of_same rfl rfl, hs.moves ?_ hs.emptyRep hrep (fun i hi ↦ by cases hi)
        hs.stage ?_⟩
      · refine ⟨rfl, rfl, rfl, Or.inr ?_, fun i hi ↦ by rw [hpc] at hi; cases hi⟩
        simp only [SlotState.places, hpc, hitems]
        exact .fetch _ _ _ _
      · rw [hpc] at hhand
        obtain rfl : hand = [] := hhand
        rw [hitems] at hwaiting
        cases hwaiting with
        | @cons _ f _ ws hf hws =>
            exact ⟨done, [f], ws, by simp [henq], hsent, ⟨f, rfl, hf⟩, hws⟩
  | dead bufId hpc hdata hdead =>
      rw [hpc] at hhand
      obtain ⟨f, rfl, hhead, a, ha, hmem⟩ := hhand
      rw [ha, Option.bind_some, hmem] at hdead
      cases hdead
  | noData bufId hpc hnone =>
      rw [hpc] at hhand
      obtain ⟨f, rfl, hhead, a, ha, hmem⟩ := hhand
      rw [ha, Option.bind_some, hmem] at hnone
      cases hnone
  | sent bufId run hpc hrun hok =>
      rw [hpc] at hhand
      obtain ⟨f, rfl, hhead, a, hdata, hmem⟩ := hhand
      rw [hdata, Option.bind_some, hmem, hhead] at hrun
      have hlen : f.data.length =
          (FrameHead.nFrameLength (netInitStreamHead f.head).bytes).toNat := by
        rw [nFrameLength_netInitStreamHead]
        exact f.length_data
      have hbytes := netSendBuf_sok hlen hrun hok
      have hsize := (netInitStreamHead f.head).length_bytes
      refine ⟨keepsOff_of_same rfl rfl, hs.moves ?_ hs.emptyRep hs.fullRep
        (fun i hi ↦ by cases hi) hs.stage ?_⟩
      · refine ⟨rfl, rfl, rfl, Or.inl ?_, fun i hi ↦ by rw [hpc] at hi; cases hi⟩
        simp only [SlotState.places, hpc]
        rfl
      · have hkept : (s.buf.bufInfo bufId).data ≠ none := by simp [hdata]
        refine ⟨done ++ [f], [], waiting, ?_, ?_, ⟨rfl, hkept⟩, hwaiting⟩
        · simp [henq]
        · simp only [hbytes, hsent, List.map_append, List.map_cons, List.map_nil,
            StreamFrame.pair]
          rw [← hsize, List.take_left, List.drop_left]
  | putBack bufId que hpc hrep hitems =>
      rw [hpc] at hhand
      obtain ⟨hnil, hdata⟩ := hhand
      refine ⟨keepsOff_of_same rfl rfl, hs.moves ?_ hrep hs.fullRep (fun i hi ↦ ?_) hs.stage
        ⟨done, hand, waiting, henq, hsent, hnil, hwaiting⟩⟩
      · refine ⟨rfl, rfl, rfl, Or.inr ?_, fun i hi ↦ by rw [hpc] at hi; cases hi⟩
        simp only [SlotState.places, hpc, hitems]
        exact .putBack _ _ _ _
      · obtain rfl : bufId = i := Option.some.inj hi
        exact ⟨by simp [hitems], hdata⟩
  | clean bufId hpc hdata => exact ((hs.cleanup bufId (by rw [hpc]; rfl)).2 hdata).elim
  | tested bufId hpc hdata =>
      have hclean := hs.cleanup bufId (by rw [hpc]; rfl)
      rw [hpc] at hhand
      refine ⟨keepsOff_of_same rfl rfl, hs.moves ?_ hs.emptyRep hs.fullRep (fun i hi ↦ ?_) hs.stage
        ⟨done, hand, waiting, henq, hsent, hhand, hwaiting⟩⟩
      · refine ⟨rfl, rfl, rfl, Or.inl ?_, fun i hi ↦ by rw [hpc] at hi; cases hi⟩
        simp only [SlotState.places, hpc]
        rfl
      · obtain rfl : bufId = i := Option.some.inj hi
        exact hclean
  | freeNull bufId hpc hdata => exact ((hs.cleanup bufId (by rw [hpc]; rfl)).2 hdata).elim
  | freeDead bufId a hpc hdata hdead =>
      exact (hs.live bufId a hdata (by rw [hpc]; exact fun h ↦ by cases h) hdead).elim
  | free bufId a hpc hdata hlive =>
      have hnull : ∀ i, s.consumer ≠ .null i := by
        intro i h
        rw [hpc] at h
        cases h
      have hcleans := hs.cleans (by rw [hpc]; rfl) (s.buf.bufInfo bufId)
        (Function.update s.mem a none) (.null bufId)
      rw [write_same] at hcleans
      apply hcleans
      · left
        exact ⟨rfl, by rw [hdata]; exact Option.some_ne_none a⟩
      · intro i hi b hb
        apply Function.update_of_ne
        rintro rfl
        exact hi (hs.distinct i bufId b hb hdata (hnull i) (hnull bufId))
  | null bufId hpc =>
      apply hs.cleans (by rw [hpc]; rfl)
      · exact Or.inr ⟨rfl, rfl⟩
      · exact fun _ _ _ _ ↦ rfl

end OsaBase
