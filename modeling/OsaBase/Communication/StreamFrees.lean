import OsaBase.Communication.StreamCopies
import OsaBase.Communication.StreamRuns

/-!
# Every frame copy is freed once

As long as no send fails and the producer writes no data pointer that the thread is about to free or
to null, every allocated block is at one slot that the thread has still to come to, and at its
return none is left.
-/

open Transition

namespace OsaBase

variable {bufNum : ℕ} {s s' : CopyState}

/-! ## The law and the condition -/

structure CopyLaw (s : CopyState) : Prop where
  noFault : s.pc ≠ .fault
  blocks : ∀ x ∈ s.freed, ∃ n < s.allocs, x = some n
  once : ∀ n, s.freed.count (some n) ≤ 1
  returned : s.pc = .done → ∀ n < s.allocs, s.freed.count (some n) = 1

/-- The slot whose data pointer the producer is about to write. -/
def ProducerPc.writes : ProducerPc → Option ℤ
  | .alloc _ bufId => some bufId
  | _ => none

/-- The slot that the thread is about to send. -/
def CopyState.sends (s : CopyState) : Option ℤ :=
  match s.pc, s.slots.consumer with
  | .body, .send bufId => some bufId
  | _, _ => none

/-- No send fails, and the producer writes no data pointer of a slot that the thread still cleans
up. -/
def CopyOk (s : CopyState) : CopyLabel → Prop
  | .producer _ => ∀ bufId ∈ s.slots.producer.writes, s.slots.consumer.cleanup ≠ some bufId
  | .thread es _ _ => ∀ bufId ∈ s.sends, ∀ run ∈ netSendBuf s.slots.socket
      (s.slots.buf.bufInfo bufId).head ((s.data bufId).bind s.slots.mem) es, run.status = 0
  | .fill _ | .stop => True

instance (s : CopyState) : (l : CopyLabel) → Decidable (CopyOk s l)
  | .producer _ => inferInstanceAs (Decidable (∀ bufId ∈ s.slots.producer.writes,
      s.slots.consumer.cleanup ≠ some bufId))
  | .thread es _ _ => inferInstanceAs (Decidable (∀ bufId ∈ s.sends, ∀ run ∈ netSendBuf
      s.slots.socket (s.slots.buf.bufInfo bufId).head ((s.data bufId).bind s.slots.mem) es,
        run.status = 0))
  | .fill _ | .stop => inferInstanceAs (Decidable True)

/-! ## Where the blocks are -/

/-- The slot that the producer has given a block. -/
def ProducerPc.filled : ProducerPc → Option ℤ
  | .copyData _ bufId | .putFull _ bufId => some bufId
  | _ => none

/-- The slot that the producer has taken and not given a block yet. -/
def ProducerPc.taken : ProducerPc → Option ℤ
  | .copyHead _ bufId | .alloc _ bufId => some bufId
  | _ => none

/-- The slot whose block the thread is about to send or to free. -/
def ConsumerPc.holds : ConsumerPc → Option ℤ
  | .send bufId | .putEmpty bufId | .test bufId | .free bufId => some bufId
  | _ => none

def StreamPc.drains : StreamPc → Option ℤ
  | .drainTest bufId => some bufId
  | _ => none

/-- The block that the slot's pointer leads to, unless it was just freed. -/
def CopyState.pointers (s : CopyState) (bufId : ℤ) : List ℕ :=
  if s.slots.consumer = .null bufId then [] else (s.data bufId).toList

/-- The slot is on its way to the thread, or in its hand. -/
def CopyState.Owns (s : CopyState) (bufId : ℤ) : Prop :=
  s.slots.producer.filled = some bufId ∨ bufId ∈ s.slots.buf.fullQue.items ∨
    s.slots.consumer.holds = some bufId ∨ s.pc.drains = some bufId

theorem CopyState.Owns.of_consumer {c : ConsumerPc} {i : ℤ} (hcons : s.slots.consumer = c)
    (hi : c.holds = some i) : s.Owns i := by
  subst hcons
  exact Or.inr (Or.inr (Or.inl hi))

theorem CopyState.Owns.of_drains {i : ℤ} (hpc : s.pc = .drainTest i) : s.Owns i := by
  refine Or.inr (Or.inr (Or.inr ?_))
  rw [hpc]
  rfl

/-- What is known at each place of the thread. -/
def CopyState.Stage (s : CopyState) : StreamPc → Prop
  | .body => True
  | .testStatus | .earse => s.slots.consumer = .getFull
  | .drain => s.slots.consumer = .getFull ∧ s.slots.producer = .idle ∧ s.listed = false
  | .drainTest bufId => (s.slots.consumer = .getFull ∧ s.slots.producer = .idle ∧
      s.listed = false) ∧ bufId ∉ s.slots.buf.fullQue.items
  | .done => (s.slots.consumer = .getFull ∧ s.slots.producer = .idle ∧ s.listed = false) ∧
      s.slots.buf.fullQue.items = []
  | .exit | .exitStatus | .exitUnset | .fault => False

structure CopyInv (bufNum : ℕ) (s : CopyState) : Prop where
  queues : SlotQueues bufNum s.slots
  blocks : CopyBlocks s
  exact : Ledger.Exact s.pointers fun a ↦ s.slots.mem a ≠ none
  owns : ∀ i, s.pointers i ≠ [] ↔ s.Owns i
  cleanup : ∀ i ∈ s.slots.consumer.cleanup,
    i ∈ s.slots.buf.emptyQue.items ∨ s.slots.producer.taken = some i
  stage : s.Stage s.pc

/-- A slot that is owned leads to a block. -/
theorem CopyInv.block (hs : CopyInv bufNum s) {i : ℤ} (hi : s.Owns i) :
    ∃ a, s.data i = some a ∧ s.pointers i = [a] ∧ s.slots.mem a ≠ none := by
  have hne := (hs.owns i).mpr hi
  unfold CopyState.pointers at hne
  split at hne
  · exact (hne rfl).elim
  · next hnull =>
    cases hdata : s.data i with
    | none =>
        rw [hdata] at hne
        exact (hne rfl).elim
    | some a =>
        have hpointers : s.pointers i = [a] := by
          rw [CopyState.pointers, if_neg hnull, hdata]
          rfl
        have hlive : s.slots.mem a ≠ none := by
          apply hs.exact.live_of_mem (p := i)
          rw [hpointers]
          exact List.mem_singleton_self a
        exact ⟨a, rfl, hpointers, hlive⟩

theorem CopyInv.data_ne_none (hs : CopyInv bufNum s) {i : ℤ} (hi : s.Owns i) : s.data i ≠ none := by
  obtain ⟨a, ha, -⟩ := hs.block hi
  rw [ha]
  exact Option.some_ne_none a

/-- A step that moves a slot, or none, and leaves pointers and blocks alone. -/
theorem CopyInv.moves (hs : CopyInv bufNum s) (hqueues : SlotQueues bufNum s'.slots)
    (hblocks : CopyBlocks s') (hpointers : ∀ i, s'.pointers i = s.pointers i)
    (hmem : ∀ a, s'.slots.mem a = none ↔ s.slots.mem a = none) (howns : ∀ i, s'.Owns i ↔ s.Owns i)
    (hcleanup : ∀ i ∈ s'.slots.consumer.cleanup,
      i ∈ s'.slots.buf.emptyQue.items ∨ s'.slots.producer.taken = some i)
    (hstage : s'.Stage s'.pc) : CopyInv bufNum s' := by
  refine ⟨hqueues, hblocks, hs.exact.congr hpointers fun a ↦ not_congr (hmem a), fun i ↦ ?_,
    hcleanup, hstage⟩
  rw [hpointers, howns]
  exact hs.owns i

/-- Once the client is off the list, only the thread takes steps. -/
theorem CopyState.Stage.of_listed {pc : StreamPc} (h : s.Stage pc)
    (hcons : s'.slots.consumer = s.slots.consumer)
    (hrest : s.slots.producer = .idle → s.listed = false → s'.slots.producer = .idle ∧
      s'.listed = false ∧ s'.slots.buf.fullQue.items = s.slots.buf.fullQue.items) :
    s'.Stage pc := by
  cases pc with
  | body => trivial
  | testStatus | earse => exact hcons.trans h
  | drain =>
      obtain ⟨hget, hidle, hlisted⟩ := h
      obtain ⟨hidle', hlisted', -⟩ := hrest hidle hlisted
      exact ⟨hcons.trans hget, hidle', hlisted'⟩
  | drainTest i =>
      obtain ⟨⟨hget, hidle, hlisted⟩, hnot⟩ := h
      obtain ⟨hidle', hlisted', hitems⟩ := hrest hidle hlisted
      exact ⟨⟨hcons.trans hget, hidle', hlisted'⟩, hitems ▸ hnot⟩
  | done =>
      obtain ⟨⟨hget, hidle, hlisted⟩, hnil⟩ := h
      obtain ⟨hidle', hlisted', hitems⟩ := hrest hidle hlisted
      exact ⟨⟨hcons.trans hget, hidle', hlisted'⟩, hitems.trans hnil⟩
  | exit | exitStatus | exitUnset | fault => exact h.elim

theorem CopyInv.stage_producer (hs : CopyInv bufNum s) (hbusy : s.slots.producer ≠ .idle)
    (hpc : s'.pc = s.pc) (hcons : s'.slots.consumer = s.slots.consumer) : s'.Stage s'.pc := by
  rw [hpc]
  exact hs.stage.of_listed hcons fun hidle ↦ (hbusy hidle).elim

/-- The slot in the producer's hand that has no block yet is nobody else's. -/
theorem CopyInv.not_owns (hs : CopyInv bufNum s) {f : StreamFrame} {i : ℤ}
    (hpc : s.slots.producer = .alloc f i) (hclean : s.slots.consumer.cleanup ≠ some i) :
    ¬ s.Owns i := by
  have hnodup := hs.queues.nodup
  simp only [Pool.Places.all, SlotState.places, hpc, ProducerPc.slot, Option.toList_some,
    List.nodup_append, List.mem_append, Option.mem_toList, List.mem_singleton] at hnodup
  obtain ⟨⟨-, -, hfull⟩, -, hhand⟩ := hnodup
  rintro (h | h | h | h)
  · rw [hpc] at h
    cases h
  · exact hfull i (Or.inr rfl) i h rfl
  · cases hcons : s.slots.consumer with
    | send j | putEmpty j =>
        rw [hcons] at h
        exact hhand i (Or.inl (Or.inr rfl)) i (by rw [hcons]; exact h) rfl
    | test j | free j =>
        rw [hcons] at h hclean
        exact hclean h
    | getFull | null | left | fault =>
        rw [hcons] at h
        cases h
  · have hstage := hs.stage
    cases hpc' : s.pc with
    | drainTest j =>
        rw [hpc'] at hstage
        exact ProducerPc.noConfusion (hpc.symm.trans hstage.1.2.1)
    | testStatus | body | exit | exitStatus | exitUnset | earse | drain | done | fault =>
        rw [hpc'] at h
        cases h

theorem CopyInv.producer (hs : CopyInv bufNum s) {addr : Option ℕ}
    (hok : CopyOk s (.producer addr)) {u : SlotState} (h : FillEffect bufNum s.slots u) :
    CopyInv bufNum { s with slots := u } := by
  have hqueues := hs.queues.fill h
  have hblocks : CopyBlocks { s with slots := u } := hs.blocks.step (.producer addr u h)
  have hbusy : s.slots.producer ≠ .idle := by
    intro hidle
    cases h with
    | none f hpc | take f i que hpc | head f i hpc | noMem f i hpc | dead f i hpc
    | copy f i a block hpc | give f i que hpc =>
        rw [hpc] at hidle
        cases hidle
  cases h with
  | none f hpc =>
      refine hs.moves hqueues hblocks (fun _ ↦ rfl) (fun _ ↦ Iff.rfl) (fun i ↦ ?_) (fun i hi ↦ ?_)
        (hs.stage_producer hbusy rfl rfl)
      · simp [CopyState.Owns, hpc, ProducerPc.filled]
      · exact Or.inl ((hs.cleanup i hi).resolve_right (by rw [hpc]; exact fun h ↦ by cases h))
  | take f i que hpc hrep hitems =>
      refine hs.moves hqueues hblocks (fun _ ↦ rfl) (fun _ ↦ Iff.rfl) (fun j ↦ ?_) (fun j hj ↦ ?_)
        (hs.stage_producer hbusy rfl rfl)
      · simp [CopyState.Owns, hpc, ProducerPc.filled]
      · have hmem := (hs.cleanup j hj).resolve_right (by rw [hpc]; exact fun h ↦ by cases h)
        rw [hitems] at hmem
        rcases List.mem_cons.mp hmem with rfl | hmem
        · exact Or.inr rfl
        · exact Or.inl hmem
  | head f i hpc =>
      refine hs.moves hqueues hblocks (fun j ↦ ?_) (fun _ ↦ Iff.rfl) (fun j ↦ ?_) (fun j hj ↦ ?_)
        (hs.stage_producer hbusy rfl rfl)
      · by_cases hj : j = i
        · subst hj
          simp [CopyState.pointers, CopyState.data, OsaBufHndl.setSlot]
        · simp [CopyState.pointers, CopyState.data, OsaBufHndl.setSlot, hj]
      · simp [CopyState.Owns, hpc, ProducerPc.filled, OsaBufHndl.setSlot]
      · have hclean := hs.cleanup j hj
        rw [hpc] at hclean
        exact hclean
  | noMem f i hpc =>
      have hclean : s.slots.consumer.cleanup ≠ some i := hok i (by rw [hpc]; rfl)
      have hnot := hs.not_owns hpc hclean
      have hdata : s.pointers i = [] := not_not.mp (mt (hs.owns i).mp hnot)
      refine hs.moves hqueues hblocks (fun j ↦ ?_) (fun _ ↦ Iff.rfl) (fun j ↦ ?_) (fun j hj ↦ ?_)
        (hs.stage_producer hbusy rfl rfl)
      · by_cases hj : j = i
        · subst hj
          rw [hdata]
          simp [CopyState.pointers, CopyState.data, OsaBufHndl.setSlot]
        · simp [CopyState.pointers, CopyState.data, OsaBufHndl.setSlot, hj]
      · simp [CopyState.Owns, hpc, ProducerPc.filled, OsaBufHndl.setSlot]
      · rcases hs.cleanup j hj with hmem | htaken
        · exact Or.inl hmem
        · rw [hpc] at htaken
          cases htaken
          exact (hclean hj).elim
  | dead f i hpc hdead =>
      obtain ⟨a, hdata, -, hlive⟩ := hs.block (i := i) (Or.inl (by rw [hpc]; rfl))
      change s.data i = some a at hdata
      rw [show (s.slots.buf.bufInfo i).data = some a from hdata] at hdead
      exact (hlive hdead).elim
  | copy f i a block hpc hdata hmem =>
      refine hs.moves hqueues hblocks (fun _ ↦ rfl) (fun b ↦ ?_) (fun j ↦ ?_) (fun j hj ↦ ?_)
        (hs.stage_producer hbusy rfl rfl)
      · by_cases hb : b = a
        · subst hb
          simp [hmem]
        · simp only [Function.update_of_ne hb]
      · simp [CopyState.Owns, hpc, ProducerPc.filled]
      · have hclean := hs.cleanup j hj
        rw [hpc] at hclean
        exact hclean
  | give f i que hpc hrep hitems =>
      refine hs.moves hqueues hblocks (fun _ ↦ rfl) (fun _ ↦ Iff.rfl) (fun j ↦ ?_) (fun j hj ↦ ?_)
        (hs.stage_producer hbusy rfl rfl)
      · simp only [CopyState.Owns, hpc, hitems, ProducerPc.filled, List.mem_append,
          List.mem_singleton, Option.some.injEq, reduceCtorEq, false_or]
        constructor
        · rintro ((h | rfl) | h)
          · exact Or.inr (Or.inl h)
          · exact Or.inl rfl
          · exact Or.inr (Or.inr h)
        · rintro (rfl | h | h)
          · exact Or.inl (Or.inr rfl)
          · exact Or.inl (Or.inl h)
          · exact Or.inr h
      · exact Or.inl ((hs.cleanup j hj).resolve_right (by rw [hpc]; exact fun h ↦ by cases h))

theorem CopyInv.alloc (hs : CopyInv bufNum s) {f : StreamFrame} {i : ℤ} {a : ℕ}
    {block : List UInt8} (hpc : s.slots.producer = .alloc f i)
    (hclean : s.slots.consumer.cleanup ≠ some i) (hfree : s.slots.mem a = none) :
    CopyInv bufNum { s with
      slots := { s.slots with
        buf := s.slots.buf.setSlot i { s.slots.buf.bufInfo i with data := some a }
        mem := Function.update s.slots.mem a (some block)
        producer := .copyData f i }
      allocs := s.allocs + 1
      block := Function.update s.block a (some s.allocs) } := by
  have heffect : CopyEffect bufNum s (.producer (some a)) _ := .alloc f i a block hpc hfree
  have hnot := hs.not_owns hpc hclean
  have hnil : s.pointers i = [] := not_not.mp (mt (hs.owns i).mp hnot)
  have hnull : s.slots.consumer ≠ .null i := by
    intro h
    rw [h] at hclean
    exact hclean rfl
  refine ⟨hs.queues.step heffect, hs.blocks.step heffect, ?_, fun j ↦ ?_, fun j hj ↦ ?_,
    hs.stage_producer (by rw [hpc]; exact fun h ↦ by cases h) rfl rfl⟩
  · refine hs.exact.insert (p := i) (x := a) (not_not.mpr hfree) ?_ (fun j hj ↦ ?_) (fun b ↦ ?_)
    · rw [hnil]
      simp [CopyState.pointers, CopyState.data, OsaBufHndl.setSlot, hnull]
    · simp [CopyState.pointers, CopyState.data, OsaBufHndl.setSlot, hj]
    · by_cases hb : b = a
      · subst hb
        simp
      · simp [hb]
  · by_cases hj : j = i
    · subst hj
      simp [CopyState.pointers, CopyState.data, OsaBufHndl.setSlot, hnull, CopyState.Owns,
        ProducerPc.filled]
    · have howns := hs.owns j
      simp only [CopyState.Owns, hpc, ProducerPc.filled, reduceCtorEq, false_or] at howns
      simp only [CopyState.pointers, CopyState.data] at howns
      simp only [CopyState.pointers, CopyState.data, OsaBufHndl.setSlot,
        Function.update_of_ne hj, CopyState.Owns, ProducerPc.filled, Option.some.injEq, Ne.symm hj,
        false_or]
      exact howns
  · rcases hs.cleanup j hj with hmem | htaken
    · exact Or.inl hmem
    · rw [hpc] at htaken
      cases htaken
      exact (hclean hj).elim

/-- The thread frees the block of a slot, whose pointer it does not use again. -/
theorem CopyInv.free (hs : CopyInv bufNum s) {s₁ : CopyState} {i : ℤ} {a : ℕ} (hi : s.Owns i)
    (hdata : s.data i = some a) (hqueues : SlotQueues bufNum s₁.slots) (hblocks : CopyBlocks s₁)
    (hmem : s₁.slots.mem = s.slots.mem) (hgone : s₁.pointers i = [])
    (hsame : ∀ j ≠ i, s₁.pointers j = s.pointers j) (hout : ¬ s₁.Owns i)
    (howns : ∀ j ≠ i, s₁.Owns j ↔ s.Owns j)
    (hcleanup : ∀ j ∈ s₁.slots.consumer.cleanup,
      j ∈ s₁.slots.buf.emptyQue.items ∨ s₁.slots.producer.taken = some j)
    (hstage : s₁.Stage s₁.pc) : CopyInv bufNum (s₁.memFree a) := by
  obtain ⟨a', ha', hpointers, hlive⟩ := hs.block hi
  obtain rfl : a = a' := Option.some.inj (hdata.symm.trans ha')
  have hqueues' := hqueues.memFree a
  have hblocks' := hblocks.memFree a
  rcases s₁.memFree_cases a with ⟨hnone, -⟩ | ⟨n, -, heq⟩
  · rw [hblocks.mem, hmem] at hnone
    exact (hlive hnone).elim
  · rw [heq] at hqueues' hblocks' ⊢
    refine ⟨hqueues', hblocks', ?_, fun j ↦ ?_, hcleanup, hstage⟩
    · refine hs.exact.remove (p := i) (x := a) ?_ (fun j hj ↦ hsame j hj) (fun b ↦ ?_)
      · rw [hpointers]
        exact (List.Perm.of_eq (congrArg (a :: ·) hgone)).symm
      · by_cases hb : b = a
        · subst hb
          simp
        · simp [hb, hmem]
    · by_cases hj : j = i
      · subst hj
        exact ⟨fun h ↦ (h hgone).elim, fun h ↦ (hout h).elim⟩
      · change s₁.pointers j ≠ [] ↔ s₁.Owns j
        rw [hsame j hj, howns j hj]
        exact hs.owns j

/-- A slot that the thread still cleans up has left the places in which it could be filled. -/
theorem CopyInv.not_owned_elsewhere (hs : CopyInv bufNum s) {i : ℤ}
    (hi : s.slots.consumer.cleanup = some i) :
    s.slots.producer.filled ≠ some i ∧ i ∉ s.slots.buf.fullQue.items := by
  have hnodup := hs.queues.nodup
  simp only [Pool.Places.all, SlotState.places, List.nodup_append, List.mem_append,
    Option.mem_toList] at hnodup
  obtain ⟨⟨⟨-, -, hfill⟩, -, hfull⟩, -⟩ := hnodup
  rcases hs.cleanup i hi with hmem | htaken
  · refine ⟨fun hfilled ↦ ?_, fun hmem' ↦ hfull i (Or.inl hmem) i hmem' rfl⟩
    have hslot : s.slots.producer.slot = some i := by
      cases hpc : s.slots.producer with
      | copyData f j | putFull f j =>
          rw [hpc] at hfilled
          exact hfilled
      | idle | getEmpty | copyHead | alloc | asserted | fault =>
          rw [hpc] at hfilled
          cases hfilled
    exact hfill i hmem i hslot rfl
  · cases hpc : s.slots.producer with
    | copyHead f j | alloc f j =>
        rw [hpc] at htaken
        obtain rfl : j = i := Option.some.inj htaken
        refine ⟨fun h ↦ (by cases h), fun hmem' ↦ hfull j (Or.inr ?_) j hmem' rfl⟩
        rw [hpc]
        rfl
    | idle | getEmpty | copyData | putFull | asserted | fault =>
        rw [hpc] at htaken
        cases htaken

theorem CopyInv.thread (hs : CopyInv bufNum s) {es : SendSchedule} {tmpMsg : Option ℕ} {flag : ℤ}
    (hok : CopyOk s (.thread es tmpMsg flag)) (h : ThreadEffect bufNum s es s') :
    CopyInv bufNum s' := by
  have hqueues := hs.queues.thread h
  have hblocks : CopyBlocks s' := hs.blocks.step (.thread es tmpMsg flag h)
  have hstage := hs.stage
  cases h with
  | test hpc =>
      rw [hpc] at hstage
      have hcons : s.slots.consumer = .getFull := hstage
      refine hs.moves hqueues hblocks (fun _ ↦ rfl) (fun _ ↦ Iff.rfl) (fun j ↦ ?_) hs.cleanup ?_
      · simp only [CopyState.Owns, hpc]
        split
        all_goals rfl
      · simp only
        split
        · trivial
        · exact hcons
  | fetch i que hpc hcons hrep hitems =>
      refine hs.moves hqueues hblocks (fun j ↦ ?_) (fun _ ↦ Iff.rfl) (fun j ↦ ?_)
        (fun j hj ↦ by cases hj) trivial
      · simp [CopyState.pointers, CopyState.data, hcons]
      · simp only [CopyState.Owns, hpc, hcons, hitems, ConsumerPc.holds, List.mem_cons,
          Option.some.injEq, reduceCtorEq, false_or]
        tauto
  | dead i hpc hcons hdata hmem =>
      obtain ⟨a, ha, -, hlive⟩ := hs.block (.of_consumer hcons rfl)
      rw [ha] at hmem
      exact (hlive hmem).elim
  | failed i run hpc hcons hrun hbad =>
      have hsends : s.sends = some i := by simp [CopyState.sends, hpc, hcons]
      exact (hbad (hok i hsends run hrun)).elim
  | sent i run sent hpc hcons =>
      refine hs.moves hqueues hblocks (fun j ↦ ?_) (fun _ ↦ Iff.rfl) (fun j ↦ ?_)
        (fun j hj ↦ by cases hj) trivial
      · simp [CopyState.pointers, CopyState.data, hcons]
      · simp [CopyState.Owns, hpc, hcons, ConsumerPc.holds]
  | putBack i que hpc hcons hrep hitems =>
      refine hs.moves hqueues hblocks (fun j ↦ ?_) (fun _ ↦ Iff.rfl) (fun j ↦ ?_) (fun j hj ↦ ?_)
        trivial
      · simp [CopyState.pointers, CopyState.data, hcons]
      · simp [CopyState.Owns, hpc, hcons, ConsumerPc.holds]
      · obtain rfl : i = j := Option.some.inj hj
        exact Or.inl (by simp [hitems])
  | clean i hpc hcons hdata => exact (hs.data_ne_none (.of_consumer hcons rfl) hdata).elim
  | tested i hpc hcons hdata =>
      refine hs.moves hqueues hblocks (fun j ↦ ?_) (fun _ ↦ Iff.rfl) (fun j ↦ ?_) (fun j hj ↦ ?_)
        trivial
      · simp [CopyState.pointers, CopyState.data, hcons]
      · simp [CopyState.Owns, hpc, hcons, ConsumerPc.holds]
      · exact hs.cleanup j (by rw [hcons]; exact hj)
  | freeNull i hpc hcons hdata => exact (hs.data_ne_none (.of_consumer hcons rfl) hdata).elim
  | free i a hpc hcons hdata =>
      obtain ⟨hfilled, hfull⟩ := hs.not_owned_elsewhere (i := i) (by rw [hcons]; rfl)
      refine hs.free (.of_consumer hcons rfl) hdata
        (hs.queues.same rfl rfl rfl rfl (by rw [hcons]; rfl))
        (hs.blocks.of_eq (fun _ ↦ Iff.rfl) rfl rfl rfl) rfl ?_ (fun j hj ↦ ?_) ?_ (fun j hj ↦ ?_)
        (fun j hj ↦ ?_) trivial
      · simp [CopyState.pointers]
      · simp [CopyState.pointers, CopyState.data, hcons, Ne.symm hj]
      · rintro (h | h | h | h)
        · exact hfilled h
        · exact hfull h
        · cases h
        · cases h
      · simp [CopyState.Owns, hcons, hpc, ConsumerPc.holds, StreamPc.drains, Ne.symm hj]
      · exact hs.cleanup j (by rw [hcons]; exact hj)
  | null i hpc hcons =>
      refine hs.moves hqueues hblocks (fun j ↦ ?_) (fun _ ↦ Iff.rfl) (fun j ↦ ?_)
        (fun j hj ↦ by cases hj) rfl
      · by_cases hj : j = i
        · subst hj
          simp [CopyState.pointers, CopyState.data, hcons, OsaBufHndl.setSlot]
        · simp [CopyState.pointers, CopyState.data, hcons, OsaBufHndl.setSlot, hj, Ne.symm hj]
      · simp [CopyState.Owns, hpc, hcons, ConsumerPc.holds, StreamPc.drains, OsaBufHndl.setSlot]
  | stray hpc | exit hpc | exitStatus hpc | exitUnset hpc =>
      rw [hpc] at hstage
      exact hstage.elim
  | earse hpc hidle =>
      rw [hpc] at hstage
      refine hs.moves hqueues hblocks (fun _ ↦ rfl) (fun _ ↦ Iff.rfl) (fun j ↦ ?_) hs.cleanup
        ⟨hstage, hidle, rfl⟩
      simp [CopyState.Owns, hpc, StreamPc.drains]
  | drained hpc hnil =>
      rw [hpc] at hstage
      refine hs.moves hqueues hblocks (fun _ ↦ rfl) (fun _ ↦ Iff.rfl) (fun j ↦ ?_) hs.cleanup
        ⟨hstage, hnil⟩
      simp [CopyState.Owns, hpc, StreamPc.drains]
  | drain i que hpc hrep hitems =>
      rw [hpc] at hstage
      have hnodup := hs.queues.nodup
      simp only [Pool.Places.all, SlotState.places, hitems, List.nodup_append,
        List.nodup_cons] at hnodup
      refine hs.moves hqueues hblocks (fun _ ↦ rfl) (fun _ ↦ Iff.rfl) (fun j ↦ ?_) hs.cleanup
        ⟨hstage, hnodup.1.2.1.1⟩
      simp only [CopyState.Owns, hpc, hitems, StreamPc.drains, List.mem_cons, Option.some.injEq,
        reduceCtorEq, or_false]
      tauto
  | drainNull i hpc hdata => exact (hs.data_ne_none (.of_drains hpc) hdata).elim
  | drainFree i a hpc hdata =>
      rw [hpc] at hstage
      obtain ⟨⟨hcons, hidle, hlisted⟩, hnot⟩ := hstage
      refine hs.free (.of_drains hpc) hdata
        (hs.queues.same rfl rfl rfl rfl rfl) (hs.blocks.of_eq (fun _ ↦ Iff.rfl) rfl rfl rfl) rfl ?_
        (fun j hj ↦ ?_) ?_ (fun j hj ↦ ?_) hs.cleanup ⟨hcons, hidle, hlisted⟩
      · simp [CopyState.pointers, CopyState.setNull, CopyState.data, OsaBufHndl.setSlot]
      · simp [CopyState.pointers, CopyState.setNull, CopyState.data, OsaBufHndl.setSlot, hj]
      · rintro (h | h | h | h)
        · change s.slots.producer.filled = some i at h
          rw [hidle] at h
          cases h
        · exact hnot h
        · change s.slots.consumer.holds = some i at h
          rw [hcons] at h
          cases h
        · cases h
      · simp [CopyState.Owns, CopyState.setNull, OsaBufHndl.setSlot, hpc, StreamPc.drains,
          Ne.symm hj]

theorem CopyInv.step (hs : CopyInv bufNum s) {l : CopyLabel} (hok : CopyOk s l)
    (hstep : copyStep bufNum s l = some s') : CopyInv bufNum s' := by
  cases copyEffect hs.queues hstep with
  | refused f => exact hs
  | fill f hpc hlisted =>
      have heffect : CopyEffect bufNum s (.fill f) _ := .fill f hpc hlisted
      refine hs.moves (hs.queues.step heffect) (hs.blocks.step heffect)
        (fun _ ↦ rfl) (fun _ ↦ Iff.rfl) (fun j ↦ ?_) (fun j hj ↦ ?_) ?_
      · simp [CopyState.Owns, hpc, ProducerPc.filled]
      · have hclean := hs.cleanup j hj
        rw [hpc] at hclean
        exact hclean
      · exact hs.stage.of_listed rfl fun _ hoff ↦ Bool.noConfusion (hlisted.symm.trans hoff)
  | producer addr u h => exact hs.producer hok h
  | alloc f i a block hpc hfree => exact hs.alloc hpc (hok i (by rw [hpc]; rfl)) hfree
  | thread es tmpMsg flag h => exact hs.thread hok h
  | stop =>
      have heffect : CopyEffect bufNum s .stop _ := .stop
      exact hs.moves hs.queues (hs.blocks.step heffect) (fun _ ↦ rfl) (fun _ ↦ Iff.rfl)
        (fun _ ↦ Iff.rfl) hs.cleanup (hs.stage.of_listed rfl fun hidle hoff ↦ ⟨hidle, hoff, rfl⟩)

/-! ## The law -/

theorem count_some (l : List (Option ℕ)) (n : ℕ) : l.count (some n) = l.reduceOption.count n := by
  induction l with
  | nil => rfl
  | cons x l ih =>
      cases x with
      | none => simpa using ih
      | some m => simp [List.count_cons, ih]

theorem CopyBlocks.count_le (hs : CopyBlocks s) (n : ℕ) : s.freed.count (some n) ≤ 1 := by
  rw [count_some]
  exact List.nodup_iff_count_le_one.mp (hs.exact.nodup none) n

/-- When the thread has returned, no block is allocated. -/
theorem CopyInv.all_freed (hs : CopyInv bufNum s) (hpc : s.pc = .done) {n : ℕ}
    (hn : n < s.allocs) : s.freed.count (some n) = 1 := by
  have hstage := hs.stage
  rw [hpc] at hstage
  obtain ⟨⟨hcons, hidle, -⟩, hnil⟩ := hstage
  have hnot : ∀ i, ¬ s.Owns i := by
    rintro i (h | h | h | h)
    · rw [hidle] at h
      cases h
    · rw [hnil] at h
      cases h
    · rw [hcons] at h
      cases h
    · rw [hpc] at h
      cases h
  have hgone : ∀ a, s.block a = none := by
    intro a
    rw [hs.blocks.mem]
    by_contra hlive
    obtain ⟨i, hi⟩ := (hs.exact.live_iff a).mp hlive
    exact hnot i ((hs.owns i).mp (List.ne_nil_of_mem hi))
  rw [count_some]
  obtain ⟨p, hp⟩ := (hs.blocks.exact.live_iff n).mp hn
  cases p with
  | none => exact List.count_eq_one_of_mem (hs.blocks.exact.nodup none) hp
  | some a =>
      rw [CopyState.numbers, hgone] at hp
      cases hp

theorem memFree_stray {a : ℕ} (h : none ∉ s.freed) (hmem : none ∈ (s.memFree a).freed) :
    (s.memFree a).pc = .fault := by
  rcases s.memFree_cases a with ⟨-, heq⟩ | ⟨n, -, heq⟩
  · rw [heq]
  · rw [heq] at hmem
    rcases List.mem_append.mp hmem with hmem | hmem
    · exact (h hmem).elim
    · cases List.mem_singleton.mp hmem

/-- What is no block is freed only by a thread that goes no further. -/
theorem CopyEffect.stray {l : CopyLabel} (h : CopyEffect bufNum s l s')
    (hs : none ∈ s.freed → s.pc = .fault) : none ∈ s'.freed → s'.pc = .fault := by
  intro hmem
  cases h with
  | refused | fill | producer | alloc | stop => exact hs hmem
  | thread es tmpMsg flag h =>
      cases h with
      | test hpc | fetch i que hpc | failed i run hpc | sent i run sent hpc | putBack i que hpc
      | clean i hpc | tested i hpc | freeNull i hpc | null i hpc | exit hpc | exitStatus hpc
      | exitUnset hpc | earse hpc | drained hpc | drain i que hpc | drainNull i hpc =>
          exact StreamPc.noConfusion (hpc.symm.trans (hs hmem))
      | dead | stray => rfl
      | free i a hpc | drainFree i a hpc =>
          refine memFree_stray ?_ hmem
          exact fun h ↦ StreamPc.noConfusion (hpc.symm.trans (hs h))

theorem CopyInv.law (hs : CopyInv bufNum s) (hstray : none ∈ s.freed → s.pc = .fault) :
    CopyLaw s := by
  have hfault : s.pc ≠ .fault := by
    intro hpc
    have hstage := hs.stage
    rw [hpc] at hstage
    exact hstage
  refine ⟨hfault, fun x hx ↦ ?_, hs.blocks.count_le, fun hpc n hn ↦ hs.all_freed hpc hn⟩
  cases x with
  | none => exact (hfault (hstray hx)).elim
  | some n =>
      have hn : n ∈ s.numbers none := List.reduceOption_mem_iff.mpr hx
      exact ⟨n, hs.blocks.exact.live_of_mem hn, rfl⟩

theorem copyStart_inv {hndl : OsaBufHndl} (h : hndl.Fresh bufNum) (socket : ℤ) :
    CopyInv bufNum (copyStart hndl socket) := by
  have hstart := slotStart_inv h socket
  have hpointers : ∀ i, (copyStart hndl socket).pointers i = [] := by
    intro i
    have hdata : (copyStart hndl socket).data i = none := h.data i
    simp [CopyState.pointers, hdata]
  refine ⟨hstart.queues, ⟨fun _ ↦ ⟨fun _ ↦ rfl, fun _ ↦ rfl⟩, ?_⟩, ?_, fun i ↦ ?_,
    fun i hi ↦ (by cases hi), rfl⟩
  · refine .empty (fun p ↦ ?_) (fun n ↦ Nat.not_lt_zero n)
    cases p <;> rfl
  · exact .empty hpointers (fun a hlive ↦ hlive rfl)
  · rw [hpointers]
    refine ⟨fun h ↦ (h rfl).elim, ?_⟩
    rintro (hi | hi | hi | hi)
    · cases hi
    · rw [show (copyStart hndl socket).slots.buf.fullQue.items = [] from h.full] at hi
      cases hi
    · cases hi
    · cases hi

end OsaBase
