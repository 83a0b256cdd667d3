import OsaBase.Communication.StreamFrees

/-!
# Frame copies that are lost

A failed send leaves its slot in no queue, and a pointer written into a slot that is being cleaned
up is nulled or stands for another that was not freed yet. In each case a block is lost, and the
thread returns, if it does, without having freed it.
-/

open Transition

namespace OsaBase

variable {bufNum : ℕ} {s s' : CopyState}

/-! ## Blocks that are lost -/

/-- The thread has left the loop, or is on its way out of it, with the slot in no queue. -/
def CopyState.Leaving (s : CopyState) (bufId : ℤ) : StreamPc → Prop
  | .exit | .exitStatus | .done | .fault => True
  | .exitUnset | .testStatus | .earse | .drain => s.connected = false
  | .drainTest j => j ≠ bufId ∧ s.connected = false
  | .body => False

/-- `server_fill_buf` is not over, so the client is in the list. -/
def StreamPc.beforeEarse : StreamPc → Bool
  | .drain | .drainTest _ | .done => false
  | _ => true

/-- No pointer leads to an allocated block; or the only one is about to be nulled; or it is that of
the slot whose send failed; or the producer has crashed, and the thread does not return. -/
inductive Lost (s : CopyState) : Prop
  | orphan (a : ℕ) (hblock : s.block a ≠ none) (hdata : ∀ i, s.data i ≠ some a)
  | nulled (i : ℤ) (a : ℕ) (hblock : s.block a ≠ none) (hdata : s.data i = some a)
      (hother : ∀ j ≠ i, s.data j ≠ some a) (hpc : s.pc = .body)
      (hcons : s.slots.consumer = .null i)
  | failed (i : ℤ) (a : ℕ) (hblock : s.block a ≠ none) (hdata : s.data i = some a)
      (hother : ∀ j ≠ i, s.data j ≠ some a) (hcons : s.slots.consumer = .send i)
      (hleaving : s.Leaving i s.pc)
  | crashed (i : ℤ) (hpc : s.slots.producer = .asserted i) (hloop : s.pc.beforeEarse = true)

theorem data_setSlot (u : SlotState) (i j : ℤ) (info : OsaBufInfo) :
    ((u.buf.setSlot i info).bufInfo j).data =
      if j = i then info.data else (u.buf.bufInfo j).data := by
  by_cases hj : j = i
  · subst hj
    simp [OsaBufHndl.setSlot]
  · simp [OsaBufHndl.setSlot, hj]

theorem memFree_data (s : CopyState) (a : ℕ) (i : ℤ) : (s.memFree a).data i = s.data i := by
  obtain ⟨mem, heq⟩ := s.memFree_slots a
  rw [CopyState.data, heq, CopyState.data]

/-- A data pointer stays, is nulled, or leads to a block just allocated. -/
theorem CopyEffect.data {l : CopyLabel} (h : CopyEffect bufNum s l s') (j : ℤ) :
    s'.data j = s.data j ∨ s'.data j = none ∨
      ∃ a, s.slots.mem a = none ∧ s'.block a ≠ none ∧ s'.data j = some a := by
  cases h with
  | refused | fill | stop => exact Or.inl rfl
  | producer addr u h =>
      cases h with
      | none | take | dead | copy | give => exact Or.inl rfl
      | head f i =>
          left
          simp only [CopyState.data, data_setSlot]
          split
          · next hj => rw [hj]
          · rfl
      | noMem f i =>
          simp only [CopyState.data, data_setSlot]
          split
          · exact Or.inr (Or.inl rfl)
          · exact Or.inl rfl
  | alloc f i a block hpc hfree =>
      simp only [CopyState.data, data_setSlot]
      split
      · exact Or.inr (Or.inr ⟨a, hfree, by simp, rfl⟩)
      · exact Or.inl rfl
  | thread es tmpMsg flag h =>
      cases h with
      | test | fetch | dead | failed | sent | putBack | clean | tested | freeNull | stray | exit
      | exitStatus | exitUnset | earse | drained | drain | drainNull => exact Or.inl rfl
      | null i =>
          simp only [CopyState.data, data_setSlot]
          split
          · exact Or.inr (Or.inl rfl)
          · exact Or.inl rfl
      | free i a => exact Or.inl (memFree_data _ a j)
      | drainFree i a =>
          rw [memFree_data]
          simp only [CopyState.setNull, CopyState.data, data_setSlot]
          split
          · exact Or.inr (Or.inl rfl)
          · exact Or.inl rfl

theorem memFree_block {a b : ℕ} (hb : s.block b ≠ none) (hne : b ≠ a) :
    (s.memFree a).block b ≠ none := by
  rcases s.memFree_cases a with ⟨-, heq⟩ | ⟨n, -, heq⟩
  · rwa [heq]
  · rw [heq]
    simpa only [Function.update_of_ne hne] using hb

/-- An allocated block stays so, unless the thread frees it through the pointer of a slot. -/
theorem CopyEffect.block {l : CopyLabel} (h : CopyEffect bufNum s l s') {a : ℕ}
    (ha : s.block a ≠ none) : s'.block a ≠ none ∨
      ∃ i, s.data i = some a ∧
        ((s.pc = .body ∧ s.slots.consumer = .free i) ∨ s.pc = .drainTest i) := by
  cases h with
  | refused | fill | stop | producer => exact Or.inl ha
  | alloc f i b block hpc hfree =>
      left
      by_cases hb : a = b
      · subst hb
        simp
      · simpa only [Function.update_of_ne hb] using ha
  | thread es tmpMsg flag h =>
      cases h with
      | test | fetch | dead | failed | sent | putBack | clean | tested | freeNull | null | stray
      | exit | exitStatus | exitUnset | earse | drained | drain | drainNull => exact Or.inl ha
      | free i b hpc hcons hdata =>
          by_cases hb : a = b
          · subst hb
            exact Or.inr ⟨i, hdata, Or.inl ⟨hpc, hcons⟩⟩
          · exact Or.inl (memFree_block ha hb)
      | drainFree i b hpc hdata =>
          by_cases hb : a = b
          · subst hb
            exact Or.inr ⟨i, hdata, Or.inr hpc⟩
          · exact Or.inl (memFree_block ha hb)

/-- A block that only the slot leads to stays with it, or is an orphan. -/
theorem CopyEffect.only (hb : CopyBlocks s) {l : CopyLabel} (h : CopyEffect bufNum s l s') {a : ℕ}
    (ha : s.block a ≠ none) {j : ℤ} (hj : s.data j ≠ some a) : s'.data j ≠ some a := by
  intro hdata
  rcases h.data j with heq | heq | ⟨b, hfree, -, heq⟩
  · exact hj (heq.symm.trans hdata)
  · rw [heq] at hdata
    cases hdata
  · obtain rfl : b = a := Option.some.inj (heq.symm.trans hdata)
    exact ha ((hb.mem b).mpr hfree)

theorem CopyEffect.thread_same {l : CopyLabel} (h : CopyEffect bufNum s l s')
    (hl : ∀ es tmpMsg flag, l ≠ .thread es tmpMsg flag) :
    s'.pc = s.pc ∧ s'.slots.consumer = s.slots.consumer ∧ s'.connected = s.connected := by
  cases h with
  | refused | fill | stop | alloc => exact ⟨rfl, rfl, rfl⟩
  | producer addr u h => cases h <;> exact ⟨rfl, rfl, rfl⟩
  | thread es tmpMsg flag h => exact (hl es tmpMsg flag rfl).elim

theorem memFree_pc (s : CopyState) (a : ℕ) :
    (s.memFree a).pc = s.pc ∨ (s.memFree a).pc = .fault := by
  rcases s.memFree_cases a with ⟨-, heq⟩ | ⟨n, -, heq⟩
  · exact Or.inr (by rw [heq])
  · exact Or.inl (by rw [heq])

/-- The slot whose send failed stays where it is. -/
theorem ThreadEffect.leaving (hq : SlotQueues bufNum s.slots) {es : SendSchedule} {i : ℤ}
    (hcons : s.slots.consumer = .send i) (hleaving : s.Leaving i s.pc)
    (h : ThreadEffect bufNum s es s') :
    s'.slots.consumer = .send i ∧ s'.Leaving i s'.pc := by
  cases h with
  | test hpc =>
      rw [hpc] at hleaving
      have hconn : s.connected = false := hleaving
      refine ⟨hcons, ?_⟩
      simp only [hconn, Bool.false_and, Bool.false_eq_true, if_false]
      rfl
  | fetch j que hpc | dead j hpc | failed j run hpc | sent j run sent hpc | putBack j que hpc
  | clean j hpc | tested j hpc | freeNull j hpc | free j a hpc | null j hpc =>
      rw [hpc] at hleaving
      exact hleaving.elim
  | stray | exit => exact ⟨hcons, trivial⟩
  | exitStatus => exact ⟨hcons, rfl⟩
  | exitUnset hpc =>
      rw [hpc] at hleaving
      exact ⟨hcons, hleaving⟩
  | earse hpc =>
      rw [hpc] at hleaving
      exact ⟨hcons, hleaving⟩
  | drained hpc => exact ⟨hcons, trivial⟩
  | drain j que hpc hrep hitems =>
      rw [hpc] at hleaving
      refine ⟨hcons, fun heq ↦ ?_, hleaving⟩
      have hnodup := hq.nodup
      simp only [Pool.Places.all, SlotState.places, hitems, hcons, ConsumerPc.slot,
        Option.toList_some, List.nodup_append, List.mem_append, List.mem_singleton] at hnodup
      exact hnodup.2.2 j (Or.inr (by simp)) i rfl heq
  | drainNull j hpc hdata =>
      rw [hpc] at hleaving
      exact ⟨hcons, hleaving.2⟩
  | drainFree j a hpc hdata =>
      rw [hpc] at hleaving
      rcases CopyState.memFree_cases (CopyState.setNull { s with pc := .drain } j) a with
        ⟨-, heq⟩ | ⟨n, -, heq⟩
      · rw [heq]
        exact ⟨hcons, trivial⟩
      · rw [heq]
        exact ⟨hcons, hleaving.2⟩

theorem ThreadEffect.nulls {es : SendSchedule} {i : ℤ} (hpc : s.pc = .body)
    (hcons : s.slots.consumer = .null i) (h : ThreadEffect bufNum s es s') : s'.data i = none := by
  cases h with
  | null j _ hj =>
      obtain rfl : i = j := ConsumerPc.null.inj (hcons.symm.trans hj)
      simp [CopyState.data, OsaBufHndl.setSlot]
  | fetch j que _ h | dead j _ h | failed j run _ h | sent j run sent _ h | putBack j que _ h
  | clean j _ h | tested j _ h | freeNull j _ h | free j a _ h =>
      exact ConsumerPc.noConfusion (hcons.symm.trans h)
  | test h | stray h | exit h | exitStatus h | exitUnset h | earse h | drained h | drain j que h
  | drainNull j h | drainFree j a h => exact StreamPc.noConfusion (hpc.symm.trans h)

theorem CopyState.Leaving.congr {i : ℤ} {pc : StreamPc} (h : s.Leaving i pc)
    (hconn : s'.connected = s.connected) : s'.Leaving i pc := by
  cases pc with
  | exit | exitStatus | done | fault => trivial
  | exitUnset | testStatus | earse | drain => exact hconn.trans h
  | drainTest j => exact ⟨h.1, hconn.trans h.2⟩
  | body => exact h.elim

theorem CopyEffect.crashed {l : CopyLabel} (h : CopyEffect bufNum s l s') {i : ℤ}
    (hpc : s.slots.producer = .asserted i) (hloop : s.pc.beforeEarse = true) :
    s'.slots.producer = .asserted i ∧ s'.pc.beforeEarse = true := by
  cases h with
  | refused | stop => exact ⟨hpc, hloop⟩
  | fill f hidle => exact ProducerPc.noConfusion (hpc.symm.trans hidle)
  | alloc f j a block halloc => exact ProducerPc.noConfusion (hpc.symm.trans halloc)
  | producer addr u h =>
      cases h with
      | none f h | take f j que h | head f j h | noMem f j h | dead f j h | copy f j a block h
      | give f j que h => exact ProducerPc.noConfusion (hpc.symm.trans h)
  | thread es tmpMsg flag h =>
      cases h with
      | test =>
          refine ⟨hpc, ?_⟩
          simp only
          split
          all_goals rfl
      | fetch | dead | failed | sent | putBack | clean | tested | freeNull | null | stray | exit
      | exitStatus | exitUnset => exact ⟨hpc, rfl⟩
      | free j a =>
          obtain ⟨mem, hslots⟩ := CopyState.memFree_slots
            { s with slots := { s.slots with consumer := .null j }, pc := .body } a
          refine ⟨by rw [hslots]; exact hpc, ?_⟩
          rcases memFree_pc { s with slots := { s.slots with consumer := .null j }, pc := .body } a
            with heq | heq
          all_goals
            rw [heq]
            rfl
      | earse h hidle => exact ProducerPc.noConfusion (hpc.symm.trans hidle)
      | drained h | drain j que h | drainNull j h | drainFree j a h =>
          rw [h] at hloop
          cases hloop

/-- A block that is lost stays lost. -/
theorem Lost.step (hl : Lost s) (hq : SlotQueues bufNum s.slots) (hb : CopyBlocks s)
    {l : CopyLabel} (h : CopyEffect bufNum s l s') : Lost s' := by
  cases hl with
  | orphan a hblock hdata =>
      refine .orphan a ?_ fun j ↦ h.only hb hblock (hdata j)
      rcases h.block hblock with hblock' | ⟨j, hj, -⟩
      · exact hblock'
      · exact (hdata j hj).elim
  | nulled i a hblock hdata hother hpc hcons =>
      have hblock' : s'.block a ≠ none := by
        rcases h.block hblock with hblock' | ⟨j, -, ⟨-, hfree⟩ | hdrain⟩
        · exact hblock'
        · exact ConsumerPc.noConfusion (hcons.symm.trans hfree)
        · exact StreamPc.noConfusion (hpc.symm.trans hdrain)
      by_cases hdata' : s'.data i = some a
      · have hsame : s'.pc = s.pc ∧ s'.slots.consumer = s.slots.consumer ∧
            s'.connected = s.connected := by
          apply h.thread_same
          rintro es tmpMsg flag rfl
          cases h with
          | thread _ _ _ h =>
              rw [h.nulls hpc hcons] at hdata'
              cases hdata'
        exact .nulled i a hblock' hdata' (fun j hj ↦ h.only hb hblock (hother j hj))
          (hsame.1.trans hpc) (hsame.2.1.trans hcons)
      · refine .orphan a hblock' fun j ↦ ?_
        by_cases hj : j = i
        · exact hj ▸ hdata'
        · exact h.only hb hblock (hother j hj)
  | failed i a hblock hdata hother hcons hleaving =>
      have hblock' : s'.block a ≠ none := by
        rcases h.block hblock with hblock' | ⟨j, hj, ⟨-, hfree⟩ | hdrain⟩
        · exact hblock'
        · exact ConsumerPc.noConfusion (hcons.symm.trans hfree)
        · rw [hdrain] at hleaving
          exact (hother j hleaving.1 hj).elim
      by_cases hdata' : s'.data i = some a
      · have hout : s'.slots.consumer = .send i ∧ s'.Leaving i s'.pc := by
          by_cases hthread : ∃ es tmpMsg flag, l = .thread es tmpMsg flag
          · obtain ⟨es, tmpMsg, flag, rfl⟩ := hthread
            cases h with
            | thread _ _ _ h => exact h.leaving hq hcons hleaving
          · obtain ⟨hpc', hcons', hconn'⟩ :=
              h.thread_same fun es tmpMsg flag heq ↦ hthread ⟨es, tmpMsg, flag, heq⟩
            rw [hpc']
            exact ⟨hcons'.trans hcons, hleaving.congr hconn'⟩
        exact .failed i a hblock' hdata' (fun j hj ↦ h.only hb hblock (hother j hj)) hout.1 hout.2
      · refine .orphan a hblock' fun j ↦ ?_
        by_cases hj : j = i
        · exact hj ▸ hdata'
        · exact h.only hb hblock (hother j hj)
  | crashed i hpc hloop =>
      obtain ⟨hpc', hloop'⟩ := h.crashed hpc hloop
      exact .crashed i hpc' hloop'

/-- At the return a lost block has not been freed. -/
theorem Lost.not_law (hl : Lost s) (hb : CopyBlocks s) (hpc : s.pc = .done) : ¬ CopyLaw s := by
  have hkept : ∀ a, s.block a ≠ none → ¬ CopyLaw s := by
    intro a hblock hlaw
    obtain ⟨n, hn⟩ := Option.ne_none_iff_exists'.mp hblock
    have hmem : n ∈ s.numbers (some a) := by simp [CopyState.numbers, hn]
    have hcount := hlaw.returned hpc n (hb.exact.live_of_mem hmem)
    rw [count_some] at hcount
    have hfreed : n ∈ s.numbers none := by
      apply List.count_pos_iff.mp
      rw [CopyState.numbers, hcount]
      exact Nat.one_pos
    cases hb.exact.unique (some a) none n hmem hfreed
  cases hl with
  | orphan a hblock | nulled i a hblock | failed i a hblock => exact hkept a hblock
  | crashed i _ hloop =>
      rw [hpc] at hloop
      cases hloop

/-- The pointer of an owned slot is the only one to its block. -/
theorem CopyInv.only (hs : CopyInv bufNum s) {i : ℤ} (hi : s.Owns i)
    (hnull : ∀ j, s.slots.consumer ≠ .null j) : ∃ a, s.data i = some a ∧ s.block a ≠ none ∧
      ∀ j ≠ i, s.data j ≠ some a := by
  obtain ⟨a, hdata, hpointers, hlive⟩ := hs.block hi
  refine ⟨a, hdata, fun hnone ↦ hlive ((hs.blocks.mem a).mp hnone), fun j hj hdata' ↦ hj ?_⟩
  refine hs.exact.unique j i a ?_ (by simp [hpointers])
  simp [CopyState.pointers, hnull j, hdata']

theorem CopyInv.in_body (hs : CopyInv bufNum s) (hcons : s.slots.consumer ≠ .getFull) :
    s.pc = .body := by
  have hstage := hs.stage
  cases hpc : s.pc with
  | body => rfl
  | testStatus | earse =>
      rw [hpc] at hstage
      exact (hcons hstage).elim
  | drain =>
      rw [hpc] at hstage
      exact (hcons hstage.1).elim
  | drainTest | done =>
      rw [hpc] at hstage
      exact (hcons hstage.1.1).elim
  | exit | exitStatus | exitUnset | fault =>
      rw [hpc] at hstage
      exact hstage.elim

/-- A new block in a slot that is being cleaned up: its pointer overwrites that of the block still
to be freed, or is itself nulled. -/
theorem CopyInv.loses_alloc (hs : CopyInv bufNum s) {f : StreamFrame} {i : ℤ} {a : ℕ}
    {block : List UInt8} (hclean : s.slots.consumer.cleanup = some i)
    (hfree : s.slots.mem a = none) :
    Lost { s with
      slots := { s.slots with
        buf := s.slots.buf.setSlot i { s.slots.buf.bufInfo i with data := some a }
        mem := Function.update s.slots.mem a (some block)
        producer := .copyData f i }
      allocs := s.allocs + 1
      block := Function.update s.block a (some s.allocs) } := by
  have hbody := hs.in_body fun hget ↦ by
    rw [hget] at hclean
    cases hclean
  have hover : s.slots.consumer.holds = some i → (∀ j, s.slots.consumer ≠ .null j) →
      ∃ b, s.block b ≠ none ∧ b ≠ a ∧ ∀ j ≠ i, s.data j ≠ some b := by
    intro hholds hnull
    obtain ⟨b, -, hblock, hother⟩ := hs.only (.of_consumer rfl hholds) hnull
    refine ⟨b, hblock, ?_, hother⟩
    rintro rfl
    exact hblock ((hs.blocks.mem b).mpr hfree)
  cases hcons : s.slots.consumer with
  | test j | free j =>
      rw [hcons] at hclean
      obtain rfl : j = i := Option.some.inj hclean
      obtain ⟨b, hblock, hne, hother⟩ := hover (by rw [hcons]; rfl)
        (fun k hk ↦ by rw [hcons] at hk; cases hk)
      refine .orphan b ?_ fun k ↦ ?_
      · simpa only [Function.update_of_ne hne] using hblock
      · simp only [CopyState.data, data_setSlot]
        split
        · exact fun heq ↦ hne (Option.some.inj heq).symm
        · next hk => exact hother k hk
  | null j =>
      rw [hcons] at hclean
      obtain rfl : j = i := Option.some.inj hclean
      refine .nulled j a (by simp) ?_ (fun k hk ↦ ?_) hbody hcons
      · simp [CopyState.data, data_setSlot]
      · simp only [CopyState.data, data_setSlot, if_neg hk]
        intro hdata
        apply hs.exact.live_of_mem (p := k) _ hfree
        have hother : ¬ j = k := fun heq ↦ hk heq.symm
        simp [CopyState.pointers, CopyState.data, hcons, hother, hdata]
  | getFull | send | putEmpty | left | fault =>
      rw [hcons] at hclean
      cases hclean

/-- A step against the rule loses a block. -/
theorem CopyInv.loses (hs : CopyInv bufNum s) {l : CopyLabel} (hbad : ¬ CopyOk s l)
    (h : CopyEffect bufNum s l s') : Lost s' := by
  cases l with
  | fill | stop => exact (hbad trivial).elim
  | producer addr =>
      obtain ⟨f, i, hpc, hclean⟩ : ∃ f i, s.slots.producer = .alloc f i ∧
          s.slots.consumer.cleanup = some i := by
        obtain ⟨i, hi⟩ := not_forall.mp hbad
        obtain ⟨hi, hclean⟩ := Classical.not_imp.mp hi
        cases hpc : s.slots.producer with
        | alloc f j =>
            rw [hpc] at hi
            obtain rfl : j = i := Option.some.inj hi
            exact ⟨f, j, rfl, not_not.mp hclean⟩
        | idle | getEmpty | copyHead | copyData | putFull | asserted | fault =>
            rw [hpc] at hi
            cases hi
      have hbody := hs.in_body fun hget ↦ by
        rw [hget] at hclean
        cases hclean
      cases h with
      | alloc f' j a block hpc' hfree =>
          obtain ⟨rfl, rfl⟩ := ProducerPc.alloc.inj (hpc.symm.trans hpc')
          exact hs.loses_alloc hclean hfree
      | producer _ u h =>
          cases h with
          | noMem f' j hpc' => exact .crashed j rfl (by rw [hbody]; rfl)
          | none f' h | take f' j que h | head f' j h | dead f' j h | copy f' j a block h
          | give f' j que h => exact ProducerPc.noConfusion (hpc.symm.trans h)
  | thread es tmpMsg flag =>
      obtain ⟨i, run, hpc, hcons, hrun, hfail⟩ : ∃ i run, s.pc = .body ∧
          s.slots.consumer = .send i ∧ netSendBuf s.slots.socket (s.slots.buf.bufInfo i).head
            ((s.data i).bind s.slots.mem) es = some run ∧ run.status ≠ 0 := by
        obtain ⟨i, hi⟩ := not_forall.mp hbad
        obtain ⟨hi, hrun⟩ := Classical.not_imp.mp hi
        obtain ⟨run, hrun⟩ := not_forall.mp hrun
        obtain ⟨hrun, hfail⟩ := Classical.not_imp.mp hrun
        simp only [CopyState.sends, Option.mem_def] at hi
        split at hi
        · next j hpc hcons =>
          obtain rfl : j = i := Option.some.inj hi
          exact ⟨j, run, hpc, hcons, hrun, hfail⟩
        · cases hi
      obtain ⟨a, hdata, hblock, hother⟩ := hs.only (i := i)
        (.of_consumer hcons rfl) (fun j hj ↦ by rw [hcons] at hj; cases hj)
      cases h with
      | thread _ _ _ h =>
          cases h with
          | failed j run' hpc' hcons' => exact .failed i a hblock hdata hother hcons trivial
          | sent j run' sent hpc' hcons' hrun' hok =>
              obtain rfl : i = j := ConsumerPc.send.inj (hcons.symm.trans hcons')
              obtain rfl : run = run' := Option.some.inj (hrun.symm.trans hrun')
              exact (hfail hok).elim
          | dead j hpc' hcons' hsome hdead =>
              obtain rfl : i = j := ConsumerPc.send.inj (hcons.symm.trans hcons')
              rw [hdata] at hdead
              exact (hblock ((hs.blocks.mem a).mpr hdead)).elim
          | fetch j que _ h | putBack j que _ h | clean j _ h | tested j _ h | freeNull j _ h
          | free j b _ h | null j _ h => exact ConsumerPc.noConfusion (hcons.symm.trans h)
          | test h | stray h | exit h | exitStatus h | exitUnset h | earse h | drained h
          | drain j que h | drainNull j h | drainFree j b h =>
              exact StreamPc.noConfusion (hpc.symm.trans h)

/-! ## Every run of the thread -/

/-- The law holds in every run that keeps the rule, and after a step against the rule it is broken
at every return. -/
theorem frame_copies_freed_iff {bufNum : ℕ} (hpos : 1 ≤ bufNum)
    (hmax : (bufNum : ℤ) ≤ osaBufNumMax)
    {mem : Bool → Option (Vector ℤ ((bufNum : ℤ) % 2 ^ 32).toNat)} {initStatus : Bool → ℤ}
    {garbage hndl : OsaBufHndl}
    (hcreate : osaBufCreate bufNum mem initStatus garbage = some (osaSok, hndl)) (socket : ℤ) :
    (∀ s, Reach (copyStep bufNum) CopyOk (copyStart hndl socket) s → CopyLaw s) ∧
      ∀ s l s' s'', Reach (copyStep bufNum) CopyOk (copyStart hndl socket) s →
        copyStep bufNum s l = some s' → ¬ CopyOk s l →
          Reach (copyStep bufNum) Always s' s'' → s''.pc = .done → ¬ CopyLaw s'' := by
  have hstart := copyStart_inv (osaBufCreate_fresh hpos hmax hcreate) socket
  have hinv : ∀ s, Reach (copyStep bufNum) CopyOk (copyStart hndl socket) s →
      CopyInv bufNum s ∧ (none ∈ s.freed → s.pc = .fault) := by
    intro s hs
    apply hs.invariant ⟨hstart, fun h ↦ (by cases h)⟩
    rintro a l b ⟨ha, hstray⟩ hok hl
    exact ⟨ha.step hok hl, (copyEffect ha.queues hl).stray hstray⟩
  constructor
  · intro s hs
    obtain ⟨hs, hstray⟩ := hinv s hs
    exact hs.law hstray
  · intro s l s' s'' hs hstep hbad hreach hpc
    obtain ⟨hs, -⟩ := hinv s hs
    have heffect := copyEffect hs.queues hstep
    have hlost : SlotQueues bufNum s''.slots ∧ CopyBlocks s'' ∧ Lost s'' := by
      apply hreach.invariant ⟨hs.queues.step heffect, hs.blocks.step heffect, hs.loses hbad heffect⟩
      rintro a l b ⟨hq, hb, hl⟩ - hstep
      have heffect := copyEffect hq hstep
      exact ⟨hq.step heffect, hb.step heffect, hl.step hq hb heffect⟩
    exact hlost.2.2.not_law hlost.2.1 hpc

/-- One frame is put into the pool, before the thread takes its first step. -/
def oneFrame (b : UInt8) : List CopyLabel :=
  [.fill (oneByteFrame b), .producer none, .producer none, .producer (some 7), .producer none,
    .producer none]

/-- Steps of the thread in which nothing is sent. -/
def threadSteps (n : ℕ) : List CopyLabel := List.replicate n (.thread ⟨[], []⟩ none 0)

/-- The send of the only frame fails at the header, and its block is never freed. -/
theorem frame_copy_lost_by_send :
    ¬ ∀ s, Reach (copyStep (1 : ℕ)) Always (copyStart oneSlot 5) s → CopyLaw s := by
  intro h
  obtain ⟨s, hs, hp⟩ := Reach.exists_of_exec (copyStep (1 : ℕ)) Always (copyStart oneSlot 5)
    (oneFrame 10 ++ threadSteps 2 ++ [.thread ⟨[.writable 0], []⟩ none 0] ++ threadSteps 6)
    (fun s : CopyState ↦ decide (s.pc = .done ∧ s.allocs = 1 ∧ s.freed = [])) (by decide)
  obtain ⟨hpc, hallocs, hfreed⟩ := of_decide_eq_true hp
  have hcount := (h s hs).returned hpc 0 (by rw [hallocs]; decide)
  rw [hfreed] at hcount
  cases hcount

/-- The first frame is sent, the second is still in `fullQue` when the server stops; then a run in
which the send fails. -/
theorem frame_copies_freed_one_slot :
    (∃ s, s.pc = .done ∧ s.freed = [some 0, some 1] ∧ CopyLaw s) ∧ ∃ s, ¬ CopyLaw s := by
  have hlaw := frame_copies_freed_iff le_rfl (by decide) oneSlot_create 5
  constructor
  · obtain ⟨s, hs, hp⟩ := Reach.exists_of_exec (copyStep (1 : ℕ)) CopyOk (copyStart oneSlot 5)
      (oneFrame 10 ++ threadSteps 2 ++ [.thread ⟨[.writable 88], [.writable 1]⟩ none 0] ++
        threadSteps 4 ++ oneFrame 20 ++ [.stop] ++ threadSteps 5)
      (fun s : CopyState ↦ decide (s.pc = .done ∧ s.freed = [some 0, some 1])) (by decide)
    obtain ⟨hpc, hfreed⟩ := of_decide_eq_true hp
    exact ⟨s, hpc, hfreed, hlaw.1 s hs⟩
  · obtain ⟨s, hs, hp⟩ := Reach.exists_of_exec (copyStep (1 : ℕ)) CopyOk (copyStart oneSlot 5)
      (oneFrame 10 ++ threadSteps 2)
      (fun s : CopyState ↦ !decide (CopyOk s (.thread ⟨[.writable 0], []⟩ none 0)) &&
        (copyStep (1 : ℕ) s (.thread ⟨[.writable 0], []⟩ none 0)).any fun s' ↦
          (exec (copyStep (1 : ℕ)) Always s' (threadSteps 6)).any
            fun s'' : CopyState ↦ decide (s''.pc = .done)) (by decide)
    obtain ⟨hbad, hany⟩ := Bool.and_eq_true_iff.mp hp
    obtain ⟨s', hstep, hexec⟩ := (Option.any_eq_true _ _).mp hany
    obtain ⟨s'', hrest, hpc⟩ := Reach.exists_of_exec _ _ _ _ _ hexec
    exact ⟨s'', hlaw.2 s _ s' s'' hs hstep (by simpa using hbad) hrest (of_decide_eq_true hpc)⟩

end OsaBase
