import OsaBase.Communication.StreamSlot

/-!
# What the steps do to the slots

While the queues hold every slot at most once, each step of the producer and of the consumer moves
at most one slot. The invariants of the pool and of its data blocks are derived from these effects.
-/

namespace OsaBase

variable {bufNum : ℕ} {u u' : SlotState}

/-- Every slot is in one place, as far as the queues are concerned. -/
structure SlotQueues (bufNum : ℕ) (s : SlotState) : Prop where
  emptyRep : s.buf.emptyQue.Rep bufNum
  fullRep : s.buf.fullQue.Rep bufNum
  numBuf : s.buf.numBuf = bufNum
  bound : ∀ i ∈ s.places.all, 0 ≤ i ∧ i < bufNum
  nodup : s.places.all.Nodup

/-! ## The producer -/

/-- A step of the producer other than an allocation that succeeds. -/
inductive FillEffect (bufNum : ℕ) (u : SlotState) : SlotState → Prop
  | none (f : StreamFrame) (hpc : u.producer = .getEmpty f) (hnil : u.buf.emptyQue.items = []) :
      FillEffect bufNum u { u with producer := .idle }
  | take (f : StreamFrame) (i : ℤ) (que : OsaQueHndl) (hpc : u.producer = .getEmpty f)
      (hrep : que.Rep bufNum) (hitems : u.buf.emptyQue.items = i :: que.items) :
      FillEffect bufNum u { u with
        buf := { u.buf with emptyQue := que }, producer := .copyHead f i }
  | head (f : StreamFrame) (i : ℤ) (hpc : u.producer = .copyHead f i) :
      FillEffect bufNum u { u with
        buf := u.buf.setSlot i { u.buf.bufInfo i with head := netInitStreamHead f.head }
        producer := .alloc f i }
  | noMem (f : StreamFrame) (i : ℤ) (hpc : u.producer = .alloc f i) :
      FillEffect bufNum u { u with
        buf := u.buf.setSlot i { u.buf.bufInfo i with data := Option.none }
        producer := .asserted i }
  | dead (f : StreamFrame) (i : ℤ) (hpc : u.producer = .copyData f i)
      (hdead : (u.buf.bufInfo i).data.bind u.mem = Option.none) :
      FillEffect bufNum u { u with producer := .fault }
  | copy (f : StreamFrame) (i : ℤ) (a : ℕ) (block : List UInt8) (hpc : u.producer = .copyData f i)
      (hdata : (u.buf.bufInfo i).data = some a) (hmem : u.mem a = some block) :
      FillEffect bufNum u { u with
        mem := Function.update u.mem a (some (Bytes.store block 0 f.data))
        producer := .putFull f i }
  | give (f : StreamFrame) (i : ℤ) (que : OsaQueHndl) (hpc : u.producer = .putFull f i)
      (hrep : que.Rep bufNum) (hitems : que.items = u.buf.fullQue.items ++ [i]) :
      FillEffect bufNum u { u with
        buf := { u.buf with fullQue := que }, producer := .idle, enqueued := u.enqueued ++ [f] }

theorem fillEffect {addr : Option ℕ} (hu : SlotQueues bufNum u)
    (halloc : ∀ f i, u.producer = .alloc f i → addr = none)
    (h : serverFillBuf u addr = some u') : FillEffect bufNum u u' := by
  cases hpc : u.producer with
  | getEmpty f =>
      simp only [serverFillBuf, hpc, osaBufGetEmpty, Option.map_map] at h
      obtain ⟨⟨que, status, i⟩, hget, rfl⟩ := Option.map_eq_some_iff.mp h
      obtain ⟨hrep, ⟨rfl, hitems⟩ | ⟨rfl, hnil, rfl, -⟩⟩ := bufGet_cases hu.emptyRep hget
      · simp only [Function.comp_apply, ne_eq, not_true, if_false]
        exact .take f i que hpc hrep hitems
      · simp only [Function.comp_apply, osaEfail_ne_osaSok, ne_eq, not_false_eq_true, if_true]
        exact .none f hpc hnil
  | copyHead f i =>
      simp only [serverFillBuf, hpc] at h
      cases h
      exact .head f i hpc
  | alloc f i =>
      obtain rfl := halloc f i hpc
      simp only [serverFillBuf, hpc] at h
      cases h
      exact .noMem f i hpc
  | copyData f i =>
      simp only [serverFillBuf, hpc] at h
      cases hdata : (u.buf.bufInfo i).data with
      | none =>
          simp only [hdata] at h
          cases h
          exact .dead f i hpc (by rw [hdata]; rfl)
      | some a =>
          simp only [hdata] at h
          cases hmem : u.mem a with
          | none =>
              simp only [hmem] at h
              cases h
              exact .dead f i hpc (by rw [hdata]; exact hmem)
          | some block =>
              simp only [hmem] at h
              cases h
              exact .copy f i a block hpc hdata hmem
  | putFull f i =>
      have hid : 0 ≤ i ∧ i < u.buf.numBuf := by
        rw [hu.numBuf]
        apply hu.bound
        simp [Pool.Places.all, SlotState.places, hpc, ProducerPc.slot]
      simp only [serverFillBuf, hpc, osaBufPutFull, Option.map_map] at h
      obtain ⟨⟨que, status⟩, hput, rfl⟩ := Option.map_eq_some_iff.mp h
      obtain ⟨hrep, rfl, hitems⟩ := bufPut_cases hu.fullRep hid hput
      simp only [Function.comp_apply, if_true]
      exact .give f i que hpc hrep hitems
  | idle | asserted | fault =>
      simp only [serverFillBuf, hpc] at h
      cases h

/-- A step of the producer, or an allocation that succeeds. -/
theorem fill_cases {addr : Option ℕ} (hu : SlotQueues bufNum u)
    (h : serverFillBuf u addr = some u') :
    ((∀ f i, u.producer = .alloc f i → addr = none) ∧ FillEffect bufNum u u') ∨
      ∃ f i a, addr = some a ∧ u.producer = .alloc f i ∧ u.mem a = none ∧ u' = { u with
        buf := u.buf.setSlot i { u.buf.bufInfo i with data := some a }
        mem := Function.update u.mem a
          (memAlloc (FrameHead.nFrameLength (netInitStreamHead f.head).bytes).toNat true)
        producer := .copyData f i } := by
  by_cases halloc : ∃ f i a, addr = some a ∧ u.producer = .alloc f i
  · obtain ⟨f, i, a, rfl, hpc⟩ := halloc
    simp only [serverFillBuf, hpc] at h
    split at h
    · next hfree =>
      cases h
      exact Or.inr ⟨f, i, a, rfl, hpc, hfree, rfl⟩
    · cases h
  · have hnone : ∀ f i, u.producer = .alloc f i → addr = none := by
      intro f i hpc
      rw [Option.eq_none_iff_forall_ne_some]
      exact fun a ha ↦ halloc ⟨f, i, a, ha, hpc⟩
    exact Or.inl ⟨hnone, fillEffect hu hnone h⟩

/-! ## The consumer -/

inductive ConsumerEffect (bufNum : ℕ) (u : SlotState) (es : SendSchedule) : SlotState → Prop
  | fetch (i : ℤ) (que : OsaQueHndl) (hpc : u.consumer = .getFull) (hrep : que.Rep bufNum)
      (hitems : u.buf.fullQue.items = i :: que.items) :
      ConsumerEffect bufNum u es { u with
        buf := { u.buf with fullQue := que }, consumer := .send i }
  | dead (i : ℤ) (hpc : u.consumer = .send i) (hdata : (u.buf.bufInfo i).data ≠ none)
      (hdead : (u.buf.bufInfo i).data.bind u.mem = none) :
      ConsumerEffect bufNum u es { u with consumer := .fault }
  | sent (i : ℤ) (run : SendRun) (hpc : u.consumer = .send i)
      (hrun : netSendBuf u.socket (u.buf.bufInfo i).head ((u.buf.bufInfo i).data.bind u.mem) es =
        some run) (hok : run.status = 0) :
      ConsumerEffect bufNum u es { u with
        consumer := .putEmpty i
        sent := u.sent ++ [(run.sent.take frameHeadSize, run.sent.drop frameHeadSize)] }
  | noData (i : ℤ) (hpc : u.consumer = .send i)
      (hdata : (u.buf.bufInfo i).data.bind u.mem = none) :
      ConsumerEffect bufNum u es { u with consumer := .left, socket := -1 }
  | putBack (i : ℤ) (que : OsaQueHndl) (hpc : u.consumer = .putEmpty i) (hrep : que.Rep bufNum)
      (hitems : que.items = u.buf.emptyQue.items ++ [i]) :
      ConsumerEffect bufNum u es { u with
        buf := { u.buf with emptyQue := que }, consumer := .test i }
  | clean (i : ℤ) (hpc : u.consumer = .test i) (hdata : (u.buf.bufInfo i).data = none) :
      ConsumerEffect bufNum u es { u with consumer := .getFull }
  | tested (i : ℤ) (hpc : u.consumer = .test i) (hdata : (u.buf.bufInfo i).data ≠ none) :
      ConsumerEffect bufNum u es { u with consumer := .free i }
  | freeNull (i : ℤ) (hpc : u.consumer = .free i) (hdata : (u.buf.bufInfo i).data = none) :
      ConsumerEffect bufNum u es { u with consumer := .null i }
  | freeDead (i : ℤ) (a : ℕ) (hpc : u.consumer = .free i)
      (hdata : (u.buf.bufInfo i).data = some a) (hdead : u.mem a = none) :
      ConsumerEffect bufNum u es { u with consumer := .fault }
  | free (i : ℤ) (a : ℕ) (hpc : u.consumer = .free i) (hdata : (u.buf.bufInfo i).data = some a)
      (hlive : u.mem a ≠ none) :
      ConsumerEffect bufNum u es { u with
        mem := Function.update u.mem a none, consumer := .null i }
  | null (i : ℤ) (hpc : u.consumer = .null i) :
      ConsumerEffect bufNum u es { u with
        buf := u.buf.setSlot i { u.buf.bufInfo i with data := none }, consumer := .getFull }

theorem consumerEffect (hu : SlotQueues bufNum u) {es : SendSchedule}
    (h : osaProcessClientStream bufNum u es = some u') : ConsumerEffect bufNum u es u' := by
  cases hpc : u.consumer with
  | getFull =>
      simp only [osaProcessClientStream, hpc, osaBufGetFull, Option.map_map] at h
      obtain ⟨⟨que, status, i⟩, hget, rfl⟩ := Option.map_eq_some_iff.mp h
      obtain ⟨hrep, ⟨rfl, hitems⟩ | ⟨rfl, hnil, rfl, rfl⟩⟩ := bufGet_cases hu.fullRep hget
      · have hi := hu.bound i (by simp [Pool.Places.all, SlotState.places, hitems])
        have hvalid : i > -1 ∧ i ≤ (bufNum : ℤ) := by omega
        simp only [Function.comp_apply, hvalid, and_self, if_true]
        exact .fetch i que hpc hrep hitems
      · -- an empty queue is waited for
        have hcount : u.buf.fullQue.count = 0 := by
          rw [← RingHndl.length_items, hnil]
          rfl
        have hnone := bufGet_forever_isNone.mpr hcount
        rw [hget] at hnone
        cases hnone
  | send i =>
      simp only [osaProcessClientStream, hpc] at h
      split at h
      · next hdead =>
        cases h
        exact .dead i hpc hdead.1 hdead.2
      · obtain ⟨run, hrun, h⟩ := Option.bind_eq_some_iff.mp h
        split at h
        · next hok =>
          cases h
          exact .sent i run hpc hrun hok
        · split at h
          · next hdata =>
            cases h
            exact .noData i hpc hdata
          · cases h
  | putEmpty i =>
      have hi : 0 ≤ i ∧ i < u.buf.numBuf := by
        rw [hu.numBuf]
        apply hu.bound
        simp [Pool.Places.all, SlotState.places, hpc, ConsumerPc.slot]
      simp only [osaProcessClientStream, hpc, osaBufPutEmpty, Option.map_map] at h
      obtain ⟨⟨que, status⟩, hput, rfl⟩ := Option.map_eq_some_iff.mp h
      obtain ⟨hrep, rfl, hitems⟩ := bufPut_cases hu.emptyRep hi hput
      exact .putBack i que hpc hrep hitems
  | test i =>
      simp only [osaProcessClientStream, hpc] at h
      split at h
      · next hnone =>
        cases h
        exact .clean i hpc hnone
      · next hsome =>
        cases h
        exact .tested i hpc hsome
  | free i =>
      simp only [osaProcessClientStream, hpc] at h
      split at h
      · next hdata =>
        cases h
        exact .freeNull i hpc hdata
      · next a hdata =>
        split at h
        · next hdead =>
          cases h
          exact .freeDead i a hpc hdata hdead
        · next hlive =>
          cases h
          exact .free i a hpc hdata hlive
  | null i =>
      simp only [osaProcessClientStream, hpc] at h
      cases h
      exact .null i hpc
  | left | fault =>
      simp only [osaProcessClientStream, hpc] at h
      cases h

/-! ## The queues -/

theorem SlotQueues.of_subperm (hu : SlotQueues bufNum u)
    (hplaces : u'.places.all.Subperm u.places.all) (hempty : u'.buf.emptyQue.Rep bufNum)
    (hfull : u'.buf.fullQue.Rep bufNum) (hnum : u'.buf.numBuf = u.buf.numBuf) :
    SlotQueues bufNum u' := by
  obtain ⟨places, hperm, hsub⟩ := hplaces
  refine ⟨hempty, hfull, hnum.trans hu.numBuf, fun i hi ↦ hu.bound i ?_, ?_⟩
  · exact hsub.subset (hperm.mem_iff.mpr hi)
  · exact hperm.nodup_iff.mp (hsub.nodup hu.nodup)

theorem SlotQueues.move (hu : SlotQueues bufNum u) (hplaces : Pool.Move u.places u'.places)
    (hempty : u'.buf.emptyQue.Rep bufNum) (hfull : u'.buf.fullQue.Rep bufNum)
    (hnum : u'.buf.numBuf = u.buf.numBuf) : SlotQueues bufNum u' :=
  hu.of_subperm hplaces.perm.symm.subperm hempty hfull hnum

/-- The steps that touch no queue. -/
theorem SlotQueues.same (hu : SlotQueues bufNum u) (hempty : u'.buf.emptyQue = u.buf.emptyQue)
    (hfull : u'.buf.fullQue = u.buf.fullQue) (hnum : u'.buf.numBuf = u.buf.numBuf)
    (hfilling : u'.producer.slot = u.producer.slot)
    (hdraining : u'.consumer.slot = u.consumer.slot) : SlotQueues bufNum u' := by
  have hplaces : u'.places = u.places := by
    rw [SlotState.places, SlotState.places, hempty, hfull, hfilling, hdraining]
  apply hu.of_subperm
  · rw [hplaces]
  · rw [hempty]
    exact hu.emptyRep
  · rw [hfull]
    exact hu.fullRep
  · exact hnum

theorem SlotQueues.fill (hu : SlotQueues bufNum u) (h : FillEffect bufNum u u') :
    SlotQueues bufNum u' := by
  cases h with
  | none f hpc | head f i hpc | noMem f i hpc | copy f i a block hpc =>
      exact hu.same rfl rfl rfl (by rw [hpc]; rfl) rfl
  | dead f i hpc =>
      -- the slot goes down with the producer
      refine hu.of_subperm ?_ hu.emptyRep hu.fullRep rfl
      simp only [Pool.Places.all, SlotState.places, hpc]
      apply List.Sublist.subperm
      exact (((List.Sublist.refl _).append (List.nil_sublist _)).append (.refl _)).append (.refl _)
  | take f i que hpc hrep hitems =>
      refine hu.move ?_ hrep hu.fullRep rfl
      simp only [SlotState.places, hpc, hitems]
      exact .take _ _ _ _
  | give f i que hpc hrep hitems =>
      refine hu.move ?_ hu.emptyRep hrep rfl
      simp only [SlotState.places, hpc, hitems]
      exact .give _ _ _ _

end OsaBase
