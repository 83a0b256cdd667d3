import OsaBase.Communication.StreamInv

/-!
# Frames on their way through the slots

As long as the producer takes no slot that the consumer still cleans up, the frames that were
enqueued are sent in order and unchanged, and the consumer leaves every slot alone that it has not
taken from `fullQue`. The first step against this rule lets the consumer free the producer's block
or null its pointer.
-/

open Transition

namespace OsaBase

variable {bufNum : ℕ} {s s' : SlotState} {l : SlotLabel}

theorem SlotInv.step (hs : SlotInv bufNum s) (hok : SlotOk s l)
    (hstep : slotStep bufNum s l = some s') : SlotInv bufNum s' := by
  cases l with
  | fill f =>
      simp only [slotStep] at hstep
      split at hstep
      · next hpc =>
        split at hstep
        · cases hstep
          exact hs
        · cases hstep
          apply hs.moves
          · refine ⟨rfl, rfl, rfl, Or.inl ?_, fun _ ↦ id⟩
            simp only [SlotState.places, hpc]
            rfl
          · exact hs.emptyRep
          · exact hs.fullRep
          · exact hs.cleanup
          · trivial
          · exact hs.contents
      · cases hstep
  | producer addr =>
      rcases fill_cases hs.queues hstep with ⟨-, heffect⟩ | ⟨f, i, a, -, hpc, hfree, rfl⟩
      · exact hs.fill hok heffect
      · exact hs.alloc hpc hfree
  | consumer es => exact (hs.consume (consumerEffect hs.queues hstep)).2

/-- Frames are sent in the order in which they were enqueued, with header and data as they were
enqueued, and the service loop leaves the slots in custody alone. -/
def StreamLaw (bufNum : ℕ) (s : SlotState) : Prop :=
  s.sent <+: s.enqueued.map StreamFrame.pair ∧
    ∀ es s', slotStep bufNum s (.consumer es) = some s' → KeepsOff s s'

theorem SlotInv.law (hs : SlotInv bufNum s) : StreamLaw bufNum s := by
  constructor
  · obtain ⟨done, hand, waiting, henq, hsent, -, -⟩ := hs.contents
    rw [henq, hsent, List.append_assoc, List.map_append]
    exact List.prefix_append _ _
  · exact fun es s' hstep ↦ (hs.consume (consumerEffect hs.queues hstep)).1

theorem slotStart_inv {hndl : OsaBufHndl} (h : hndl.Fresh bufNum) (socket : ℤ) :
    SlotInv bufNum (slotStart hndl socket) := by
  have hall : (slotStart hndl socket).places.all =
      (List.range bufNum).map fun i : ℕ ↦ (i : ℤ) := by
    simp only [Pool.Places.all, SlotState.places, slotStart, h.empty, h.full, ProducerPc.slot,
      ConsumerPc.slot, Option.toList_none, List.append_nil]
  have hnone : ∀ i a, (hndl.bufInfo i).data ≠ some a := by
    intro i a ha
    rw [h.data i] at ha
    cases ha
  constructor
  · exact h.emptyRep
  · exact h.fullRep
  · exact h.numBuf
  · rw [hall]
    intro i hi
    obtain ⟨n, hn, rfl⟩ := List.mem_map.mp hi
    have := List.mem_range.mp hn
    omega
  · rw [hall]
    exact List.nodup_range.map Nat.cast_injective
  · intro i hi
    cases hi
  · exact fun i a ha ↦ (hnone i a ha).elim
  · exact fun i j a ha ↦ (hnone i a ha).elim
  · trivial
  · refine ⟨[], [], [], rfl, rfl, rfl, ?_⟩
    change List.Forall₂ _ hndl.fullQue.items []
    rw [h.full]
    exact .nil

/-- A producer that took a slot too early: the consumer is about to free the slot's block or to
null its pointer. -/
theorem not_law_of_cleanup {bufId : ℤ} (hslot : s.producer.slot = some bufId)
    (hclean : s.consumer.cleanup = some bufId) {a : ℕ}
    (hdata : (s.buf.bufInfo bufId).data = some a)
    (hlive : s.consumer ≠ .null bufId → s.mem a ≠ none) :
    ∃ s', Reach (slotStep bufNum) Always s s' ∧ ¬ StreamLaw bufNum s' := by
  have hfree : ∀ s : SlotState, s.producer.slot = some bufId → s.consumer = .free bufId →
      (s.buf.bufInfo bufId).data = some a → s.mem a ≠ none → ¬ StreamLaw bufNum s := by
    intro s hslot hpc hdata hlive hlaw
    have hkeeps := hlaw.2 ⟨[], []⟩ _ (by
      simp only [slotStep, osaProcessClientStream, hpc, hdata, hlive, if_false]
      rfl) bufId (Or.inl hslot)
    apply hlive
    rw [← hkeeps.2 a hdata]
    exact Function.update_self ..
  cases hpc : s.consumer with
  | test i =>
      obtain rfl : i = bufId := by
        rw [hpc] at hclean
        exact Option.some.inj hclean
      have hlive' := hlive (by rw [hpc]; exact fun h ↦ by cases h)
      refine ⟨{ s with consumer := .free i }, ?_, hfree _ hslot rfl hdata hlive'⟩
      refine .tail (.consumer ⟨[], []⟩) .refl trivial ?_
      simp [slotStep, osaProcessClientStream, hpc, hdata]
  | free i =>
      obtain rfl : i = bufId := by
        rw [hpc] at hclean
        exact Option.some.inj hclean
      exact ⟨s, .refl, hfree s hslot hpc hdata (hlive (by rw [hpc]; exact fun h ↦ by cases h))⟩
  | null i =>
      obtain rfl : i = bufId := by
        rw [hpc] at hclean
        exact Option.some.inj hclean
      refine ⟨s, .refl, fun hlaw ↦ ?_⟩
      have hkeeps := hlaw.2 ⟨[], []⟩ _ (by
        simp only [slotStep, osaProcessClientStream, hpc]
        rfl) i (Or.inl hslot)
      have hsame := congrArg OsaBufInfo.data hkeeps.1
      simp [OsaBufHndl.setSlot, hdata] at hsame
  | getFull | send | putEmpty | left | fault =>
      rw [hpc] at hclean
      cases hclean

/-- The step against the rule: the producer takes the slot that is being cleaned up. -/
theorem SlotInv.takes_cleanup (hs : SlotInv bufNum s) (hstep : slotStep bufNum s l = some s')
    (hbad : ¬ SlotOk s l) :
    ∃ s'', Reach (slotStep bufNum) Always s' s'' ∧ ¬ StreamLaw bufNum s'' := by
  cases l with
  | producer addr =>
      simp only [SlotOk, not_forall, ne_eq, not_not] at hbad
      obtain ⟨hgets, bufId, hclean, hhead⟩ := hbad
      obtain ⟨f, hpc⟩ : ∃ f, s.producer = .getEmpty f := by
        cases hpc : s.producer with
        | getEmpty f => exact ⟨f, rfl⟩
        | idle | copyHead | alloc | copyData | putFull | asserted | fault =>
            rw [hpc] at hgets
            cases hgets
      obtain ⟨hmem, hdata⟩ := hs.cleanup bufId hclean
      obtain ⟨a, ha⟩ := Option.ne_none_iff_exists'.mp hdata
      have hlive := hs.live bufId a ha
      rcases fill_cases hs.queues hstep with ⟨-, heffect⟩ | ⟨f', i, b, -, hpc', -⟩
      · cases heffect with
        | take f' i que hpc' hrep hitems =>
            obtain rfl : i = bufId := by
              rw [hitems] at hhead
              exact Option.some.inj hhead
            exact not_law_of_cleanup rfl hclean ha hlive
        | none f' hpc' hnil =>
            rw [hnil] at hmem
            cases hmem
        | head f' i hpc' | noMem f' i hpc' | dead f' i hpc' | copy f' i b block hpc'
        | give f' i que hpc' => exact ProducerPc.noConfusion (hpc.symm.trans hpc')
      · exact ProducerPc.noConfusion (hpc.symm.trans hpc')
  | fill | consumer => exact (hbad trivial).elim

/-- The law holds in every run in which the producer takes no slot that is being cleaned up, and
any step at which it does can be continued until the law is broken. -/
theorem stream_slots_law_iff {bufNum : ℕ} (hpos : 1 ≤ bufNum)
    (hmax : (bufNum : ℤ) ≤ osaBufNumMax)
    {mem : Bool → Option (Vector ℤ ((bufNum : ℤ) % 2 ^ 32).toNat)} {initStatus : Bool → ℤ}
    {garbage hndl : OsaBufHndl}
    (hcreate : osaBufCreate bufNum mem initStatus garbage = some (osaSok, hndl)) (socket : ℤ) :
    (∀ s, Reach (slotStep bufNum) SlotOk (slotStart hndl socket) s → StreamLaw bufNum s) ∧
      ∀ s l s', Reach (slotStep bufNum) SlotOk (slotStart hndl socket) s →
        slotStep bufNum s l = some s' → ¬ SlotOk s l →
          ∃ s'', Reach (slotStep bufNum) Always s' s'' ∧ ¬ StreamLaw bufNum s'' := by
  have hstart := slotStart_inv (osaBufCreate_fresh hpos hmax hcreate) socket
  have hinv : ∀ s, Reach (slotStep bufNum) SlotOk (slotStart hndl socket) s → SlotInv bufNum s :=
    fun s hs ↦ hs.invariant (I := SlotInv bufNum) hstart fun _ _ _ ha hok hl ↦ ha.step hok hl
  constructor
  · exact fun s hs ↦ (hinv s hs).law
  · exact fun s l s' hs hstep hbad ↦ (hinv s hs).takes_cleanup hstep hbad

/-- A pool of one slot. -/
def oneSlot : OsaBufHndl :=
  ⟨fun _ ↦ ⟨zeroHead, none⟩, ⟨0, 0, 1, 1, [0]⟩, ⟨0, 0, 1, 0, [0]⟩, 1⟩

theorem oneSlot_create : osaBufCreate (1 : ℕ) (fun _ ↦ some (Vector.replicate _ 0))
    (fun _ ↦ osaSok) oneSlot = some (osaSok, oneSlot) := rfl

/-- A frame of one byte. -/
def oneByteFrame (b : UInt8) : StreamFrame where
  head := ⟨List.replicate 20 0 ++ [1, 0, 0, 0] ++ List.replicate 64 0, by decide⟩
  data := [b]
  length_data := by
    change 1 = _
    decide

/-- The producer's steps for one frame, with its block at address 7, and the consumer's up to the
return of the slot. -/
def roundTrip (b : UInt8) : List SlotLabel :=
  [.fill (oneByteFrame b), .producer none, .producer none, .producer (some 7), .producer none,
    .producer none, .consumer ⟨[], []⟩, .consumer ⟨[.writable 88], [.writable 1]⟩,
    .consumer ⟨[], []⟩]

/-- With one slot the producer gets it back before the consumer has freed its block, and the
consumer then frees the block of a slot in custody. -/
theorem stream_slot_freed_in_custody :
    ¬ ∀ s, Reach (slotStep (1 : ℕ)) Always (slotStart oneSlot 5) s → StreamLaw 1 s := by
  intro h
  obtain ⟨s, hs, hp⟩ := Reach.exists_of_exec (slotStep (1 : ℕ)) Always (slotStart oneSlot 5)
    (roundTrip 10 ++ [.fill (oneByteFrame 20), .producer none, .consumer ⟨[], []⟩])
    (fun s ↦ decide (s.producer.slot = some 0 ∧ (s.buf.bufInfo 0).data = some 7 ∧
      s.mem 7 ≠ none) && (slotStep (1 : ℕ) s (.consumer ⟨[], []⟩)).any
        fun s' : SlotState ↦ decide (s'.mem 7 = none)) (by decide)
  obtain ⟨hcustody, hany⟩ := Bool.and_eq_true_iff.mp hp
  obtain ⟨hslot, hdata, hlive⟩ := of_decide_eq_true hcustody
  obtain ⟨s', hstep, hfreed⟩ := (Option.any_eq_true _ _).mp hany
  have hkeeps := (h s hs).2 _ s' hstep 0 (Or.inl hslot)
  exact hlive ((hkeeps.2 7 hdata).symm.trans (of_decide_eq_true hfreed))

/-- The pool of one slot, with a producer that waits for the end of the clean-up and one that does
not. -/
theorem stream_slots_law_one_slot :
    (∃ s, s.sent = [(oneByteFrame 10).pair, (oneByteFrame 20).pair] ∧ StreamLaw 1 s) ∧
      ∃ s' s'', Reach (slotStep (1 : ℕ)) Always s' s'' ∧ ¬ StreamLaw 1 s'' := by
  have hlaw := stream_slots_law_iff le_rfl (by decide) oneSlot_create 5
  constructor
  · obtain ⟨s, hs, hp⟩ := Reach.exists_of_exec (slotStep (1 : ℕ)) SlotOk (slotStart oneSlot 5)
      (roundTrip 10 ++ [.consumer ⟨[], []⟩, .consumer ⟨[], []⟩, .consumer ⟨[], []⟩] ++ roundTrip 20)
      (fun s ↦ s.sent = [(oneByteFrame 10).pair, (oneByteFrame 20).pair]) (by decide)
    exact ⟨s, of_decide_eq_true hp, hlaw.1 s hs⟩
  · obtain ⟨s, hs, hp⟩ := Reach.exists_of_exec (slotStep (1 : ℕ)) SlotOk (slotStart oneSlot 5)
      (roundTrip 10 ++ [.fill (oneByteFrame 20)])
      (fun s ↦ !decide (SlotOk s (.producer none)) &&
        (slotStep (1 : ℕ) s (.producer none)).isSome) (by decide)
    obtain ⟨hbad, hsome⟩ := Bool.and_eq_true_iff.mp hp
    obtain ⟨s', hstep⟩ := Option.isSome_iff_exists.mp hsome
    obtain ⟨s'', hreach, hbroken⟩ := hlaw.2 s _ s' hs hstep (by simpa using hbad)
    exact ⟨s', s'', hreach, hbroken⟩

end OsaBase
