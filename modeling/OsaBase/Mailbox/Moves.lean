import OsaBase.Mailbox.Invariant

/-!
# Steps that move a message between mailboxes

A step that leaves the memory alone takes one message from one place to the next, or touches none.
What is pending and what has been answered is not changed by it.
-/

open Transition Monitor

namespace OsaBase

variable {M T : Type} {P : MbxSend M → ℕ → Prop} {s s' : MbxState M T} {t : T}

/-! ## Steps that move a message -/

/-- The memory is as before, and what is on its way back stays so; `prms` is what the thread is to
free from now on. -/
structure Transfer (P : MbxSend M → ℕ → Prop) (s : MbxState M T) (t : T) (prms : List ℕ)
    (s' : MbxState M T) : Prop where
  mem : s'.mem = s.mem
  other : ∀ t', t' ≠ t → s'.pc t' = s.pc t'
  log : s'.log = { s.log with prmSent := s.log.prmSent ++ prms }
  prm : (s'.pc t).prm.toList = (s.pc t).prm.toList ++ prms
  pending : (s'.pc t).pending = (s.pc t).pending
  call : ∀ d ∈ (s'.pc t).pending, (s'.pc t).call = (s.pc t).call
  rings : ∀ q, (s'.msgq q).Rep osaMsgqLenMax
  callers : Callers s'.pc
  stage : (s'.pc t).Stage P
  handles : Ledger.Exact s'.places s.Allocated
  origin : ∀ p x, x ∈ s'.places p → ∃ p', x ∈ s.places p' ∧ s.dest p' = s'.dest p

theorem MbxInv.transfer (hs : MbxInv P s) {prms : List ℕ} (h : Transfer P s t prms s') :
    MbxInv P s' := by
  have hlog := h.log
  refine ⟨h.rings, h.callers, ?_, ?_, ?_, ?_, ?_, ?_, ?_, ?_, ?_, ?_⟩
  · intro t'
    by_cases ht : t' = t
    · subst ht
      exact h.stage
    · rw [h.other t' ht]
      exact hs.stage t'
  · exact h.handles.congr (fun _ ↦ rfl) (fun y ↦ by rw [MbxState.Allocated, h.mem]; rfl)
  · refine hs.pending.congr (fun t' ↦ ?_) (fun y ↦ by rw [MbxState.AwaitsAck, h.mem]; rfl)
    by_cases ht : t' = t
    · subst ht
      rw [MbxState.pendings, h.pending, MbxState.pendings]
    · rw [MbxState.pendings, h.other t' ht, MbxState.pendings]
  · refine hs.serials.congr (fun p ↦ ?_) (fun n ↦ by rw [hlog])
    cases p with
    | allocated a => rw [MbxState.serialPlaces, h.mem, MbxState.serialPlaces]
    | freed => rw [MbxState.serialPlaces, hlog, MbxState.serialPlaces]
  · intro t' c d b hc hd hb
    rw [h.mem] at hb
    by_cases ht : t' = t
    · subst ht
      rw [h.call d hd] at hc
      rw [h.pending] at hd
      exact hs.sentBy t' c d b hc hd hb
    · rw [h.other t' ht] at hc hd
      exact hs.sentBy t' c d b hc hd hb
  · intro p x b hx hb
    rw [h.mem] at hb
    obtain ⟨p', hp', hdest⟩ := h.origin p x hx
    rw [hlog, ← hdest]
    exact hs.answered p' x b hp' hb
  · rw [hlog]
    exact hs.acks_lt
  · rw [hlog]
    exact hs.acks_nodup
  · rw [hlog]
    exact hs.freed_acked
  · rw [hlog]
    exact hs.returned

/-- The queues and hands are as before, and so is the message in the thread's hand. -/
theorem Transfer.kept (hs : MbxInv P s) (hmsgq : s'.msgq = s.msgq) (hhands : s'.hands = s.hands)
    (hmem : s'.mem = s.mem) (hother : ∀ t', t' ≠ t → s'.pc t' = s.pc t')
    (hheld : (s'.pc t).held = (s.pc t).held) (hdest : (s'.pc t).dest = (s.pc t).dest)
    {prms : List ℕ} (hlog : s'.log = { s.log with prmSent := s.log.prmSent ++ prms })
    (hprm : (s'.pc t).prm.toList = (s.pc t).prm.toList ++ prms)
    (hpending : (s'.pc t).pending = (s.pc t).pending)
    (hcall : ∀ d ∈ (s'.pc t).pending, (s'.pc t).call = (s.pc t).call)
    (hcallers : Callers s'.pc) (hstage : (s'.pc t).Stage P) : Transfer P s t prms s' := by
  have hplaces : ∀ p, s'.places p = s.places p := by
    intro p
    cases p with
    | queue q => rw [MbxState.places, hmsgq, MbxState.places]
    | hands r => rw [MbxState.places, hhands, MbxState.places]
    | thread t' =>
        by_cases ht : t' = t
        · subst ht
          rw [MbxState.places, hheld, MbxState.places]
        · rw [MbxState.places, hother t' ht, MbxState.places]
  refine ⟨hmem, hother, hlog, hprm, hpending, hcall, ?_, hcallers, hstage, ?_, ?_⟩
  · rw [hmsgq]
    exact hs.rings
  · exact hs.handles.congr hplaces (fun _ ↦ Iff.rfl)
  · intro p x hx
    refine ⟨p, hplaces p ▸ hx, ?_⟩
    cases p with
    | queue q => rfl
    | hands r => rfl
    | thread t' =>
        by_cases ht : t' = t
        · subst ht
          exact hdest.symm
        · rw [MbxState.dest, MbxState.dest, hother t' ht]

/-- One message goes to a place of the same kind, and the call of the thread goes on or ends. -/
theorem Transfer.moved (hs : MbxInv P s) {x : MsgPtr} {p q : MbxPlace M T}
    (hm : Ledger.Moved s.places s'.places x p q) (hdest : s'.dest q = s.dest p)
    (hheld : ∀ y ∈ (s.pc t).held, y = x) (hmem : s'.mem = s.mem)
    (hother : ∀ t', t' ≠ t → s'.pc t' = s.pc t') (hlog : s'.log = s.log)
    (hprm : (s'.pc t).prm = (s.pc t).prm) (hpending : (s'.pc t).pending = (s.pc t).pending)
    (hcall : (s'.pc t).call = none ∨ (s'.pc t).call = (s.pc t).call)
    (hflush : (s'.pc t).flushing = none ∨ (s'.pc t).flushing = (s.pc t).flushing)
    (hrings : ∀ r, (s'.msgq r).Rep osaMsgqLenMax) (hstage : (s'.pc t).Stage P) :
    Transfer P s t [] s' := by
  refine ⟨hmem, hother, by rw [hlog, List.append_nil], by rw [hprm, List.append_nil], hpending,
    ?_, hrings, ?_, hstage, hs.handles.move hm, ?_⟩
  · intro d hd
    rcases hcall with hnone | hsame
    · obtain ⟨c, hc⟩ := MbxPc.call_of_pending hd
      rw [hnone] at hc
      cases hc
    · exact hsame
  · apply hs.callers.of_le
    · intro t'
      by_cases ht : t' = t
      · subst ht
        rcases hcall with hnone | hsame
        · left
          rw [MbxPc.mbxFrom, hnone]
          rfl
        · right
          rw [MbxPc.mbxFrom, hsame, MbxPc.mbxFrom]
      · exact Or.inr (by rw [hother t' ht])
    · intro t'
      by_cases ht : t' = t
      · subst ht
        exact hflush
      · exact Or.inr (by rw [hother t' ht])
  · intro r y hy
    rcases (hm.mem_iff hs.handles r y).mp hy with ⟨rfl, rfl⟩ | ⟨hne, hy⟩
    · have hy : y ∈ s.places p := hm.taken.mem_iff.mpr (by simp)
      exact ⟨p, hy, hdest.symm⟩
    · refine ⟨r, hy, ?_⟩
      cases r with
      | queue q => rfl
      | hands r => rfl
      | thread t' =>
          have ht : t' ≠ t := by
            rintro rfl
            exact hne (hheld y (Option.mem_toList.mp hy))
          rw [MbxState.dest, MbxState.dest, hother t' ht]

/-- The places that the message neither leaves nor comes to are as before. -/
theorem places_of_ne [DecidableEq T] {msgq : MsgqPtr M → OsaMsgqHndl} {hands : T → List MsgPtr}
    {pc : MbxPc M} {p q : MbxPlace M T}
    (hmsgq : ∀ r, .queue r ≠ p → .queue r ≠ q → msgq r = s.msgq r)
    (hhands : ∀ r, .hands r ≠ p → .hands r ≠ q → hands r = s.hands r)
    (hheld : .thread t ≠ p → .thread t ≠ q → pc.held = (s.pc t).held) (r : MbxPlace M T)
    (hp : r ≠ p) (hq : r ≠ q) :
    ({ s with msgq := msgq, hands := hands }.goto t pc).places r = s.places r := by
  cases r with
  | queue r => exact congrArg RingHndl.items (hmsgq r hp hq)
  | hands r => exact hhands r hp hq
  | thread t' =>
      by_cases ht : t' = t
      · subst ht
        rw [MbxState.places, MbxState.places, MbxState.goto_pc_self, hheld hp hq]
      · rw [MbxState.places, MbxState.places, MbxState.goto_pc_of_ne _ _ ht]

/-- One message goes to another place when the thread goes to `pc`. -/
theorem Transfer.goesTo [DecidableEq T] (hs : MbxInv P s) (msgq : MsgqPtr M → OsaMsgqHndl)
    (hands : T → List MsgPtr) (pc : MbxPc M) {x : MsgPtr} {p q : MbxPlace M T}
    (hm : Ledger.Moved s.places ({ s with msgq := msgq, hands := hands }.goto t pc).places x p q)
    (hdest : ({ s with msgq := msgq, hands := hands }.goto t pc).dest q = s.dest p)
    (hheld : ∀ y ∈ (s.pc t).held, y = x) (hprm : pc.prm = (s.pc t).prm)
    (hpending : pc.pending = (s.pc t).pending)
    (hcall : pc.call = none ∨ pc.call = (s.pc t).call)
    (hflush : pc.flushing = none ∨ pc.flushing = (s.pc t).flushing)
    (hrings : ∀ r, (msgq r).Rep osaMsgqLenMax) (hstage : pc.Stage P) :
    Transfer P s t [] ({ s with msgq := msgq, hands := hands }.goto t pc) := by
  apply Transfer.moved hs hm hdest hheld
  · rfl
  · exact fun t' ht ↦ MbxState.goto_pc_of_ne _ pc ht
  · rfl
  · simpa using hprm
  · simpa using hpending
  · simpa using hcall
  · simpa using hflush
  · exact hrings
  · simpa using hstage

/-! ## Queue functions -/

section Queues

variable [DecidableEq M] {q : MsgqPtr M} {x : MsgPtr} {hndl : OsaMsgqHndl}
  {pc : MbxPc M}

theorem send_cases (hrings : ∀ q, (s.msgq q).Rep osaMsgqLenMax) (h : s.send q x = some s') :
    ∃ hndl : OsaMsgqHndl, s' = { s with msgq := Function.update s.msgq q hndl } ∧
      hndl.Rep osaMsgqLenMax ∧ hndl.items = (s.msgq q).items ++ [x] := by
  unfold MbxState.send osaMsgqSend RingHndl.putPass at h
  by_cases hroom : (s.msgq q).count < (s.msgq q).len
  · simp only [hroom, if_true, Option.some.injEq] at h
    exact ⟨_, h.symm, ⟨(hrings q).wf.push hroom x, (hrings q).len_eq⟩,
      (hrings q).wf.items_push hroom x⟩
  · simp [hroom, osaTimeoutForever, osaTimeoutNone] at h

theorem recvMsg_cases (hrings : ∀ q, (s.msgq q).Rep osaMsgqLenMax) {timeout : ℕ}
    {r : MbxState M T × Option MsgPtr} (h : s.recvMsg q timeout = some r) :
    (∃ (hndl : OsaMsgqHndl) (x : MsgPtr),
      r = ({ s with msgq := Function.update s.msgq q hndl }, some x) ∧
        hndl.Rep osaMsgqLenMax ∧ (s.msgq q).items = x :: hndl.items) ∨
      (r = (s, none) ∧ timeout = osaTimeoutNone) := by
  unfold MbxState.recvMsg osaMsgqRecvMsg RingHndl.getPass at h
  by_cases hsome : 0 < (s.msgq q).count
  · simp only [hsome, if_true, Option.some.injEq] at h
    exact Or.inl ⟨_, _, h.symm, ⟨(hrings q).wf.pop hsome, (hrings q).len_eq⟩,
      (hrings q).wf.items_pop hsome⟩
  · by_cases ht : timeout = osaTimeoutNone
    · simp only [hsome, if_false, ht, if_true, Function.update_eq_self, osaEfail_ne_osaSok,
        Option.some.injEq] at h
      exact Or.inr ⟨h.symm, ht⟩
    · simp [hsome, ht] at h

theorem rings_update (hrings : ∀ q, (s.msgq q).Rep osaMsgqLenMax) (hrep : hndl.Rep osaMsgqLenMax)
    (r : MsgqPtr M) :
    (Function.update s.msgq q hndl r).Rep osaMsgqLenMax := by
  by_cases hr : r = q
  · subst hr
    rwa [Function.update_self]
  · rw [Function.update_of_ne hr]
    exact hrings r

variable [DecidableEq T]

/-- A message leaves the thread's hand for a queue. -/
theorem Transfer.send (hs : MbxInv P s) (hrep : hndl.Rep osaMsgqLenMax)
    (hitems : hndl.items = (s.msgq q).items ++ [x]) (hheld : (s.pc t).held = some x)
    (hheld' : pc.held = none) (hdest : q.dest = (s.pc t).dest) (hprm : pc.prm = (s.pc t).prm)
    (hpending : pc.pending = (s.pc t).pending)
    (hcall : pc.call = none ∨ pc.call = (s.pc t).call)
    (hflush : pc.flushing = none ∨ pc.flushing = (s.pc t).flushing) (hstage : pc.Stage P) :
    Transfer P s t [] ({ s with msgq := Function.update s.msgq q hndl }.goto t pc) := by
  apply Transfer.goesTo hs (Function.update s.msgq q hndl) s.hands pc (x := x) (p := .thread t)
    (q := .queue q) ?_ hdest ?_ hprm hpending
    hcall hflush (rings_update hs.rings hrep) hstage
  · refine ⟨by simp, ?_, ?_, places_of_ne (fun r _ hr ↦ ?_) (fun _ _ _ ↦ rfl)
      fun ht ↦ (ht rfl).elim⟩
    · simp [MbxState.places, hheld, hheld']
    · simp only [MbxState.places, MbxState.goto, Function.update_self, hitems]
      exact List.perm_append_singleton _ _
    · exact Function.update_of_ne (mt (congrArg MbxPlace.queue) hr) _ _
  · intro y hy
    rw [hheld] at hy
    exact (Option.some.inj hy).symm

/-- A message leaves a queue for the thread's hand. -/
theorem Transfer.recv (hs : MbxInv P s) (hrep : hndl.Rep osaMsgqLenMax)
    (hitems : (s.msgq q).items = x :: hndl.items) (hheld : (s.pc t).held = none)
    (hheld' : pc.held = some x) (hdest : pc.dest = q.dest) (hprm : pc.prm = (s.pc t).prm)
    (hpending : pc.pending = (s.pc t).pending)
    (hcall : pc.call = none ∨ pc.call = (s.pc t).call)
    (hflush : pc.flushing = none ∨ pc.flushing = (s.pc t).flushing) (hstage : pc.Stage P) :
    Transfer P s t [] ({ s with msgq := Function.update s.msgq q hndl }.goto t pc) := by
  apply Transfer.goesTo hs (Function.update s.msgq q hndl) s.hands pc (x := x) (p := .queue q)
    (q := .thread t) ?_ ?_ ?_ hprm hpending
    hcall hflush (rings_update hs.rings hrep) hstage
  · refine ⟨by simp, ?_, ?_, places_of_ne (fun r hr _ ↦ ?_) (fun _ _ _ ↦ rfl)
      fun _ ht ↦ (ht rfl).elim⟩
    · simp [MbxState.places, MbxState.goto, hitems]
    · simp [MbxState.places, hheld, hheld']
    · exact Function.update_of_ne (mt (congrArg MbxPlace.queue) hr) _ _
  · simpa [MbxState.dest] using hdest
  · intro y hy
    rw [hheld] at hy
    cases hy

/-- A message leaves a receive queue for the hands of the caller. -/
theorem Transfer.take (hs : MbxInv P s) {m : M} {timeout : ℕ} {retVal : ℤ}
    (hrep : hndl.Rep osaMsgqLenMax) (hitems : (s.msgq (.rcvMbx m)).items = x :: hndl.items)
    (hpc : s.pc t = .recv m timeout) :
    Transfer P s t []
      { { s with msgq := Function.update s.msgq (.rcvMbx m) hndl }.goto t (.idle retVal) with
        hands := Function.update s.hands t (x :: s.hands t) } := by
  apply Transfer.goesTo hs (Function.update s.msgq (.rcvMbx m) hndl)
    (Function.update s.hands t (x :: s.hands t)) (.idle retVal) (x := x) (p := .queue (.rcvMbx m))
    (q := .hands t)
  · refine ⟨by simp, ?_, ?_, places_of_ne (fun r hr _ ↦ ?_) (fun r _ hr ↦ ?_) fun _ _ ↦ ?_⟩
    · simp [MbxState.places, MbxState.goto, hitems]
    · simp [MbxState.places, MbxState.goto]
    · exact Function.update_of_ne (mt (congrArg MbxPlace.queue) hr) _ _
    · exact Function.update_of_ne (mt (congrArg MbxPlace.hands) hr) _ _
    · rw [hpc]
      rfl
  · rfl
  · intro y hy
    rw [hpc] at hy
    cases hy
  · rw [hpc]
    rfl
  · rw [hpc]
    rfl
  · exact Or.inl rfl
  · exact Or.inl rfl
  · exact rings_update hs.rings hrep
  · trivial

end Queues

section Hands

variable [DecidableEq T] {x : MsgPtr}

/-- `OSA_mbxWaitCmd` returns the message it waited for. -/
theorem Transfer.keep (hs : MbxInv P s) {m : M} {pMsg : Bool} {cmd : ℕ} {retVal : ℤ}
    (hpc : s.pc t = .waitCmdGot m pMsg cmd x) :
    Transfer P s t [] { s.goto t (.idle retVal) with
      hands := Function.update s.hands t (x :: s.hands t) } := by
  apply Transfer.goesTo hs s.msgq (Function.update s.hands t (x :: s.hands t)) (.idle retVal)
    (x := x) (p := .thread t) (q := .hands t)
  · refine ⟨by simp, ?_, ?_, places_of_ne (fun _ _ _ ↦ rfl) (fun r _ hr ↦ ?_)
      fun ht ↦ (ht rfl).elim⟩
    · simp [MbxState.places, hpc, MbxPc.held]
    · simp [MbxState.places, MbxState.goto]
    · exact Function.update_of_ne (mt (congrArg MbxPlace.hands) hr) _ _
  · rw [MbxState.dest, MbxState.dest, hpc]
    rfl
  · intro y hy
    rw [hpc] at hy
    exact (Option.some.inj hy).symm
  · rw [hpc]
    rfl
  · rw [hpc]
    rfl
  · exact Or.inl rfl
  · exact Or.inl rfl
  · exact hs.rings
  · trivial

/-- A message in someone's hands is passed to `OSA_mbxAckOrFreeMsg`. -/
theorem Transfer.give (hs : MbxInv P s) {r : T} {retVal ackRetVal : ℤ}
    (hpc : s.pc t = .idle retVal) (hx : x ∈ s.hands r) :
    Transfer P s t [] { s.goto t (.ackOrFree x ackRetVal .ret) with
      hands := Function.update s.hands r ((s.hands r).erase x) } := by
  apply Transfer.goesTo hs s.msgq (Function.update s.hands r ((s.hands r).erase x))
    (.ackOrFree x ackRetVal .ret) (x := x) (p := .hands r) (q := .thread t)
  · refine ⟨by simp, ?_, ?_, places_of_ne (fun _ _ _ ↦ rfl) (fun r' hr _ ↦ ?_)
      fun _ ht ↦ (ht rfl).elim⟩
    · simp only [MbxState.places, MbxState.goto, Function.update_self]
      exact List.perm_cons_erase hx
    · simp [MbxState.places, hpc, MbxPc.held]
    · exact Function.update_of_ne (mt (congrArg MbxPlace.hands) hr) _ _
  · simp only [MbxState.dest, MbxState.goto_pc_self]
    rfl
  · intro y hy
    rw [hpc] at hy
    cases hy
  · rw [hpc]
    rfl
  · rw [hpc]
    rfl
  · exact Or.inl rfl
  · exact Or.inl rfl
  · exact hs.rings
  · trivial

/-- The thread goes on without touching a message. -/
theorem Transfer.goto (hs : MbxInv P s) {pc : MbxPc M} (hheld : pc.held = (s.pc t).held)
    (hdest : pc.dest = (s.pc t).dest) (hprm : pc.prm = (s.pc t).prm)
    (hpending : pc.pending = (s.pc t).pending) (hcall : pc.call = (s.pc t).call)
    (hflush : ∀ m, pc.flushing = some m → (s.pc t).flushing = some m ∨
      ∀ t', (s.pc t').mbxFrom ≠ some m) (hstage : pc.Stage P) :
    Transfer P s t [] (s.goto t pc) := by
  apply Transfer.kept hs
  · rfl
  · rfl
  · rfl
  · exact fun t' ht ↦ MbxState.goto_pc_of_ne s pc ht
  · simpa using hheld
  · simpa using hdest
  · simp [MbxState.goto]
  · simp [hprm]
  · simpa using hpending
  · simpa using fun _ _ ↦ hcall
  · have hfrom : ∀ t', ((s.goto t pc).pc t').mbxFrom = (s.pc t').mbxFrom := by
      intro t'
      by_cases ht : t' = t
      · subst ht
        rw [MbxState.goto_pc_self, MbxPc.mbxFrom, hcall, MbxPc.mbxFrom]
      · rw [MbxState.goto_pc_of_ne _ _ ht]
    constructor
    · intro t₁ t₂ m h₁ h₂
      rw [hfrom] at h₁ h₂
      exact hs.callers.one t₁ t₂ m h₁ h₂
    · intro t₁ t₂ m h₁ h₂
      rw [hfrom] at h₁
      by_cases ht : t₂ = t
      · subst ht
        rw [MbxState.goto_pc_self] at h₂
        rcases hflush m h₂ with hold | hfree
        · exact hs.callers.notFlushed t₁ t₂ m h₁ hold
        · exact hfree t₁ h₁
      · rw [MbxState.goto_pc_of_ne _ _ ht] at h₂
        exact hs.callers.notFlushed t₁ t₂ m h₁ h₂
  · simpa using hstage

/-- A send or a broadcast begins. -/
theorem Transfer.begin (hs : MbxInv P s) {c : MbxSend M} {pMbxTo : M} {rest : List M}
    {retVal : ℤ} (hpc : s.pc t = .idle retVal)
    (hack : AckCall c (rest.length + 1)) (hcall : P c (rest.length + 1))
    (honly : c.broadcast = false → rest = []) (hfree : ∀ m ∈ c.pMbxFrom, s.Free m) :
    Transfer P s t c.prm.toList { s.goto t (.alloc c [] pMbxTo rest) with
      log := { s.log with prmSent := s.log.prmSent ++ c.prm.toList } } := by
  apply Transfer.kept hs
  · rfl
  · rfl
  · rfl
  · exact fun t' ht ↦ MbxState.goto_pc_of_ne s _ ht
  · simp only [MbxState.goto_pc_self, hpc]
    rfl
  · simp only [MbxState.goto_pc_self, hpc]
    rfl
  · rfl
  · simp [hpc, MbxPc.prm]
  · simp [hpc, MbxPc.pending]
  · simp [MbxPc.pending]
  · have hold : ∀ t' m, (s.pc t').mbxFrom = some m → ∀ m', c.pMbxFrom = some m' → m' ≠ m := by
      rintro t' m hm m' hm' rfl
      exact (hfree m' hm' t').1 hm
    have hfrom : ∀ t' m, ((s.goto t (.alloc c [] pMbxTo rest)).pc t').mbxFrom = some m →
        (t' = t ∧ c.pMbxFrom = some m) ∨ (t' ≠ t ∧ (s.pc t').mbxFrom = some m) := by
      intro t' m hm
      by_cases ht : t' = t
      · subst ht
        rw [MbxState.goto_pc_self] at hm
        exact Or.inl ⟨rfl, hm⟩
      · rw [MbxState.goto_pc_of_ne _ _ ht] at hm
        exact Or.inr ⟨ht, hm⟩
    constructor
    · intro t₁ t₂ m h₁ h₂
      rcases hfrom t₁ m h₁ with ⟨rfl, hm₁⟩ | ⟨-, hm₁⟩
      · rcases hfrom t₂ m h₂ with ⟨rfl, -⟩ | ⟨-, hm₂⟩
        · rfl
        · exact (hold t₂ m hm₂ m hm₁ rfl).elim
      · rcases hfrom t₂ m h₂ with ⟨rfl, hm₂⟩ | ⟨-, hm₂⟩
        · exact (hold t₁ m hm₁ m hm₂ rfl).elim
        · exact hs.callers.one t₁ t₂ m hm₁ hm₂
    · intro t₁ t₂ m h₁ h₂
      have hflush : (s.pc t₂).flushing = some m := by
        by_cases ht : t₂ = t
        · subst ht
          rw [MbxState.goto_pc_self] at h₂
          cases h₂
        · rwa [MbxState.goto_pc_of_ne _ _ ht] at h₂
      rcases hfrom t₁ m h₁ with ⟨-, hm⟩ | ⟨-, hm⟩
      · exact (hfree m hm t₂).2 hflush
      · exact hs.callers.notFlushed t₁ t₂ m hm hflush
  · simp only [MbxState.goto_pc_self]
    have hlen : ([] : List SentMsg).length + 1 + rest.length = rest.length + 1 := by
      simp [Nat.add_comm]
    exact ⟨⟨hlen ▸ hack, hlen ▸ hcall⟩, by simp, fun hb ↦ ⟨rfl, honly hb⟩⟩

end Hands

end OsaBase
