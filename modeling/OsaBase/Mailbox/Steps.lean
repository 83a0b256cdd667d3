import OsaBase.Mailbox.Memory
import OsaBase.Mailbox.Moves

/-!
# The steps of the mailbox functions

Every step under the conditions on the calls either moves a message from one place to the next, or
is one of the four steps that change the memory. No step faults.
-/

open Transition Monitor

namespace OsaBase

variable {M T : Type} {P : MbxSend M → ℕ → Prop} {s s' : MbxState M T} {t : T}

/-! ## All that a step can do -/

inductive MbxEffect (P : MbxSend M → ℕ → Prop) (s : MbxState M T) (t : T) (prms : List ℕ)
    (s' : MbxState M T) : Prop
  | transfer (h : Transfer P s t prms s')
  | alloc (c : MbxSend M) (sent : List SentMsg) (pMbxTo : M) (rest : List M) (x : MsgPtr)
      (h : Writes s t x (some (c.block s.log.allocs pMbxTo)) s')
      (hpc : s.pc t = .alloc c sent pMbxTo rest)
      (hpc' : s'.pc t = .put c sent ⟨x, false, s.log.allocs⟩ pMbxTo rest) (hfree : s.mem x = none)
      (hlog : s'.log = { s.log with
        allocs := s.log.allocs + 1
        carried := s.log.carried ++
          (c.block s.log.allocs pMbxTo).prm.toList.map fun a ↦ (s.log.allocs, a) })
  | answer (x : MsgPtr) (b : MsgBlock M) (v : ℤ) (q : MsgqPtr M) (next : MbxNext M)
      (h : Writes s t x (some { b with status := v }) s') (hpc : s.pc t = .ackOrFree x v next)
      (hpc' : s'.pc t = .sendAck q x next) (hb : s.mem x = some b) (hwaits : b.waitsAck = true)
      (hfrom : b.pFrom = some q)
      (hlog : s'.log = { s.log with acks := s.log.acks ++ [(b.serial, v)] })
  | release (x : MsgPtr) (b : MsgBlock M) (v : ℤ) (next : MbxNext M) (h : Writes s t x none s')
      (hpc : s.pc t = .ackOrFree x v next) (hpc' : s'.pc t = next.pc) (hb : s.mem x = some b)
      (hwaits : b.waitsAck = false)
      (hlog : s'.log = { s.log with
        acks := s.log.acks ++ [(b.serial, v)]
        freed := s.log.freed ++ [b.serial]
        prmFreed := s.log.prmFreed ++ b.prm.toList })
  | collect (x : MsgPtr) (b : MsgBlock M) (rets : List (ℕ × ℤ)) (freed : List ℕ)
      (h : Writes s t x none s') (hheld : (s.pc t).held = some x)
      (hheld' : (s'.pc t).held = none) (hstage : (s'.pc t).Stage P) (hb : s.mem x = some b)
      (hwaits : b.waitsAck = true) (hack : (b.serial, b.status) ∈ s.log.acks)
      (hpendings : (s.pendings t).Perm (x :: s'.pendings t))
      (hsub : ∀ d ∈ (s'.pc t).pending, d ∈ (s.pc t).pending ∧ (s'.pc t).call = (s.pc t).call)
      (hlog : s'.log = { s.log with
        freed := s.log.freed ++ [b.serial]
        returned := s.log.returned ++ rets
        prmFreed := s.log.prmFreed ++ freed })
      (hrets : ∀ r ∈ rets, r ∈ s.log.acks)
      (hprm : (s.pc t).prm.toList = (s'.pc t).prm.toList ++ freed)

theorem MbxNext.pc_facts (next : MbxNext M) :
    next.pc.held = none ∧ next.pc.pending = [] ∧ next.pc.prm = none ∧ next.pc.call = none ∧
      next.pc.Stage P := by
  cases next <;> exact ⟨rfl, rfl, rfl, rfl, trivial⟩

theorem MbxInv.effect (hs : MbxInv P s) {prms : List ℕ} (h : MbxEffect P s t prms s') :
    MbxInv P s' := by
  cases h with
  | transfer h => exact hs.transfer h
  | alloc c sent pMbxTo rest x h hpc hpc' hfree hlog =>
      exact hs.alloc h hpc hpc' hfree (by rw [hlog]) (by rw [hlog]) (by rw [hlog]) (by rw [hlog])
  | answer x b v q next h hpc hpc' hb hwaits hfrom hlog =>
      exact hs.answer h hpc hpc' hb hwaits hfrom hlog
  | release x b v next h hpc hpc' hb hwaits hlog =>
      obtain ⟨hheld', hpending', -, -, hstage⟩ := MbxNext.pc_facts (P := P) next
      have hnot := hs.unanswered (t := t) (by rw [hpc]; rfl) (by rw [hpc]; rfl) hb
      refine hs.free (v := v) h (hpc' ▸ hstage) (by rw [hpc]; rfl) (hpc' ▸ hheld') hb
        (by rw [hlog]) (by rw [hlog]) (Or.inr ⟨hwaits, ?_⟩) ?_ (Or.inr ⟨by rw [hlog], hnot⟩) ?_
      · rw [MbxState.pendings, MbxState.pendings, hpc, hpc', hpending']
        rfl
      · intro d hd
        rw [hpc', hpending'] at hd
        cases hd
      · rw [hlog]
        exact fun r hr ↦ List.mem_append_left _ (hs.returned r hr)
  | collect x b rets freed h hheld hheld' hstage hb hwaits hack hpendings hsub hlog hrets =>
      refine hs.free (v := 0) h hstage hheld hheld' hb (by rw [hlog]) (by rw [hlog])
        (Or.inl ⟨hwaits, hpendings⟩) hsub (Or.inl ⟨by rw [hlog], List.mem_map_of_mem hack⟩) ?_
      rw [hlog]
      intro r hr
      rcases List.mem_append.mp hr with hr | hr
      · exact hs.returned r hr
      · exact hrets r hr

/-! ## The functions, step by step -/

section Marks

variable {x : MsgPtr} {ds : List SentMsg}

def unacked (ds : List SentMsg) : List SentMsg := ds.filter fun d ↦ d.ack == false

/-- A mark changes nothing of an entry but `ackList`. -/
theorem map_markAck {β : Type*} (f : SentMsg → β) (hf : ∀ d, f { d with ack := true } = f d)
    (x : MsgPtr) (ds : List SentMsg) : (markAck x ds).map f = ds.map f := by
  induction ds with
  | nil => rfl
  | cons d ds ih =>
      by_cases hd : x = d.msg
      · simp [markAck, hd, hf]
      · simp [markAck, hd, ih]

theorem map_msg_markAck (x : MsgPtr) (ds : List SentMsg) :
    (markAck x ds).map SentMsg.msg = ds.map SentMsg.msg :=
  map_markAck SentMsg.msg (fun _ ↦ rfl) x ds

theorem mem_unacked_of_markAck {d : SentMsg} (h : d ∈ unacked (markAck x ds)) : d ∈ unacked ds := by
  induction ds with
  | nil => cases h
  | cons e ds ih =>
      by_cases he : x = e.msg
      · simp only [markAck, he, if_true, unacked, List.filter_cons] at h
        exact List.mem_filter.mpr ⟨List.mem_cons_of_mem _ (List.mem_filter.mp h).1,
          (List.mem_filter.mp h).2⟩
      · simp only [markAck, he, if_false, unacked, List.filter_cons] at h ⊢
        split
        · next hack =>
          rw [if_pos hack] at h
          rcases List.mem_cons.mp h with rfl | h
          · exact List.mem_cons_self
          · exact List.mem_cons_of_mem _ (ih h)
        · next hack =>
          rw [if_neg hack] at h
          exact ih h

theorem perm_markAck (hnodup : (ds.map SentMsg.msg).Nodup)
    (hx : x ∈ (unacked ds).map SentMsg.msg) :
    ((unacked ds).map SentMsg.msg).Perm (x :: (unacked (markAck x ds)).map SentMsg.msg) := by
  induction ds with
  | nil => cases hx
  | cons d ds ih =>
      obtain ⟨hnot, hnodup⟩ := List.nodup_cons.mp hnodup
      by_cases hd : x = d.msg
      · subst hd
        have hrest : d.msg ∉ (unacked ds).map SentMsg.msg := by
          intro hmem
          obtain ⟨e, he, heq⟩ := List.mem_map.mp hmem
          exact hnot (heq ▸ List.mem_map_of_mem (List.mem_filter.mp he).1)
        cases hack : d.ack with
        | true =>
            simp only [unacked, List.filter_cons, hack] at hx
            exact (hrest hx).elim
        | false =>
            simp only [unacked, markAck, if_true, List.filter_cons, hack]
            simp
      · have hx : x ∈ (unacked ds).map SentMsg.msg := by
          obtain ⟨e, he, rfl⟩ := List.mem_map.mp hx
          obtain ⟨hmem, hack⟩ := List.mem_filter.mp he
          rcases List.mem_cons.mp hmem with rfl | hmem
          · exact (hd rfl).elim
          · exact List.mem_map_of_mem (List.mem_filter.mpr ⟨hmem, hack⟩)
        have hperm := ih hnodup hx
        simp only [unacked, markAck, hd, if_false, List.filter_cons] at hperm ⊢
        split
        · exact (hperm.cons _).trans (List.Perm.swap _ _ _)
        · exact hperm

end Marks

section Steps

attribute [local simp] MbxPc.held MbxPc.dest MsgqPtr.dest MbxPc.prm MbxPc.pending MbxPc.call
  MbxPc.flushing MbxPc.Stage

variable [DecidableEq T]

theorem Writes.of_pc {x : MsgPtr} {o : Option (MsgBlock M)} {pc : MbxPc M}
    (hmem : s'.mem = Function.update s.mem x o) (hmsgq : s'.msgq = s.msgq)
    (hhands : s'.hands = s.hands) (hpc : s'.pc = Function.update s.pc t pc)
    (hcall : pc.call = none ∨ pc.call = (s.pc t).call)
    (hflush : pc.flushing = none ∨ pc.flushing = (s.pc t).flushing) : Writes s t x o s' := by
  refine ⟨hmem, hmsgq, hhands, fun t' ht ↦ ?_, ?_, ?_⟩
  · rw [hpc, Function.update_of_ne ht]
  · rw [hpc, Function.update_self, MbxPc.mbxFrom, MbxPc.mbxFrom]
    rcases hcall with hnone | hsame
    · rw [hnone]
      exact Or.inl rfl
    · rw [hsame]
      exact Or.inr rfl
  · rwa [hpc, Function.update_self]

theorem sendGot_effect (hs : MbxInv P s) {c : MbxSend M} {d : SentMsg} {x : MsgPtr}
    (hpc : s.pc t = .sendGot c d x)
    (h : (s.osaMbxSendMsgGot t c d x).getD (s.goto t .fault) = s') : MbxEffect P s t [] s' := by
  have hstage := hs.stage t
  rw [hpc] at hstage
  obtain ⟨hack, hwaits, hunacked⟩ := hstage
  obtain ⟨b, d', hb, hd, hdx, hsent, hacked⟩ := hs.got (t := t) (by rw [hpc]; rfl)
    (by rw [hpc]; rfl) hwaits (by rw [hpc]; rfl)
  rw [hpc] at hd
  obtain rfl := List.mem_singleton.mp hd
  subst hdx
  rw [MbxState.osaMbxSendMsgGot, if_pos rfl, hb, Option.bind_some, MbxState.osaMbxFreeMsg_eq hb,
    Option.map_some, Option.getD_some] at h
  subst h
  refine .collect d'.msg b [(d'.serial, b.status)] c.prm.toList ?_ ?_ ?_ ?_ hb ?_
    hacked ?_ ?_ ?_ ?_ ?_
  · exact Writes.of_pc rfl rfl rfl rfl (Or.inl rfl) (Or.inl rfl)
  · rw [hpc]
    rfl
  · simp [MbxPc.held]
  · simp [MbxPc.Stage]
  · rw [hsent.waitsAck, ← hack.waitsAck, hwaits]
  · simp [MbxState.pendings, hpc, MbxPc.pending]
  · simp [MbxPc.pending]
  · simp [hsent.prm]
  · simpa [← hsent.serial] using hacked
  · simp [hpc, MbxPc.prm]

theorem bcastGot_effect (hs : MbxInv P s) {c : MbxSend M} {sent : List SentMsg} {v : ℤ} {x : MsgPtr}
    (hpc : s.pc t = .bcastGot c sent v x)
    (h : (s.osaMbxBroadcastMsgGot t c sent v x).getD (s.goto t .fault) = s') :
    MbxEffect P s t [] s' := by
  have hstage := hs.stage t
  rw [hpc] at hstage
  obtain ⟨hack, hwaits, hnodup⟩ := hstage
  obtain ⟨b, d, hb, hd, rfl, hsent, hacked⟩ := hs.got (t := t) (by rw [hpc]; rfl) (by rw [hpc]; rfl)
    hwaits (by rw [hpc]; rfl)
  rw [hpc] at hd
  have hwaitsb : b.waitsAck = true := by rw [hsent.waitsAck, ← hack.waitsAck, hwaits]
  have hknown : (sent.all fun e ↦ d.msg != e.msg) = false := by
    rw [List.all_eq_false]
    exact ⟨d, (List.mem_filter.mp hd).1, by simp⟩
  have hperm := perm_markAck hnodup (List.mem_map_of_mem hd)
  have hstage' : ∀ ackRetVal, (MbxPc.bcastWait c (markAck d.msg sent) ackRetVal).Stage P := by
    intro ackRetVal
    refine ⟨?_, hwaits, ?_⟩
    · have hlen : (markAck d.msg sent).length = sent.length := by
        rw [← List.length_map (f := SentMsg.msg), map_msg_markAck, List.length_map]
      rwa [hlen]
    · rwa [map_msg_markAck]
  rw [MbxState.osaMbxBroadcastMsgGot, hb, Option.bind_some, hknown] at h
  simp only [MbxState.osaMsgqFreeMsgHndl_eq hb, Bool.false_eq_true, if_false, Option.map_some,
    Option.getD_some, true_and] at h
  split at h
  · subst h
    refine .collect d.msg b [] [] ?_ ?_ ?_ ?_ hb hwaitsb hacked ?_ ?_ ?_ ?_ ?_
    · exact Writes.of_pc rfl rfl rfl rfl (Or.inr (by rw [hpc]; rfl)) (Or.inl rfl)
    · rw [hpc]
      rfl
    · simp [MbxPc.held]
    · rw [MbxState.goto_pc_self]
      exact hstage' _
    · simp only [MbxState.pendings, MbxState.goto_pc_self, hpc, MbxPc.pending]
      exact hperm
    · intro e he
      simp only [MbxState.goto_pc_self, hpc] at he ⊢
      exact ⟨mem_unacked_of_markAck he, rfl⟩
    · simp [MbxState.goto]
    · simp
    · simp [hpc, MbxPc.prm]
  · next hdone =>
    have hnil : unacked (markAck d.msg sent) = [] := by
      rw [unacked, List.filter_eq_nil_iff]
      intro e he hack
      exact hdone (List.any_eq_true.mpr ⟨e, he, hack⟩)
    subst h
    refine .collect d.msg b [] c.prm.toList ?_ ?_ ?_ ?_ hb hwaitsb hacked ?_ ?_ ?_ ?_ ?_
    · exact Writes.of_pc rfl rfl rfl rfl (Or.inl rfl) (Or.inl rfl)
    · rw [hpc]
      rfl
    · simp [MbxPc.held]
    · simp [MbxPc.Stage]
    · rw [hnil] at hperm
      simp only [MbxState.pendings, MbxState.goto_pc_self, hpc, MbxPc.pending]
      exact hperm
    · simp [MbxPc.pending]
    · simp [MbxState.goto, MbxState.freePrm]
    · simp
    · simp [hpc, MbxPc.prm]

theorem ackOrFree_effect (hs : MbxInv P s) {x : MsgPtr} {v : ℤ} {next : MbxNext M}
    (hpc : s.pc t = .ackOrFree x v next)
    (h : (s.osaMbxAckOrFreeMsg t x v next).getD (s.goto t .fault) = s') :
    MbxEffect P s t [] s' := by
  obtain ⟨b, hb⟩ := hs.allocated_of_held (t := t) (x := x) (by rw [hpc]; rfl)
  rw [MbxState.osaMbxAckOrFreeMsg, hb, Option.bind_some] at h
  cases hwaits : b.waitsAck with
  | true =>
      obtain ⟨t', ht'⟩ := (hs.pending.live_iff x).mp ⟨b, hb, hwaits⟩
      obtain ⟨d, hd, rfl⟩ := List.mem_map.mp ht'
      obtain ⟨c, hc⟩ := MbxPc.call_of_pending hd
      have hsent := hs.sentBy t' c d b hc hd hb
      obtain ⟨q, hq⟩ := (hs.stage t').ackMbx_of_pending hc hd
      have hfrom : b.pFrom = some q := hsent.pFrom.trans hq
      have hflag : hasFlag b.flags osaMbxWaitAck = true := hwaits
      simp only [hflag, if_true, hfrom, Option.map_some, Option.getD_some] at h
      subst h
      refine .answer d.msg b v q next ?_ hpc (MbxState.goto_pc_self ..) hb hwaits hfrom rfl
      refine Writes.of_pc ?_ rfl rfl rfl (Or.inl rfl) (Or.inr ?_)
      · rw [← hfrom]
        rfl
      · rw [hpc]
        cases next <;> rfl
  | false =>
      have hflag : hasFlag b.flags osaMbxWaitAck = false := hwaits
      have hb' : ({ s with log := { s.log with acks := s.log.acks ++ [(b.serial, v)] } } :
          MbxState M T).mem x = some b := hb
      simp only [hflag, Bool.false_eq_true, if_false, MbxState.osaMbxFreeMsg_eq hb',
        Option.map_some, Option.getD_some] at h
      subst h
      refine .release x b v next ?_ hpc (MbxState.goto_pc_self ..) hb hwaits rfl
      refine Writes.of_pc rfl rfl rfl rfl (Or.inl (MbxNext.pc_facts (P := P) next).2.2.2.1)
        (Or.inr ?_)
      rw [hpc]
      cases next <;> rfl

/-- What follows the send of a message keeps what is pending and what is to be freed. -/
theorem afterSend_facts {c : MbxSend M} {sent : List SentMsg} {data : SentMsg} {pMbxTo : M}
    {rest : List M} (hstage : (MbxPc.put c sent data pMbxTo rest).Stage P)
    (hnodup : c.waitsAck = true → ((sent ++ [data]).map SentMsg.msg).Nodup) :
    (c.afterSend sent data rest).held = none ∧
      (c.afterSend sent data rest).prm = (MbxPc.put c sent data pMbxTo rest).prm ∧
      (c.afterSend sent data rest).pending = (MbxPc.put c sent data pMbxTo rest).pending ∧
      ((c.afterSend sent data rest).call = none ∨ (c.afterSend sent data rest).call = some c) ∧
      (c.afterSend sent data rest).flushing = none ∧ (c.afterSend sent data rest).Stage P := by
  obtain ⟨⟨hack, hcall⟩, hunacked, honly⟩ := hstage
  cases rest with
  | cons m rest =>
      refine ⟨rfl, ?_, rfl, Or.inr rfl, rfl, ?_⟩
      · simp [MbxSend.afterSend, MbxPc.prm]
      · have hlen : (sent ++ [data]).length + 1 + rest.length =
            sent.length + 1 + (m :: rest).length := by
          simp only [List.length_append, List.length_cons, List.length_nil]
          omega
        refine ⟨⟨hlen ▸ hack, hlen ▸ hcall⟩, hunacked, fun hb ↦ ?_⟩
        cases (honly hb).2
  | nil =>
      cases hwaits : c.waitsAck with
      | false =>
          have hpc : c.afterSend sent data [] = .idle osaSok := by simp [MbxSend.afterSend, hwaits]
          rw [hpc]
          refine ⟨rfl, ?_, ?_, Or.inl rfl, rfl, trivial⟩
          · simp [MbxPc.prm, hwaits]
          · simp [MbxPc.pending, hwaits]
      | true =>
          cases hb : c.broadcast with
          | false =>
              obtain rfl := (honly hb).1
              have hpc : c.afterSend [] data [] = .sendWait c data := by
                simp [MbxSend.afterSend, hwaits, hb]
              rw [hpc]
              refine ⟨rfl, ?_, ?_, Or.inr rfl, rfl, hack, hwaits, hunacked data (by simp)⟩
              · simp [MbxPc.prm, hwaits]
              · simp [MbxPc.pending, hwaits]
          | true =>
              have hpc : c.afterSend sent data [] = .bcastWait c (sent ++ [data]) osaSok := by
                simp [MbxSend.afterSend, hwaits, hb]
              have hfilter : ((sent ++ [data]).filter fun d ↦ d.ack == false) = sent ++ [data] := by
                apply List.filter_eq_self.mpr
                intro d hd
                rw [hunacked d hd]
                rfl
              rw [hpc]
              refine ⟨rfl, ?_, ?_, Or.inr rfl, rfl, ?_, hwaits, hnodup hwaits⟩
              · simp [MbxPc.prm, hwaits]
              · rw [MbxPc.pending, if_pos hwaits]
                exact hfilter
              · simpa using hack

theorem waitCmdGot_effect (hs : MbxInv P s) {m : M} {pMsg : Bool} {cmd : ℕ} {x : MsgPtr}
    (hpc : s.pc t = .waitCmdGot m pMsg cmd x)
    (h : (match s.mem x with
      | none => some (s.goto t .fault)
      | some b =>
        if b.cmd = uint16 cmd then
          if pMsg then
            some { s.goto t (.idle osaSok) with
              hands := Function.update s.hands t (x :: s.hands t) }
          else some (s.goto t (.ackOrFree x osaSok .ret))
        else some (s.goto t (.ackOrFree x osaSok (.waitCmd m pMsg cmd)))) = some s') :
    Transfer P s t [] s' := by
  obtain ⟨b, hb⟩ := hs.allocated_of_held (t := t) (x := x) (by rw [hpc]; rfl)
  have hgoto : ∀ next : MbxNext M, (next = .ret ∨ next = .waitCmd m pMsg cmd) →
      Transfer P s t [] (s.goto t (.ackOrFree x osaSok next)) := by
    rintro next (rfl | rfl)
    all_goals
      apply Transfer.goto hs
      all_goals simp [hpc]
  rw [hb] at h
  simp only at h
  split at h
  · split at h
    · cases h
      exact Transfer.keep hs hpc
    · cases h
      exact hgoto _ (Or.inl rfl)
  · cases h
    exact hgoto _ (Or.inr rfl)

theorem invoke_effect (hs : MbxInv P s) {call : MbxCall M T} {retVal : ℤ}
    (hpc : s.pc t = .idle retVal) (hok : MbxOk s (.invoke t call))
    (hcall : ∀ cn ∈ (MbxLabel.invoke t call).send, P cn.1 cn.2) :
    ∃ prms, Transfer P s t prms (s.invoke t call) ∧
      ∀ a ∈ prms, ∃ cn ∈ (MbxLabel.invoke t call).send, a ∈ cn.1.prm := by
  have hnone : ∀ a ∈ ([] : List ℕ), ∃ cn ∈ (MbxLabel.invoke t call).send, a ∈ cn.1.prm := by
    intro a ha
    cases ha
  cases call with
  | sendMsg pMbxTo pMbxFrom cmd pPrm flags =>
      obtain ⟨hack, hfree⟩ := hok.1 _ rfl
      exact ⟨_, Transfer.begin hs hpc hack (hcall _ rfl) (fun _ ↦ rfl) hfree,
        fun a ha ↦ ⟨_, rfl, Option.mem_toList.mp ha⟩⟩
  | broadcastMsg pMbxToList pMbxFrom cmd pPrm flags =>
      cases pMbxToList with
      | nil =>
          refine ⟨[], ?_, hnone⟩
          apply Transfer.goto hs
          all_goals simp [hpc]
      | cons pMbxTo rest =>
          obtain ⟨hack, hfree⟩ := hok.1 _ rfl
          exact ⟨_, Transfer.begin hs hpc hack (hcall _ rfl) (fun hb ↦ by cases hb) hfree,
            fun a ha ↦ ⟨_, rfl, Option.mem_toList.mp ha⟩⟩
  | ackOrFreeMsg r pMsg ackRetVal =>
      refine ⟨[], ?_, hnone⟩
      cases pMsg with
      | none =>
          apply Transfer.goto hs
          all_goals simp [hpc]
      | some x => exact Transfer.give hs hpc (hok.2 x rfl)
  | flush m =>
      have hfree : ∀ t', (s.pc t').mbxFrom ≠ some m := hok.2
      refine ⟨[], ?_, hnone⟩
      apply Transfer.goto hs
      all_goals simp [hpc, hfree]
  | waitMsg | checkMsg | waitCmd =>
      refine ⟨[], ?_, hnone⟩
      apply Transfer.goto hs
      all_goals simp [hpc]

variable [DecidableEq M]

theorem put_effect (hs : MbxInv P s) {c : MbxSend M} {sent : List SentMsg} {data : SentMsg}
    {pMbxTo : M} {rest : List M} (hpc : s.pc t = .put c sent data pMbxTo rest)
    (h : (s.send (.rcvMbx pMbxTo) data.msg).map (fun s' ↦ s'.goto t (c.afterSend sent data rest)) =
      some s') : Transfer P s t [] s' := by
  obtain ⟨s₁, hsend, rfl⟩ := Option.map_eq_some_iff.mp h
  obtain ⟨hndl, rfl, hrep, hitems⟩ := send_cases hs.rings hsend
  have hnodup : c.waitsAck = true → ((sent ++ [data]).map SentMsg.msg).Nodup := by
    intro hwaits
    have hpend := hs.pending.nodup t
    rwa [MbxState.pendings, hpc, MbxPc.pending, if_pos hwaits] at hpend
  obtain ⟨hheld, hprm, hpending, hcall, hflush, hstage⟩ :=
    afterSend_facts (hpc ▸ hs.stage t) hnodup
  apply Transfer.send hs hrep hitems (by rw [hpc]; rfl) hheld (by rw [hpc]; rfl)
  · rw [hpc, hprm]
  · rw [hpc, hpending]
  · rw [hpc]
    exact hcall
  · exact Or.inl hflush
  · exact hstage

theorem sendAck_effect (hs : MbxInv P s) {q : MsgqPtr M} {x : MsgPtr} {next : MbxNext M}
    (hpc : s.pc t = .sendAck q x next)
    (h : (s.send q x).map (fun s' ↦ s'.goto t next.pc) = some s') : Transfer P s t [] s' := by
  obtain ⟨s₁, hsend, rfl⟩ := Option.map_eq_some_iff.mp h
  obtain ⟨hndl, rfl, hrep, hitems⟩ := send_cases hs.rings hsend
  have hx : x ∈ s.places (.thread t) := by simp [MbxState.places, hpc, MbxPc.held]
  obtain ⟨-, -, -, -, m, -, -, -, rfl, -⟩ := hs.back hx (q := q) (by rw [MbxState.dest, hpc]; rfl)
  obtain ⟨hheld, hpending, hprm, hcall, hstage⟩ := MbxNext.pc_facts (P := P) next
  apply Transfer.send hs hrep hitems (by rw [hpc]; rfl) hheld (by rw [hpc]; rfl)
  · rw [hpc, hprm]
    rfl
  · rw [hpc, hpending]
    rfl
  · exact Or.inl hcall
  · right
    rw [hpc]
    cases next <;> rfl
  · exact hstage

theorem ackWait_effect (hs : MbxInv P s) {c : MbxSend M} (pc : MsgPtr → MbxPc M)
    (hheld : (s.pc t).held = none) (hheld' : ∀ x, (pc x).held = some x)
    (hdest : ∀ x, (pc x).dest = c.ackMbx) (hprm : ∀ x, (pc x).prm = (s.pc t).prm)
    (hpending : ∀ x, (pc x).pending = (s.pc t).pending) (hcall : ∀ x, (pc x).call = (s.pc t).call)
    (hflush : ∀ x, (pc x).flushing = none) (hstage : ∀ x, (pc x).Stage P)
    (h : (c.ackMbx.bind fun q ↦ (s.recvMsg q osaTimeoutForever).bind fun r ↦
      r.2.map fun msg ↦ r.1.goto t (pc msg)) = some s') : Transfer P s t [] s' := by
  obtain ⟨q, hq, h⟩ := Option.bind_eq_some_iff.mp h
  obtain ⟨m, -, rfl⟩ := MbxSend.ackMbx_eq hq
  obtain ⟨r, hr, h⟩ := Option.bind_eq_some_iff.mp h
  rcases recvMsg_cases hs.rings hr with ⟨hndl, x, rfl, hrep, hitems⟩ | ⟨rfl, -⟩
  · cases h
    exact Transfer.recv hs hrep hitems hheld (hheld' x) ((hdest x).trans hq) (hprm x) (hpending x)
      (Or.inr (hcall x)) (Or.inl (hflush x)) (hstage x)
  · cases h

theorem recv_effect (hs : MbxInv P s) {m : M} {timeout : ℕ} {r : MbxState M T × Option MsgPtr}
    (hpc : s.pc t = .recv m timeout) (hr : s.recvMsg (.rcvMbx m) timeout = some r)
    (h : (match r.2 with
      | some msg =>
        { r.1.goto t (.idle osaSok) with hands := Function.update s.hands t (msg :: s.hands t) }
      | none => r.1.goto t (.idle osaEfail)) = s') : Transfer P s t [] s' := by
  rcases recvMsg_cases hs.rings hr with ⟨hndl, x, rfl, hrep, hitems⟩ | ⟨rfl, -⟩
  · subst h
    exact Transfer.take hs hrep hitems hpc
  · subst h
    apply Transfer.goto hs
    all_goals simp [hpc]

theorem waitCmd_effect (hs : MbxInv P s) {m : M} {pMsg : Bool} {cmd : ℕ}
    (hpc : s.pc t = .waitCmd m pMsg cmd)
    (h : ((s.recvMsg (.rcvMbx m) osaTimeoutForever).bind fun r ↦
      r.2.map fun msg ↦ r.1.goto t (.waitCmdGot m pMsg cmd msg)) = some s') :
    Transfer P s t [] s' := by
  obtain ⟨r, hr, h⟩ := Option.bind_eq_some_iff.mp h
  rcases recvMsg_cases hs.rings hr with ⟨hndl, x, rfl, hrep, hitems⟩ | ⟨rfl, -⟩
  · cases h
    apply Transfer.recv hs hrep hitems
    all_goals simp [hpc]
  · cases h

theorem flushRcv_effect (hs : MbxInv P s) {m : M} {r : MbxState M T × Option MsgPtr}
    (hpc : s.pc t = .flushRcv m) (hr : s.recvMsg (.rcvMbx m) osaTimeoutNone = some r)
    (h : (match r.2 with
      | some msg => r.1.goto t (.ackOrFree msg osaSok (.flush m))
      | none => r.1.goto t (.flushAck m)) = s') : Transfer P s t [] s' := by
  rcases recvMsg_cases hs.rings hr with ⟨hndl, x, rfl, hrep, hitems⟩ | ⟨rfl, -⟩
  · subst h
    apply Transfer.recv hs hrep hitems
    all_goals simp [hpc]
  · subst h
    apply Transfer.goto hs
    all_goals simp [hpc]

/-- `OSA_mbxFlush` finds nothing in the `ackMbx`. -/
theorem flushAck_effect (hs : MbxInv P s) {m : M} {r : MbxState M T × Option MsgPtr}
    (hpc : s.pc t = .flushAck m) (hr : s.recvMsg (.ackMbx m) osaTimeoutNone = some r)
    (h : (match r.2 with
      | some msg => r.1.goto t (.flushGot m msg)
      | none => r.1.goto t (.idle osaEfail)) = s') : Transfer P s t [] s' := by
  rcases recvMsg_cases hs.rings hr with ⟨hndl, x, rfl, -, hitems⟩ | ⟨rfl, -⟩
  · have hnil := hs.flushed_nil (t := t) (m := m) (by rw [hpc]; rfl)
    rw [hitems] at hnil
    cases hnil
  · subst h
    apply Transfer.goto hs
    all_goals simp [hpc]

theorem run_effect (hs : MbxInv P s) {addr : MsgPtr} (h : s.run t addr = some s') :
    MbxEffect P s t [] s' := by
  have hstage := hs.stage t
  unfold MbxState.run at h
  cases hpc : s.pc t with
  | idle | fault => simp [hpc] at h
  | alloc c sent pMbxTo rest =>
      simp only [hpc] at h
      split at h
      · next hfree =>
        cases h
        refine .alloc c sent pMbxTo rest addr ?_ hpc (MbxState.goto_pc_self ..) hfree rfl
        exact Writes.of_pc rfl rfl rfl rfl (Or.inr (by rw [hpc]; rfl)) (Or.inl rfl)
      · cases h
  | put c sent data pMbxTo rest =>
      simp only [hpc] at h
      exact .transfer (put_effect hs hpc h)
  | sendWait c d =>
      simp only [hpc] at h
      rw [hpc] at hstage
      refine .transfer (ackWait_effect hs (.sendGot c d) ?_ (fun _ ↦ rfl) (fun _ ↦ rfl) ?_ ?_ ?_
        (fun _ ↦ rfl) (fun _ ↦ hstage) h)
      all_goals simp [hpc]
  | sendGot c d x =>
      simp only [hpc, Option.some.injEq] at h
      exact sendGot_effect hs hpc h
  | bcastWait c sent v =>
      simp only [hpc] at h
      rw [hpc] at hstage
      refine .transfer (ackWait_effect hs (.bcastGot c sent v) ?_ (fun _ ↦ rfl) (fun _ ↦ rfl) ?_
        ?_ ?_ (fun _ ↦ rfl) (fun _ ↦ hstage) h)
      all_goals simp [hpc]
  | bcastGot c sent v x =>
      simp only [hpc, Option.some.injEq] at h
      exact bcastGot_effect hs hpc h
  | recv m timeout =>
      simp only [hpc] at h
      obtain ⟨r, hr, h⟩ := Option.map_eq_some_iff.mp h
      exact .transfer (recv_effect hs hpc hr h)
  | waitCmd m pMsg cmd =>
      simp only [hpc] at h
      exact .transfer (waitCmd_effect hs hpc h)
  | waitCmdGot m pMsg cmd x =>
      simp only [hpc] at h
      exact .transfer (waitCmdGot_effect hs hpc h)
  | ackOrFree x v next =>
      simp only [hpc, Option.some.injEq] at h
      exact ackOrFree_effect hs hpc h
  | sendAck q x next =>
      simp only [hpc] at h
      exact .transfer (sendAck_effect hs hpc h)
  | flushRcv m =>
      simp only [hpc] at h
      obtain ⟨r, hr, h⟩ := Option.map_eq_some_iff.mp h
      exact .transfer (flushRcv_effect hs hpc hr h)
  | flushAck m =>
      simp only [hpc] at h
      obtain ⟨r, hr, h⟩ := Option.map_eq_some_iff.mp h
      exact .transfer (flushAck_effect hs hpc hr h)
  | flushGot m x =>
      rw [hpc] at hstage
      exact hstage.elim

/-- Every step under the conditions on the calls; a parameter to be freed is one of the call that
begins. -/
theorem step_effect (hs : MbxInv P s) {l : MbxLabel M T} (hok : MbxOk s l)
    (hcall : ∀ cn ∈ l.send, P cn.1 cn.2) (h : mbxStep s l = some s') :
    ∃ t prms, MbxEffect P s t prms s' ∧ ∀ a ∈ prms, ∃ cn ∈ l.send, a ∈ cn.1.prm := by
  cases l with
  | invoke t call =>
      simp only [mbxStep] at h
      split at h
      · next hpc =>
        cases h
        obtain ⟨prms, htransfer, hprms⟩ := invoke_effect hs hpc hok hcall
        exact ⟨t, prms, .transfer htransfer, hprms⟩
      · cases h
  | run t addr =>
      refine ⟨t, [], run_effect hs h, fun a ha ↦ ?_⟩
      cases ha

theorem MbxInv.step (hs : MbxInv P s) {l : MbxLabel M T} (hok : MbxOk s l)
    (hcall : ∀ cn ∈ l.send, P cn.1 cn.2) (h : mbxStep s l = some s') : MbxInv P s' := by
  obtain ⟨t, prms, heffect, -⟩ := step_effect hs hok hcall h
  exact hs.effect heffect

end Steps

theorem mbxStart_inv (cells : MsgqPtr M → Vector MsgPtr osaMsgqLenMax) :
    MbxInv P (mbxStart cells : MbxState M T) := by
  have hqueue : ∀ q, ((mbxStart cells : MbxState M T).msgq q).Rep osaMsgqLenMax ∧
      ((mbxStart cells : MbxState M T).msgq q).items = [] := fun q ↦ osaMsgqCreate_rep rfl
  have hplaces : ∀ p, (mbxStart cells : MbxState M T).places p = [] := by
    intro p
    cases p with
    | queue q => exact (hqueue q).2
    | hands r => rfl
    | thread t => rfl
  refine ⟨fun q ↦ (hqueue q).1, ⟨?_, ?_⟩, fun _ ↦ trivial, ?_, ?_, ?_, ?_, ?_, ?_, ?_, ?_, ?_⟩
  · intro t t' m h
    cases h
  · intro t t' m h
    cases h
  · refine .empty hplaces ?_
    rintro x ⟨b, hb⟩
    cases hb
  · refine .empty (fun _ ↦ rfl) ?_
    rintro x ⟨b, hb, -⟩
    cases hb
  · refine .empty (fun p ↦ ?_) (fun n ↦ Nat.not_lt_zero n)
    cases p <;> rfl
  · intro t c d b h
    cases h
  · intro p x b hx
    rw [hplaces p] at hx
    cases hx
  · intro n hn
    cases hn
  · exact List.nodup_nil
  · intro n hn
    cases hn
  · intro r hr
    cases hr

end OsaBase
