import OsaBase.Mailbox.Acks

/-!
# Every message and every parameter is freed once

A fourth ledger holds the parameters that are to be freed: the call frees its parameter while it is
to wait for ACKs or has not sent the message yet, else the message does. With it every handle that
was allocated is in one place or was freed once, and so is every parameter, after the last of its
receivers has answered.
-/

open Transition

namespace OsaBase

variable {M T : Type} {P : MbxSend M → ℕ → Prop} {s s' : MbxState M T} {t : T}

/-! ## The conditions on the calls -/

/-- A call has a target, and a parameter that it frees goes to more than one only with an ACK. -/
def LedgerCall (c : MbxSend M) (numMsg : ℕ) : Prop :=
  1 ≤ numMsg ∧ (hasFlag c.flags osaMbxFreePrm = true → 1 < numMsg →
    hasFlag c.flags osaMbxWaitAck = true)

/-- Besides the conditions for the ACKs: every parameter to be freed is a new block. -/
def LedgerOk (s : MbxState M T) (l : MbxLabel M T) : Prop :=
  MbxOk s l ∧ ∀ cn ∈ l.send, LedgerCall cn.1 cn.2 ∧ ∀ a ∈ cn.1.prm, a ∉ s.log.prmSent

instance (c : MbxSend M) (numMsg : ℕ) : Decidable (LedgerCall c numMsg) :=
  inferInstanceAs (Decidable (_ ∧ _))

instance [DecidableEq M] [Fintype T] (s : MbxState M T) (l : MbxLabel M T) :
    Decidable (LedgerOk s l) := inferInstanceAs (Decidable (_ ∧ _))

/-! ## Who frees a parameter -/

inductive PrmPlace (T : Type)
  | caller (t : T)
  | message (x : MsgPtr)
  | freed

/-- The parameter that is freed with the message, and not by the call that waits for its ACK. -/
def MsgBlock.owned (b : MsgBlock M) : Option ℕ := if b.waitsAck then none else b.prm

def MbxState.prmPlaces (s : MbxState M T) : PrmPlace T → List ℕ
  | .caller t => (s.pc t).prm.toList
  | .message x => ((s.mem x).bind MsgBlock.owned).toList
  | .freed => s.log.prmFreed

structure PrmInv (s : MbxState M T) : Prop where
  exact : Ledger.Exact s.prmPlaces (· ∈ s.log.prmSent)
  carried : ∀ n a, (n, a) ∈ s.log.carried →
    n ∈ s.log.freed ∨ ∃ x b, s.mem x = some b ∧ b.serial = n ∧ b.prm = some a

/-- A parameter comes to a list of at most one, or the list stays. -/
theorem toList_append {o o' : Option ℕ} {l : List ℕ} (h : o'.toList = o.toList ++ l) :
    (l = [] ∧ o' = o) ∨ ∃ a, l = [a] ∧ o = none ∧ o' = some a := by
  cases o with
  | none =>
      cases o' with
      | none => exact Or.inl ⟨h.symm, rfl⟩
      | some a => exact Or.inr ⟨a, h.symm, rfl, rfl⟩
  | some b =>
      cases o' with
      | none => cases h
      | some a =>
          simp only [Option.toList_some, List.singleton_append, List.cons.injEq] at h
          exact Or.inl ⟨h.2.symm, by rw [h.1]⟩

/-- A parameter that goes with the message goes with the only one. -/
theorem LedgerCall.le_one {c : MbxSend M} {n : ℕ} (h : LedgerCall c n) (hack : AckCall c n) {a : ℕ}
    (ha : c.prm = some a) (hwaits : c.waitsAck = false) : n ≤ 1 := by
  have hflag : hasFlag c.flags osaMbxFreePrm = true := by
    by_contra hno
    simp [MbxSend.prm, hno] at ha
  by_contra hlt
  have hwait := h.2 hflag (by omega)
  rw [← hack.waitsAck, hwaits] at hwait
  cases hwait

theorem MbxPc.prm_of_pending {pc : MbxPc M} {c : MbxSend M} {d : SentMsg} (hc : pc.call = some c)
    (hd : d ∈ pc.pending) : pc.prm = c.prm := by
  cases pc with
  | alloc c' | put c' =>
      obtain rfl : c' = c := Option.some.inj hc
      cases hwaits : c'.waitsAck with
      | false => simp [MbxPc.pending, hwaits] at hd
      | true => simp [MbxPc.prm, hwaits]
  | sendWait c' | sendGot c' | bcastWait c' | bcastGot c' =>
      obtain rfl : c' = c := Option.some.inj hc
      rfl
  | idle | recv | waitCmd | waitCmdGot | ackOrFree | sendAck | flushRcv | flushAck | flushGot
  | fault => cases hc

/-- A call that has a message to allocate has not given its parameter away. -/
theorem prm_of_alloc {c : MbxSend M} {sent : List SentMsg} {pMbxTo : M} {rest : List M} {a : ℕ}
    (hstage : (MbxPc.alloc c sent pMbxTo rest).Stage LedgerCall) (ha : c.prm = some a) :
    (MbxPc.alloc c sent pMbxTo rest).prm = some a := by
  cases hwaits : c.waitsAck with
  | true => simp [MbxPc.prm, hwaits, ha]
  | false =>
      have hle := hstage.1.2.le_one hstage.1.1 ha hwaits
      have hnil : sent = [] := List.length_eq_zero_iff.mp (by omega)
      simp [MbxPc.prm, hnil, ha]

namespace Writes

variable {x : MsgPtr} {o : Option (MsgBlock M)}

/-- The parameters of other calls and other messages stay where they are. -/
theorem prmPlaces (h : Writes s t x o s') (p : PrmPlace T) (hcaller : p ≠ .caller t)
    (hmessage : p ≠ .message x) (hfreed : p ≠ .freed) : s'.prmPlaces p = s.prmPlaces p := by
  cases p with
  | caller t' =>
      have ht : t' ≠ t := fun heq ↦ hcaller (heq ▸ rfl)
      rw [MbxState.prmPlaces, h.other t' ht, MbxState.prmPlaces]
  | message y =>
      have hy : y ≠ x := fun heq ↦ hmessage (heq ▸ rfl)
      rw [MbxState.prmPlaces, h.mem_of_ne hy, MbxState.prmPlaces]
  | freed => exact (hfreed rfl).elim

/-- What messages carried before the step is carried after it, or the message was freed. -/
theorem carried (h : Writes s t x o s') (hp : PrmInv s)
    (hfreed : ∀ n ∈ s.log.freed, n ∈ s'.log.freed)
    (hx : ∀ b a, s.mem x = some b → b.prm = some a →
      b.serial ∈ s'.log.freed ∨ ∃ b', o = some b' ∧ b'.serial = b.serial ∧ b'.prm = some a)
    (n a : ℕ) (hna : (n, a) ∈ s.log.carried) :
    n ∈ s'.log.freed ∨ ∃ y b, s'.mem y = some b ∧ b.serial = n ∧ b.prm = some a := by
  rcases hp.carried n a hna with hgone | ⟨y, b, hb, rfl, ha⟩
  · exact Or.inl (hfreed n hgone)
  · by_cases hy : y = x
    · subst hy
      rcases hx b a hb ha with hgone | ⟨b', hb', hn, ha'⟩
      · exact Or.inl hgone
      · exact Or.inr ⟨y, b', h.mem_self.trans hb', hn, ha'⟩
    · exact Or.inr ⟨y, b, (h.mem_of_ne hy).trans hb, rfl, ha⟩

end Writes

/-! ## The steps -/

theorem PrmInv.transfer (hp : PrmInv s) {prms : List ℕ} (h : Transfer P s t prms s')
    (hfresh : ∀ a ∈ prms, a ∉ s.log.prmSent) : PrmInv s' := by
  have hlog := h.log
  have hsame : ∀ p, p ≠ .caller t → s'.prmPlaces p = s.prmPlaces p := by
    intro p hne
    cases p with
    | caller t' =>
        have ht : t' ≠ t := fun heq ↦ hne (heq ▸ rfl)
        rw [MbxState.prmPlaces, h.other t' ht, MbxState.prmPlaces]
    | message x => rw [MbxState.prmPlaces, h.mem, MbxState.prmPlaces]
    | freed => rw [MbxState.prmPlaces, hlog, MbxState.prmPlaces]
  constructor
  · rcases toList_append h.prm with ⟨rfl, heq⟩ | ⟨a, rfl, hnone, hsome⟩
    · refine hp.exact.congr (fun p ↦ ?_) (fun a ↦ by rw [hlog, List.append_nil])
      by_cases hne : p = .caller t
      · rw [hne, MbxState.prmPlaces, heq, MbxState.prmPlaces]
      · exact hsame p hne
    · have hnew : a ∉ s.log.prmSent := hfresh a (by simp)
      refine hp.exact.insert (p := .caller t) hnew ?_ hsame (fun b ↦ ?_)
      · simp [MbxState.prmPlaces, hnone, hsome]
      · rw [hlog, List.mem_append, List.mem_singleton, or_comm]
  · rw [hlog, h.mem]
    exact hp.carried

/-- The parameter goes with the message, unless the call waits for the ACKs. -/
theorem PrmInv.alloc (hp : PrmInv s) {c : MbxSend M} {sent : List SentMsg} {pMbxTo : M}
    {rest : List M} {x : MsgPtr} (h : Writes s t x (some (c.block s.log.allocs pMbxTo)) s')
    (hstage : (MbxPc.alloc c sent pMbxTo rest).Stage LedgerCall)
    (hpc : s.pc t = .alloc c sent pMbxTo rest)
    (hpc' : s'.pc t = .put c sent ⟨x, false, s.log.allocs⟩ pMbxTo rest) (hfree : s.mem x = none)
    (hsent : s'.log.prmSent = s.log.prmSent) (hfreed : s'.log.freed = s.log.freed)
    (hprmFreed : s'.log.prmFreed = s.log.prmFreed)
    (hcarried : s'.log.carried = s.log.carried ++
      (c.block s.log.allocs pMbxTo).prm.toList.map fun a ↦ (s.log.allocs, a)) : PrmInv s' := by
  have hwaits := MbxSend.waitsAck_block hstage.1.1 s.log.allocs pMbxTo
  have hprm := (c.block_sentBy s.log.allocs pMbxTo x).prm
  have hsame : ∀ p, p ≠ .caller t → p ≠ .message x → s'.prmPlaces p = s.prmPlaces p := by
    intro p hc hm
    by_cases hf : p = .freed
    · rw [hf, MbxState.prmPlaces, hprmFreed, MbxState.prmPlaces]
    · exact h.prmPlaces p hc hm hf
  have hmessage : s.prmPlaces (.message x) = [] := by
    rw [MbxState.prmPlaces, hfree]
    rfl
  have hmessage' : s'.prmPlaces (.message x) = (c.block s.log.allocs pMbxTo).owned.toList := by
    rw [MbxState.prmPlaces, h.mem_self]
    rfl
  constructor
  · by_cases hmoves : c.waitsAck = false ∧ ∃ a, c.prm = some a
    · obtain ⟨hw, a, ha⟩ := hmoves
      have hold : (s.pc t).prm = some a := by
        rw [hpc]
        exact prm_of_alloc hstage ha
      refine (hp.exact.move (p := .caller t) (q := .message x) (x := a) ?_).congr
        (fun _ ↦ rfl) (fun a ↦ by rw [hsent])
      refine ⟨by simp, ?_, ?_, hsame⟩
      · rw [MbxState.prmPlaces, hold, MbxState.prmPlaces, hpc']
        simp [MbxPc.prm, hw]
      · rw [hmessage, hmessage', MsgBlock.owned, hwaits, hw, hprm, ha]
        exact List.Perm.refl _
    · refine hp.exact.congr (fun p ↦ ?_) (fun a ↦ by rw [hsent])
      have hcase : c.waitsAck = true ∨ c.prm = none := by
        cases hw : c.waitsAck with
        | true => exact Or.inl rfl
        | false =>
            right
            rw [Option.eq_none_iff_forall_ne_some]
            exact fun a ha ↦ hmoves ⟨hw, a, ha⟩
      by_cases hcaller : p = .caller t
      · rw [hcaller, MbxState.prmPlaces, MbxState.prmPlaces, hpc, hpc']
        rcases hcase with hw | hnone
        · simp [MbxPc.prm, hw]
        · simp [MbxPc.prm, hnone]
      · by_cases hm : p = .message x
        · rw [hm, hmessage, hmessage', MsgBlock.owned, hwaits, hprm]
          rcases hcase with hw | hnone
          · simp [hw]
          · simp [hnone]
        · exact hsame p hcaller hm
  · intro n a hna
    rw [hcarried, List.mem_append] at hna
    rcases hna with hna | hna
    · refine h.carried hp (fun n hn ↦ hfreed ▸ hn) (fun b a hb _ ↦ ?_) n a hna
      rw [hfree] at hb
      cases hb
    · obtain ⟨a', ha', heq⟩ := List.mem_map.mp hna
      cases heq
      exact Or.inr ⟨x, _, h.mem_self, rfl, Option.mem_toList.mp ha'⟩

theorem PrmInv.answer (hp : PrmInv s) {x : MsgPtr} {b : MsgBlock M} {v : ℤ}
    (h : Writes s t x (some { b with status := v }) s') (hprm : (s'.pc t).prm = (s.pc t).prm)
    (hb : s.mem x = some b) (hsent : s'.log.prmSent = s.log.prmSent)
    (hfreed : s'.log.freed = s.log.freed) (hprmFreed : s'.log.prmFreed = s.log.prmFreed)
    (hcarried : s'.log.carried = s.log.carried) : PrmInv s' := by
  constructor
  · refine hp.exact.congr (fun p ↦ ?_) (fun a ↦ by rw [hsent])
    by_cases hcaller : p = .caller t
    · rw [hcaller, MbxState.prmPlaces, hprm, MbxState.prmPlaces]
    · by_cases hm : p = .message x
      · rw [hm, MbxState.prmPlaces, h.mem_self, MbxState.prmPlaces, hb]
        rfl
      · by_cases hf : p = .freed
        · rw [hf, MbxState.prmPlaces, hprmFreed, MbxState.prmPlaces]
        · exact h.prmPlaces p hcaller hm hf
  · rw [hcarried]
    refine h.carried hp (fun n hn ↦ hfreed ▸ hn) (fun b' a hb' ha ↦ ?_)
    obtain rfl := Option.some.inj (hb.symm.trans hb')
    exact Or.inr ⟨_, rfl, rfl, ha⟩

/-- What the call and the message were to free, the call still is to free or it is freed. -/
theorem PrmInv.free (hp : PrmInv s) {x : MsgPtr} (h : Writes s t x none s') {b : MsgBlock M}
    (prms : List ℕ) (hb : s.mem x = some b)
    (hprm : ((s.pc t).prm.toList = (s'.pc t).prm.toList ++ prms ∧ b.owned = none) ∨
      ((s'.pc t).prm = (s.pc t).prm ∧ prms = b.owned.toList))
    (hsent : s'.log.prmSent = s.log.prmSent)
    (hfreed : s'.log.freed = s.log.freed ++ [b.serial])
    (hprmFreed : s'.log.prmFreed = s.log.prmFreed ++ prms)
    (hcarried : s'.log.carried = s.log.carried) : PrmInv s' := by
  have hmessage : s.prmPlaces (.message x) = b.owned.toList := by
    rw [MbxState.prmPlaces, hb]
    rfl
  have hmessage' : s'.prmPlaces (.message x) = [] := by
    rw [MbxState.prmPlaces, h.mem_self]
    rfl
  constructor
  · by_cases hnil : prms = []
    · refine hp.exact.congr (fun p ↦ ?_) (fun a ↦ by rw [hsent])
      have hkept : (s'.pc t).prm.toList = (s.pc t).prm.toList ∧ b.owned.toList = [] := by
        rcases hprm with ⟨heq, hnone⟩ | ⟨heq, hown⟩
        · rw [heq, hnil, List.append_nil, hnone]
          exact ⟨rfl, rfl⟩
        · rw [heq, ← hown, hnil]
          exact ⟨rfl, rfl⟩
      by_cases hcaller : p = .caller t
      · rw [hcaller]
        exact hkept.1
      · by_cases hm : p = .message x
        · rw [hm, hmessage, hmessage', hkept.2]
        · by_cases hf : p = .freed
          · rw [hf, MbxState.prmPlaces, hprmFreed, hnil, List.append_nil, MbxState.prmPlaces]
          · exact h.prmPlaces p hcaller hm hf
    · have hput : ∀ a, prms = [a] → (s'.prmPlaces .freed).Perm (a :: s.prmPlaces .freed) := by
        rintro a rfl
        rw [MbxState.prmPlaces, hprmFreed, MbxState.prmPlaces]
        exact List.perm_append_singleton _ _
      rcases hprm with ⟨heq, hnone⟩ | ⟨heq, hown⟩
      · obtain ⟨h', -⟩ | ⟨a, rfl, hnew, hold⟩ := toList_append heq
        · exact (hnil h').elim
        · refine (hp.exact.move (p := .caller t) (q := .freed) (x := a)
            ⟨by simp, ?_, hput a rfl, ?_⟩).congr (fun _ ↦ rfl) (fun a ↦ by rw [hsent])
          · rw [MbxState.prmPlaces, hold, MbxState.prmPlaces, hnew]
            exact List.Perm.refl _
          · intro p hc hf
            by_cases hm : p = .message x
            · rw [hm, hmessage, hmessage', hnone]
              rfl
            · exact h.prmPlaces p hc hm hf
      · cases hbo : b.owned with
        | none =>
            rw [hbo] at hown
            exact (hnil hown).elim
        | some a =>
            rw [hbo] at hown hmessage
            refine (hp.exact.move (p := .message x) (q := .freed) (x := a)
              ⟨by simp, ?_, hput a hown, ?_⟩).congr (fun _ ↦ rfl) (fun a ↦ by rw [hsent])
            · rw [hmessage, hmessage']
              exact List.Perm.refl _
            · intro p hm hf
              by_cases hc : p = .caller t
              · rw [hc, MbxState.prmPlaces, heq, MbxState.prmPlaces]
              · exact h.prmPlaces p hc hm hf
  · rw [hcarried]
    refine h.carried hp (fun n hn ↦ ?_) (fun b' a hb' _ ↦ ?_)
    · rw [hfreed]
      exact List.mem_append_left _ hn
    · obtain rfl := Option.some.inj (hb.symm.trans hb')
      exact Or.inl (by simp [hfreed])

theorem PrmInv.effect (hs : MbxInv LedgerCall s) (hp : PrmInv s) {prms : List ℕ}
    (h : MbxEffect LedgerCall s t prms s') (hfresh : ∀ a ∈ prms, a ∉ s.log.prmSent) :
    PrmInv s' := by
  cases h with
  | transfer h => exact hp.transfer h hfresh
  | alloc c sent pMbxTo rest x h hpc hpc' hfree hlog =>
      exact hp.alloc h (hpc ▸ hs.stage t) hpc hpc' hfree (by rw [hlog]) (by rw [hlog])
        (by rw [hlog]) (by rw [hlog])
  | answer x b v q next h hpc hpc' hb hwaits hfrom hlog =>
      exact hp.answer h (by rw [hpc, hpc']; rfl) hb (by rw [hlog]) (by rw [hlog]) (by rw [hlog])
        (by rw [hlog])
  | release x b v next h hpc hpc' hb hwaits hlog =>
      obtain ⟨-, -, hprm, -⟩ := MbxNext.pc_facts (P := LedgerCall) next
      have howned : b.owned = b.prm := by
        rw [MsgBlock.owned, hwaits]
        rfl
      refine hp.free h b.prm.toList hb (Or.inr ⟨?_, by rw [howned]⟩) (by rw [hlog])
        (by rw [hlog]) (by rw [hlog]) (by rw [hlog])
      rw [hpc, hpc', hprm]
      rfl
  | collect x b rets freed h _ _ _ hb hwaits _ _ _ hlog _ hprm =>
      have howned : b.owned = none := by
        rw [MsgBlock.owned, hwaits]
        rfl
      exact hp.free h freed hb (Or.inl ⟨hprm, howned⟩) (by rw [hlog]) (by rw [hlog])
        (by rw [hlog]) (by rw [hlog])

/-! ## The ledger -/

/-- Where the message with the serial number is; `none` is freed. -/
def MbxState.At (s : MbxState M T) (n : ℕ) : Option (MbxPlace M T) → Prop
  | some p => ∃ x ∈ s.places p, ∃ b, s.mem x = some b ∧ b.serial = n
  | none => n ∈ s.log.freed

/-- No call is in progress, and no message is in a queue or in someone's hands. -/
def MbxState.Quiet (s : MbxState M T) : Prop :=
  (∀ t, ∃ v, s.pc t = .idle v) ∧ (∀ q, (s.msgq q).items = []) ∧ ∀ r, s.hands r = []

/-- The ledger of the messages and of the parameters in one state. -/
structure LedgerLaw (s : MbxState M T) : Prop where
  onePlace : ∀ n < s.log.allocs, ∃! p, s.At n p
  placeOnce : ∀ p, (s.places p).Nodup
  allocated : ∀ p, ∀ x ∈ s.places p, ∃ b, s.mem x = some b
  freedOnce : s.log.freed.Nodup
  noFault : ∀ t, s.pc t ≠ .fault
  prmOnce : s.log.prmFreed.Nodup
  prmSent : ∀ a ∈ s.log.prmFreed, a ∈ s.log.prmSent
  prmKept : ∀ a ∈ s.log.prmSent, a ∈ s.log.prmFreed ∨ (∃ t, (s.pc t).prm = some a) ∨
    ∃ x b, s.mem x = some b ∧ b.prm = some a
  prmAnswered : ∀ n a, (n, a) ∈ s.log.carried → a ∈ s.log.prmFreed →
    n ∈ s.log.acks.map Prod.fst
  prmUnsent : ∀ t c sent pMbxTo rest, s.pc t = .alloc c sent pMbxTo rest →
    ∀ a ∈ c.prm, a ∉ s.log.prmFreed
  quiet : s.Quiet → (∀ x, s.mem x = none) ∧ (∀ n < s.log.allocs, n ∈ s.log.freed) ∧
    ∀ a ∈ s.log.prmSent, a ∈ s.log.prmFreed

theorem MbxInv.one_place (hs : MbxInv P s) {n : ℕ} (hn : n < s.log.allocs) : ∃! p, s.At n p := by
  have hserial : ∀ {x : MsgPtr} {b : MsgBlock M}, s.mem x = some b → b.serial = n →
      n ∈ s.serialPlaces (.allocated x) := by
    rintro x b hb rfl
    simp [MbxState.serialPlaces, hb]
  have hnot : ∀ {p : MbxPlace M T}, s.At n (some p) → n ∉ s.log.freed := by
    rintro p ⟨x, -, b, hb, hbn⟩ hfreed
    cases hs.serials.unique (.allocated x) .freed n (hserial hb hbn) hfreed
  obtain ⟨p, hp⟩ := (hs.serials.live_iff n).mp hn
  cases p with
  | freed =>
      refine ⟨none, hp, fun p hat ↦ ?_⟩
      cases p with
      | none => rfl
      | some p => exact (hnot hat hp).elim
  | allocated x =>
      obtain ⟨b, hb, hbn⟩ : ∃ b, s.mem x = some b ∧ b.serial = n := by
        simpa [MbxState.serialPlaces] using hp
      obtain ⟨p, hx⟩ := (hs.handles.live_iff x).mp ⟨b, hb⟩
      have hat : s.At n (some p) := ⟨x, hx, b, hb, hbn⟩
      refine ⟨some p, hat, fun q hq ↦ ?_⟩
      cases q with
      | none => exact (hnot hat hq).elim
      | some q =>
          obtain ⟨y, hy, b', hb', hbn'⟩ := hq
          obtain rfl := hs.serial_inj hb hb' (hbn.trans hbn'.symm)
          rw [hs.handles.unique q p x hy hx]

/-- A message that carries a parameter has it in the ledger, itself or with its call. -/
theorem MbxInv.prm_place (hs : MbxInv P s) {x : MsgPtr} {b : MsgBlock M} {a : ℕ}
    (hb : s.mem x = some b) (ha : b.prm = some a) :
    ∃ p, p ≠ .freed ∧ a ∈ s.prmPlaces p := by
  cases hwaits : b.waitsAck with
  | false =>
      refine ⟨.message x, by simp, ?_⟩
      simp [MbxState.prmPlaces, hb, MsgBlock.owned, hwaits, ha]
  | true =>
      obtain ⟨t, ht⟩ := (hs.pending.live_iff x).mp ⟨b, hb, hwaits⟩
      obtain ⟨d, hd, rfl⟩ := List.mem_map.mp ht
      obtain ⟨c, hc⟩ := MbxPc.call_of_pending hd
      have hprm : (s.pc t).prm = some a := by
        rw [← ha, (hs.sentBy t c d b hc hd hb).prm]
        exact MbxPc.prm_of_pending hc hd
      refine ⟨.caller t, by simp, ?_⟩
      simp [MbxState.prmPlaces, hprm]

theorem PrmInv.kept (hp : PrmInv s) {a : ℕ} (ha : a ∈ s.log.prmSent) :
    a ∈ s.log.prmFreed ∨ (∃ t, (s.pc t).prm = some a) ∨
      ∃ x b, s.mem x = some b ∧ b.prm = some a := by
  obtain ⟨p, hp⟩ := (hp.exact.live_iff a).mp ha
  cases p with
  | freed => exact Or.inl hp
  | caller t => exact Or.inr (Or.inl ⟨t, Option.mem_toList.mp hp⟩)
  | message x =>
      obtain ⟨b, hb, hown⟩ := Option.bind_eq_some_iff.mp (Option.mem_toList.mp hp)
      refine Or.inr (Or.inr ⟨x, b, hb, ?_⟩)
      unfold MsgBlock.owned at hown
      split at hown
      · cases hown
      · exact hown

theorem MbxInv.quiet_mem (hs : MbxInv P s) (hquiet : s.Quiet) (x : MsgPtr) : s.mem x = none := by
  obtain ⟨hidle, hqueues, hhands⟩ := hquiet
  rw [Option.eq_none_iff_forall_ne_some]
  intro b hb
  obtain ⟨p, hx⟩ := (hs.handles.live_iff x).mp ⟨b, hb⟩
  cases p with
  | queue q =>
      rw [MbxState.places, hqueues q] at hx
      cases hx
  | hands r =>
      rw [MbxState.places, hhands r] at hx
      cases hx
  | thread t =>
      obtain ⟨v, hv⟩ := hidle t
      rw [MbxState.places, hv] at hx
      cases hx

theorem prmInv_start (cells : MsgqPtr M → Vector MsgPtr osaMsgqLenMax) :
    PrmInv (mbxStart cells : MbxState M T) := by
  constructor
  · refine .empty (fun p ↦ ?_) (fun a ha ↦ ?_)
    · cases p <;> rfl
    · cases ha
  · intro n a hna
    cases hna

theorem MbxInv.ledgerLaw (hs : MbxInv LedgerCall s) (hp : PrmInv s) : LedgerLaw s := by
  have hfreed : ∀ {p : PrmPlace T} {a : ℕ}, p ≠ .freed → a ∈ s.prmPlaces p →
      a ∉ s.log.prmFreed := fun hne ha hf ↦ hne (hp.exact.unique _ .freed _ ha hf)
  constructor
  · exact fun n hn ↦ hs.one_place hn
  · exact hs.handles.nodup
  · exact fun p x hx ↦ hs.handles.live_of_mem hx
  · exact hs.serials.nodup .freed
  · exact hs.no_fault
  · exact hp.exact.nodup .freed
  · intro a ha
    have hmem : a ∈ s.prmPlaces .freed := ha
    exact hp.exact.live_of_mem hmem
  · exact fun a ha ↦ hp.kept ha
  · intro n a hna ha
    rcases hp.carried n a hna with hgone | ⟨x, b, hb, -, hprm⟩
    · exact hs.freed_acked n hgone
    · obtain ⟨p, hne, hmem⟩ := hs.prm_place hb hprm
      exact (hfreed hne hmem ha).elim
  · intro t c sent pMbxTo rest hpc a ha
    have hprm : (s.pc t).prm = some a := by
      rw [hpc]
      exact prm_of_alloc (hpc ▸ hs.stage t) ha
    exact hfreed (p := .caller t) (by simp) (by simp [MbxState.prmPlaces, hprm])
  · intro hquiet
    have hnone : ∀ x, s.mem x = none := hs.quiet_mem hquiet
    refine ⟨hnone, fun n hn ↦ ?_, fun a ha ↦ ?_⟩
    · obtain ⟨p, hp, -⟩ := hs.one_place hn
      cases p with
      | none => exact hp
      | some p =>
          obtain ⟨x, -, b, hb, -⟩ := hp
          rw [hnone x] at hb
          cases hb
    · rcases hp.kept ha with hfreed | ⟨t, ht⟩ | ⟨x, b, hb, -⟩
      · exact hfreed
      · obtain ⟨v, hv⟩ := hquiet.1 t
        rw [hv] at ht
        cases ht
      · rw [hnone x] at hb
        cases hb

section

variable [DecidableEq M] [DecidableEq T]

/-- Every handle and every parameter is freed once, in every run. -/
theorem mailbox_ledger (cells : MsgqPtr M → Vector MsgPtr osaMsgqLenMax)
    (h : Reach mbxStep LedgerOk (mbxStart cells) s) : LedgerLaw s := by
  have hinv : MbxInv LedgerCall s ∧ PrmInv s := by
    apply h.invariant ⟨mbxStart_inv cells, prmInv_start cells⟩
    rintro a l b ⟨ha, hprm⟩ ⟨hok, hcalls⟩ hstep
    obtain ⟨t, prms, heffect, hprms⟩ := step_effect ha hok (fun cn hcn ↦ (hcalls cn hcn).1) hstep
    refine ⟨ha.effect heffect, hprm.effect ha heffect fun p hp ↦ ?_⟩
    obtain ⟨cn, hcn, hmem⟩ := hprms p hp
    exact (hcalls cn hcn).2 p hmem
  exact hinv.1.ledgerLaw hinv.2

end

/-- A broadcast to one mailbox twice: both messages are acknowledged, and the parameter is freed
with the second. -/
theorem mailbox_ledger_broadcast :
    ∃ s : MbxState (Fin 2) (Fin 2), s.log.freed = [0, 1] ∧ s.log.prmFreed = [3] ∧ LedgerLaw s := by
  obtain ⟨s, hs, hlog⟩ := Reach.exists_of_exec mbxStep LedgerOk
    (mbxStart fun _ : MsgqPtr (Fin 2) ↦ Vector.replicate osaMsgqLenMax 0 : MbxState (Fin 2) (Fin 2))
    [.invoke 0 (.broadcastMsg [1, 1] (some 0) 7 (some 3) 6), .run 0 100, .run 0 0, .run 0 101,
      .run 0 0, .invoke 1 (.flush 1), .run 1 0, .run 1 0, .run 1 0, .run 0 0, .run 0 0, .run 1 0,
      .run 1 0, .run 1 0, .run 0 0, .run 0 0]
    (fun s ↦ decide (s.log.freed = [0, 1] ∧ s.log.prmFreed = [3])) (by decide)
  obtain ⟨hfreed, hprm⟩ := of_decide_eq_true hlog
  exact ⟨s, hfreed, hprm, mailbox_ledger _ hs⟩

end OsaBase
