import OsaBase.Mailbox.Invariant

/-!
# Steps that write the memory of the messages

A thread writes one address: it allocates a message for a target, writes the status into a message
that it acknowledges, or frees one. Each of these keeps the invariant of the mailboxes.
-/

open Transition

namespace OsaBase

variable {M T : Type} {P : MbxSend M → ℕ → Prop} {s s' : MbxState M T} {t : T} {x : MsgPtr}
  {o : Option (MsgBlock M)}

/-- The thread writes one address, touches no queue and no hands, and goes on with its call or ends
it. -/
structure Writes (s : MbxState M T) (t : T) (x : MsgPtr) (o : Option (MsgBlock M))
    (s' : MbxState M T) : Prop where
  mem : s'.mem = Function.update s.mem x o
  msgq : s'.msgq = s.msgq
  hands : s'.hands = s.hands
  other : ∀ t', t' ≠ t → s'.pc t' = s.pc t'
  mbxFrom : (s'.pc t).mbxFrom = none ∨ (s'.pc t).mbxFrom = (s.pc t).mbxFrom
  flushing : (s'.pc t).flushing = none ∨ (s'.pc t).flushing = (s.pc t).flushing

namespace Writes

theorem mem_self (h : Writes s t x o s') : s'.mem x = o := by
  rw [h.mem, Function.update_self]

theorem mem_of_ne (h : Writes s t x o s') {y : MsgPtr} (hy : y ≠ x) : s'.mem y = s.mem y := by
  rw [h.mem, Function.update_of_ne hy]

theorem allocated_iff (h : Writes s t x o s') (y : MsgPtr) :
    s'.Allocated y ↔ (y = x ∧ ∃ b, o = some b) ∨ (y ≠ x ∧ s.Allocated y) := by
  by_cases hy : y = x
  · subst hy
    simp [MbxState.Allocated, h.mem_self]
  · simp [MbxState.Allocated, h.mem_of_ne hy, hy]

theorem awaitsAck_iff (h : Writes s t x o s') (y : MsgPtr) :
    s'.AwaitsAck y ↔
      (y = x ∧ ∃ b, o = some b ∧ b.waitsAck = true) ∨ (y ≠ x ∧ s.AwaitsAck y) := by
  by_cases hy : y = x
  · subst hy
    simp [MbxState.AwaitsAck, h.mem_self]
  · simp [MbxState.AwaitsAck, h.mem_of_ne hy, hy]

theorem serialPlaces (h : Writes s t x o s') {y : MsgPtr} (hy : y ≠ x) :
    s'.serialPlaces (.allocated y) = s.serialPlaces (.allocated y) := by
  rw [MbxState.serialPlaces, h.mem_of_ne hy, MbxState.serialPlaces]

theorem rings (h : Writes s t x o s') (hs : MbxInv P s) (q : MsgqPtr M) :
    (s'.msgq q).Rep osaMsgqLenMax := by
  rw [h.msgq]
  exact hs.rings q

theorem callers (h : Writes s t x o s') (hs : MbxInv P s) : Callers s'.pc := by
  apply hs.callers.of_le
  · intro t'
    by_cases ht : t' = t
    · subst ht
      exact h.mbxFrom
    · exact Or.inr (by rw [h.other t' ht])
  · intro t'
    by_cases ht : t' = t
    · subst ht
      exact h.flushing
    · exact Or.inr (by rw [h.other t' ht])

theorem stage (h : Writes s t x o s') (hs : MbxInv P s) (hstage : (s'.pc t).Stage P) (t' : T) :
    (s'.pc t').Stage P := by
  by_cases ht : t' = t
  · subst ht
    exact hstage
  · rw [h.other t' ht]
    exact hs.stage t'

theorem places (h : Writes s t x o s') (p : MbxPlace M T) (hp : p ≠ .thread t) :
    s'.places p = s.places p := by
  cases p with
  | queue q => simp only [MbxState.places, h.msgq]
  | hands r => simp only [MbxState.places, h.hands]
  | thread t' =>
      have ht : t' ≠ t := fun heq ↦ hp (heq ▸ rfl)
      simp only [MbxState.places, h.other t' ht]

theorem dest (h : Writes s t x o s') (p : MbxPlace M T) (hp : p ≠ .thread t) :
    s'.dest p = s.dest p := by
  cases p with
  | queue q => rfl
  | hands r => rfl
  | thread t' =>
      have ht : t' ≠ t := fun heq ↦ hp (heq ▸ rfl)
      simp only [MbxState.dest, h.other t' ht]

theorem pendings (h : Writes s t x o s') (t' : T) (ht : t' ≠ t) :
    s'.pendings t' = s.pendings t' := by
  simp only [MbxState.pendings, h.other t' ht]

/-- Messages other than the one that the thread works on are answered as before. -/
theorem answered (h : Writes s t x o s') (hs : MbxInv P s)
    (hheld : ∀ y ∈ (s'.pc t).held, y = x) (hacks : ∀ r ∈ s.log.acks, r ∈ s'.log.acks)
    (hnew : ∀ y b, y ≠ x → s.mem y = some b → b.serial ∈ s'.log.acks.map Prod.fst →
      b.serial ∈ s.log.acks.map Prod.fst)
    (hx : ∀ p b, x ∈ s'.places p → o = some b → b.Answered s'.log.acks (s'.dest p))
    (p : MbxPlace M T) (y : MsgPtr) (b : MsgBlock M) (hy : y ∈ s'.places p)
    (hb : s'.mem y = some b) : b.Answered s'.log.acks (s'.dest p) := by
  by_cases hyx : y = x
  · subst hyx
    exact hx p b hy (h.mem_self.symm.trans hb)
  · have hp : p ≠ .thread t := by
      rintro rfl
      exact hyx (hheld y (Option.mem_toList.mp hy))
    rw [h.places p hp] at hy
    rw [h.mem_of_ne hyx] at hb
    have hans := hs.answered p y b hy hb
    rw [h.dest p hp]
    cases hd : s.dest p with
    | none =>
        rw [hd] at hans
        exact fun hack ↦ hans (hnew y b hyx hb hack)
    | some q =>
        rw [hd] at hans
        exact ⟨hans.1, hans.2.1, hacks _ hans.2.2⟩

theorem sentBy (h : Writes s t x o s') (hs : MbxInv P s)
    (hpend : ∀ d ∈ (s'.pc t).pending, d.msg ≠ x →
      d ∈ (s.pc t).pending ∧ (s'.pc t).call = (s.pc t).call)
    (hx : ∀ t' c d b, (s'.pc t').call = some c → d ∈ (s'.pc t').pending → d.msg = x →
      o = some b → b.SentBy c d)
    (t' : T) (c : MbxSend M) (d : SentMsg) (b : MsgBlock M) (hc : (s'.pc t').call = some c)
    (hd : d ∈ (s'.pc t').pending) (hb : s'.mem d.msg = some b) : b.SentBy c d := by
  by_cases hdx : d.msg = x
  · rw [hdx, h.mem_self] at hb
    exact hx t' c d b hc hd hdx hb
  · rw [h.mem_of_ne hdx] at hb
    by_cases ht : t' = t
    · subst ht
      obtain ⟨hd, hcall⟩ := hpend d hd hdx
      exact hs.sentBy t' c d b (hcall ▸ hc) hd hb
    · rw [h.other t' ht] at hc hd
      exact hs.sentBy t' c d b hc hd hb

end Writes

/-! ## An allocation -/

section Alloc

variable {c : MbxSend M} {sent : List SentMsg} {pMbxTo : M} {rest : List M}

/-- A message to be acknowledged is pending in its call as soon as it is allocated. -/
theorem MbxInv.alloc_pending (hs : MbxInv P s)
    (h : Writes s t x (some (c.block s.log.allocs pMbxTo)) s')
    (hpc : s.pc t = .alloc c sent pMbxTo rest)
    (hpc' : s'.pc t = .put c sent ⟨x, false, s.log.allocs⟩ pMbxTo rest) (hfree : s.mem x = none) :
    Ledger.Exact s'.pendings s'.AwaitsAck := by
  have hstage := hs.stage t
  rw [hpc] at hstage
  have hno : ¬ s.AwaitsAck x := by simp [MbxState.AwaitsAck, hfree]
  have hawaits : ∀ y, s'.AwaitsAck y ↔ (y = x ∧ c.waitsAck = true) ∨ s.AwaitsAck y := by
    intro y
    rw [h.awaitsAck_iff]
    by_cases hy : y = x
    · subst hy
      simp [MbxSend.waitsAck_block hstage.1.1, hno]
    · simp [hy]
  cases hw : c.waitsAck with
  | false =>
      refine hs.pending.congr (fun t' ↦ ?_) (fun y ↦ by simp [hawaits, hw])
      by_cases ht : t' = t
      · subst ht
        simp [MbxState.pendings, hpc, hpc', MbxPc.pending, hw]
      · exact h.pendings t' ht
  | true =>
      refine hs.pending.insert (p := t) hno ?_ (fun t' ht ↦ h.pendings t' ht)
        (fun y ↦ by simp [hawaits, hw])
      simp only [MbxState.pendings, hpc, hpc', MbxPc.pending, hw, if_true, List.map_append,
        List.map_cons, List.map_nil]
      exact List.perm_append_singleton _ _

theorem MbxInv.alloc_sentBy (hs : MbxInv P s)
    (h : Writes s t x (some (c.block s.log.allocs pMbxTo)) s')
    (hpc : s.pc t = .alloc c sent pMbxTo rest)
    (hpc' : s'.pc t = .put c sent ⟨x, false, s.log.allocs⟩ pMbxTo rest) (hfree : s.mem x = none)
    (t' : T) (c' : MbxSend M) (d : SentMsg) (b : MsgBlock M) (hc : (s'.pc t').call = some c')
    (hd : d ∈ (s'.pc t').pending) (hb : s'.mem d.msg = some b) : b.SentBy c' d := by
  have hpending : ∀ e ∈ (s'.pc t).pending,
      e ∈ (s.pc t).pending ∨ e = ⟨x, false, s.log.allocs⟩ := by
    intro e he
    rw [hpc', MbxPc.pending] at he
    rw [hpc, MbxPc.pending]
    split at he
    · next hw =>
      rw [if_pos hw]
      simpa using he
    · cases he
  refine h.sentBy hs ?_ ?_ t' c' d b hc hd hb
  · intro e he hne
    rcases hpending e he with hold | rfl
    · exact ⟨hold, by rw [hpc, hpc']; rfl⟩
    · exact (hne rfl).elim
  · intro u c'' e b' hc'' he hex hb'
    obtain rfl := Option.some.inj hb'
    have hold : ∀ u, e ∉ (s.pc u).pending := by
      intro u hu
      have hmem : x ∈ s.pendings u := hex ▸ List.mem_map_of_mem hu
      obtain ⟨b'', hb'', -⟩ := hs.pending.live_of_mem hmem
      rw [hfree] at hb''
      cases hb''
    by_cases hu : u = t
    · subst hu
      rcases hpending e he with he | rfl
      · exact (hold u he).elim
      · rw [hpc'] at hc''
        obtain rfl : c = c'' := Option.some.inj hc''
        exact c.block_sentBy ..
    · rw [h.other u hu] at he
      exact (hold u he).elim

/-- `OSA_msgqAllocMsgHndl` gives a new message to the call. -/
theorem MbxInv.alloc (hs : MbxInv P s) (h : Writes s t x (some (c.block s.log.allocs pMbxTo)) s')
    (hpc : s.pc t = .alloc c sent pMbxTo rest)
    (hpc' : s'.pc t = .put c sent ⟨x, false, s.log.allocs⟩ pMbxTo rest) (hfree : s.mem x = none)
    (hallocs : s'.log.allocs = s.log.allocs + 1) (hfreed : s'.log.freed = s.log.freed)
    (hacks : s'.log.acks = s.log.acks) (hreturned : s'.log.returned = s.log.returned) :
    MbxInv P s' := by
  have hstage := hs.stage t
  rw [hpc] at hstage
  obtain ⟨hcall, hunacked, honly⟩ := hstage
  have hnew : ¬ s.Allocated x := by simp [MbxState.Allocated, hfree]
  refine ⟨h.rings hs, h.callers hs, h.stage hs ?_, ?_, hs.alloc_pending h hpc hpc' hfree, ?_,
    hs.alloc_sentBy h hpc hpc' hfree, ?_, ?_, ?_, ?_, ?_⟩
  · rw [hpc']
    refine ⟨hcall, ?_, honly⟩
    intro d hd
    rcases List.mem_append.mp hd with hd | hd
    · exact hunacked d hd
    · rw [List.mem_singleton.mp hd]
  · refine hs.handles.insert (p := .thread t) hnew ?_ (fun p hp ↦ h.places p hp) (fun y ↦ ?_)
    · simp [MbxState.places, hpc, hpc', MbxPc.held]
    · rw [h.allocated_iff]
      by_cases hy : y = x <;> simp [hy]
  · refine hs.serials.insert (p := .allocated x) (lt_irrefl _) ?_ ?_ (fun n ↦ by omega)
    · simp only [MbxState.serialPlaces, h.mem_self, hfree, Option.toList_some, Option.toList_none,
        List.map_cons, List.map_nil]
      exact List.Perm.refl _
    · intro p hp
      cases p with
      | freed => exact hfreed
      | allocated a => exact h.serialPlaces fun heq ↦ hp (heq ▸ rfl)
  · apply h.answered hs
    · intro y hy
      rw [hpc'] at hy
      exact (Option.some.inj hy).symm
    · exact fun r hr ↦ hacks ▸ hr
    · exact fun y b' _ _ hb' ↦ hacks ▸ hb'
    · intro p b hp hb
      obtain rfl := Option.some.inj hb
      have hthread : p = .thread t := by
        by_contra hne
        rw [h.places p hne] at hp
        exact hnew (hs.handles.live_of_mem hp)
      subst hthread
      rw [MbxState.dest, hpc', hacks]
      exact fun hack ↦ lt_irrefl _ (hs.acks_lt _ hack)
  · rw [hacks, hallocs]
    exact fun n hn ↦ Nat.lt_succ_of_lt (hs.acks_lt n hn)
  · rw [hacks]
    exact hs.acks_nodup
  · rw [hfreed, hacks]
    exact hs.freed_acked
  · rw [hreturned, hacks]
    exact hs.returned

end Alloc

/-! ## An answer -/

section Answer

variable {b : MsgBlock M} {v : ℤ}

/-- A message in a thread's hand that is not on its way back has not been answered. -/
theorem MbxInv.unanswered (hs : MbxInv P s) (hx : (s.pc t).held = some x)
    (hdest : (s.pc t).dest = none) (hb : s.mem x = some b) :
    b.serial ∉ s.log.acks.map Prod.fst := by
  have hmem : x ∈ s.places (.thread t) := by simp [MbxState.places, hx]
  have hans := hs.answered _ x b hmem hb
  rw [MbxState.dest, hdest] at hans
  exact hans

theorem MbxInv.acks_lt_snoc (hs : MbxInv P s) (hb : s.mem x = some b) :
    ∀ n ∈ (s.log.acks ++ [(b.serial, v)]).map Prod.fst, n < s.log.allocs := by
  intro n hn
  simp only [List.map_append, List.mem_append, List.map_cons, List.map_nil,
    List.mem_singleton] at hn
  rcases hn with hn | rfl
  · exact hs.acks_lt n hn
  · exact hs.serial_lt hb

theorem MbxInv.acks_nodup_snoc (hs : MbxInv P s) (hnot : b.serial ∉ s.log.acks.map Prod.fst) :
    ((s.log.acks ++ [(b.serial, v)]).map Prod.fst).Nodup := by
  rw [List.map_append]
  exact (List.nodup_append_comm.mp (List.nodup_cons.mpr ⟨hnot, hs.acks_nodup⟩))

/-- An answer to one message is none to another. -/
theorem MbxInv.acks_other (hs : MbxInv P s) (hb : s.mem x = some b) {y : MsgPtr}
    {b' : MsgBlock M} (hy : y ≠ x) (hb' : s.mem y = some b')
    (hack : b'.serial ∈ (s.log.acks ++ [(b.serial, v)]).map Prod.fst) :
    b'.serial ∈ s.log.acks.map Prod.fst := by
  simp only [List.map_append, List.mem_append, List.map_cons, List.map_nil,
    List.mem_singleton] at hack
  rcases hack with hack | hack
  · exact hack
  · exact (hy (hs.serial_inj hb' hb hack)).elim

/-- `OSA_msgqSendAck` writes the status. -/
theorem MbxInv.answer (hs : MbxInv P s) (h : Writes s t x (some { b with status := v }) s')
    {q : MsgqPtr M} {next : MbxNext M} (hpc : s.pc t = .ackOrFree x v next)
    (hpc' : s'.pc t = .sendAck q x next) (hb : s.mem x = some b) (hwaits : b.waitsAck = true)
    (hfrom : b.pFrom = some q)
    (hlog : s'.log = { s.log with acks := s.log.acks ++ [(b.serial, v)] }) : MbxInv P s' := by
  have hnot := hs.unanswered (t := t) (by rw [hpc]; rfl) (by rw [hpc]; rfl) hb
  have hacks : s'.log.acks = s.log.acks ++ [(b.serial, v)] := by rw [hlog]
  refine ⟨h.rings hs, h.callers hs, h.stage hs ?_, ?_, ?_, ?_, ?_, ?_, ?_, ?_, ?_, ?_⟩
  · rw [hpc']
    trivial
  · refine hs.handles.congr (fun p ↦ ?_) (fun y ↦ ?_)
    · by_cases hp : p = .thread t
      · subst hp
        rw [MbxState.places, MbxState.places, hpc, hpc']
        rfl
      · exact h.places p hp
    · rw [h.allocated_iff]
      by_cases hy : y = x
      · subst hy
        simp [MbxState.Allocated, hb]
      · simp [hy]
  · refine hs.pending.congr (fun t' ↦ ?_) (fun y ↦ ?_)
    · by_cases ht : t' = t
      · subst ht
        rw [MbxState.pendings, MbxState.pendings, hpc, hpc']
        rfl
      · exact h.pendings t' ht
    · rw [h.awaitsAck_iff]
      by_cases hy : y = x
      · subst hy
        exact iff_of_true (Or.inl ⟨rfl, _, rfl, hwaits⟩) ⟨_, hb, hwaits⟩
      · simp [hy]
  · refine hs.serials.congr (fun p ↦ ?_) (fun n ↦ by rw [hlog])
    cases p with
    | freed => rw [MbxState.serialPlaces, hlog, MbxState.serialPlaces]
    | allocated a =>
        by_cases ha : a = x
        · subst ha
          rw [MbxState.serialPlaces, h.mem_self, MbxState.serialPlaces, hb]
          rfl
        · exact h.serialPlaces ha
  · apply h.sentBy hs
    · intro d hd
      rw [hpc'] at hd
      cases hd
    · rintro t' c d b' hc hd rfl hb'
      obtain rfl := Option.some.inj hb'
      have ht : t' ≠ t := by
        rintro rfl
        rw [hpc'] at hd
        cases hd
      rw [h.other t' ht] at hc hd
      obtain ⟨hserial, hflags, hprm, hpFrom⟩ := hs.sentBy t' c d b hc hd hb
      exact ⟨hserial, hflags, hprm, hpFrom⟩
  · apply h.answered hs
    · intro y hy
      rw [hpc'] at hy
      exact (Option.some.inj hy).symm
    · intro r hr
      rw [hacks]
      exact List.mem_append_left _ hr
    · intro y b' hy hb' hack
      rw [hacks] at hack
      exact hs.acks_other hb hy hb' hack
    · intro p b' hp hb'
      obtain rfl := Option.some.inj hb'
      have hthread : p = .thread t := by
        by_contra hne
        rw [h.places p hne] at hp
        have hheld : x ∈ s.places (.thread t) := by simp [MbxState.places, hpc, MbxPc.held]
        exact hne (hs.handles.unique _ _ x hp hheld)
      subst hthread
      rw [MbxState.dest, hpc', hacks]
      exact ⟨hwaits, hfrom, by simp⟩
  · rw [hlog]
    exact hs.acks_lt_snoc hb
  · rw [hlog]
    exact hs.acks_nodup_snoc hnot
  · rw [hlog]
    intro n hn
    rw [List.map_append]
    exact List.mem_append_left _ (hs.freed_acked n hn)
  · rw [hlog]
    exact fun r hr ↦ List.mem_append_left _ (hs.returned r hr)

end Answer

/-! ## The end of a message -/

section Free

variable {b : MsgBlock M} {v : ℤ}

/-- The message that is freed has been answered, before or in this step. -/
def AnsweredBy (acks acks' : List (ℕ × ℤ)) (serial : ℕ) (v : ℤ) : Prop :=
  (acks' = acks ∧ serial ∈ acks.map Prod.fst) ∨
    (acks' = acks ++ [(serial, v)] ∧ serial ∉ acks.map Prod.fst)

theorem AnsweredBy.mono {acks acks' : List (ℕ × ℤ)} {serial : ℕ}
    (h : AnsweredBy acks acks' serial v) {r : ℕ × ℤ} (hr : r ∈ acks) : r ∈ acks' := by
  rcases h with ⟨rfl, -⟩ | ⟨rfl, -⟩
  · exact hr
  · exact List.mem_append_left _ hr

theorem AnsweredBy.self {acks acks' : List (ℕ × ℤ)} {serial : ℕ}
    (h : AnsweredBy acks acks' serial v) : serial ∈ acks'.map Prod.fst := by
  rcases h with ⟨rfl, hin⟩ | ⟨rfl, -⟩
  · exact hin
  · simp

/-- A freed message is pending nowhere. -/
theorem MbxInv.free_pending (hs : MbxInv P s) (h : Writes s t x none s') (hb : s.mem x = some b)
    (hpendings : (b.waitsAck = true ∧ (s.pendings t).Perm (x :: s'.pendings t)) ∨
      (b.waitsAck = false ∧ s'.pendings t = s.pendings t)) :
    Ledger.Exact s'.pendings s'.AwaitsAck := by
  have hawaits : ∀ y, s'.AwaitsAck y ↔ s.AwaitsAck y ∧ y ≠ x := by
    intro y
    rw [h.awaitsAck_iff]
    simp [and_comm]
  rcases hpendings with ⟨-, hperm⟩ | ⟨hnot, hsame⟩
  · exact hs.pending.remove (p := t) hperm (fun t' ht ↦ h.pendings t' ht) hawaits
  · refine hs.pending.congr (fun t' ↦ ?_) (fun y ↦ ?_)
    · by_cases ht : t' = t
      · subst ht
        exact hsame
      · exact h.pendings t' ht
    · rw [hawaits, and_iff_left_iff_imp]
      rintro ⟨b', hb', hwaits⟩ rfl
      obtain rfl := Option.some.inj (hb.symm.trans hb')
      rw [hnot] at hwaits
      cases hwaits

/-- The serial number of a freed message goes to the freed ones. -/
theorem MbxInv.free_serials (hs : MbxInv P s) (h : Writes s t x none s') (hb : s.mem x = some b)
    (hallocs : s'.log.allocs = s.log.allocs) (hfreed : s'.log.freed = s.log.freed ++ [b.serial]) :
    Ledger.Exact s'.serialPlaces (· < s'.log.allocs) := by
  rw [hallocs]
  apply hs.serials.move (p := .allocated x) (q := .freed) (x := b.serial)
  refine ⟨by simp, ?_, ?_, ?_⟩
  · simp [MbxState.serialPlaces, hb, h.mem_self]
  · simp only [MbxState.serialPlaces, hfreed]
    exact List.perm_append_singleton _ _
  · intro p hp hp'
    cases p with
    | freed => exact (hp' rfl).elim
    | allocated a => exact h.serialPlaces fun heq ↦ hp (heq ▸ rfl)

/-- The message in the thread's hand is freed. -/
theorem MbxInv.free (hs : MbxInv P s) (h : Writes s t x none s') (hstage : (s'.pc t).Stage P)
    (hheld : (s.pc t).held = some x) (hheld' : (s'.pc t).held = none) (hb : s.mem x = some b)
    (hallocs : s'.log.allocs = s.log.allocs) (hfreed : s'.log.freed = s.log.freed ++ [b.serial])
    (hpendings : (b.waitsAck = true ∧ (s.pendings t).Perm (x :: s'.pendings t)) ∨
      (b.waitsAck = false ∧ s'.pendings t = s.pendings t))
    (hsub : ∀ d ∈ (s'.pc t).pending, d ∈ (s.pc t).pending ∧ (s'.pc t).call = (s.pc t).call)
    (hacks : AnsweredBy s.log.acks s'.log.acks b.serial v)
    (hreturned : ∀ r ∈ s'.log.returned, r ∈ s'.log.acks) : MbxInv P s' := by
  refine ⟨h.rings hs, h.callers hs, h.stage hs hstage, ?_, hs.free_pending h hb hpendings,
    hs.free_serials h hb hallocs hfreed, ?_, ?_, ?_, ?_, ?_, hreturned⟩
  · refine hs.handles.remove (x := x) (p := .thread t) ?_ (fun p hp ↦ h.places p hp) (fun y ↦ ?_)
    · simp [MbxState.places, hheld, hheld']
    · rw [h.allocated_iff]
      simp [and_comm]
  · apply h.sentBy hs
    · exact fun d hd _ ↦ hsub d hd
    · intro t' c d b' _ _ _ hb'
      cases hb'
  · apply h.answered hs
    · intro y hy
      rw [hheld'] at hy
      cases hy
    · exact fun r hr ↦ hacks.mono hr
    · intro y b' hy hb' hack
      rcases hacks with ⟨heq, -⟩ | ⟨heq, -⟩
      · rwa [heq] at hack
      · rw [heq] at hack
        exact hs.acks_other hb hy hb' hack
    · intro p b' _ hb'
      cases hb'
  · rw [hallocs]
    rcases hacks with ⟨heq, -⟩ | ⟨heq, -⟩
    · rw [heq]
      exact hs.acks_lt
    · rw [heq]
      exact hs.acks_lt_snoc hb
  · rcases hacks with ⟨heq, -⟩ | ⟨heq, hnot⟩
    · rw [heq]
      exact hs.acks_nodup
    · rw [heq]
      exact hs.acks_nodup_snoc hnot
  · intro n hn
    rw [hfreed, List.mem_append, List.mem_singleton] at hn
    rcases hn with hn | rfl
    · obtain ⟨r, hr, rfl⟩ := List.mem_map.mp (hs.freed_acked n hn)
      exact List.mem_map_of_mem (hacks.mono hr)
    · exact hacks.self

end Free

end OsaBase
