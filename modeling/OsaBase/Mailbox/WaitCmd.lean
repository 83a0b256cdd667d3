import OsaBase.Mailbox.Release

/-!
# Waiting for a command

While a thread waits for a command at a mailbox the others may do anything that leaves alone the
messages it has still to look at, and they may append new ones. Every message before the first match
is released, in the order in which they came, and the others stay where they are.
-/

open Transition

namespace OsaBase

variable {M T : Type} {s s' : MbxState M T} {t : T} {m : M} {pMsg : Bool} {waitCmd : ℕ}

/-! ## The runs -/

/-- The test of the loop. -/
def RcvMsg.IsCmd (waitCmd : ℕ) (e : RcvMsg M) : Prop := e.block.cmd = uint16 waitCmd

/-- The messages that the queue held at the call and that came since, what the thread released, and
the number of its steps. -/
structure WaitLog (M : Type) where
  stream : List (RcvMsg M)
  releases : List (Release M)
  steps : ℕ
  deriving DecidableEq, Repr

/-- The log after a step of the thread, with what it released. -/
def WaitLog.own (log : WaitLog M) (r : Option (Release M)) : WaitLog M :=
  ⟨log.stream, log.releases ++ r.toList, log.steps + 1⟩

/-- A step of the waiting thread, or anything that the others do; `new` is what comes. -/
inductive WaitLabel (M T : Type)
  | own (addr : MsgPtr)
  | others (new : List (RcvMsg M)) (s' : MbxState M T)

/-- The messages that the thread has still to look at: the one in its hand and those in `rcvMbx`. -/
def MbxState.inbox (s : MbxState M T) (m : M) (t : T) : List MsgPtr :=
  (s.pc t).held.toList ++ (s.msgq (.rcvMbx m)).items

def WaitLabel.isOwn : WaitLabel M T → Bool
  | .own _ => true
  | .others _ _ => false

/-- What the others do: new messages come to the rear of `rcvMbx`, and those of the thread stay as
they are. -/
structure Others (m : M) (t : T) (s : MbxState M T) (new : List (RcvMsg M))
    (s' : MbxState M T) : Prop where
  pc : s'.pc t = s.pc t
  rings : ∀ q, (s'.msgq q).Rep osaMsgqLenMax
  items : (s'.msgq (.rcvMbx m)).items = (s.msgq (.rcvMbx m)).items ++ new.map RcvMsg.msg
  nodup : (s.inbox m t ++ new.map RcvMsg.msg).Nodup
  mem : ∀ x ∈ s.inbox m t, s'.mem x = s.mem x
  stored : ∀ e ∈ new, s'.mem e.msg = some e.block
  sender : ∀ e ∈ new, e.HasSender

/-- What the queue holds when the call begins. -/
structure Queued (m : M) (s : MbxState M T) (stream : List (RcvMsg M)) : Prop where
  rings : ∀ q, (s.msgq q).Rep osaMsgqLenMax
  items : (s.msgq (.rcvMbx m)).items = stream.map RcvMsg.msg
  nodup : (stream.map RcvMsg.msg).Nodup
  stored : ∀ e ∈ stream, s.mem e.msg = some e.block
  sender : ∀ e ∈ stream, e.HasSender

section

variable [DecidableEq M] [DecidableEq T]

def waitStep (t : T) (a : MbxState M T × WaitLog M) :
    WaitLabel M T → Option (MbxState M T × WaitLog M)
  | .own addr => (a.1.run t addr).map fun s' ↦ (s', a.2.own (a.1.release t))
  | .others new s' => some (s', { a.2 with stream := a.2.stream ++ new })

/-- The run ends when the call has returned. -/
def WaitOk (m : M) (t : T) (a : MbxState M T × WaitLog M) : WaitLabel M T → Prop
  | .own _ => True
  | .others new s' => (∀ retVal, a.1.pc t ≠ .idle retVal) ∧ Others m t a.1 new s'

/-! ## The law -/

/-- The call has returned: `e` is the first match, the messages `pre` before it were released in
order, and the messages `post` behind it are queued as they came. -/
structure Handled (m : M) (pMsg : Bool) (waitCmd : ℕ) (t : T) (s : MbxState M T) (log : WaitLog M)
    (pre : List (RcvMsg M)) (e : RcvMsg M) (post : List (RcvMsg M)) : Prop where
  stream : log.stream = pre ++ e :: post
  first : ∀ d ∈ pre, ¬d.IsCmd waitCmd
  cmd : e.IsCmd waitCmd
  releases : log.releases = pre.map RcvMsg.release ++ if pMsg then [] else [e.release]
  queued : (s.msgq (.rcvMbx m)).items = post.map RcvMsg.msg
  stored : ∀ d ∈ post, s.mem d.msg = some d.block
  returned : pMsg = true → (s.hands t).head? = some e.msg ∧ s.mem e.msg = some e.block

/-- `OSA_mbxWaitCmd` at any time: it is no fault, the releases are what its steps do to the queues
and the memory, and once a match has come it goes on, if the queue it answers to has room, until it
returns after a bounded number of steps of its own. -/
structure WaitCmdLaw (m : M) (pMsg : Bool) (waitCmd : ℕ) (t : T)
    (a : MbxState M T × WaitLog M) : Prop where
  noFault : a.1.pc t ≠ .fault
  returned : ∀ retVal, a.1.pc t = .idle retVal → retVal = osaSok ∧
    ∃ pre e post, Handled m pMsg waitCmd t a.1 a.2 pre e post
  effect : ∀ addr s', a.1.run t addr = some s' → Drains a.1 t s'
  goesOn : (∃ e ∈ a.2.stream, e.IsCmd waitCmd) → (∀ retVal, a.1.pc t ≠ .idle retVal) →
    (∀ q x next, a.1.pc t = .sendAck q x next → (a.1.msgq q).items.length < osaMsgqLenMax) →
    ∀ addr, ∃ s', a.1.run t addr = some s'
  returns : ∀ pre e post, a.2.stream = pre ++ e :: post → e.IsCmd waitCmd →
    4 * (pre.length + 1) ≤ a.2.steps → ∃ retVal, a.1.pc t = .idle retVal

end

/-! ## The messages of the thread -/

/-- The thread has the message in its hand, and the others are queued. -/
structure Inbox (m : M) (t : T) (s : MbxState M T) (hand : Option (RcvMsg M))
    (todo : List (RcvMsg M)) : Prop where
  rings : ∀ q, (s.msgq q).Rep osaMsgqLenMax
  held : (s.pc t).held = hand.map RcvMsg.msg
  items : (s.msgq (.rcvMbx m)).items = todo.map RcvMsg.msg
  nodup : ((hand.toList ++ todo).map RcvMsg.msg).Nodup
  stored : ∀ e ∈ hand.toList ++ todo, s.mem e.msg = some e.block
  sender : ∀ e ∈ hand.toList ++ todo, e.HasSender

variable {hand : Option (RcvMsg M)} {todo : List (RcvMsg M)}

theorem Inbox.inbox_eq (h : Inbox m t s hand todo) :
    s.inbox m t = (hand.toList ++ todo).map RcvMsg.msg := by
  rw [MbxState.inbox, h.held, h.items, List.map_append]
  cases hand <;> rfl

theorem Inbox.others (h : Inbox m t s hand todo) {new : List (RcvMsg M)}
    (ho : Others m t s new s') : Inbox m t s' hand (todo ++ new) := by
  have hnodup := ho.nodup
  have hmem := ho.mem
  rw [h.inbox_eq] at hnodup hmem
  refine ⟨ho.rings, by rw [ho.pc, h.held], ?_, ?_, fun e he ↦ ?_, fun e he ↦ ?_⟩
  · rw [ho.items, h.items, List.map_append]
  · rwa [← List.append_assoc, List.map_append]
  · rw [← List.append_assoc] at he
    rcases List.mem_append.mp he with he | he
    · rw [hmem e.msg (List.mem_map_of_mem he), h.stored e he]
    · exact ho.stored e he
  · rw [← List.append_assoc] at he
    rcases List.mem_append.mp he with he | he
    · exact h.sender e he
    · exact ho.sender e he

/-- What is known of the message in the thread's hand. -/
theorem Inbox.holds {e : RcvMsg M} (h : Inbox m t s (some e) todo) :
    s.mem e.msg = some e.block ∧ e.HasSender :=
  ⟨h.stored e (by simp), h.sender e (by simp)⟩

theorem Inbox.run_drains [DecidableEq M] [DecidableEq T] (h : Inbox m t s hand todo)
    (hcall : (s.pc t).call = none) {addr : MsgPtr} (hstep : s.run t addr = some s') :
    Drains s t s' := by
  cases hand with
  | none =>
      have hnot : ∀ x, (s.pc t).held ≠ some x := by
        intro x hx
        rw [h.held] at hx
        cases hx
      refine OsaBase.run_drains h.rings hcall (fun x hx ↦ (hnot x hx).elim) ?_ hstep
      exact MbxState.answers_of_ne fun x v next hpc ↦ hnot x (by rw [hpc]; rfl)
  | some e =>
      obtain ⟨hstored, hsender⟩ := h.holds
      refine OsaBase.run_drains h.rings hcall (fun x hx ↦ ?_) ?_ hstep
      · obtain rfl : e.msg = x := Option.some.inj (h.held.symm.trans hx)
        exact ⟨_, hstored⟩
      · refine MbxState.answers_of_held h.held hstored fun hwaits ↦ ?_
        obtain ⟨k, hk⟩ := hsender hwaits
        exact ⟨_, hk⟩

/-- A step of the thread that does not receive. -/
theorem Inbox.drains [DecidableEq M] (h : Inbox m t s hand todo) (hd : Drains s t s')
    (hsource : (s.pc t).source ≠ some (.rcvMbx m))
    (hrelease : ∀ r ∈ s.release t, r.ackTo (.rcvMbx m) = none) {hand' : Option (RcvMsg M)}
    (hheld : (s'.pc t).held = hand'.map RcvMsg.msg)
    (hmsg : ∀ e ∈ hand', hand.map RcvMsg.msg = some e.msg)
    (hstored : ∀ e ∈ hand', s'.mem e.msg = some e.block) (hsender : ∀ e ∈ hand', e.HasSender) :
    Inbox m t s' hand' todo := by
  have hnodup := h.nodup
  rw [List.map_append] at hnodup
  have hfar : ∀ e ∈ todo, hand.map RcvMsg.msg ≠ some e.msg := by
    intro e he heq
    refine (List.nodup_append.mp hnodup).2.2 e.msg ?_ e.msg (List.mem_map_of_mem he) rfl
    obtain ⟨d, rfl, hd⟩ := Option.map_eq_some_iff.mp heq
    simp [hd]
  refine ⟨hd.rings, hheld, ?_, ?_, fun e he ↦ ?_, fun e he ↦ ?_⟩
  · have hnone : (s.release t).toList.filterMap (Release.ackTo (.rcvMbx m)) = [] := by
      rw [List.filterMap_eq_nil_iff]
      exact fun r hr ↦ hrelease r (Option.mem_toList.mp hr)
    rw [hd.released.queues _ hsource, hnone, List.append_nil, h.items]
  · rw [List.map_append]
    cases hand' with
    | none => exact (List.nodup_append.mp hnodup).2.1
    | some e =>
        have hhand : hand.toList.map RcvMsg.msg = [e.msg] := by
          have := hmsg e rfl
          cases hand <;> simp_all
        rwa [hhand] at hnodup
  · rcases List.mem_append.mp he with he | he
    · exact hstored e (Option.mem_toList.mp he)
    · rw [hd.mem e.msg, h.stored e (List.mem_append_right _ he)]
      rw [h.held]
      exact hfar e he
  · rcases List.mem_append.mp he with he | he
    · exact hsender e (Option.mem_toList.mp he)
    · exact h.sender e (List.mem_append_right _ he)

/-! ## The phases of the call -/

/-- `k` steps into the pass of the loop for the message `current`; those before it are released. -/
structure WaitPass (m : M) (waitCmd : ℕ) (t : T) (s : MbxState M T) (log : WaitLog M) (k : ℕ)
    (pre : List (RcvMsg M)) (current hand : Option (RcvMsg M)) (todo : List (RcvMsg M)) :
    Prop where
  stream : log.stream = pre ++ (current.toList ++ todo)
  first : ∀ d ∈ pre, ¬d.IsCmd waitCmd
  releases : log.releases = pre.map RcvMsg.release
  steps : log.steps ≤ 4 * pre.length + k
  inbox : Inbox m t s hand todo

/-- Where `OSA_mbxAckOrFreeMsg` returns to: a match ends the call. -/
def Follows (m : M) (pMsg : Bool) (waitCmd : ℕ) (e : RcvMsg M) (next : MbxNext M) : Prop :=
  (next = .waitCmd m pMsg waitCmd ∧ ¬e.IsCmd waitCmd) ∨
    (next = .ret ∧ pMsg = false ∧ e.IsCmd waitCmd)

inductive WaitPhase (m : M) (pMsg : Bool) (waitCmd : ℕ) (t : T) (s : MbxState M T)
    (log : WaitLog M) : MbxPc M → Prop
  | wait (pre todo : List (RcvMsg M)) (h : WaitPass m waitCmd t s log 0 pre none none todo) :
      WaitPhase m pMsg waitCmd t s log (.waitCmd m pMsg waitCmd)
  | got (pre : List (RcvMsg M)) (e : RcvMsg M) (todo : List (RcvMsg M))
      (h : WaitPass m waitCmd t s log 1 pre (some e) (some e) todo) :
      WaitPhase m pMsg waitCmd t s log (.waitCmdGot m pMsg waitCmd e.msg)
  | ackOrFree (pre : List (RcvMsg M)) (e : RcvMsg M) (todo : List (RcvMsg M)) (next : MbxNext M)
      (h : WaitPass m waitCmd t s log 2 pre (some e) (some e) todo)
      (hnext : Follows m pMsg waitCmd e next) :
      WaitPhase m pMsg waitCmd t s log (.ackOrFree e.msg osaSok next)
  | sendAck (q : MsgqPtr M) (pre : List (RcvMsg M)) (e : RcvMsg M) (todo : List (RcvMsg M))
      (next : MbxNext M) (h : WaitPass m waitCmd t s log 3 pre (some e) (some e.answered) todo)
      (hwaits : e.block.waitsAck = true) (hfrom : e.block.pFrom = some q)
      (hnext : Follows m pMsg waitCmd e next) :
      WaitPhase m pMsg waitCmd t s log (.sendAck q e.msg next)
  | idle (pre : List (RcvMsg M)) (e : RcvMsg M) (post : List (RcvMsg M))
      (h : Handled m pMsg waitCmd t s log pre e post) :
      WaitPhase m pMsg waitCmd t s log (.idle osaSok)

variable {log : WaitLog M} {pre : List (RcvMsg M)} {e : RcvMsg M} {k : ℕ} {next : MbxNext M}
  {addr : MsgPtr}

theorem WaitPass.others {current : Option (RcvMsg M)} {new : List (RcvMsg M)}
    (h : WaitPass m waitCmd t s log k pre current hand todo) (ho : Others m t s new s') :
    WaitPass m waitCmd t s' { log with stream := log.stream ++ new } k pre current hand
      (todo ++ new) where
  stream := by
    rw [h.stream]
    simp only [List.append_assoc]
  first := h.first
  releases := h.releases
  steps := h.steps
  inbox := h.inbox.others ho

/-- The message is released, and `OSA_mbxAckOrFreeMsg` returns. -/
theorem WaitPass.released [DecidableEq M] (h : WaitPass m waitCmd t s log k pre (some e) hand todo)
    (hk : k ≤ 3) (hnext : Follows m pMsg waitCmd e next) (hsender : e.HasSender)
    (hd : Drains s t s')
    (hsource : (s.pc t).source ≠ some (.rcvMbx m)) (hrelease : s.release t = some e.release)
    (hpc : s'.pc t = next.pc) :
    WaitPhase m pMsg waitCmd t s' (log.own (s.release t)) (s'.pc t) := by
  have hack : ∀ r ∈ s.release t, r.ackTo (.rcvMbx m) = none := by
    intro r hr
    rw [hrelease, Option.mem_some_iff] at hr
    subst hr
    exact hsender.ackTo_rcvMbx m
  have hheld : (s'.pc t).held = none := by
    rw [hpc]
    cases next <;> rfl
  have hinbox : Inbox m t s' none todo :=
    h.inbox.drains hd hsource hack hheld (fun _ hd ↦ by cases hd) (fun _ hd ↦ by cases hd)
      (fun _ hd ↦ by cases hd)
  rw [hpc]
  rcases hnext with ⟨rfl, hno⟩ | ⟨rfl, rfl, hcmd⟩
  · refine .wait (pre ++ [e]) todo ⟨?_, ?_, ?_, ?_, hinbox⟩
    · simpa [WaitLog.own] using h.stream
    · intro d hd
      rcases List.mem_append.mp hd with hd | hd
      · exact h.first d hd
      · rwa [List.mem_singleton.mp hd]
    · simp [WaitLog.own, h.releases, hrelease]
    · have hsteps := h.steps
      simp only [WaitLog.own, List.length_append, List.length_singleton]
      omega
  · refine .idle pre e todo ⟨h.stream, h.first, hcmd, ?_, hinbox.items, ?_, ?_⟩
    · simp [WaitLog.own, h.releases, hrelease]
    · exact fun d hd ↦ hinbox.stored d (by simpa using hd)
    · exact fun hp ↦ by cases hp

section

variable [DecidableEq M] [DecidableEq T]

/-- A message is taken off the queue. -/
theorem WaitPass.take (h : WaitPass m waitCmd t s log 0 pre none none todo)
    (hpc : s.pc t = .waitCmd m pMsg waitCmd) (hstep : s.run t addr = some s') :
    WaitPhase m pMsg waitCmd t s' (log.own (s.release t)) (s'.pc t) := by
  have hnone : s.release t = none := by simp [MbxState.release, hpc]
  simp only [MbxState.run, hpc] at hstep
  obtain ⟨r, hr, hstep⟩ := Option.bind_eq_some_iff.mp hstep
  rcases recvMsg_cases h.inbox.rings hr with ⟨hndl, x, rfl, hrep, hitems⟩ | ⟨rfl, -⟩
  · cases hstep
    obtain ⟨e, todo, rfl⟩ : ∃ e todo', todo = e :: todo' := by
      rw [h.inbox.items] at hitems
      cases todo with
      | nil => cases hitems
      | cons e todo => exact ⟨e, todo, rfl⟩
    obtain ⟨rfl, hrest⟩ := List.cons.inj (h.inbox.items.symm.trans hitems)
    rw [MbxState.goto_pc_self, hnone]
    refine .got pre e todo ⟨h.stream, h.first, by simpa [WaitLog.own] using h.releases,
      Nat.succ_le_succ h.steps, ?_⟩
    refine ⟨rings_update h.inbox.rings hrep, ?_, ?_, h.inbox.nodup, h.inbox.stored,
      h.inbox.sender⟩
    · rw [MbxState.goto_pc_self]
      rfl
    · change (Function.update s.msgq (.rcvMbx m) hndl (.rcvMbx m)).items = _
      rw [Function.update_self, hrest]
  · cases hstep

/-- The `cmd` of the message is compared. -/
theorem WaitPass.look (h : WaitPass m waitCmd t s log 1 pre (some e) (some e) todo)
    (hpc : s.pc t = .waitCmdGot m pMsg waitCmd e.msg) (hstep : s.run t addr = some s') :
    WaitPhase m pMsg waitCmd t s' (log.own (s.release t)) (s'.pc t) := by
  have hnone : s.release t = none := by simp [MbxState.release, hpc]
  obtain ⟨hstored, hsender⟩ := h.inbox.holds
  have hpass : ∀ next, s' = s.goto t (.ackOrFree e.msg osaSok next) →
      WaitPass m waitCmd t s' (log.own (s.release t)) 2 pre (some e) (some e) todo := by
    rintro next rfl
    refine ⟨h.stream, h.first, by simpa [WaitLog.own, hnone] using h.releases,
      Nat.succ_le_succ h.steps, h.inbox.rings, ?_, h.inbox.items, h.inbox.nodup, h.inbox.stored,
      h.inbox.sender⟩
    rw [MbxState.goto_pc_self]
    rfl
  simp only [MbxState.run, hpc, hstored] at hstep
  by_cases hcmd : e.block.cmd = uint16 waitCmd
  · cases hp : pMsg with
    | true =>
        simp only [hcmd, if_true, hp, Option.some.injEq] at hstep
        subst hstep
        have hpc' : ∀ hands, ({ s.goto t (.idle osaSok) with hands := hands }).pc t =
            .idle osaSok := fun _ ↦ MbxState.goto_pc_self ..
        rw [hpc']
        refine .idle pre e todo ⟨h.stream, h.first, hcmd, ?_, h.inbox.items, ?_, fun _ ↦ ?_⟩
        · simpa [WaitLog.own, hnone] using h.releases
        · exact fun d hd ↦ h.inbox.stored d (by simp [hd])
        · exact ⟨by simp, hstored⟩
    | false =>
        simp only [hcmd, if_true, hp, Bool.false_eq_true, if_false, Option.some.injEq] at hstep
        have h' := hpass _ hstep.symm
        subst hstep
        rw [MbxState.goto_pc_self]
        exact .ackOrFree pre e todo _ h' (Or.inr ⟨rfl, rfl, hcmd⟩)
  · simp only [hcmd, if_false, Option.some.injEq] at hstep
    have h' := hpass _ hstep.symm
    subst hstep
    rw [MbxState.goto_pc_self]
    exact .ackOrFree pre e todo _ h' (Or.inl ⟨rfl, hcmd⟩)

/-- `OSA_mbxAckOrFreeMsg` notes the answer in the message, or frees it. -/
theorem WaitPass.answer (h : WaitPass m waitCmd t s log 2 pre (some e) (some e) todo)
    (hnext : Follows m pMsg waitCmd e next) (hpc : s.pc t = .ackOrFree e.msg osaSok next)
    (hstep : s.run t addr = some s') :
    WaitPhase m pMsg waitCmd t s' (log.own (s.release t)) (s'.pc t) := by
  obtain ⟨hstored, hsender⟩ := h.inbox.holds
  have hd := h.inbox.run_drains (by rw [hpc]; rfl) hstep
  have hsource : (s.pc t).source ≠ some (.rcvMbx m) := by
    rw [hpc]
    exact fun hs ↦ by cases hs
  cases hwaits : e.block.waitsAck with
  | true =>
      obtain ⟨k, hk⟩ := hsender hwaits
      have hnone : s.release t = none := by simp [MbxState.release, hpc, hstored, hwaits]
      rw [run_answer hpc hstored hwaits hk] at hstep
      cases hstep
      rw [MbxState.goto_pc_self]
      refine .sendAck _ pre e todo next ⟨h.stream, h.first, ?_, Nat.succ_le_succ h.steps, ?_⟩
        hwaits hk hnext
      · simpa [WaitLog.own, hnone] using h.releases
      · refine h.inbox.drains hd hsource (fun r hr ↦ by rw [hnone] at hr; cases hr) ?_ ?_ ?_ ?_
        · rw [MbxState.goto_pc_self]
          rfl
        · rintro _ ⟨⟩
          rfl
        · rintro _ ⟨⟩
          exact Function.update_self ..
        · rintro _ ⟨⟩
          exact hsender
  | false =>
      have hrelease : s.release t = some e.release := by
        simp [MbxState.release, hpc, hstored, hwaits, RcvMsg.release]
      rw [run_free hpc hstored hwaits] at hstep
      cases hstep
      exact h.released (by omega) hnext hsender hd hsource hrelease (MbxState.goto_pc_self ..)

/-- The answered message is put into the queue of its sender. -/
theorem WaitPass.send {q : MsgqPtr M}
    (h : WaitPass m waitCmd t s log 3 pre (some e) (some e.answered) todo)
    (hwaits : e.block.waitsAck = true) (hfrom : e.block.pFrom = some q)
    (hnext : Follows m pMsg waitCmd e next) (hpc : s.pc t = .sendAck q e.msg next)
    (hstep : s.run t addr = some s') :
    WaitPhase m pMsg waitCmd t s' (log.own (s.release t)) (s'.pc t) := by
  obtain ⟨hstored, hsender⟩ := h.inbox.holds
  have hd := h.inbox.run_drains (by rw [hpc]; rfl) hstep
  have hsource : (s.pc t).source ≠ some (.rcvMbx m) := by
    rw [hpc]
    exact fun hs ↦ by cases hs
  have hmem : s.mem e.msg = some e.answered.block := hstored
  have hrelease : s.release t = some e.release := by
    simp [MbxState.release, hpc, hmem, hwaits, hfrom, RcvMsg.release]
  have hpc' : s'.pc t = next.pc := by
    simp only [MbxState.run, hpc] at hstep
    obtain ⟨s₁, -, rfl⟩ := Option.map_eq_some_iff.mp hstep
    exact MbxState.goto_pc_self ..
  exact h.released (by omega) hnext hsender hd hsource hrelease hpc'

/-- A step of the waiting thread. -/
theorem WaitPhase.own (h : WaitPhase m pMsg waitCmd t s log (s.pc t))
    (hstep : s.run t addr = some s') :
    WaitPhase m pMsg waitCmd t s' (log.own (s.release t)) (s'.pc t) := by
  generalize hpc : s.pc t = pc at h
  cases h with
  | wait pre todo h => exact h.take hpc hstep
  | got pre e todo h => exact h.look hpc hstep
  | ackOrFree pre e todo next h hnext => exact h.answer hnext hpc hstep
  | sendAck q pre e todo next h hwaits hfrom hnext => exact h.send hwaits hfrom hnext hpc hstep
  | idle => simp [MbxState.run, hpc] at hstep

omit [DecidableEq M] [DecidableEq T] in
/-- A step of the others. -/
theorem WaitPhase.others {new : List (RcvMsg M)} (h : WaitPhase m pMsg waitCmd t s log (s.pc t))
    (hcall : ∀ retVal, s.pc t ≠ .idle retVal) (ho : Others m t s new s') :
    WaitPhase m pMsg waitCmd t s' { log with stream := log.stream ++ new } (s'.pc t) := by
  rw [ho.pc]
  generalize hpc : s.pc t = pc at h
  cases h with
  | wait pre todo h => exact .wait pre _ (h.others ho)
  | got pre e todo h => exact .got pre e _ (h.others ho)
  | ackOrFree pre e todo next h hnext => exact .ackOrFree pre e _ next (h.others ho) hnext
  | sendAck q pre e todo next h hwaits hfrom hnext =>
      exact .sendAck q pre e _ next (h.others ho) hwaits hfrom hnext
  | idle => exact (hcall _ hpc).elim

theorem WaitPhase.reach {a b : MbxState M T × WaitLog M}
    (hreach : Reach (waitStep t) (WaitOk m t) a b)
    (h : WaitPhase m pMsg waitCmd t a.1 a.2 (a.1.pc t)) :
    WaitPhase m pMsg waitCmd t b.1 b.2 (b.1.pc t) := by
  apply hreach.invariant (I := fun b ↦ WaitPhase m pMsg waitCmd t b.1 b.2 (b.1.pc t)) h
  intro a l b h hok hstep
  cases l with
  | own addr =>
      obtain ⟨s', hrun, rfl⟩ := Option.map_eq_some_iff.mp hstep
      exact h.own hrun
  | others new s' =>
      cases hstep
      exact h.others hok.1 hok.2

/-! ## What follows from the phase -/

omit [DecidableEq M] [DecidableEq T] in
/-- The pass is not behind the first match. -/
theorem WaitPass.length_le {current : Option (RcvMsg M)}
    (h : WaitPass m waitCmd t s log k pre current hand todo) {pre' post : List (RcvMsg M)}
    {e : RcvMsg M} (hstream : log.stream = pre' ++ e :: post) (hcmd : e.IsCmd waitCmd) :
    pre.length ≤ pre'.length := by
  by_contra hlt
  have hget : log.stream[pre'.length]? = some e := by
    rw [hstream]
    simp
  rw [h.stream, List.getElem?_append_left (by omega)] at hget
  exact h.first e (List.mem_of_getElem? hget) hcmd

omit [DecidableEq M] [DecidableEq T] in
theorem WaitPass.steps_lt {current : Option (RcvMsg M)}
    (h : WaitPass m waitCmd t s log k pre current hand todo) (hk : k ≤ 3)
    {pre' post : List (RcvMsg M)} {e : RcvMsg M} (hstream : log.stream = pre' ++ e :: post)
    (hcmd : e.IsCmd waitCmd) : log.steps < 4 * (pre'.length + 1) := by
  have hle := h.length_le hstream hcmd
  have hsteps := h.steps
  omega

theorem WaitPhase.effect (h : WaitPhase m pMsg waitCmd t s log (s.pc t))
    (hstep : s.run t addr = some s') : Drains s t s' := by
  generalize hpc : s.pc t = pc at h
  have hcall : pc.call = none := by cases h <;> rfl
  obtain ⟨hand, todo, hinbox⟩ : ∃ hand todo, Inbox m t s hand todo := by
    cases h with
    | wait pre todo h | got pre e todo h | ackOrFree pre e todo next h
    | sendAck q pre e todo next h => exact ⟨_, _, h.inbox⟩
    | idle => simp [MbxState.run, hpc] at hstep
  exact hinbox.run_drains (hpc ▸ hcall) hstep

/-- The next step is enabled: a message is there, and the queue it answers to has room. -/
theorem WaitPhase.goesOn (h : WaitPhase m pMsg waitCmd t s log (s.pc t))
    (hmatch : ∃ e ∈ log.stream, e.IsCmd waitCmd) (hcall : ∀ retVal, s.pc t ≠ .idle retVal)
    (hroom : ∀ q x next, s.pc t = .sendAck q x next →
      (s.msgq q).items.length < osaMsgqLenMax) (addr : MsgPtr) :
    ∃ s', s.run t addr = some s' := by
  generalize hpc : s.pc t = pc at h
  cases h with
  | wait pre todo h =>
      obtain ⟨e, he, hcmd⟩ := hmatch
      obtain ⟨d, todo, rfl⟩ : ∃ d todo', todo = d :: todo' := by
        cases todo with
        | nil =>
            rw [h.stream] at he
            exact (h.first e (by simpa using he) hcmd).elim
        | cons d todo => exact ⟨d, todo, rfl⟩
      obtain ⟨hndl, hrecv, -⟩ :=
        recvMsg_eq (h.inbox.rings _) h.inbox.items osaTimeoutForever
      simp [MbxState.run, hpc, hrecv]
  | got pre e todo h =>
      simp only [MbxState.run, hpc, h.inbox.holds.1]
      split
      · split
        · exact ⟨_, rfl⟩
        · exact ⟨_, rfl⟩
      · exact ⟨_, rfl⟩
  | ackOrFree => simp [MbxState.run, hpc]
  | sendAck q pre e todo next h =>
      obtain ⟨s₁, hsend, -⟩ :=
        send_eq (x := e.msg) (h.inbox.rings q) (hroom q e.msg next hpc)
      simp [MbxState.run, hpc, hsend]
  | idle => exact (hcall _ hpc).elim

/-- For every stream that comes while the call is in progress, `OSA_mbxWaitCmd` releases what is
before the first match, and returns the match or releases it too. -/
theorem osaMbxWaitCmd_handles (m : M) (t : T) (pMsg : Bool) (waitCmd : ℕ) {s : MbxState M T}
    {stream : List (RcvMsg M)} (hqueued : Queued m s stream) {a : MbxState M T × WaitLog M}
    (h : Reach (waitStep t) (WaitOk m t)
      (s.invoke t (.waitCmd m pMsg waitCmd), ⟨stream, [], 0⟩) a) :
    WaitCmdLaw m pMsg waitCmd t a := by
  have hstart : WaitPhase m pMsg waitCmd t (s.invoke t (.waitCmd m pMsg waitCmd)) ⟨stream, [], 0⟩
      ((s.invoke t (.waitCmd m pMsg waitCmd)).pc t) := by
    have hpc : (s.invoke t (.waitCmd m pMsg waitCmd)).pc t = .waitCmd m pMsg waitCmd :=
      MbxState.goto_pc_self ..
    rw [hpc]
    refine .wait [] stream ⟨rfl, (fun d hd ↦ by cases hd), rfl, Nat.zero_le _, hqueued.rings,
      ?_, hqueued.items, hqueued.nodup, hqueued.stored, hqueued.sender⟩
    rw [hpc]
    rfl
  have hphase := hstart.reach h
  refine ⟨fun hpc ↦ ?_, fun retVal hpc ↦ ?_, fun addr s' hstep ↦ hphase.effect hstep,
    hphase.goesOn, fun pre e post hsplit hcmd hsteps ↦ ?_⟩
  · rw [hpc] at hphase
    cases hphase
  · rw [hpc] at hphase
    cases hphase with
    | idle pre e post h => exact ⟨rfl, pre, e, post, h⟩
  · generalize hpc : a.1.pc t = pc at hphase
    cases hphase with
    | wait pre' todo h => exact absurd hsteps (Nat.not_le.mpr (h.steps_lt (by omega) hsplit hcmd))
    | got pre' e' todo h =>
        exact absurd hsteps (Nat.not_le.mpr (h.steps_lt (by omega) hsplit hcmd))
    | ackOrFree pre' e' todo next h =>
        exact absurd hsteps (Nat.not_le.mpr (h.steps_lt (by omega) hsplit hcmd))
    | sendAck q pre' e' todo next h =>
        exact absurd hsteps (Nat.not_le.mpr (h.steps_lt (by omega) hsplit hcmd))
    | idle => exact ⟨_, rfl⟩

end

/-- A message to be acknowledged, one to be freed with its parameter, and the match. -/
def threeMsgs : List (RcvMsg Unit) :=
  [⟨1, ⟨⟨.rcvMbx (), some (.ackMbx ()), none, 0, 7, 2⟩, 0⟩⟩,
    ⟨2, ⟨⟨.rcvMbx (), none, some 40, 0, 8, 4⟩, 1⟩⟩, ⟨3, ⟨⟨.rcvMbx (), none, none, 0, 5, 0⟩, 2⟩⟩]

def threeMsgsState : MbxState Unit Unit where
  msgq
    | .rcvMbx _ =>
      (((osaMsgqCreate (Vector.replicate osaMsgqLenMax 0) osaSok).2.push 1).push 2).push 3
    | .ackMbx _ => (osaMsgqCreate (Vector.replicate osaMsgqLenMax 0) osaSok).2
  mem x := (threeMsgs.find? fun e ↦ e.msg == x).map RcvMsg.block
  hands _ := []
  pc _ := .idle osaSok
  log := ⟨3, [], [], [], [], [], []⟩

theorem threeMsgsState_queued : Queued () threeMsgsState threeMsgs := by
  have hempty : ((osaMsgqCreate (Vector.replicate osaMsgqLenMax 0) osaSok).2).Rep osaMsgqLenMax :=
    (osaMsgqCreate_rep rfl).1
  refine ⟨fun q ↦ ?_, by decide, by decide, by decide, fun e he hwaits ↦ ?_⟩
  · cases q with
    | rcvMbx m =>
        exact ⟨((hempty.wf.push (by decide) 1).push (by decide) 2).push (by decide) 3, rfl⟩
    | ackMbx m => exact hempty
  · simp only [threeMsgs, List.mem_cons, List.not_mem_nil, or_false] at he
    rcases he with rfl | rfl | rfl
    · exact ⟨(), rfl⟩
    · cases hwaits
    · cases hwaits

/-- The call on these three messages returns the last of them. -/
theorem osaMbxWaitCmd_handles_three :
    ∃ a : MbxState Unit Unit × WaitLog Unit, a.1.pc () = .idle osaSok ∧ a.1.hands () = [3] ∧
      a.1.log.prmFreed = [40] ∧ WaitCmdLaw () true 5 () a := by
  obtain ⟨a, ha, hlog⟩ := Reach.exists_of_exec (waitStep ()) (fun _ l ↦ l.isOwn = true)
    (threeMsgsState.invoke () (.waitCmd () true 5), ⟨threeMsgs, [], 0⟩) (List.replicate 9 (.own 0))
    (fun a ↦ decide (a.1.pc () = .idle osaSok ∧ a.1.hands () = [3] ∧ a.1.log.prmFreed = [40]))
    (by decide)
  obtain ⟨hpc, hhands, hprm⟩ := of_decide_eq_true hlog
  have hreach : Reach (waitStep ()) (WaitOk () ()) _ a := ha.mono fun _ l hown ↦ by
    cases l with
    | own addr => trivial
    | others new s' => cases hown
  exact ⟨a, hpc, hhands, hprm, osaMbxWaitCmd_handles () () true 5 threeMsgsState_queued hreach⟩

/-! ## The other threads of the mailboxes -/

section Mailboxes

variable [DecidableEq M] [DecidableEq T] {P : MbxSend M → ℕ → Prop} {l : MbxLabel M T}

omit [DecidableEq M] [DecidableEq T] in
theorem MbxInv.hasSender (hs : MbxInv P s) {e : RcvMsg M} (he : s.mem e.msg = some e.block) :
    e.HasSender := by
  intro hwaits
  obtain ⟨t, ht⟩ := (hs.pending.live_iff e.msg).mp ⟨e.block, he, hwaits⟩
  obtain ⟨d, hd, hmsg⟩ := List.mem_map.mp ht
  obtain ⟨c, hc⟩ := MbxPc.call_of_pending hd
  have hsent := hs.sentBy t c d e.block hc hd (hmsg ▸ he)
  obtain ⟨q, hq⟩ := (hs.stage t).ackMbx_of_pending hc hd
  obtain ⟨k, -, rfl⟩ := MbxSend.ackMbx_eq hq
  exact ⟨k, hsent.pFrom.trans hq⟩

omit [DecidableEq M] [DecidableEq T] in
/-- A queue at any time holds what a call can begin with. -/
theorem MbxInv.queued (hs : MbxInv P s) (m : M) : ∃ stream, Queued m s stream := by
  have hblocks : ∀ xs : List MsgPtr, (∀ x ∈ xs, ∃ b, s.mem x = some b) →
      ∃ stream : List (RcvMsg M), stream.map RcvMsg.msg = xs ∧
        ∀ e ∈ stream, s.mem e.msg = some e.block := by
    intro xs hxs
    induction xs with
    | nil => exact ⟨[], rfl, fun e he ↦ by cases he⟩
    | cons x xs ih =>
        obtain ⟨b, hb⟩ := hxs x (by simp)
        obtain ⟨stream, rfl, hstored⟩ := ih fun y hy ↦ hxs y (by simp [hy])
        refine ⟨⟨x, b⟩ :: stream, rfl, fun e he ↦ ?_⟩
        rcases List.mem_cons.mp he with rfl | he
        · exact hb
        · exact hstored e he
  have hall : ∀ x ∈ (s.msgq (.rcvMbx m)).items, ∃ b, s.mem x = some b := by
    intro x hx
    have hplace : x ∈ s.places (.queue (.rcvMbx m)) := hx
    exact hs.handles.live_of_mem hplace
  obtain ⟨stream, hitems, hstored⟩ := hblocks _ hall
  refine ⟨stream, hs.rings, hitems.symm, ?_, hstored, fun e he ↦ hs.hasSender (hstored e he)⟩
  rw [hitems]
  exact hs.handles.nodup (.queue (.rcvMbx m))

/-- A step of another thread that does not receive from the mailbox. -/
theorem MbxInv.others (hs : MbxInv P s) (hok : MbxOk s l) (hcall : ∀ cn ∈ l.send, P cn.1 cn.2)
    (h : mbxStep s l = some s') (ht : t ≠ l.thread)
    (hsource : (s.pc l.thread).source ≠ some (.rcvMbx m)) : ∃ new, Others m t s new s' := by
  have hleaves := hs.step_leaves hok hcall h ht
  have hs' := hs.step hok hcall h
  refine ⟨(arrived (.rcvMbx m) (s.msgqSend l).toList).map fun e ↦ ⟨e.msg, e.block⟩, hleaves.pc,
    hs'.rings, ?_, ?_, fun x hx ↦ ?_, fun e he ↦ ?_, fun e he ↦ ?_⟩
  · rw [hs.step_items h hsource, List.map_map]
    rfl
  · rw [List.map_map]
    have hinbox : (s'.inbox m t) = s.inbox m t ++
        (arrived (.rcvMbx m) (s.msgqSend l).toList).map MsgqSend.msg := by
      rw [MbxState.inbox, hleaves.pc, hs.step_items h hsource, MbxState.inbox, List.append_assoc]
    change (s.inbox m t ++ (arrived (.rcvMbx m) (s.msgqSend l).toList).map MsgqSend.msg).Nodup
    rw [← hinbox]
    refine List.nodup_append.mpr ⟨hs'.handles.nodup (MbxPlace.thread t),
      hs'.handles.nodup (MbxPlace.queue (.rcvMbx m)), ?_⟩
    rintro x hx y hy rfl
    have hsame := hs'.handles.unique (MbxPlace.thread t) (MbxPlace.queue (.rcvMbx m)) x hx hy
    cases hsame
  · rcases List.mem_append.mp hx with hx | hx
    · exact hleaves.held x (Option.mem_toList.mp hx)
    · exact hleaves.queued _ x hx
  · obtain ⟨d, hd, rfl⟩ := List.mem_map.mp he
    obtain ⟨hmem, hsame, -⟩ := msgqSend_mem h (Option.mem_toList.mp (List.mem_filter.mp hd).1)
    exact hsame ▸ hmem
  · obtain ⟨d, hd, rfl⟩ := List.mem_map.mp he
    obtain ⟨hmem, -⟩ := msgqSend_mem h (Option.mem_toList.mp (List.mem_filter.mp hd).1)
    exact hs.hasSender hmem

/-- The steps of all threads during the call; nobody else receives from the mailbox. -/
def InWaitCmd (m : M) (t : T) (s : MbxState M T) (l : MbxLabel M T) : Prop :=
  MbxOk s l ∧ (∀ retVal, s.pc t ≠ .idle retVal) ∧
    (t ≠ l.thread → (s.pc l.thread).source ≠ some (.rcvMbx m))

/-- Every run of the mailboxes during the call is one of `waitStep`. -/
theorem reach_waitStep (hs : MbxInv (fun _ _ ↦ True) s) (h : Reach mbxStep (InWaitCmd m t) s s')
    (log : WaitLog M) :
    ∃ log', Reach (waitStep t) (WaitOk m t) (s, log) (s', log') ∧
      MbxInv (fun _ _ ↦ True) s' := by
  induction h with
  | refl => exact ⟨log, .refl, hs⟩
  | @tail a b l _ hok hstep ih =>
      obtain ⟨log', hreach, ha⟩ := ih
      have hb := ha.step hok.1 (fun _ _ ↦ trivial) hstep
      by_cases ht : t = l.thread
      · subst ht
        cases l with
        | invoke u call =>
            simp only [mbxStep] at hstep
            split at hstep
            · next hpc => exact (hok.2.1 _ hpc).elim
            · cases hstep
        | run u addr =>
            have hrun : a.run u addr = some b := hstep
            have hown : waitStep u (a, log') (.own addr) = some (b, log'.own (a.release u)) := by
              rw [waitStep, hrun]
              rfl
            exact ⟨_, hreach.tail (.own addr) trivial hown, hb⟩
      · obtain ⟨new, ho⟩ := ha.others hok.1 (fun _ _ ↦ trivial) hstep ht (hok.2.2 ht)
        exact ⟨_, hreach.tail (.others new b) ⟨hok.2.1, ho⟩ rfl, hb⟩

end Mailboxes

end OsaBase
