import OsaBase.Server.Invariant

/-!
# The end of `OSA_server_destory`

`OSA_server_destory` waits until the clients have removed themselves from the list and
`OSA_server_thread` has stored `SERVER_ABOR`. The thread never stores it if its socket could not be
made, and a client of a STREAM_TYPE server may wait for a slot that nobody puts any more. Everybody
else can go on: a queue to which a thread gives a slot back always has room for it.
-/

open Transition

namespace OsaBase.Server

variable {param : ServerParam} {s s' : State} {l : Label param}

/-- Some thread of the server can still make a step. -/
def State.Active (param : ServerParam) (s : State) : Prop :=
  (∃ a s', step param s (.server a) = some s') ∨
    ∃ (i : ℕ) (a : CliAnswer param) (s' : State), step param s (.client i a) = some s'

/-- While `OSA_server_destory` waits and no broadcast runs, the server is not stuck. -/
def ShutdownLaw (param : ServerParam) (s : State) : Prop :=
  s.app.stopped = true → s.app.freed = false → s.sender = .idle →
    s.list.listSize ≠ 0 ∨ s.status ≠ .abor → s.Active param

/-- No client of the list waits for a slot. -/
def NoneWaits (s : State) : Prop :=
  ∀ thr ∈ s.threads, thr.handle ∈ s.list.contents → thr.pc = .getFull →
    ∀ h ∈ s.handles thr.handle, h.clientBuf.fullQue.count ≠ 0

instance (s : State) : Decidable (NoneWaits s) :=
  inferInstanceAs (Decidable (∀ thr ∈ s.threads, _ → _ → ∀ h ∈ s.handles thr.handle, _))

/-- The listening socket is made; no node fails to be allocated behind another one; no client of the
list waits for a slot when `SERVER_STOP` is stored, or when the broadcast ends that was running
then. -/
def ShutdownOk (param : ServerParam) (s : State) : Label param → Prop
  | .server (.create a) => (osaCreateTcpFd param.serverPort a).1 = osaSok
  | .client _ (.node none) => s.list.nSize = 0
  | .app => s.app = .setStop → s.sender = .idle → NoneWaits s
  | .sender => s.sender = .node none → s.app.stopped = true → s.status ≠ .star → NoneWaits s
  | _ => True

theorem ShutdownOk.nodes (h : ShutdownOk param s l) : NodesOk param s l := by
  unfold NodesOk
  split
  · exact h
  · trivial

/-! ## Room for the slots in hand -/

/-- The slots that the thread is to put back. -/
def CliPc.slots : CliPc → ℕ
  | .send _ | .putEmpty _ => 1
  | _ => 0

theorem CliPc.slots_ite_le {c : Prop} [Decidable c] {pc pc' : CliPc} {n : ℕ} (hpc : pc.slots ≤ n)
    (hpc' : pc'.slots ≤ n) : (if c then pc else pc').slots ≤ n := by
  split
  · exact hpc
  · exact hpc'

/-- The slots that the broadcast is to put into the pool of `handle`. -/
def SendPc.slots (handle : ℕ) : SendPc → ℕ
  | .putFull _ x _ => if x = handle then 1 else 0
  | _ => 0

/-- The empty queue has room for all the slots that are not in it. -/
def Room (pc : SendPc) (thr : CliThread) (h : OprHandle) : Prop :=
  0 < h.clientBuf.numBuf → h.clientBuf.emptyQue.count + h.clientBuf.fullQue.count + thr.pc.slots +
    pc.slots thr.handle ≤ h.clientBuf.emptyQue.len

theorem Room.mono {pc pc' : SendPc} {thr thr' : CliThread} {h h' : OprHandle} (hs : Room pc thr h)
    (hbuf : h'.clientBuf = h.clientBuf) (hhandle : thr'.handle = thr.handle)
    (hslots : thr'.pc.slots ≤ thr.pc.slots) (hpc : pc'.slots thr.handle ≤ pc.slots thr.handle) :
    Room pc' thr' h' := by
  intro hpos
  rw [hbuf] at hpos ⊢
  rw [hhandle]
  have := hs hpos
  omega

theorem Room.move {server : ServerStatus} {pc : SendPc} {thr thr' : CliThread} {h : OprHandle}
    {a : CliAnswer param} {e : CliEffect} (hs : Room pc thr h)
    (hpc : thr.pc = .createBuf → pc.slots thr.handle = 0)
    (hmove : Move param server thr h a thr' e) : Room pc thr' (e.handle h) := by
  have hkeep : thr'.pc.slots ≤ thr.pc.slots → (e.handle h).clientBuf = h.clientBuf →
      Room pc thr' (e.handle h) := fun hslots hbuf ↦ hs.mono hbuf hmove.keeps.1 hslots le_rfl
  cases hmove with
  | createBuf mem initStatus r hthr htype hr =>
      rcases osaBufCreate_count hr with hsame | hroom
      · exact hkeep (Nat.zero_le _) hsame
      · intro hpos
        have := hroom hpos
        simpa [CliEffect.handle, CliPc.slots, hpc hthr] using this
  | getFull r hthr hr =>
      obtain ⟨q, hq, rfl⟩ := Option.map_eq_some_iff.mp hr
      obtain ⟨hlen, ⟨hsok, hcount⟩ | ⟨-, hsame, hid⟩⟩ := bufGet_count hq
      · intro hpos
        have := hs hpos
        have hslots : CliPc.slots (if q.2.2 > -1 ∧ q.2.2 ≤ param.bufNum then .send q.2.2
            else .testStatus) ≤ 1 := CliPc.slots_ite_le le_rfl (Nat.zero_le _)
        simp only [CliEffect.handle]
        omega
      · refine hkeep ?_ ?_
        · simp [hid, osaBufIdInvalid, CliPc.slots]
        · simp [CliEffect.handle, hsame]
  | putEmpty bufId r hthr hr =>
      obtain ⟨q, hq, rfl⟩ := Option.map_eq_some_iff.mp hr
      obtain ⟨hlen, hcount⟩ := bufPut_count hq
      intro hpos
      have := hs hpos
      simp only [hthr, CliPc.slots, CliEffect.handle] at this ⊢
      omega
  | drain r hthr hr =>
      obtain ⟨q, hq, rfl⟩ := Option.map_eq_some_iff.mp hr
      obtain ⟨hlen, hcount⟩ := bufGet_count hq
      intro hpos
      have := hs hpos
      have hle : q.1.count ≤ h.clientBuf.fullQue.count := by
        rcases hcount with ⟨-, hcount⟩ | ⟨-, hsame, -⟩
        · omega
        · rw [hsame]
      have hslots : CliPc.slots (if q.2.1 = osaSok then .drain else .deleteBuf) ≤ 0 :=
        CliPc.slots_ite_le le_rfl le_rfl
      simp only [CliEffect.handle]
      omega
  | running hthr _ | testType hthr =>
      exact hkeep (CliPc.slots_ite_le (Nat.zero_le _) (Nat.zero_le _)) rfl
  | getSocket hthr =>
      refine hkeep (Nat.zero_le _) ?_
      simp only [CliEffect.handle]
      split <;> rfl
  | sent bufId hthr => exact hkeep (by rw [hthr]; exact le_rfl) rfl
  | create | quit | connect | noBuf | register | connected | disconnected | stopped | sendFailed
  | turn | turnFailed | exitStatus | exitShutdown | exitClose | exitUnset | unregister | shutdown
  | close | deleteLock | deleteBuf | free => exact hkeep (Nat.zero_le _) rfl

/-- A broadcast takes a slot out of a pool, has it in hand and puts it back. -/
theorem room_sender (hs : LocalInv (Room s.sender) s) (h : SenderStep s s') :
    LocalInv (Room s'.sender) s' := by
  -- the handle `x` gets the pool `buf`, and the other pools stay
  have hupdate : ∀ {x : ℕ} {h : OprHandle} {buf : OsaBufHndl} {pc : SendPc},
      s.handles x = some h →
      (∀ thr : CliThread, thr.handle = x → Room s.sender thr h →
        Room pc thr { h with clientBuf := buf }) →
      (∀ y, y ≠ x → pc.slots y = 0) →
      LocalInv (Room pc) { s with
        handles := Function.update s.handles x (some { h with clientBuf := buf })
        sender := pc } := by
    intro x h buf pc hx hown hother i thr h' hthr hover hh'
    rcases update_eq_cases (f := s.handles) hh' with ⟨heq, hval⟩ | ⟨hne, hh'⟩
    · rw [← Option.some.inj hval]
      exact hown thr heq (hs i thr h hthr hover (heq ▸ hx))
    · refine (hs i thr h' hthr hover hh').mono rfl rfl le_rfl ?_
      rw [hother _ hne]
      exact Nat.zero_le _
  have hsame : ∀ {pc : SendPc}, (∀ y, pc.slots y = 0) →
      LocalInv (Room pc) { s with sender := pc } := by
    intro pc hpc i thr h' hthr hover hh'
    refine (hs i thr h' hthr hover hh').mono rfl rfl le_rfl ?_
    rw [hpc]
    exact Nat.zero_le _
  cases h with
  | start | finish | skip | fill => exact hsame fun _ ↦ rfl
  | noSlot a x pNode h r hpc hnode hx hr hnot =>
      obtain ⟨q, hq, rfl⟩ := Option.map_eq_some_iff.mp hr
      obtain ⟨hlen, ⟨hsok, -⟩ | ⟨-, hq', -⟩⟩ := bufGet_count hq
      · exact (hnot hsok).elim
      · refine hupdate hx (fun thr _ hroom ↦ ?_) fun _ _ ↦ rfl
        exact hroom.mono (by simp [hq']) rfl le_rfl (Nat.zero_le _)
  | slot a x h r hpc hx hr hsok =>
      obtain ⟨q, hq, rfl⟩ := Option.map_eq_some_iff.mp hr
      obtain ⟨hlen, ⟨-, hcount⟩ | ⟨hnot, -⟩⟩ := bufGet_count hq
      · refine hupdate hx (fun thr heq hroom hpos ↦ ?_) fun y hy ↦ if_neg (Ne.symm hy)
        have := hroom hpos
        rw [hpc] at this
        simp only [SendPc.slots, heq, if_true] at this ⊢
        omega
      · exact (hnot hsok).elim
  | put a x bufId pNode h r hpc hnode hx hr =>
      obtain ⟨q, hq, rfl⟩ := Option.map_eq_some_iff.mp hr
      obtain ⟨hlen, hcount⟩ := bufPut_count hq
      refine hupdate hx (fun thr heq hroom hpos ↦ ?_) fun _ _ ↦ rfl
      have := hroom hpos
      rw [hpc] at this
      simp only [SendPc.slots, heq, if_true] at this ⊢
      omega

theorem room_step (hs : LocalInv (Room s.sender) s) (hinv : Inv s)
    (hstep : Server.step param s l = some s') : LocalInv (Room s'.sender) s' := by
  cases step_cases hstep with
  | app h => cases h <;> exact hs
  | server a h =>
      have hsender : s'.sender = s.sender := by cases h <;> rfl
      rw [hsender]
      refine hs.server hinv.handle (fun handle fd conn hpos ↦ ?_) h
      simp [newHandle, zeroBuf] at hpos
  | client i a thr hthr hover h =>
      obtain ⟨thr', hframe⟩ := h.frame
      rw [hframe.sender]
      refine hs.client hinv.handle hthr hover (fun h thr' e _ hmove _ hroom ↦ ?_) h
      refine hroom.move (fun hpc ↦ ?_) hmove
      -- the handle that the broadcast is at is in the list
      by_contra hslots
      have hfilled : thr.handle ∈ s.filled := by
        unfold State.filled
        cases hsend : s.sender with
        | putFull b x bufId =>
            rw [hsend, SendPc.slots] at hslots
            simpa using hslots
        | idle | node | getEmpty => simp [hsend, SendPc.slots] at hslots
      obtain ⟨j, u, hu, hhandle, hlisted⟩ := hinv.reg.listed _ (hinv.reg.filled_mem hfilled)
      obtain rfl : j = i := hinv.handle.distinct j i u thr hu hthr
        (CliPc.ne_done_of_listed hlisted) (CliPc.ne_done_of_over hover) hhandle
      obtain rfl : u = thr := Option.some.inj (hu.symm.trans hthr)
      simp [hpc, CliPc.listed, CliPc.registered] at hlisted
  | sender l _ _ h => exact room_sender hs h

/-! ## Nobody waits for a slot -/

theorem Move.not_getFull {server : ServerStatus} {thr thr' : CliThread} {h : OprHandle}
    {a : CliAnswer param} {e : CliEffect} (hmove : Move param server thr h a thr' e)
    (hserver : server ≠ .star) : thr'.pc ≠ .getFull := by
  cases hmove with
  | running _ hstar => exact (hserver hstar).elim
  | getFull | testType | drain =>
      dsimp only
      split <;> simp
  | create | quit | connect | noBuf | createBuf | getSocket | register | connected | disconnected
  | stopped | sent | sendFailed | putEmpty | turn | turnFailed | exitStatus | exitShutdown
  | exitClose | exitUnset | unregister | shutdown | close | deleteLock | deleteBuf | free => simp

/-- A thread moves on, to another place than the wait for a slot. -/
theorem NoneWaits.thread (hs : NoneWaits s) (hh : HandleInv s) {i : ℕ} {thr thr' : CliThread}
    (hthr : s.threads[i]? = some thr) (hover : thr.pc.over = false)
    (hthreads : s'.threads = s.threads.set i thr')
    (hother : ∀ x, x ≠ thr.handle → s'.handles x = s.handles x)
    (hlist : ∀ x ∈ s'.list.contents, x ≠ thr.handle → x ∈ s.list.contents)
    (hpc : thr'.pc ≠ .getFull) : NoneWaits s' := by
  intro u hu hmem hwait h hh'
  obtain ⟨j, hj⟩ := List.getElem?_of_mem hu
  rw [hthreads] at hj
  rcases getElem?_set_cases hj with ⟨-, rfl⟩ | ⟨hne, hj⟩
  · exact (hpc hwait).elim
  · have hother' : u.handle ≠ thr.handle := fun heq ↦
      hne (hh.distinct j i u thr hj hthr (by simp [hwait]) (CliPc.ne_done_of_over hover) heq)
    rw [hother _ hother'] at hh'
    exact hs u (List.mem_of_getElem? hj) (hlist _ hmem hother') hwait h hh'

/-- After the stop no client of the list waits, unless a broadcast may still come to it. -/
def WaitInv (s : State) : Prop :=
  s.app.stopped = true → s.sender = .idle → s.status ≠ .star → NoneWaits s

theorem WaitInv.client (hs : WaitInv s) (hinv : Inv s) {i : ℕ} {a : CliAnswer param}
    {thr : CliThread} (hthr : s.threads[i]? = some thr) (hover : thr.pc.over = false)
    (h : ClientStep param s i a thr s') : WaitInv s' := by
  obtain ⟨thr₀, hframe⟩ := h.frame
  intro hstop hidle hst
  rw [hframe.app] at hstop
  rw [hframe.sender] at hidle
  rw [hframe.status] at hst
  have hnone := hs hstop hidle hst
  cases h with
  | noHandle | fault | pushCrash | earseCrash =>
      exact hnone.thread hinv.handle hthr hover rfl (fun _ _ ↦ rfl) (fun _ h _ ↦ h) (by simp)
  | none h thr' _ hmove | shutdown h thr' _ hmove | close h thr' _ hmove =>
      exact hnone.thread hinv.handle hthr hover rfl (fun _ _ ↦ rfl) (fun _ h _ ↦ h)
        (hmove.not_getFull hst)
  | write h thr' h' _ hmove | free h thr' _ hmove =>
      exact hnone.thread hinv.handle hthr hover rfl (fun _ hx ↦ Function.update_of_ne hx ..)
        (fun _ h _ ↦ h) (hmove.not_getFull hst)
  | push h thr' mem l _ hmove _ hfresh hpush =>
      refine hnone.thread hinv.handle hthr hover rfl (fun _ _ ↦ rfl) (fun x hx hne ↦ ?_)
        (hmove.not_getFull hst)
      change x ∈ l.contents at hx
      obtain ⟨hsame, hsnoc⟩ := hinv.reg.holds.push hfresh hpush
      cases mem with
      | none => rwa [(hsame rfl).1.contents] at hx
      | some b =>
          rw [(hsnoc (by simp)).1.contents, List.mem_append, List.mem_singleton] at hx
          exact hx.resolve_right hne
  | earse h thr' l _ hmove _ hearse =>
      refine hnone.thread hinv.handle hthr hover rfl (fun _ _ ↦ rfl) (fun x hx hne ↦ ?_)
        (hmove.not_getFull hst)
      obtain ⟨l', hearse', hholds, -⟩ := hinv.reg.holds.earse thr.handle
      obtain rfl : l' = l := Option.some.inj (hearse'.symm.trans hearse)
      change x ∈ l'.contents at hx
      rw [hholds.contents] at hx
      exact List.mem_of_mem_erase hx

theorem WaitInv.step (hs : WaitInv s) (hinv : Inv s) (hok : ShutdownOk param s l)
    (hstep : Server.step param s l = some s') : WaitInv s' := by
  cases step_cases hstep with
  | app h =>
      cases h with
      | wake | destory => exact fun hstop ↦ by simp [AppPc.stopped] at hstop
      | setStop hpc => exact fun _ hidle _ ↦ hok hpc hidle
      | clients hpc | noClients hpc | notAbor hpc | abor hpc | deleteLocks hpc | freeList hpc
      | freeHandle hpc => exact fun _ ↦ hs (by rw [hpc]; rfl)
  | server a h =>
      cases h with
      | setStar => exact fun _ _ hst ↦ (hst rfl).elim
      | setAbor hpc => exact fun hstop hidle _ ↦ hs hstop hidle (by simp [hinv.phase.leave hpc])
      | created | createFailed | goOn | leave | noClient | lowClient | accepted | readSize
      | admitted | refused | noMemory | spawnFailed => exact hs
      | allocated fd conn handle hpc hfree =>
          intro hstop hidle hst thr hthr hmem hwait h hh
          obtain ⟨i, hi⟩ := List.getElem?_of_mem hthr
          obtain ⟨h₀, hh₀⟩ := hinv.handle.allocated i thr hi (by simp [hwait])
          rcases update_eq_cases (f := s.handles) hh with ⟨heq, -⟩ | ⟨-, hh⟩
          · rw [heq, hfree] at hh₀
            cases hh₀
          · exact hs hstop hidle hst thr hthr hmem hwait h hh
      | spawned =>
          intro hstop hidle hst thr hthr hmem hwait h hh
          rcases List.mem_append.mp hthr with hthr | hthr
          · exact hs hstop hidle hst thr hthr hmem hwait h hh
          · simp [List.mem_singleton.mp hthr] at hwait
  | client i a thr hthr hover h => exact hs.client hinv hthr hover h
  | sender l hl _ h =>
      cases h with
      | finish hpc =>
          rcases hl with rfl | rfl
          · simp [step, State.osaServerSendBuf, hpc] at hstep
          · exact fun hstop _ hst ↦ hok hpc hstop hst
      | start | skip | fill | noSlot | slot | put => exact fun _ hidle ↦ by simp at hidle

/-! ## Somebody goes on -/

variable (param) in
/-- A client of the list that does not wait for a slot goes on. -/
theorem client_of_registered (hfreed : s.app.freed = false) (hidle : s.sender = .idle) {i : ℕ}
    {thr : CliThread} {h : OprHandle} (hthr : s.threads[i]? = some thr)
    (hregistered : thr.pc.registered = true) (hh : s.handles thr.handle = some h)
    (hroom : Room s.sender thr h) (hwait : thr.pc = .getFull → h.clientBuf.fullQue.count ≠ 0) :
    ∃ (a : CliAnswer param) (s' : State), step param s (.client i a) = some s' := by
  have hover : thr.pc.over = false := by
    cases hpc : thr.pc <;> first | rfl | simp [hpc, CliPc.registered] at hregistered
  have hgoes : ∀ {a : CliAnswer param} {thr' : CliThread} {e : CliEffect},
      Move param s.status thr h a thr' e → e.isLocal = true →
        ∃ (a : CliAnswer param) (s' : State), step param s (.client i a) = some s' := by
    intro a thr' e hmove hlocal
    obtain ⟨s', hstep, -⟩ :=
      client_of_local hthr hover hh (by simp [hfreed]) hmove hlocal
    exact ⟨a, s', hstep⟩
  cases hpc : thr.pc with
  | testStatus =>
      by_cases hst : h.status = .connect
      · exact hgoes (.connected hpc hst) rfl
      · exact hgoes (.disconnected hpc hst) rfl
  | testServer =>
      by_cases hst : s.status = .star
      · exact hgoes (.running hpc hst) rfl
      · exact hgoes (.stopped hpc hst) rfl
  | getFull =>
      obtain ⟨r, hr, -⟩ := osaBufGetFull_pop (hwait hpc) osaTimeoutForever
      exact hgoes (.getFull r hpc hr) rfl
  | send bufId => exact hgoes (.sent bufId hpc) rfl
  | putEmpty bufId =>
      have hempty : 0 < h.clientBuf.numBuf →
          h.clientBuf.emptyQue.count < h.clientBuf.emptyQue.len := by
        intro hpos
        have hslots := hroom hpos
        rw [hpc, CliPc.slots] at hslots
        omega
      obtain ⟨q, hq⟩ := bufPut_isSome hempty bufId
      exact hgoes (.putEmpty bufId _ hpc (by rw [osaBufPutEmpty, hq]; rfl)) rfl
  | turn => exact hgoes (.turn hpc) rfl
  | exitStatus => exact hgoes (.exitStatus hpc) rfl
  | exitShutdown => exact hgoes (.exitShutdown hpc) rfl
  | exitClose => exact hgoes (.exitClose hpc) rfl
  | exitUnset => exact hgoes (.exitUnset hpc) rfl
  | unregister =>
      refine ⟨.next, ?_⟩
      simp only [step, State.client, hthr, hover, hh, hfreed, act_of_move (.unregister hpc),
        Bool.false_eq_true, false_and, if_false, Option.bind_some, State.apply, hidle, if_true]
      cases s.list.listEarseData thr.handle with
      | none => exact ⟨_, rfl⟩
      | some l => exact ⟨_, rfl⟩
  | start | setConnect | createBuf | getSocket | register | shutdown | close | deleteLock | testType
  | drain | deleteBuf | free | done | quit | crash | fault =>
      simp [hpc, CliPc.registered] at hregistered

/-! ## Runs -/

theorem server_ne_failed (hs : s.server ≠ .failed) (hok : ShutdownOk param s l)
    (hstep : step param s l = some s') : s'.server ≠ .failed := by
  cases step_cases hstep with
  | app h => cases h <;> exact hs
  | server a h =>
      cases h with
      | createFailed _ table hpc hfail => exact (hfail hok).elim
      | created | setStar | goOn | leave | noClient | lowClient | accepted | readSize | admitted
      | refused | noMemory | allocated | spawned | spawnFailed | setAbor => simp
  | client i a thr _ _ h =>
      obtain ⟨thr', hframe⟩ := h.frame
      rw [hframe.server]
      exact hs
  | sender l _ _ h =>
      rw [h.frame.server]
      exact hs

/-- What is proved along a run. -/
structure ShutdownInv (s : State) : Prop where
  inv : Inv s
  size : SizeInv s
  room : LocalInv (Room s.sender) s
  wait : WaitInv s
  server : s.server ≠ .failed

theorem shutdown_inv (h : Reach (step param) (ShutdownOk param) start s) : ShutdownInv s := by
  refine h.invariant ⟨start_inv, rfl, LocalInv.start, fun hstop ↦ ?_, by simp [start]⟩ ?_
  · simp [start, AppPc.stopped] at hstop
  · rintro s l s' ⟨hinv, hsize, hroom, hwait, hserver⟩ hok hstep
    exact ⟨hinv.step hstep, hsize.step hinv.reg hok.nodes hstep, room_step hroom hinv hstep,
      hwait.step hinv hok hstep, server_ne_failed hserver hok hstep⟩

/-- After the stop somebody goes on as long as `OSA_server_destory` has to wait, in every run in
which the socket is made, the nodes of the list are allocated and no client is left waiting for a
slot. -/
theorem server_shutdown_active (h : Reach (step param) (ShutdownOk param) start s) :
    ShutdownLaw param s := by
  obtain ⟨hinv, hsize, hroom, hwait, hserver⟩ := shutdown_inv h
  intro hstop hfreed hidle hwaits
  by_cases hdone : s.server = .done
  · have habor := hinv.phase.abor.mpr hdone
    have hlist : s.list.listSize ≠ 0 := hwaits.resolve_right (not_not.mpr habor)
    obtain ⟨x, hx⟩ : ∃ x, x ∈ s.list.contents := by
      refine List.exists_mem_of_length_pos (Nat.pos_of_ne_zero fun hzero ↦ hlist ?_)
      change s.list.nSize = 0
      rw [hsize, hzero]
      rfl
    obtain ⟨i, thr, hthr, rfl, hlisted⟩ := hinv.reg.listed x hx
    have hregistered : thr.pc.registered = true :=
      (Bool.or_eq_true_iff.mp hlisted).resolve_right fun hfault ↦
        hinv.fault hfreed i thr hthr (beq_iff_eq.mp hfault)
    have hover : thr.pc.over = false := by
      cases hpc : thr.pc <;> first | rfl | simp [hpc, CliPc.registered] at hregistered
    obtain ⟨hd, hhd⟩ := hinv.handle.allocated i thr hthr (CliPc.ne_done_of_over hover)
    obtain ⟨a, s', hstep⟩ := client_of_registered param hfreed hidle hthr hregistered hhd
      (hroom i thr hd hthr hover hhd) fun hpc ↦
        hwait hstop hidle (by simp [habor]) thr (List.mem_of_getElem? hthr) hx hpc hd hhd
    exact Or.inr ⟨i, a, s', hstep⟩
  · exact Or.inl (server_of_not_over hdone hserver)

instance (param : ServerParam) (s : State) : (l : Label param) → Decidable (ShutdownOk param s l)
  | .server (.create _) => inferInstanceAs (Decidable (_ = _))
  | .client _ (.node none) => inferInstanceAs (Decidable (s.list.nSize = 0))
  | .app | .sender => inferInstanceAs (Decidable (_ → _))
  | .client _ (.node (some _)) | .client _ .next | .client _ (.mutex _) | .client _ (.buf _ _)
  | .client _ (.turn _) | .client _ (.send _) | .server .next | .server (.accept _)
  | .server (.mem _) | .server (.thread _) | .sendBuf => inferInstanceAs (Decidable True)

theorem server_shutdown_active_run : ∃ s, s.app.stopped = true ∧ s.list.listSize = 1 ∧
    ShutdownLaw oneStream s ∧ s.Active oneStream := by
  obtain ⟨s, hreach, hs⟩ := Reach.exists_of_exec (step oneStream) (ShutdownOk oneStream) start
    (listenRun 3 ++ admitRun 4 0 ++ joinStreamRun 0 10 ++ [.app, .app, .app, .server .next,
      .server .next])
    (fun s ↦ s.app.stopped = true ∧ s.app.freed = false ∧ s.sender = .idle ∧ s.list.listSize = 1)
    (by decide)
  obtain ⟨hstop, hfreed, hidle, hsize⟩ := of_decide_eq_true hs
  have hlaw := server_shutdown_active hreach
  exact ⟨s, hstop, hsize, hlaw, hlaw hstop hfreed hidle (Or.inl (by simp [hsize]))⟩

/-- The socket could not be made, so nobody is left to store `SERVER_ABOR`. -/
theorem server_shutdown_stuck : ∃ s, Reach (step oneClient) Always start s ∧
    ¬ ShutdownLaw oneClient s := by
  obtain ⟨s, hreach, hs⟩ := Reach.exists_of_exec (step oneClient) Always start
    [.server (.create ⟨3, true, false, true⟩), .app, .app, .app]
    (fun s ↦ s.app = .listLoop ∧ s.sender = .idle ∧ s.status = .stop ∧ s.server = .failed ∧
      s.threads = []) (by decide)
  obtain ⟨happ, hidle, hst, hserver, hthreads⟩ := of_decide_eq_true hs
  refine ⟨s, hreach, fun hlaw ↦ ?_⟩
  rcases hlaw (by rw [happ]; rfl) (by rw [happ]; rfl) hidle (Or.inr (by simp [hst])) with
    ⟨_, s', hstep⟩ | ⟨i, _, s', hstep⟩
  · simp [step, State.osaServerThread, hserver] at hstep
  · simp [step, State.client, hthreads] at hstep

end OsaBase.Server
