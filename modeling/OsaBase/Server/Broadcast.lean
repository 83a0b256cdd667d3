import OsaBase.Server.Invariant

/-!
# Which clients a broadcast reaches

The list holds the handles of the clients that have added themselves and not removed themselves yet,
each once. A thread adds its handle when the lock and the pool are made, and deletes them behind the
removal, so a broadcast, which holds `list_mutex` all the way, finds both.
-/

open Transition

namespace OsaBase.Server

variable {param : ServerParam} {s s' : State} {l : Label param}

/-- The list holds the registered clients, and a broadcast finds what it needs of a client. -/
structure BroadcastLaw (param : ServerParam) (s : State) : Prop where
  nodup : s.sender = .idle → s.list.contents.Nodup
  members : s.sender = .idle → ∀ x, x ∈ s.list.contents ↔
    ∃ thr ∈ s.threads, thr.handle = x ∧ thr.pc.registered = true
  size : s.sender = .idle → s.list.listSize = s.threads.countP fun thr ↦ thr.pc.registered
  filled : ∀ x ∈ s.filled, ∃ h, s.handles x = some h ∧ h.lock = true ∧
    (param.serverType = .streamType → h.pool = true)

/-- There is memory for each node and each pool, and the pools are initialised. -/
def BroadcastOk (param : ServerParam) (_ : State) : Label param → Prop
  | .client _ (.node mem) => mem ≠ none
  | .client _ (.buf mem initStatus) => ∀ b, mem b ≠ none ∧ initStatus b = osaSok
  | _ => True

instance (param : ServerParam) (s : State) : (l : Label param) → Decidable (BroadcastOk param s l)
  | .client _ (.node mem) => inferInstanceAs (Decidable (mem ≠ none))
  | .client _ (.buf mem initStatus) =>
    inferInstanceAs (Decidable (∀ b, mem b ≠ none ∧ initStatus b = osaSok))
  | .client _ .next | .client _ (.mutex _) | .client _ (.turn _) | .client _ (.send _)
  | .app | .server _ | .sendBuf | .sender => inferInstanceAs (Decidable True)

theorem BroadcastOk.nodes (h : BroadcastOk param s l) : NodesOk param s l := by
  unfold NodesOk
  split
  · exact (h rfl).elim
  · trivial

/-! ## The lock and the pool -/

/-- The thread has created `opreate_lock` and not deleted it. -/
def CliPc.locked : CliPc → Bool
  | .start | .testType | .drain | .deleteBuf | .free => false
  | pc => !pc.over

/-- The thread has created `clientBuf_Hndl` and not deleted it. -/
def CliPc.pooled : CliPc → Bool
  | .start | .setConnect | .createBuf | .free => false
  | pc => !pc.over

structure ToolsInv (param : ServerParam) (thr : CliThread) (h : OprHandle) : Prop where
  lock : thr.pc.locked = true → h.lock = true
  pool : param.serverType = .streamType → thr.pc.pooled = true → h.pool = true

theorem osaBufCreate_sok {bufNum : ℤ} (hmax : bufNum ≤ osaBufNumMax)
    {mem : Bool → Option (Vector ℤ (bufNum % 2 ^ 32).toNat)} {initStatus : Bool → ℤ}
    {garbage : OsaBufHndl} {r : ℤ × OsaBufHndl}
    (hmem : ∀ b, mem b ≠ none ∧ initStatus b = osaSok)
    (h : osaBufCreate bufNum mem initStatus garbage = some r) : r.1 = osaSok := by
  have hque : ∀ b, (osaQueCreate (bufNum % 2 ^ 32).toNat (mem b) (initStatus b)).1 = osaSok := by
    intro b
    obtain ⟨cells, hcells⟩ := Option.ne_none_iff_exists'.mp (hmem b).1
    rw [hcells]
    exact (hmem b).2
  simp only [osaBufCreate, not_lt.mpr hmax, if_false, hque, ne_eq, not_true] at h
  obtain ⟨que, -, rfl⟩ := Option.map_eq_some_iff.mp h
  rfl

theorem ToolsInv.move (hmax : param.bufNum ≤ osaBufNumMax) {i : ℕ} {thr thr' : CliThread}
    {h : OprHandle} {a : CliAnswer param} {e : CliEffect} (hs : ToolsInv param thr h)
    (hok : BroadcastOk param s (.client i a)) (hmove : Move param s.status thr h a thr' e) :
    ToolsInv param thr' (e.handle h) := by
  obtain ⟨hlock, hpool⟩ := hs
  cases hmove with
  | create hpc => exact ⟨fun _ ↦ rfl, fun _ h ↦ by cases h⟩
  | createBuf mem initStatus r hpc htype hr =>
      rw [hpc] at hlock
      exact ⟨fun _ ↦ hlock rfl, fun _ _ ↦ decide_eq_true (osaBufCreate_sok hmax hok hr)⟩
  | noBuf hpc htype =>
      rw [hpc] at hlock
      refine ⟨fun _ ↦ hlock rfl, fun hstream ↦ ?_⟩
      rw [htype] at hstream
      cases hstream
  | getSocket hpc =>
      rw [hpc] at hlock hpool
      simp only [CliEffect.handle]
      split <;> exact ⟨fun _ ↦ hlock rfl, fun hstream _ ↦ hpool hstream rfl⟩
  | testType hpc =>
      rw [hpc] at hpool
      refine ⟨fun h ↦ ?_, fun hstream _ ↦ hpool hstream rfl⟩
      dsimp only at h
      split at h <;> cases h
  | drain r hpc =>
      rw [hpc] at hpool
      refine ⟨fun h ↦ ?_, fun hstream _ ↦ hpool hstream rfl⟩
      dsimp only at h
      split at h <;> cases h
  | quit hpc | deleteBuf hpc | free hpc =>
      exact ⟨fun h ↦ (by cases h), fun _ h ↦ by cases h⟩
  | connect hpc =>
      rw [hpc] at hlock
      exact ⟨fun _ ↦ hlock rfl, fun _ h ↦ by cases h⟩
  | deleteLock hpc =>
      rw [hpc] at hpool
      exact ⟨fun h ↦ (by cases h), fun hstream _ ↦ hpool hstream rfl⟩
  | register mem hpc | connected hpc | disconnected hpc | running hpc | stopped hpc | getFull r hpc
  | sent bufId hpc | sendFailed bufId hpc | putEmpty bufId r hpc | turn hpc | turnFailed hpc
  | exitStatus hpc | exitShutdown hpc | exitClose hpc | exitUnset hpc | unregister hpc
  | shutdown hpc | close hpc =>
      rw [hpc] at hlock hpool
      exact ⟨fun _ ↦ hlock rfl, fun hstream _ ↦ hpool hstream rfl⟩

/-! ## The members of the list -/

theorem Move.registered {server : ServerStatus} {thr thr' : CliThread} {h : OprHandle}
    {a : CliAnswer param} {e : CliEffect} (hmove : Move param server thr h a thr' e)
    (hpush : ∀ mem, e ≠ .push mem) (hearse : e ≠ .earse) :
    thr'.pc.registered = thr.pc.registered := by
  cases hmove with
  | register mem hpc => exact (hpush mem rfl).elim
  | unregister hpc => exact (hearse rfl).elim
  | running hpc | getFull r hpc | testType hpc | drain r hpc =>
      rw [hpc]
      dsimp only
      split <;> rfl
  | create hpc | quit hpc | connect hpc | noBuf hpc | createBuf mem initStatus r hpc
  | getSocket hpc | connected hpc | disconnected hpc | stopped hpc | sent bufId hpc
  | sendFailed bufId hpc | putEmpty bufId r hpc | turn hpc | turnFailed hpc | exitStatus hpc
  | exitShutdown hpc | exitClose hpc | exitUnset hpc | shutdown hpc | close hpc | deleteLock hpc
  | deleteBuf hpc | free hpc =>
      rw [hpc]
      rfl

/-- The list holds every registered thread's handle, and no other. -/
structure MemberInv (s : State) : Prop where
  member : ∀ (i : ℕ) (thr : CliThread), s.threads[i]? = some thr → thr.pc.registered = true →
    thr.handle ∈ s.list.contents
  count : s.list.contents.length = s.threads.countP fun thr ↦ thr.pc.registered

namespace MemberInv

/-- A thread moves on in the list, or outside of it. -/
theorem thread (hs : MemberInv s) {i : ℕ} {thr thr' : CliThread} (hthr : s.threads[i]? = some thr)
    (hthreads : s'.threads = s.threads.set i thr') (hhandle : thr'.handle = thr.handle)
    (hlist : s'.list = s.list) (hregistered : thr'.pc.registered = thr.pc.registered) :
    MemberInv s' := by
  constructor
  · rw [hthreads, hlist]
    intro j u hu hu'
    rcases getElem?_set_cases hu with ⟨-, rfl⟩ | ⟨-, hu⟩
    · rw [hhandle]
      exact hs.member i thr hthr (hregistered ▸ hu')
    · exact hs.member j u hu hu'
  · rw [hthreads, hlist, hs.count]
    have hcount := countP_set_add (y := thr') hthr fun thr ↦ thr.pc.registered
    rw [hregistered] at hcount
    omega

theorem push (hs : MemberInv s) (hr : RegInv s) {i b : ℕ} {thr thr' : CliThread} {l : ListHandle}
    (hthr : s.threads[i]? = some thr) (hhandle : thr'.handle = thr.handle)
    (hfrom : thr.pc.registered = false) (hto : thr'.pc.registered = true)
    (hfresh : s.list.Fresh (some b)) (hpush : s.list.listPushBack (some b) thr.handle = some l) :
    MemberInv { s.setThread i thr' with list := l } := by
  have hcontents := ((hr.holds.push hfresh hpush).2 (by simp)).1.contents
  constructor
  · intro j u hu hu'
    change u.handle ∈ l.contents
    rw [hcontents, List.mem_append, List.mem_singleton]
    rcases getElem?_set_cases hu with ⟨-, rfl⟩ | ⟨-, hu⟩
    · exact Or.inr hhandle
    · exact Or.inl (hs.member j u hu hu')
  · change l.contents.length = (s.threads.set i thr').countP _
    rw [hcontents, List.length_append, List.length_singleton, hs.count]
    have hcount := countP_set_add (y := thr') hthr fun thr ↦ thr.pc.registered
    rw [hfrom, hto, Bool.toNat_false, Bool.toNat_true] at hcount
    omega

theorem earse (hs : MemberInv s) (hr : RegInv s) (hh : HandleInv s) {i : ℕ} {thr thr' : CliThread}
    {l : ListHandle} (hthr : s.threads[i]? = some thr) (hfrom : thr.pc.registered = true)
    (hto : thr'.pc.registered = false) (hearse : s.list.listEarseData thr.handle = some l) :
    MemberInv { s.setThread i thr' with list := l } := by
  obtain ⟨l', hearse', hholds, -⟩ := hr.holds.earse thr.handle
  obtain rfl : l' = l := Option.some.inj (hearse'.symm.trans hearse)
  have hne : ∀ {u : CliThread}, u.pc.registered = true → u.pc ≠ .done := by
    rintro u hu hdone
    rw [hdone] at hu
    cases hu
  constructor
  · intro j u hu hu'
    change u.handle ∈ l'.contents
    rw [hholds.contents]
    rcases getElem?_set_cases hu with ⟨-, rfl⟩ | ⟨hj, hu⟩
    · rw [hto] at hu'
      cases hu'
    · refine hr.nodup.mem_erase_iff.mpr ⟨fun heq ↦ hj ?_, hs.member j u hu hu'⟩
      exact hh.distinct j i u thr hu hthr (hne hu') (hne hfrom) heq
  · change l'.contents.length = (s.threads.set i thr').countP _
    have hmem := hs.member i thr hthr hfrom
    have hpos := List.length_pos_of_mem hmem
    have hcount := countP_set_add (y := thr') hthr fun thr ↦ thr.pc.registered
    rw [hfrom, hto, Bool.toNat_false, Bool.toNat_true] at hcount
    rw [hholds.contents, List.length_erase_of_mem hmem, hs.count]
    have := hs.count
    omega

theorem client (hs : MemberInv s) (hinv : Inv s) (hsize : SizeInv s) (hfreed : s.app.freed = false)
    {i : ℕ} {a : CliAnswer param} {thr : CliThread} (hok : BroadcastOk param s (.client i a))
    (hthr : s.threads[i]? = some thr) (hover : thr.pc.over = false)
    (h : ClientStep param s i a thr s') : MemberInv s' := by
  obtain ⟨h₀, hh₀⟩ := hinv.handle.allocated i thr hthr (CliPc.ne_done_of_over hover)
  cases h with
  | noHandle hnone =>
      rw [hnone] at hh₀
      cases hh₀
  | fault h _ hfault =>
      rw [hfreed] at hfault
      cases hfault
  | none h thr' _ hmove | write h thr' h' _ hmove | shutdown h thr' _ hmove | close h thr' _ hmove
  | free h thr' _ hmove =>
      refine hs.thread hthr rfl hmove.keeps.1 rfl (hmove.registered (fun _ h ↦ ?_) fun h ↦ ?_)
      all_goals cases h
  | push h thr' mem l _ hmove hidle hfresh hpush =>
      cases hmove with
      | register _ hpc =>
          obtain ⟨b, rfl⟩ := Option.ne_none_iff_exists'.mp (show mem ≠ none from hok)
          exact hs.push hinv.reg hthr rfl (by rw [hpc]; rfl) rfl hfresh hpush
  | pushCrash h thr' mem _ hmove hpush =>
      obtain ⟨l, hl⟩ := hinv.reg.holds.push_isSome hsize mem thr.handle
      rw [hpush] at hl
      cases hl
  | earse h thr' l _ hmove hidle hearse =>
      cases hmove with
      | unregister hpc => exact hs.earse hinv.reg hinv.handle hthr (by rw [hpc]; rfl) rfl hearse
  | earseCrash h thr' _ hmove hearse =>
      obtain ⟨l, hl, -⟩ := hinv.reg.holds.earse thr.handle
      rw [hearse] at hl
      cases hl

theorem step (hs : MemberInv s) (hinv : Inv s) (hsize : SizeInv s) (hfreed : s.app.freed = false)
    (hok : BroadcastOk param s l) (hstep : Server.step param s l = some s') : MemberInv s' := by
  cases step_cases hstep with
  | app h => cases h <;> exact ⟨hs.member, hs.count⟩
  | server a h =>
      cases h with
      | created | createFailed | setStar | goOn | leave | noClient | lowClient | accepted | readSize
      | admitted | refused | noMemory | allocated | spawnFailed | setAbor =>
          exact ⟨hs.member, hs.count⟩
      | spawned =>
          constructor
          · intro i thr hthr hregistered
            rcases getElem?_snoc_cases hthr with ⟨-, rfl⟩ | hthr
            · cases hregistered
            · exact hs.member i thr hthr hregistered
          · change s.list.contents.length = _
            rw [hs.count, List.countP_append]
            rfl
  | client i a thr hthr hover h => exact hs.client hinv hsize hfreed hok hthr hover h
  | sender l _ _ h =>
      constructor
      · rw [h.frame.threads, h.frame.list]
        exact hs.member
      · rw [h.frame.threads, h.frame.list]
        exact hs.count

end MemberInv

/-! ## Runs -/

theorem CliPc.tools_of_registered {pc : CliPc} (h : pc.registered = true) :
    pc.over = false ∧ pc.locked = true ∧ pc.pooled = true := by
  cases pc <;> first | exact ⟨rfl, rfl, rfl⟩ | cases h

/-- What is proved along a run. -/
structure BroadcastInv (param : ServerParam) (s : State) : Prop where
  inv : Inv s
  tools : LocalInv (ToolsInv param) s
  size : SizeInv s
  members : s.app.freed = false → MemberInv s

theorem AppPc.freed_of_step (hstep : step param s l = some s') (h : s'.app.freed = false) :
    s.app.freed = false := by
  cases step_cases hstep with
  | app hs =>
      cases hs with
      | wake hpc | destory hpc | setStop hpc | clients hpc | noClients hpc | notAbor hpc | abor hpc
      | deleteLocks hpc | freeList hpc => rw [hpc]; rfl
      | freeHandle => cases h
  | server a hs => cases hs <;> exact h
  | client i a thr _ _ hs =>
      obtain ⟨thr', hframe⟩ := hs.frame
      exact hframe.app ▸ h
  | sender l _ _ hs => exact hs.frame.app ▸ h

theorem broadcast_inv (hmax : param.bufNum ≤ osaBufNumMax)
    (h : Reach (step param) (BroadcastOk param) start s) : BroadcastInv param s := by
  refine h.invariant ⟨start_inv, LocalInv.start, rfl, fun _ ↦ ⟨fun i thr h ↦ (by cases h), rfl⟩⟩ ?_
  rintro s l s' ⟨hinv, htools, hsize, hmembers⟩ hok hstep
  refine ⟨hinv.step hstep, ?_, hsize.step hinv.reg hok.nodes hstep, fun hfreed ↦ ?_⟩
  · refine htools.step hinv.handle hstep
      (fun _ _ _ ↦ ⟨fun h ↦ (by cases h), fun _ h ↦ by cases h⟩) (fun _ _ _ h ↦ ⟨h.lock, h.pool⟩) ?_
    rintro i a thr h thr' e rfl - - - hmove - htool
    exact htool.move hmax hok hmove
  · have hold := AppPc.freed_of_step hstep hfreed
    exact (hmembers hold).step hinv hsize hold hok hstep

/-- A broadcast reaches the registered clients, each once, with their locks and, on a STREAM_TYPE
server, with their pools. -/
theorem broadcast_reaches_registered (hmax : param.bufNum ≤ osaBufNumMax)
    (h : Reach (step param) (BroadcastOk param) start s) (hfreed : s.app.freed = false) :
    BroadcastLaw param s := by
  obtain ⟨hinv, htools, hsize, hmembers⟩ := broadcast_inv hmax h
  have hregistered : ∀ x ∈ s.list.contents, ∃ (i : ℕ) (thr : CliThread),
      s.threads[i]? = some thr ∧ thr.handle = x ∧ thr.pc.registered = true := by
    intro x hx
    obtain ⟨i, thr, hthr, hhandle, hlisted⟩ := hinv.reg.listed x hx
    refine ⟨i, thr, hthr, hhandle, ?_⟩
    rcases Bool.or_eq_true_iff.mp hlisted with hreg | hfault
    · exact hreg
    · exact (hinv.fault hfreed i thr hthr (beq_iff_eq.mp hfault)).elim
  refine ⟨fun _ ↦ hinv.reg.nodup, fun _ x ↦ ⟨fun hx ↦ ?_, ?_⟩, fun _ ↦ ?_, fun x hx ↦ ?_⟩
  · obtain ⟨i, thr, hthr, hhandle, hreg⟩ := hregistered x hx
    exact ⟨thr, List.mem_of_getElem? hthr, hhandle, hreg⟩
  · rintro ⟨thr, hthr, rfl, hreg⟩
    obtain ⟨i, hi⟩ := List.getElem?_of_mem hthr
    exact (hmembers hfreed).member i thr hi hreg
  · rw [← (hmembers hfreed).count]
    exact hsize
  · obtain ⟨i, thr, hthr, rfl, hreg⟩ := hregistered x (hinv.reg.filled_mem hx)
    obtain ⟨hover, hlock, hpool⟩ := CliPc.tools_of_registered hreg
    obtain ⟨hd, hhd⟩ := hinv.handle.allocated i thr hthr (CliPc.ne_done_of_over hover)
    have htool := htools i thr hd hthr hover hhd
    exact ⟨hd, hhd, htool.lock hlock, fun hstream ↦ htool.pool hstream hpool⟩

theorem broadcast_reaches_registered_run : ∃ s, s.filled = some 0 ∧ BroadcastLaw oneStream s := by
  obtain ⟨s, hreach, hs⟩ := Reach.exists_of_exec (step oneStream) (BroadcastOk oneStream) start
    (listenRun 3 ++ admitRun 4 0 ++ joinStreamRun 0 10 ++ [.app, .sendBuf, .sender])
    (fun s ↦ s.filled = some 0 ∧ s.app.freed = false) (by decide)
  obtain ⟨hfilled, hfreed⟩ := of_decide_eq_true hs
  exact ⟨s, hfilled, broadcast_reaches_registered (by decide) hreach hfreed⟩

/-- The pool of a MSG_TYPE client is never created, but broadcast to. -/
theorem broadcast_without_pool : ∃ s, Reach (step oneClient) (BroadcastOk oneClient) start s ∧
    s.app.freed = false ∧ s.sender = .getEmpty 10 0 ∧
      (s.handles 0).map OprHandle.pool = some false := by
  obtain ⟨s, hreach, hs⟩ := Reach.exists_of_exec (step oneClient) (BroadcastOk oneClient) start
    (listenRun 3 ++ admitRun 4 0 ++ joinRun 0 10 ++ [.app, .sendBuf, .sender])
    (fun s ↦ s.app.freed = false ∧ s.sender = .getEmpty 10 0 ∧
      (s.handles 0).map OprHandle.pool = some false) (by decide)
  exact ⟨s, hreach, of_decide_eq_true hs⟩

end OsaBase.Server
