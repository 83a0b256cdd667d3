import Mathlib.Data.List.Basic
import OsaBase.Server.Steps

/-!
# What holds of the server in every run

The phases of the server's life follow one another, the list is well formed, and every client thread
has a handle of its own until it has freed it.
-/

open Transition

namespace OsaBase.Server

variable {param : ServerParam} {s s' : State} {l : Label param}

/-! ## Threads -/

theorem getElem?_set_cases {α : Type} {xs : List α} {i j : ℕ} {x y : α}
    (h : (xs.set i x)[j]? = some y) : (j = i ∧ y = x) ∨ (j ≠ i ∧ xs[j]? = some y) := by
  rw [List.getElem?_set] at h
  split at h
  · next hij =>
    split at h
    · exact Or.inl ⟨hij.symm, (Option.some.inj h).symm⟩
    · cases h
  · next hij => exact Or.inr ⟨fun heq ↦ hij heq.symm, h⟩

theorem getElem?_snoc_cases {α : Type} {xs : List α} {j : ℕ} {x y : α}
    (h : (xs ++ [x])[j]? = some y) : (j = xs.length ∧ y = x) ∨ xs[j]? = some y := by
  rcases lt_trichotomy j xs.length with hlt | rfl | hgt
  · rw [List.getElem?_append_left hlt] at h
    exact Or.inr h
  · simp only [List.getElem?_concat_length, Option.some.injEq] at h
    exact Or.inl ⟨rfl, h.symm⟩
  · rw [List.getElem?_eq_none (by simp; omega)] at h
    cases h

theorem update_eq_cases {β : Type} {f : ℕ → β} {x y : ℕ} {v w : β}
    (h : Function.update f x v y = w) : (y = x ∧ v = w) ∨ (y ≠ x ∧ f y = w) := by
  rcases eq_or_ne y x with rfl | hne
  · rw [Function.update_self] at h
    exact Or.inl ⟨rfl, h⟩
  · rw [Function.update_of_ne hne] at h
    exact Or.inr ⟨hne, h⟩

theorem countP_set_add {α : Type} {xs : List α} {i : ℕ} {x y : α} (h : xs[i]? = some x)
    (p : α → Bool) : (xs.set i y).countP p + (p x).toNat = xs.countP p + (p y).toNat := by
  induction xs generalizing i with
  | nil => cases h
  | cons z xs ih =>
      cases i with
      | zero =>
          obtain rfl : z = x := Option.some.inj h
          simp only [List.set_cons_zero, List.countP_cons]
          cases p z <;> cases p y <;> simp
      | succ i =>
          have := ih (i := i) h
          simp only [List.set_cons_succ, List.countP_cons]
          omega

/-- A step of a client thread changes no other thread, and keeps what the thread was given. -/
structure ThreadFrame (s s' : State) (i : ℕ) (thr thr' : CliThread) : Prop where
  threads : s'.threads = s.threads.set i thr'
  handle : thr'.handle = thr.handle
  fd : thr'.fd = thr.fd
  conn : thr'.conn = thr.conn
  server : s'.server = s.server
  app : s'.app = s.app
  status : s'.status = s.status
  sender : s'.sender = s.sender
  serverSocket : s'.serverSocket = s.serverSocket

theorem Move.keeps {server : ServerStatus} {thr thr' : CliThread} {h : OprHandle}
    {a : CliAnswer param} {e : CliEffect} (hmove : Move param server thr h a thr' e) :
    thr'.handle = thr.handle ∧ thr'.fd = thr.fd ∧ thr'.conn = thr.conn := by
  cases hmove <;> exact ⟨rfl, rfl, rfl⟩

theorem Move.frame {thr thr' : CliThread} {h : OprHandle} {a : CliAnswer param} {e : CliEffect}
    (hmove : Move param s.status thr h a thr' e) {i : ℕ} {table : FdTable} {list : ListHandle}
    {handles : ℕ → Option OprHandle} {hangUps : List HangUp} :
    ThreadFrame s { s with
      table := table, list := list, handles := handles, threads := s.threads.set i thr'
      hangUps := hangUps } i thr thr' := by
  obtain ⟨hhandle, hfd, hconn⟩ := hmove.keeps
  exact ⟨rfl, hhandle, hfd, hconn, rfl, rfl, rfl, rfl, rfl⟩

theorem ClientStep.frame {i : ℕ} {a : CliAnswer param} {thr : CliThread}
    (h : ClientStep param s i a thr s') :
    ∃ thr', ThreadFrame s s' i thr thr' := by
  cases h with
  | noHandle | fault | pushCrash | earseCrash =>
      exact ⟨_, ⟨rfl, rfl, rfl, rfl, rfl, rfl, rfl, rfl, rfl⟩⟩
  | none h thr' _ hmove | write h thr' h' _ hmove | push h thr' mem l _ hmove
  | earse h thr' l _ hmove | shutdown h thr' _ hmove | close h thr' _ hmove
  | free h thr' _ hmove =>
      exact ⟨thr', hmove.frame⟩

/-- What the steps of a broadcast do not touch. -/
structure SendFrame (s s' : State) : Prop where
  threads : s'.threads = s.threads
  server : s'.server = s.server
  app : s'.app = s.app
  status : s'.status = s.status
  serverSocket : s'.serverSocket = s.serverSocket
  list : s'.list = s.list
  table : s'.table = s.table
  hangUps : s'.hangUps = s.hangUps

theorem SenderStep.frame (h : SenderStep s s') : SendFrame s s' := by
  cases h <;> exact ⟨rfl, rfl, rfl, rfl, rfl, rfl, rfl, rfl⟩

/-- A broadcast changes the pool of a handle, and nothing else of it. -/
theorem SenderStep.handles (hstep : SenderStep s s') {y : ℕ} {h' : OprHandle}
    (hy : s'.handles y = some h') :
    ∃ h, s.handles y = some h ∧ h' = { h with clientBuf := h'.clientBuf } := by
  cases hstep with
  | start | finish | skip | fill => exact ⟨h', hy, rfl⟩
  | noSlot a x pNode h r hpc hnode hx | slot a x h r hpc hx
  | put a x bufId pNode h r hpc hnode hx =>
      rcases update_eq_cases (f := s.handles) hy with ⟨rfl, heq⟩ | ⟨-, hy⟩
      · rw [← Option.some.inj heq]
        exact ⟨h, hx, rfl⟩
      · exact ⟨h', hy, rfl⟩

/-! ## The phases of the server -/

/-- `OSA_server_destory` has seen `SERVER_ABOR`. -/
def AppPc.ending : AppPc → Bool
  | .deleteLocks | .freeList | .freeHandle | .returned => true
  | _ => false

theorem AppPc.ending_of_freed {pc : AppPc} (h : pc.freed = true) : pc.ending = true := by
  cases pc <;> first | rfl | cases h

structure PhaseInv (s : State) : Prop where
  stop : s.status = .stop → s.app.stopped = true
  abor : s.status = .abor ↔ s.server = .done
  leave : s.server = .setAbor → s.status = .stop
  done : s.server = .done → s.app.stopped = true
  ending : s.app.ending = true → s.server = .done

theorem PhaseInv.congr (hs : PhaseInv s) (hserver : s'.server = s.server) (happ : s'.app = s.app)
    (hstatus : s'.status = s.status) : PhaseInv s' := by
  constructor
  · rw [hstatus, happ]; exact hs.stop
  · rw [hstatus, hserver]; exact hs.abor
  · rw [hserver, hstatus]; exact hs.leave
  · rw [hserver, happ]; exact hs.done
  · rw [happ, hserver]; exact hs.ending

/-- A step of `OSA_server_thread` that stores no status and does not begin or end the leaving. -/
theorem PhaseInv.server (hs : PhaseInv s) (happ : s'.app = s.app) (hstatus : s'.status = s.status)
    (hfrom : s.server ≠ .done) (hto : s'.server ≠ .setAbor ∧ s'.server ≠ .done) :
    PhaseInv s' := by
  constructor
  · rw [hstatus, happ]; exact hs.stop
  · rw [hstatus, hs.abor]
    exact ⟨fun h ↦ (hfrom h).elim, fun h ↦ (hto.2 h).elim⟩
  · exact fun h ↦ (hto.1 h).elim
  · exact fun h ↦ (hto.2 h).elim
  · rw [happ]
    exact fun h ↦ (hfrom (hs.ending h)).elim

theorem PhaseInv.step (hs : PhaseInv s) (hstep : Server.step param s l = some s') :
    PhaseInv s' := by
  cases step_cases hstep with
  | app h =>
      cases h with
      | wake hpc | destory hpc | clients hpc | noClients hpc | notAbor hpc | deleteLocks hpc
      | freeList hpc | freeHandle hpc =>
          have hstop := hs.stop
          have hdone := hs.done
          have hending := hs.ending
          rw [hpc] at hstop hdone hending
          exact ⟨hstop, hs.abor, hs.leave, hdone, hending⟩
      | setStop hpc =>
          have hnot : s.server ≠ .done := fun h ↦ by
            have := hs.done h
            rw [hpc] at this
            cases this
          exact ⟨fun _ ↦ rfl, ⟨fun h ↦ (by cases h), fun h ↦ (hnot h).elim⟩, fun _ ↦ rfl,
            fun h ↦ (hnot h).elim, fun h ↦ (by cases h)⟩
      | abor hpc hst =>
          have hdone := hs.abor.mp hst
          exact ⟨fun _ ↦ rfl, hs.abor, hs.leave, fun _ ↦ rfl, fun _ ↦ hdone⟩
  | server a h =>
      cases h with
      | created a table hpc | createFailed a table hpc | goOn hpc | noClient client hpc
      | lowClient client fd table hpc | accepted client fd table hpc | readSize fd conn hpc
      | admitted fd conn clientSize hpc | refused fd conn clientSize hpc | noMemory fd conn hpc
      | allocated fd conn handle hpc | spawned fd conn handle hpc
      | spawnFailed fd conn handle hpc =>
          exact hs.server rfl rfl (by simp [hpc]) (by simp)
      | setStar hpc =>
          have hnot : s.server ≠ .done := by simp [hpc]
          exact ⟨fun h ↦ (by cases h), ⟨fun h ↦ (by cases h), fun h ↦ (by cases h)⟩,
            fun h ↦ (by cases h), fun h ↦ (by cases h), fun h ↦ (hnot (hs.ending h)).elim⟩
      | leave hpc hst =>
          have hnot : s.server ≠ .done := by simp [hpc]
          refine ⟨hs.stop, ?_, fun _ ↦ ?_, fun h ↦ (by cases h), fun h ↦ (hnot (hs.ending h)).elim⟩
          · exact ⟨fun h ↦ (hnot (hs.abor.mp h)).elim, fun h ↦ (by cases h)⟩
          · change s.status = .stop
            cases hstatus : s.status with
            | star => exact (hst hstatus).elim
            | stop => rfl
            | abor => exact (hnot (hs.abor.mp hstatus)).elim
      | setAbor hpc =>
          have hstop := hs.stop (hs.leave hpc)
          exact ⟨fun _ ↦ hstop, ⟨fun _ ↦ rfl, fun _ ↦ rfl⟩, fun h ↦ (by cases h), fun _ ↦ hstop,
            fun _ ↦ rfl⟩
  | client i a thr _ _ h =>
      obtain ⟨thr', hframe⟩ := h.frame
      exact hs.congr hframe.server hframe.app hframe.status
  | sender l _ _ h => exact hs.congr h.frame.server h.frame.app h.frame.status

theorem start_phaseInv : PhaseInv start :=
  ⟨fun h ↦ (by cases h), ⟨fun h ↦ (by cases h), fun h ↦ (by cases h)⟩, fun h ↦ (by cases h),
    fun h ↦ (by cases h), fun h ↦ (by cases h)⟩

/-! ## The handles and the list -/

/-- A thread has its handle to itself until it has freed it; the handle that
`OSA_server_thread` is about to give away is nobody's. -/
structure HandleInv (s : State) : Prop where
  allocated : ∀ (i : ℕ) (thr : CliThread), s.threads[i]? = some thr → thr.pc ≠ .done →
    ∃ h, s.handles thr.handle = some h
  distinct : ∀ (i j : ℕ) (thr thr' : CliThread),
    s.threads[i]? = some thr → s.threads[j]? = some thr' →
    thr.pc ≠ .done → thr'.pc ≠ .done → thr.handle = thr'.handle → i = j
  spawn : ∀ fd conn handle, s.server = .spawn fd conn handle →
    s.handles handle = some (newHandle fd) ∧
      ∀ (i : ℕ) (thr : CliThread), s.threads[i]? = some thr → thr.pc ≠ .done → thr.handle ≠ handle

/-- The thread may be in the list. -/
def CliPc.listed (pc : CliPc) : Bool := pc.registered || pc == .fault

/-- The node of a broadcast is one of the cells, and its handle the cell's. -/
def SendPc.On (cells : List (ℕ × ℕ)) : SendPc → Prop
  | .idle | .node none => True
  | .node (some a) => ∃ x, (a, x) ∈ cells
  | .getEmpty a x | .putFull a x _ => (a, x) ∈ cells

/-- The list is well formed and holds handles of threads that have added themselves. -/
structure RegInv (s : State) : Prop where
  cells : ∃ cells, s.list.Cells cells ∧ (cells.length : ℤ) ≤ s.list.nSize ∧ s.sender.On cells
  nodup : s.list.contents.Nodup
  listed : ∀ x ∈ s.list.contents, ∃ (i : ℕ) (thr : CliThread), s.threads[i]? = some thr ∧
    thr.handle = x ∧ thr.pc.listed = true

theorem SendPc.on_next {l : ListHandle} {cells : List (ℕ × ℕ)} (hcells : l.Cells cells) {a x : ℕ}
    (hx : (a, x) ∈ cells) {pNode : DataNode} (hnode : l.nodes a = some pNode) :
    SendPc.On cells (.node pNode.next) := by
  cases hnext : pNode.next with
  | none => trivial
  | some b => exact hcells.segment.next_mem hx hnode hnext

theorem RegInv.holds (hs : RegInv s) : s.list.Holds s.list.contents := by
  obtain ⟨cells, hcells, hsize, -⟩ := hs.cells
  have hholds : s.list.Holds (cells.map Prod.snd) :=
    ⟨⟨cells, hcells, rfl⟩, by rwa [List.length_map]⟩
  exact hholds.contents ▸ hholds

theorem CliPc.ne_done_of_listed {pc : CliPc} (h : pc.listed = true) : pc ≠ .done := by
  rintro rfl
  cases h

/-- The handle that a broadcast is at belongs to a thread. -/
theorem RegInv.fills (hs : RegInv s) {a x : ℕ} (hon : ∀ cells, s.sender.On cells → (a, x) ∈ cells) :
    ∃ (i : ℕ) (thr : CliThread), s.threads[i]? = some thr ∧ thr.pc ≠ .done ∧ thr.handle = x := by
  obtain ⟨cells, hcells, hsize, hsender⟩ := hs.cells
  have hholds : s.list.Holds (cells.map Prod.snd) :=
    ⟨⟨cells, hcells, rfl⟩, by rwa [List.length_map]⟩
  have hmem : x ∈ s.list.contents := by
    rw [hholds.contents]
    exact List.mem_map_of_mem (f := Prod.snd) (hon cells hsender)
  obtain ⟨i, thr, hthr, hx, hlisted⟩ := hs.listed x hmem
  exact ⟨i, thr, hthr, CliPc.ne_done_of_listed hlisted, hx⟩

/-- The handle that the broadcast is at. -/
def State.filled (s : State) : Option ℕ :=
  match s.sender with
  | .node (some a) => (s.list.nodes a).map Chain.Node.data
  | .getEmpty _ handle | .putFull _ handle _ => some handle
  | .idle | .node none => none

theorem RegInv.filled_mem (hs : RegInv s) {x : ℕ} (hx : x ∈ s.filled) : x ∈ s.list.contents := by
  obtain ⟨cells, hcells, hsize, hon⟩ := hs.cells
  have hholds : s.list.Holds (cells.map Prod.snd) :=
    ⟨⟨cells, hcells, rfl⟩, by rwa [List.length_map]⟩
  rw [hholds.contents]
  suffices h : ∃ a, (a, x) ∈ cells by
    obtain ⟨a, ha⟩ := h
    exact List.mem_map_of_mem (f := Prod.snd) ha
  unfold State.filled at hx
  split at hx
  · next a hpc =>
    rw [hpc] at hon
    obtain ⟨y, hy⟩ := hon
    obtain ⟨next, hnode⟩ := hcells.segment.allocated hy
    rw [hnode] at hx
    cases hx
    exact ⟨a, hy⟩
  · next a handle hpc =>
    rw [hpc] at hon
    cases hx
    exact ⟨a, hon⟩
  · next a handle bufId hpc =>
    rw [hpc] at hon
    cases hx
    exact ⟨a, hon⟩
  · cases hx
  · cases hx

theorem CliPc.ne_done_of_over {pc : CliPc} (h : pc.over = false) : pc ≠ .done := by
  rintro rfl
  cases h

namespace HandleInv

/-- The threads stay, and no handle goes away or changes that `OSA_server_thread` has. -/
theorem congr (hs : HandleInv s) (hthreads : s'.threads = s.threads)
    (hserver : ∀ fd conn handle, s'.server = .spawn fd conn handle →
      s.server = .spawn fd conn handle ∧ s'.handles handle = s.handles handle)
    (hhandles : ∀ x h, s.handles x = some h → ∃ h', s'.handles x = some h') : HandleInv s' := by
  constructor
  · rw [hthreads]
    intro i thr hthr hne
    obtain ⟨h, hh⟩ := hs.allocated i thr hthr hne
    exact hhandles _ h hh
  · rw [hthreads]
    exact hs.distinct
  · rw [hthreads]
    intro fd conn handle hpc
    obtain ⟨hpc', hsame⟩ := hserver fd conn handle hpc
    rw [hsame]
    exact hs.spawn fd conn handle hpc'

/-- A thread moves on, and its handle stays, changes, or goes away with the thread. -/
theorem thread (hs : HandleInv s) {i : ℕ} {thr thr' : CliThread}
    (hthr : s.threads[i]? = some thr) (hover : thr.pc.over = false)
    (hframe : ThreadFrame s s' i thr thr')
    (hother : ∀ x, x ≠ thr.handle → s'.handles x = s.handles x)
    (hown : thr'.pc ≠ .done → ∃ h, s'.handles thr.handle = some h) : HandleInv s' := by
  have hne : thr.pc ≠ .done := CliPc.ne_done_of_over hover
  constructor
  · rw [hframe.threads]
    intro j u hu hu'
    rcases getElem?_set_cases hu with ⟨-, rfl⟩ | ⟨hj, hu⟩
    · rw [hframe.handle]
      exact hown hu'
    · rw [hother]
      · exact hs.allocated j u hu hu'
      · exact fun heq ↦ hj (hs.distinct j i u thr hu hthr hu' hne heq)
  · rw [hframe.threads]
    intro j k u v hset hset' hu' hv' heq
    rcases getElem?_set_cases hset with ⟨rfl, rfl⟩ | ⟨hj, hu⟩
    · rcases getElem?_set_cases hset' with ⟨rfl, -⟩ | ⟨hk, hv⟩
      · rfl
      · exact hs.distinct _ k thr v hthr hv hne hv' (hframe.handle ▸ heq)
    · rcases getElem?_set_cases hset' with ⟨rfl, rfl⟩ | ⟨hk, hv⟩
      · exact hs.distinct j _ u thr hu hthr hu' hne (heq.trans hframe.handle)
      · exact hs.distinct j k u v hu hv hu' hv' heq
  · rw [hframe.threads, hframe.server]
    intro fd conn handle hpc
    obtain ⟨hnew, hnot⟩ := hs.spawn fd conn handle hpc
    refine ⟨?_, fun j u hu hu' ↦ ?_⟩
    · rw [hother handle (hnot i thr hthr hne).symm]
      exact hnew
    · rcases getElem?_set_cases hu with ⟨-, rfl⟩ | ⟨hj, hu⟩
      · rw [hframe.handle]
        exact hnot i thr hthr hne
      · exact hnot j u hu hu'

theorem client (hs : HandleInv s) {i : ℕ} {a : CliAnswer param} {thr : CliThread}
    (hthr : s.threads[i]? = some thr) (hover : thr.pc.over = false)
    (h : ClientStep param s i a thr s') : HandleInv s' := by
  obtain ⟨thr', hframe⟩ := h.frame
  obtain ⟨h₀, hh₀⟩ := hs.allocated i thr hthr (CliPc.ne_done_of_over hover)
  cases h with
  | noHandle | fault | none | push | pushCrash | earse | earseCrash | shutdown | close =>
      exact hs.thread hthr hover hframe (fun _ _ ↦ rfl) fun _ ↦ ⟨h₀, hh₀⟩
  | write h u h' =>
      refine hs.thread hthr hover hframe (fun x hx ↦ Function.update_of_ne hx ..) fun _ ↦ ?_
      exact ⟨h', Function.update_self ..⟩
  | free h u hh hmove =>
      refine hs.thread hthr hover hframe (fun x hx ↦ Function.update_of_ne hx ..) fun hne ↦ ?_
      cases hmove
      have hlt : i < s.threads.length := (List.getElem?_eq_some_iff.mp hthr).1
      have hu : (s.threads.set i thr')[i]? = some { thr with pc := .done } := by
        rw [← hframe.threads]
        exact List.getElem?_set_self hlt
      rw [List.getElem?_set_self hlt] at hu
      cases hu
      exact (hne rfl).elim

/-- A broadcast changes the handle of a client. -/
theorem fill (hs : HandleInv s) (hr : RegInv s) {a x : ℕ} {h : OprHandle} {pc : SendPc}
    (hon : ∀ cells, s.sender.On cells → (a, x) ∈ cells) :
    HandleInv { s with handles := Function.update s.handles x (some h), sender := pc } := by
  obtain ⟨i, thr, hthr, hne, hx⟩ := hr.fills hon
  refine hs.congr rfl (fun fd conn handle hpc ↦ ⟨hpc, ?_⟩) fun y h' hh' ↦ ?_
  · have hother : handle ≠ x := by
      rintro rfl
      exact (hs.spawn fd conn _ hpc).2 i thr hthr hne hx
    exact Function.update_of_ne hother ..
  · by_cases hy : y = x
    · exact ⟨h, by rw [hy]; exact Function.update_self ..⟩
    · exact ⟨h', by rw [← hh']; exact Function.update_of_ne hy ..⟩

theorem step (hs : HandleInv s) (hr : RegInv s) (hstep : Server.step param s l = some s') :
    HandleInv s' := by
  cases step_cases hstep with
  | app h =>
      cases h <;> exact hs.congr rfl (fun _ _ _ h ↦ ⟨h, rfl⟩) fun _ h hh ↦ ⟨h, hh⟩
  | server a h =>
      cases h with
      | created | createFailed | setStar | goOn | leave | noClient | lowClient | accepted | readSize
      | admitted | refused | noMemory | spawnFailed | setAbor =>
          exact hs.congr rfl (fun _ _ _ h ↦ by cases h) fun _ h hh ↦ ⟨h, hh⟩
      | allocated fd conn handle hpc hnone =>
          have hne : ∀ x h, s.handles x = some h → x ≠ handle := by
            rintro x h hh rfl
            rw [hnone] at hh
            cases hh
          constructor
          · intro i thr hthr hpc'
            obtain ⟨h, hh⟩ := hs.allocated i thr hthr hpc'
            exact ⟨h, by rw [← hh]; exact Function.update_of_ne (hne _ h hh) ..⟩
          · exact hs.distinct
          · intro fd' conn' handle' hpc'
            cases hpc'
            refine ⟨Function.update_self .., fun i thr hthr hpc' ↦ ?_⟩
            obtain ⟨h, hh⟩ := hs.allocated i thr hthr hpc'
            exact hne _ h hh
      | spawned fd conn handle hpc =>
          obtain ⟨hnew, hnot⟩ := hs.spawn fd conn handle hpc
          constructor
          · intro i thr hthr hpc'
            rcases getElem?_snoc_cases hthr with ⟨-, rfl⟩ | hthr
            · exact ⟨_, hnew⟩
            · exact hs.allocated i thr hthr hpc'
          · intro i j u v hu hv hu' hv' heq
            rcases getElem?_snoc_cases hu with ⟨rfl, rfl⟩ | hu
            · rcases getElem?_snoc_cases hv with ⟨rfl, -⟩ | hv
              · rfl
              · exact (hnot j v hv hv' heq.symm).elim
            · rcases getElem?_snoc_cases hv with ⟨rfl, rfl⟩ | hv
              · exact (hnot i u hu hu' heq).elim
              · exact hs.distinct i j u v hu hv hu' hv' heq
          · intro fd' conn' handle' hpc'
            cases hpc'
  | client i a thr hthr hover h => exact hs.client hthr hover h
  | sender l hl hfree h =>
      cases h with
      | start | finish | skip | fill =>
          exact hs.congr rfl (fun _ _ _ h ↦ ⟨h, rfl⟩) fun _ h hh ↦ ⟨h, hh⟩
      | noSlot a handle pNode h r hpc hnode hh | slot a handle h r hpc hh
      | put a handle bufId pNode h r hpc hnode hh =>
          exact hs.fill hr (a := a) fun cells hon ↦ by rwa [hpc] at hon

end HandleInv

namespace RegInv

/-- The list and the place of the broadcast stay, and the threads in the list stay there. -/
theorem congr (hs : RegInv s) (hlist : s'.list = s.list)
    (hsender : ∀ cells, s.list.Cells cells → s.sender.On cells → s'.sender.On cells)
    (hthreads : ∀ (i : ℕ) (thr : CliThread), s.threads[i]? = some thr → thr.pc.listed = true →
      ∃ thr' : CliThread, s'.threads[i]? = some thr' ∧ thr'.handle = thr.handle ∧
        thr'.pc.listed = true) : RegInv s' := by
  constructor
  · obtain ⟨cells, hcells, hsize, hon⟩ := hs.cells
    rw [hlist]
    exact ⟨cells, hcells, hsize, hsender cells hcells hon⟩
  · rw [hlist]
    exact hs.nodup
  · rw [hlist]
    intro x hx
    obtain ⟨i, thr, hthr, rfl, hlisted⟩ := hs.listed x hx
    obtain ⟨thr', hthr', hhandle, hlisted'⟩ := hthreads i thr hthr hlisted
    exact ⟨i, thr', hthr', hhandle, hlisted'⟩

/-- A thread moves on without leaving the list. -/
theorem thread (hs : RegInv s) {i : ℕ} {thr thr' : CliThread} (hthr : s.threads[i]? = some thr)
    (hframe : ThreadFrame s s' i thr thr') (hlist : s'.list = s.list)
    (hlisted : thr.pc.listed = true → thr'.pc.listed = true) : RegInv s' := by
  refine hs.congr hlist (fun cells _ hon ↦ hframe.sender ▸ hon) fun j u hu hu' ↦ ?_
  rw [hframe.threads]
  by_cases hj : j = i
  · subst hj
    obtain rfl : u = thr := Option.some.inj (hu.symm.trans hthr)
    exact ⟨thr', List.getElem?_set_self (List.getElem?_eq_some_iff.mp hthr).1, hframe.handle,
      hlisted hu'⟩
  · exact ⟨u, by rw [List.getElem?_set_ne (Ne.symm hj)]; exact hu, rfl, hu'⟩

end RegInv

theorem Move.listed {server : ServerStatus} {thr thr' : CliThread} {h : OprHandle}
    {a : CliAnswer param} {e : CliEffect} (hmove : Move param server thr h a thr' e)
    (hlisted : thr.pc.listed = true) : thr'.pc.listed = true ∨ e = .earse := by
  cases hmove with
  | create hpc | quit hpc | connect hpc | noBuf hpc | createBuf mem initStatus r hpc
  | getSocket hpc | register mem hpc | shutdown hpc | close hpc | deleteLock hpc | testType hpc
  | drain r hpc | deleteBuf hpc | free hpc =>
      rw [hpc] at hlisted
      cases hlisted
  | running => exact Or.inl (by dsimp only; split <;> rfl)
  | getFull => exact Or.inl (by dsimp only; split <;> rfl)
  | unregister => exact Or.inr rfl
  | connected | disconnected | stopped | sent | sendFailed | putEmpty | turn | turnFailed
  | exitStatus | exitShutdown | exitClose | exitUnset => exact Or.inl rfl

namespace RegInv

theorem push (hs : RegInv s) (hh : HandleInv s) {i : ℕ} {thr thr' : CliThread} {mem : Option ℕ}
    {l : ListHandle} (hthr : s.threads[i]? = some thr) (hpc : thr.pc = .register)
    (hthr' : thr' = { thr with pc := .testStatus }) (hidle : s.sender = .idle)
    (hfresh : s.list.Fresh mem) (hpush : s.list.listPushBack mem thr.handle = some l) :
    RegInv { s.setThread i thr' with list := l } := by
  obtain ⟨hnone, hsome⟩ := hs.holds.push hfresh hpush
  have hlt : i < s.threads.length := (List.getElem?_eq_some_iff.mp hthr).1
  have hothers : ∀ x ∈ s.list.contents, x ≠ thr.handle ∧ ∃ (j : ℕ) (u : CliThread),
      (s.threads.set i thr')[j]? = some u ∧ u.handle = x ∧ u.pc.listed = true := by
    intro x hx
    obtain ⟨j, u, hu, rfl, hlisted⟩ := hs.listed x hx
    have hj : j ≠ i := by
      rintro rfl
      obtain rfl : u = thr := Option.some.inj (hu.symm.trans hthr)
      rw [hpc] at hlisted
      cases hlisted
    refine ⟨fun heq ↦ hj ?_, j, u, by rw [List.getElem?_set_ne (Ne.symm hj)]; exact hu, rfl,
      hlisted⟩
    exact hh.distinct j i u thr hu hthr (CliPc.ne_done_of_listed hlisted) (by simp [hpc]) heq
  have hl : ∃ ds, l.Holds ds ∧ ds.Nodup ∧ ∀ x ∈ ds, ∃ (j : ℕ) (u : CliThread),
      (s.threads.set i thr')[j]? = some u ∧ u.handle = x ∧ u.pc.listed = true := by
    cases mem with
    | none => exact ⟨_, (hnone rfl).1, hs.nodup, fun x hx ↦ (hothers x hx).2⟩
    | some a =>
        refine ⟨_, (hsome (by simp)).1, ?_, fun x hx ↦ ?_⟩
        · refine List.nodup_append.mpr ⟨hs.nodup, by simp, ?_⟩
          intro x hx y hy
          rw [List.mem_singleton.mp hy]
          exact (hothers x hx).1
        · rcases List.mem_append.mp hx with hx | hx
          · exact (hothers x hx).2
          · obtain rfl := List.mem_singleton.mp hx
            refine ⟨i, thr', List.getElem?_set_self hlt, ?_, ?_⟩
            · rw [hthr']
            · rw [hthr']
              rfl
  obtain ⟨ds, hholds, hnodup, hlisted⟩ := hl
  obtain ⟨⟨cells, hcells, hmap⟩, hsize⟩ := hholds
  constructor
  · refine ⟨cells, hcells, ?_, ?_⟩
    · rw [← hmap, List.length_map] at hsize
      exact hsize
    · change s.sender.On cells
      rw [hidle]
      trivial
  · change l.contents.Nodup
    rwa [ListHandle.Holds.contents ⟨⟨cells, hcells, hmap⟩, hsize⟩]
  · change ∀ x ∈ l.contents, _
    rwa [ListHandle.Holds.contents ⟨⟨cells, hcells, hmap⟩, hsize⟩]

theorem earse (hs : RegInv s) {i : ℕ} {thr thr' : CliThread} {l : ListHandle}
    (hthr : s.threads[i]? = some thr) (hidle : s.sender = .idle)
    (hearse : s.list.listEarseData thr.handle = some l) :
    RegInv { s.setThread i thr' with list := l } := by
  obtain ⟨l', hearse', hholds, -⟩ := hs.holds.earse thr.handle
  obtain rfl : l' = l := Option.some.inj (hearse'.symm.trans hearse)
  have hcontents := hholds.contents
  obtain ⟨⟨cells, hcells, hmap⟩, hsize⟩ := hholds
  constructor
  · refine ⟨cells, hcells, ?_, ?_⟩
    · rw [← hmap, List.length_map] at hsize
      exact hsize
    · change s.sender.On cells
      rw [hidle]
      trivial
  · change l'.contents.Nodup
    rw [hcontents]
    exact hs.nodup.erase _
  · change ∀ x ∈ l'.contents, _
    rw [hcontents]
    intro x hx
    obtain ⟨hne, hx⟩ := hs.nodup.mem_erase_iff.mp hx
    obtain ⟨j, u, hu, rfl, hlisted⟩ := hs.listed x hx
    have hj : j ≠ i := by
      rintro rfl
      obtain rfl : u = thr := Option.some.inj (hu.symm.trans hthr)
      exact hne rfl
    exact ⟨j, u, (List.getElem?_set_ne (Ne.symm hj)).trans hu, rfl, hlisted⟩

theorem step (hs : RegInv s) (hh : HandleInv s) (hstep : Server.step param s l = some s') :
    RegInv s' := by
  cases step_cases hstep with
  | app h =>
      cases h <;> exact hs.congr rfl (fun _ _ hon ↦ hon) fun _ thr h hl ↦ ⟨thr, h, rfl, hl⟩
  | server a h =>
      cases h with
      | created | createFailed | setStar | goOn | leave | noClient | lowClient | accepted | readSize
      | admitted | refused | noMemory | allocated | spawnFailed | setAbor =>
          exact hs.congr rfl (fun _ _ hon ↦ hon) fun _ thr h hl ↦ ⟨thr, h, rfl, hl⟩
      | spawned =>
          refine hs.congr rfl (fun _ _ hon ↦ hon) fun j thr h hl ↦ ⟨thr, ?_, rfl, hl⟩
          exact (List.getElem?_append_left (List.getElem?_eq_some_iff.mp h).1).trans h
  | client i a thr hthr hover h =>
      obtain ⟨h₀, hh₀⟩ := hh.allocated i thr hthr (CliPc.ne_done_of_over hover)
      cases h with
      | noHandle hnone =>
          rw [hnone] at hh₀
          cases hh₀
      | fault => exact hs.thread hthr ⟨rfl, rfl, rfl, rfl, rfl, rfl, rfl, rfl, rfl⟩ rfl fun _ ↦ rfl
      | none h thr' _ hmove | write h thr' h' _ hmove | shutdown h thr' _ hmove
      | close h thr' _ hmove | free h thr' _ hmove =>
          refine hs.thread hthr hmove.frame rfl fun hl ↦ ?_
          rcases hmove.listed hl with hl' | hearse
          · exact hl'
          · cases hearse
      | push h thr' mem l _ hmove hidle hfresh hpush =>
          cases hmove with
          | register _ hpc => exact hs.push hh hthr hpc rfl hidle hfresh hpush
      | pushCrash h thr' mem _ hmove =>
          refine hs.thread hthr ⟨rfl, rfl, rfl, rfl, rfl, rfl, rfl, rfl, rfl⟩ rfl fun hl ↦ ?_
          cases hmove with
          | register _ hpc =>
              rw [hpc] at hl
              cases hl
      | earse h thr' l _ hmove hidle hearse => exact hs.earse hthr hidle hearse
      | earseCrash h thr' _ hmove hnone =>
          obtain ⟨l', hearse, -⟩ := hs.holds.earse thr.handle
          rw [hnone] at hearse
          cases hearse
  | sender l hl hfree h =>
      cases h with
      | start hpc =>
          refine hs.congr rfl (fun cells hcells _ ↦ ?_) fun _ thr h hl ↦ ⟨thr, h, rfl, hl⟩
          change SendPc.On cells (.node s.list.next)
          cases hnext : s.list.next with
          | none => trivial
          | some a =>
              have hseg := hcells.segment
              rw [hnext] at hseg
              cases cells with
              | nil => cases hseg
              | cons x cells => exact ⟨x.2, by rw [Option.some.inj hseg.1]; simp⟩
      | finish hpc =>
          exact hs.congr rfl (fun _ _ _ ↦ trivial) fun _ thr h hl ↦ ⟨thr, h, rfl, hl⟩
      | fill a pNode h hpc hnode =>
          refine hs.congr rfl (fun cells hcells hon ↦ ?_) fun _ thr h hl ↦ ⟨thr, h, rfl, hl⟩
          rw [hpc] at hon
          obtain ⟨x, hx⟩ := hon
          obtain ⟨next, hnode'⟩ := hcells.segment.allocated hx
          rw [hnode] at hnode'
          cases hnode'
          exact hx
      | slot a x h r hpc =>
          refine hs.congr rfl (fun cells hcells hon ↦ ?_) fun _ thr h hl ↦ ⟨thr, h, rfl, hl⟩
          rwa [hpc] at hon
      | skip a pNode h hpc hnode =>
          refine hs.congr rfl (fun cells hcells hon ↦ ?_) fun _ thr h hl ↦ ⟨thr, h, rfl, hl⟩
          rw [hpc] at hon
          obtain ⟨x, hx⟩ := hon
          exact SendPc.on_next hcells hx hnode
      | noSlot a x pNode h r hpc hnode | put a x bufId pNode h r hpc hnode =>
          refine hs.congr rfl (fun cells hcells hon ↦ ?_) fun _ thr h hl ↦ ⟨thr, h, rfl, hl⟩
          rw [hpc] at hon
          exact SendPc.on_next hcells hon hnode

end RegInv

/-! ## The size of the list -/

/-- No node fails to be allocated behind another one; at the head a failure changes nothing. -/
def NodesOk (param : ServerParam) (s : State) : Label param → Prop
  | .client _ (.node none) => s.list.nSize = 0
  | _ => True

/-- `nSize` is the number of the clients in the list. -/
def SizeInv (s : State) : Prop := s.list.nSize = s.list.contents.length

theorem SizeInv.step (hs : SizeInv s) (hr : RegInv s) (hok : NodesOk param s l)
    (hstep : Server.step param s l = some s') : SizeInv s' := by
  cases step_cases hstep with
  | app h => cases h <;> exact hs
  | server a h => cases h <;> exact hs
  | client i a thr hthr hover h =>
      cases h with
      | noHandle | fault | none | write | pushCrash | earseCrash | shutdown | close | free =>
          exact hs
      | push h thr' mem l _ hmove hidle hfresh hpush =>
          obtain ⟨hnone, hsome⟩ := hr.holds.push hfresh hpush
          change l.nSize = l.contents.length
          cases hmove with
          | register _ hpc =>
              cases mem with
              | none =>
                  rw [(hnone rfl).2 hok]
                  exact hs
              | some b =>
                  obtain ⟨hholds, hsize⟩ := hsome (by simp)
                  rw [hholds.contents, hsize, hs, List.length_append]
                  rfl
      | earse h thr' l _ hmove hidle hearse =>
          obtain ⟨l', hearse', hholds, hsize⟩ := hr.holds.earse thr.handle
          obtain rfl : l' = l := Option.some.inj (hearse'.symm.trans hearse)
          change l'.nSize = l'.contents.length
          rw [hholds.contents, hsize, hs]
          by_cases hmem : thr.handle ∈ s.list.contents
          · have hpos := List.length_pos_of_mem hmem
            rw [if_pos hmem, List.length_erase_of_mem hmem]
            omega
          · rw [if_neg hmem, List.erase_of_not_mem hmem]
  | sender l _ _ h =>
      unfold SizeInv
      rw [h.frame.list]
      exact hs

/-! ## Uses of a freed server -/

/-- No thread has used the server after it was freed as long as it is not. -/
def FaultInv (s : State) : Prop :=
  s.app.freed = false → ∀ (i : ℕ) (thr : CliThread), s.threads[i]? = some thr → thr.pc ≠ .fault

theorem Move.not_fault {server : ServerStatus} {thr thr' : CliThread} {h : OprHandle}
    {a : CliAnswer param} {e : CliEffect} (hmove : Move param server thr h a thr' e) :
    thr'.pc ≠ .fault := by
  cases hmove <;> dsimp only <;> (try split) <;> simp

theorem FaultInv.step (hs : FaultInv s) (hstep : Server.step param s l = some s') :
    FaultInv s' := by
  cases step_cases hstep with
  | app h =>
      cases h with
      | freeList | freeHandle => exact fun hfreed ↦ by cases hfreed
      | wake hpc | destory hpc | setStop hpc | clients hpc | noClients hpc | notAbor hpc | abor hpc
      | deleteLocks hpc => exact fun _ ↦ hs (by rw [hpc]; rfl)
  | server a h =>
      cases h with
      | created | createFailed | setStar | goOn | leave | noClient | lowClient | accepted | readSize
      | admitted | refused | noMemory | allocated | spawnFailed | setAbor => exact hs
      | spawned =>
          intro hfreed i thr hthr
          rcases getElem?_snoc_cases hthr with ⟨-, rfl⟩ | hthr
          · simp
          · exact hs hfreed i thr hthr
  | client i a thr hthr _ h =>
      have hset : ∀ {thr' : CliThread}, thr'.pc ≠ .fault → s.app.freed = false →
          ∀ (j : ℕ) (u : CliThread), (s.threads.set i thr')[j]? = some u → u.pc ≠ .fault := by
        intro thr' hne hfreed j u hu
        rcases getElem?_set_cases hu with ⟨-, rfl⟩ | ⟨-, hu⟩
        · exact hne
        · exact hs hfreed j u hu
      cases h with
      | fault h _ hfreed =>
          intro hnot
          rw [show s.app.freed = false from hnot] at hfreed
          cases hfreed
      | noHandle | pushCrash | earseCrash => exact hset (by simp)
      | none h thr' _ hmove | write h thr' h' _ hmove | push h thr' mem l _ hmove
      | earse h thr' l _ hmove | shutdown h thr' _ hmove | close h thr' _ hmove
      | free h thr' _ hmove => exact hset hmove.not_fault
  | sender l _ _ h =>
      unfold FaultInv
      rw [h.frame.app, h.frame.threads]
      exact hs

/-! ## Runs -/

/-- What holds in every run. -/
structure Inv (s : State) : Prop where
  phase : PhaseInv s
  handle : HandleInv s
  reg : RegInv s
  fault : FaultInv s

theorem start_inv : Inv start where
  phase := start_phaseInv
  handle :=
    ⟨fun i thr h ↦ (by cases h), fun i j thr thr' h ↦ (by cases h), fun _ _ _ h ↦ (by cases h)⟩
  reg := ⟨⟨[], ListHandle.listCreate_cells, Int.le_refl 0, trivial⟩, List.nodup_nil,
    fun x hx ↦ by cases hx⟩
  fault := fun _ i thr h ↦ by cases h

theorem Inv.step (hs : Inv s) (hstep : Server.step param s l = some s') : Inv s' :=
  ⟨hs.phase.step hstep, hs.handle.step hs.reg hstep, hs.reg.step hs.handle hstep,
    hs.fault.step hstep⟩

theorem reach_inv {ok : State → Label param → Prop} (h : Reach (step param) ok start s) : Inv s :=
  h.invariant start_inv fun _ _ _ hs _ hstep ↦ hs.step hstep

/-- While the server is not freed a client thread that has not returned makes a move. -/
theorem ClientStep.moves {i : ℕ} {a : CliAnswer param} {thr : CliThread}
    (hstep : ClientStep param s i a thr s') (hs : Inv s) (hfreed : s.app.freed = false)
    (hthr : s.threads[i]? = some thr) (hover : thr.pc.over = false) :
    ∃ h thr' e, s.handles thr.handle = some h ∧ Move param s.status thr h a thr' e ∧
      (e = .none → s' = s.setThread i thr') ∧
      (e = .earse → s.list.listEarseData thr.handle = some s'.list) ∧
      ∀ mem l, e = .push mem → s.list.listPushBack mem thr.handle = some l →
        s'.list = l ∧ s.list.Fresh mem := by
  cases hstep with
  | noHandle hnone =>
      obtain ⟨h, hh⟩ := hs.handle.allocated i thr hthr (CliPc.ne_done_of_over hover)
      rw [hnone] at hh
      cases hh
  | fault h hh hfault =>
      rw [hfreed] at hfault
      cases hfault
  | none h thr' hh hmove =>
      exact ⟨h, thr', _, hh, hmove, fun _ ↦ rfl, fun he ↦ (by cases he), fun mem l he ↦ by cases he⟩
  | write h thr' h' hh hmove | shutdown h thr' hh hmove | close h thr' hh hmove
  | free h thr' hh hmove =>
      refine ⟨h, thr', _, hh, hmove, fun he ↦ ?_, fun he ↦ ?_, fun mem l he ↦ ?_⟩
      all_goals cases he
  | push h thr' mem l hh hmove hidle hfresh hpush =>
      refine ⟨h, thr', _, hh, hmove, fun he ↦ (by cases he), fun he ↦ (by cases he), ?_⟩
      intro mem' l' he hpush'
      cases he
      exact ⟨Option.some.inj (hpush.symm.trans hpush'), hfresh⟩
  | pushCrash h thr' mem hh hmove hnone =>
      refine ⟨h, thr', _, hh, hmove, fun he ↦ (by cases he), fun he ↦ (by cases he), ?_⟩
      intro mem' l' he hpush'
      cases he
      rw [hnone] at hpush'
      cases hpush'
  | earse h thr' l hh hmove hidle hearse =>
      exact ⟨h, thr', _, hh, hmove, fun he ↦ (by cases he), fun _ ↦ hearse,
        fun mem l he ↦ by cases he⟩
  | earseCrash h thr' hh hmove hnone =>
      obtain ⟨l, hearse, -⟩ := hs.reg.holds.earse thr.handle
      rw [hnone] at hearse
      cases hearse

/-! ## What a thread knows of its own handle -/

/-- What holds of each thread that has not returned, with its handle. -/
def LocalInv (P : CliThread → OprHandle → Prop) (s : State) : Prop :=
  ∀ (i : ℕ) (thr : CliThread) (h : OprHandle), s.threads[i]? = some thr → thr.pc.over = false →
    s.handles thr.handle = some h → P thr h

namespace LocalInv

variable {P : CliThread → OprHandle → Prop}

theorem start : LocalInv P start := fun i thr h hthr ↦ by cases hthr

/-- Thread `i` moves on, and no other thread's handle changes. -/
theorem thread (hs : LocalInv P s) (hh : HandleInv s) {i : ℕ} {thr thr' : CliThread}
    (hthr : s.threads[i]? = some thr) (hover : thr.pc.over = false)
    (hthreads : s'.threads = s.threads.set i thr')
    (hother : ∀ x, x ≠ thr.handle → s'.handles x = s.handles x)
    (hown : ∀ h, thr'.pc.over = false → s'.handles thr'.handle = some h → P thr' h) :
    LocalInv P s' := by
  intro j u h hu hu' hh'
  rw [hthreads] at hu
  rcases getElem?_set_cases hu with ⟨-, rfl⟩ | ⟨hj, hu⟩
  · exact hown h hu' hh'
  · refine hs j u h hu hu' ?_
    rwa [hother] at hh'
    exact fun heq ↦ hj (hh.distinct j i u thr hu hthr (CliPc.ne_done_of_over hu')
      (CliPc.ne_done_of_over hover) heq)

/-- The threads stay, and a handle changes at most as a broadcast changes it. -/
theorem fill (hs : LocalInv P s) (hthreads : s'.threads = s.threads)
    (hfill : ∀ thr h buf, P thr h → P thr { h with clientBuf := buf })
    (hhandles : ∀ x h, s'.handles x = some h →
      ∃ h', s.handles x = some h' ∧ h = { h' with clientBuf := h.clientBuf }) :
    LocalInv P s' := by
  intro i thr h hthr hover hh
  rw [hthreads] at hthr
  obtain ⟨h', hh', heq⟩ := hhandles _ h hh
  rw [heq]
  exact hfill thr h' _ (hs i thr h' hthr hover hh')

theorem client (hs : LocalInv P s) (hh : HandleInv s) {i : ℕ} {a : CliAnswer param}
    {thr : CliThread} (hthr : s.threads[i]? = some thr) (hover : thr.pc.over = false)
    (hmove : ∀ h thr' e, s.handles thr.handle = some h → Move param s.status thr h a thr' e →
      thr'.pc.over = false → P thr h → P thr' (e.handle h))
    (h : ClientStep param s i a thr s') : LocalInv P s' := by
  cases h with
  | noHandle | fault | pushCrash | earseCrash =>
      exact hs.thread hh hthr hover rfl (fun _ _ ↦ rfl) fun _ hnot ↦ by cases hnot
  | none h thr' hh₀ hm | push h thr' mem l hh₀ hm | earse h thr' l hh₀ hm | shutdown h thr' hh₀ hm
  | close h thr' hh₀ hm =>
      refine hs.thread hh hthr hover rfl (fun _ _ ↦ rfl) fun h' hnot hh' ↦ ?_
      obtain rfl : h = h' := by
        rw [hm.keeps.1] at hh'
        exact Option.some.inj (hh₀.symm.trans hh')
      exact hmove h thr' _ hh₀ hm hnot (hs i thr h hthr hover hh₀)
  | write h thr' h₁ hh₀ hm =>
      refine hs.thread hh hthr hover rfl (fun x hx ↦ Function.update_of_ne hx ..)
        fun h' hnot hh' ↦ ?_
      change Function.update s.handles thr.handle (some h₁) thr'.handle = some h' at hh'
      rw [hm.keeps.1, Function.update_self] at hh'
      obtain rfl := Option.some.inj hh'
      exact hmove h thr' _ hh₀ hm hnot (hs i thr h hthr hover hh₀)
  | free h thr' hh₀ hm =>
      refine hs.thread hh hthr hover rfl (fun x hx ↦ Function.update_of_ne hx ..)
        fun h' hnot hh' ↦ ?_
      cases hm
      cases hnot

theorem server (hs : LocalInv P s) (hh : HandleInv s) {a : ServerAnswer}
    (hnew : ∀ handle fd conn, P ⟨handle, -1, .start, fd, conn, false⟩ (newHandle fd))
    (h : ServerStep param s a s') : LocalInv P s' := by
  cases h with
  | created | createFailed | setStar | goOn | leave | noClient | lowClient | accepted | readSize
  | admitted | refused | noMemory | spawnFailed | setAbor => exact hs
  | allocated fd conn handle hpc hnone =>
      intro i thr h hthr hover hh'
      obtain ⟨h₀, hh₀⟩ := hh.allocated i thr hthr (CliPc.ne_done_of_over hover)
      rcases update_eq_cases (f := s.handles) hh' with ⟨heq, -⟩ | ⟨-, hh'⟩
      · rw [heq, hnone] at hh₀
        cases hh₀
      · exact hs i thr h hthr hover hh'
  | spawned fd conn handle hpc =>
      intro i thr h hthr hover hh'
      rcases getElem?_snoc_cases hthr with ⟨-, rfl⟩ | hthr
      · obtain rfl : newHandle fd = h :=
          Option.some.inj ((hh.spawn fd conn handle hpc).1.symm.trans hh')
        exact hnew handle fd conn
      · exact hs i thr h hthr hover hh'

/-- What holds of a new thread, and is kept by the moves of a thread and by the broadcasts. -/
theorem step (hs : LocalInv P s) (hh : HandleInv s) (hstep : Server.step param s l = some s')
    (hnew : ∀ handle fd conn, P ⟨handle, -1, .start, fd, conn, false⟩ (newHandle fd))
    (hfill : ∀ thr h buf, P thr h → P thr { h with clientBuf := buf })
    (hmove : ∀ i a thr h thr' e, l = .client i a → s.threads[i]? = some thr →
      thr.pc.over = false → s.handles thr.handle = some h → Move param s.status thr h a thr' e →
      thr'.pc.over = false → P thr h → P thr' (e.handle h)) : LocalInv P s' := by
  cases step_cases hstep with
  | app h => cases h <;> exact hs
  | server a h => exact hs.server hh hnew h
  | client i a thr hthr hover h =>
      exact hs.client hh hthr hover (fun h thr' e ↦ hmove i a thr h thr' e rfl hthr hover) h
  | sender l hl hfree h => exact hs.fill h.frame.threads hfill fun x h' hh' ↦ h.handles hh'

end LocalInv

/-! ## Runs that are used below -/

def oneClient : ServerParam := ⟨.msgType, 9000, 1, 1, by decide, by decide⟩

def oneStream : ServerParam := ⟨.streamType, 9000, 1, 1, by decide, by decide⟩

def twoClients : ServerParam := ⟨.msgType, 9000, 1, 2, by decide, by decide⟩

/-- The listening socket is made, and `SERVER_STAR` is stored. -/
def listenRun (fd : ℤ) : List (Label param) :=
  [.server (.create ⟨fd, true, true, true⟩), .server .next]

/-- A client is accepted, and its thread created. -/
def admitRun (fd : ℤ) (handle : ℕ) : List (Label param) :=
  [.server .next, .server (.accept (some fd)), .server .next, .server .next,
    .server (.mem (some handle)), .server (.thread true)]

/-- A client thread of a MSG_TYPE server adds itself to the list. -/
def joinRun (i node : ℕ) : List (Label param) :=
  [.client i (.mutex true), .client i .next, .client i .next, .client i .next,
    .client i (.node (some node))]

/-- A client thread of a STREAM_TYPE server adds itself to the list. -/
def joinStreamRun (i node : ℕ) : List (Label param) :=
  [.client i (.mutex true), .client i .next,
    .client i (.buf (fun _ ↦ some (Vector.replicate _ 0)) fun _ ↦ 0), .client i .next,
    .client i (.node (some node))]

end OsaBase.Server
