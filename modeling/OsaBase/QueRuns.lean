import OsaBase.Fifo

/-!
# Every run of the ring queues

Any number of threads call a queue made by a successful create. The completed calls are a
legal history of a bounded queue, the cells in use hold exactly what was put and not yet got,
and a call that does not succeed leaves every field as it was.
-/

open Transition Monitor

namespace OsaBase

variable {α : Type}

def RingCall.readOnly : RingCall α → Prop
  | .peek _ | .getQueuedCount | .isEmpty => True
  | _ => False

instance (c : RingCall α) : Decidable c.nonNull :=
  match c with
  | .get value _ | .peek value => inferInstanceAs (Decidable (value = true))
  | .put _ _ | .getQueuedCount | .isEmpty => inferInstanceAs (Decidable True)

/-- The positions of a ring of `cap` cells, and its contents against the completed calls. -/
structure RingLaw [Inhabited α] (cap : ℕ) (hndl : RingHndl α)
    (log : List (RingCall α × RingResult α)) : Prop where
  len_eq : hndl.len = cap
  curRd_lt : hndl.curRd < hndl.len
  curWr_lt : hndl.curWr < hndl.len
  count_le : hndl.count ≤ hndl.len
  curWr_eq : hndl.curWr = (hndl.curRd + hndl.count) % hndl.len
  history : putValues log = gotValues log ++ hndl.items

/-- A pass completes the call `c` with the result `r`. It is an operation of the bounded queue, a
call succeeds exactly when it puts or finds its value and fails exactly when the queue is full or
empty, and a query or a call that fails changes no field. -/
structure Completes [Inhabited α] (cap : ℕ) (hndl hndl' : RingHndl α) (c : RingCall α)
    (r : RingResult α) : Prop where
  op : FifoOp cap hndl.items c r hndl'.items
  put_sok : ∀ v timeout, c = .put v timeout →
    (r = .status osaSok ↔ hndl'.items = hndl.items ++ [v])
  put_failed : ∀ v timeout, c = .put v timeout → (r.failed ↔ hndl.count = hndl.len)
  get_sok : ∀ timeout, c = .get true timeout → ∀ x,
    (r = .value osaSok (some x) ↔ hndl.items = x :: hndl'.items)
  get_failed : ∀ value timeout, c = .get value timeout → (r.failed ↔ hndl.count = 0)
  peek_sok : c = .peek true → ∀ x, (r = .value osaSok (some x) ↔ hndl.items.head? = some x)
  unchanged : r.failed ∨ c.readOnly → hndl' = hndl

/-- What a step does to the queue. Only a thread that enters the critical section changes it: it
goes to sleep, changing nothing, exactly when the call it is in has to wait, and completes that
call otherwise. -/
def RingStep {T C : Type} [Inhabited α] (cap : ℕ) (toRing : C → RingCall α)
    (s s' : State T (RingHndl α) RingCond C (RingResult α)) : Label T C → Prop
  | .enter t _ => ∃ e c, (s.phase t).ready = some (e, c) ∧
      (((toRing c).Waits cap s.shared.items ∧ (s'.phase t).blockedCall = some c ∧
          s'.shared = s.shared ∧ s'.log = s.log) ∨
        (¬ (toRing c).Waits cap s.shared.items ∧ s'.phase t = .idle ∧
          ∃ r, s'.log = s.log ++ [(c, r)] ∧ Completes cap s.shared s'.shared (toRing c) r))
  | .invoke _ _ | .spurious _ | .expire _ => s'.shared = s.shared ∧ s'.log = s.log

/-- Callers pass a place to store the value. -/
def NonNull {T : Type} {C : Type} (toRing : C → RingCall α) {σ : Type} (_ : σ) :
    Label T C → Prop
  | .invoke _ c => (toRing c).nonNull
  | _ => True

instance {T C σ : Type} (toRing : C → RingCall α) (s : σ) (l : Label T C) :
    Decidable (NonNull toRing s l) :=
  match l with
  | .invoke _ c => inferInstanceAs (Decidable (toRing c).nonNull)
  | .enter _ _ | .spurious _ | .expire _ => inferInstanceAs (Decidable True)

theorem RingHndl.Rep.law [Inhabited α] {cap : ℕ} {hndl : RingHndl α}
    {log : List (RingCall α × RingResult α)} (h : hndl.Rep cap)
    (hreplay : Replay (FifoOp cap) [] log hndl.items)
    (hlog : ∀ c r, (c, r) ∈ log → c.nonNull) : RingLaw cap hndl log where
  len_eq := h.len_eq
  curRd_lt := h.wf.curRd_lt
  curWr_lt := h.wf.curWr_lt
  count_le := h.wf.count_le
  curWr_eq := h.wf.curWr_eq
  history := by simpa using history_of_replay hreplay hlog

theorem RingHndl.putPass_failed {hndl hndl' : RingHndl α} {v : α} {timeout : ℕ}
    {r : RingResult α} {sig : Option RingCond}
    (hpass : hndl.putPass v timeout = .done hndl' r sig) (hr : r.failed) : hndl' = hndl := by
  unfold putPass at hpass
  split at hpass
  · cases hpass
    exact (osaEfail_ne_osaSok hr.symm).elim
  · split at hpass <;> cases hpass
    rfl

theorem RingHndl.getPass_failed [Inhabited α] {hndl hndl' : RingHndl α} {value : Bool}
    {timeout : ℕ} {r : RingResult α} {sig : Option RingCond}
    (hpass : hndl.getPass value timeout = .done hndl' r sig) (hr : r.failed) : hndl' = hndl := by
  unfold getPass at hpass
  split at hpass
  · cases hpass
    exact (osaEfail_ne_osaSok hr.symm).elim
  · split at hpass <;> cases hpass
    rfl

theorem RingHndl.Rep.completes [Inhabited α] {cap : ℕ} {hndl hndl' : RingHndl α} {c : RingCall α}
    {r : RingResult α} (h : hndl.Rep cap) (hop : FifoOp cap hndl.items c r hndl'.items)
    (hsame : r.failed ∨ c.readOnly → hndl' = hndl) : Completes cap hndl hndl' c r where
  op := hop
  put_sok := by
    rintro v timeout rfl
    exact hop.put_sok_iff
  put_failed := by
    rintro v timeout rfl
    rw [hop.put_failed_iff, RingHndl.length_items, h.len_eq]
  get_sok := by
    rintro timeout rfl x
    exact hop.get_sok_iff x
  get_failed := by
    rintro value timeout rfl
    rw [hop.get_failed_iff, h.wf.items_eq_nil_iff]
  peek_sok := by
    rintro rfl x
    exact hop.peek_sok_iff x
  unchanged := hsame

/-- A monitor whose calls are calls on a ring: its passes refine the bounded queue, one that sleeps
has to wait, and one that fails or only reads changes no field. -/
structure RingMonitor {C : Type} [Inhabited α] (cap : ℕ) (toRing : C → RingCall α)
    (m : Monitor (RingHndl α) RingCond C (RingResult α)) : Prop where
  refines : Refines m (RingHndl.Rep cap) RingHndl.items
    fun xs c r ys ↦ FifoOp cap xs (toRing c) r ys
  sleeps : ∀ {e c hndl hndl' k}, hndl.Rep cap → m.pass e c hndl = .wait hndl' k →
    (toRing c).Waits cap hndl.items
  unchanged : ∀ {e c hndl hndl' r sig}, m.pass e c hndl = .done hndl' r sig →
    r.failed ∨ (toRing c).readOnly → hndl' = hndl

theorem queMonitor_ring (cap : ℕ) : RingMonitor cap id queMonitor where
  refines := queMonitor_refines cap
  sleeps := by
    intro e c hndl hndl' k h hpass
    cases c with
    | put v timeout => exact RingHndl.putPass_waits h hpass
    | get value timeout => exact RingHndl.getPass_waits h hpass
    | peek | getQueuedCount | isEmpty => cases hpass
  unchanged := by
    intro e c hndl hndl' r sig hpass h
    cases c with
    | put v timeout => exact RingHndl.putPass_failed hpass (h.resolve_right id)
    | get value timeout => exact RingHndl.getPass_failed hpass (h.resolve_right id)
    | peek | getQueuedCount | isEmpty =>
        cases hpass
        rfl

theorem msgqMonitor_ring (cap : ℕ) : RingMonitor cap MsgqCall.toRing msgqMonitor where
  refines := msgqMonitor_refines cap
  sleeps := by
    intro e c hndl hndl' k h hpass
    cases c with
    | send msg timeout => exact RingHndl.putPass_waits h hpass
    | recvMsg msg timeout => exact RingHndl.getPass_waits h hpass
  unchanged := by
    intro e c hndl hndl' r sig hpass h
    cases c with
    | send msg timeout => exact RingHndl.putPass_failed hpass (h.resolve_right id)
    | recvMsg msg timeout => exact RingHndl.getPass_failed hpass (h.resolve_right id)

theorem empty_rep [Inhabited α] {cap : ℕ} {cells : List α} (hpos : 1 ≤ cap) (hlt : cap < 2 ^ 32)
    (hcells : cells.length = cap) : (RingHndl.mk 0 0 cap 0 cells).Rep cap where
  wf :=
    { len_pos := hpos
      len_lt := hlt
      curRd_lt := hpos
      count_le := Nat.zero_le _
      curWr_eq := by simp
      length_queue := hcells }
  len_eq := rfl

theorem osaQueCreate_rep {maxLen : ℕ} {mem : Option (Vector ℤ maxLen)} {initStatus : ℤ}
    {hndl : OsaQueHndl} (hpos : 1 ≤ maxLen) (hlt : maxLen < 2 ^ 32)
    (h : osaQueCreate maxLen mem initStatus = (osaSok, hndl)) :
    hndl.Rep maxLen ∧ hndl.items = [] := by
  cases mem with
  | none => exact (osaEfail_ne_osaSok (congrArg Prod.fst h)).elim
  | some cells =>
      obtain rfl : _ = hndl := congrArg Prod.snd h
      exact ⟨empty_rep hpos hlt (by simp), rfl⟩

theorem osaMsgqCreate_rep {cells : Vector MsgPtr osaMsgqLenMax} {initStatus : ℤ}
    {hndl : OsaMsgqHndl} (h : osaMsgqCreate cells initStatus = (osaSok, hndl)) :
    hndl.Rep osaMsgqLenMax ∧ hndl.items = [] := by
  obtain rfl : _ = hndl := congrArg Prod.snd h
  exact ⟨empty_rep (by decide) (by decide) (by simp), rfl⟩

/-- The log of a queue as calls on a ring. -/
def ringLog {C : Type} (toRing : C → RingCall α) (log : List (C × RingResult α)) :
    List (RingCall α × RingResult α) :=
  log.map fun x ↦ (toRing x.1, x.2)

@[simp] theorem ringLog_id (log : List (RingCall α × RingResult α)) : ringLog id log = log :=
  List.map_id log

theorem replay_ringLog {C : Type} {toRing : C → RingCall α} {cap : ℕ} {xs ys : List α}
    {log : List (C × RingResult α)}
    (h : Replay (fun xs c r ys ↦ FifoOp cap xs (toRing c) r ys) xs log ys) :
    Replay (FifoOp cap) xs (ringLog toRing log) ys := by
  induction h with
  | nil => exact .nil
  | snoc hprev hlast ih =>
      simp only [ringLog, List.map_append, List.map_cons, List.map_nil]
      exact ih.snoc hlast

section

variable {T C : Type} [Fintype T] [DecidableEq T] [Inhabited α] {cap : ℕ}
  {toRing : C → RingCall α} {m : Monitor (RingHndl α) RingCond C (RingResult α)}

theorem RingMonitor.step (hm : RingMonitor cap toRing m)
    {s s' : State T (RingHndl α) RingCond C (RingResult α)} {l : Label T C}
    (hinv : s.shared.Rep cap) (h : step m s l = some s') : RingStep cap toRing s s' l := by
  have hdone : ∀ {e c hndl r sig}, m.pass e c s.shared = .done hndl r sig →
      ¬ (toRing c).Waits cap s.shared.items ∧ Completes cap s.shared hndl (toRing c) r := by
    intro e c hndl r sig hpass
    have hop := (hm.refines.done hinv hpass).2
    exact ⟨hop.not_waits, hinv.completes hop (hm.unchanged hpass)⟩
  cases effect_of_step h with
  | invoke | spurious | expire => exact ⟨rfl, rfl⟩
  | wait t e c hndl k hready hpass =>
      refine ⟨e, c, hready, Or.inl ⟨hm.sleeps hinv hpass, ?_, hm.refines.wait hinv hpass, rfl⟩⟩
      simp [Phase.blockedCall]
  | quiet t e c hndl r hready hpass =>
      obtain ⟨hnot, hcompletes⟩ := hdone hpass
      exact ⟨e, c, hready, Or.inr ⟨hnot, by simp, r, rfl, hcompletes⟩⟩
  | lost t e c hndl r k hready hpass _ =>
      obtain ⟨hnot, hcompletes⟩ := hdone hpass
      exact ⟨e, c, hready, Or.inr ⟨hnot, by simp, r, rfl, hcompletes⟩⟩
  | wake t u e c d hndl r k hready hpass hne _ =>
      obtain ⟨hnot, hcompletes⟩ := hdone hpass
      refine ⟨e, c, hready, Or.inr ⟨hnot, ?_, r, rfl, hcompletes⟩⟩
      simp [Function.update_of_ne hne.symm]

/-- A run of a ring queue: its law and what its next step does. -/
theorem RingMonitor.run (hm : RingMonitor cap toRing m) {h₀ : RingHndl α} (hrep : h₀.Rep cap)
    (hnil : h₀.items = []) {s : State T (RingHndl α) RingCond C (RingResult α)}
    (h : Reach (Monitor.step m) (NonNull toRing) (start T h₀) s) :
    RingLaw cap s.shared (ringLog toRing s.log) ∧ ∀ l s', Monitor.step m s l = some s' →
      RingStep cap toRing s s' l := by
  obtain ⟨hinv, hreplay⟩ := hm.refines.replay hrep h
  have hcalls := callsSatisfy (P := fun c ↦ (toRing c).nonNull) (fun _ _ _ hc ↦ hc) h
  rw [hnil] at hreplay
  refine ⟨hinv.law (replay_ringLog hreplay) ?_, fun l s' hstep ↦ hm.step hinv hstep⟩
  intro c r hcr
  obtain ⟨x, hx, heq⟩ := List.mem_map.mp hcr
  cases heq
  exact hcalls.2 x.1 x.2 hx

end

/-- Both ring queues refine a bounded queue, for every length and in every interleaving. -/
theorem ring_queues_refine_fifo (T : Type) [Fintype T] [DecidableEq T] :
    (∀ (maxLen : ℕ) (mem : Option (Vector ℤ maxLen)) (initStatus : ℤ) (h₀ : OsaQueHndl),
      1 ≤ maxLen → maxLen < 2 ^ 32 → osaQueCreate maxLen mem initStatus = (osaSok, h₀) →
      ∀ s, Reach (step queMonitor) (NonNull id) (start T h₀) s →
        RingLaw maxLen s.shared s.log ∧ ∀ l s', step queMonitor s l = some s' →
          RingStep maxLen id s s' l) ∧
    (∀ (cells : Vector MsgPtr osaMsgqLenMax) (initStatus : ℤ) (h₀ : OsaMsgqHndl),
      osaMsgqCreate cells initStatus = (osaSok, h₀) →
      ∀ s, Reach (step msgqMonitor) (NonNull MsgqCall.toRing) (start T h₀) s →
        RingLaw osaMsgqLenMax s.shared (ringLog MsgqCall.toRing s.log) ∧
        ∀ l s', step msgqMonitor s l = some s' →
          RingStep osaMsgqLenMax MsgqCall.toRing s s' l) := by
  constructor
  · intro maxLen mem initStatus h₀ hpos hlt hcreate s hs
    obtain ⟨hrep, hnil⟩ := osaQueCreate_rep hpos hlt hcreate
    have hrun := (queMonitor_ring maxLen).run hrep hnil hs
    rwa [ringLog_id] at hrun
  · intro cells initStatus h₀ hcreate s hs
    obtain ⟨hrep, hnil⟩ := osaMsgqCreate_rep hcreate
    exact (msgqMonitor_ring osaMsgqLenMax).run hrep hnil hs

/-- A getter that went to sleep first gets the value put after it; of two puts that are not to wait
the second one finds the queue full. -/
theorem ring_queues_refine_fifo_handover :
    ∃ s : State (Fin 2) OsaQueHndl RingCond (RingCall ℤ) (RingResult ℤ),
      s.log = [(.put 7 osaTimeoutForever, .status osaSok),
        (.get true osaTimeoutForever, .value osaSok (some 7)),
        (.put 8 osaTimeoutNone, .status osaSok), (.put 9 osaTimeoutNone, .status osaEfail)] ∧
      RingLaw 1 s.shared s.log := by
  obtain ⟨s, hs, hlog⟩ := Reach.exists_of_exec (step queMonitor) (NonNull id)
    (start (Fin 2) (osaQueCreate 1 (some #v[0]) osaSok).2)
    [.invoke 0 (.get true osaTimeoutForever), .enter 0 none,
      .invoke 1 (.put 7 osaTimeoutForever), .enter 1 (some 0), .enter 0 none,
      .invoke 0 (.put 8 osaTimeoutNone), .invoke 1 (.put 9 osaTimeoutNone), .enter 0 none,
      .enter 1 none]
    (fun s ↦ decide (s.log = [(.put 7 osaTimeoutForever, .status osaSok),
      (.get true osaTimeoutForever, .value osaSok (some 7)),
      (.put 8 osaTimeoutNone, .status osaSok), (.put 9 osaTimeoutNone, .status osaEfail)]))
    (by decide)
  exact ⟨s, of_decide_eq_true hlog,
    ((ring_queues_refine_fifo (Fin 2)).1 1 (some #v[0]) osaSok _ (by decide) (by decide) rfl
      s hs).1⟩

end OsaBase
