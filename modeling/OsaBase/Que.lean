import OsaBase.Lib.Monitor
import OsaBase.Lib.Ring
import OsaBase.Osa

/-!
# The ring queues `osa_que.c` and `osa_msgq.c`

`OSA_QueHndl` and `OSA_MsgqHndl` are the same ring with different cells, and their put
and get functions are two copies of the same loop. The loop body is one pass of a
monitor: the code re-tests from the top after `pthread_cond_wait` returns, so the first
pass and a resumed one are the same function. The lock and the conditions are the
monitor's, so a handle keeps its other fields only. A call returns its status, its status
with what it stored at `*value`, or the answer of a query.
-/

open Monitor

namespace OsaBase

structure RingHndl (α : Type) where
  curRd : ℕ
  curWr : ℕ
  len : ℕ
  count : ℕ
  queue : List α
  deriving DecidableEq, Repr

inductive RingCond
  | condRd
  | condWr
  deriving DecidableEq, Repr

inductive RingResult (α : Type)
  | status (st : ℤ)
  | value (st : ℤ) (v : Option α)
  | queuedCount (n : ℕ)
  | isEmpty (b : Bool)
  deriving DecidableEq, Repr

/-- The calls on a ring queue; the flag of `get` and `peek` says whether `value` is not `NULL`. -/
inductive RingCall (α : Type)
  | put (value : α) (timeout : ℕ)
  | get (value : Bool) (timeout : ℕ)
  | peek (value : Bool)
  | getQueuedCount
  | isEmpty
  deriving DecidableEq, Repr

abbrev RingPass (α : Type) := Pass (RingHndl α) RingCond (RingResult α)

namespace RingHndl

variable {α : Type}

def push (hndl : RingHndl α) (value : α) : RingHndl α :=
  { hndl with
    queue := hndl.queue.set hndl.curWr value
    curWr := uint32 (hndl.curWr + 1) % hndl.len
    count := uint32 (hndl.count + 1) }

def pop (hndl : RingHndl α) : RingHndl α :=
  { hndl with
    curRd := uint32 (hndl.curRd + 1) % hndl.len
    count := hndl.count - 1 }

/-- The representation invariant of a ring queue. -/
structure WF (hndl : RingHndl α) : Prop where
  len_pos : 0 < hndl.len
  len_lt : hndl.len < 2 ^ 32
  curRd_lt : hndl.curRd < hndl.len
  count_le : hndl.count ≤ hndl.len
  curWr_eq : hndl.curWr = (hndl.curRd + hndl.count) % hndl.len
  length_queue : hndl.queue.length = hndl.len

variable {hndl : RingHndl α}

theorem WF.curWr_lt (h : hndl.WF) : hndl.curWr < hndl.len :=
  h.curWr_eq ▸ Nat.mod_lt _ h.len_pos

@[simp] theorem push_len (hndl : RingHndl α) (value : α) : (hndl.push value).len = hndl.len := rfl

@[simp] theorem pop_len (hndl : RingHndl α) : hndl.pop.len = hndl.len := rfl

theorem WF.push_count (h : hndl.WF) (hroom : hndl.count < hndl.len) (value : α) :
    (hndl.push value).count = hndl.count + 1 := by
  have := h.len_lt
  exact uint32_of_lt (by omega)

@[simp] theorem pop_count (hndl : RingHndl α) : hndl.pop.count = hndl.count - 1 := rfl

theorem WF.push_curWr (h : hndl.WF) (value : α) :
    (hndl.push value).curWr = (hndl.curWr + 1) % hndl.len := by
  have h₁ := h.curWr_lt
  have h₂ := h.len_lt
  simp only [push, uint32_of_lt (show hndl.curWr + 1 < 2 ^ 32 by omega)]

theorem WF.pop_curRd (h : hndl.WF) : hndl.pop.curRd = (hndl.curRd + 1) % hndl.len := by
  have h₁ := h.curRd_lt
  have h₂ := h.len_lt
  simp only [pop, uint32_of_lt (show hndl.curRd + 1 < 2 ^ 32 by omega)]

theorem WF.push (h : hndl.WF) (hroom : hndl.count < hndl.len) (value : α) :
    (hndl.push value).WF where
  len_pos := h.len_pos
  len_lt := h.len_lt
  curRd_lt := h.curRd_lt
  count_le := by rw [h.push_count hroom]; exact hroom
  curWr_eq := by
    rw [h.push_curWr, h.push_count hroom, h.curWr_eq, Ring.write_push]
    rfl
  length_queue := by simp [RingHndl.push, h.length_queue]

theorem WF.pop (h : hndl.WF) (hsome : 0 < hndl.count) : hndl.pop.WF where
  len_pos := h.len_pos
  len_lt := h.len_lt
  curRd_lt := h.pop_curRd ▸ Nat.mod_lt _ h.len_pos
  count_le := by
    have := h.count_le
    simp only [pop_count, pop_len]
    omega
  curWr_eq := by
    have hcount : hndl.count - 1 + 1 = hndl.count := by omega
    rw [h.pop_curRd, pop_count, pop_len, Ring.write_pop, hcount]
    exact h.curWr_eq
  length_queue := h.length_queue

variable [Inhabited α]

def front (hndl : RingHndl α) : α := hndl.queue.getD hndl.curRd default

def putPass (hndl : RingHndl α) (value : α) (timeout : ℕ) : RingPass α :=
  if hndl.count < hndl.len then
    .done (hndl.push value) (.status osaSok) (some .condRd)
  else if timeout = osaTimeoutNone then
    .done hndl (.status osaEfail) none
  else
    .wait hndl .condWr

def getPass (hndl : RingHndl α) (value : Bool) (timeout : ℕ) : RingPass α :=
  if 0 < hndl.count then
    .done hndl.pop (.value osaSok (if value then some hndl.front else none)) (some .condWr)
  else if timeout = osaTimeoutNone then
    .done hndl (.value osaEfail none) none
  else
    .wait hndl .condRd

/-- The cells in use, oldest first: `count` cells from `curRd` with wrap-around. -/
def items (hndl : RingHndl α) : List α :=
  Ring.window (fun i ↦ hndl.queue.getD i default) hndl.len hndl.curRd hndl.count

@[simp] theorem length_items (hndl : RingHndl α) : hndl.items.length = hndl.count := by
  simp [items]

theorem WF.items_push (h : hndl.WF) (hroom : hndl.count < hndl.len) (value : α) :
    (hndl.push value).items = hndl.items ++ [value] := by
  have hcells : (fun i ↦ (hndl.push value).queue.getD i default) =
      Function.update (fun i ↦ hndl.queue.getD i default) hndl.curWr value := by
    funext i
    have hwr := h.curWr_lt
    rw [← h.length_queue] at hwr
    by_cases hi : i = hndl.curWr
    · subst hi
      simp [RingHndl.push, hwr]
    · simp [RingHndl.push, Function.update_of_ne hi, Ne.symm hi]
  rw [items, hcells, h.push_count hroom, h.curWr_eq]
  exact Ring.window_push _ hroom value

theorem WF.items_pop (h : hndl.WF) (hsome : 0 < hndl.count) :
    hndl.items = hndl.front :: hndl.pop.items := by
  obtain ⟨n, hn⟩ : ∃ n, hndl.count = n + 1 := ⟨hndl.count - 1, by omega⟩
  have hpop : hndl.pop.items = Ring.window (fun i ↦ hndl.queue.getD i default) hndl.len
      ((hndl.curRd + 1) % hndl.len) n := by
    rw [items, h.pop_curRd, pop_count, hn, pop_len]
    rfl
  rw [hpop, items, hn, Ring.window_pop _ h.curRd_lt]
  rfl

theorem WF.items_eq_nil_iff (_ : hndl.WF) : hndl.items = [] ↔ hndl.count = 0 := by
  rw [← List.length_eq_zero_iff, length_items]

end RingHndl

/-! ## `osa_que.c` -/

abbrev OsaQueHndl := RingHndl ℤ

/-- `mem` is the block that `OSA_memAlloc` returns, `initStatus` the or of the results of the
five `pthread` initialisations. -/
def osaQueCreate (maxLen : ℕ) (mem : Option (Vector ℤ maxLen)) (initStatus : ℤ) :
    ℤ × OsaQueHndl :=
  let hndl : OsaQueHndl := ⟨0, 0, maxLen, 0, (mem.map Vector.toList).getD []⟩
  match mem with
  | none => (osaEfail, hndl)
  | some _ => (initStatus, hndl)

def osaQuePut (hndl : OsaQueHndl) (value : ℤ) (timeout : ℕ) : RingPass ℤ :=
  hndl.putPass value timeout

def osaQueGet (hndl : OsaQueHndl) (value : Bool) (timeout : ℕ) : RingPass ℤ :=
  hndl.getPass value timeout

def osaQueGetQueuedCount (hndl : OsaQueHndl) : ℕ := hndl.count

def osaQuePeek (hndl : OsaQueHndl) (value : Bool) : ℤ × Option ℤ :=
  if 0 < hndl.count then
    if value then (osaSok, some hndl.front) else (osaEfail, none)
  else (osaEfail, none)

def osaQueIsEmpty (hndl : OsaQueHndl) : Bool := hndl.count == 0

def queMonitor : Monitor OsaQueHndl RingCond (RingCall ℤ) (RingResult ℤ) where
  pass := fun _ c hndl ↦
    match c with
    | .put value timeout => osaQuePut hndl value timeout
    | .get value timeout => osaQueGet hndl value timeout
    | .peek value => .done hndl (.value (osaQuePeek hndl value).1 (osaQuePeek hndl value).2) none
    | .getQueuedCount => .done hndl (.queuedCount (osaQueGetQueuedCount hndl)) none
    | .isEmpty => .done hndl (.isEmpty (osaQueIsEmpty hndl)) none

/-! ## `osa_msgq.c` -/

/-- The address of an `OSA_MsgHndl`. -/
abbrev MsgPtr := ℕ

abbrev OsaMsgqHndl := RingHndl MsgPtr

def osaMsgqLenMax : ℕ := 32

/-- The cells of a message queue lie in the handle itself, with whatever they hold. -/
def osaMsgqCreate (cells : Vector MsgPtr osaMsgqLenMax) (initStatus : ℤ) : ℤ × OsaMsgqHndl :=
  (initStatus, ⟨0, 0, osaMsgqLenMax, 0, cells.toList⟩)

def osaMsgqSend (hndl : OsaMsgqHndl) (msg : MsgPtr) (timeout : ℕ) : RingPass MsgPtr :=
  hndl.putPass msg timeout

def osaMsgqRecvMsg (hndl : OsaMsgqHndl) (msg : Bool) (timeout : ℕ) : RingPass MsgPtr :=
  hndl.getPass msg timeout

inductive MsgqCall
  | send (msg : MsgPtr) (timeout : ℕ)
  | recvMsg (msg : Bool) (timeout : ℕ)
  deriving DecidableEq, Repr

def msgqMonitor : Monitor OsaMsgqHndl RingCond MsgqCall (RingResult MsgPtr) where
  pass := fun _ c hndl ↦
    match c with
    | .send msg timeout => osaMsgqSend hndl msg timeout
    | .recvMsg msg timeout => osaMsgqRecvMsg hndl msg timeout

end OsaBase
