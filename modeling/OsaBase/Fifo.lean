import OsaBase.Que

/-!
# Ring queues are bounded first-in first-out queues

The abstract object is a list of at most `cap` values. Its operations say what a call on a
queue is for; both ring monitors refine it, and the completed calls of any run replay on it.
-/

open Transition Monitor

namespace OsaBase

variable {α : Type}

/-- `FifoOp cap xs c r ys`: on a queue that holds `xs`, the call `c` completes with `r` and
leaves `ys`. A call that would have to wait does not complete. -/
inductive FifoOp (cap : ℕ) : List α → RingCall α → RingResult α → List α → Prop
  | put (xs : List α) (v : α) (timeout : ℕ) (hroom : xs.length < cap) :
      FifoOp cap xs (.put v timeout) (.status osaSok) (xs ++ [v])
  | putFull (xs : List α) (v : α) (hfull : xs.length = cap) :
      FifoOp cap xs (.put v osaTimeoutNone) (.status osaEfail) xs
  | get (x : α) (xs : List α) (timeout : ℕ) :
      FifoOp cap (x :: xs) (.get true timeout) (.value osaSok (some x)) xs
  | getNull (x : α) (xs : List α) (timeout : ℕ) :
      FifoOp cap (x :: xs) (.get false timeout) (.value osaSok none) xs
  | getEmpty (value : Bool) :
      FifoOp cap [] (.get value osaTimeoutNone) (.value osaEfail none) []
  | peek (x : α) (xs : List α) :
      FifoOp cap (x :: xs) (.peek true) (.value osaSok (some x)) (x :: xs)
  | peekNull (x : α) (xs : List α) :
      FifoOp cap (x :: xs) (.peek false) (.value osaEfail none) (x :: xs)
  | peekEmpty (value : Bool) : FifoOp cap [] (.peek value) (.value osaEfail none) []
  | getQueuedCount (xs : List α) : FifoOp cap xs .getQueuedCount (.queuedCount xs.length) xs
  | isEmpty (xs : List α) : FifoOp cap xs .isEmpty (.isEmpty xs.isEmpty) xs

/-- The call has somewhere to store the value it returns. -/
def RingCall.nonNull : RingCall α → Prop
  | .get value _ | .peek value => value = true
  | _ => True

/-- The call has to wait: a put on a full queue or a get on an empty one, unless it is not to
wait at all. -/
def RingCall.Waits (cap : ℕ) (xs : List α) : RingCall α → Prop
  | .put _ timeout => xs.length = cap ∧ timeout ≠ osaTimeoutNone
  | .get _ timeout => xs = [] ∧ timeout ≠ osaTimeoutNone
  | .peek _ | .getQueuedCount | .isEmpty => False

def RingResult.failed : RingResult α → Prop
  | .status st | .value st _ => st = osaEfail
  | .queuedCount _ | .isEmpty _ => False

namespace FifoOp

variable {cap timeout : ℕ} {xs ys : List α} {c : RingCall α} {r : RingResult α} {value : Bool}

theorem not_waits (h : FifoOp cap xs c r ys) : ¬ c.Waits cap xs := by
  cases h with
  | put _ v timeout hroom => exact fun hw ↦ hroom.ne hw.1
  | putFull | getEmpty => exact fun hw ↦ hw.2 rfl
  | get | getNull => exact fun hw ↦ List.cons_ne_nil _ _ hw.1
  | peek | peekNull | peekEmpty | getQueuedCount | isEmpty => exact id

theorem put_sok_iff {v : α} (h : FifoOp cap xs (.put v timeout) r ys) :
    r = .status osaSok ↔ ys = xs ++ [v] := by
  cases h with
  | put => exact iff_of_true rfl rfl
  | putFull => simp [osaEfail_ne_osaSok]

theorem put_failed_iff {v : α} (h : FifoOp cap xs (.put v timeout) r ys) :
    r.failed ↔ xs.length = cap := by
  cases h with
  | put _ _ _ hroom => exact iff_of_false osaEfail_ne_osaSok.symm hroom.ne
  | putFull _ _ hfull => exact iff_of_true rfl hfull

theorem get_sok_iff (h : FifoOp cap xs (.get true timeout) r ys) (x : α) :
    r = .value osaSok (some x) ↔ xs = x :: ys := by
  cases h with
  | get => simp
  | getEmpty => simp

theorem get_failed_iff (h : FifoOp cap xs (.get value timeout) r ys) :
    r.failed ↔ xs = [] := by
  cases h with
  | get | getNull => exact iff_of_false osaEfail_ne_osaSok.symm (List.cons_ne_nil _ _)
  | getEmpty => exact iff_of_true rfl rfl

theorem peek_sok_iff (h : FifoOp cap xs (.peek true) r ys) (x : α) :
    r = .value osaSok (some x) ↔ xs.head? = some x := by
  cases h with
  | peek => simp
  | peekEmpty => simp

end FifoOp

/-- The values of the completed puts, in order. -/
def putValues (log : List (RingCall α × RingResult α)) : List α :=
  log.filterMap fun
    | (.put v _, .status st) => if st = osaSok then some v else none
    | _ => none

/-- The values the completed gets have stored at `*value`, in order. -/
def gotValues (log : List (RingCall α × RingResult α)) : List α :=
  log.filterMap fun
    | (.get _ _, .value st v) => if st = osaSok then v else none
    | _ => none

/-- What was put is what was got followed by what is still queued. -/
theorem history_of_replay {cap : ℕ} {xs ys : List α} {log : List (RingCall α × RingResult α)}
    (h : Replay (FifoOp cap) xs log ys) (hlog : ∀ c r, (c, r) ∈ log → c.nonNull) :
    xs ++ putValues log = gotValues log ++ ys := by
  induction h with
  | nil => simp [putValues, gotValues]
  | @snoc log zs ys c r hprev hlast ih =>
      have hih := ih fun c r hcr ↦ hlog c r (List.mem_append_left _ hcr)
      have hc := hlog c r (by simp)
      simp only [putValues, gotValues, List.filterMap_append] at hih ⊢
      rw [← List.append_assoc, hih]
      cases hlast with
      | getNull x xs timeout => cases hc
      | put | putFull | get | getEmpty | peek | peekNull | peekEmpty | getQueuedCount | isEmpty =>
          simp only [osaSok, osaEfail, if_true, Int.reduceNeg, neg_eq_zero, one_ne_zero, if_false,
            Option.some.injEq, List.filterMap_cons_some, List.filterMap_cons_none,
            List.filterMap_nil, List.append_assoc, List.append_nil, List.cons_append,
            List.nil_append]

/-! ## One pass refines one operation -/

namespace RingHndl

variable [Inhabited α] {hndl hndl' : RingHndl α} {r : RingResult α} {sig : Option RingCond}
  {cap timeout : ℕ}

/-- A ring queue of `cap` cells in a legal state. -/
structure Rep (cap : ℕ) (hndl : RingHndl α) : Prop where
  wf : hndl.WF
  len_eq : hndl.len = cap

theorem putPass_done {v : α} (h : hndl.Rep cap)
    (hpass : hndl.putPass v timeout = .done hndl' r sig) :
    hndl'.Rep cap ∧ FifoOp cap hndl.items (.put v timeout) r hndl'.items := by
  unfold putPass at hpass
  split at hpass
  · next hroom =>
    cases hpass
    refine ⟨⟨h.wf.push hroom v, h.len_eq⟩, ?_⟩
    rw [h.wf.items_push hroom]
    exact .put _ v timeout (by rw [length_items, ← h.len_eq]; exact hroom)
  · next hfull =>
    split at hpass
    · next ht =>
      cases hpass
      subst ht
      have hle := h.wf.count_le
      exact ⟨h, .putFull _ v (by rw [length_items, ← h.len_eq]; omega)⟩
    · cases hpass

theorem getPass_done {value : Bool} (h : hndl.Rep cap)
    (hpass : hndl.getPass value timeout = .done hndl' r sig) :
    hndl'.Rep cap ∧ FifoOp cap hndl.items (.get value timeout) r hndl'.items := by
  unfold getPass at hpass
  split at hpass
  · next hsome =>
    cases hpass
    refine ⟨⟨h.wf.pop hsome, h.len_eq⟩, ?_⟩
    rw [h.wf.items_pop hsome]
    cases value with
    | true => exact .get _ _ timeout
    | false => exact .getNull _ _ timeout
  · next hempty =>
    split at hpass
    · next ht =>
      cases hpass
      subst ht
      have hnil : hndl.items = [] := h.wf.items_eq_nil_iff.mpr (by omega)
      rw [hnil]
      exact ⟨h, .getEmpty value⟩
    · cases hpass

omit [Inhabited α] in
theorem putPass_wait {v : α} {k : RingCond} (hpass : hndl.putPass v timeout = .wait hndl' k) :
    hndl' = hndl ∧ k = .condWr ∧ hndl.len ≤ hndl.count ∧ timeout ≠ osaTimeoutNone := by
  unfold putPass at hpass
  split at hpass
  · cases hpass
  · split at hpass
    · cases hpass
    · cases hpass
      exact ⟨rfl, rfl, by omega, ‹_›⟩

theorem getPass_wait {value : Bool} {k : RingCond}
    (hpass : hndl.getPass value timeout = .wait hndl' k) :
    hndl' = hndl ∧ k = .condRd ∧ hndl.count = 0 ∧ timeout ≠ osaTimeoutNone := by
  unfold getPass at hpass
  split at hpass
  · cases hpass
  · split at hpass
    · cases hpass
    · cases hpass
      exact ⟨rfl, rfl, by omega, ‹_›⟩

theorem putPass_waits {v : α} {k : RingCond} (h : hndl.Rep cap)
    (hpass : hndl.putPass v timeout = .wait hndl' k) :
    (RingCall.put v timeout).Waits cap hndl.items := by
  obtain ⟨-, -, hfull, htimeout⟩ := putPass_wait hpass
  refine ⟨?_, htimeout⟩
  rw [length_items, ← h.len_eq]
  exact le_antisymm h.wf.count_le hfull

theorem getPass_waits {value : Bool} {k : RingCond} (h : hndl.Rep cap)
    (hpass : hndl.getPass value timeout = .wait hndl' k) :
    (RingCall.get value timeout).Waits cap hndl.items := by
  obtain ⟨-, -, hempty, htimeout⟩ := getPass_wait hpass
  exact ⟨h.wf.items_eq_nil_iff.mpr hempty, htimeout⟩

end RingHndl

theorem osaQuePeek_spec {hndl : OsaQueHndl} {cap : ℕ} (h : hndl.Rep cap) (value : Bool) :
    FifoOp cap hndl.items (.peek value)
      (.value (osaQuePeek hndl value).1 (osaQuePeek hndl value).2) hndl.items := by
  by_cases hsome : 0 < hndl.count
  · rw [h.wf.items_pop hsome]
    cases value with
    | true => simpa [osaQuePeek, hsome] using FifoOp.peek hndl.front hndl.pop.items
    | false => simpa [osaQuePeek, hsome] using FifoOp.peekNull hndl.front hndl.pop.items
  · rw [h.wf.items_eq_nil_iff.mpr (by omega)]
    simpa [osaQuePeek, hsome] using FifoOp.peekEmpty value

theorem queMonitor_refines (cap : ℕ) :
    Refines queMonitor (RingHndl.Rep cap) RingHndl.items (FifoOp cap) where
  done := by
    intro e c hndl hndl' r sig h hpass
    cases c with
    | put v timeout => exact RingHndl.putPass_done h hpass
    | get value timeout => exact RingHndl.getPass_done h hpass
    | peek value =>
        cases hpass
        exact ⟨h, osaQuePeek_spec h value⟩
    | getQueuedCount =>
        cases hpass
        refine ⟨h, ?_⟩
        have hcount : FifoOp cap hndl.items .getQueuedCount (.queuedCount hndl.items.length)
            hndl.items := .getQueuedCount hndl.items
        rwa [RingHndl.length_items] at hcount
    | isEmpty =>
        cases hpass
        refine ⟨h, ?_⟩
        have hempty : osaQueIsEmpty hndl = hndl.items.isEmpty := by
          rw [Bool.eq_iff_iff]
          simp [osaQueIsEmpty, h.wf.items_eq_nil_iff]
        exact hempty ▸ .isEmpty hndl.items
  wait := by
    intro e c hndl hndl' k h hpass
    cases c with
    | put v timeout => exact (RingHndl.putPass_wait hpass).1
    | get value timeout => exact (RingHndl.getPass_wait hpass).1
    | peek | getQueuedCount | isEmpty => cases hpass

/-- A message queue's calls are the puts and gets of a ring of handles. -/
def MsgqCall.toRing : MsgqCall → RingCall MsgPtr
  | .send msg timeout => .put msg timeout
  | .recvMsg msg timeout => .get msg timeout

theorem msgqMonitor_refines (cap : ℕ) :
    Refines msgqMonitor (RingHndl.Rep cap) RingHndl.items
      fun xs c r ys ↦ FifoOp cap xs c.toRing r ys where
  done := by
    intro e c hndl hndl' r sig h hpass
    cases c with
    | send msg timeout => exact RingHndl.putPass_done h hpass
    | recvMsg msg timeout => exact RingHndl.getPass_done h hpass
  wait := by
    intro e c hndl hndl' k h hpass
    cases c with
    | send msg timeout => exact (RingHndl.putPass_wait hpass).1
    | recvMsg msg timeout => exact (RingHndl.getPass_wait hpass).1

end OsaBase
