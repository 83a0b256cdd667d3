import Mathlib.Data.Int.Interval
import OsaBase.Buf
import OsaBase.Lib.Ledger
import OsaBase.Lib.Runs

/-!
# Threads on one slot pool

Any number of threads get slots from a pool and put them back. Every call on a queue is one step; a
switch is a get from one queue and then a put into the other. In every run each slot is in one
place: in one of the two queues, or in the hands of one thread.
-/

open Transition

namespace OsaBase

/-! ## The calls -/

/-- The two queues of a pool. -/
inductive BufQue
  | empty
  | full
  deriving DecidableEq, Repr

namespace OsaBufHndl

def que (hndl : OsaBufHndl) : BufQue → OsaQueHndl
  | .empty => hndl.emptyQue
  | .full => hndl.fullQue

def get (hndl : OsaBufHndl) (timeout : ℕ) : BufQue → Option (OsaBufHndl × ℤ × ℤ)
  | .empty => osaBufGetEmpty hndl timeout
  | .full => osaBufGetFull hndl timeout

def put (hndl : OsaBufHndl) (bufId : ℤ) : BufQue → Option (OsaBufHndl × ℤ)
  | .empty => osaBufPutEmpty hndl bufId
  | .full => osaBufPutFull hndl bufId

end OsaBufHndl

inductive BufCall
  | getEmpty (timeout : ℕ)
  | putFull (bufId : ℤ)
  | getFull (timeout : ℕ)
  | putEmpty (bufId : ℤ)
  | switchFull (bufId : ℤ)
  | switchEmpty (bufId : ℤ)
  deriving DecidableEq, Repr

/-- `idle` keeps the status that the last call returned and what it left in `*bufId`. The queue of
`switchGet` is the one that the switch gets from, that of `switchPut` the one that it puts into. -/
inductive BufPc
  | idle (status bufId : ℤ)
  | get (q : BufQue) (timeout : ℕ)
  | put (q : BufQue) (bufId : ℤ)
  | switchGet (q : BufQue) (bufId : ℤ)
  | switchPut (q : BufQue) (bufId newBufId : ℤ)
  deriving DecidableEq, Repr

def BufCall.pc : BufCall → BufPc
  | .getEmpty timeout => .get .empty timeout
  | .putFull bufId => .put .full bufId
  | .getFull timeout => .get .full timeout
  | .putEmpty bufId => .put .empty bufId
  | .switchFull bufId => .switchGet .empty bufId
  | .switchEmpty bufId => .switchGet .full bufId

def BufQue.other : BufQue → BufQue
  | .empty => .full
  | .full => .empty

/-- `held t` are the slots that thread `t` got and has not put back. `fullPut` and `fullGot` are
the slots that went into `fullQue` and out of it so far. -/
structure BufState (T : Type) where
  buf : OsaBufHndl
  held : T → List ℤ
  pc : T → BufPc
  fullPut : List ℤ
  fullGot : List ℤ

inductive BufLabel (T : Type)
  | invoke (t : T) (call : BufCall)
  | run (t : T)
  deriving DecidableEq, Repr

section

variable {T : Type} [DecidableEq T]

namespace BufState

def goto (s : BufState T) (t : T) (pc : BufPc) : BufState T :=
  { s with pc := Function.update s.pc t pc }

/-- A get has returned the pool, its status and the slot. -/
def take (s : BufState T) (t : T) (q : BufQue) (r : OsaBufHndl × ℤ × ℤ) (pc : BufPc) :
    BufState T :=
  if r.2.1 = osaSok then
    { s.goto t pc with
      buf := r.1
      held := Function.update s.held t (r.2.2 :: s.held t)
      fullGot := if q = .full then s.fullGot ++ [r.2.2] else s.fullGot }
  else { s.goto t pc with buf := r.1 }

/-- A put of the slot has returned the pool and its status. -/
def give (s : BufState T) (t : T) (q : BufQue) (bufId : ℤ) (r : OsaBufHndl × ℤ) (pc : BufPc) :
    BufState T :=
  if r.2 = osaSok then
    { s.goto t pc with
      buf := r.1
      held := Function.update s.held t ((s.held t).erase bufId)
      fullPut := if q = .full then s.fullPut ++ [bufId] else s.fullPut }
  else { s.goto t pc with buf := r.1 }

/-- The next critical section of a thread; a get that waits is not enabled. -/
def run (s : BufState T) (t : T) : Option (BufState T) :=
  match s.pc t with
  | .idle .. => none
  | .get q timeout => (s.buf.get timeout q).map fun r ↦ s.take t q r (.idle r.2.1 r.2.2)
  | .put q bufId => (s.buf.put bufId q).map fun r ↦ s.give t q bufId r (.idle r.2 bufId)
  | .switchGet q bufId => (s.buf.get osaTimeoutNone q).map fun r ↦
      s.take t q r
        (if r.2.1 = osaSok then .switchPut q.other bufId r.2.2 else .idle r.2.1 bufId)
  | .switchPut q bufId newBufId =>
    if bufId ≠ osaBufIdInvalid then
      -- the status of the put is not looked at
      (s.buf.put bufId q).map fun r ↦ s.give t q bufId r (.idle osaSok newBufId)
    else some (s.goto t (.idle osaSok newBufId))

end BufState

def bufStep (s : BufState T) : BufLabel T → Option (BufState T)
  | .invoke t call =>
    match s.pc t with
    | .idle .. => some (s.goto t call.pc)
    | _ => none
  | .run t => s.run t

end

variable {T : Type}

/-- A pool after `OSA_bufCreate`, and no call yet. -/
def bufStart (hndl : OsaBufHndl) : BufState T where
  buf := hndl
  held := fun _ ↦ []
  pc := fun _ ↦ .idle osaSok osaBufIdInvalid
  fullPut := []
  fullGot := []

/-- The slot that the thread is about to put, and the queue it goes to. -/
def BufPc.puts : BufPc → Option (BufQue × ℤ)
  | .put q bufId => some (q, bufId)
  | .switchPut q bufId _ => if bufId = osaBufIdInvalid then none else some (q, bufId)
  | _ => none

/-- The slot that the thread has passed to the call in progress. -/
def BufPc.passed : BufPc → Option ℤ
  | .put _ bufId => some bufId
  | .switchGet _ bufId | .switchPut _ bufId _ =>
    if bufId = osaBufIdInvalid then none else some bufId
  | _ => none

/-- A thread puts back, or switches away, a slot that it holds. -/
def BufOk (s : BufState T) : BufLabel T → Prop
  | .invoke t call => ∀ bufId ∈ call.pc.passed, bufId ∈ s.held t
  | .run _ => True

instance (s : BufState T) : (l : BufLabel T) → Decidable (BufOk s l)
  | .invoke t call => inferInstanceAs (Decidable (∀ bufId ∈ call.pc.passed, bufId ∈ s.held t))
  | .run _ => inferInstanceAs (Decidable True)

/-! ## Where a slot is -/

inductive BufPlace (T : Type)
  | que (q : BufQue)
  | hands (t : T)
  deriving DecidableEq

def BufState.places (s : BufState T) : BufPlace T → List ℤ
  | .que q => (s.buf.que q).items
  | .hands t => s.held t

/-- The conservation of the slots in one state. -/
structure BufLaw [DecidableEq T] (bufNum : ℕ) (s : BufState T) : Prop where
  onePlace : ∀ bufId : ℤ, 0 ≤ bufId → bufId < bufNum → ∃! p, bufId ∈ s.places p
  once : ∀ p, (s.places p).Nodup
  range : ∀ p, ∀ bufId ∈ s.places p, 0 ≤ bufId ∧ bufId < (bufNum : ℤ)
  putSucceeds : ∀ t q bufId, (s.pc t).puts = some (q, bufId) →
    ∃ buf, s.buf.put bufId q = some (buf, osaSok)
  failedSwitch : ∀ t q bufId s' status bufId', s.pc t = .switchGet q bufId →
    bufStep s (.run t) = some s' → s'.pc t = .idle status bufId' →
      status ≠ osaSok ∧ bufId' = bufId ∧ s'.buf = s.buf ∧ s'.held = s.held
  order : s.fullPut = s.fullGot ++ s.buf.fullQue.items

/-! ## The two queues of a pool -/

namespace OsaBufHndl

variable {hndl hndl' : OsaBufHndl} {bufNum timeout : ℕ} {q r : BufQue} {status bufId : ℤ}

def setQue (hndl : OsaBufHndl) (que : OsaQueHndl) : BufQue → OsaBufHndl
  | .empty => { hndl with emptyQue := que }
  | .full => { hndl with fullQue := que }

@[simp] theorem que_setQue_self (hndl : OsaBufHndl) (que : OsaQueHndl) (q : BufQue) :
    (hndl.setQue que q).que q = que := by
  cases q <;> rfl

theorem que_setQue_of_ne (hndl : OsaBufHndl) (que : OsaQueHndl) (h : r ≠ q) :
    (hndl.setQue que q).que r = hndl.que r := by
  cases q <;> cases r <;> first | rfl | exact (h rfl).elim

@[simp] theorem setQue_numBuf (hndl : OsaBufHndl) (que : OsaQueHndl) (q : BufQue) :
    (hndl.setQue que q).numBuf = hndl.numBuf := by
  cases q <;> rfl

@[simp] theorem setQue_que (hndl : OsaBufHndl) (q : BufQue) :
    hndl.setQue (hndl.que q) q = hndl := by
  cases q <;> rfl

theorem get_eq (hndl : OsaBufHndl) (timeout : ℕ) (q : BufQue) : hndl.get timeout q =
    (bufGet (hndl.que q) timeout).map fun r ↦ (hndl.setQue r.1 q, r.2) := by
  cases q <;> rfl

theorem put_eq (hndl : OsaBufHndl) (bufId : ℤ) (q : BufQue) : hndl.put bufId q =
    (bufPut (hndl.que q) hndl.numBuf bufId).map fun r ↦ (hndl.setQue r.1 q, r.2) := by
  cases q <;> rfl

/-- Both queues of the pool are legal and have room for every slot. -/
structure Rep (bufNum : ℕ) (hndl : OsaBufHndl) : Prop where
  que : ∀ q, (hndl.que q).Rep bufNum
  numBuf : hndl.numBuf = bufNum

theorem Fresh.rep (h : hndl.Fresh bufNum) : hndl.Rep bufNum where
  que := fun q ↦ by
    cases q with
    | empty => exact h.emptyRep
    | full => exact h.fullRep
  numBuf := h.numBuf

theorem Rep.setQue (hrep : hndl.Rep bufNum) {que : OsaQueHndl} (hque : que.Rep bufNum)
    (q : BufQue) : (hndl.setQue que q).Rep bufNum where
  que := fun r ↦ by
    by_cases hr : r = q
    · subst hr
      rwa [que_setQue_self]
    · rw [que_setQue_of_ne hndl que hr]
      exact hrep.que r
  numBuf := by rw [setQue_numBuf, hrep.numBuf]

/-- A get takes the oldest slot of its queue, or finds none and changes nothing. -/
theorem get_cases (hrep : hndl.Rep bufNum) (h : hndl.get timeout q = some (hndl', status, bufId)) :
    hndl'.Rep bufNum ∧ (∀ r, r ≠ q → hndl'.que r = hndl.que r) ∧
      ((status = osaSok ∧ (hndl.que q).items = bufId :: (hndl'.que q).items) ∨
        (status = osaEfail ∧ hndl' = hndl)) := by
  rw [get_eq] at h
  obtain ⟨⟨que, st, i⟩, hget, heq⟩ := Option.map_eq_some_iff.mp h
  cases heq
  obtain ⟨hque, hcase⟩ := bufGet_cases (hrep.que q) hget
  refine ⟨hrep.setQue hque q, fun r hr ↦ que_setQue_of_ne hndl que hr, ?_⟩
  rw [que_setQue_self]
  rcases hcase with ⟨hst, hitems⟩ | ⟨hst, -, rfl, -⟩
  · exact Or.inl ⟨hst, hitems⟩
  · exact Or.inr ⟨hst, setQue_que hndl q⟩

/-- A put into a queue with room appends the slot. -/
theorem put_sok (hrep : hndl.Rep bufNum) (hid : 0 ≤ bufId ∧ bufId < (bufNum : ℤ))
    (hroom : (hndl.que q).items.length < bufNum) :
    ∃ hndl', hndl.put bufId q = some (hndl', osaSok) ∧ hndl'.Rep bufNum ∧
      (∀ r, r ≠ q → hndl'.que r = hndl.que r) ∧
      (hndl'.que q).items = (hndl.que q).items ++ [bufId] := by
  obtain ⟨hput, hque, hitems⟩ := osaQuePut_done (hrep.que q) hroom bufId osaTimeoutForever
  have hvalid : ¬ (bufId ≥ hndl.numBuf ∨ bufId < 0) := by
    rw [hrep.numBuf]
    omega
  refine ⟨hndl.setQue ((hndl.que q).push bufId) q, ?_, hrep.setQue hque q,
    fun r hr ↦ que_setQue_of_ne hndl _ hr, ?_⟩
  · simp only [put_eq, bufPut, hvalid, if_false, hput, Option.map_some]
  · rw [que_setQue_self, hitems]

end OsaBufHndl

/-! ## The invariant -/

/-- Every slot is in one place, and a call has in hand the slot that was passed to it. -/
structure PoolInv (bufNum : ℕ) (s : BufState T) : Prop where
  rep : s.buf.Rep bufNum
  exact : Ledger.Exact s.places fun bufId ↦ 0 ≤ bufId ∧ bufId < (bufNum : ℤ)
  passed : ∀ t, ∀ bufId ∈ (s.pc t).passed, bufId ∈ s.held t
  order : s.fullPut = s.fullGot ++ (s.buf.que .full).items

variable {bufNum : ℕ} {s s' : BufState T} {t : T} {q : BufQue} {bufId : ℤ}

/-- As many different slots as the pool has are nowhere else. -/
theorem length_lt_of_not_mem {ids : List ℤ} (hnodup : ids.Nodup)
    (hrange : ∀ i ∈ ids, 0 ≤ i ∧ i < (bufNum : ℤ)) (hid : 0 ≤ bufId ∧ bufId < (bufNum : ℤ))
    (hnot : bufId ∉ ids) : ids.length < bufNum := by
  have hsub : (bufId :: ids).toFinset ⊆ Finset.Ico (0 : ℤ) bufNum := by
    intro i hi
    rw [List.mem_toFinset, List.mem_cons] at hi
    rw [Finset.mem_Ico]
    rcases hi with rfl | hi
    · exact hid
    · exact hrange i hi
  have hcard := Finset.card_le_card hsub
  rw [List.toFinset_card_of_nodup (List.nodup_cons.mpr ⟨hnot, hnodup⟩), Int.card_Ico,
    List.length_cons] at hcard
  omega

theorem BufPc.passed_of_puts {pc : BufPc} (h : pc.puts = some (q, bufId)) :
    pc.passed = some bufId := by
  cases pc with
  | put => cases h; rfl
  | switchPut q id new =>
      simp only [BufPc.puts] at h
      split at h
      · cases h
      · next hne =>
        cases h
        simp only [BufPc.passed, if_neg hne]
  | idle | get | switchGet => cases h

namespace PoolInv

theorem held (hs : PoolInv bufNum s) (hputs : (s.pc t).puts = some (q, bufId)) :
    bufId ∈ s.held t :=
  hs.passed t bufId (BufPc.passed_of_puts hputs)

/-- A put of a slot in hand finds room. -/
theorem put (hs : PoolInv bufNum s) (hheld : bufId ∈ s.held t) (q : BufQue) :
    ∃ buf, s.buf.put bufId q = some (buf, osaSok) ∧ buf.Rep bufNum ∧
      (∀ r, r ≠ q → buf.que r = s.buf.que r) ∧
      (buf.que q).items = (s.buf.que q).items ++ [bufId] := by
  have hid := hs.exact.live_of_mem (p := BufPlace.hands t) hheld
  refine s.buf.put_sok hs.rep hid (length_lt_of_not_mem (hs.exact.nodup (.que q)) ?_ hid ?_)
  · exact fun i hi ↦ (hs.exact.live_iff i).mpr ⟨.que q, hi⟩
  · intro hmem
    cases hs.exact.unique (.que q) (.hands t) bufId hmem hheld

section

variable [DecidableEq T]

/-- A step of a thread that moves no slot. -/
theorem goto (hs : PoolInv bufNum s) {pc : BufPc} (hpc : ∀ i ∈ pc.passed, i ∈ s.held t) :
    PoolInv bufNum (s.goto t pc) where
  rep := hs.rep
  exact := hs.exact.congr (fun p ↦ by cases p <;> rfl) fun _ ↦ Iff.rfl
  passed := fun t' i hi ↦ by
    by_cases ht : t' = t
    · subst ht
      exact hpc i (by simpa [BufState.goto] using hi)
    · exact hs.passed t' i (by simpa [BufState.goto, Function.update_of_ne ht] using hi)
  order := hs.order

/-- A slot that was in the queue comes into the hands of the thread. -/
theorem take (hs : PoolInv bufNum s) {timeout : ℕ} {r : OsaBufHndl × ℤ × ℤ} {pc : BufPc}
    (hget : s.buf.get timeout q = some r)
    (hpc : ∀ i ∈ pc.passed, i ∈ s.held t) : PoolInv bufNum (s.take t q r pc) := by
  obtain ⟨buf, status, id⟩ := r
  obtain ⟨hrep, hsame, ⟨rfl, hitems⟩ | ⟨rfl, rfl⟩⟩ := s.buf.get_cases hs.rep hget
  · simp only [BufState.take, BufState.goto, if_true]
    refine ⟨hrep, ?_, fun t' i hi ↦ ?_, ?_⟩
    · refine hs.exact.move (x := id) (p := BufPlace.que q) (q := BufPlace.hands t) ⟨?_, ?_, ?_, ?_⟩
      · simp
      · exact .of_eq hitems
      · exact .of_eq (Function.update_self ..)
      · intro p hp hp'
        cases p with
        | que q' => exact congrArg RingHndl.items (hsame q' fun heq ↦ hp (heq ▸ rfl))
        | hands t' =>
            have ht : t' ≠ t := fun heq ↦ hp' (heq ▸ rfl)
            exact Function.update_of_ne ht ..
    · by_cases ht : t' = t
      · subst ht
        simp only [Function.update_self] at hi ⊢
        exact List.mem_cons_of_mem _ (hpc i hi)
      · simp only [Function.update_of_ne ht] at hi ⊢
        exact hs.passed t' i hi
    · cases q with
      | empty => simpa [hsame .full (by simp)] using hs.order
      | full => simp [hs.order, hitems]
  · simp only [BufState.take, osaEfail_ne_osaSok, if_false]
    exact hs.goto hpc

/-- A slot in the hands of the thread goes to the end of the queue. -/
theorem give (hs : PoolInv bufNum s) {r : OsaBufHndl × ℤ} {pc : BufPc}
    (hheld : bufId ∈ s.held t) (hput : s.buf.put bufId q = some r) (hpc : pc.passed = none) :
    PoolInv bufNum (s.give t q bufId r pc) := by
  obtain ⟨buf, hput', hrep, hsame, hitems⟩ := hs.put hheld q
  rw [hput'] at hput
  obtain rfl := Option.some.inj hput
  simp only [BufState.give, BufState.goto, if_true]
  refine ⟨hrep, ?_, fun t' i hi ↦ ?_, ?_⟩
  · refine hs.exact.move (x := bufId) (p := BufPlace.hands t) (q := BufPlace.que q) ⟨?_, ?_, ?_, ?_⟩
    · simp
    · simpa [BufState.places] using List.perm_cons_erase hheld
    · refine .trans (.of_eq hitems) ?_
      exact List.perm_append_singleton ..
    · intro p hp hp'
      cases p with
      | que q' => exact congrArg RingHndl.items (hsame q' fun heq ↦ hp' (heq ▸ rfl))
      | hands t' =>
          have ht : t' ≠ t := fun heq ↦ hp (heq ▸ rfl)
          exact Function.update_of_ne ht ..
  · by_cases ht : t' = t
    · subst ht
      simp only [Function.update_self, hpc] at hi
      cases hi
    · simp only [Function.update_of_ne ht] at hi ⊢
      exact hs.passed t' i hi
  · cases q with
    | empty => simpa [hsame .full (by simp)] using hs.order
    | full => simp [hs.order, hitems]

theorem run (hs : PoolInv bufNum s) (h : s.run t = some s') : PoolInv bufNum s' := by
  have hpassed := hs.passed t
  cases hpc : s.pc t with
  | idle => simp [BufState.run, hpc] at h
  | get q timeout =>
      simp only [BufState.run, hpc] at h
      obtain ⟨r, hget, rfl⟩ := Option.map_eq_some_iff.mp h
      exact hs.take hget fun i hi ↦ by cases hi
  | put q id =>
      simp only [BufState.run, hpc] at h
      obtain ⟨r, hput, rfl⟩ := Option.map_eq_some_iff.mp h
      exact hs.give (hpassed id (by rw [hpc]; rfl)) hput rfl
  | switchGet q id =>
      simp only [BufState.run, hpc] at h
      obtain ⟨r, hget, rfl⟩ := Option.map_eq_some_iff.mp h
      refine hs.take hget fun i hi ↦ ?_
      split at hi
      · exact hpassed i (by rw [hpc]; exact hi)
      · cases hi
  | switchPut q id new =>
      simp only [BufState.run, hpc] at h
      split at h
      · next hne =>
        obtain ⟨r, hput, rfl⟩ := Option.map_eq_some_iff.mp h
        exact hs.give (hpassed id (by rw [hpc]; simp [BufPc.passed, hne])) hput rfl
      · cases h
        exact hs.goto fun i hi ↦ by cases hi

theorem step (hs : PoolInv bufNum s) {l : BufLabel T} (hok : BufOk s l)
    (h : bufStep s l = some s') : PoolInv bufNum s' := by
  cases l with
  | invoke t call =>
      simp only [bufStep] at h
      split at h
      · cases h
        exact hs.goto hok
      · cases h
  | run t => exact hs.run h

theorem law (hs : PoolInv bufNum s) : BufLaw bufNum s where
  onePlace := fun i h0 hlt ↦ by
    obtain ⟨p, hp⟩ := (hs.exact.live_iff i).mp ⟨h0, hlt⟩
    exact ⟨p, hp, fun p' hp' ↦ hs.exact.unique p' p i hp' hp⟩
  once := hs.exact.nodup
  range := fun p i hi ↦ hs.exact.live_of_mem hi
  putSucceeds := fun t q i hputs ↦ by
    obtain ⟨buf, hput, -⟩ := hs.put (hs.held hputs) q
    exact ⟨buf, hput⟩
  failedSwitch := fun t q i s' status i' hpc h hidle ↦ by
    simp only [bufStep, BufState.run, hpc] at h
    obtain ⟨⟨buf, st, new⟩, hget, rfl⟩ := Option.map_eq_some_iff.mp h
    obtain ⟨-, -, ⟨rfl, -⟩ | ⟨rfl, rfl⟩⟩ := s.buf.get_cases hs.rep hget
    · simp [BufState.take, BufState.goto] at hidle
    · simp only [BufState.take, osaEfail_ne_osaSok, if_false, BufState.goto, Function.update_self,
        BufPc.idle.injEq] at hidle
      obtain ⟨rfl, rfl⟩ := hidle
      exact ⟨osaEfail_ne_osaSok, rfl, rfl, rfl⟩
  order := hs.order

end

end PoolInv

theorem bufStart_inv {hndl : OsaBufHndl} (h : hndl.Fresh bufNum) :
    PoolInv bufNum (bufStart hndl : BufState T) where
  rep := h.rep
  exact := by
    have hempty : ∀ i : ℤ, i ∈ hndl.emptyQue.items ↔ 0 ≤ i ∧ i < (bufNum : ℤ) := by
      intro i
      rw [h.empty]
      simp only [List.mem_map, List.mem_range]
      constructor
      · rintro ⟨n, hn, rfl⟩
        omega
      · rintro ⟨h0, hlt⟩
        exact ⟨i.toNat, by omega, by omega⟩
    have hplaces : ∀ p, p ≠ BufPlace.que BufQue.empty →
        (bufStart hndl : BufState T).places p = [] := by
      intro p hp
      match p with
      | .que .empty => exact (hp rfl).elim
      | .que .full => exact h.full
      | .hands t => rfl
    refine ⟨fun p ↦ ?_, fun p q i hp hq ↦ ?_, fun i ↦ ?_⟩
    · by_cases hp : p = BufPlace.que BufQue.empty
      · subst hp
        change hndl.emptyQue.items.Nodup
        rw [h.empty]
        exact List.nodup_range.map Nat.cast_injective
      · rw [hplaces p hp]
        exact List.nodup_nil
    · by_cases hp' : p = BufPlace.que BufQue.empty
      · by_cases hq' : q = BufPlace.que BufQue.empty
        · rw [hp', hq']
        · rw [hplaces q hq'] at hq
          cases hq
      · rw [hplaces p hp'] at hp
        cases hp
    · rw [← hempty i]
      refine ⟨fun hi ↦ ⟨BufPlace.que BufQue.empty, hi⟩, ?_⟩
      rintro ⟨p, hp⟩
      by_cases hp' : p = BufPlace.que BufQue.empty
      · subst hp'
        exact hp
      · rw [hplaces p hp'] at hp
        cases hp
  passed := fun t i hi ↦ by cases hi
  order := h.full.symm

/-- No slot of a pool is lost or doubled, in every run. -/
theorem buffer_pool_conserved [DecidableEq T] (hpos : 1 ≤ bufNum)
    (hmax : (bufNum : ℤ) ≤ osaBufNumMax)
    {mem : Bool → Option (Vector ℤ ((bufNum : ℤ) % 2 ^ 32).toNat)} {initStatus : Bool → ℤ}
    {garbage hndl : OsaBufHndl}
    (hcreate : osaBufCreate bufNum mem initStatus garbage = some (osaSok, hndl))
    (h : Reach bufStep BufOk (bufStart hndl) s) : BufLaw bufNum s := by
  have hinv : PoolInv bufNum s := h.invariant (bufStart_inv (osaBufCreate_fresh hpos hmax hcreate))
    fun _ _ _ ha hok hstep ↦ ha.step hok hstep
  exact hinv.law

/-- A pool of two slots. -/
def twoSlots : OsaBufHndl :=
  ⟨fun _ ↦ ⟨zeroHead, none⟩, ⟨0, 0, 2, 2, [0, 1]⟩, ⟨0, 0, 2, 0, [0, 0]⟩, 2⟩

/-- Thread 0 switches slot 0 away for slot 1, thread 1 then gets slot 0. -/
theorem buffer_pool_conserved_switch : ∃ s : BufState (Fin 2),
    s.held 0 = [1] ∧ s.held 1 = [0] ∧ s.fullGot = [0] ∧ BufLaw 2 s := by
  have hcreate : osaBufCreate (2 : ℕ) (fun _ ↦ some (Vector.replicate _ 0)) (fun _ ↦ osaSok)
      twoSlots = some (osaSok, twoSlots) := rfl
  obtain ⟨s, hs, hheld⟩ := Reach.exists_of_exec bufStep BufOk (bufStart twoSlots : BufState (Fin 2))
    [.invoke 0 (.getEmpty osaTimeoutForever), .run 0, .invoke 0 (.switchFull 0), .run 0,
      .invoke 1 (.getFull osaTimeoutForever), .run 0, .run 1]
    (fun s ↦ decide (s.held 0 = [1] ∧ s.held 1 = [0] ∧ s.fullGot = [0])) (by decide)
  obtain ⟨h0, h1, hgot⟩ := of_decide_eq_true hheld
  exact ⟨s, h0, h1, hgot, buffer_pool_conserved (by decide) (by decide) hcreate hs⟩

end OsaBase
