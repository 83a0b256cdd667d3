import OsaBase.Communication.Head
import OsaBase.QueRuns

/-!
# The slot pool `osa_buf.c`

A pool is an array of slots and two queues of slot numbers. The calls on the pool are calls on one
of its queues; a call that waits gives nothing, and its caller tries again.
-/

open Monitor

namespace OsaBase

/-- `OSA_BUF_NUM_MAX` -/
def osaBufNumMax : ℤ := 120

/-- `OSA_BUF_ID_INVALID` -/
def osaBufIdInvalid : ℤ := -1

/-- A slot: the header, and the address of the data block or `NULL`. -/
structure OsaBufInfo where
  head : FrameHead
  data : Option ℕ

/-- The memory image of a slot that was set to zero. -/
def zeroHead : FrameHead := ⟨List.replicate frameHeadSize 0, by simp⟩

structure OsaBufHndl where
  bufInfo : ℤ → OsaBufInfo
  emptyQue : OsaQueHndl
  fullQue : OsaQueHndl
  numBuf : ℤ

/-! ## The calls -/

/-- `OSA_queGet` and what the two get functions make of it: the queue, the status and `*bufId`. -/
def bufGet (que : OsaQueHndl) (timeout : ℕ) : Option (OsaQueHndl × ℤ × ℤ) :=
  match osaQueGet que true timeout with
  | .done que (.value status bufId) _ =>
    some (que, status, if status = osaSok then bufId.getD osaBufIdInvalid else osaBufIdInvalid)
  | _ => none

def bufPut (que : OsaQueHndl) (numBuf bufId : ℤ) : Option (OsaQueHndl × ℤ) :=
  if bufId ≥ numBuf ∨ bufId < 0 then some (que, osaEfail)
  else
    match osaQuePut que bufId osaTimeoutForever with
    | .done que (.status status) _ => some (que, status)
    | _ => none

def osaBufGetEmpty (hndl : OsaBufHndl) (timeout : ℕ) : Option (OsaBufHndl × ℤ × ℤ) :=
  (bufGet hndl.emptyQue timeout).map fun r ↦ ({ hndl with emptyQue := r.1 }, r.2)

def osaBufPutFull (hndl : OsaBufHndl) (bufId : ℤ) : Option (OsaBufHndl × ℤ) :=
  (bufPut hndl.fullQue hndl.numBuf bufId).map fun r ↦ ({ hndl with fullQue := r.1 }, r.2)

def osaBufGetFull (hndl : OsaBufHndl) (timeout : ℕ) : Option (OsaBufHndl × ℤ × ℤ) :=
  (bufGet hndl.fullQue timeout).map fun r ↦ ({ hndl with fullQue := r.1 }, r.2)

def osaBufPutEmpty (hndl : OsaBufHndl) (bufId : ℤ) : Option (OsaBufHndl × ℤ) :=
  (bufPut hndl.emptyQue hndl.numBuf bufId).map fun r ↦ ({ hndl with emptyQue := r.1 }, r.2)

/-- The loop of `OSA_bufCreate` up to slot `i`. -/
def bufFill (que : OsaQueHndl) : ℕ → Option OsaQueHndl
  | 0 => some que
  | i + 1 => (bufFill que i).bind fun que ↦
    match osaQuePut que i osaTimeoutForever with
    | .done que _ _ => some que
    | .wait .. => none

/-- `mem` and `initStatus` are the answers to the allocation and the initialisations of the two
queues. -/
def osaBufCreate (bufNum : ℤ) (mem : Bool → Option (Vector ℤ (bufNum % 2 ^ 32).toNat))
    (initStatus : Bool → ℤ) (garbage : OsaBufHndl) : Option (ℤ × OsaBufHndl) :=
  if bufNum > osaBufNumMax then some (osaEfail, garbage)
  else
    let empty := osaQueCreate (bufNum % 2 ^ 32).toNat (mem false) (initStatus false)
    let full := osaQueCreate (bufNum % 2 ^ 32).toNat (mem true) (initStatus true)
    let zeroed : OsaBufHndl := ⟨fun _ ↦ ⟨zeroHead, none⟩, ⟨0, 0, 0, 0, []⟩, ⟨0, 0, 0, 0, []⟩, 0⟩
    if empty.1 ≠ osaSok then some (empty.1, { zeroed with emptyQue := empty.2 })
    else if full.1 ≠ osaSok then
      some (full.1, { zeroed with emptyQue := empty.2, fullQue := full.2 })
    else (bufFill empty.2 bufNum.toNat).map fun que ↦
      (full.1, { zeroed with emptyQue := que, fullQue := full.2, numBuf := bufNum })

/-! ## What they do to the queues -/

variable {que que' : OsaQueHndl} {cap timeout : ℕ} {status bufId : ℤ}

theorem bufGet_cases (hrep : que.Rep cap) (h : bufGet que timeout = some (que', status, bufId)) :
    que'.Rep cap ∧ ((status = osaSok ∧ que.items = bufId :: que'.items) ∨
      (status = osaEfail ∧ que.items = [] ∧ que' = que ∧ bufId = osaBufIdInvalid)) := by
  simp only [bufGet, osaQueGet, RingHndl.getPass] at h
  by_cases hsome : 0 < que.count
  · simp only [hsome, if_true, Option.some.injEq, Prod.mk.injEq, Option.getD_some] at h
    obtain ⟨rfl, rfl, rfl⟩ := h
    exact ⟨⟨hrep.wf.pop hsome, hrep.len_eq⟩, Or.inl ⟨rfl, hrep.wf.items_pop hsome⟩⟩
  · have hnil : que.items = [] := hrep.wf.items_eq_nil_iff.mpr (by omega)
    rw [if_neg hsome] at h
    split at h
    · next hpass =>
      split at hpass
      · cases hpass
        simp only [osaEfail_ne_osaSok, if_false, Option.some.injEq, Prod.mk.injEq] at h
        obtain ⟨rfl, rfl, rfl⟩ := h
        exact ⟨hrep, Or.inr ⟨rfl, hnil, rfl, rfl⟩⟩
      · cases hpass
    · cases h

/-- A get with `OSA_TIMEOUT_NONE` does not wait. -/
theorem bufGet_none_isSome (que : OsaQueHndl) : ∃ r, bufGet que osaTimeoutNone = some r := by
  by_cases hcount : 0 < que.count <;> simp [bufGet, osaQueGet, RingHndl.getPass, hcount]

theorem osaQuePut_done (hrep : que.Rep cap) (hroom : que.items.length < cap) (value : ℤ)
    (timeout : ℕ) :
    osaQuePut que value timeout = .done (que.push value) (.status osaSok) (some .condRd) ∧
      (que.push value).Rep cap ∧ (que.push value).items = que.items ++ [value] := by
  rw [RingHndl.length_items, ← hrep.len_eq] at hroom
  refine ⟨?_, ⟨hrep.wf.push hroom value, hrep.len_eq⟩, hrep.wf.items_push hroom value⟩
  simp [osaQuePut, RingHndl.putPass, hroom]

theorem bufPut_cases {numBuf : ℤ} (hrep : que.Rep cap) (hid : 0 ≤ bufId ∧ bufId < numBuf)
    (h : bufPut que numBuf bufId = some (que', status)) :
    que'.Rep cap ∧ status = osaSok ∧ que'.items = que.items ++ [bufId] := by
  have hvalid : ¬ (bufId ≥ numBuf ∨ bufId < 0) := by omega
  simp only [bufPut, hvalid, if_false] at h
  by_cases hroom : que.items.length < cap
  · obtain ⟨hput, hrep', hitems⟩ := osaQuePut_done hrep hroom bufId osaTimeoutForever
    rw [hput] at h
    cases h
    exact ⟨hrep', rfl, hitems⟩
  · rw [RingHndl.length_items, ← hrep.len_eq] at hroom
    simp [osaQuePut, RingHndl.putPass, hroom, osaTimeoutForever, osaTimeoutNone] at h

theorem bufFill_spec (hrep : que.Rep cap) (hnil : que.items = []) {n : ℕ} (hn : n ≤ cap) :
    ∃ que', bufFill que n = some que' ∧ que'.Rep cap ∧
      que'.items = (List.range n).map fun i : ℕ ↦ (i : ℤ) := by
  induction n with
  | zero => exact ⟨que, rfl, hrep, hnil⟩
  | succ n ih =>
      obtain ⟨q, hfill, hq, hitems⟩ := ih (by omega)
      have hroom : q.items.length < cap := by
        rw [hitems, List.length_map, List.length_range]
        exact hn
      obtain ⟨hput, hrep', hitems'⟩ := osaQuePut_done hq hroom n osaTimeoutForever
      refine ⟨q.push n, ?_, hrep', ?_⟩
      · simp only [bufFill, hfill, Option.bind_some, hput]
      · rw [hitems', hitems, List.range_succ, List.map_append]
        rfl

/-! ## How many slots are queued -/

theorem bufGet_count {r : OsaQueHndl × ℤ × ℤ} (h : bufGet que timeout = some r) :
    r.1.len = que.len ∧ ((r.2.1 = osaSok ∧ r.1.count + 1 = que.count) ∨
      (r.2.1 ≠ osaSok ∧ r.1 = que ∧ r.2.2 = osaBufIdInvalid)) := by
  by_cases hcount : 0 < que.count
  · simp only [bufGet, osaQueGet, RingHndl.getPass, hcount, if_true, Option.some.injEq] at h
    subst h
    refine ⟨rfl, Or.inl ⟨rfl, ?_⟩⟩
    simp only [RingHndl.pop]
    omega
  · simp only [bufGet, osaQueGet, RingHndl.getPass, hcount, if_false] at h
    split at h
    · next hpass =>
      split at hpass
      · cases hpass
        cases h
        exact ⟨rfl, Or.inr ⟨osaEfail_ne_osaSok, rfl, rfl⟩⟩
      · cases hpass
    · cases h

theorem bufGet_forever_isNone : (bufGet que osaTimeoutForever).isNone = true ↔ que.count = 0 := by
  by_cases hcount : 0 < que.count
  · simp [bufGet, osaQueGet, RingHndl.getPass, hcount]
    omega
  · simp [bufGet, osaQueGet, RingHndl.getPass, hcount, osaTimeoutForever, osaTimeoutNone]
    omega

theorem osaBufGetFull_isNone {hndl : OsaBufHndl} :
    (osaBufGetFull hndl osaTimeoutForever).isNone = true ↔ hndl.fullQue.count = 0 := by
  rw [← bufGet_forever_isNone]
  simp [osaBufGetFull]

theorem osaBufGetFull_pop {hndl : OsaBufHndl} (hcount : hndl.fullQue.count ≠ 0) (timeout : ℕ) :
    ∃ r, osaBufGetFull hndl timeout = some r ∧ r.2.1 = osaSok ∧
      r.1.fullQue.count + 1 = hndl.fullQue.count := by
  have hpos : 0 < hndl.fullQue.count := Nat.pos_of_ne_zero hcount
  simp only [osaBufGetFull, bufGet, osaQueGet, RingHndl.getPass, hpos, if_true, Option.map_some,
    Option.some.injEq, exists_eq_left', RingHndl.pop, true_and]
  omega

theorem bufPut_count {numBuf : ℤ} {r : OsaQueHndl × ℤ} (h : bufPut que numBuf bufId = some r) :
    r.1.len = que.len ∧ r.1.count ≤ que.count + 1 := by
  unfold bufPut at h
  split at h
  · cases h
    exact ⟨rfl, Nat.le_succ _⟩
  · by_cases hroom : que.count < que.len
    · simp only [osaQuePut, RingHndl.putPass, hroom, if_true] at h
      cases h
      exact ⟨rfl, Nat.mod_le _ _⟩
    · simp [osaQuePut, RingHndl.putPass, hroom, osaTimeoutForever, osaTimeoutNone] at h

theorem bufPut_isSome {numBuf : ℤ} (hroom : 0 < numBuf → que.count < que.len) (bufId : ℤ) :
    ∃ r, bufPut que numBuf bufId = some r := by
  unfold bufPut
  by_cases hid : bufId ≥ numBuf ∨ bufId < 0
  · exact ⟨_, if_pos hid⟩
  · have hlt : que.count < que.len := hroom (by omega)
    rw [if_neg hid]
    simp [osaQuePut, RingHndl.putPass, hlt]

theorem bufFill_count {n : ℕ} (hle : que.count ≤ que.len) (h : bufFill que n = some que') :
    que'.count ≤ que'.len := by
  induction n generalizing que' with
  | zero =>
      obtain rfl : que = que' := Option.some.inj h
      exact hle
  | succ n ih =>
      obtain ⟨q, hq, h⟩ := Option.bind_eq_some_iff.mp h
      have := ih hq
      by_cases hroom : q.count < q.len
      · simp only [osaQuePut, RingHndl.putPass, hroom, if_true, Option.some.injEq] at h
        subst h
        exact (Nat.mod_le _ _).trans hroom
      · simp [osaQuePut, RingHndl.putPass, hroom, osaTimeoutForever, osaTimeoutNone] at h

/-- A pool that has slots has room for them. -/
theorem osaBufCreate_count {bufNum : ℤ} {mem : Bool → Option (Vector ℤ (bufNum % 2 ^ 32).toNat)}
    {initStatus : Bool → ℤ} {garbage : OsaBufHndl} {r : ℤ × OsaBufHndl}
    (h : osaBufCreate bufNum mem initStatus garbage = some r) : r.2 = garbage ∨
      (0 < r.2.numBuf → r.2.emptyQue.count + r.2.fullQue.count ≤ r.2.emptyQue.len) := by
  unfold osaBufCreate at h
  split at h
  · cases h
    exact Or.inl rfl
  · refine Or.inr ?_
    simp only at h
    split at h
    · cases h
      simp
    · split at h
      · cases h
        simp
      · obtain ⟨que, hfill, rfl⟩ := Option.map_eq_some_iff.mp h
        have hempty : ∀ b,
            (osaQueCreate (bufNum % 2 ^ 32).toNat (mem b) (initStatus b)).2.count = 0 := by
          intro b
          cases mem b <;> rfl
        have := bufFill_count (by rw [hempty]; exact Nat.zero_le _) hfill
        simp only [hempty, Nat.add_zero]
        exact fun _ ↦ this

/-- A new pool: every slot waits empty and has no data block. -/
structure OsaBufHndl.Fresh (hndl : OsaBufHndl) (bufNum : ℕ) : Prop where
  emptyRep : hndl.emptyQue.Rep bufNum
  fullRep : hndl.fullQue.Rep bufNum
  empty : hndl.emptyQue.items = (List.range bufNum).map fun i : ℕ ↦ (i : ℤ)
  full : hndl.fullQue.items = []
  data : ∀ i, (hndl.bufInfo i).data = none
  numBuf : hndl.numBuf = bufNum

theorem osaBufCreate_fresh {bufNum : ℕ} (hpos : 1 ≤ bufNum) (hmax : (bufNum : ℤ) ≤ osaBufNumMax)
    {mem : Bool → Option (Vector ℤ ((bufNum : ℤ) % 2 ^ 32).toNat)} {initStatus : Bool → ℤ}
    {garbage hndl : OsaBufHndl}
    (h : osaBufCreate bufNum mem initStatus garbage = some (osaSok, hndl)) :
    hndl.Fresh bufNum := by
  have hlen : ((bufNum : ℤ) % 2 ^ 32).toNat = bufNum := by
    unfold osaBufNumMax at hmax
    omega
  have hlt : bufNum < 2 ^ 32 := by
    unfold osaBufNumMax at hmax
    omega
  have hsize : ¬ (bufNum : ℤ) > osaBufNumMax := by omega
  simp only [osaBufCreate, hsize, if_false] at h
  generalize ((bufNum : ℤ) % 2 ^ 32).toNat = len at hlen mem h
  subst hlen
  split at h
  · next hbad =>
    simp only [Option.some.injEq, Prod.mk.injEq] at h
    exact (hbad h.1).elim
  · next hempty =>
    split at h
    · next hbad =>
      simp only [Option.some.injEq, Prod.mk.injEq] at h
      exact (hbad h.1).elim
    · next hfull =>
      obtain ⟨hrepE, hnilE⟩ := osaQueCreate_rep hpos hlt (Prod.ext (not_not.mp hempty) rfl)
      obtain ⟨hrepF, hnilF⟩ := osaQueCreate_rep hpos hlt (Prod.ext (not_not.mp hfull) rfl)
      obtain ⟨que, hfill, hrep, hitems⟩ := bufFill_spec hrepE hnilE le_rfl
      rw [Int.toNat_natCast, hfill] at h
      simp only [Option.map_some, Option.some.injEq, Prod.mk.injEq] at h
      obtain ⟨-, rfl⟩ := h
      exact ⟨hrep, hrepF, hitems, hnilF, fun _ ↦ rfl, rfl⟩

end OsaBase
