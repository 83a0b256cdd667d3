import Mathlib.Data.List.ReduceOption
import OsaBase.Lib.Ledger
import OsaBase.Communication.StreamEffects

/-!
# The data blocks of a stream client

`OSA_processClient_thread` of a STREAM_TYPE client from its registration to its return, with
`server_fill_buf` beside it as long as the client is in the list: `list_mutex` is held during
`server_fill_buf`, so the client is not taken off the list meanwhile. What the thread frees at its
return besides data blocks, its pool and its handle, is left out.
-/

open Transition

namespace OsaBase

/-! ## The thread -/

/-- `body` is the body of the loop, at the place `slots.consumer`. `exit` is the label `EXIT`, which
stands in the scope of `tmp_msg` and `flag`, behind their initialisations; the two steps after it
are `set_client_status` and `set_client_socket`. -/
inductive StreamPc
  | testStatus
  | body
  | exit
  | exitStatus
  | exitUnset
  | earse
  | drain
  | drainTest (bufId : ℤ)
  | done
  | fault
  deriving DecidableEq, Repr

/-- `block` numbers the allocated blocks in the order of their allocations. `freed` is what was
passed to `OSA_memFree`: a block by its number, or something that is no allocated block. -/
structure CopyState where
  slots : SlotState
  pc : StreamPc
  connected : Bool
  star : Bool
  listed : Bool
  allocs : ℕ
  block : ℕ → Option ℕ
  freed : List (Option ℕ)

/-- `tmpMsg` and `flag` are what an uninitialised `tmp_msg` and `flag` happen to be. -/
inductive CopyLabel
  | fill (f : StreamFrame)
  | producer (addr : Option ℕ)
  | thread (es : SendSchedule) (tmpMsg : Option ℕ) (flag : ℤ)
  | stop

namespace CopyState

def data (s : CopyState) (bufId : ℤ) : Option ℕ := (s.slots.buf.bufInfo bufId).data

def memFree (s : CopyState) (a : ℕ) : CopyState :=
  match s.block a with
  | none => { s with freed := s.freed ++ [none], pc := .fault }
  | some n =>
    { s with
      slots := { s.slots with mem := Function.update s.slots.mem a none }
      block := Function.update s.block a none
      freed := s.freed ++ [some n] }

def setNull (s : CopyState) (bufId : ℤ) : CopyState :=
  { s with slots := { s.slots with
      buf := s.slots.buf.setSlot bufId { s.slots.buf.bufInfo bufId with data := none } } }

/-- The rest of the body, or the test of the loop. -/
def turn (s : CopyState) (slots : SlotState) : CopyState :=
  { s with slots := slots, pc := if slots.consumer = .getFull then .testStatus else .body }

end CopyState

/-- The loop of `OSA_processClient_thread` for a STREAM_TYPE client, and what follows it. -/
def osaProcessClientThreadStream (bufNum : ℤ) (s : CopyState) (es : SendSchedule)
    (tmpMsg : Option ℕ) (flag : ℤ) : Option CopyState :=
  match s.pc with
  | .testStatus => some { s with pc := if s.connected && s.star then .body else .earse }
  | .body =>
    match s.slots.consumer with
    | .send bufId =>
      let data := (s.data bufId).bind s.slots.mem
      if s.data bufId ≠ none ∧ data = none then some { s with pc := .fault }
      else
        (netSendBuf s.slots.socket (s.slots.buf.bufInfo bufId).head data es).bind fun run ↦
          if run.status ≠ 0 then some { s with pc := .exit }
          else (osaProcessClientStream bufNum s.slots es).map s.turn
    | .free bufId =>
      let s' : CopyState := { s with slots := { s.slots with consumer := .null bufId } }
      match s.data bufId with
      | none => some s'
      | some a => some (s'.memFree a)
    | _ => (osaProcessClientStream bufNum s.slots es).map s.turn
  | .exit =>
    if tmpMsg ≠ none ∧ flag ≠ 0 then some { s with freed := s.freed ++ [none], pc := .fault }
    else some { s with pc := .exitStatus }
  -- `ret` is the status of `net_send_buf`, so it is not 0
  | .exitStatus => some { s with connected := false, pc := .exitUnset }
  | .exitUnset => some { s with slots := { s.slots with socket := -1 }, pc := .testStatus }
  | .earse =>
    match s.slots.producer with
    | .idle => some { s with listed := false, pc := .drain }
    | _ => none
  | .drain =>
    (osaBufGetFull s.slots.buf osaTimeoutNone).map fun r ↦
      { s with
        slots := { s.slots with buf := r.1 }
        pc := if r.2.1 ≠ osaSok then .done else .drainTest r.2.2 }
  | .drainTest bufId =>
    match s.data bufId with
    | none => some { s with pc := .drain }
    | some a => some (({ s with pc := .drain }.setNull bufId).memFree a)
  | .done | .fault => none

def copyStep (bufNum : ℤ) (s : CopyState) : CopyLabel → Option CopyState
  | .fill f =>
    if s.listed then (slotStep bufNum s.slots (.fill f)).map fun slots ↦ { s with slots := slots }
    else none
  | .producer addr =>
    (serverFillBuf s.slots addr).map fun slots ↦
      match s.slots.producer, addr with
      | .alloc _ _, some a =>
        { s with
          slots := slots
          allocs := s.allocs + 1
          block := Function.update s.block a (some s.allocs) }
      | _, _ => { s with slots := slots }
  | .thread es tmpMsg flag => osaProcessClientThreadStream bufNum s es tmpMsg flag
  | .stop => some { s with star := false }

/-- A client that was just registered. -/
def copyStart (hndl : OsaBufHndl) (socket : ℤ) : CopyState where
  slots := slotStart hndl socket
  pc := .testStatus
  connected := decide (3 ≤ socket)
  star := true
  listed := true
  allocs := 0
  block := fun _ ↦ none
  freed := []

variable {bufNum : ℕ} {s s' : CopyState}

/-! ## All that a step can do -/

inductive ThreadEffect (bufNum : ℕ) (s : CopyState) (es : SendSchedule) : CopyState → Prop
  | test (hpc : s.pc = .testStatus) :
      ThreadEffect bufNum s es { s with pc := if s.connected && s.star then .body else .earse }
  | fetch (i : ℤ) (que : OsaQueHndl) (hpc : s.pc = .body) (hcons : s.slots.consumer = .getFull)
      (hrep : que.Rep bufNum) (hitems : s.slots.buf.fullQue.items = i :: que.items) :
      ThreadEffect bufNum s es { s with
        slots := { s.slots with
          buf := { s.slots.buf with fullQue := que }, consumer := .send i }
        pc := .body }
  | dead (i : ℤ) (hpc : s.pc = .body) (hcons : s.slots.consumer = .send i) (hdata : s.data i ≠ none)
      (hmem : (s.data i).bind s.slots.mem = none) : ThreadEffect bufNum s es { s with pc := .fault }
  | failed (i : ℤ) (run : SendRun) (hpc : s.pc = .body)
      (hcons : s.slots.consumer = .send i)
      (hrun : netSendBuf s.slots.socket (s.slots.buf.bufInfo i).head ((s.data i).bind s.slots.mem)
        es = some run) (hfail : run.status ≠ 0) : ThreadEffect bufNum s es { s with pc := .exit }
  | sent (i : ℤ) (run : SendRun) (sent : List (List UInt8 × List UInt8)) (hpc : s.pc = .body)
      (hcons : s.slots.consumer = .send i)
      (hrun : netSendBuf s.slots.socket (s.slots.buf.bufInfo i).head ((s.data i).bind s.slots.mem)
        es = some run) (hok : run.status = 0) :
      ThreadEffect bufNum s es { s with
        slots := { s.slots with consumer := .putEmpty i, sent := sent }
        pc := .body }
  | putBack (i : ℤ) (que : OsaQueHndl) (hpc : s.pc = .body) (hcons : s.slots.consumer = .putEmpty i)
      (hrep : que.Rep bufNum) (hitems : que.items = s.slots.buf.emptyQue.items ++ [i]) :
      ThreadEffect bufNum s es { s with
        slots := { s.slots with
          buf := { s.slots.buf with emptyQue := que }, consumer := .test i }
        pc := .body }
  | clean (i : ℤ) (hpc : s.pc = .body) (hcons : s.slots.consumer = .test i)
      (hdata : s.data i = none) :
      ThreadEffect bufNum s es { s with
        slots := { s.slots with consumer := .getFull }
        pc := .testStatus }
  | tested (i : ℤ) (hpc : s.pc = .body) (hcons : s.slots.consumer = .test i)
      (hdata : s.data i ≠ none) :
      ThreadEffect bufNum s es { s with
        slots := { s.slots with consumer := .free i }
        pc := .body }
  | freeNull (i : ℤ) (hpc : s.pc = .body) (hcons : s.slots.consumer = .free i)
      (hdata : s.data i = none) :
      ThreadEffect bufNum s es { s with
        slots := { s.slots with consumer := .null i }
        pc := .body }
  | free (i : ℤ) (a : ℕ) (hpc : s.pc = .body) (hcons : s.slots.consumer = .free i)
      (hdata : s.data i = some a) :
      ThreadEffect bufNum s es (({ s with
        slots := { s.slots with consumer := .null i }
        pc := .body } : CopyState).memFree a)
  | null (i : ℤ) (hpc : s.pc = .body) (hcons : s.slots.consumer = .null i) :
      ThreadEffect bufNum s es { s with
        slots := { s.slots with
          buf := s.slots.buf.setSlot i { s.slots.buf.bufInfo i with data := Option.none }
          consumer := .getFull }
        pc := .testStatus }
  | stray (hpc : s.pc = .exit) :
      ThreadEffect bufNum s es { s with freed := s.freed ++ [Option.none], pc := .fault }
  | exit (hpc : s.pc = .exit) : ThreadEffect bufNum s es { s with pc := .exitStatus }
  | exitStatus (hpc : s.pc = .exitStatus) :
      ThreadEffect bufNum s es { s with connected := false, pc := .exitUnset }
  | exitUnset (hpc : s.pc = .exitUnset) :
      ThreadEffect bufNum s es { s with
        slots := { s.slots with socket := -1 }
        pc := .testStatus }
  | earse (hpc : s.pc = .earse) (hidle : s.slots.producer = .idle) :
      ThreadEffect bufNum s es { s with listed := false, pc := .drain }
  | drained (hpc : s.pc = .drain) (hnil : s.slots.buf.fullQue.items = []) :
      ThreadEffect bufNum s es { s with pc := .done }
  | drain (i : ℤ) (que : OsaQueHndl) (hpc : s.pc = .drain) (hrep : que.Rep bufNum)
      (hitems : s.slots.buf.fullQue.items = i :: que.items) :
      ThreadEffect bufNum s es { s with
        slots := { s.slots with buf := { s.slots.buf with fullQue := que } }
        pc := .drainTest i }
  | drainNull (i : ℤ) (hpc : s.pc = .drainTest i) (hdata : s.data i = none) :
      ThreadEffect bufNum s es { s with pc := .drain }
  | drainFree (i : ℤ) (a : ℕ) (hpc : s.pc = .drainTest i) (hdata : s.data i = some a) :
      ThreadEffect bufNum s es ((({ s with pc := .drain } : CopyState).setNull i).memFree a)

inductive CopyEffect (bufNum : ℕ) (s : CopyState) : CopyLabel → CopyState → Prop
  | refused (f : StreamFrame) : CopyEffect bufNum s (.fill f) s
  | fill (f : StreamFrame) (hpc : s.slots.producer = .idle) (hlisted : s.listed = true) :
      CopyEffect bufNum s (.fill f) { s with slots := { s.slots with producer := .getEmpty f } }
  | producer (addr : Option ℕ) (u : SlotState) (h : FillEffect bufNum s.slots u) :
      CopyEffect bufNum s (.producer addr) { s with slots := u }
  | alloc (f : StreamFrame) (i : ℤ) (a : ℕ) (block : List UInt8)
      (hpc : s.slots.producer = .alloc f i) (hfree : s.slots.mem a = none) :
      CopyEffect bufNum s (.producer (some a)) { s with
        slots := { s.slots with
          buf := s.slots.buf.setSlot i { s.slots.buf.bufInfo i with data := some a }
          mem := Function.update s.slots.mem a (some block)
          producer := .copyData f i }
        allocs := s.allocs + 1
        block := Function.update s.block a (some s.allocs) }
  | thread (es : SendSchedule) (tmpMsg : Option ℕ) (flag : ℤ) {s' : CopyState}
      (h : ThreadEffect bufNum s es s') : CopyEffect bufNum s (.thread es tmpMsg flag) s'
  | stop : CopyEffect bufNum s .stop { s with star := false }

/-- A step in the body of the loop. -/
theorem bodyEffect (hs : SlotQueues bufNum s.slots) {es : SendSchedule} {tmpMsg : Option ℕ}
    {flag : ℤ} (hpc : s.pc = .body)
    (h : osaProcessClientThreadStream bufNum s es tmpMsg flag = some s') :
    ThreadEffect bufNum s es s' := by
  simp only [osaProcessClientThreadStream, hpc] at h
  split at h
  · next i hcons =>
    split at h
    · next hdead =>
      cases h
      exact .dead i hpc hcons hdead.1 hdead.2
    · next hlive =>
      obtain ⟨run, hrun, h⟩ := Option.bind_eq_some_iff.mp h
      split at h
      · next hfail =>
        cases h
        exact .failed i run hpc hcons hrun hfail
      · next hok =>
        obtain ⟨u, hu, rfl⟩ := Option.map_eq_some_iff.mp h
        cases consumerEffect hs hu with
        | sent j run' hcons' hrun' hok' =>
            obtain rfl : i = j := ConsumerPc.send.inj (hcons.symm.trans hcons')
            exact .sent i run' _ hpc hcons hrun' hok'
        | dead j hcons' hdata hdead =>
            obtain rfl : i = j := ConsumerPc.send.inj (hcons.symm.trans hcons')
            exact (hlive ⟨hdata, hdead⟩).elim
        | noData j hcons' hdata =>
            obtain rfl : i = j := ConsumerPc.send.inj (hcons.symm.trans hcons')
            change (s.data i).bind s.slots.mem = none at hdata
            simp only [hdata, netSendBuf, if_true, Option.some.injEq] at hrun
            subst hrun
            exact (hok (by decide)).elim
        | fetch _ _ hcons' | putBack _ _ hcons' | clean _ hcons' | tested _ hcons'
        | freeNull _ hcons' | freeDead _ _ hcons' | free _ _ hcons' | null _ hcons' =>
            exact ConsumerPc.noConfusion (hcons.symm.trans hcons')
  · next i hcons =>
    split at h
    · next hdata =>
      cases h
      exact .freeNull i hpc hcons hdata
    · next a hdata =>
      cases h
      exact .free i a hpc hcons hdata
  · next hsend hfree =>
    obtain ⟨u, hu, rfl⟩ := Option.map_eq_some_iff.mp h
    cases consumerEffect hs hu with
    | fetch i que hcons hrep hitems => exact .fetch i que hpc hcons hrep hitems
    | putBack i que hcons hrep hitems => exact .putBack i que hpc hcons hrep hitems
    | clean i hcons hdata => exact .clean i hpc hcons hdata
    | tested i hcons hdata => exact .tested i hpc hcons hdata
    | null i hcons => exact .null i hpc hcons
    | dead i hcons | sent i run hcons | noData i hcons => exact (hsend i hcons).elim
    | freeNull i hcons | freeDead i a hcons | free i a hcons => exact (hfree i hcons).elim

theorem threadEffect (hs : SlotQueues bufNum s.slots) {es : SendSchedule} {tmpMsg : Option ℕ}
    {flag : ℤ} (h : osaProcessClientThreadStream bufNum s es tmpMsg flag = some s') :
    ThreadEffect bufNum s es s' := by
  cases hpc : s.pc with
  | testStatus =>
      simp only [osaProcessClientThreadStream, hpc] at h
      cases h
      exact .test hpc
  | body => exact bodyEffect hs hpc h
  | exit =>
      simp only [osaProcessClientThreadStream, hpc] at h
      split at h
      · cases h
        exact .stray hpc
      · cases h
        exact .exit hpc
  | exitStatus =>
      simp only [osaProcessClientThreadStream, hpc] at h
      cases h
      exact .exitStatus hpc
  | exitUnset =>
      simp only [osaProcessClientThreadStream, hpc] at h
      cases h
      exact .exitUnset hpc
  | earse =>
      simp only [osaProcessClientThreadStream, hpc] at h
      split at h
      · next hidle =>
        cases h
        exact .earse hpc hidle
      · cases h
  | drain =>
      simp only [osaProcessClientThreadStream, hpc, osaBufGetFull, Option.map_map] at h
      obtain ⟨⟨que, status, i⟩, hget, rfl⟩ := Option.map_eq_some_iff.mp h
      obtain ⟨hrep, ⟨rfl, hitems⟩ | ⟨rfl, hnil, rfl, rfl⟩⟩ := bufGet_cases hs.fullRep hget
      · simp only [Function.comp_apply, ne_eq, not_true, if_false]
        exact .drain i que hpc hrep hitems
      · simp only [Function.comp_apply, osaEfail_ne_osaSok, ne_eq, not_false_eq_true, if_true]
        exact .drained hpc hnil
  | drainTest i =>
      simp only [osaProcessClientThreadStream, hpc] at h
      cases hdata : s.data i with
      | none =>
          simp only [hdata] at h
          cases h
          exact .drainNull i hpc hdata
      | some a =>
          simp only [hdata] at h
          cases h
          exact .drainFree i a hpc hdata
  | done | fault =>
      simp only [osaProcessClientThreadStream, hpc] at h
      cases h

theorem copyEffect (hs : SlotQueues bufNum s.slots) {l : CopyLabel}
    (h : copyStep bufNum s l = some s') : CopyEffect bufNum s l s' := by
  cases l with
  | fill f =>
      simp only [copyStep] at h
      split at h
      · next hlisted =>
        obtain ⟨u, hu, rfl⟩ := Option.map_eq_some_iff.mp h
        simp only [slotStep] at hu
        split at hu
        · next hpc =>
          split at hu
          · cases hu
            exact .refused f
          · cases hu
            exact .fill f hpc hlisted
        · cases hu
      · cases h
  | producer addr =>
      obtain ⟨u, hu, rfl⟩ := Option.map_eq_some_iff.mp h
      rcases fill_cases hs hu with ⟨hnone, heffect⟩ | ⟨f, i, a, rfl, hpc, hfree, rfl⟩
      · split
        · next f i a hpc => cases hnone f i hpc
        · exact .producer _ _ heffect
      · simp only [hpc]
        exact .alloc f i a _ hpc hfree
  | thread es tmpMsg flag => exact .thread es tmpMsg flag (threadEffect hs h)
  | stop =>
      cases h
      exact .stop

/-! ## What every step keeps -/

/-- A block that is freed, and anything else that is. -/
theorem CopyState.memFree_cases (s : CopyState) (a : ℕ) :
    (s.block a = none ∧ s.memFree a = { s with freed := s.freed ++ [none], pc := .fault }) ∨
      ∃ n, s.block a = some n ∧ s.memFree a = { s with
        slots := { s.slots with mem := Function.update s.slots.mem a none }
        block := Function.update s.block a none
        freed := s.freed ++ [some n] } := by
  cases hblock : s.block a with
  | none => exact Or.inl ⟨rfl, by simp [CopyState.memFree, hblock]⟩
  | some n => exact Or.inr ⟨n, rfl, by simp [CopyState.memFree, hblock]⟩

theorem CopyState.memFree_slots (s : CopyState) (a : ℕ) :
    ∃ mem, (s.memFree a).slots = { s.slots with mem := mem } := by
  rcases s.memFree_cases a with ⟨-, heq⟩ | ⟨n, -, heq⟩
  · exact ⟨s.slots.mem, by rw [heq]⟩
  · exact ⟨_, by rw [heq]⟩

/-- The drain takes a slot out of `fullQue` for good. -/
theorem SlotQueues.drain {u : SlotState} (hu : SlotQueues bufNum u) {i : ℤ} {que : OsaQueHndl}
    (hrep : que.Rep bufNum) (hitems : u.buf.fullQue.items = i :: que.items) :
    SlotQueues bufNum { u with buf := { u.buf with fullQue := que } } := by
  apply hu.of_subperm
  · simp only [Pool.Places.all, SlotState.places, hitems]
    apply List.Sublist.subperm
    exact ((List.Sublist.refl _).append (List.sublist_cons_self _ _)).append (.refl _)
  · exact hu.emptyRep
  · exact hrep
  · rfl

theorem SlotQueues.memFree (hs : SlotQueues bufNum s.slots) (a : ℕ) :
    SlotQueues bufNum (s.memFree a).slots := by
  obtain ⟨mem, heq⟩ := s.memFree_slots a
  rw [heq]
  exact hs.same rfl rfl rfl rfl rfl

theorem SlotQueues.thread (hs : SlotQueues bufNum s.slots) {es : SendSchedule}
    (h : ThreadEffect bufNum s es s') : SlotQueues bufNum s'.slots := by
  cases h with
  | test | dead | failed | stray | exit | exitStatus | earse | drained | drainNull => exact hs
  | exitUnset => exact hs.same rfl rfl rfl rfl rfl
  | fetch i que hpc hcons hrep hitems =>
      refine hs.move ?_ hs.emptyRep hrep rfl
      simp only [SlotState.places, hcons, hitems]
      exact .fetch _ _ _ _
  | putBack i que hpc hcons hrep hitems =>
      refine hs.move ?_ hrep hs.fullRep rfl
      simp only [SlotState.places, hcons, hitems]
      exact .putBack _ _ _ _
  | sent i run sent hpc hcons | clean i hpc hcons | tested i hpc hcons | freeNull i hpc hcons
  | null i hpc hcons => exact hs.same rfl rfl rfl rfl (by rw [hcons]; rfl)
  | free i a hpc hcons =>
      apply SlotQueues.memFree
      exact hs.same rfl rfl rfl rfl (by rw [hcons]; rfl)
  | drain i que hpc hrep hitems => exact hs.drain hrep hitems
  | drainFree i a hpc =>
      apply SlotQueues.memFree
      exact hs.same rfl rfl rfl rfl rfl

theorem SlotQueues.step (hs : SlotQueues bufNum s.slots) {l : CopyLabel}
    (h : CopyEffect bufNum s l s') : SlotQueues bufNum s'.slots := by
  cases h with
  | refused | stop => exact hs
  | fill f hpc => exact hs.same rfl rfl rfl (by rw [hpc]; rfl) rfl
  | producer addr u h => exact hs.fill h
  | alloc f i a block hpc => exact hs.same rfl rfl rfl (by rw [hpc]; rfl) rfl
  | thread es tmpMsg flag h => exact hs.thread h

/-! ## The ledger of the blocks -/

/-- A number is at the address of its block, or among the freed. -/
def CopyState.numbers (s : CopyState) : Option ℕ → List ℕ
  | some a => (s.block a).toList
  | none => s.freed.reduceOption

structure CopyBlocks (s : CopyState) : Prop where
  mem : ∀ a, s.block a = none ↔ s.slots.mem a = none
  exact : Ledger.Exact s.numbers (· < s.allocs)

theorem CopyBlocks.of_eq (hs : CopyBlocks s)
    (hmem : ∀ a, s'.slots.mem a = none ↔ s.slots.mem a = none)
    (hblock : s'.block = s.block) (hallocs : s'.allocs = s.allocs)
    (hfreed : s'.freed.reduceOption = s.freed.reduceOption) : CopyBlocks s' := by
  constructor
  · intro a
    rw [hblock, hmem]
    exact hs.mem a
  · refine hs.exact.congr (fun p ↦ ?_) (fun n ↦ by rw [hallocs])
    cases p with
    | none => exact hfreed
    | some a => rw [CopyState.numbers, hblock, CopyState.numbers]

theorem CopyBlocks.memFree (hs : CopyBlocks s) (a : ℕ) : CopyBlocks (s.memFree a) := by
  rcases s.memFree_cases a with ⟨-, heq⟩ | ⟨n, hblock, heq⟩
  · rw [heq]
    exact hs.of_eq (fun _ ↦ Iff.rfl) rfl rfl (by simp [List.reduceOption_append])
  · rw [heq]
    constructor
    · intro b
      by_cases hb : b = a
      · subst hb
        simp
      · simp only [Function.update_of_ne hb]
        exact hs.mem b
    · refine hs.exact.move (p := some a) (q := none) (x := n) ⟨by simp, ?_, ?_, ?_⟩
      · simp [CopyState.numbers, hblock]
      · simp only [CopyState.numbers, List.reduceOption_append]
        exact List.perm_append_singleton _ _
      · intro p hp hp'
        cases p with
        | none => exact (hp' rfl).elim
        | some b =>
            have hb : b ≠ a := fun heq ↦ hp (heq ▸ rfl)
            simp only [CopyState.numbers, Function.update_of_ne hb]

theorem CopyBlocks.alloc (hs : CopyBlocks s) {u : SlotState} {a : ℕ} {block : List UInt8}
    (hfree : s.slots.mem a = none) (hmem : u.mem = Function.update s.slots.mem a (some block)) :
    CopyBlocks { s with
      slots := u, allocs := s.allocs + 1, block := Function.update s.block a (some s.allocs) } := by
  have hblock : s.block a = none := (hs.mem a).mpr hfree
  constructor
  · intro b
    simp only [hmem]
    by_cases hb : b = a
    · subst hb
      simp
    · simp only [Function.update_of_ne hb]
      exact hs.mem b
  · refine hs.exact.insert (p := some a) (x := s.allocs) (by simp) ?_ ?_ ?_
    · simp [CopyState.numbers, hblock]
    · intro p hp
      cases p with
      | none => rfl
      | some b =>
          have hb : b ≠ a := fun heq ↦ hp (heq ▸ rfl)
          simp only [CopyState.numbers, Function.update_of_ne hb]
    · intro n
      simp only
      omega

theorem CopyBlocks.step (hs : CopyBlocks s) {l : CopyLabel} (h : CopyEffect bufNum s l s') :
    CopyBlocks s' := by
  cases h with
  | refused | stop | fill => exact hs.of_eq (fun _ ↦ Iff.rfl) rfl rfl rfl
  | alloc f i a block hpc hfree => exact hs.alloc hfree rfl
  | producer addr u h =>
      refine hs.of_eq (fun b ↦ ?_) rfl rfl rfl
      cases h with
      | none | take | head | noMem | dead | give => exact Iff.rfl
      | copy f i a block hpc hdata hmem =>
          by_cases hb : b = a
          · subst hb
            simp [hmem]
          · simp only [Function.update_of_ne hb]
  | thread es tmpMsg flag h =>
      cases h with
      | test | fetch | dead | failed | sent | putBack | clean | tested | freeNull | null | exit
      | exitStatus | exitUnset | earse | drained | drain | drainNull =>
          exact hs.of_eq (fun _ ↦ Iff.rfl) rfl rfl rfl
      | stray =>
          exact hs.of_eq (fun _ ↦ Iff.rfl) rfl rfl (by simp [List.reduceOption_append])
      | free i a =>
          apply CopyBlocks.memFree
          exact hs.of_eq (fun _ ↦ Iff.rfl) rfl rfl rfl
      | drainFree i a =>
          apply CopyBlocks.memFree
          exact hs.of_eq (fun _ ↦ Iff.rfl) rfl rfl rfl


end OsaBase
