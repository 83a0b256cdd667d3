import OsaBase.Lib.Monitor
import OsaBase.Osa

/-!
# The event flags `osa_event.c`

`eFlags` and the masks are `unsigned long`, `isolatedFlags` is `unsigned`. All the waiters of an
event sleep on its one condition, each for a mask of its own, and `OSA_EventSet` signals it once.
The pointer arguments are not `NULL` and the `pthread` calls succeed.
-/

open Monitor

namespace OsaBase

structure OsaThreadEvent where
  bSignaled : Bool
  eFlags : ℕ
  deriving DecidableEq, Repr

inductive EventOperation
  | and
  | andConsume
  | or
  | orConsume
  deriving DecidableEq, Repr

inductive EventCond
  | condition
  deriving DecidableEq, Repr

inductive EventCall
  | set (uEventFlags : ℕ) (eOperation : EventOperation)
  | retrieve (uRequestedEvents : ℕ) (eOperation : EventOperation) (uTimeOutMsec : ℕ)
  deriving DecidableEq, Repr

/-- The status of a call and what it stored at `*pRetrievedEvents`. -/
structure EventResult where
  status : ℤ
  retrieved : Option ℕ
  deriving DecidableEq, Repr

abbrev EventPass := Pass OsaThreadEvent EventCond EventResult

def osaSuspend : ℕ := 0xFFFFFFFF

def osaNoSuspend : ℕ := 0

/-- What `OSA_EventCreate` stores in the block it allocates. -/
def osaEventCreate : OsaThreadEvent := ⟨false, 0⟩

def EventOperation.isAnd : EventOperation → Bool
  | .and | .andConsume => true
  | .or | .orConsume => false

def EventOperation.consumes : EventOperation → Bool
  | .andConsume | .orConsume => true
  | .and | .or => false

/-- The flag word after the `switch` of `OSA_EventSet`; the consuming operations are refused. -/
def eventWord (eFlags uEventFlags : ℕ) : EventOperation → Option ℕ
  | .and => some (eFlags &&& uEventFlags)
  | .or => some (eFlags ||| uEventFlags)
  | .andConsume | .orConsume => none

def osaEventSet (ev : OsaThreadEvent) (uEventFlags : ℕ) (eOperation : EventOperation) :
    EventPass :=
  match eventWord ev.eFlags uEventFlags eOperation with
  | some eFlags => .done ⟨true, eFlags⟩ ⟨osaSok, none⟩ (some .condition)
  | none => .done ev ⟨osaEfail, none⟩ none

def isolatedFlags (eFlags uRequestedEvents : ℕ) (eOperation : EventOperation) : ℕ :=
  let isolatedFlags := uint32 (eFlags &&& uRequestedEvents)
  if eOperation.isAnd then
    if isolatedFlags = uRequestedEvents then 1 else 0
  else isolatedFlags

/-- What a retrieve that has found its flags returns and stores. The loop of a timed sleep ends
with the status the function began with, and nothing has been stored then. -/
def foundResult (entry : Entry) (eFlags uTimeOutMsec : ℕ) : EventResult :=
  if entry = .resumed ∧ uTimeOutMsec ≠ osaSuspend then ⟨osaEfail, none⟩
  else ⟨osaSok, some eFlags⟩

/-- One pass of `OSA_EventRetrieve`; a timed sleep that ran out ends the call with the
`isolatedFlags` of the pass before, which are zero. -/
def osaEventRetrieve (entry : Entry) (ev : OsaThreadEvent) (uRequestedEvents : ℕ)
    (eOperation : EventOperation) (uTimeOutMsec : ℕ) : EventPass :=
  if entry = .expired then
    .done ev ⟨osaSok, some 0⟩ none
  else if isolatedFlags ev.eFlags uRequestedEvents eOperation ≠ 0 then
    .done (if eOperation.consumes then { ev with eFlags := 0 } else ev)
      (foundResult entry ev.eFlags uTimeOutMsec) none
  else if entry = .first ∧ uTimeOutMsec = osaNoSuspend then
    .done ev ⟨osaSok, some 0⟩ none
  else
    .wait ev .condition

def eventMonitor : Monitor OsaThreadEvent EventCond EventCall EventResult where
  pass := fun entry c ev ↦
    match c with
    | .set uEventFlags eOperation => osaEventSet ev uEventFlags eOperation
    | .retrieve uRequestedEvents eOperation uTimeOutMsec =>
      osaEventRetrieve entry ev uRequestedEvents eOperation uTimeOutMsec
  timed := fun
    | .retrieve _ _ uTimeOutMsec => uTimeOutMsec ≠ osaSuspend ∧ uTimeOutMsec ≠ osaNoSuspend
    | .set _ _ => false

/-! ## When a request is met -/

namespace EventCall

/-- The flag word meets the request: any bit of the mask is set, or all of them. -/
def metBy (eFlags : ℕ) : EventCall → Bool
  | .retrieve uRequestedEvents eOperation _ =>
    if eOperation.isAnd then eFlags &&& uRequestedEvents = uRequestedEvents
    else eFlags &&& uRequestedEvents ≠ 0
  | .set _ _ => false

/-- What meets the request does not fit the 32 bits of `isolatedFlags`. -/
def aboveBit31 (eFlags : ℕ) : EventCall → Bool
  | .retrieve uRequestedEvents eOperation _ =>
    if eOperation.isAnd then 2 ^ 32 ≤ uRequestedEvents
    else (eFlags &&& uRequestedEvents) % 2 ^ 32 = 0
  | .set _ _ => false

/-- A pass of this call zeroes the flag word. -/
def zeroes (eFlags : ℕ) : EventCall → Bool
  | .retrieve uRequestedEvents eOperation uTimeOutMsec =>
    eOperation.consumes &&
      (EventCall.retrieve uRequestedEvents eOperation uTimeOutMsec).metBy eFlags &&
      !(EventCall.retrieve uRequestedEvents eOperation uTimeOutMsec).aboveBit31 eFlags
  | .set _ _ => false

end EventCall

@[simp] theorem foundResult_first (eFlags timeout : ℕ) :
    foundResult .first eFlags timeout = ⟨osaSok, some eFlags⟩ := rfl

/-- The code sees a request as met when it is met by bits below bit 32. -/
theorem isolatedFlags_ne_zero_iff (eFlags req : ℕ) (op : EventOperation) (timeout : ℕ) :
    isolatedFlags eFlags req op ≠ 0 ↔
      (EventCall.retrieve req op timeout).metBy eFlags = true ∧
        (EventCall.retrieve req op timeout).aboveBit31 eFlags = false := by
  cases hop : op.isAnd with
  | false =>
      simp only [isolatedFlags, uint32, EventCall.metBy, EventCall.aboveBit31, hop,
        decide_eq_true_eq, decide_eq_false_iff_not, Bool.false_eq_true, if_false]
      constructor
      · intro h
        exact ⟨fun hzero ↦ h (by simp [hzero]), h⟩
      · exact fun h ↦ h.2
  | true =>
      have hseen : isolatedFlags eFlags req op ≠ 0 ↔ uint32 (eFlags &&& req) = req := by
        by_cases h : uint32 (eFlags &&& req) = req <;> simp [isolatedFlags, hop, h]
      rw [hseen, uint32]
      simp only [EventCall.metBy, EventCall.aboveBit31, hop, decide_eq_true_eq,
        decide_eq_false_iff_not, if_true, not_le]
      have hle : eFlags &&& req ≤ req := Nat.and_le_right
      constructor
      · intro h
        have hlt : req < 2 ^ 32 := by omega
        exact ⟨by rwa [Nat.mod_eq_of_lt (hle.trans_lt hlt)] at h, hlt⟩
      · rintro ⟨h, hlt⟩
        rw [h, Nat.mod_eq_of_lt hlt]

namespace EventCall

@[simp] theorem zeroes_set (eFlags f : ℕ) (op : EventOperation) :
    (set f op).zeroes eFlags = false := rfl

theorem zeroes_retrieve_iff (eFlags req : ℕ) (op : EventOperation) (timeout : ℕ) :
    (retrieve req op timeout).zeroes eFlags = true ↔
      op.consumes = true ∧ isolatedFlags eFlags req op ≠ 0 := by
  rw [isolatedFlags_ne_zero_iff eFlags req op timeout]
  simp [zeroes, and_assoc]

/-- A request that an empty flag word meets never sleeps. -/
theorem metBy_zero_of_isolatedFlags {eFlags req timeout : ℕ} {op : EventOperation}
    (h : isolatedFlags eFlags req op = 0) :
    (retrieve req op timeout).metBy 0 = false := by
  cases hop : op.isAnd with
  | false => simp [metBy, hop]
  | true =>
      simp only [metBy, hop, if_true, Nat.zero_and, decide_eq_false_iff_not]
      rintro rfl
      simp [isolatedFlags, hop, uint32] at h

end EventCall

/-! ## What a pass can do -/

section

variable {entry : Entry} {ev ev' : OsaThreadEvent} {req timeout : ℕ} {op : EventOperation}
  {r : EventResult} {sig : Option EventCond}

/-- A retrieve that ends signals nobody; it zeroes the flags or leaves the event alone. -/
theorem osaEventRetrieve_done (h : osaEventRetrieve entry ev req op timeout = .done ev' r sig) :
    sig = none ∧ ((ev'.eFlags = 0 ∧ op.consumes = true) ∨
      (ev' = ev ∧ (entry = .expired ∨
        (EventCall.retrieve req op timeout).zeroes ev.eFlags = false))) := by
  have hzeroes := EventCall.zeroes_retrieve_iff ev.eFlags req op timeout
  unfold osaEventRetrieve at h
  split at h
  · next hentry =>
    cases h
    exact ⟨rfl, Or.inr ⟨rfl, Or.inl hentry⟩⟩
  · split at h
    · cases h
      cases hop : op.consumes with
      | true => exact ⟨rfl, Or.inl ⟨rfl, rfl⟩⟩
      | false =>
          refine ⟨rfl, Or.inr ⟨rfl, Or.inr ?_⟩⟩
          rw [Bool.eq_false_iff, ne_eq, hzeroes, hop]
          simp
    · next hzero =>
      split at h
      · cases h
        refine ⟨rfl, Or.inr ⟨rfl, Or.inr ?_⟩⟩
        rw [Bool.eq_false_iff, ne_eq, hzeroes]
        exact fun h ↦ hzero h.2
      · cases h

theorem osaEventRetrieve_wait {k : EventCond}
    (h : osaEventRetrieve entry ev req op timeout = .wait ev' k) :
    ev' = ev ∧ isolatedFlags ev.eFlags req op = 0 ∧ entry ≠ .expired ∧
      ¬ (entry = .first ∧ timeout = osaNoSuspend) := by
  unfold osaEventRetrieve at h
  split at h
  · cases h
  · split at h
    · cases h
    · next hzero =>
      split at h
      · cases h
      · cases h
        exact ⟨rfl, not_not.mp hzero, ‹_›, ‹_›⟩

theorem osaEventSet_eq_done {uEventFlags : ℕ}
    (h : osaEventSet ev uEventFlags op = .done ev' r sig) :
    (∃ f, eventWord ev.eFlags uEventFlags op = some f ∧ ev' = ⟨true, f⟩ ∧
        sig = some .condition) ∨
      (eventWord ev.eFlags uEventFlags op = none ∧ ev' = ev ∧ sig = none) := by
  unfold osaEventSet at h
  split at h
  · next f hf =>
    cases h
    exact Or.inl ⟨f, hf, rfl, rfl⟩
  · next hf =>
    cases h
    exact Or.inr ⟨hf, rfl, rfl⟩

theorem osaEventSet_ne_wait {uEventFlags : ℕ} {k : EventCond} :
    osaEventSet ev uEventFlags op ≠ .wait ev' k := by
  intro h
  unfold osaEventSet at h
  split at h <;> cases h

end

end OsaBase
