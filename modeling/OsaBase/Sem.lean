import OsaBase.Lib.Monitor
import OsaBase.Osa

/-!
# The counting semaphore `osa_sem.c`

The loop of `OSA_semWait` re-tests from the top after a wake-up, so one function models its
first pass and every resumed one. A signal on a full semaphore changes nothing and wakes
nobody.
-/

open Monitor

namespace OsaBase

structure OsaSemHndl where
  count : ℕ
  maxCount : ℕ
  deriving DecidableEq, Repr

inductive SemCond
  | cond
  deriving DecidableEq, Repr

inductive SemCall
  | wait (timeout : ℕ)
  | signal
  deriving DecidableEq, Repr

abbrev SemPass := Pass OsaSemHndl SemCond ℤ

/-- `initStatus` is the or of the results of the four `pthread` initialisations. -/
def osaSemCreate (maxCount initVal : ℕ) (initStatus : ℤ) : ℤ × OsaSemHndl :=
  let maxCount := if maxCount = 0 then 1 else maxCount
  (initStatus, ⟨if initVal > maxCount then maxCount else initVal, maxCount⟩)

def osaSemWait (hndl : OsaSemHndl) (timeout : ℕ) : SemPass :=
  if 0 < hndl.count then
    .done { hndl with count := hndl.count - 1 } osaSok none
  else if timeout = osaTimeoutNone then
    .done hndl osaEfail none
  else
    .wait hndl .cond

def osaSemSignal (hndl : OsaSemHndl) : SemPass :=
  if hndl.count < hndl.maxCount then
    .done { hndl with count := uint32 (hndl.count + 1) } osaSok (some .cond)
  else
    .done hndl osaSok none

def semMonitor : Monitor OsaSemHndl SemCond SemCall ℤ where
  pass := fun _ c hndl ↦
    match c with
    | .wait timeout => osaSemWait hndl timeout
    | .signal => osaSemSignal hndl

namespace OsaSemHndl

/-- The count of a semaphore made for at most `cap` units never leaves its bound. -/
structure WF (cap : ℕ) (hndl : OsaSemHndl) : Prop where
  maxCount_eq : hndl.maxCount = cap
  maxCount_lt : cap < 2 ^ 32
  count_le : hndl.count ≤ hndl.maxCount

variable {cap : ℕ} {hndl hndl' : OsaSemHndl} {timeout : ℕ} {r : ℤ} {sig : Option SemCond}

theorem osaSemWait_done (h : osaSemWait hndl timeout = .done hndl' r sig) :
    sig = none ∧ hndl'.maxCount = hndl.maxCount ∧
      (r = osaSok ∧ hndl'.count + 1 = hndl.count ∨
        r = osaEfail ∧ hndl' = hndl ∧ timeout = osaTimeoutNone) := by
  unfold osaSemWait at h
  split at h
  · cases h
    exact ⟨rfl, rfl, Or.inl ⟨rfl, Nat.sub_add_cancel ‹0 < hndl.count›⟩⟩
  · split at h
    · cases h
      exact ⟨rfl, rfl, Or.inr ⟨rfl, rfl, ‹_›⟩⟩
    · cases h

theorem osaSemWait_wait {k : SemCond} (h : osaSemWait hndl timeout = .wait hndl' k) :
    hndl' = hndl ∧ hndl.count = 0 ∧ timeout ≠ osaTimeoutNone := by
  unfold osaSemWait at h
  split at h
  · cases h
  · next hzero =>
    split at h
    · cases h
    · cases h
      exact ⟨rfl, Nat.eq_zero_of_not_pos hzero, ‹_›⟩

theorem osaSemSignal_done (hwf : hndl.WF cap) (h : osaSemSignal hndl = .done hndl' r sig) :
    hndl'.maxCount = hndl.maxCount ∧
      (sig = some .cond ∧ hndl'.count = hndl.count + 1 ∧ hndl.count < hndl.maxCount ∨
        sig = none ∧ hndl' = hndl) := by
  unfold osaSemSignal at h
  split at h
  · next hroom =>
    cases h
    have hlt := hwf.maxCount_lt
    have hcap := hwf.maxCount_eq
    exact ⟨rfl, Or.inl ⟨rfl, uint32_of_lt (by omega), hroom⟩⟩
  · cases h
    exact ⟨rfl, Or.inr ⟨rfl, rfl⟩⟩

theorem osaSemSignal_wait {k : SemCond} : osaSemSignal hndl ≠ .wait hndl' k := by
  intro h
  unfold osaSemSignal at h
  split at h <;> cases h

theorem WF.done {e : Entry} {c : SemCall} (hwf : hndl.WF cap)
    (h : semMonitor.pass e c hndl = .done hndl' r sig) : hndl'.WF cap := by
  obtain ⟨hcap, hlt, hle⟩ := hwf
  cases c with
  | wait timeout =>
      obtain ⟨-, hmax, ⟨-, hcount⟩ | ⟨-, rfl, -⟩⟩ := osaSemWait_done h
      · exact ⟨hmax.trans hcap, hlt, by omega⟩
      · exact ⟨hcap, hlt, hle⟩
  | signal =>
      obtain ⟨hmax, ⟨-, hcount, hroom⟩ | ⟨-, rfl⟩⟩ := osaSemSignal_done ⟨hcap, hlt, hle⟩ h
      · exact ⟨hmax.trans hcap, hlt, by omega⟩
      · exact ⟨hcap, hlt, hle⟩

end OsaSemHndl

theorem osaSemCreate_wf {maxCount initVal : ℕ} {initStatus : ℤ} (hlt : maxCount < 2 ^ 32) :
    (osaSemCreate maxCount initVal initStatus).2.WF
      (osaSemCreate maxCount initVal initStatus).2.maxCount where
  maxCount_eq := rfl
  maxCount_lt := by
    simp only [osaSemCreate]
    split <;> omega
  count_le := by
    simp only [osaSemCreate]
    split <;> split <;> omega

end OsaBase
