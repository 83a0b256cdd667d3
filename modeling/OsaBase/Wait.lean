import Mathlib.Algebra.Ring.Nat
import Mathlib.Tactic.Cases
import OsaBase.Lib.Loops
import OsaBase.Osa

/-!
# Waiting in `osa.c`

`OSA_waitMsecs` sleeps with `nanosleep`, which a signal may interrupt. An interrupted call returns
`-1` and stores the exact time not slept; any other call sleeps its whole delay. The wait starts
again only where both fields of that time are positive: a remainder below one second, or of whole
seconds, ends it.
-/

namespace OsaBase

def Timespec.nsecs (t : Timespec) : ℕ := t.tvSec * 10 ^ 9 + t.tvNsec

/-- The normalised value: `tv_nsec` is below one second. -/
def Timespec.ofNsecs (n : ℕ) : Timespec := ⟨n / 10 ^ 9, n % 10 ^ 9⟩

@[simp] theorem Timespec.nsecs_ofNsecs (n : ℕ) : (Timespec.ofNsecs n).nsecs = n := by
  have h := Nat.div_add_mod n (10 ^ 9)
  rw [Nat.mul_comm] at h
  exact h

/-- What a call of `nanosleep` gives back, and how long it slept. -/
structure Nanosleep where
  ret : ℤ
  remainTime : Timespec
  slept : ℕ
  deriving DecidableEq, Repr

/-- `some n`: a signal arrives after `n` nanoseconds at the latest. A call that is not interrupted
leaves `remainTime` alone. -/
def nanosleep (delayTime remainTime : Timespec) : Option ℕ → Nanosleep
  | none => ⟨0, remainTime, delayTime.nsecs⟩
  | some n => ⟨-1, Timespec.ofNsecs (delayTime.nsecs - n), min n delayTime.nsecs⟩

/-- The two variables of `OSA_waitMsecs`, and how long it has slept. -/
structure WaitState where
  delayTime : Timespec
  remainTime : Timespec
  slept : ℕ
  deriving DecidableEq, Repr

/-- One pass of the loop of `OSA_waitMsecs`; what it returns is the time slept. -/
def waitTurn (s : WaitState) (signal : Option ℕ) : WaitState ⊕ ℕ :=
  let call := nanosleep s.delayTime s.remainTime signal
  if call.ret < 0 ∧ call.remainTime.tvSec > 0 ∧ call.remainTime.tvNsec > 0 then
    .inl ⟨call.remainTime, call.remainTime, s.slept + call.slept⟩
  else .inr (s.slept + call.slept)

def waitLoop : Loop WaitState (Option ℕ) ℕ where
  finish _ := none
  turn := waitTurn

/-- `remainTime` is not set at the entry. -/
def waitStart (msecs : ℕ) (remainTime : Timespec) : WaitState :=
  ⟨⟨msecs / 1000, msecs % 1000 * 1000000⟩, remainTime, 0⟩

/-- The time `OSA_waitMsecs` sleeps when these signals arrive, one for each call of `nanosleep`;
`none`: it is still asleep. -/
def osaWaitMsecs (msecs : ℕ) (remainTime : Timespec) (signals : List (Option ℕ)) : Option ℕ :=
  waitLoop.run (waitStart msecs remainTime) signals

theorem waitStart_nsecs (msecs : ℕ) (remainTime : Timespec) :
    (waitStart msecs remainTime).delayTime.nsecs = msecs * 10 ^ 6 := by
  simp only [waitStart, Timespec.nsecs]
  omega

/-- The loop goes on with such a remainder: more than a second, and no whole number of them. -/
def Restarts (n : ℕ) : Prop := 10 ^ 9 < n ∧ ¬10 ^ 9 ∣ n

instance : DecidablePred Restarts := fun _ ↦ inferInstanceAs (Decidable (_ ∧ _))

theorem restarts_iff (n : ℕ) :
    Restarts n ↔ (Timespec.ofNsecs n).tvSec > 0 ∧ (Timespec.ofNsecs n).tvNsec > 0 := by
  simp only [Restarts, Timespec.ofNsecs]
  omega

/-- An interrupted sleep either starts again for exactly what is left or ends the wait. -/
theorem waitTurn_some (s : WaitState) (n : ℕ) :
    (Restarts (s.delayTime.nsecs - n) ∧
      ∃ s', waitTurn s (some n) = .inl s' ∧ s'.delayTime.nsecs = s.delayTime.nsecs - n ∧
        s'.slept + s'.delayTime.nsecs = s.slept + s.delayTime.nsecs) ∨
    (¬Restarts (s.delayTime.nsecs - n) ∧
      waitTurn s (some n) = .inr (s.slept + min n s.delayTime.nsecs)) := by
  have hret : (-1 : ℤ) < 0 := by decide
  by_cases hrestarts : Restarts (s.delayTime.nsecs - n)
  · refine Or.inl ⟨hrestarts, ?_⟩
    have hfields := (restarts_iff _).mp hrestarts
    refine ⟨_, by rw [waitTurn, nanosleep, if_pos ⟨hret, hfields⟩], by simp, ?_⟩
    simp only [Timespec.nsecs_ofNsecs]
    omega
  · refine Or.inr ⟨hrestarts, ?_⟩
    have hfields := mt (restarts_iff _).mpr hrestarts
    rw [waitTurn, nanosleep, if_neg fun h ↦ hfields h.2]

/-- No interruption of a sleep of `d` nanoseconds ends the wait with something left. -/
def WaitsOut (d : ℕ) (interruptions : List ℕ) : Prop :=
  ∀ k < interruptions.length,
    d - (interruptions.take (k + 1)).sum = 0 ∨ Restarts (d - (interruptions.take (k + 1)).sum)

theorem waitsOut_nil (d : ℕ) : WaitsOut d [] := fun k hk ↦ by cases hk

theorem waitsOut_cons {d n : ℕ} {interruptions : List ℕ} :
    WaitsOut d (n :: interruptions) ↔
      (d - n = 0 ∨ Restarts (d - n)) ∧ WaitsOut (d - n) interruptions := by
  constructor
  · intro h
    refine ⟨by simpa using h 0 (by simp), fun k hk ↦ ?_⟩
    simpa [Nat.sub_add_eq] using h (k + 1) (by simpa using hk)
  · rintro ⟨hfirst, hrest⟩ k hk
    cases k with
    | zero => simpa using hfirst
    | succ k => simpa [Nat.sub_add_eq] using hrest k (by simpa using hk)

theorem waitsOut_zero (interruptions : List ℕ) : WaitsOut 0 interruptions :=
  fun _ _ ↦ Or.inl (Nat.zero_sub _)

/-- The loop returns once the interruptions cease; what was left of the delay has been slept exactly
when no interruption ended the wait early. -/
theorem waitLoop_run (interruptions : List ℕ) (s : WaitState) :
    ∃ slept, waitLoop.run s (interruptions.map some ++ [none]) = some slept ∧
      (s.slept + s.delayTime.nsecs ≤ slept ↔ WaitsOut s.delayTime.nsecs interruptions) := by
  induction interruptions generalizing s with
  | nil =>
      exact ⟨s.slept + s.delayTime.nsecs, Loop.run_cons_inr rfl rfl, by simp [waitsOut_nil]⟩
  | cons n interruptions ih =>
      rcases waitTurn_some s n with ⟨hrestarts, s', hturn, hdelay, hslept⟩ | ⟨hstops, hturn⟩
      · obtain ⟨slept, hrun, hiff⟩ := ih s'
        refine ⟨slept, (Loop.run_cons_inl rfl hturn).trans hrun, ?_⟩
        rw [← hslept, hiff, waitsOut_cons, hdelay]
        exact (and_iff_right (Or.inr hrestarts)).symm
      · refine ⟨s.slept + min n s.delayTime.nsecs, Loop.run_cons_inr rfl hturn, ?_⟩
        rw [waitsOut_cons]
        constructor
        · intro hfull
          have hzero : s.delayTime.nsecs - n = 0 := by omega
          refine ⟨Or.inl hzero, ?_⟩
          rw [hzero]
          exact waitsOut_zero interruptions
        · rintro ⟨hzero | hrestarts, -⟩
          · omega
          · exact absurd hrestarts hstops

/-- The wait ends once the interruptions cease, and only after the full time. -/
def WaitsFully (msecs : ℕ) (remainTime : Timespec) (interruptions : List ℕ) : Prop :=
  ∃ slept, osaWaitMsecs msecs remainTime (interruptions.map some ++ [none]) = some slept ∧
    msecs * 10 ^ 6 ≤ slept

/-- The full time is waited exactly when every interruption leaves nothing, or more than a second
and no whole number of seconds. The wait ends in any case. -/
theorem osaWaitMsecs_waitsFully_iff (msecs : ℕ) (remainTime : Timespec)
    (interruptions : List ℕ) :
    (WaitsFully msecs remainTime interruptions ↔ WaitsOut (msecs * 10 ^ 6) interruptions) ∧
      (osaWaitMsecs msecs remainTime (interruptions.map some ++ [none])).isSome := by
  obtain ⟨slept, hrun, hiff⟩ := waitLoop_run interruptions (waitStart msecs remainTime)
  rw [waitStart_nsecs] at hiff
  have hzero : (waitStart msecs remainTime).slept = 0 := rfl
  rw [hzero, Nat.zero_add] at hiff
  refine ⟨?_, by rw [osaWaitMsecs, hrun]; rfl⟩
  rw [← hiff]
  constructor
  · rintro ⟨slept', hrun', hle⟩
    rw [osaWaitMsecs, hrun] at hrun'
    exact Option.some.inj hrun' ▸ hle
  · exact fun hle ↦ ⟨slept, hrun, hle⟩

/-- Half a second, interrupted after a nanosecond, ends there. -/
theorem wait_cut_short : ¬WaitsFully 500 ⟨0, 0⟩ [1] := by
  rintro ⟨slept, hrun, hle⟩
  have hone : osaWaitMsecs 500 ⟨0, 0⟩ ([1].map some ++ [none]) = some 1 := by decide
  rw [hone] at hrun
  have hslept := Option.some.inj hrun
  omega

end OsaBase
