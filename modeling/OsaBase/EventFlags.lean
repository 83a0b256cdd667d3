import OsaBase.Event

/-!
# The flag word of an event

A consuming retrieve is for the flags in its mask, but it zeroes the whole word: the other flags
are lost to those who wait for them. A timed retrieve that was woken and finds its flags even fails
and zeroes the word. The word keeps every flag exactly as long as no consuming retrieve finds its
flags in these two ways. Whether a retrieve finds its flags is decided through the 32 bits of
`isolatedFlags`, and the end of a timed sleep through the 32 bits of `timeout_us`.
-/

open Transition Monitor

namespace OsaBase

/-! ## What a completed call makes of the word -/

/-- `eFlags & ~mask` -/
def maskOut (eFlags mask : ℕ) : ℕ := eFlags ^^^ (eFlags &&& mask)

@[simp] theorem testBit_maskOut (eFlags mask i : ℕ) :
    (maskOut eFlags mask).testBit i = (eFlags.testBit i && !mask.testBit i) := by
  rw [maskOut, Nat.testBit_xor, Nat.testBit_and]
  cases eFlags.testBit i <;> cases mask.testBit i <;> rfl

@[simp] theorem maskOut_zero (eFlags : ℕ) : maskOut eFlags 0 = eFlags := by
  simp [maskOut]

/-- The flags that a retrieve reported meet its request. -/
def EventResult.reports (r : EventResult) (c : EventCall) : Bool := r.retrieved.any c.metBy

/-- Setting replaces the word, a consuming retrieve takes the flags of its mask out of it when it
reports, and nothing else changes it. -/
def EventCall.leaves (eFlags : ℕ) (r : EventResult) : EventCall → ℕ
  | .set uEventFlags eOperation => (eventWord eFlags uEventFlags eOperation).getD eFlags
  | .retrieve uRequestedEvents eOperation uTimeOutMsec =>
    if eOperation.consumes && r.reports (.retrieve uRequestedEvents eOperation uTimeOutMsec) then
      maskOut eFlags uRequestedEvents
    else eFlags

/-- The word after the completed calls. -/
def flagsOf (log : List (EventCall × EventResult)) : ℕ :=
  log.foldl (fun eFlags x ↦ x.1.leaves eFlags x.2) 0

/-- The completed call takes the flag: a consuming retrieve with the flag in its mask, or setting
with `OSA_EVENT_AND` without it. -/
def EventCall.takes (i : ℕ) (r : EventResult) : EventCall → Bool
  | .set uEventFlags eOperation => eOperation == .and && !uEventFlags.testBit i
  | .retrieve uRequestedEvents eOperation uTimeOutMsec =>
    eOperation.consumes && r.reports (.retrieve uRequestedEvents eOperation uTimeOutMsec) &&
      uRequestedEvents.testBit i

theorem flagsOf_snoc (log : List (EventCall × EventResult)) (c : EventCall) (r : EventResult) :
    flagsOf (log ++ [(c, r)]) = c.leaves (flagsOf log) r := by
  rw [flagsOf, List.foldl_append]
  rfl

/-- A flag stays in the word through a call that does not take it. -/
theorem EventCall.testBit_leaves {c : EventCall} {r : EventResult} {eFlags i : ℕ}
    (h : eFlags.testBit i = true) (hkeep : c.takes i r = false) :
    (c.leaves eFlags r).testBit i = true := by
  cases c with
  | set f op =>
      cases op with
      | and =>
          have hf : f.testBit i = true := by simpa [takes] using hkeep
          simp [leaves, eventWord, h, hf]
      | or => simp [leaves, eventWord, h]
      | andConsume | orConsume => simpa [leaves, eventWord] using h
  | retrieve req op timeout =>
      simp only [leaves]
      split
      · next htakes =>
        have hreq : req.testBit i = false := by simpa [takes, htakes] using hkeep
        simp [h, hreq]
      · exact h

theorem testBit_foldl_leaves {log : List (EventCall × EventResult)} {eFlags i : ℕ}
    (h : eFlags.testBit i = true) (hkeep : ∀ x ∈ log, x.1.takes i x.2 = false) :
    (log.foldl (fun eFlags x ↦ x.1.leaves eFlags x.2) eFlags).testBit i = true := by
  induction log generalizing eFlags with
  | nil => exact h
  | cons x log ih =>
      apply ih
      · exact EventCall.testBit_leaves h (hkeep x List.mem_cons_self)
      · exact fun y hy ↦ hkeep y (List.mem_cons_of_mem _ hy)

/-- A flag that was set with `OSA_EVENT_OR` is there until a call takes it. -/
theorem testBit_flagsOf {pre post : List (EventCall × EventResult)} {f i : ℕ} {r : EventResult}
    (hf : f.testBit i = true) (hkeep : ∀ x ∈ post, x.1.takes i x.2 = false) :
    (flagsOf (pre ++ (.set f .or, r) :: post)).testBit i = true := by
  rw [flagsOf, List.foldl_append, List.foldl_cons]
  apply testBit_foldl_leaves _ hkeep
  simp [EventCall.leaves, eventWord, hf]

/-! ## What a pass makes of it -/

/-- The flags that a retrieve has to leave when it finds its own: those outside its mask, and all
of them when it fails. -/
def EventCall.mustKeep (eFlags : ℕ) (entry : Entry) : EventCall → ℕ
  | .retrieve uRequestedEvents _ uTimeOutMsec =>
    if entry = .resumed ∧ uTimeOutMsec ≠ osaSuspend then eFlags
    else maskOut eFlags uRequestedEvents
  | .set _ _ => 0

/-- A pass of this call zeroes flags that it has to leave. -/
def EventCall.spills (eFlags : ℕ) (entry : Entry) (c : EventCall) : Bool :=
  entry ≠ .expired && c.zeroes eFlags && c.mustKeep eFlags entry ≠ 0

theorem leaves_of_retrieved_zero {req timeout eFlags : ℕ} {op : EventOperation} {st : ℤ} :
    (EventCall.retrieve req op timeout).leaves eFlags ⟨st, some 0⟩ = eFlags := by
  simp only [EventCall.leaves]
  split
  · next h =>
    have hmet : (EventCall.retrieve req op timeout).metBy 0 = true := by
      simpa [EventResult.reports] using (Bool.and_eq_true_iff.mp h).2
    have hreq : req = 0 := by
      cases hop : op.isAnd <;> simp [EventCall.metBy, hop] at hmet
      exact hmet.symm
    rw [hreq, maskOut_zero]
  · rfl

theorem leaves_foundResult {req timeout eFlags : ℕ} {op : EventOperation} (entry : Entry)
    (hop : op.consumes = true) (hmet : (EventCall.retrieve req op timeout).metBy eFlags = true) :
    (EventCall.retrieve req op timeout).leaves eFlags (foundResult entry eFlags timeout) =
      (EventCall.retrieve req op timeout).mustKeep eFlags entry := by
  by_cases hfailed : entry = .resumed ∧ timeout ≠ osaSuspend
  · rw [foundResult, EventCall.mustKeep, if_pos hfailed, if_pos hfailed]
    simp [EventCall.leaves, EventResult.reports]
  · rw [foundResult, EventCall.mustKeep, if_neg hfailed, if_neg hfailed]
    simp [EventCall.leaves, EventResult.reports, hop, hmet]

/-- A retrieve that ends leaves the word that it is to leave, unless it spills. -/
theorem osaEventRetrieve_leaves {entry : Entry} {ev ev' : OsaThreadEvent} {req timeout : ℕ}
    {op : EventOperation} {r : EventResult} {sig : Option EventCond}
    (h : osaEventRetrieve entry ev req op timeout = .done ev' r sig) :
    ev'.eFlags = (EventCall.retrieve req op timeout).leaves ev.eFlags r ↔
      (EventCall.retrieve req op timeout).spills ev.eFlags entry = false := by
  have hseen := isolatedFlags_ne_zero_iff ev.eFlags req op timeout
  have hzeroes := EventCall.zeroes_retrieve_iff ev.eFlags req op timeout
  unfold osaEventRetrieve at h
  split at h
  · next hexp =>
    cases h
    simp [leaves_of_retrieved_zero, EventCall.spills, hexp]
  · next hexp =>
    split at h
    · next hne =>
      cases h
      have hmet := (hseen.mp hne).1
      cases hop : op.consumes with
      | false => simp [EventCall.leaves, EventCall.spills, hop, EventCall.zeroes]
      | true =>
          have hz := hzeroes.mpr ⟨hop, hne⟩
          rw [leaves_foundResult entry hop hmet]
          simp only [EventCall.spills, hz, hexp, if_true, ne_eq, not_false_eq_true, decide_true,
            Bool.true_and, decide_not, Bool.not_eq_false', decide_eq_true_eq]
          exact eq_comm
    · next hzero =>
      have hz : (EventCall.retrieve req op timeout).zeroes ev.eFlags = false := by
        rw [Bool.eq_false_iff, ne_eq, hzeroes]
        exact fun h ↦ hzero h.2
      split at h
      · cases h
        simp [leaves_of_retrieved_zero, EventCall.spills, hz]
      · cases h

theorem eventMonitor_leaves {entry : Entry} {c : EventCall} {ev ev' : OsaThreadEvent}
    {r : EventResult} {sig : Option EventCond}
    (h : eventMonitor.pass entry c ev = .done ev' r sig) :
    ev'.eFlags = c.leaves ev.eFlags r ↔ c.spills ev.eFlags entry = false := by
  cases c with
  | set f op =>
      simp only [EventCall.spills, EventCall.zeroes_set, Bool.and_false, Bool.false_and, iff_true]
      rcases osaEventSet_eq_done h with ⟨w, hw, rfl, -⟩ | ⟨hw, rfl, -⟩ <;>
        simp [EventCall.leaves, hw]
  | retrieve req op timeout => exact osaEventRetrieve_leaves h

/-! ## Every run -/

section

variable {T : Type}

/-- The word is what the completed calls make of it, and a flag that was set is there until a call
takes it. -/
structure FlagsKept (s : State T OsaThreadEvent EventCond EventCall EventResult) : Prop where
  word : s.shared.eFlags = flagsOf s.log
  kept : ∀ pre f r post i, s.log = pre ++ (.set f .or, r) :: post → f.testBit i = true →
    (∀ x ∈ post, x.1.takes i x.2 = false) → s.shared.eFlags.testBit i = true

/-- No consuming retrieve finds its flags together with a flag outside its mask, or behind a timed
sleep. -/
def WithinMask (s : State T OsaThreadEvent EventCond EventCall EventResult) :
    Label T EventCall → Prop
  | .enter t _ => ∀ x ∈ (s.phase t).ready, x.2.spills s.shared.eFlags x.1 = false
  | .invoke _ _ | .spurious _ | .expire _ => True

instance (s : State T OsaThreadEvent EventCond EventCall EventResult) (l : Label T EventCall) :
    Decidable (WithinMask s l) :=
  match l with
  | .enter t _ => inferInstanceAs
      (Decidable (∀ x ∈ (s.phase t).ready, x.2.spills s.shared.eFlags x.1 = false))
  | .invoke _ _ | .spurious _ | .expire _ => .isTrue trivial

variable {s s' : State T OsaThreadEvent EventCond EventCall EventResult}

theorem FlagsKept.of_word (h : s.shared.eFlags = flagsOf s.log) : FlagsKept s where
  word := h
  kept := fun pre f r post i hlog hf hkeep ↦ by
    rw [h, hlog]
    exact testBit_flagsOf hf hkeep

variable [Fintype T] [DecidableEq T]

/-- A step that completes no call leaves the word alone; one that does leaves what the call is to
leave, unless the call spills. -/
theorem flagsOf_step {l : Label T EventCall} (hs : s.shared.eFlags = flagsOf s.log)
    (h : step eventMonitor s l = some s') :
    s'.shared.eFlags = flagsOf s'.log ↔ WithinMask s l := by
  have hdone : ∀ {t e c a r sig woken}, (s.phase t).ready = some (e, c) →
      eventMonitor.pass e c s.shared = .done a r sig →
      (a.eFlags = flagsOf (s.log ++ [(c, r)]) ↔ WithinMask s (.enter t woken)) := by
    intro t e c a r sig woken hready hpass
    rw [flagsOf_snoc, ← hs, eventMonitor_leaves hpass]
    simp [WithinMask, hready]
  cases effect_of_step h with
  | invoke | spurious | expire => exact iff_of_true hs trivial
  | wait t e c a k hready hpass =>
      cases c with
      | set f op => exact (osaEventSet_ne_wait hpass).elim
      | retrieve req op timeout =>
          obtain ⟨rfl, hzero, -⟩ := osaEventRetrieve_wait hpass
          refine iff_of_true hs ?_
          have hnot : (EventCall.retrieve req op timeout).zeroes s.shared.eFlags = false := by
            rw [Bool.eq_false_iff, ne_eq, EventCall.zeroes_retrieve_iff]
            exact fun hz ↦ hz.2 hzero
          simp [WithinMask, hready, EventCall.spills, hnot]
  | quiet t e c a r hready hpass => exact hdone hready hpass
  | lost t e c a r k hready hpass _ => exact hdone hready hpass
  | wake t u e c d a r k hready hpass _ _ => exact hdone hready hpass

/-- In every run in which consuming retrieves find no flag outside their masks, and none behind a
timed sleep, each flag is kept until a call takes it; any other run loses flags. -/
theorem event_flags_kept_iff (T : Type) [Fintype T] [DecidableEq T] :
    (∀ s, Reach (step eventMonitor) WithinMask (start T osaEventCreate) s → FlagsKept s) ∧
    ∀ s l s', Reach (step eventMonitor) WithinMask (start T osaEventCreate) s →
      step eventMonitor s l = some s' → ¬ WithinMask s l → ¬ FlagsKept s' := by
  have hword : ∀ s, Reach (step eventMonitor) WithinMask (start T osaEventCreate) s →
      s.shared.eFlags = flagsOf s.log := by
    intro s h
    apply h.invariant (I := fun s ↦ s.shared.eFlags = flagsOf s.log) rfl
    exact fun a l b ha hok hstep ↦ (flagsOf_step ha hstep).mpr hok
  constructor
  · exact fun s h ↦ .of_word (hword s h)
  · exact fun s l s' h hstep hbad hkept ↦ hbad ((flagsOf_step (hword s h) hstep).mp hkept.word)

end

/-- A timed retrieve that is woken by the flag it asks for fails, and the flag is gone. -/
theorem event_flags_kept_timed :
    ∃ s : State (Fin 2) OsaThreadEvent EventCond EventCall EventResult,
      s.log = [(.set 1 .or, ⟨osaSok, none⟩), (.retrieve 1 .orConsume 1000, ⟨osaEfail, none⟩)] ∧
        s.shared.eFlags = 0 ∧ ¬ FlagsKept s := by
  obtain ⟨s, hs, hp⟩ := Reach.exists_of_exec (step eventMonitor) WithinMask
    (start (Fin 2) osaEventCreate)
    [.invoke 0 (.retrieve 1 .orConsume 1000), .enter 0 none, .invoke 1 (.set 1 .or),
      .enter 1 (some 0)]
    (fun s ↦ decide ((step eventMonitor s (.enter 0 none)).map (fun s' ↦ (s'.log, s'.shared)) =
        some ([(.set 1 .or, ⟨osaSok, none⟩), (.retrieve 1 .orConsume 1000, ⟨osaEfail, none⟩)],
          ⟨true, 0⟩) ∧ ¬ WithinMask s (.enter 0 none))) (by decide)
  obtain ⟨hmap, hbad⟩ := of_decide_eq_true hp
  obtain ⟨s', hstep, hend⟩ := Option.map_eq_some_iff.mp hmap
  obtain ⟨hlog, hshared⟩ := Prod.mk.inj hend
  exact ⟨s', hlog, by rw [hshared], (event_flags_kept_iff (Fin 2)).2 s _ s' hs hstep hbad⟩

/-- Flag 1 is set together with flag 0 and lost to the one who retrieves flag 0. -/
theorem event_flags_lost : ¬ ∀ s, Reach (step eventMonitor) Always
    (start (Fin 1) osaEventCreate) s → FlagsKept s := by
  intro h
  obtain ⟨s, hs, hp⟩ := Reach.exists_of_exec (step eventMonitor) Always
    (start (Fin 1) osaEventCreate)
    [.invoke 0 (.set 3 .or), .enter 0 none, .invoke 0 (.retrieve 1 .orConsume osaNoSuspend),
      .enter 0 none]
    (fun s ↦ decide (s.shared.eFlags ≠ flagsOf s.log)) (by decide)
  exact of_decide_eq_true hp (h s hs).word

/-! ## Which flags are seen -/

/-- A retrieve that does not wait stores the word if it meets the request and zero otherwise, and
one that was woken ends exactly if the word meets the request and goes back to sleep otherwise.
What it returns then depends on whether its sleep was timed. -/
structure Matches (ev : OsaThreadEvent) (req : ℕ) (op : EventOperation) : Prop where
  stored : ∃ ev', osaEventRetrieve .first ev req op osaNoSuspend = .done ev'
    ⟨osaSok, some (if (EventCall.retrieve req op osaNoSuspend).metBy ev.eFlags then ev.eFlags
      else 0)⟩ none
  woken : ∀ timeout ≠ osaNoSuspend,
    (∃ ev', osaEventRetrieve .resumed ev req op timeout = .done ev'
      (if timeout = osaSuspend then ⟨osaSok, some ev.eFlags⟩ else ⟨osaEfail, none⟩) none) ↔
      (EventCall.retrieve req op timeout).metBy ev.eFlags
  asleep : ∀ timeout ≠ osaNoSuspend,
    osaEventRetrieve .resumed ev req op timeout = .wait ev .condition ↔
      (EventCall.retrieve req op timeout).metBy ev.eFlags = false

theorem osaEventRetrieve_noSuspend (ev : OsaThreadEvent) (req : ℕ) (op : EventOperation) :
    ∃ ev', osaEventRetrieve .first ev req op osaNoSuspend = .done ev'
      ⟨osaSok, some (if isolatedFlags ev.eFlags req op ≠ 0 then ev.eFlags else 0)⟩ none := by
  by_cases h : isolatedFlags ev.eFlags req op = 0 <;> simp [osaEventRetrieve, h]

theorem osaEventRetrieve_woken (ev : OsaThreadEvent) (req timeout : ℕ) (op : EventOperation) :
    (∃ ev', osaEventRetrieve .resumed ev req op timeout = .done ev'
      (if timeout = osaSuspend then ⟨osaSok, some ev.eFlags⟩ else ⟨osaEfail, none⟩) none) ↔
      isolatedFlags ev.eFlags req op ≠ 0 := by
  by_cases h : isolatedFlags ev.eFlags req op = 0 <;> simp [osaEventRetrieve, foundResult, h]

theorem osaEventRetrieve_asleep (ev : OsaThreadEvent) (req timeout : ℕ) (op : EventOperation) :
    osaEventRetrieve .resumed ev req op timeout = .wait ev .condition ↔
      ¬ isolatedFlags ev.eFlags req op ≠ 0 := by
  by_cases h : isolatedFlags ev.eFlags req op = 0 <;> simp [osaEventRetrieve, h]

/-- Flags that meet a request above bit 31 only are not all zero. -/
theorem EventCall.ne_zero_of_aboveBit31 {eFlags req timeout : ℕ} {op : EventOperation}
    (hmet : (retrieve req op timeout).metBy eFlags = true)
    (habove : (retrieve req op timeout).aboveBit31 eFlags = true) : eFlags ≠ 0 := by
  rintro rfl
  cases hop : op.isAnd with
  | false => simp [metBy, hop] at hmet
  | true =>
      simp only [metBy, hop, if_true, Nat.zero_and, decide_eq_true_eq] at hmet
      simp [← hmet, aboveBit31, hop] at habove

/-- The request is decided by the whole word exactly if what meets it is seen in 32 bits. -/
theorem event_matches_iff (ev : OsaThreadEvent) (req : ℕ) (op : EventOperation) :
    Matches ev req op ↔
      ((EventCall.retrieve req op osaNoSuspend).metBy ev.eFlags = true →
        (EventCall.retrieve req op osaNoSuspend).aboveBit31 ev.eFlags = false) := by
  have hseen : ∀ timeout, _ := isolatedFlags_ne_zero_iff ev.eFlags req op
  constructor
  · rintro ⟨⟨ev', hstored⟩, -, -⟩ hmet
    rw [Bool.eq_false_iff]
    intro habove
    have hzero : ¬ isolatedFlags ev.eFlags req op ≠ 0 := by
      intro hne
      rw [((hseen osaNoSuspend).mp hne).2] at habove
      cases habove
    obtain ⟨ev'', hcode⟩ := osaEventRetrieve_noSuspend ev req op
    rw [if_neg hzero, hstored, if_pos hmet] at hcode
    simp only [Pass.done.injEq, EventResult.mk.injEq, Option.some.injEq] at hcode
    exact EventCall.ne_zero_of_aboveBit31 hmet habove hcode.2.1.2
  · intro hlow
    have hmet : ∀ timeout, isolatedFlags ev.eFlags req op ≠ 0 ↔
        (EventCall.retrieve req op timeout).metBy ev.eFlags = true := by
      intro timeout
      rw [hseen timeout, and_iff_left_iff_imp]
      exact hlow
    constructor
    · have hcode := osaEventRetrieve_noSuspend ev req op
      simpa only [hmet osaNoSuspend] using hcode
    · intro timeout _
      rw [osaEventRetrieve_woken, hmet timeout]
    · intro timeout _
      rw [osaEventRetrieve_asleep, hmet timeout, Bool.not_eq_true]

/-- Flag 32 is set and asked for, and not seen. -/
theorem event_flag_32_unseen :
    ¬ ∀ f req op, ∀ ev' r sig, osaEventSet osaEventCreate f .or = .done ev' r sig →
      Matches ev' req op := by
  intro h
  obtain ⟨ev', hstored⟩ := (h (2 ^ 32) (2 ^ 32) .or _ _ _ rfl).stored
  have hzero : osaEventRetrieve .first ⟨true, osaEventCreate.eFlags ||| 2 ^ 32⟩ (2 ^ 32) .or
      osaNoSuspend = .done ⟨true, 2 ^ 32⟩ ⟨osaSok, some 0⟩ none := by decide
  rw [hzero] at hstored
  simp only [Pass.done.injEq, EventResult.mk.injEq, Option.some.injEq] at hstored
  exact absurd hstored.2.1.2 (by decide)

/-! ## When a timed sleep ends -/

/-- `struct timeval`, not before 1970. -/
structure Timeval where
  tvSec : ℕ
  tvUsec : ℕ
  deriving DecidableEq, Repr

/-- The time until which `OSA_EventRetrieve` sleeps; `timeout_us` is `unsigned`. -/
def eventTimeout (now : Timeval) (uTimeOutMsec : ℕ) : Timespec :=
  let timeoutUs := uint32 ((now.tvUsec + 1000 * uTimeOutMsec) % 2 ^ 64)
  ⟨now.tvSec + timeoutUs / 1000000, uint32 (timeoutUs % 1000000 * 1000)⟩

/-- The time is `uTimeOutMsec` milliseconds from now. -/
structure Timespec.After (timeout : Timespec) (now : Timeval) (uTimeOutMsec : ℕ) : Prop where
  normal : timeout.tvNsec < 10 ^ 9
  exact : timeout.tvSec * 10 ^ 9 + timeout.tvNsec =
    (now.tvSec * 10 ^ 6 + now.tvUsec) * 1000 + uTimeOutMsec * 10 ^ 6

/-- The sleep ends when it should exactly if the microseconds fit 32 bits. -/
theorem event_timeout_iff (now : Timeval) (uTimeOutMsec : ℕ) :
    (eventTimeout now uTimeOutMsec).After now uTimeOutMsec ↔
      now.tvUsec + 1000 * uTimeOutMsec < 2 ^ 32 := by
  have hus : uint32 ((now.tvUsec + 1000 * uTimeOutMsec) % 2 ^ 64) =
      (now.tvUsec + 1000 * uTimeOutMsec) % 2 ^ 32 := by
    simp only [uint32]
    omega
  have hnsec : ∀ us : ℕ, uint32 (us % 1000000 * 1000) = us % 1000000 * 1000 := by
    intro us
    apply uint32_of_lt
    omega
  constructor
  · rintro ⟨-, hexact⟩
    simp only [eventTimeout, hus, hnsec] at hexact
    omega
  · intro hlt
    constructor
    · simp only [eventTimeout, hnsec]
      omega
    · simp only [eventTimeout, hus, hnsec]
      omega

/-- Seventy-two minutes from the start of a second. -/
theorem event_timeout_72_minutes :
    ¬ ∀ now ms, now.tvUsec < 10 ^ 6 → (eventTimeout now ms).After now ms := by
  intro h
  have hexact := (h ⟨0, 0⟩ 4320000 (by decide)).exact
  revert hexact
  decide

end OsaBase
