import OsaBase.Lib.Loops
import OsaBase.Socket

/-!
# Timeouts of `OSA_tcpSndNonblockFd`

The send loop with the calls it makes. It counts the waits that time out and is to try again, but a
timeout takes the descriptor out of the set and nothing puts it back: every later wait of the call
is one for nothing. Schedules of answers are endless here, so that a call always comes to its end.
-/

namespace OsaBase

inductive SndCall
  | select (ret : ℤ)
  | send (off len : ℕ) (ret : ℤ)
  deriving DecidableEq, Repr

/-- The locals of the loop, and the calls made so far. -/
structure SndState where
  tries : ℕ
  sndSet : Bool
  sndTotalLen : ℕ
  calls : List SndCall
  deriving DecidableEq, Repr

def SndState.start : SndState := ⟨0, true, 0, []⟩

def sndTurn (sndTempLen : ℕ) (s : SndState) (e : SndEvent) : SndState ⊕ (ℤ × SndState) :=
  let retSelect := (select s.sndSet e).1
  let s := { s with sndSet := (select s.sndSet e).2, calls := s.calls ++ [.select retSelect] }
  if retSelect < 0 then .inr (osaEfail, s)
  else if retSelect = 0 then
    if s.tries > 5 then .inr (osaEfail, s) else .inl { s with tries := s.tries + 1 }
  else if s.sndSet then
    let len := sndTempLen - s.sndTotalLen
    let sndBytes := min e.taken len
    let s := { s with calls := s.calls ++ [.send s.sndTotalLen len sndBytes] }
    if sndBytes ≤ 0 then .inr (osaEfail, s)
    else .inl { s with sndTotalLen := s.sndTotalLen + sndBytes }
  else .inr (osaEfail, s)

def sndCallLoop (sndTempLen : ℕ) : Loop SndState SndEvent (ℤ × SndState) where
  finish := fun s ↦ if s.sndTotalLen < sndTempLen then none else some (osaSok, s)
  turn := sndTurn sndTempLen

/-- The loop is that of `OSA_tcpSndNonblockFd`. -/
theorem sndLoop_eq_run (buf : List UInt8) (len : ℕ) (s : SndState) (es : List SndEvent) :
    sndLoop buf len s.tries s.sndSet s.sndTotalLen es = ((sndCallLoop len).run s es).map
      fun x ↦ ⟨x.1, x.2.sndTotalLen, buf.take x.2.sndTotalLen⟩ := by
  induction es generalizing s with
  | nil =>
      by_cases hlt : s.sndTotalLen < len <;> simp [sndLoop, Loop.run, sndCallLoop, hlt]
  | cons e es ih =>
      by_cases hlt : s.sndTotalLen < len
      · cases e with
        | selectError => simp [sndLoop, Loop.run, sndCallLoop, hlt, sndTurn, select]
        | notWritable =>
            by_cases htries : s.tries > 5
            · simp [sndLoop, Loop.run, sndCallLoop, hlt, sndTurn, select, htries]
            · simp only [sndLoop, Loop.run, sndCallLoop, hlt, sndTurn, select, htries, if_true,
                if_false, lt_irrefl]
              exact ih ⟨s.tries + 1, false, s.sndTotalLen, s.calls ++ [.select 0]⟩
        | writable n =>
            cases hset : s.sndSet with
            | true =>
                by_cases hpos : min n (len - s.sndTotalLen) ≤ 0
                · simp [sndLoop, Loop.run, sndCallLoop, hlt, sndTurn, select, hset, SndEvent.taken,
                    hpos]
                · simp only [sndLoop, Loop.run, sndCallLoop, hlt, sndTurn, select, hset,
                    SndEvent.taken, hpos, if_true, if_false, one_ne_zero,
                    show ¬ (1 : ℤ) < 0 by decide]
                  exact ih ⟨s.tries, true, s.sndTotalLen + min n (len - s.sndTotalLen), _⟩
            | false =>
                by_cases htries : s.tries > 5
                · simp [sndLoop, Loop.run, sndCallLoop, hlt, sndTurn, select, hset, htries]
                · simp only [sndLoop, Loop.run, sndCallLoop, hlt, sndTurn, select, hset, htries,
                    if_true, if_false]
                  exact ih ⟨s.tries + 1, false, s.sndTotalLen, s.calls ++ [.select 0]⟩
      · simp [sndLoop, Loop.run, sndCallLoop, hlt]

/-! ## The turns -/

/-- A wait that times out. -/
def SndState.timedOut (s : SndState) : SndState :=
  { s with sndSet := false, calls := s.calls ++ [.select 0] }

/-- A wait that times out and is not the last one. -/
def SndState.retried (s : SndState) : SndState := { s.timedOut with tries := s.tries + 1 }

@[simp] theorem SndState.retried_tries (s : SndState) : s.retried.tries = s.tries + 1 := rfl

@[simp] theorem SndState.retried_sndTotalLen (s : SndState) :
    s.retried.sndTotalLen = s.sndTotalLen := rfl

@[simp] theorem SndState.retried_sndSet (s : SndState) : s.retried.sndSet = false := rfl

/-- `select` finds the socket writable, and `send` takes some bytes. -/
def SndState.sends (s : SndState) (sndTempLen bytes : ℕ) : SndState :=
  { s with
    sndTotalLen := s.sndTotalLen + bytes
    calls := s.calls ++ [.select 1] ++ [.send s.sndTotalLen (sndTempLen - s.sndTotalLen) bytes] }

/-- Every turn with the guards under which it is taken. -/
inductive SndTurn (len : ℕ) (s : SndState) : SndEvent → SndState ⊕ (ℤ × SndState) → Prop
  | error : SndTurn len s .selectError
      (.inr (osaEfail, { s with calls := s.calls ++ [.select (-1)] }))
  | retry {e : SndEvent} (hsel : select s.sndSet e = (0, false)) (htries : s.tries ≤ 5) :
      SndTurn len s e (.inl s.retried)
  | timeout {e : SndEvent} (hsel : select s.sndSet e = (0, false)) (htries : 5 < s.tries) :
      SndTurn len s e (.inr (osaEfail, s.timedOut))
  | sent (n : ℕ) (hset : s.sndSet = true) (hpos : 0 < min n (len - s.sndTotalLen)) :
      SndTurn len s (.writable n) (.inl (s.sends len (min n (len - s.sndTotalLen))))
  | refused (n : ℕ) (hset : s.sndSet = true) (hnone : min n (len - s.sndTotalLen) = 0) :
      SndTurn len s (.writable n) (.inr (osaEfail, s.sends len 0))

variable {len n : ℕ} {s s' t : SndState} {e : SndEvent} {es : List SndEvent} {st : ℤ}
  {f : Stream' SndEvent} {buf : List UInt8}

/-- After a timeout no wait finds the socket writable. -/
theorem select_false (he : e ≠ .selectError) : select false e = (0, false) := by
  cases e with
  | selectError => exact (he rfl).elim
  | notWritable | writable => rfl

theorem sndTurn_eq (len : ℕ) (s : SndState) (e : SndEvent) : SndTurn len s e (sndTurn len s e) := by
  have hwait : select s.sndSet e = (0, false) → SndTurn len s e (sndTurn len s e) := by
    intro hsel
    simp only [sndTurn, hsel, if_true, lt_irrefl, if_false]
    split
    · next htries => exact .timeout hsel htries
    · next htries => exact .retry hsel (not_lt.mp htries)
  cases e with
  | selectError => exact .error
  | notWritable => exact hwait rfl
  | writable n =>
      cases hset : s.sndSet with
      | false =>
          apply hwait
          rw [hset]
          rfl
      | true =>
          obtain ⟨tries, set, total, calls⟩ := s
          obtain rfl : set = true := hset
          simp only [sndTurn, select, if_true, SndEvent.taken, one_ne_zero, if_false,
            show ¬ (1 : ℤ) < 0 by decide]
          split
          · next hnone =>
            have hzero := Nat.le_zero.mp hnone
            rw [hzero]
            exact .refused n rfl hzero
          · next hpos => exact .sent n rfl (not_le.mp hpos)

theorem sndTurn_inl (h : (sndCallLoop len).turn s e = .inl s') : SndTurn len s e (.inl s') :=
  h ▸ sndTurn_eq len s e

theorem sndTurn_inr {x : ℤ × SndState} (h : (sndCallLoop len).turn s e = .inr x) :
    SndTurn len s e (.inr x) :=
  h ▸ sndTurn_eq len s e

/-- Every turn that does not return counts a timeout or sends. -/
theorem exists_sndReturns (len : ℕ) (s : SndState) (f : Stream' SndEvent) :
    ∃ n st t, (sndCallLoop len).Returns s (f.take n) (st, t) := by
  have hdecreases : ∀ s e s', (sndCallLoop len).finish s = none →
      (sndCallLoop len).turn s e = .inl s' →
      (len - s'.sndTotalLen) + (6 - s'.tries) < (len - s.sndTotalLen) + (6 - s.tries) := by
    intro s e s' _ hturn
    cases sndTurn_inl hturn with
    | retry hsel htries =>
        simp only [SndState.retried_tries, SndState.retried_sndTotalLen]
        omega
    | sent n hset hpos =>
        simp only [SndState.sends]
        omega
  obtain ⟨n, ⟨st, t⟩, h⟩ := Loop.exists_returns _ hdecreases s f
  exact ⟨n, st, t, h⟩

/-! ## What is transmitted -/

/-- The bytes that the calls of `send` took, in order. -/
def sentBytes (buf : List UInt8) (calls : List SndCall) : List UInt8 :=
  calls.flatMap fun
    | .select _ => []
    | .send off _ ret => Bytes.slice off ret.toNat buf

/-- The calls have taken the bytes up to `sndTotalLen`. -/
structure SndState.Sent (s : SndState) (buf : List UInt8) : Prop where
  total : s.sndTotalLen ≤ buf.length
  bytes : sentBytes buf s.calls = buf.take s.sndTotalLen

theorem sentBytes_select (buf : List UInt8) (calls : List SndCall) (ret : ℤ) :
    sentBytes buf (calls ++ [.select ret]) = sentBytes buf calls := by
  simp [sentBytes]

theorem sentBytes_send (buf : List UInt8) (calls : List SndCall) (off len : ℕ) (ret : ℤ) :
    sentBytes buf (calls ++ [.send off len ret]) =
      sentBytes buf calls ++ Bytes.slice off ret.toNat buf := by
  simp [sentBytes]

theorem SndState.Sent.timedOut (h : s.Sent buf) : s.timedOut.Sent buf where
  total := h.total
  bytes := by rw [SndState.timedOut, sentBytes_select, h.bytes]

theorem SndState.Sent.sends (h : s.Sent buf) {bytes : ℕ}
    (hbytes : bytes ≤ buf.length - s.sndTotalLen) : (s.sends buf.length bytes).Sent buf where
  total := by
    have := h.total
    simp only [SndState.sends]
    omega
  bytes := by
    rw [SndState.sends, sentBytes_send, sentBytes_select, h.bytes, Int.toNat_natCast, Bytes.slice,
      List.take_add]

theorem SndState.Sent.turn (h : s.Sent buf) (hturn : (sndCallLoop buf.length).turn s e = .inl s') :
    s'.Sent buf := by
  cases sndTurn_inl hturn with
  | retry hsel htries => exact ⟨h.timedOut.total, h.timedOut.bytes⟩
  | sent n hset hpos => exact h.sends (min_le_right _ _)

theorem SndState.Sent.stop (h : s.Sent buf)
    (hturn : (sndCallLoop buf.length).turn s e = .inr (st, t)) :
    st = osaEfail ∧ t.Sent buf := by
  cases sndTurn_inr hturn with
  | error => exact ⟨rfl, h.total, by rw [sentBytes_select, h.bytes]⟩
  | timeout hsel htries => exact ⟨rfl, h.timedOut⟩
  | refused n hset hnone => exact ⟨rfl, h.sends (Nat.zero_le _)⟩

/-- A call that returns `OSA_SOK` has transmitted the whole buffer, once and in order. -/
theorem sndReturns_sent (h : (sndCallLoop buf.length).Returns s es (st, t)) (hs : s.Sent buf) :
    t.Sent buf ∧ (st = osaSok → t.sndTotalLen = buf.length) := by
  generalize hr : (st, t) = r at h
  induction h with
  | finish hfinish =>
      subst hr
      simp only [sndCallLoop] at hfinish
      split at hfinish
      · cases hfinish
      · cases hfinish
        refine ⟨hs, fun _ ↦ ?_⟩
        have := hs.total
        omega
  | stop hfinish hturn =>
      subst hr
      obtain ⟨hst, hsent⟩ := hs.stop hturn
      exact ⟨hsent, fun hok ↦ (osaEfail_ne_osaSok (hst.symm.trans hok)).elim⟩
  | turn hfinish hturn h ih => exact ih (hs.turn hturn) hr

/-! ## After a timeout -/

/-- What a wait on the empty set does. -/
theorem sndTurn_timedOut (len : ℕ) (hsel : select s.sndSet e = (0, false)) :
    (sndCallLoop len).turn s e =
      if 5 < s.tries then .inr (osaEfail, s.timedOut) else .inl s.retried := by
  simp only [sndCallLoop, sndTurn, hsel, if_true, lt_irrefl, if_false]
  rfl

/-- Behind a timeout every wait is in vain, unless `select` fails. -/
theorem sndReturns_timedOut (h : (sndCallLoop len).Returns s (f.take n) (st, t))
    (hlt : s.sndTotalLen < len) (hset : s.sndSet = false) (htries : s.tries ≤ 6) :
    st = osaEfail ∧
      (((∃ j < 7 - s.tries, f.get j = .selectError) ∧ t.calls.getLast? = some (.select (-1))) ∨
        ((∀ j < 7 - s.tries, f.get j ≠ .selectError) ∧ n = 7 - s.tries ∧
          t.calls.getLast? = some (.select 0))) := by
  induction n generalizing s f with
  | zero =>
      have hfinish := h.finish_eq
      simp [sndCallLoop, hlt] at hfinish
  | succ n ih =>
      rw [Stream'.take_succ] at h
      by_cases herror : f.head = .selectError
      · rw [herror] at h
        obtain ⟨hturn, -⟩ | ⟨s', hturn, -⟩ := h.cons_cases
        · cases sndTurn_inr hturn with
          | error => exact ⟨rfl, Or.inl ⟨⟨0, by omega, herror⟩, by simp⟩⟩
          | timeout hsel => cases hsel
        · cases hturn
      · have hsel : select s.sndSet f.head = (0, false) := by
          rw [hset]
          exact select_false herror
        have heq := sndTurn_timedOut len hsel
        obtain ⟨hturn, hnil⟩ | ⟨s', hturn, hrest⟩ := h.cons_cases
        · obtain rfl : n = 0 := by simpa using congrArg List.length hnil
          rw [heq] at hturn
          split at hturn
          · next hfull =>
            have hsix : 7 - s.tries = 1 := by omega
            cases hturn
            refine ⟨rfl, Or.inr ⟨fun j hj ↦ ?_, hsix.symm, by simp [SndState.timedOut]⟩⟩
            obtain rfl : j = 0 := by omega
            exact herror
          · cases hturn
        · rw [heq] at hturn
          split at hturn
          · cases hturn
          · next hmore =>
            have hsucc : 7 - s.tries = 7 - (s.tries + 1) + 1 := by omega
            cases hturn
            obtain ⟨hst, ⟨⟨j, hj, hget⟩, hlast⟩ | ⟨hnone, hn, hlast⟩⟩ :=
              ih hrest hlt rfl (by rw [SndState.retried_tries]; omega)
            · rw [SndState.retried_tries] at hj
              exact ⟨hst, Or.inl ⟨⟨j + 1, by omega, hget⟩, hlast⟩⟩
            · rw [SndState.retried_tries] at hnone hn
              refine ⟨hst, Or.inr ⟨fun j hj ↦ ?_, by omega, hlast⟩⟩
              cases j with
              | zero => exact herror
              | succ j => exact hnone j (by omega)

/-! ## Schedules -/

/-- No error, and at most six waits time out: after each of them the socket is writable again. -/
structure Mild (f : Stream' SndEvent) : Prop where
  ready : ∀ i, f.get i ≠ .selectError ∧ f.get i ≠ .writable 0
  timeouts : ∀ n, (f.take n).count .notWritable ≤ 6

/-- A call may fail on a `select` or a `send` error, or when the seventh wait has found the socket
not writable. -/
def Excused (calls : List SndCall) (waits : List SndEvent) : Prop :=
  calls.getLast? = some (.select (-1)) ∨
    (∃ off len, ∃ ret ≤ 0, calls.getLast? = some (.send off len ret)) ∨
    7 ≤ waits.count .notWritable

/-- The loop from a state on: under a mild schedule it ends well, and it fails with an excuse. -/
def EndsWell (len : ℕ) (s : SndState) (f : Stream' SndEvent) : Prop :=
  ∃ n st t, (sndCallLoop len).Returns s (f.take n) (st, t) ∧ (Mild f → st = osaSok) ∧
    (st ≠ osaSok → Excused t.calls (f.take n))

/-- If a wait times out before `rem` bytes are sent, then in one of the next six `select` fails, or
all of them time out. -/
def NoneMissed (rem : ℕ) (f : Stream' SndEvent) : Prop :=
  ∀ i, (∀ j < i, 0 < (f.get j).taken) → ((f.take i).map SndEvent.taken).sum < rem →
    f.get i = .notWritable →
    (∃ j < 6, f.get (i + 1 + j) = .selectError) ∨ ∀ j < 6, f.get (i + 1 + j) = .notWritable

theorem ne_notWritable_of_taken (h : 0 < e.taken) : e ≠ .notWritable := by
  rintro rfl
  cases h

theorem get_succ_add (f : Stream' SndEvent) (i j : ℕ) : f.get (i + 1 + j) = f.tail.get (i + j) := by
  rw [Stream'.get_tail]
  congr 1
  omega

theorem Mild.tail (h : Mild f) : Mild f.tail where
  ready := fun i ↦ h.ready (i + 1)
  timeouts := fun n ↦ by
    have := h.timeouts (n + 1)
    rw [Stream'.take_succ, List.count_cons] at this
    omega

theorem Mild.cons (h : Mild f.tail) (hpos : 0 < f.head.taken) : Mild f where
  ready := fun i ↦ by
    cases i with
    | zero =>
        constructor <;> intro heq <;> rw [show f.head = _ from heq] at hpos <;> cases hpos
    | succ i => exact h.ready i
  timeouts := fun n ↦ by
    cases n with
    | zero => simp
    | succ n =>
        rw [Stream'.take_succ, List.count_cons_of_ne (ne_notWritable_of_taken hpos)]
        exact h.timeouts n

/-- Only a wait of the rest can time out when the first one finds the socket writable. -/
theorem noneMissed_tail {rem : ℕ} (hpos : 0 < f.head.taken) :
    NoneMissed rem f ↔ NoneMissed (rem - f.head.taken) f.tail := by
  have hsum : ∀ i, ((f.take (i + 1)).map SndEvent.taken).sum =
      f.head.taken + ((f.tail.take i).map SndEvent.taken).sum := by
    intro i
    rw [Stream'.take_succ, List.map_cons, List.sum_cons]
  constructor
  · intro h i hready hlt hwait
    have hnext := h (i + 1) (fun j hj ↦ ?_) (by rw [hsum]; omega) hwait
    · simpa only [get_succ_add f (i + 1)] using hnext
    · cases j with
      | zero => exact hpos
      | succ j => exact hready j (by omega)
  · intro h i hready hlt hwait
    cases i with
    | zero => exact (ne_notWritable_of_taken hpos hwait).elim
    | succ i =>
        rw [hsum] at hlt
        have hnext := h i (fun j hj ↦ hready (j + 1) (by omega)) (by omega) hwait
        simpa only [get_succ_add f (i + 1)] using hnext

/-- A first wait that finds nothing ready decides at once. -/
theorem noneMissed_head {rem : ℕ} (hrem : 0 < rem) (hnone : f.head.taken = 0) :
    NoneMissed rem f ↔ (f.head = .notWritable →
      (∃ j < 6, f.tail.get j = .selectError) ∨ ∀ j < 6, f.tail.get j = .notWritable) := by
  constructor
  · intro h hwait
    have hnext := h 0 (fun j hj ↦ by omega) (by simpa using hrem) hwait
    simpa only [get_succ_add f 0, Nat.zero_add] using hnext
  · intro h i hready _ hwait
    cases i with
    | zero =>
        have hnext := h hwait
        simpa only [get_succ_add f 0, Nat.zero_add] using hnext
    | succ i =>
        have hfirst := hready 0 (by omega)
        rw [show (f.get 0).taken = 0 from hnone] at hfirst
        cases hfirst

theorem count_take_eq_iff (k : ℕ) :
    (f.take k).count .notWritable = k ↔ ∀ j < k, f.get j = .notWritable := by
  have hlen : (f.take k).length = k := Stream'.length_take k f
  have hcount := List.count_eq_length (a := SndEvent.notWritable) (l := f.take k)
  rw [hlen] at hcount
  rw [hcount]
  constructor
  · intro h j hj
    have hmem : f.get j ∈ f.take k := List.mem_of_getElem? (Stream'.getElem?_take hj)
    exact (h _ hmem).symm
  · intro h e he
    obtain ⟨j, hj⟩ := List.mem_iff_getElem?.mp he
    have hlt : j < k := by
      have := (List.getElem?_eq_some_iff.mp hj).1
      omega
    rw [Stream'.getElem?_take hlt] at hj
    rw [← Option.some.inj hj, h j hlt]

/-! ## When a call ends well -/

theorem finish_of_lt (hlt : s.sndTotalLen < len) : (sndCallLoop len).finish s = none := if_pos hlt

/-- A call that has not sent everything makes the turn of the first answer. -/
theorem sndReturns_head (hlt : s.sndTotalLen < len)
    (hturn : (sndCallLoop len).turn s f.head = .inl s')
    (h : (sndCallLoop len).Returns s (f.take n) (st, t)) :
    ∃ k, n = k + 1 ∧ (sndCallLoop len).Returns s' (f.tail.take k) (st, t) := by
  cases n with
  | zero =>
      have hfinish := h.finish_eq
      rw [finish_of_lt hlt] at hfinish
      cases hfinish
  | succ n =>
      rw [Stream'.take_succ] at h
      obtain ⟨hstop, -⟩ | ⟨s'', hturn', hrest⟩ := h.cons_cases
      · rw [hturn] at hstop
        cases hstop
      · rw [hturn] at hturn'
        cases hturn'
        exact ⟨n, rfl, hrest⟩

theorem endsWell_timedOut (hlt : s.sndTotalLen < len) (htries : s.tries = 0)
    (hwait : f.head = .notWritable) : EndsWell len s f ↔
      (∃ j < 6, f.tail.get j = .selectError) ∨ ∀ j < 6, f.tail.get j = .notWritable := by
  have hturn : (sndCallLoop len).turn s f.head = .inl s.retried := by
    rw [hwait, sndTurn_timedOut len rfl, htries]
    rfl
  have hafter : ∀ {n st t}, (sndCallLoop len).Returns s.retried (f.tail.take n) (st, t) →
      st = osaEfail ∧
      (((∃ j < 6, f.tail.get j = .selectError) ∧ t.calls.getLast? = some (.select (-1))) ∨
        ((∀ j < 6, f.tail.get j ≠ .selectError) ∧ n = 6 ∧
          t.calls.getLast? = some (.select 0))) := by
    intro n st t h
    have := sndReturns_timedOut h hlt rfl (by rw [SndState.retried_tries, htries]; decide)
    rwa [SndState.retried_tries, htries] at this
  have hcount : (f.take 7).count .notWritable = (f.tail.take 6).count .notWritable + 1 := by
    rw [Stream'.take_succ, hwait, List.count_cons_self]
  constructor
  · rintro ⟨n, st, t, h, -, hexcused⟩
    obtain ⟨k, rfl, hrest⟩ := sndReturns_head hlt hturn h
    obtain ⟨rfl, ⟨herror, -⟩ | ⟨-, rfl, hlast⟩⟩ := hafter hrest
    · exact Or.inl herror
    · right
      rw [← count_take_eq_iff]
      have hle : (f.tail.take 6).count .notWritable ≤ 6 := by
        simpa using List.count_le_length (a := SndEvent.notWritable) (l := f.tail.take 6)
      rcases hexcused osaEfail_ne_osaSok with herror | ⟨off, l, ret, -, hsend⟩ | hseven
      · rw [hlast] at herror
        cases herror
      · rw [hlast] at hsend
        cases hsend
      · rw [hcount] at hseven
        omega
  · intro hnext
    obtain ⟨n, st, t, hrest⟩ := exists_sndReturns len s.retried f.tail
    have h : (sndCallLoop len).Returns s (f.take (n + 1)) (st, t) :=
      .turn (finish_of_lt hlt) hturn hrest
    refine ⟨n + 1, st, t, h, fun hmild ↦ ?_, fun _ ↦ ?_⟩
    · exfalso
      rcases hnext with ⟨j, -, herror⟩ | hall
      · exact (hmild.ready (j + 1)).1 herror
      · have hseven := hmild.timeouts 7
        rw [hcount, (count_take_eq_iff 6).mpr hall] at hseven
        omega
    · obtain ⟨-, ⟨-, hlast⟩ | ⟨hnone, rfl, -⟩⟩ := hafter hrest
      · exact Or.inl hlast
      · obtain ⟨j, hj, herror⟩ | hall := hnext
        · exact (hnone j hj herror).elim
        · right
          right
          rw [hcount, (count_take_eq_iff 6).mpr hall]

/-- A loop that fails in its first wait, on an error, ends well. -/
theorem endsWell_failed (hlt : s.sndTotalLen < len)
    (hturn : (sndCallLoop len).turn s f.head = .inr (osaEfail, t))
    (herror : f.head = .selectError ∨ f.head = .writable 0)
    (hexcused : Excused t.calls [f.head]) : EndsWell len s f := by
  refine ⟨1, _, _, .stop (finish_of_lt hlt) hturn, fun hmild ↦ ?_, fun _ ↦ hexcused⟩
  rcases herror with herror | herror
  · exact ((hmild.ready 0).1 herror).elim
  · exact ((hmild.ready 0).2 herror).elim

/-- A wait that finds the socket writable, and a send that takes some bytes. -/
theorem endsWell_sent (hlt : s.sndTotalLen < len)
    (hturn : (sndCallLoop len).turn s f.head = .inl s') (hpos : 0 < f.head.taken) :
    EndsWell len s f ↔ EndsWell len s' f.tail := by
  have hne := ne_notWritable_of_taken hpos
  have hexcused : ∀ calls n, Excused calls (f.take (n + 1)) ↔ Excused calls (f.tail.take n) := by
    intro calls n
    rw [Excused, Excused, Stream'.take_succ, List.count_cons_of_ne hne]
  constructor
  · rintro ⟨n, st, t, h, hmild, hfail⟩
    obtain ⟨k, rfl, hrest⟩ := sndReturns_head hlt hturn h
    refine ⟨k, st, t, hrest, fun htail ↦ hmild (htail.cons hpos), fun hst ↦ ?_⟩
    exact (hexcused _ _).mp (hfail hst)
  · rintro ⟨n, st, t, hrest, hmild, hfail⟩
    refine ⟨n + 1, st, t, .turn (finish_of_lt hlt) hturn hrest, fun h ↦ hmild h.tail, fun hst ↦ ?_⟩
    exact (hexcused _ _).mpr (hfail hst)

theorem endsWell_done (hge : ¬ s.sndTotalLen < len) : EndsWell len s f :=
  ⟨0, osaSok, s, .finish (if_neg hge), fun _ ↦ rfl, fun h ↦ (h rfl).elim⟩

/-- As long as no wait has timed out, the loop ends well exactly if none is missed. -/
theorem endsWell_iff (hset : s.sndSet = true) (htries : s.tries = 0) :
    EndsWell len s f ↔ NoneMissed (len - s.sndTotalLen) f := by
  generalize hrem : len - s.sndTotalLen = rem
  induction rem using Nat.strong_induction_on generalizing s f with
  | _ rem ih =>
    by_cases hlt : s.sndTotalLen < len
    · have hpos : 0 < rem := by omega
      cases hhead : f.head with
      | selectError =>
          rw [noneMissed_head hpos (by rw [hhead]; rfl), hhead]
          refine iff_of_true ?_ (fun h ↦ by cases h)
          apply endsWell_failed hlt (by rw [hhead]; rfl) (Or.inl hhead)
          exact Or.inl (by simp [hset, select])
      | notWritable =>
          rw [endsWell_timedOut hlt htries hhead, noneMissed_head hpos (by rw [hhead]; rfl)]
          exact ⟨fun h _ ↦ h, fun h ↦ h hhead⟩
      | writable m =>
          cases hturn : (sndCallLoop len).turn s f.head with
          | inr x =>
              have heffect := sndTurn_inr hturn
              rw [hhead] at heffect
              cases heffect with
              | timeout hsel htries' => omega
              | refused _ _ hnone =>
                  obtain rfl : m = 0 := by omega
                  rw [noneMissed_head hpos (by rw [hhead]; rfl), hhead]
                  refine iff_of_true (endsWell_failed hlt hturn (Or.inr hhead) ?_)
                    (fun h ↦ by cases h)
                  right
                  left
                  exact ⟨s.sndTotalLen, len - s.sndTotalLen, 0, le_rfl, by simp [SndState.sends]⟩
          | inl s' =>
              have heffect := sndTurn_inl hturn
              rw [hhead] at heffect
              cases heffect with
              | retry hsel _ =>
                  rw [hset] at hsel
                  cases hsel
              | sent _ _ hbytes =>
                  have htaken : f.head.taken = m := by rw [hhead]; rfl
                  have hm : 0 < f.head.taken := by omega
                  have hset' : (s.sends len (min m (len - s.sndTotalLen))).sndSet = true := hset
                  rw [endsWell_sent hlt hturn hm, noneMissed_tail hm, htaken]
                  apply ih (rem - m) (by omega) hset' htries
                  simp only [SndState.sends]
                  omega
    · obtain rfl : rem = 0 := by omega
      exact iff_of_true (endsWell_done hlt) fun i _ hsum ↦ (Nat.not_lt_zero _ hsum).elim

/-- The call of `OSA_tcpSndNonblockFd` for a whole buffer comes to an end; under a mild schedule it
has transmitted the buffer once, in order, and it fails with an excuse. -/
def Retries (fd : ℤ) (buf : List UInt8) (f : Stream' SndEvent) : Prop :=
  ∃ n st t, (sndCallLoop buf.length).Returns .start (f.take n) (st, t) ∧
    osaTcpSndNonblockFd fd (some buf) buf.length (f.take n) =
      some ⟨st, t.sndTotalLen, sentBytes buf t.calls⟩ ∧
    (Mild f → st = osaSok ∧ t.sndTotalLen = buf.length ∧ sentBytes buf t.calls = buf) ∧
    (st ≠ osaSok → Excused t.calls (f.take n))

theorem osaTcpSndNonblockFd_returns {fd : ℤ} (hfd : 0 ≤ fd) (hbuf : buf ≠ [])
    (h : (sndCallLoop buf.length).Returns .start es (st, t)) :
    osaTcpSndNonblockFd fd (some buf) buf.length es =
      some ⟨st, t.sndTotalLen, sentBytes buf t.calls⟩ ∧
    (st = osaSok → t.sndTotalLen = buf.length ∧ sentBytes buf t.calls = buf) := by
  have hstart : SndState.start.Sent buf := ⟨Nat.zero_le _, rfl⟩
  obtain ⟨hsent, hok⟩ := sndReturns_sent h hstart
  have hlen : 0 < buf.length := List.length_pos_iff.mpr hbuf
  have hfd' : ¬ fd < 0 := by omega
  have hlen' : ¬ (buf.length : ℤ) ≤ 0 := by omega
  constructor
  · have hloop := sndLoop_eq_run buf buf.length .start es
    rw [h.run, Option.map_some, ← hsent.bytes] at hloop
    simp only [osaTcpSndNonblockFd, hfd', hlen', if_false, Int.toNat_natCast]
    exact hloop
  · intro hst
    rw [hsent.bytes, hok hst, List.take_length]
    exact ⟨rfl, rfl⟩

theorem Retries.endsWell {fd : ℤ} (h : Retries fd buf f) : EndsWell buf.length .start f := by
  obtain ⟨n, st, t, h, -, hmild, hfail⟩ := h
  exact ⟨n, st, t, h, fun hf ↦ (hmild hf).1, hfail⟩

/-- The retries work exactly if a wait that times out is followed by six that time out too, or by a
`select` error among them. -/
theorem send_retries_iff {fd : ℤ} (hfd : 0 ≤ fd) (hbuf : buf ≠ []) (f : Stream' SndEvent) :
    Retries fd buf f ↔ NoneMissed buf.length f := by
  have hiff : EndsWell buf.length .start f ↔ NoneMissed (buf.length - 0) f := endsWell_iff rfl rfl
  rw [Nat.sub_zero] at hiff
  rw [← hiff]
  constructor
  · exact Retries.endsWell
  · rintro ⟨n, st, t, h, hmild, hfail⟩
    obtain ⟨hcall, hok⟩ := osaTcpSndNonblockFd_returns hfd hbuf h
    exact ⟨n, st, t, h, hcall, fun hf ↦ ⟨hmild hf, hok (hmild hf)⟩, hfail⟩

/-- The socket is always writable. -/
theorem send_retries_ready : Retries 3 [1, 2] fun _ ↦ .writable 1 :=
  (send_retries_iff (by decide) (by decide) _).mpr fun _ _ _ hwait ↦ by cases hwait

/-- The first wait times out, every later one finds the socket writable. -/
def lateSchedule : Stream' SndEvent
  | 0 => .notWritable
  | _ + 1 => .writable 1

theorem send_retries_late : ¬ ∀ fd buf f, 0 ≤ fd → buf ≠ [] → Retries fd buf f := by
  intro h
  have hwell := (h 3 [1] lateSchedule (by decide) (by decide)).endsWell
  obtain ⟨j, -, hj⟩ | hall := (endsWell_timedOut (by decide) rfl rfl).mp hwell
  · cases hj
  · cases hall 0 (by decide)

end OsaBase
