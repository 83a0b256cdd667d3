import OsaBase.SendRetries

/-!
# Exact transfers

Both transfer loops on any answers of the kernel. An answer of `recv` brings its bytes along, so
that what arrives is said by the answers alone. Nothing links what `select` returns to what it
leaves in the set here, nor to what `send` returns.
-/

namespace OsaBase

/-- A transfer of `len` bytes has returned `st` after `total` of them. -/
def EndedAfter (len total : ℕ) (st : ℤ) : Prop :=
  st = osaSok ∧ total = len ∨ st = osaEfail ∧ total < len

theorem EndedAfter.status {len total : ℕ} {st : ℤ} (h : EndedAfter len total st) :
    st = osaSok ∨ st = osaEfail :=
  h.imp And.left And.left

theorem EndedAfter.le {len total : ℕ} {st : ℤ} (h : EndedAfter len total st) : total ≤ len := by
  rcases h with ⟨-, hall⟩ | ⟨-, hless⟩
  · exact hall.le
  · exact hless.le

theorem EndedAfter.sok_iff {len total : ℕ} {st : ℤ} (h : EndedAfter len total st) :
    st = osaSok ↔ total = len := by
  rcases h with ⟨hok, hall⟩ | ⟨hfail, hless⟩
  · exact iff_of_true hok hall
  · exact iff_of_false (fun hok ↦ osaEfail_ne_osaSok (hfail.symm.trans hok)) hless.ne

/-! ## `OSA_tcpRcvBlockFd` -/

inductive Errno
  | eagain
  | ewouldblock
  | eintr
  | other (errno : ℕ)
  deriving DecidableEq, Repr

/-- What a `recv` answers: bytes, at least one, or 0, or an error. -/
inductive RecvAnswer
  | bytes (b : UInt8) (bs : List UInt8)
  | closed
  | error (errno : Errno)
  deriving DecidableEq, Repr

def RecvAnswer.received : RecvAnswer → List UInt8
  | .bytes b bs => b :: bs
  | .closed | .error _ => []

/-- The answer without its bytes. -/
def RecvAnswer.event : RecvAnswer → RcvEvent
  | .bytes _ bs => .data (bs.length + 1)
  | .closed => .closed
  | .error (.other _) => .error
  | .error _ => .timeout

/-- The buffer and the locals of the loop. -/
structure RcvState where
  rcvBuf : List UInt8
  rcvTotalLen : ℕ
  timeoutCnt : ℕ
  deriving DecidableEq, Repr

def RcvState.start (rcvBuf : List UInt8) : RcvState := ⟨rcvBuf, 0, 0⟩

/-- A `recv` brings no more than it is asked for. -/
def rcvTurn (rcvLen : ℕ) (s : RcvState) : RecvAnswer → RcvState ⊕ (ℤ × RcvState)
  | .error errno =>
    if errno = .eagain ∨ errno = .ewouldblock ∨ errno = .eintr then
      let s := { s with timeoutCnt := s.timeoutCnt + 1 }
      if s.timeoutCnt < 3 then .inl s else .inr (osaEfail, s)
    else .inr (osaEfail, s)
  | .closed => .inr (osaEfail, s)
  | .bytes b bs =>
    let rcvTempLen := rcvLen - s.rcvTotalLen
    let bytes := (b :: bs).take rcvTempLen
    .inl { s with
      rcvBuf := Bytes.store s.rcvBuf s.rcvTotalLen bytes
      rcvTotalLen := s.rcvTotalLen + bytes.length }

def rcvCallLoop (rcvLen : ℕ) : Loop RcvState RecvAnswer (ℤ × RcvState) where
  finish := fun s ↦ if s.rcvTotalLen < rcvLen then none else some (osaSok, s)
  turn := rcvTurn rcvLen

/-- The bytes of the answers, in order. -/
def arrivedBytes (as : List RecvAnswer) : List UInt8 := as.flatMap RecvAnswer.received

@[simp] theorem arrivedBytes_nil : arrivedBytes [] = [] := rfl

@[simp] theorem arrivedBytes_cons (a : RecvAnswer) (as : List RecvAnswer) :
    arrivedBytes (a :: as) = a.received ++ arrivedBytes as := rfl

theorem sum_bytes (as : List RecvAnswer) :
    ((as.map RecvAnswer.event).map RcvEvent.bytes).sum = (arrivedBytes as).length := by
  induction as with
  | nil => rfl
  | cons a as ih =>
      have hhead : a.event.bytes = a.received.length := by
        rcases a with ⟨b, bs⟩ | _ | (_ | _ | _ | _) <;> rfl
      simp only [List.map_cons, List.sum_cons, arrivedBytes_cons, List.length_append, ih, hhead]

variable {len : ℕ} {s s' t : RcvState} {a : RecvAnswer} {as : List RecvAnswer} {st : ℤ}

/-- The bytes of one answer are stored. -/
def RcvState.stores (s : RcvState) (bytes : List UInt8) : RcvState :=
  { s with
    rcvBuf := Bytes.store s.rcvBuf s.rcvTotalLen bytes
    rcvTotalLen := s.rcvTotalLen + bytes.length }

@[simp] theorem RcvState.stores_rcvTotalLen (s : RcvState) (bytes : List UInt8) :
    (s.stores bytes).rcvTotalLen = s.rcvTotalLen + bytes.length := rfl

@[simp] theorem RcvState.stores_timeoutCnt (s : RcvState) (bytes : List UInt8) :
    (s.stores bytes).timeoutCnt = s.timeoutCnt := rfl

/-- A retryable error is counted. -/
def RcvState.retried (s : RcvState) : RcvState := { s with timeoutCnt := s.timeoutCnt + 1 }

/-- Every turn with the guards under which it is taken. -/
inductive RcvTurn (len : ℕ) (s : RcvState) : RecvAnswer → RcvState ⊕ (ℤ × RcvState) → Prop
  | bytes (b : UInt8) (bs : List UInt8) :
      RcvTurn len s (.bytes b bs) (.inl (s.stores ((b :: bs).take (len - s.rcvTotalLen))))
  | retry {a : RecvAnswer} (ha : a.event = .timeout) (hcnt : s.timeoutCnt + 1 < 3) :
      RcvTurn len s a (.inl s.retried)
  | timeout {a : RecvAnswer} (ha : a.event = .timeout) (hcnt : ¬ s.timeoutCnt + 1 < 3) :
      RcvTurn len s a (.inr (osaEfail, s.retried))
  | failed {a : RecvAnswer} (ha : a.event = .error ∨ a.event = .closed) :
      RcvTurn len s a (.inr (osaEfail, s))

theorem rcvTurn_eq (len : ℕ) (s : RcvState) (a : RecvAnswer) :
    RcvTurn len s a (rcvTurn len s a) := by
  have hretry : ∀ errno, (RecvAnswer.error errno).event = .timeout →
      RcvTurn len s (.error errno)
        (if s.timeoutCnt + 1 < 3 then .inl s.retried else .inr (osaEfail, s.retried)) := by
    intro errno herrno
    split
    · next hcnt => exact .retry herrno hcnt
    · next hcnt => exact .timeout herrno hcnt
  cases a with
  | bytes b bs => exact .bytes b bs
  | closed => exact .failed (Or.inr rfl)
  | error errno =>
      cases errno with
      | eagain | ewouldblock | eintr => exact hretry _ rfl
      | other errno => exact .failed (Or.inl rfl)

theorem rcvTurn_inl (h : (rcvCallLoop len).turn s a = .inl s') : RcvTurn len s a (.inl s') :=
  h ▸ rcvTurn_eq len s a

theorem rcvTurn_inr {x : ℤ × RcvState} (h : (rcvCallLoop len).turn s a = .inr x) :
    RcvTurn len s a (.inr x) :=
  h ▸ rcvTurn_eq len s a

/-- Only an answer with data brings bytes. -/
theorem received_eq_nil (ha : a.event = .timeout ∨ a.event = .error ∨ a.event = .closed) :
    a.received = [] := by
  cases a with
  | bytes b bs => simp [RecvAnswer.event] at ha
  | closed | error => rfl

theorem rcvCallLoop_finish_none (h : (rcvCallLoop len).finish s = none) : s.rcvTotalLen < len := by
  by_contra hge
  simp [rcvCallLoop, hge] at h

/-- Every turn that does not return counts an error or stores some bytes. -/
theorem exists_rcvReturns (len : ℕ) (s : RcvState) (f : Stream' RecvAnswer) :
    ∃ k st t, (rcvCallLoop len).Returns s (f.take k) (st, t) := by
  have hdecreases : ∀ s a s', (rcvCallLoop len).finish s = none →
      (rcvCallLoop len).turn s a = .inl s' →
      (len - s'.rcvTotalLen) + (3 - s'.timeoutCnt) <
        (len - s.rcvTotalLen) + (3 - s.timeoutCnt) := by
    intro s a s' hfinish hturn
    have hlt := rcvCallLoop_finish_none hfinish
    cases rcvTurn_inl hturn with
    | bytes b bs =>
        simp only [RcvState.stores_rcvTotalLen, RcvState.stores_timeoutCnt, List.length_take,
          List.length_cons]
        omega
    | retry ha hcnt =>
        simp only [RcvState.retried]
        omega
  obtain ⟨k, ⟨st, t⟩, h⟩ := Loop.exists_returns _ hdecreases s f
  exact ⟨k, st, t, h⟩

/-! ## What is stored -/

/-- From `s` to `t` exactly `bytes` have been stored. -/
structure RcvState.Stored (s : RcvState) (bytes : List UInt8) (t : RcvState) : Prop where
  rcvBuf : t.rcvBuf = Bytes.store s.rcvBuf s.rcvTotalLen bytes
  rcvTotalLen : t.rcvTotalLen = s.rcvTotalLen + bytes.length

theorem RcvState.Stored.nil (s : RcvState) : s.Stored [] s := ⟨(Bytes.store_nil _ _).symm, rfl⟩

theorem RcvState.Stored.retried (s : RcvState) : s.Stored [] s.retried :=
  ⟨(Bytes.store_nil _ _).symm, rfl⟩

theorem RcvState.Stored.cons {bytes rest : List UInt8} (h : (s.stores bytes).Stored rest t)
    (hbuf : s.rcvTotalLen + bytes.length ≤ s.rcvBuf.length) : s.Stored (bytes ++ rest) t where
  rcvBuf := h.rcvBuf.trans (Bytes.store_store _ _ _ hbuf)
  rcvTotalLen := by
    rw [h.rcvTotalLen, RcvState.stores_rcvTotalLen, List.length_append]
    omega

/-- The bytes of all answers are stored behind each other, up to the length asked for, and the call
has failed if they are fewer. -/
theorem rcvReturns_stored (h : (rcvCallLoop len).Returns s as (st, t))
    (htotal : s.rcvTotalLen ≤ len) (hbuf : len ≤ s.rcvBuf.length) :
    s.Stored ((arrivedBytes as).take (len - s.rcvTotalLen)) t ∧
      EndedAfter len t.rcvTotalLen st := by
  generalize hr : (st, t) = r at h
  induction h with
  | @finish s r hfinish =>
      subst hr
      simp only [rcvCallLoop] at hfinish
      split at hfinish
      · cases hfinish
      · cases hfinish
        rw [arrivedBytes_nil, List.take_nil]
        exact ⟨.nil _, Or.inl ⟨rfl, by omega⟩⟩
  | @stop s a r hfinish hturn =>
      subst hr
      have hlt := rcvCallLoop_finish_none hfinish
      have hnone : ∀ a : RecvAnswer, a.received = [] →
          (arrivedBytes [a]).take (len - s.rcvTotalLen) = [] := by
        intro a ha
        simp [ha]
      cases rcvTurn_inr hturn with
      | timeout ha hcnt =>
          rw [hnone a (received_eq_nil (Or.inl ha))]
          exact ⟨.retried s, Or.inr ⟨rfl, hlt⟩⟩
      | failed ha =>
          rw [hnone a (received_eq_nil (Or.inr ha))]
          exact ⟨.nil _, Or.inr ⟨rfl, hlt⟩⟩
  | @turn s s' a as r hfinish hturn h ih =>
      have hlt := rcvCallLoop_finish_none hfinish
      cases rcvTurn_inl hturn with
      | bytes b bs =>
          have hlen : ((b :: bs).take (len - s.rcvTotalLen)).length =
              min (len - s.rcvTotalLen) (b :: bs).length := List.length_take
          have hstore : (s.stores ((b :: bs).take (len - s.rcvTotalLen))).rcvBuf.length =
              s.rcvBuf.length := Bytes.length_store (by omega)
          obtain ⟨hstored, hst⟩ := ih (by rw [RcvState.stores_rcvTotalLen]; omega) (by omega) hr
          refine ⟨?_, hst⟩
          have hrest : len - (s.stores ((b :: bs).take (len - s.rcvTotalLen))).rcvTotalLen =
              len - s.rcvTotalLen - (b :: bs).length := by
            rw [RcvState.stores_rcvTotalLen]
            omega
          rw [hrest] at hstored
          rw [arrivedBytes_cons, List.take_append]
          exact hstored.cons (by omega)
      | retry ha hcnt =>
          rw [arrivedBytes_cons, received_eq_nil (Or.inl ha), List.nil_append]
          obtain ⟨hstored, hst⟩ := ih htotal hbuf hr
          exact ⟨⟨hstored.rcvBuf, hstored.rcvTotalLen⟩, hst⟩

theorem rcvLoop_bytes (hlt : s.rcvTotalLen < len) (b : UInt8) (bs : List UInt8)
    (as : List RecvAnswer) :
    rcvLoop len s.rcvBuf s.rcvTotalLen s.timeoutCnt (arrivedBytes (.bytes b bs :: as))
        ((RecvAnswer.bytes b bs :: as).map RecvAnswer.event) =
      let s' := s.stores ((b :: bs).take (len - s.rcvTotalLen))
      rcvLoop len s'.rcvBuf s'.rcvTotalLen s'.timeoutCnt ((arrivedBytes (.bytes b bs :: as)).drop
        ((b :: bs).take (len - s.rcvTotalLen)).length) (as.map RecvAnswer.event) := by
  have hbytes : (arrivedBytes (.bytes b bs :: as)).take
      (min (bs.length + 1) (len - s.rcvTotalLen)) = (b :: bs).take (len - s.rcvTotalLen) := by
    rw [min_comm, ← List.take_take, arrivedBytes_cons]
    congr 1
    exact List.take_left' rfl
  have hpos : ¬ ((b :: bs).take (len - s.rcvTotalLen)).length = 0 := by
    rw [List.length_take, List.length_cons]
    omega
  simp only [List.map_cons, RecvAnswer.event, rcvLoop, hlt, if_true, hbytes, hpos, if_false]
  rfl

/-- The loop is that of `OSA_tcpRcvBlockFd`, on the stream of the bytes answered. -/
theorem rcvLoop_eq_run (len : ℕ) (s : RcvState) (as : List RecvAnswer) :
    (rcvLoop len s.rcvBuf s.rcvTotalLen s.timeoutCnt (arrivedBytes as)
        (as.map RecvAnswer.event)).map (fun r ↦ (r.status, r.rcvBuf, r.readlen)) =
      ((rcvCallLoop len).run s as).map fun x ↦ (x.1, x.2.rcvBuf, some x.2.rcvTotalLen) := by
  induction as generalizing s with
  | nil => by_cases hlt : s.rcvTotalLen < len <;> simp [rcvLoop, Loop.run, rcvCallLoop, hlt]
  | cons a as ih =>
      by_cases hlt : s.rcvTotalLen < len
      · have hfinish : (rcvCallLoop len).finish s = none := if_pos hlt
        cases hturn : (rcvCallLoop len).turn s a with
        | inl s' =>
            rw [Loop.run_cons_inl hfinish hturn]
            cases rcvTurn_inl hturn with
            | bytes b bs =>
                rw [rcvLoop_bytes hlt]
                by_cases hcut : len - s.rcvTotalLen ≤ (b :: bs).length
                · have hfull : ¬ (s.stores ((b :: bs).take (len - s.rcvTotalLen))).rcvTotalLen <
                      len := by
                    rw [RcvState.stores_rcvTotalLen, List.length_take]
                    omega
                  have hrun : (rcvCallLoop len).run
                      (s.stores ((b :: bs).take (len - s.rcvTotalLen))) as =
                        some (osaSok, s.stores ((b :: bs).take (len - s.rcvTotalLen))) :=
                    (Loop.Returns.finish (if_neg hfull)).run_append as
                  rw [rcvLoop_full hfull, hrun]
                  rfl
                · have hall : (b :: bs).take (len - s.rcvTotalLen) = b :: bs :=
                    List.take_of_length_le (by omega)
                  rw [hall, arrivedBytes_cons, RecvAnswer.received, List.drop_left, ← ih]
            | retry ha hcnt =>
                rw [arrivedBytes_cons, received_eq_nil (Or.inl ha), List.map_cons, ha, ← ih]
                simp only [rcvLoop, hlt, hcnt, if_true]
                rfl
        | inr x =>
            rw [Loop.run_cons_inr hfinish hturn]
            cases rcvTurn_inr hturn with
            | timeout ha hcnt =>
                rw [List.map_cons, ha]
                simp only [rcvLoop, hlt, hcnt, if_true, if_false]
                rfl
            | failed ha =>
                rcases ha with ha | ha
                all_goals
                  rw [List.map_cons, ha]
                  simp only [rcvLoop, hlt, if_true]
                  rfl
      · rw [rcvLoop_full hlt]
        simp [Loop.run, rcvCallLoop, hlt]

/-! ## A whole call -/

variable {n : ℕ} {fd : ℤ} {buf : List UInt8} {f : Stream' RecvAnswer}

theorem osaTcpRcvBlockFd_eq_run (hn : 1 ≤ n) (hfd : 0 ≤ fd) (buf : List UInt8)
    (as : List RecvAnswer) :
    (osaTcpRcvBlockFd fd (some buf) n (arrivedBytes as) (as.map RecvAnswer.event)).map
        (fun r ↦ (r.status, r.rcvBuf, r.readlen)) =
      ((rcvCallLoop n).run (.start buf) as).map
        fun x ↦ (x.1, x.2.rcvBuf, some x.2.rcvTotalLen) := by
  have hfd' : ¬ fd < 0 := by omega
  have hn' : ¬ (n : ℤ) ≤ 0 := by omega
  simp only [osaTcpRcvBlockFd, hfd', hn', if_false, Int.toNat_natCast]
  exact rcvLoop_eq_run n (.start buf) as

/-- A call returns `OSA_SOK` exactly if the answers bring enough bytes before a 0, an error that is
not retryable or the third retryable one. -/
theorem rcvReturns_sok_iff (hn : 1 ≤ n) {k : ℕ}
    (h : (rcvCallLoop n).Returns (.start buf) (f.take k) (st, t)) :
    st = osaSok ↔ ∃ j, Serves n ((f.take j).map RecvAnswer.event) := by
  have hcall := osaTcpRcvBlockFd_eq_run hn le_rfl buf
  constructor
  · intro hok
    have hk := hcall (f.take k)
    rw [h.run] at hk
    obtain ⟨r, hr, hvalue⟩ := Option.map_eq_some_iff.mp hk
    obtain ⟨-, -, pre, hpre, hserves⟩ := (osaTcpRcvBlockFd_sok_iff le_rfl buf).mp
      ⟨r, hr, (congrArg Prod.fst hvalue).trans hok⟩
    have htake := List.prefix_iff_eq_take.mp hpre
    rw [← List.map_take, Stream'.take_take] at htake
    exact ⟨_, htake ▸ hserves⟩
  · rintro ⟨j, hserves⟩
    have hstream : n ≤ (arrivedBytes (f.take j)).length := sum_bytes (f.take j) ▸ hserves.enough
    have hpos : (0 : ℤ) < n := by omega
    obtain ⟨r, hr, hok⟩ :=
      (osaTcpRcvBlockFd_sok_iff le_rfl buf).mpr ⟨hpos, hserves.arrives hstream⟩
    have hj := hcall (f.take j)
    rw [hr] at hj
    obtain ⟨x, hx, hvalue⟩ := Option.map_eq_some_iff.mp hj.symm
    obtain rfl := Loop.run_take_unique h.run hx
    exact (congrArg Prod.fst hvalue).trans hok

/-- A call for `n` bytes takes some first answers and returns; the bytes they bring, up to the
`n`-th, are stored in order from the start of the buffer on, and counted. Nothing is written behind
the first `n` bytes of the buffer. -/
def ReceivesExactly (fd : ℤ) (buf : List UInt8) (n : ℕ) (f : Stream' RecvAnswer) : Prop :=
  ∃ k st t, (rcvCallLoop n).Returns (.start buf) (f.take k) (st, t) ∧
    (∃ rest, osaTcpRcvBlockFd fd (some buf) n (arrivedBytes (f.take k))
      ((f.take k).map RecvAnswer.event) = some ⟨st, t.rcvBuf, some t.rcvTotalLen, rest⟩) ∧
    t.rcvBuf = Bytes.store buf 0 ((arrivedBytes (f.take k)).take n) ∧ t.rcvBuf.drop n = buf.drop n ∧
    t.rcvTotalLen = ((arrivedBytes (f.take k)).take n).length ∧
    (st = osaSok ∨ st = osaEfail) ∧ (st = osaSok ↔ t.rcvTotalLen = n) ∧
    (st = osaSok ↔ ∃ j, Serves n ((f.take j).map RecvAnswer.event))

theorem receivesExactly (hn : 1 ≤ n) (hfd : 0 ≤ fd) (hbuf : n ≤ buf.length)
    (f : Stream' RecvAnswer) : ReceivesExactly fd buf n f := by
  obtain ⟨k, st, t, h⟩ := exists_rcvReturns n (.start buf) f
  obtain ⟨hstored, hended⟩ := rcvReturns_stored h (Nat.zero_le n) hbuf
  have hcall := osaTcpRcvBlockFd_eq_run hn hfd buf (f.take k)
  rw [h.run] at hcall
  obtain ⟨⟨st', buf', readlen, rest⟩, hr, hvalue⟩ := Option.map_eq_some_iff.mp hcall
  cases hvalue
  refine ⟨k, st, t, h, ⟨rest, hr⟩, hstored.rcvBuf, ?_, ?_, hended.status, hended.sok_iff,
    rcvReturns_sok_iff hn h⟩
  · rw [hstored.rcvBuf]
    apply Bytes.drop_store buf _ _ (Nat.zero_le _)
    rw [List.length_take]
    simp only [RcvState.start]
    omega
  · rw [hstored.rcvTotalLen]
    exact Nat.zero_add _

/-! ## `OSA_tcpSndNonblockFd` -/

/-- What `select` returns, whether it leaves the descriptor in the set, and what `send` returns if
it is called. -/
structure SndAnswer where
  retSelect : ℤ
  isset : Bool
  sndBytes : ℤ
  deriving DecidableEq, Repr

/-- A `send` takes no more than it is given. -/
def sndAnswerTurn (sndTempLen : ℕ) (s : SndState) (a : SndAnswer) : SndState ⊕ (ℤ × SndState) :=
  let s := { s with sndSet := a.isset, calls := s.calls ++ [.select a.retSelect] }
  if a.retSelect < 0 then .inr (osaEfail, s)
  else if a.retSelect = 0 then
    if s.tries > 5 then .inr (osaEfail, s) else .inl { s with tries := s.tries + 1 }
  else if s.sndSet then
    let len := sndTempLen - s.sndTotalLen
    let sndBytes := min a.sndBytes len
    let s := { s with calls := s.calls ++ [.send s.sndTotalLen len sndBytes] }
    if sndBytes ≤ 0 then .inr (osaEfail, s)
    else .inl { s with sndTotalLen := s.sndTotalLen + sndBytes.toNat }
  else .inr (osaEfail, s)

def sndAnswerLoop (sndTempLen : ℕ) : Loop SndState SndAnswer (ℤ × SndState) where
  finish := fun s ↦ if s.sndTotalLen < sndTempLen then none else some (osaSok, s)
  turn := sndAnswerTurn sndTempLen

/-- The call on any answers. -/
def osaTcpSndNonblockFdAnswers (fd : ℤ) (sndBuf : Option (List UInt8)) (sndLen : ℤ)
    (as : List SndAnswer) : Option SndResult :=
  match sndBuf with
  | none => some ⟨osaEfail, sndLen, []⟩
  | some buf =>
    if fd < 0 then some ⟨osaEfail, sndLen, []⟩
    else if sndLen ≤ 0 then some ⟨osaEfail, sndLen, []⟩
    else ((sndAnswerLoop sndLen.toNat).run .start as).map
      fun x ↦ ⟨x.1, x.2.sndTotalLen, sentBytes buf x.2.calls⟩

section

variable {s s' t : SndState} {a : SndAnswer} {as : List SndAnswer}

/-- `select` has returned. -/
def SndState.selected (s : SndState) (a : SndAnswer) : SndState :=
  { s with sndSet := a.isset, calls := s.calls ++ [.select a.retSelect] }

/-- `send` has returned. -/
def SndState.sending (s : SndState) (len : ℕ) (sndBytes : ℤ) : SndState :=
  { s with
    sndTotalLen := s.sndTotalLen + sndBytes.toNat
    calls := s.calls ++ [.send s.sndTotalLen len sndBytes] }

/-- Every turn with the guards under which it is taken. -/
inductive SndAnswerTurn (len : ℕ) (s : SndState) (a : SndAnswer) :
    SndState ⊕ (ℤ × SndState) → Prop
  | retry (hsel : a.retSelect = 0) (htries : s.tries ≤ 5) :
      SndAnswerTurn len s a (.inl { s.selected a with tries := s.tries + 1 })
  | sent (hsel : 0 < a.retSelect) (hset : a.isset = true)
      (hpos : 0 < min a.sndBytes (len - s.sndTotalLen : ℕ)) :
      SndAnswerTurn len s a (.inl ((s.selected a).sending (len - s.sndTotalLen)
        (min a.sndBytes (len - s.sndTotalLen : ℕ))))
  | failed (hsel : a.retSelect < 0 ∨ a.retSelect = 0 ∧ 5 < s.tries ∨
      0 < a.retSelect ∧ a.isset = false) : SndAnswerTurn len s a (.inr (osaEfail, s.selected a))
  | refused (hsel : 0 < a.retSelect) (hset : a.isset = true)
      (hnone : min a.sndBytes (len - s.sndTotalLen : ℕ) ≤ 0) :
      SndAnswerTurn len s a (.inr (osaEfail, (s.selected a).sending (len - s.sndTotalLen)
        (min a.sndBytes (len - s.sndTotalLen : ℕ))))

theorem sndAnswerTurn_eq (len : ℕ) (s : SndState) (a : SndAnswer) :
    SndAnswerTurn len s a (sndAnswerTurn len s a) := by
  obtain ⟨retSelect, isset, sndBytes⟩ := a
  rcases lt_trichotomy retSelect 0 with hneg | rfl | hpos
  · simp only [sndAnswerTurn, hneg, if_true]
    exact .failed (Or.inl hneg)
  · simp only [sndAnswerTurn, lt_irrefl, if_true, if_false]
    split
    · next htries => exact .failed (Or.inr (Or.inl ⟨rfl, htries⟩))
    · next htries => exact .retry rfl (not_lt.mp htries)
  · simp only [sndAnswerTurn, not_lt.mpr hpos.le, hpos.ne', if_false]
    cases isset with
    | false => exact .failed (Or.inr (Or.inr ⟨hpos, rfl⟩))
    | true =>
        simp only [if_true]
        split
        · next hnone =>
          have h := SndAnswerTurn.refused (a := ⟨retSelect, true, sndBytes⟩) hpos rfl hnone
          rwa [SndState.sending, Int.toNat_of_nonpos hnone] at h
        · next hsome => exact .sent hpos rfl (not_le.mp hsome)

theorem sndAnswerTurn_inl (h : (sndAnswerLoop len).turn s a = .inl s') :
    SndAnswerTurn len s a (.inl s') :=
  h ▸ sndAnswerTurn_eq len s a

theorem sndAnswerTurn_inr {x : ℤ × SndState} (h : (sndAnswerLoop len).turn s a = .inr x) :
    SndAnswerTurn len s a (.inr x) :=
  h ▸ sndAnswerTurn_eq len s a

theorem sndAnswerLoop_finish_none (h : (sndAnswerLoop len).finish s = none) :
    s.sndTotalLen < len := by
  by_contra hge
  simp [sndAnswerLoop, hge] at h

/-- Every turn that does not return counts a timeout or sends. -/
theorem exists_sndAnswerReturns (len : ℕ) (s : SndState) (g : Stream' SndAnswer) :
    ∃ k st t, (sndAnswerLoop len).Returns s (g.take k) (st, t) := by
  have hdecreases : ∀ s a s', (sndAnswerLoop len).finish s = none →
      (sndAnswerLoop len).turn s a = .inl s' →
      (len - s'.sndTotalLen) + (6 - s'.tries) < (len - s.sndTotalLen) + (6 - s.tries) := by
    intro s a s' _ hturn
    cases sndAnswerTurn_inl hturn with
    | retry hsel htries =>
        simp only [SndState.selected]
        omega
    | sent hsel hset hpos =>
        simp only [SndState.sending, SndState.selected]
        omega
  obtain ⟨k, ⟨st, t⟩, h⟩ := Loop.exists_returns _ hdecreases s g
  exact ⟨k, st, t, h⟩

theorem SndState.Sent.selected (h : s.Sent buf) (a : SndAnswer) : (s.selected a).Sent buf :=
  ⟨h.total, (sentBytes_select _ _ _).trans h.bytes⟩

theorem SndState.Sent.sending (h : s.Sent buf) {sndBytes : ℤ}
    (hbytes : s.sndTotalLen + sndBytes.toNat ≤ buf.length) (len : ℕ) :
    (s.sending len sndBytes).Sent buf where
  total := hbytes
  bytes := by rw [SndState.sending, sentBytes_send, h.bytes, Bytes.slice, List.take_add]

/-- The bytes up to `sndTotalLen` have been sent, and the call has failed if they are not all. -/
theorem sndAnswerReturns_sent (h : (sndAnswerLoop len).Returns s as (st, t)) (hs : s.Sent buf)
    (htotal : s.sndTotalLen ≤ len) (hbuf : len ≤ buf.length) :
    t.Sent buf ∧ EndedAfter len t.sndTotalLen st := by
  generalize hr : (st, t) = r at h
  induction h with
  | finish hfinish =>
      subst hr
      simp only [sndAnswerLoop] at hfinish
      split at hfinish
      · cases hfinish
      · cases hfinish
        exact ⟨hs, Or.inl ⟨rfl, by omega⟩⟩
  | stop hfinish hturn =>
      subst hr
      have hlt := sndAnswerLoop_finish_none hfinish
      cases sndAnswerTurn_inr hturn with
      | failed hsel => exact ⟨hs.selected _, Or.inr ⟨rfl, hlt⟩⟩
      | refused hsel hset hnone =>
          have hzero := Int.toNat_of_nonpos hnone
          refine ⟨(hs.selected _).sending ?_ _, Or.inr ⟨rfl, ?_⟩⟩
          · rw [hzero]
            exact hs.total
          · rw [SndState.sending, hzero]
            exact hlt
  | turn hfinish hturn h ih =>
      have hlt := sndAnswerLoop_finish_none hfinish
      cases sndAnswerTurn_inl hturn with
      | retry hsel htries => exact ih ⟨hs.total, (hs.selected _).bytes⟩ htotal hr
      | sent hsel hset hpos =>
          apply ih ((hs.selected _).sending _ _) _ hr
          · simp only [SndState.selected]
            omega
          · simp only [SndState.sending, SndState.selected]
            omega

end

/-! ## The answers of a POSIX `select` -/

/-- What a turn answers, as the set that is passed to `select` has it. -/
def SndEvent.answer (sndSet : Bool) (e : SndEvent) : SndAnswer :=
  ⟨(select sndSet e).1, (select sndSet e).2, e.taken⟩

def answers : Bool → List SndEvent → List SndAnswer
  | _, [] => []
  | sndSet, e :: es => e.answer sndSet :: answers (select sndSet e).2 es

theorem sndTurn_eq_answer (len : ℕ) (s : SndState) (e : SndEvent) :
    sndTurn len s e = sndAnswerTurn len s (e.answer s.sndSet) := by
  have hmin : ∀ a b : ℕ, min (a : ℤ) b = (min a b : ℕ) := fun a b ↦ by omega
  simp only [sndTurn, sndAnswerTurn, SndEvent.answer, hmin, Int.toNat_natCast,
    Int.natCast_nonpos_iff, Nat.le_zero]

theorem sndTurn_sndSet {s s' : SndState} {e : SndEvent} (h : (sndCallLoop len).turn s e = .inl s') :
    s'.sndSet = (select s.sndSet e).2 := by
  cases sndTurn_inl h with
  | retry hsel htries => rw [hsel, SndState.retried_sndSet]
  | sent n hset hpos => rw [select, hset]; exact hset

theorem sndCallLoop_run (len : ℕ) (s : SndState) (es : List SndEvent) :
    (sndCallLoop len).run s es = (sndAnswerLoop len).run s (answers s.sndSet es) := by
  induction es generalizing s with
  | nil => rfl
  | cons e es ih =>
      cases hfinish : (sndCallLoop len).finish s with
      | some x =>
          have hfinish' : (sndAnswerLoop len).finish s = some x := hfinish
          simp only [answers, Loop.run, hfinish, hfinish']
      | none =>
          have hfinish' : (sndAnswerLoop len).finish s = none := hfinish
          cases hturn : (sndCallLoop len).turn s e with
          | inl s' =>
              have hturn' := (sndTurn_eq_answer len s e).symm.trans hturn
              rw [answers, Loop.run_cons_inl hfinish hturn, Loop.run_cons_inl hfinish' hturn', ih,
                sndTurn_sndSet hturn]
          | inr x =>
              have hturn' := (sndTurn_eq_answer len s e).symm.trans hturn
              rw [answers, Loop.run_cons_inr hfinish hturn, Loop.run_cons_inr hfinish' hturn']

/-- Where `select` follows POSIX, the call is the one of the model. -/
theorem osaTcpSndNonblockFd_eq_answers {fd sndLen : ℤ} {sndBuf : Option (List UInt8)}
    (hbuf : ∀ buf, sndBuf = some buf → sndLen.toNat ≤ buf.length) (es : List SndEvent) :
    osaTcpSndNonblockFd fd sndBuf sndLen es =
      osaTcpSndNonblockFdAnswers fd sndBuf sndLen (answers true es) := by
  cases sndBuf with
  | none => rfl
  | some buf =>
      have hlen := hbuf buf rfl
      simp only [osaTcpSndNonblockFd, osaTcpSndNonblockFdAnswers]
      split
      · rfl
      · split
        · rfl
        · have hloop := sndLoop_eq_run buf sndLen.toNat .start es
          rw [sndCallLoop_run] at hloop
          refine hloop.trans ?_
          cases hrun : (sndAnswerLoop sndLen.toNat).run .start (answers true es) with
          | none => exact congrArg _ hrun
          | some x =>
              obtain ⟨pre, -, h⟩ := Loop.exists_returns_of_run hrun
              have hstart : SndState.start.Sent buf := ⟨Nat.zero_le _, rfl⟩
              obtain ⟨hsent, -⟩ := sndAnswerReturns_sent h hstart (Nat.zero_le _) hlen
              rw [show SndState.start.sndSet = true from rfl, hrun, Option.map_some,
                Option.map_some, hsent.bytes]

/-- A call for `n` bytes takes some first answers and returns; the bytes that its `send`s took, one
after the other, are the first `*SndLen` of the buffer. -/
def SendsExactly (fd : ℤ) (buf : List UInt8) (n : ℕ) (g : Stream' SndAnswer) : Prop :=
  ∃ k st t, (sndAnswerLoop n).Returns .start (g.take k) (st, t) ∧
    osaTcpSndNonblockFdAnswers fd (some buf) n (g.take k) =
      some ⟨st, t.sndTotalLen, sentBytes buf t.calls⟩ ∧
    t.sndTotalLen ≤ n ∧ sentBytes buf t.calls = buf.take t.sndTotalLen ∧
    (st = osaSok ∨ st = osaEfail) ∧ (st = osaSok ↔ t.sndTotalLen = n)

theorem sendsExactly (hn : 1 ≤ n) (hfd : 0 ≤ fd) (hbuf : n ≤ buf.length) (g : Stream' SndAnswer) :
    SendsExactly fd buf n g := by
  have hfd' : ¬ fd < 0 := by omega
  have hn' : ¬ (n : ℤ) ≤ 0 := by omega
  obtain ⟨k, st, t, h⟩ := exists_sndAnswerReturns n .start g
  obtain ⟨hsent, hended⟩ := sndAnswerReturns_sent h ⟨Nat.zero_le _, rfl⟩ (Nat.zero_le n) hbuf
  refine ⟨k, st, t, h, ?_, hended.le, hsent.bytes, hended.status, hended.sok_iff⟩
  simp only [osaTcpSndNonblockFdAnswers, hfd', hn', if_false, Int.toNat_natCast, h.run,
    Option.map_some]

/-- Both transfers are exact, whatever the kernel answers. -/
theorem transfers_exact {n : ℕ} {fd : ℤ} {rcvBuf sndBuf : List UInt8} (hn : 1 ≤ n) (hfd : 0 ≤ fd)
    (hrcv : n ≤ rcvBuf.length) (hsnd : n ≤ sndBuf.length) (f : Stream' RecvAnswer)
    (g : Stream' SndAnswer) : ReceivesExactly fd rcvBuf n f ∧ SendsExactly fd sndBuf n g :=
  ⟨receivesExactly hn hfd hrcv f, sendsExactly hn hfd hsnd g⟩

/-- One byte a call. -/
theorem transfers_exact_single :
    ReceivesExactly 3 [0, 0] 2 (fun _ ↦ .bytes 7 []) ∧
      SendsExactly 3 [1, 2] 2 (fun _ ↦ ⟨1, true, 1⟩) :=
  transfers_exact (by decide) (by decide) (by decide) (by decide) _ _

end OsaBase
