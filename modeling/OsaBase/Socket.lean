import OsaBase.Lib.Bytes
import OsaBase.Osa

/-!
# The transfer loops of `osa_socket.c`

A schedule lists what the kernel answers at each turn of a loop; a loop whose schedule has run
out is still waiting. `select` follows POSIX: on return the set holds the ready descriptors of the
set that was passed in, and after a timeout it is empty. `FD_SET` is for descriptors below
`FD_SETSIZE`, and all results about sends are about these. `recv` takes bytes off the front of the
stream the peer wrote, any positive number up to what is asked for.
-/

namespace OsaBase

/-! ## `OSA_tcpSndNonblockFd` -/

/-- One turn of the send loop: `select` fails, or the socket does not become writable in time, or
it does and `send` takes up to `n` bytes (none: it fails). -/
inductive SndEvent
  | selectError
  | notWritable
  | writable (n : ℕ)
  deriving DecidableEq, Repr

/-- `select` on a set that holds the descriptor or is empty: what it returns and what it leaves
in the set. -/
def select (sndSet : Bool) : SndEvent → ℤ × Bool
  | .selectError => (-1, sndSet)
  | .notWritable => (0, false)
  | .writable _ => if sndSet then (1, true) else (0, false)

def SndEvent.taken : SndEvent → ℕ
  | .writable n => n
  | _ => 0

/-- The status of a send, the final `*SndLen`, and the bytes that were transmitted. -/
structure SndResult where
  status : ℤ
  sndLen : ℤ
  sent : List UInt8
  deriving DecidableEq, Repr

def sndLoop (sndBuf : List UInt8) (sndTempLen : ℕ) (tries : ℕ) (sndSet : Bool) (sndTotalLen : ℕ) :
    List SndEvent → Option SndResult
  | [] =>
    if sndTotalLen < sndTempLen then none
    else some ⟨osaSok, sndTotalLen, sndBuf.take sndTotalLen⟩
  | e :: es =>
    if sndTotalLen < sndTempLen then
      let retSelect := (select sndSet e).1
      let sndSet := (select sndSet e).2
      if retSelect < 0 then
        some ⟨osaEfail, sndTotalLen, sndBuf.take sndTotalLen⟩
      else if retSelect = 0 then
        if tries > 5 then some ⟨osaEfail, sndTotalLen, sndBuf.take sndTotalLen⟩
        else sndLoop sndBuf sndTempLen (tries + 1) sndSet sndTotalLen es
      else if sndSet then
        let sndBytes := min e.taken (sndTempLen - sndTotalLen)
        if sndBytes ≤ 0 then some ⟨osaEfail, sndTotalLen, sndBuf.take sndTotalLen⟩
        else sndLoop sndBuf sndTempLen tries sndSet (sndTotalLen + sndBytes) es
      else some ⟨osaEfail, sndTotalLen, sndBuf.take sndTotalLen⟩
    else some ⟨osaSok, sndTotalLen, sndBuf.take sndTotalLen⟩

def osaTcpSndNonblockFd (fd : ℤ) (sndBuf : Option (List UInt8)) (sndLen : ℤ)
    (es : List SndEvent) : Option SndResult :=
  match sndBuf with
  | none => some ⟨osaEfail, sndLen, []⟩
  | some buf =>
    if fd < 0 then some ⟨osaEfail, sndLen, []⟩
    else if sndLen ≤ 0 then some ⟨osaEfail, sndLen, []⟩
    else sndLoop buf sndLen.toNat 0 true 0 es

/-- A send of `len` bytes ended well with all of them on the wire, or failed with fewer. -/
def SndResult.Sends (r : SndResult) (buf : List UInt8) (len : ℕ) : Prop :=
  (r.status = osaSok ∧ r.sent = buf.take len) ∨
    (r.status = osaEfail ∧ ∃ k < len, r.sent = buf.take k)

theorem sndLoop_sends {buf : List UInt8} {len tries total : ℕ} {set : Bool} {es : List SndEvent}
    {r : SndResult} (htotal : total ≤ len) (h : sndLoop buf len tries set total es = some r) :
    r.Sends buf len := by
  have hdone : ¬ total < len → SndResult.Sends ⟨osaSok, total, buf.take total⟩ buf len := by
    intro hlt
    obtain rfl : total = len := by omega
    exact Or.inl ⟨rfl, rfl⟩
  have hfail : total < len → SndResult.Sends ⟨osaEfail, total, buf.take total⟩ buf len :=
    fun hlt ↦ Or.inr ⟨rfl, total, hlt, rfl⟩
  induction es generalizing tries set total with
  | nil =>
      simp only [sndLoop] at h
      split at h
      · cases h
      · cases h
        exact hdone ‹_›
  | cons e es ih =>
      simp only [sndLoop] at h
      split at h
      · next hlt =>
        split at h
        · cases h
          exact hfail hlt
        · split at h
          · split at h
            · cases h
              exact hfail hlt
            · exact ih htotal h hdone hfail
          · split at h
            · split at h
              · cases h
                exact hfail hlt
              · refine ih (by omega) h (fun hlt' ↦ ?_) fun hlt' ↦ Or.inr ⟨rfl, _, hlt', rfl⟩
                exact Or.inl ⟨rfl, by simp only; congr 1; omega⟩
            · cases h
              exact hfail hlt
      · cases h
        exact hdone ‹_›

theorem osaTcpSndNonblockFd_sends {fd : ℤ} {buf : List UInt8} {len : ℕ} {es : List SndEvent}
    {r : SndResult} (hlen : 0 < len) (h : osaTcpSndNonblockFd fd (some buf) len es = some r) :
    r.Sends buf len := by
  simp only [osaTcpSndNonblockFd] at h
  split at h
  · cases h
    exact Or.inr ⟨rfl, 0, hlen, rfl⟩
  · split at h
    · omega
    · exact sndLoop_sends (Nat.zero_le _) h

/-- The answers to one call for `len` bytes on a connection that takes them, in any pieces. -/
structure Accepts (len : ℕ) (es : List SndEvent) : Prop where
  writable : ∀ e ∈ es, 0 < e.taken
  enough : len ≤ (es.map SndEvent.taken).sum

theorem sndLoop_completes {buf : List UInt8} {len total : ℕ} {es : List SndEvent}
    (hwritable : ∀ e ∈ es, 0 < e.taken) (henough : len - total ≤ (es.map SndEvent.taken).sum) :
    ∃ r, sndLoop buf len 0 true total es = some r ∧ r.status = osaSok := by
  induction es generalizing total with
  | nil =>
      have hge : ¬ total < len := by
        simp only [List.map_nil, List.sum_nil] at henough
        omega
      exact ⟨_, by rw [sndLoop, if_neg hge], rfl⟩
  | cons e es ih =>
      by_cases hlt : total < len
      · cases e with
        | writable n =>
            have hn : 0 < n := hwritable _ List.mem_cons_self
            have hsome : ¬ min n (len - total) ≤ 0 := by omega
            simp only [sndLoop, hlt, if_true, select, SndEvent.taken, hsome, if_false,
              show ¬ (1 : ℤ) < 0 by decide, one_ne_zero]
            refine ih (fun e he ↦ hwritable e (List.mem_cons_of_mem _ he)) ?_
            simp only [List.map_cons, List.sum_cons, SndEvent.taken] at henough
            omega
        | selectError | notWritable => exact (lt_irrefl 0 (hwritable _ List.mem_cons_self)).elim
      · exact ⟨_, by rw [sndLoop, if_neg hlt], rfl⟩

theorem Accepts.sends {len : ℕ} {es : List SndEvent} (h : Accepts len es) {fd : ℤ} (hfd : 0 ≤ fd)
    (buf : List UInt8) (hlen : 0 < len) :
    ∃ r, osaTcpSndNonblockFd fd (some buf) len es = some r ∧ r.status = osaSok ∧
      r.sent = buf.take len := by
  have hok : ¬ fd < 0 ∧ ¬ (len : ℤ) ≤ 0 := by omega
  obtain ⟨r, hr, hst⟩ : ∃ r, sndLoop buf len 0 true 0 es = some r ∧ r.status = osaSok :=
    sndLoop_completes h.writable (by simpa using h.enough)
  have hcall : osaTcpSndNonblockFd fd (some buf) len es = some r := by
    simp only [osaTcpSndNonblockFd, hok.1, hok.2, if_false, Int.toNat_natCast, hr]
  refine ⟨r, hcall, hst, ?_⟩
  rcases osaTcpSndNonblockFd_sends hlen hcall with ⟨-, hsent⟩ | ⟨hfail, -⟩
  · exact hsent
  · exact (osaEfail_ne_osaSok (hfail.symm.trans hst)).elim

/-! ## `OSA_tcpRcvBlockFd` -/

/-- What `recv` answers: up to `n` bytes, `EAGAIN`, `EWOULDBLOCK` or `EINTR`, another error, or
the end of the connection. -/
inductive RcvEvent
  | data (n : ℕ)
  | timeout
  | error
  | closed
  deriving DecidableEq, Repr

/-- The status of a receive, the buffer, what it stored at `*readlen` last, and what is left of the
stream. -/
structure RcvResult where
  status : ℤ
  rcvBuf : List UInt8
  readlen : Option ℕ
  stream : List UInt8
  deriving DecidableEq, Repr

/-- A `recv` that finds no byte does not return. -/
def rcvLoop (rcvLen : ℕ) (rcvBuf : List UInt8) (rcvTotalLen timeoutCnt : ℕ) (stream : List UInt8) :
    List RcvEvent → Option RcvResult
  | [] =>
    if rcvTotalLen < rcvLen then none else some ⟨osaSok, rcvBuf, some rcvTotalLen, stream⟩
  | e :: es =>
    if rcvTotalLen < rcvLen then
      match e with
      | .data n =>
        let bytes := stream.take (min n (rcvLen - rcvTotalLen))
        if bytes.length = 0 then none
        else rcvLoop rcvLen (Bytes.store rcvBuf rcvTotalLen bytes) (rcvTotalLen + bytes.length)
          timeoutCnt (stream.drop bytes.length) es
      | .timeout =>
        if timeoutCnt + 1 < 3 then
          rcvLoop rcvLen rcvBuf rcvTotalLen (timeoutCnt + 1) stream es
        else some ⟨osaEfail, rcvBuf, some rcvTotalLen, stream⟩
      | .error | .closed => some ⟨osaEfail, rcvBuf, some rcvTotalLen, stream⟩
    else some ⟨osaSok, rcvBuf, some rcvTotalLen, stream⟩

def osaTcpRcvBlockFd (fd : ℤ) (rcvBuf : Option (List UInt8)) (rcvLen : ℤ) (stream : List UInt8)
    (es : List RcvEvent) : Option RcvResult :=
  match rcvBuf with
  | none => some ⟨osaEfail, [], none, stream⟩
  | some buf =>
    if fd < 0 then some ⟨osaEfail, buf, none, stream⟩
    else if rcvLen ≤ 0 then some ⟨osaEfail, buf, none, stream⟩
    else rcvLoop rcvLen.toNat buf 0 0 stream es

theorem rcvLoop_full {len total cnt : ℕ} (hfull : ¬ total < len) (buf stream : List UInt8)
    (es : List RcvEvent) :
    rcvLoop len buf total cnt stream es = some ⟨osaSok, buf, some total, stream⟩ := by
  cases es <;> simp only [rcvLoop, hfull, if_false]

/-- What the loop does until it returns. -/
inductive RcvReturns (len : ℕ) :
    List UInt8 → ℕ → ℕ → List UInt8 → List RcvEvent → RcvResult → Prop
  | full {buf : List UInt8} {total cnt : ℕ} {stream : List UInt8} (es : List RcvEvent)
      (hfull : ¬ total < len) :
      RcvReturns len buf total cnt stream es ⟨osaSok, buf, some total, stream⟩
  | data {buf : List UInt8} {total cnt : ℕ} {stream : List UInt8} {es : List RcvEvent}
      {r : RcvResult} (n : ℕ) (bytes : List UInt8) (hlt : total < len)
      (hbytes : bytes = stream.take (min n (len - total))) (hpos : 0 < bytes.length)
      (h : RcvReturns len (Bytes.store buf total bytes) (total + bytes.length) cnt
        (stream.drop bytes.length) es r) : RcvReturns len buf total cnt stream (.data n :: es) r
  | timeout {buf : List UInt8} {total cnt : ℕ} {stream : List UInt8} {es : List RcvEvent}
      {r : RcvResult} (hlt : total < len) (hcnt : cnt + 1 < 3)
      (h : RcvReturns len buf total (cnt + 1) stream es r) :
      RcvReturns len buf total cnt stream (.timeout :: es) r
  | failed {buf : List UInt8} {total cnt : ℕ} {stream : List UInt8} (e : RcvEvent)
      (es : List RcvEvent) (hlt : total < len)
      (he : e = .error ∨ e = .closed ∨ e = .timeout ∧ ¬ cnt + 1 < 3) :
      RcvReturns len buf total cnt stream (e :: es) ⟨osaEfail, buf, some total, stream⟩

theorem rcvReturns {len total cnt : ℕ} {buf stream : List UInt8} {es : List RcvEvent}
    {r : RcvResult} (h : rcvLoop len buf total cnt stream es = some r) :
    RcvReturns len buf total cnt stream es r := by
  induction es generalizing total cnt buf stream with
  | nil =>
      simp only [rcvLoop] at h
      split at h
      · cases h
      · next hfull =>
        cases h
        exact .full [] hfull
  | cons e es ih =>
      by_cases hlt : total < len
      · cases e with
        | data n =>
            simp only [rcvLoop, hlt, if_true] at h
            split at h
            · cases h
            · next hne => exact .data n _ hlt rfl (Nat.pos_of_ne_zero hne) (ih h)
        | timeout =>
            simp only [rcvLoop, hlt, if_true] at h
            split at h
            · next hcnt => exact .timeout hlt hcnt (ih h)
            · next hcnt =>
              cases h
              exact .failed .timeout es hlt (Or.inr (Or.inr ⟨rfl, hcnt⟩))
        | error =>
            simp only [rcvLoop, hlt, if_true] at h
            cases h
            exact .failed .error es hlt (Or.inl rfl)
        | closed =>
            simp only [rcvLoop, hlt, if_true] at h
            cases h
            exact .failed .closed es hlt (Or.inr (Or.inl rfl))
      · rw [rcvLoop_full hlt] at h
        cases h
        exact .full (e :: es) hlt

/-- The answers that are left over do not matter. -/
theorem RcvReturns.rcvLoop_append {len total cnt : ℕ} {buf stream : List UInt8}
    {es : List RcvEvent} {r : RcvResult} (h : RcvReturns len buf total cnt stream es r)
    (more : List RcvEvent) : rcvLoop len buf total cnt stream (es ++ more) = some r := by
  induction h with
  | full es hfull => exact rcvLoop_full hfull _ _ _
  | data n bytes hlt hbytes hpos h ih =>
      subst hbytes
      simp only [List.cons_append, rcvLoop, hlt, if_true, hpos.ne', if_false]
      exact ih
  | timeout hlt hcnt h ih =>
      simp only [List.cons_append, rcvLoop, hlt, hcnt, if_true]
      exact ih
  | failed e es hlt he =>
      rcases he with rfl | rfl | ⟨rfl, hcnt⟩
      · simp only [List.cons_append, rcvLoop, hlt, if_true]
      · simp only [List.cons_append, rcvLoop, hlt, if_true]
      · simp only [List.cons_append, rcvLoop, hlt, hcnt, if_true, if_false]

/-- A receive that ends well took exactly the bytes asked for off the stream and stored them in
order; one that fails took some. -/
def RcvResult.Takes (r : RcvResult) (buf : List UInt8) (off len : ℕ) (stream : List UInt8) : Prop :=
  (r.status = osaEfail ∧ r.stream <:+ stream) ∨ (r.status = osaSok ∧ ∃ bytes, bytes.length = len ∧
    stream = bytes ++ r.stream ∧ r.rcvBuf = Bytes.store buf off bytes)

theorem RcvReturns.takes {len total cnt : ℕ} {buf stream : List UInt8} {es : List RcvEvent}
    {r : RcvResult} (h : RcvReturns len buf total cnt stream es r) (htotal : total ≤ len)
    (hbuf : len ≤ buf.length) : r.Takes buf total (len - total) stream := by
  induction h with
  | full es hfull =>
      exact Or.inr ⟨rfl, [], by simp only [List.length_nil]; omega, rfl,
        (Bytes.store_nil _ _).symm⟩
  | @data buf total cnt stream es r n bytes hlt hbytes hpos h ih =>
      have hle : bytes.length ≤ len - total := by
        rw [hbytes, List.length_take]
        omega
      have hstore : (Bytes.store buf total bytes).length = buf.length :=
        Bytes.length_store (by omega)
      have hsplit : bytes ++ stream.drop bytes.length = stream :=
        List.prefix_iff_eq_append.mp (hbytes ▸ List.take_prefix _ _)
      rcases ih (by omega) (by omega) with ⟨hfail, hsuf⟩ | ⟨hok, rest, hlen, hstream, hrcv⟩
      · exact Or.inl ⟨hfail, hsuf.trans (List.drop_suffix _ _)⟩
      · refine Or.inr ⟨hok, bytes ++ rest, ?_, ?_, ?_⟩
        · rw [List.length_append]
          omega
        · rw [List.append_assoc, ← hstream, hsplit]
        · rw [hrcv, Bytes.store_store _ _ _ (by omega)]
  | timeout hlt hcnt h ih => exact ih htotal hbuf
  | failed => exact Or.inl ⟨rfl, List.suffix_rfl⟩

theorem osaTcpRcvBlockFd_takes {fd len : ℤ} {buf stream : List UInt8} {es : List RcvEvent}
    {r : RcvResult} (hbuf : len.toNat ≤ buf.length)
    (h : osaTcpRcvBlockFd fd (some buf) len stream es = some r) :
    r.Takes buf 0 len.toNat stream := by
  simp only [osaTcpRcvBlockFd] at h
  split at h
  · cases h
    exact Or.inl ⟨rfl, List.suffix_rfl⟩
  · split at h
    · cases h
      exact Or.inl ⟨rfl, List.suffix_rfl⟩
    · exact (rcvReturns h).takes (Nat.zero_le _) hbuf

def RcvEvent.bytes : RcvEvent → ℕ
  | .data n => n
  | _ => 0

/-- Not an error and not the end of the connection. -/
def RcvEvent.patient : RcvEvent → Bool
  | .data n => 0 < n
  | .timeout => true
  | .error | .closed => false

/-- The answers to one call for `len` bytes: enough bytes come, in any pieces, with fewer than three
timeouts in between. -/
structure Serves (len : ℕ) (es : List RcvEvent) : Prop where
  patient : ∀ e ∈ es, e.patient = true
  timeouts : es.count .timeout < 3
  enough : len ≤ (es.map RcvEvent.bytes).sum

theorem rcvLoop_completes {len total cnt : ℕ} {buf stream : List UInt8} {es : List RcvEvent}
    (hpatient : ∀ e ∈ es, e.patient = true)
    (htimeouts : cnt + es.count .timeout < 3) (henough : len - total ≤ (es.map RcvEvent.bytes).sum)
    (hstream : len - total ≤ stream.length) :
    ∃ r, rcvLoop len buf total cnt stream es = some r ∧ r.status = osaSok := by
  induction es generalizing total cnt buf stream with
  | nil =>
      have hge : ¬ total < len := by
        simp only [List.map_nil, List.sum_nil] at henough
        omega
      exact ⟨_, rcvLoop_full hge buf stream [], rfl⟩
  | cons e es ih =>
      by_cases hlt : total < len
      · have hrest : ∀ e ∈ es, e.patient = true :=
          fun e he ↦ hpatient e (List.mem_cons_of_mem _ he)
        have hthis := hpatient e List.mem_cons_self
        cases e with
        | timeout =>
            rw [List.count_cons_self] at htimeouts
            have hcnt : cnt + 1 < 3 := by omega
            simp only [rcvLoop, hlt, hcnt, if_true]
            apply ih hrest (by omega) _ hstream
            simpa [RcvEvent.bytes] using henough
        | data n =>
            have hn : 0 < n := by simpa [RcvEvent.patient] using hthis
            have hlen : (stream.take (min n (len - total))).length = min n (len - total) := by
              rw [List.length_take]
              omega
            have hne : ¬ min n (len - total) = 0 := by omega
            simp only [rcvLoop, hlt, if_true, hlen, hne, if_false]
            apply ih hrest
            · simpa using htimeouts
            · simp only [List.map_cons, List.sum_cons, RcvEvent.bytes] at henough
              omega
            · rw [List.length_drop]
              omega
        | error => cases hthis
        | closed => cases hthis
      · exact ⟨_, rcvLoop_full hlt buf stream (e :: es), rfl⟩

theorem RcvReturns.sok_of_patient {len total cnt : ℕ} {buf stream : List UInt8}
    {es : List RcvEvent} {r : RcvResult} (h : RcvReturns len buf total cnt stream es r)
    (hpatient : ∀ e ∈ es, e.patient = true) (htimeouts : cnt + es.count .timeout < 3) :
    r.status = osaSok := by
  induction h with
  | full => rfl
  | data n bytes hlt hbytes hpos h ih =>
      exact ih (fun e he ↦ hpatient e (List.mem_cons_of_mem _ he)) (by simpa using htimeouts)
  | timeout hlt hcnt h ih =>
      rw [List.count_cons_self] at htimeouts
      exact ih (fun e he ↦ hpatient e (List.mem_cons_of_mem _ he)) (by omega)
  | failed e es hlt he =>
      have hthis := hpatient e List.mem_cons_self
      rcases he with rfl | rfl | ⟨rfl, hcnt⟩
      · cases hthis
      · cases hthis
      · rw [List.count_cons_self] at htimeouts
        omega

theorem RcvReturns.stream_of_noData {len total cnt : ℕ} {buf stream : List UInt8}
    {es : List RcvEvent} {r : RcvResult} (h : RcvReturns len buf total cnt stream es r)
    (hnone : ∀ e ∈ es, e.bytes = 0) : r.stream = stream := by
  induction h with
  | full | failed => rfl
  | data n bytes hlt hbytes hpos h ih =>
      obtain rfl : n = 0 := hnone _ List.mem_cons_self
      simp [hbytes] at hpos
  | timeout hlt hcnt h ih => exact ih fun e he ↦ hnone e (List.mem_cons_of_mem _ he)

/-- With `cnt` timeouts behind it, a call can still get `n` bytes of the stream before an error, the
end of the connection or a third timeout. -/
def ArrivesAfter (cnt n : ℕ) (es : List RcvEvent) (stream : List UInt8) : Prop :=
  n ≤ stream.length ∧ ∃ pre, pre <+: es ∧ (∀ e ∈ pre, e.patient = true) ∧
    cnt + pre.count .timeout < 3 ∧ n ≤ (pre.map RcvEvent.bytes).sum

namespace ArrivesAfter

variable {cnt n m : ℕ} {es : List RcvEvent} {stream : List UInt8}

theorem zero (hcnt : cnt < 3) : ArrivesAfter cnt 0 es stream :=
  ⟨Nat.zero_le _, [], List.nil_prefix, by simp, by simpa using hcnt, Nat.zero_le _⟩

theorem data {j : ℕ} (h : ArrivesAfter cnt m es (stream.drop j)) (hj : 0 < j) (hjn : j ≤ n)
    (hstream : j ≤ stream.length) : ArrivesAfter cnt (j + m) (.data n :: es) stream := by
  obtain ⟨hm, pre, hpre, hpatient, htimeouts, henough⟩ := h
  rw [List.length_drop] at hm
  refine ⟨by omega, .data n :: pre, ?_, ?_, by simpa using htimeouts, ?_⟩
  · simpa using hpre
  · intro e he
    rcases List.mem_cons.mp he with rfl | he
    · simp only [RcvEvent.patient, decide_eq_true_eq]
      omega
    · exact hpatient e he
  · simp only [List.map_cons, List.sum_cons, RcvEvent.bytes]
    omega

theorem timeout (h : ArrivesAfter (cnt + 1) n es stream) :
    ArrivesAfter cnt n (.timeout :: es) stream := by
  obtain ⟨hn, pre, hpre, hpatient, htimeouts, henough⟩ := h
  refine ⟨hn, .timeout :: pre, by simpa using hpre, ?_, ?_, by simpa [RcvEvent.bytes] using henough⟩
  · intro e he
    rcases List.mem_cons.mp he with rfl | he
    · rfl
    · exact hpatient e he
  · rw [List.count_cons_self]
    omega

end ArrivesAfter

theorem RcvReturns.arrives {len total cnt : ℕ} {buf stream : List UInt8} {es : List RcvEvent}
    {r : RcvResult} (h : RcvReturns len buf total cnt stream es r) (hcnt : cnt < 3)
    (htotal : total ≤ len) (hok : r.status = osaSok) :
    ArrivesAfter cnt (len - total) es stream := by
  induction h with
  | full es hfull =>
      obtain rfl := le_antisymm htotal (not_lt.mp hfull)
      rw [Nat.sub_self]
      exact .zero hcnt
  | @data buf total cnt stream es r n bytes hlt hbytes hpos h ih =>
      have hlen : bytes.length = min (min n (len - total)) stream.length := by
        rw [hbytes, List.length_take]
      have hrest := ih hcnt (by omega) hok
      have hsum : len - total = bytes.length + (len - (total + bytes.length)) := by omega
      rw [hsum]
      exact hrest.data hpos (by omega) (by omega)
  | timeout hlt hcnt' h ih => exact (ih hcnt' htotal hok).timeout
  | failed => exact (osaEfail_ne_osaSok hok).elim

/-- Within one call `n` bytes of the stream arrive before an error, the end of the connection or a
third timeout. -/
def Arrives (n : ℕ) (es : List RcvEvent) (stream : List UInt8) : Prop :=
  n ≤ stream.length ∧ ∃ pre, pre <+: es ∧ Serves n pre

theorem Serves.arrives {n : ℕ} {es : List RcvEvent} {stream : List UInt8} (h : Serves n es)
    (hstream : n ≤ stream.length) : Arrives n es stream := ⟨hstream, es, List.prefix_rfl, h⟩

/-- A receive succeeds exactly when the bytes asked for arrive. -/
theorem osaTcpRcvBlockFd_sok_iff {fd len : ℤ} {stream : List UInt8} {es : List RcvEvent}
    (hfd : 0 ≤ fd) (buf : List UInt8) :
    (∃ r, osaTcpRcvBlockFd fd (some buf) len stream es = some r ∧ r.status = osaSok) ↔
      0 < len ∧ Arrives len.toNat es stream := by
  have hfd' : ¬ fd < 0 := by omega
  constructor
  · rintro ⟨r, h, hok⟩
    simp only [osaTcpRcvBlockFd, hfd', if_false] at h
    split at h
    · cases h
      exact (osaEfail_ne_osaSok hok).elim
    · next hlen =>
      obtain ⟨hstream, pre, hpre, hpatient, htimeouts, henough⟩ :=
        (rcvReturns h).arrives (by decide) (Nat.zero_le _) hok
      rw [Nat.sub_zero] at hstream henough
      exact ⟨by omega, hstream, pre, hpre, hpatient, by omega, henough⟩
  · rintro ⟨hlen, hstream, pre, ⟨post, rfl⟩, hserves⟩
    have hlen' : ¬ len ≤ 0 := by omega
    simp only [osaTcpRcvBlockFd, hfd', hlen', if_false]
    obtain ⟨r, hr, hok⟩ := @rcvLoop_completes len.toNat 0 0 buf stream pre hserves.patient
      (by simpa using hserves.timeouts) (by simpa using hserves.enough) (by simpa using hstream)
    exact ⟨r, (rcvReturns hr).rcvLoop_append post, hok⟩

end OsaBase
