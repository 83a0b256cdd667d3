import OsaBase.Communication.Head
import OsaBase.Socket

/-!
# The receive loops

The MSG_TYPE branch of `OSA_processClient_thread` and the loop of `OSA_client_processThr` on one
connection. A turn receives a header, checks it, receives the payload into a buffer and calls the
application; whichever way it ends, `ret` decides at `EXIT` whether the connection is dropped. No
request to stop arrives in between; the loop is cut off by the end of its schedule instead.

`logFun` comes back from every call whose arguments match its format. The two reports of the server
that lack arguments are an answer of `logFun`; the `vsnprintf` of a `logFun` that formats its
arguments follows a pointer that was not passed.
-/

open Framing

namespace OsaBase

inductive ComType
  | msgType
  | streamType
  deriving DecidableEq, Repr

/-- What `dealFun` and `msgFun` are given: the header's bytes and the buffer. -/
structure CallbackMsg where
  clientType : ComType
  head : List UInt8
  recvValue : List UInt8
  deriving DecidableEq, Repr

inductive LoopAct
  | checkHead (head : List UInt8)
  | deal (dealmsg : CallbackMsg)
  deriving DecidableEq, Repr

def maxRecv : ℕ := 4096

/-- The answers in one turn: of the kernel, of the allocator, of the keyboard when `OSA_assert`
waits for its key, and of `dealFun` or `msgFun`. -/
structure TurnSchedule where
  head : List RcvEvent
  alloc : Bool
  key : Bool
  load : List RcvEvent
  dealRet : ℤ
  deriving DecidableEq, Repr

/-- Whether `logFun` comes back from a call with this format and these arguments. -/
abbrev LogFun := String → List ℤ → Bool

/-- Whether the reports of a turn come back: that of a payload that was not received, and that of
a message that the application refused. -/
structure LoopLog where
  loadFailed : Bool
  dealFailed : List UInt8 → Bool

/-- The formats have two conversions more than the calls have arguments. -/
def osaProcessClientLog (logFun : LogFun) : LoopLog where
  loadFailed := logFun "%s %d OSA_tcpRcvBlockFd msg is failed\n" []
  dealFailed := fun head ↦ logFun "%s %d dealCmd is failed,the msg_code is [%d],\n"
    [(MsgHead.ofBytes head).msgCode.toInt]

/-- The reports of the client have the arguments of their formats. -/
def osaClientProcessLog : LoopLog := ⟨true, fun _ ↦ true⟩

/-- The turn goes on behind the call of the application. -/
def LoopLog.goesOn (log : LoopLog) (dealRet : ℤ) (head : List UInt8) : Bool :=
  dealRet = 0 || log.dealFailed head

@[simp] theorem LoopLog.goesOn_zero (log : LoopLog) (head : List UInt8) :
    log.goesOn 0 head = true := rfl

@[simp] theorem osaClientProcessLog_goesOn (dealRet : ℤ) (head : List UInt8) :
    osaClientProcessLog.goesOn dealRet head = true := Bool.or_true _

/-- How a turn differs between the two header types. -/
structure HeadKind where
  clientType : ComType
  format : Format UInt8
  check : List UInt8 → ℤ
  recvLen : List UInt8 → ℤ
  /-- The payload buffer, from the length and the success of an allocation. -/
  tmpMsg : ℤ → Bool → Option (List UInt8)
  /-- `OSA_assert` looks at the buffer. -/
  asserts : Bool
  ok_iff : ∀ h, format.ok h = true ↔ check h = 0
  bodySize_eq : ∀ h, format.bodySize h = (recvLen h).toNat
  length_tmpMsg : ∀ n a buf, tmpMsg n a = some buf → n.toNat ≤ buf.length
  tmpMsg_of_alloc : ∀ n, tmpMsg n true ≠ none

/-- A fresh block of `n` bytes. -/
def memAlloc (n : ℤ) (succeeds : Bool) : Option (List UInt8) :=
  if succeeds then some (List.replicate n.toNat 0) else none

/-- A message of more than `MAX_RECV` bytes is received into an allocated buffer, any other into
the array `msg_l`. -/
def msgKind : HeadKind where
  clientType := .msgType
  format := msgFormat
  check := fun h ↦ clientCheckMsgHead (.ofBytes h)
  recvLen := fun h ↦ (MsgHead.ofBytes h).loadLen.toInt
  tmpMsg := fun recvLen alloc ↦
    if recvLen > maxRecv then memAlloc recvLen alloc else some (List.replicate maxRecv 0)
  asserts := false
  ok_iff := fun _ ↦ decide_eq_true_iff
  bodySize_eq := fun _ ↦ rfl
  length_tmpMsg := by
    intro n a buf h
    split at h
    · unfold memAlloc at h
      split at h
      · cases h
        rw [List.length_replicate]
      · cases h
    · cases h
      rw [List.length_replicate]
      omega
  tmpMsg_of_alloc := by
    intro n
    split <;> simp [memAlloc]

/-- The payload of a stream goes into the buffer that `get_emptybuf` gives. -/
def streamKind : HeadKind where
  clientType := .streamType
  format := streamFormat
  check := clientCheckStreamHead
  recvLen := fun h ↦ (FrameHead.nFrameLength h).toInt
  tmpMsg := memAlloc
  asserts := true
  ok_iff := fun _ ↦ decide_eq_true_iff
  bodySize_eq := fun _ ↦ rfl
  length_tmpMsg := by
    intro n a buf h
    unfold memAlloc at h
    split at h
    · cases h
      rw [List.length_replicate]
    · cases h
  tmpMsg_of_alloc := by simp [memAlloc]

/-- A turn waits in `recv`, or for the key of the assertion, or does not come back from `logFun`, or
reaches `EXIT` with `ret` and what is left of the stream. -/
inductive TurnEnd
  | waiting (acts : List LoopAct)
  | asserted (acts : List LoopAct)
  | crashed (acts : List LoopAct)
  | exit (ret : ℤ) (acts : List LoopAct) (stream : List UInt8)
  deriving DecidableEq, Repr

def TurnEnd.acts : TurnEnd → List LoopAct
  | .waiting acts | .asserted acts | .crashed acts | .exit _ acts _ => acts

/-- From a header that passed the check on. Behind the assertion the receive refuses the missing
buffer. -/
def loadTurn (k : HeadKind) (log : LoopLog) (fd : ℤ) (tmpMsg : Option (List UInt8))
    (es : TurnSchedule) (head stream : List UInt8) : TurnEnd :=
  if tmpMsg = none ∧ k.asserts ∧ es.key = false then .asserted [.checkHead head]
  else
    match osaTcpRcvBlockFd fd tmpMsg (k.recvLen head) stream es.load with
    | none => .waiting [.checkHead head]
    | some r =>
      if r.status ≠ osaSok then
        if log.loadFailed then .exit r.status [.checkHead head] r.stream
        else .crashed [.checkHead head]
      else
        let acts := [.checkHead head, .deal ⟨k.clientType, head, r.rcvBuf⟩]
        if log.goesOn es.dealRet head then .exit r.status acts r.stream else .crashed acts

def recvTurn (k : HeadKind) (log : LoopLog) (fd : ℤ) (es : TurnSchedule) (stream : List UInt8) :
    TurnEnd :=
  match osaTcpRcvBlockFd fd (some (List.replicate k.format.headSize 0)) k.format.headSize stream
    es.head with
  | none => .waiting []
  | some r =>
    if r.status ≠ osaSok then .exit r.status [] r.stream
    else if k.check r.rcvBuf ≠ 0 then .exit r.status [.checkHead r.rcvBuf] r.stream
    else loadTurn k log fd (k.tmpMsg (k.recvLen r.rcvBuf) es.alloc) es r.rcvBuf r.stream

inductive LoopStop
  | running
  | waiting
  | asserted
  | crashed
  | dropped
  deriving DecidableEq, Repr

structure LoopRun where
  acts : List LoopAct
  stop : LoopStop
  deriving DecidableEq, Repr

/-- The turns on one connection; `drops ret` is the condition at `EXIT` under which it is given
up. -/
def recvLoop (k : HeadKind) (log : LoopLog) (drops : ℤ → Bool) (fd : ℤ) :
    List TurnSchedule → List UInt8 → LoopRun
  | [], _ => ⟨[], .running⟩
  | es :: rest, stream =>
    match recvTurn k log fd es stream with
    | .waiting acts => ⟨acts, .waiting⟩
    | .asserted acts => ⟨acts, .asserted⟩
    | .crashed acts => ⟨acts, .crashed⟩
    | .exit ret acts stream' =>
      if drops ret then ⟨acts, .dropped⟩
      else
        let run := recvLoop k log drops fd rest stream'
        ⟨acts ++ run.acts, run.stop⟩

/-- The MSG_TYPE loop of `OSA_processClient_thread`. -/
def osaProcessClientLoop (logFun : LogFun) (fd : ℤ) : List TurnSchedule → List UInt8 → LoopRun :=
  recvLoop msgKind (osaProcessClientLog logFun) (fun ret ↦ ret ≠ 0) fd

def ComType.headKind : ComType → HeadKind
  | .msgType => msgKind
  | .streamType => streamKind

/-- The loop of `OSA_client_processThr` on one connection. -/
def osaClientProcessLoop (clientType : ComType) (reconFlag fd : ℤ) :
    List TurnSchedule → List UInt8 → LoopRun :=
  recvLoop clientType.headKind osaClientProcessLog (fun ret ↦ ret ≠ 0 ∧ reconFlag = 1) fd

/-- The calls of `dealFun` or `msgFun`, in order. -/
def LoopRun.dealt (run : LoopRun) : List CallbackMsg :=
  run.acts.filterMap fun
    | .checkHead _ => none
    | .deal dealmsg => some dealmsg

/-! ## The bytes behind the actions -/

/-- What an action of the loop means for the stream. -/
def HeadKind.view (k : HeadKind) : LoopAct → Action UInt8
  | .checkHead head => .head head
  | .deal dealmsg => .body dealmsg.head (dealmsg.recvValue.take (k.format.bodySize dealmsg.head))

variable {k : HeadKind} {log : LoopLog} {fd : ℤ} {es : TurnSchedule} {s : List UInt8}

/-- The answers of one turn bring the frame `f`, with `s` behind it on the stream. -/
structure TurnSchedule.Brings (es : TurnSchedule) {k : HeadKind} (f : Frame k.format)
    (s : List UInt8) : Prop where
  head : Arrives k.format.headSize es.head (f.head ++ (f.body ++ s))
  buffer : k.tmpMsg (k.recvLen f.head) es.alloc ≠ none
  pos : 0 < f.body.length
  load : Arrives f.body.length es.load (f.body ++ s)

/-- All that a turn can do to the stream `s`. -/
inductive TurnCases (k : HeadKind) (log : LoopLog) (es : TurnSchedule) (s : List UInt8) :
    TurnEnd → Prop
  | noHead : TurnCases k log es s (.waiting [])
  | headFails (ret : ℤ) (s' : List UInt8) (hret : ret ≠ osaSok) (hsuf : s' <:+ s) :
      TurnCases k log es s (.exit ret [] s')
  | badHead (h s' : List UInt8) (hlen : h.length = k.format.headSize) (hs : s = h ++ s')
      (harr : Arrives k.format.headSize es.head s) (hbad : k.format.ok h = false) :
      TurnCases k log es s (.exit osaSok [.checkHead h] s')
  | noLoad (h s' : List UInt8) (hlen : h.length = k.format.headSize) (hs : s = h ++ s')
      (harr : Arrives k.format.headSize es.head s) (hok : k.format.ok h = true) :
      TurnCases k log es s (.waiting [.checkHead h])
  | noKey (h s' : List UInt8) (hlen : h.length = k.format.headSize) (hs : s = h ++ s')
      (harr : Arrives k.format.headSize es.head s) (hok : k.format.ok h = true) :
      TurnCases k log es s (.asserted [.checkHead h])
  | loadFails (h s' : List UInt8) (ret : ℤ) (s'' : List UInt8)
      (hlen : h.length = k.format.headSize) (hs : s = h ++ s')
      (harr : Arrives k.format.headSize es.head s) (hok : k.format.ok h = true)
      (hret : ret ≠ osaSok) (hsuf : s'' <:+ s') :
      TurnCases k log es s (.exit ret [.checkHead h] s'')
  | loadCrashes (h s' : List UInt8) (hlen : h.length = k.format.headSize) (hs : s = h ++ s')
      (harr : Arrives k.format.headSize es.head s) (hok : k.format.ok h = true) :
      TurnCases k log es s (.crashed [.checkHead h])
  | deals (f : Frame k.format) (s' buf : List UInt8) (hs : s = f.head ++ (f.body ++ s'))
      (hbrings : es.Brings f s') (hbuf : buf.take (k.format.bodySize f.head) = f.body)
      (hgoes : log.goesOn es.dealRet f.head = true) :
      TurnCases k log es s
        (.exit osaSok [.checkHead f.head, .deal ⟨k.clientType, f.head, buf⟩] s')
  | dealCrashes (f : Frame k.format) (s' buf : List UInt8) (hs : s = f.head ++ (f.body ++ s'))
      (hbrings : es.Brings f s') (hbuf : buf.take (k.format.bodySize f.head) = f.body)
      (hgoes : log.goesOn es.dealRet f.head = false) :
      TurnCases k log es s (.crashed [.checkHead f.head, .deal ⟨k.clientType, f.head, buf⟩])

theorem loadTurn_cases {h s' : List UInt8} (hfd : 0 ≤ fd) (hlen : h.length = k.format.headSize)
    (hs : s = h ++ s') (harr : Arrives k.format.headSize es.head s) (hok : k.format.ok h = true) :
    TurnCases k log es s (loadTurn k log fd (k.tmpMsg (k.recvLen h) es.alloc) es h s') := by
  have hfails : ∀ {ret : ℤ} {s'' : List UInt8}, ret ≠ osaSok → s'' <:+ s' →
      TurnCases k log es s
        (if log.loadFailed then .exit ret [.checkHead h] s'' else .crashed [.checkHead h]) := by
    intro ret s'' hne hsuf
    split
    · exact .loadFails h s' _ _ hlen hs harr hok hne hsuf
    · exact .loadCrashes h s' hlen hs harr hok
  unfold loadTurn
  split
  · exact .noKey h s' hlen hs harr hok
  · cases hrcv : osaTcpRcvBlockFd fd (k.tmpMsg (k.recvLen h) es.alloc) (k.recvLen h) s' es.load with
    | none => exact .noLoad h s' hlen hs harr hok
    | some r =>
        simp only
        cases hbuf : k.tmpMsg (k.recvLen h) es.alloc with
        | none =>
            rw [hbuf] at hrcv
            cases hrcv
            exact hfails osaEfail_ne_osaSok List.suffix_rfl
        | some buf =>
            rw [hbuf] at hrcv
            have hroom := k.length_tmpMsg _ _ _ hbuf
            rcases osaTcpRcvBlockFd_takes hroom hrcv with
              ⟨hfail, hsuf⟩ | ⟨hsok, body, hbody, hstream, hrcvBuf⟩
            · have hne : r.status ≠ osaSok := hfail ▸ osaEfail_ne_osaSok
              rw [if_pos hne]
              exact hfails hne hsuf
            · rw [if_neg (not_not.mpr hsok), hsok]
              obtain ⟨hpos, hload⟩ := (osaTcpRcvBlockFd_sok_iff hfd buf).mp ⟨r, hrcv, hsok⟩
              have hsize := hbody.trans (k.bodySize_eq h).symm
              rw [hstream] at hs hload
              have hbrings : es.Brings ⟨h, body, hlen, hok, hsize⟩ r.stream := by
                refine ⟨hs ▸ harr, ?_, ?_, ?_⟩
                · rw [hbuf]
                  exact Option.some_ne_none buf
                · simp only
                  omega
                · simpa only [hbody] using hload
              have hstored : r.rcvBuf.take (k.format.bodySize h) = body := by
                rw [hrcvBuf, ← hsize]
                simp [Bytes.store]
              split
              · next hgoes =>
                exact .deals ⟨h, body, hlen, hok, hsize⟩ r.stream r.rcvBuf hs hbrings hstored hgoes
              · next hnot =>
                exact .dealCrashes ⟨h, body, hlen, hok, hsize⟩ r.stream r.rcvBuf hs hbrings hstored
                  (Bool.eq_false_iff.mpr hnot)

theorem recvTurn_cases (hfd : 0 ≤ fd) (k : HeadKind) (log : LoopLog) (es : TurnSchedule)
    (s : List UInt8) : TurnCases k log es s (recvTurn k log fd es s) := by
  unfold recvTurn
  cases hrcv : osaTcpRcvBlockFd fd (some (List.replicate k.format.headSize 0))
      k.format.headSize s es.head with
  | none => exact .noHead
  | some r =>
      simp only
      rcases osaTcpRcvBlockFd_takes (by simp) hrcv with
        ⟨hfail, hsuf⟩ | ⟨hsok, h, hlen, hstream, hrcvBuf⟩
      · have hne : r.status ≠ osaSok := hfail ▸ osaEfail_ne_osaSok
        rw [if_pos hne]
        exact .headFails _ _ hne hsuf
      · have harr := ((osaTcpRcvBlockFd_sok_iff hfd _).mp ⟨r, hrcv, hsok⟩).2
        rw [Int.toNat_natCast] at hlen harr
        have hbuf : r.rcvBuf = h := by simp [hrcvBuf, Bytes.store, hlen]
        rw [if_neg (not_not.mpr hsok), hbuf, hsok]
        split
        · next hbad =>
          refine .badHead h r.stream hlen hstream harr ?_
          rw [Bool.eq_false_iff, ne_eq, k.ok_iff]
          exact hbad
        · next hgood =>
          exact loadTurn_cases hfd hlen hstream harr ((k.ok_iff h).mpr (not_not.mp hgood))

/-! ## What a turn does when its bytes arrive -/

theorem recvTurn_of_arrives {h : List UInt8} (hfd : 0 ≤ fd) (hlen : h.length = k.format.headSize)
    (harr : Arrives k.format.headSize es.head (h ++ s)) :
    recvTurn k log fd es (h ++ s) =
      if k.format.ok h then loadTurn k log fd (k.tmpMsg (k.recvLen h) es.alloc) es h s
      else .exit osaSok [.checkHead h] s := by
  obtain ⟨r, hr, hok⟩ := (osaTcpRcvBlockFd_sok_iff hfd (List.replicate k.format.headSize 0)).mpr
    ⟨Int.natCast_pos.mpr k.format.headSize_pos, by simpa using harr⟩
  rcases osaTcpRcvBlockFd_takes (by simp) hr with ⟨hfail, -⟩ | ⟨-, bytes, hbytes, hstream, hrcv⟩
  · exact (osaEfail_ne_osaSok (hfail.symm.trans hok)).elim
  · obtain ⟨rfl, hs⟩ := List.append_inj hstream (by simpa using hlen.trans hbytes.symm)
    have hbuf : r.rcvBuf = h := by simp [hrcv, Bytes.store, hlen]
    unfold recvTurn
    rw [hr]
    simp only [hok, hbuf, ← hs, ne_eq, not_true, if_false]
    by_cases hgood : k.check h = 0
    · rw [if_neg (not_not.mpr hgood), if_pos ((k.ok_iff h).mpr hgood)]
    · rw [if_pos hgood, if_neg (mt (k.ok_iff h).mp hgood)]

variable (log) in
theorem recvTurn_of_brings {f : Frame k.format} (hfd : 0 ≤ fd) (hbrings : es.Brings f s) :
    ∃ buf, buf.take f.body.length = f.body ∧
      recvTurn k log fd es (f.head ++ (f.body ++ s)) =
        let acts := [.checkHead f.head, .deal ⟨k.clientType, f.head, buf⟩]
        if log.goesOn es.dealRet f.head then .exit osaSok acts s else .crashed acts := by
  rw [recvTurn_of_arrives hfd f.length_head hbrings.head, if_pos f.ok]
  obtain ⟨buf, hbuf⟩ := Option.ne_none_iff_exists'.mp hbrings.buffer
  have hpos := hbrings.pos
  have hlen : k.recvLen f.head = (f.body.length : ℤ) := by
    have hbody := k.bodySize_eq f.head
    have := f.length_body
    omega
  have hroom := k.length_tmpMsg _ _ _ hbuf
  obtain ⟨r, hr, hok⟩ := (osaTcpRcvBlockFd_sok_iff hfd buf).mpr
    ⟨Int.natCast_pos.mpr hpos, by simpa using hbrings.load⟩
  rw [hlen] at hroom
  rcases osaTcpRcvBlockFd_takes hroom hr with ⟨hfail, -⟩ | ⟨-, bytes, hbytes, hstream, hrcv⟩
  · exact (osaEfail_ne_osaSok (hfail.symm.trans hok)).elim
  · obtain ⟨hbody, hs⟩ := List.append_inj hstream (by simpa using hbytes.symm)
    refine ⟨r.rcvBuf, by simp [hrcv, hbody, Bytes.store], ?_⟩
    rw [hbuf]
    unfold loadTurn
    simp [hlen, hr, hok, ← hs]

theorem checkHead_mem_of_arrives {h : List UInt8} (hfd : 0 ≤ fd)
    (hlen : h.length = k.format.headSize) (harr : Arrives k.format.headSize es.head (h ++ s)) :
    .checkHead h ∈ (recvTurn k log fd es (h ++ s)).acts := by
  rw [recvTurn_of_arrives hfd hlen harr]
  split
  · unfold loadTurn
    split
    · simp [TurnEnd.acts]
    · split
      · simp [TurnEnd.acts]
      · split
        · split <;> simp [TurnEnd.acts]
        · simp only
          split <;> simp [TurnEnd.acts]
  · simp [TurnEnd.acts]

theorem turn_acts_subset {drops : ℤ → Bool} (rest : List TurnSchedule) :
    (recvTurn k log fd es s).acts ⊆ (recvLoop k log drops fd (es :: rest) s).acts := by
  simp only [recvLoop]
  cases recvTurn k log fd es s with
  | waiting acts | asserted acts | crashed acts => exact fun a ha ↦ ha
  | exit ret acts s' =>
      simp only
      split
      · exact fun a ha ↦ ha
      · exact fun a ha ↦ List.mem_append_left _ ha

/-- A failed receive drops the connection, or it was the receive of a header and took nothing. -/
def KeepsPlace (k : HeadKind) (log : LoopLog) (fd : ℤ) (drops : ℤ → Bool) (es : TurnSchedule) :
    Prop :=
  ∀ s ret acts s', recvTurn k log fd es s = .exit ret acts s' → ret ≠ osaSok →
    drops ret = true ∨ (acts = [] ∧ s' = s)

/-- Unless the connection outlives a receive that lost bytes, the actions of a run are those of a
reader of the stream. -/
theorem recvLoop_scan {drops : ℤ → Bool} (hfd : 0 ≤ fd) {envs : List TurnSchedule}
    (hkeeps : ∀ es ∈ envs, KeepsPlace k log fd drops es) (s : List UInt8) :
    ∃ r, Scan k.format s ((recvLoop k log drops fd envs s).acts.map k.view) r := by
  induction envs generalizing s with
  | nil => exact ⟨s, .stop s⟩
  | cons es rest ih =>
      have hcases := recvTurn_cases hfd k log es s
      have hplace := hkeeps es List.mem_cons_self s
      replace ih := ih fun es hes ↦ hkeeps es (List.mem_cons_of_mem _ hes)
      simp only [recvLoop]
      cases hturn : recvTurn k log fd es s with
      | waiting acts =>
          rw [hturn] at hcases
          cases hcases with
          | noHead => exact ⟨s, .stop s⟩
          | noLoad h s' hlen hs _ hok => exact ⟨s', hs ▸ .cut h s' hlen hok⟩
      | asserted acts =>
          rw [hturn] at hcases
          cases hcases with
          | noKey h s' hlen hs _ hok => exact ⟨s', hs ▸ .cut h s' hlen hok⟩
      | crashed acts =>
          rw [hturn] at hcases
          cases hcases with
          | loadCrashes h s' hlen hs _ hok => exact ⟨s', hs ▸ .cut h s' hlen hok⟩
          | dealCrashes f s' buf hs _ hbuf _ =>
              refine ⟨s', ?_⟩
              have hframe : Scan k.format s f.actions s' := by
                simpa [hs] using Scan.frame f (.stop s')
              simpa [HeadKind.view, hbuf, Frame.actions] using hframe
      | exit ret acts s' =>
          rw [hturn] at hcases
          simp only
          cases hcases with
          | headFails _ _ hret _ =>
              rcases hplace _ _ _ hturn hret with hdrop | ⟨-, rfl⟩
              · rw [if_pos hdrop]
                exact ⟨s, .stop s⟩
              · split
                · exact ⟨s', .stop s'⟩
                · exact ih s'
          | loadFails h s' _ _ hlen hs _ hok hret _ =>
              rcases hplace _ _ _ hturn hret with hdrop | ⟨hnil, -⟩
              · rw [if_pos hdrop]
                exact ⟨s', hs ▸ .cut h s' hlen hok⟩
              · cases hnil
          | badHead h _ hlen hs _ hbad =>
              split
              · exact ⟨s', hs ▸ .reject h hlen hbad (.stop s')⟩
              · obtain ⟨r, hr⟩ := ih s'
                exact ⟨r, hs ▸ .reject h hlen hbad hr⟩
          | deals f _ buf hs _ hbuf _ =>
              have hview : ∀ acts, (LoopAct.checkHead f.head :: .deal ⟨k.clientType, f.head, buf⟩ ::
                  acts).map k.view = f.actions ++ acts.map k.view := by
                intro acts
                simp only [List.map_cons, HeadKind.view, hbuf, Frame.actions, List.cons_append,
                  List.nil_append]
              split
              · exact ⟨s', by simpa [hview, ← hs] using Scan.frame f (.stop s')⟩
              · obtain ⟨r, hr⟩ := ih s'
                exact ⟨r, by simpa [hview, ← hs] using Scan.frame f hr⟩

end OsaBase
