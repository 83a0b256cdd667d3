import OsaBase.Client.Receives

/-!
# The payload buffers of a client

A buffer from `OSA_memAlloc` is freed at the end of its turn. One from `get_emptybuf` belongs to
`msgFun` once that has got it. If its payload is not received it is lost.
-/

open Transition

namespace OsaBase.Client

variable {param : ClientParam} {s s' : Session} {a : SessionAnswer}

/-! ## The account of a buffer -/

/-- `msgFun` of a STREAM_TYPE client owns what it gets. -/
def Session.releases (s : Session) : ComType → List ℕ
  | .msgType => s.frees
  | .streamType => s.frees ++ s.handed

/-- Whether the thread still answers for the buffer in `tmp_msg`. -/
def SessionPc.holding (clientType : ComType) : SessionPc → Bool
  | .recvLoad .. | .msgFun _ => true
  | .exit => decide (clientType = .msgType)
  | _ => false

def Session.held (param : ClientParam) (s : Session) (b : ℕ) : ℕ :=
  if s.tmpMsg = .buf b ∧ s.pc.holding param.clientType then 1 else 0

/-- How often the buffer has been released, or is about to be. -/
def Session.account (param : ClientParam) (s : Session) (b : ℕ) : ℕ :=
  (s.releases param.clientType).count b + s.held param b

def Session.obtainedOnce (s : Session) (b : ℕ) : ℕ := if b < s.obtained then 1 else 0

/-- Every buffer obtained was released once, or is in use. -/
def BufferLaw (param : ClientParam) (s : Session) : Prop :=
  ∀ b, s.account param b = s.obtainedOnce b

/-- The answer is no failure to receive a payload. -/
def SessionPc.received (param : ClientParam) (clientSocket : ℤ) (stream : List UInt8)
    (es : List RcvEvent) : SessionPc → Bool
  | .recvLoad h load =>
    (osaTcpRcvBlockFd clientSocket load (param.clientType.headKind.recvLen h) stream es).all
      (fun r ↦ decide (r.status = osaSok))
  | _ => true

/-- The payload of a frame is received, if there is a buffer for it. -/
def BufferOk (param : ClientParam) (s : Session) : SessionAnswer → Prop
  | .rcv stream es => param.clientType = .streamType → s.tmpMsg ≠ .null →
      s.pc.received param s.clientSocket stream es = true
  | _ => True

instance (param : ClientParam) (s : Session) : (a : SessionAnswer) → Decidable (BufferOk param s a)
  | .rcv .. => inferInstanceAs (Decidable (_ → _))
  | .next | .socket _ | .connect _ | .status _ | .mem _ | .key => inferInstanceAs (Decidable True)

/-! ## What a step does to the account -/

/-- No payload is expected yet. -/
def SessionPc.early : SessionPc → Bool
  | .recvHead | .checkHead _ | .getBuf _ | .asserted _ => true
  | _ => false

structure TmpInv (param : ClientParam) (s : Session) : Prop where
  heap : ∀ b, s.tmpMsg = .buf b → s.flag = decide (param.clientType = ComType.msgType)
  array : s.tmpMsg = .msgL → param.clientType = .msgType
  early : s.pc.early = true → s.tmpMsg = .null

theorem Session.freeTmp_cases (s : Session) :
    (s.freeTmp = s ∧ ∀ b, s.tmpMsg = .buf b → s.flag = false) ∨
    ∃ b, s.tmpMsg = .buf b ∧ s.flag = true ∧
      s.freeTmp = { s with frees := s.frees ++ [b], tmpMsg := .null } := by
  unfold Session.freeTmp
  cases htmp : s.tmpMsg with
  | null => exact Or.inl ⟨rfl, fun b h ↦ by cases h⟩
  | msgL => exact Or.inl ⟨rfl, fun b h ↦ by cases h⟩
  | buf b =>
      cases hflag : s.flag with
      | false => exact Or.inl ⟨by simp, fun _ _ ↦ rfl⟩
      | true => exact Or.inr ⟨b, rfl, rfl, by simp⟩

theorem TmpInv.freeTmp (hs : TmpInv param s) (pc : SessionPc) (hpc : pc.early = false) :
    TmpInv param { s.freeTmp with pc := pc } := by
  obtain ⟨heq, -⟩ | ⟨b, -, -, heq⟩ := s.freeTmp_cases
  · rw [heq]
    exact ⟨hs.heap, hs.array, fun h ↦ by simp [hpc] at h⟩
  · rw [heq]
    exact ⟨fun b hb ↦ (by simp at hb), fun h ↦ (by simp at h), fun h ↦ by simp [hpc] at h⟩

/-- A step that leaves the buffer alone. -/
theorem TmpInv.of_eq (hs : TmpInv param s) (htmp : s'.tmpMsg = s.tmpMsg) (hflag : s'.flag = s.flag)
    (hearly : s'.pc.early = true → s.pc.early = true) : TmpInv param s' :=
  ⟨fun b hb ↦ hflag ▸ hs.heap b (htmp ▸ hb), fun h ↦ hs.array (htmp ▸ h),
    fun h ↦ htmp ▸ hs.early (hearly h)⟩

/-- A step after which there is none. -/
theorem TmpInv.of_null (htmp : s'.tmpMsg = .null) : TmpInv param s' :=
  ⟨fun b hb ↦ (by simp [htmp] at hb), fun h ↦ (by simp [htmp] at h), fun _ ↦ htmp⟩

theorem TmpInv.step (hs : TmpInv param s) (hstep : sessionStep param s a = some s') :
    TmpInv param s' := by
  cases session_cases hstep with
  | quiet pc pc' hpc hquiet =>
      refine hs.of_eq rfl rfl ?_
      cases hquiet <;> simp [SessionPc.ofConn, SessionPc.early]
  | socket fd hpc =>
      refine hs.of_eq rfl rfl ?_
      split <;> simp [SessionPc.early]
  | connect ok ret hpc hret =>
      refine hs.of_eq rfl rfl ?_
      split <;> simp [SessionPc.early]
  | closeOld | noOld | quitClose | leave | badHead | msgFun | setAbor | key =>
      exact hs.of_eq rfl rfl (by simp [SessionPc.early])
  | load => exact hs.of_eq rfl rfl (by simp [SessionPc.early])
  | enter => exact .of_null rfl
  | noBuffer => exact .of_null rfl
  | head stream es r hpc => exact hs.of_eq rfl rfl fun _ ↦ by simp [hpc, SessionPc.early]
  | goodHead h hpc => exact hs.of_eq rfl rfl fun _ ↦ by simp [hpc, SessionPc.early]
  | array _ _ _ htype =>
      exact ⟨fun b hb ↦ (by cases hb), fun _ ↦ htype, fun h ↦ by simp [SessionPc.early] at h⟩
  | buffer => exact ⟨fun _ _ ↦ rfl, fun h ↦ (by cases h), fun h ↦ by simp [SessionPc.early] at h⟩
  | noLoad h buf stream es r =>
      have hfailed : TmpInv param { s with
          ret := r.status, calls := .rcv s.clientSocket r.status :: s.calls } :=
        hs.of_eq rfl rfl id
      exact hfailed.freeTmp .exit rfl
  | exit hpc =>
      refine hs.freeTmp _ ?_
      split <;> simp [SessionPc.early]

theorem held_of_pc {b : ℕ} (h : s.pc.holding param.clientType = false) : s.held param b = 0 := by
  simp [Session.held, h]

theorem held_of_null {b : ℕ} (h : s.tmpMsg = .null) : s.held param b = 0 := by
  simp [Session.held, h]

theorem held_eq_of_null {b : ℕ} (h : s.tmpMsg = .null) (heq : s'.tmpMsg = s.tmpMsg) :
    s'.held param b = s.held param b := by
  rw [held_of_null h, held_of_null (heq.trans h)]

theorem held_of_holding {b : ℕ} (h : s.pc.holding param.clientType = true) :
    s.held param b = if s.tmpMsg = .buf b then 1 else 0 := by
  simp [Session.held, h]

/-- At the end of a turn `OSA_memFree` takes the buffer that a MSG_TYPE client holds. -/
theorem TmpInv.account_freeTmp (hs : TmpInv param s) (htype : param.clientType = .msgType)
    (pc : SessionPc) (b : ℕ) :
    Session.account param { s.freeTmp with pc := pc } b =
      s.frees.count b + if s.tmpMsg = .buf b then 1 else 0 := by
  simp only [Session.account, Session.releases, htype]
  obtain ⟨heq, hflag⟩ | ⟨b', htmp, -, heq⟩ := s.freeTmp_cases
  · have hnone : ∀ b, s.tmpMsg ≠ .buf b := by
      intro b hb
      have hheap := hs.heap b hb
      simp [hflag b hb, htype] at hheap
    simp [heq, Session.held, hnone]
  · simp only [heq, Session.held, htmp, TmpMsg.buf.injEq, List.count_append, List.count_singleton,
      beq_iff_eq]
    simp

@[simp] theorem Session.freeTmp_obtained (s : Session) : s.freeTmp.obtained = s.obtained := by
  obtain ⟨heq, -⟩ | ⟨b, -, -, heq⟩ := s.freeTmp_cases <;> rw [heq]

theorem TmpInv.freeTmp_stream (hs : TmpInv param s) (htype : param.clientType = .streamType) :
    s.freeTmp = s := by
  obtain ⟨heq, -⟩ | ⟨b, htmp, hflag, -⟩ := s.freeTmp_cases
  · exact heq
  · have hheap := hs.heap b htmp
    simp [hflag, htype] at hheap

/-- What changes in the accounts: a new buffer is added, and the one whose payload was not received
is missing. -/
def Balanced (param : ClientParam) (s : Session) (a : SessionAnswer) (s' : Session) : Prop :=
  ∀ b, s'.account param b + s.obtainedOnce b + (if BufferOk param s a then 0 else s.held param b) =
    s.account param b + s'.obtainedOnce b

theorem balanced_of_ok (hok : BufferOk param s a) (hobtained : s'.obtained = s.obtained)
    (haccount : ∀ b, s'.account param b = s.account param b) : Balanced param s a s' := by
  intro b
  rw [if_pos hok, haccount b, Session.obtainedOnce, Session.obtainedOnce, hobtained, Nat.add_zero]

/-- A step outside of the use of a buffer. -/
theorem balanced_of_idle (hok : BufferOk param s a) (hobtained : s'.obtained = s.obtained)
    (hfrees : s'.frees = s.frees) (hhanded : s'.handed = s.handed)
    (hheld : ∀ b, s'.held param b = s.held param b) : Balanced param s a s' := by
  refine balanced_of_ok hok hobtained fun b ↦ ?_
  simp only [Session.account, Session.releases, hfrees, hhanded, hheld b]

theorem balanced_step (hs : TmpInv param s) (hstep : sessionStep param s a = some s') :
    Balanced param s a s' := by
  cases session_cases hstep with
  | quiet pc pc' hpc hquiet =>
      refine balanced_of_idle trivial rfl rfl rfl fun b ↦ ?_
      rw [held_of_pc (by cases hquiet <;> rfl), held_of_pc (by rw [hpc]; rfl)]
  | closeOld hpc | noOld hpc | quitClose hpc | leave hpc | setAbor hpc =>
      refine balanced_of_idle trivial rfl rfl rfl fun b ↦ ?_
      rw [held_of_pc rfl, held_of_pc (by rw [hpc]; rfl)]
  | enter hpc | goodHead h hpc  =>
      refine balanced_of_idle trivial rfl rfl rfl fun b ↦ ?_
      rw [held_of_pc rfl, held_of_pc (by rw [hpc]; rfl)]
  | socket fd hpc =>
      refine balanced_of_idle trivial rfl rfl rfl fun b ↦ ?_
      rw [held_of_pc (by split <;> rfl), held_of_pc (by rw [hpc]; rfl)]
  | connect ok ret hpc hret =>
      refine balanced_of_idle trivial rfl rfl rfl fun b ↦ ?_
      rw [held_of_pc (by split <;> rfl), held_of_pc (by rw [hpc]; rfl)]
  | head stream es r hpc =>
      have htmp := hs.early (by rw [hpc]; rfl)
      refine balanced_of_idle (fun _ hne ↦ (hne htmp).elim) rfl rfl rfl fun b ↦ ?_
      exact held_eq_of_null htmp rfl
  | badHead h hpc | key h hpc =>
      have htmp := hs.early (by rw [hpc]; rfl)
      refine balanced_of_idle trivial rfl rfl rfl fun b ↦ ?_
      exact held_eq_of_null htmp rfl
  | array h buf hpc =>
      refine balanced_of_idle trivial rfl rfl rfl fun b ↦ ?_
      rw [held_of_pc (s := s) (by rw [hpc]; rfl)]
      rfl
  | buffer h buf hpc =>
      intro b
      have hbefore : s.held param b = 0 := held_of_pc (by rw [hpc]; rfl)
      rw [if_pos (show BufferOk param s (.mem true) from trivial)]
      rw [Session.account, Session.account, hbefore]
      simp only [Session.held, Session.obtainedOnce, SessionPc.holding, Session.releases,
        TmpMsg.buf.injEq, and_true]
      split_ifs <;> omega
  | noBuffer h pc hpc hor =>
      refine balanced_of_idle trivial rfl rfl rfl fun b ↦ ?_
      rw [held_of_null rfl, held_of_pc (by rw [hpc]; rfl)]
  | load h buf stream es r hpc hr hst =>
      refine balanced_of_idle ?_ rfl rfl rfl fun b ↦ ?_
      · simp [BufferOk, hpc, SessionPc.received, hr, hst]
      · simp [Session.held, hpc, SessionPc.holding]
  | noLoad h buf stream es r hpc hr hst =>
      intro b
      have hs₁ : TmpInv param { s with
          ret := r.status, calls := .rcv s.clientSocket r.status :: s.calls } := hs.of_eq rfl rfl id
      have hholding : s.held param b = if s.tmpMsg = .buf b then 1 else 0 :=
        held_of_holding (by rw [hpc]; rfl)
      cases htype : param.clientType with
      | msgType =>
          have hok : BufferOk param s (.rcv stream es) := fun h ↦ by simp [htype] at h
          rw [if_pos hok, hs₁.account_freeTmp htype, Session.account, hholding]
          simp [Session.obtainedOnce, Session.releases, htype]
      | streamType =>
          rw [hs₁.freeTmp_stream htype, Session.account, Session.account,
            held_of_pc (by simp [SessionPc.holding, htype])]
          have hlost : (if BufferOk param s (.rcv stream es) then 0 else s.held param b) =
              s.held param b := by
            split
            · next hok =>
              have hnull : s.tmpMsg = .null := by
                by_contra hne
                have hreceived := hok htype hne
                rw [hpc, SessionPc.received, hr] at hreceived
                exact hst (of_decide_eq_true hreceived)
              exact (held_of_null hnull).symm
            · rfl
          rw [hlost]
          simp only [Session.releases, Session.obtainedOnce]
          omega
  | msgFun d hpc =>
      refine balanced_of_ok trivial rfl fun b ↦ ?_
      have hholding : s.held param b = if s.tmpMsg = .buf b then 1 else 0 :=
        held_of_holding (by rw [hpc]; rfl)
      simp only [Session.account, hholding]
      cases htype : param.clientType with
      | msgType => simp [Session.releases, Session.held, SessionPc.holding, htype]
      | streamType =>
          simp only [Session.releases, Session.held, SessionPc.holding, htype]
          cases htmp : s.tmpMsg <;> simp [TmpMsg.obtained, List.count_singleton, Nat.add_assoc]
  | exit hpc =>
      refine balanced_of_ok trivial ?_ fun b ↦ ?_
      · exact s.freeTmp_obtained
      · cases htype : param.clientType with
        | msgType =>
            rw [hs.account_freeTmp htype, Session.account,
              held_of_holding (by simp [hpc, SessionPc.holding, htype])]
            simp [Session.releases, htype]
        | streamType =>
            rw [hs.freeTmp_stream htype, Session.account, Session.account, held_of_pc (s := s)
              (by simp [hpc, SessionPc.holding, htype]), held_of_pc (by split <;> rfl)]
            rfl

/-! ## Every run -/

theorem obtainedOnce_le_one (s : Session) (b : ℕ) : s.obtainedOnce b ≤ 1 := by
  unfold Session.obtainedOnce
  split <;> omega

theorem tmpInv_of_reach {ok : Session → SessionAnswer → Prop}
    (h : Reach (sessionStep param) ok sessionStart s) : TmpInv param s :=
  h.invariant (.of_null rfl) fun _ _ _ hs _ hstep ↦ hs.step hstep

theorem bufferLaw_start : BufferLaw param sessionStart := by
  intro b
  rw [Session.account, held_of_null rfl]
  cases htype : param.clientType <;> rfl

/-- No buffer is released twice, whatever fails. -/
theorem account_le_of_reach (h : Reach (sessionStep param) Always sessionStart s) (b : ℕ) :
    s.account param b ≤ s.obtainedOnce b := by
  induction h with
  | refl => exact (bufferLaw_start b).le
  | tail a h _ hstep ih =>
      have := balanced_step (tmpInv_of_reach h) hstep b
      omega

theorem bufferLaw_of_reach (h : Reach (sessionStep param) (BufferOk param) sessionStart s) :
    BufferLaw param s := by
  intro b
  induction h with
  | refl => exact bufferLaw_start b
  | tail a h hok hstep ih =>
      have := balanced_step (tmpInv_of_reach h) hstep b
      rw [if_pos hok] at this
      omega

/-- A buffer obtained, but neither released nor in use, stays so. -/
theorem lost_of_reach {t : Session} {b : ℕ} (hs : TmpInv param s) (hlost : s.account param b = 0)
    (hobtained : s.obtainedOnce b = 1) (h : Reach (sessionStep param) Always s t) :
    t.account param b = 0 := by
  have hinv : TmpInv param t ∧ t.account param b = 0 ∧ t.obtainedOnce b = 1 := by
    refine h.invariant (I := fun t ↦ TmpInv param t ∧ t.account param b = 0 ∧ t.obtainedOnce b = 1)
      ⟨hs, hlost, hobtained⟩ fun t a u ⟨ht, hzero, hone⟩ _ hstep ↦ ⟨ht.step hstep, ?_⟩
    have := balanced_step ht hstep b
    have := obtainedOnce_le_one u b
    omega
  exact hinv.2.1

/-- What does not meet the condition has a buffer to lose. -/
theorem TmpInv.held_of_not_ok (hs : TmpInv param s) (hnot : ¬ BufferOk param s a) :
    ∃ b, s.held param b = 1 := by
  cases a with
  | rcv stream es =>
      simp only [BufferOk, Classical.not_imp] at hnot
      obtain ⟨htype, hne, hreceived⟩ := hnot
      have hholding : s.pc.holding param.clientType = true := by
        cases hpc : s.pc with
        | recvLoad => rfl
        | _ => rw [hpc] at hreceived; exact (hreceived rfl).elim
      cases htmp : s.tmpMsg with
      | null => exact (hne htmp).elim
      | msgL => exact absurd (hs.array htmp) (by simp [htype])
      | buf b => exact ⟨b, by rw [held_of_holding hholding, if_pos htmp]⟩
  | next | socket | connect | status | mem | key => exact (hnot trivial).elim

/-- Each payload buffer is released once in every run in which no frame's payload fails to arrive.
One whose payload fails is never released. -/
theorem client_buffers_released :
    (∀ s, Reach (sessionStep param) (BufferOk param) sessionStart s → BufferLaw param s) ∧
    ∀ s a s', Reach (sessionStep param) Always sessionStart s → sessionStep param s a = some s' →
      ¬ BufferOk param s a →
      ∃ b < s'.obtained, ∀ t, Reach (sessionStep param) Always s' t → t.account param b = 0 := by
  refine ⟨fun s ↦ bufferLaw_of_reach, fun s a s' hreach hstep hnot ↦ ?_⟩
  have hs := tmpInv_of_reach hreach
  obtain ⟨b, hheld⟩ := hs.held_of_not_ok hnot
  have hbalance := balanced_step hs hstep b
  rw [if_neg hnot, hheld] at hbalance
  have haccount := account_le_of_reach hreach b
  have hone := obtainedOnce_le_one s' b
  have hpos : 1 ≤ s.account param b := by
    rw [Session.account, hheld]
    exact Nat.le_add_left 1 _
  have hobtained : s'.obtainedOnce b = 1 := by omega
  refine ⟨b, ?_, fun t ↦ lost_of_reach (hs.step hstep) (by omega) hobtained⟩
  by_contra hge
  simp [Session.obtainedOnce, hge] at hobtained

/-- A STREAM_TYPE client that connects again. -/
def streamClient : ClientParam := { msgClient with clientType := .streamType, getEmptybuf := true }

/-- The head of a frame of one byte arrives, and `get_emptybuf` gives a buffer. -/
def frameAnswers : List SessionAnswer :=
  [.status true, .rcv (identifierBytes ++ List.replicate 16 0 ++ [1, 0, 0, 0] ++
    List.replicate 56 0 ++ identifierBytes ++ List.replicate 4 0) [.data 88], .next, .mem true]

/-- Two frames are received, and the connection is closed. -/
def framesRun : List SessionAnswer :=
  connectCalls 3 true ++ frameAnswers ++ [.rcv [10] [.data 1], .next, .next] ++
    frameAnswers ++ [.rcv [20] [.data 1], .next, .next, .status true, .rcv [] [.closed], .next]

theorem client_buffers_released_run : ∃ s : Session, s.obtained = 2 ∧ s.handed = [0, 1] ∧
    BufferLaw streamClient s := by
  obtain ⟨s, hreach, hs⟩ := Reach.exists_of_exec (sessionStep streamClient) (BufferOk streamClient)
    sessionStart framesRun (fun s : Session ↦ s.obtained = 2 ∧ s.handed = [0, 1]) (by decide)
  obtain ⟨hobtained, hhanded⟩ := of_decide_eq_true hs
  exact ⟨s, hobtained, hhanded, client_buffers_released.1 s hreach⟩

/-- The connection is closed behind the head of a frame, and its buffer is lost. -/
theorem client_buffer_lost : ∃ s : Session,
    Reach (sessionStep streamClient) Always sessionStart s ∧ s.pc = .conn .unset ∧
    s.obtained = 1 ∧ s.frees = [] ∧ s.handed = [] ∧ ¬ BufferLaw streamClient s := by
  obtain ⟨s, hreach, hs⟩ := Reach.exists_of_exec (sessionStep streamClient) Always sessionStart
    (connectCalls 3 true ++ frameAnswers ++ [.rcv [] [.closed], .next])
    (fun s : Session ↦ s.pc = .conn .unset ∧ s.obtained = 1 ∧ s.frees = [] ∧ s.handed = [])
    (by decide)
  obtain ⟨hpc, hobtained, hfrees, hhanded⟩ := of_decide_eq_true hs
  refine ⟨s, hreach, hpc, hobtained, hfrees, hhanded, fun hlaw ↦ ?_⟩
  have h0 := hlaw 0
  rw [Session.account, held_of_pc (by rw [hpc]; rfl), Session.obtainedOnce, hobtained] at h0
  simp [Session.releases, streamClient, hfrees, hhanded] at h0

end OsaBase.Client
