import OsaBase.Client.Session

/-!
# Receives on a healthy connection

With `recon_flag` other than 1 the process thread passes over a failed `socket`, a failed
`OSA_connetBlockFd` and a failed `OSA_tcpRcvBlockFd`, and receives as long as the status is
`CLIENT_CONNECT`.
-/

open Transition

namespace OsaBase.Client

variable {param : ClientParam} {s s' : Session} {a : SessionAnswer}

/-! ## The law on the log -/

def ClientCall.failed : ClientCall → Bool
  | .socket fd => decide (fd < 3)
  | .connect _ ret | .rcv _ ret => decide (ret ≠ osaSok)
  | .hangUp _ | .setAbor => false

/-- `OSA_connetBlockFd` returned `OSA_SOK` for the descriptor. -/
def connectedOn (fd : ℤ) : List ClientCall → Bool
  | [] => false
  | .socket fd' :: calls | .hangUp fd' :: calls => if fd' = fd then false else connectedOn fd calls
  | .connect fd' ret :: calls => if fd' = fd ∧ ret = osaSok then true else connectedOn fd calls
  | .rcv .. :: calls | .setAbor :: calls => connectedOn fd calls

/-- `OSA_tcpRcvBlockFd` has returned an error for the descriptor. -/
def failedOn (fd : ℤ) : List ClientCall → Bool
  | [] => false
  | .socket fd' :: calls => if fd' = fd then false else failedOn fd calls
  | .rcv fd' ret :: calls => if fd' = fd ∧ ret ≠ osaSok then true else failedOn fd calls
  | .connect .. :: calls | .hangUp _ :: calls | .setAbor :: calls => failedOn fd calls

/-- The last call that is no hang-up has failed. -/
def pending : List ClientCall → Bool
  | [] => false
  | .hangUp _ :: calls => pending calls
  | c :: _ => c.failed

/-- What the thread may do after a failure: connect again, or leave. -/
def ClientCall.Recovers (reconFlag : ℤ) : ClientCall → Prop
  | .hangUp _ => True
  | .socket _ => reconFlag = 1
  | .connect .. | .setAbor => reconFlag ≠ 1
  | .rcv .. => False

def ReceiveLaw (reconFlag : ℤ) : List ClientCall → Prop
  | [] => True
  | c :: calls => (pending calls = true → c.Recovers reconFlag) ∧
      (∀ fd ret, c = .rcv fd ret → connectedOn fd calls = true ∧ failedOn fd calls = false) ∧
      ReceiveLaw reconFlag calls

/-- After a failure the loop is not entered again, unless `recon_flag` is 1. -/
def ReceiveOk (param : ClientParam) (s : Session) : SessionAnswer → Prop
  | .status connected => connected = true → param.reconFlag = 1 ∨ pending s.calls = false
  | _ => True

instance (param : ClientParam) (s : Session) : (a : SessionAnswer) → Decidable (ReceiveOk param s a)
  | .status _ => inferInstanceAs (Decidable (_ → _))
  | .next | .socket _ | .connect _ | .rcv .. | .mem _ | .key => inferInstanceAs (Decidable True)

/-! ## The invariant -/

/-- If nothing has failed, the connection of the thread is healthy. -/
def Session.Sound (s : Session) : Prop := pending s.calls = false →
  connectedOn s.clientSocket s.calls = true ∧ failedOn s.clientSocket s.calls = false

/-- What the thread knows about its calls at each place. -/
def SessionPc.Knows (param : ClientParam) (s : Session) : SessionPc → Prop
  | .conn .repeatConnect | .conn .closeOld | .conn .create | .conn .unset =>
    param.reconFlag = 1 ∨ pending s.calls = false
  | .conn .connect => (∃ calls, s.calls = .socket s.clientSocket :: calls) ∧
      (param.reconFlag = 1 → 3 ≤ s.clientSocket)
  | .conn .publish | .conn .publishLocked | .testStatus =>
    (param.reconFlag = 1 → pending s.calls = false) ∧ s.Sound
  | .recvHead | .checkHead _ | .getBuf _ | .asserted _ | .recvLoad .. | .msgFun _ =>
    pending s.calls = false ∧ s.Sound
  | .exit => (s.ret = 0 → pending s.calls = false) ∧ s.Sound
  | .conn .quit | .conn .quitClose | .setAbor => param.reconFlag = 1 → pending s.calls = false
  | .done => s.calls.head? = some .setAbor
  | .conn .receive | .conn .done => False

structure ReceiveInv (param : ClientParam) (s : Session) : Prop where
  law : ReceiveLaw param.reconFlag s.calls
  knows : s.pc.Knows param s

/-- A call of `OSA_tcpRcvBlockFd` while nothing has failed. -/
theorem ReceiveInv.rcv (hs : ReceiveInv param s) (hpending : pending s.calls = false)
    (hsound : s.Sound) (ret : ℤ) :
    ReceiveLaw param.reconFlag (.rcv s.clientSocket ret :: s.calls) := by
  refine ⟨fun h ↦ by simp [hpending] at h, fun fd r heq ↦ ?_, hs.law⟩
  obtain ⟨rfl, rfl⟩ := ClientCall.rcv.inj heq
  exact hsound hpending

/-- After a successful receive the connection is as it was. -/
theorem Session.Sound.rcv {s' : Session} (hsound : s.Sound) (hpending : pending s.calls = false)
    (hsocket : s'.clientSocket = s.clientSocket)
    (hcalls : s'.calls = .rcv s.clientSocket osaSok :: s.calls) : s'.Sound := by
  intro _
  obtain ⟨hconn, hfail⟩ := hsound hpending
  rw [hsocket, hcalls]
  exact ⟨hconn, by simpa [failedOn] using hfail⟩

theorem ReceiveInv.step (hs : ReceiveInv param s) (hok : ReceiveOk param s a)
    (hstep : sessionStep param s a = some s') : ReceiveInv param s' := by
  have hknows := hs.knows
  cases session_cases hstep with
  | quiet pc pc' hpc hquiet =>
      rw [hpc] at hknows
      refine ⟨hs.law, ?_⟩
      cases hquiet <;> exact hknows
  | closeOld hpc =>
      rw [hpc] at hknows
      exact ⟨⟨fun _ ↦ trivial, fun _ _ h ↦ (by cases h), hs.law⟩, hknows⟩
  | noOld hpc =>
      rw [hpc] at hknows
      exact ⟨hs.law, hknows⟩
  | socket fd hpc =>
      rw [hpc] at hknows
      refine ⟨⟨fun h ↦ hknows.resolve_right (by simp [h]), fun _ _ h ↦ (by cases h), hs.law⟩, ?_⟩
      by_cases hfd : fd < 3 ∧ param.reconFlag = 1
      · simp only [if_pos hfd]
        exact Or.inl hfd.2
      · simp only [if_neg hfd]
        refine ⟨⟨_, rfl⟩, fun hrecon ↦ ?_⟩
        change 3 ≤ fd
        exact not_lt.mp fun hlt ↦ hfd ⟨hlt, hrecon⟩
  | connect ok ret hpc hret =>
      rw [hpc] at hknows
      obtain ⟨⟨calls, hcalls⟩, hthree⟩ := hknows
      refine ⟨⟨fun h hrecon ↦ ?_, fun _ _ h ↦ (by cases h), hs.law⟩, ?_⟩
      · have := hthree hrecon
        simp only [hcalls, pending, ClientCall.failed, decide_eq_true_eq] at h
        omega
      · by_cases hfail : ret ≠ osaSok ∧ param.reconFlag = 1
        · simp only [if_pos hfail]
          exact Or.inl hfail.2
        · simp only [if_neg hfail]
          refine ⟨fun hrecon ↦ ?_, fun hgood ↦ ?_⟩
          · have hsok : ret = osaSok := by
              by_contra hne
              exact hfail ⟨hne, hrecon⟩
            simp [pending, ClientCall.failed, hsok]
          · have hsok : ret = osaSok := by simpa [pending, ClientCall.failed] using hgood
            simp [connectedOn, failedOn, hsok, hcalls]
  | quitClose hpc =>
      rw [hpc] at hknows
      exact ⟨⟨fun _ ↦ trivial, fun _ _ h ↦ (by cases h), hs.law⟩, hknows⟩
  | enter hpc =>
      rw [hpc] at hknows
      exact ⟨hs.law, (hok rfl).elim hknows.1 id, hknows.2⟩
  | leave hpc =>
      rw [hpc] at hknows
      exact ⟨hs.law, hknows.1⟩
  | head stream es r hpc =>
      rw [hpc] at hknows
      refine ⟨hs.rcv hknows.1 hknows.2 r.status, ?_⟩
      by_cases hst : r.status = osaSok
      · simp only [hst, ne_eq, not_true, if_false]
        exact ⟨by simp [pending, ClientCall.failed], hknows.2.rcv hknows.1 rfl rfl⟩
      · simp only [hst, ne_eq, not_false_eq_true, if_true]
        exact ⟨fun h0 ↦ (hst h0).elim,
          fun hgood ↦ by simp [pending, ClientCall.failed, hst] at hgood⟩
  | badHead h hpc =>
      rw [hpc] at hknows
      exact ⟨hs.law, fun _ ↦ hknows.1, hknows.2⟩
  | array h buf hpc | goodHead h hpc | buffer h buf hpc | key h hpc =>
      rw [hpc] at hknows
      exact ⟨hs.law, hknows⟩
  | noBuffer h pc hpc hor =>
      rw [hpc] at hknows
      rcases hor with rfl | rfl <;> exact ⟨hs.law, hknows⟩
  | load h buf stream es r hpc hr hst =>
      rw [hpc] at hknows
      refine ⟨hs.rcv hknows.1 hknows.2 r.status, ?_⟩
      simp only [hst]
      exact ⟨by simp [pending, ClientCall.failed], hknows.2.rcv hknows.1 rfl rfl⟩
  | noLoad h buf stream es r hpc hr hst =>
      rw [hpc] at hknows
      refine ⟨by simpa using hs.rcv hknows.1 hknows.2 r.status, fun h0 ↦ ?_, fun hgood ↦ ?_⟩
      · simp at h0
        exact (hst h0).elim
      · simp [pending, ClientCall.failed, hst] at hgood
  | msgFun d hpc =>
      rw [hpc] at hknows
      exact ⟨hs.law, fun _ ↦ hknows.1, hknows.2⟩
  | exit hpc =>
      rw [hpc] at hknows
      refine ⟨by simpa using hs.law, ?_⟩
      by_cases hret : s.ret ≠ 0 ∧ param.reconFlag = 1
      · simp only [if_pos hret]
        exact Or.inl hret.2
      · simp only [if_neg hret]
        refine ⟨fun hrecon ↦ ?_, by simpa [Session.Sound] using hknows.2⟩
        simp only [Session.freeTmp_calls]
        exact hknows.1 (by by_contra hne; exact hret ⟨hne, hrecon⟩)
  | setAbor hpc =>
      rw [hpc] at hknows
      exact ⟨⟨fun h hrecon ↦ by simp [hknows hrecon] at h, fun _ _ h ↦ (by cases h), hs.law⟩, rfl⟩

theorem receiveInv_of_reach (h : Reach (sessionStep param) (ReceiveOk param) sessionStart s) :
    ReceiveInv param s :=
  h.invariant ⟨trivial, Or.inr rfl⟩ fun _ _ _ hs hok hstep ↦ hs.step hok hstep

theorem rcv_error_isSome (s : Session) (buf : Option (List UInt8)) (rcvLen : ℤ)
    (next : List UInt8 → SessionPc) (fail : Session → Session) :
    ∃ s', s.rcv buf rcvLen [] [.error] next fail = some s' := by
  refine Option.isSome_iff_exists.mp ?_
  simp only [Session.rcv, Option.isSome_map, osaTcpRcvBlockFd]
  cases buf with
  | none => rfl
  | some buf =>
      dsimp only
      split
      · rfl
      · split
        · rfl
        · simp only [rcvLoop]
          split <;> rfl

/-- The call that the thread makes next can always return. -/
theorem ReceiveInv.goes_on (hs : ReceiveInv param s) (hpc : s.pc ≠ .done) :
    ∃ a s', ReceiveOk param s a ∧ sessionStep param s a = some s' := by
  have hknows := hs.knows
  cases hat : s.pc with
  | conn pc =>
      cases pc with
      | receive | done =>
          rw [hat] at hknows
          exact hknows.elim
      | closeOld =>
          refine ⟨.next, ?_⟩
          by_cases hpos : s.clientSocket > 0 <;>
            simp [sessionStep, hat, Session.connStep, OsaBase.osaClientProcessThr, ReceiveOk, hpos]
      | create => exact ⟨.socket 3, by
          simp [sessionStep, hat, Session.connStep, OsaBase.osaClientProcessThr, ReceiveOk]⟩
      | connect =>
          refine ⟨.connect true, ?_⟩
          by_cases hret : osaConnetBlockFd s.clientSocket param.serverPort true = osaSok <;>
            by_cases hrecon : param.reconFlag = 1 <;>
            simp [sessionStep, hat, Session.connStep, OsaBase.osaClientProcessThr, ReceiveOk, hret,
              hrecon]
      | repeatConnect | publish | publishLocked | unset | quit | quitClose =>
          exact ⟨.next, by
            simp [sessionStep, hat, Session.connStep, OsaBase.osaClientProcessThr, ReceiveOk]⟩
  | testStatus => exact ⟨.status false, by
      simp [sessionStep, hat, Session.connStep, OsaBase.osaClientProcessThr, ReceiveOk]⟩
  | recvHead =>
      obtain ⟨s', hs'⟩ := rcv_error_isSome s _ _ (SessionPc.checkHead) id
      exact ⟨.rcv [] [.error], s', trivial, by simpa only [sessionStep, hat] using hs'⟩
  | recvLoad h load =>
      obtain ⟨s', hs'⟩ := rcv_error_isSome s load _ _ Session.freeTmp
      exact ⟨.rcv [] [.error], s', trivial, by simpa only [sessionStep, hat] using hs'⟩
  | checkHead h =>
      refine ⟨.next, ?_⟩
      simp only [sessionStep, hat]
      split
      · exact ⟨_, trivial, rfl⟩
      · split <;> exact ⟨_, trivial, rfl⟩
  | getBuf => exact ⟨.mem true, _, trivial, by simp only [sessionStep, hat]; rfl⟩
  | asserted => exact ⟨.key, _, trivial, by simp only [sessionStep, hat]; rfl⟩
  | msgFun => exact ⟨.next, _, trivial, by simp only [sessionStep, hat]; rfl⟩
  | exit =>
      refine ⟨.next, ?_⟩
      by_cases hret : s.ret = 0 <;> by_cases hrecon : param.reconFlag = 1 <;>
        simp [sessionStep, hat, Session.connStep, OsaBase.osaClientProcessThr, ReceiveOk, hret,
          hrecon]
  | setAbor => exact ⟨.next, _, trivial, by simp only [sessionStep, hat]; rfl⟩
  | done => exact (hpc hat).elim

/-- A step that does not meet the condition is followed by a receive that breaks the law. -/
theorem receives_unhealthy (hstep : sessionStep param s a = some s')
    (hnot : ¬ ReceiveOk param s a) :
    ∃ t, Reach (sessionStep param) Always s' t ∧ ¬ ReceiveLaw param.reconFlag t.calls := by
  cases a with
  | status connected =>
      simp only [ReceiveOk, Classical.not_imp, not_or, Bool.not_eq_false] at hnot
      obtain ⟨rfl, -, hpending⟩ := hnot
      cases session_cases hstep with
      | enter hpc =>
          have hrcv := rcv_error_isSome { s with pc := .recvHead, tmpMsg := .null, flag := false }
            (some (List.replicate param.clientType.headKind.format.headSize 0))
            param.clientType.headKind.format.headSize .checkHead id
          obtain ⟨t, ht⟩ := hrcv
          refine ⟨t, .tail (.rcv [] [.error]) .refl trivial ht, fun hlaw ↦ ?_⟩
          obtain ⟨r, -, ⟨-, rfl⟩ | ⟨-, rfl⟩⟩ := session_step_of_rcv ht <;> exact hlaw.1 hpending
  | next | socket | connect | rcv | mem | key => exact (hnot trivial).elim

/-- The client receives on a healthy connection in every run in which it does not go on after a
failure, and then it always goes on, up to `CLIENT_ABOR`. -/
theorem client_receives_healthy :
    (∀ s, Reach (sessionStep param) (ReceiveOk param) sessionStart s →
      ReceiveLaw param.reconFlag s.calls ∧
      if s.pc = .done then s.calls.head? = some .setAbor
      else ∃ a s', ReceiveOk param s a ∧ sessionStep param s a = some s') ∧
    ∀ s a s', Reach (sessionStep param) Always sessionStart s → sessionStep param s a = some s' →
      ¬ ReceiveOk param s a →
      ∃ t, Reach (sessionStep param) Always s' t ∧ ¬ ReceiveLaw param.reconFlag t.calls := by
  constructor
  · intro s hreach
    have hinv := receiveInv_of_reach hreach
    refine ⟨hinv.law, ?_⟩
    split
    · next hdone =>
      have hknows := hinv.knows
      rwa [hdone] at hknows
    · next hgoing => exact hinv.goes_on hgoing
  · intro s a s' _ hstep hnot
    exact receives_unhealthy hstep hnot

/-- The client connects at `fd` and comes to its loop. -/
def connectCalls (fd : ℤ) (ok : Bool) : List SessionAnswer :=
  [.next, .next, .socket fd, .connect ok, .next, .next]

/-- A session that is over after a failed receive and a second connection. -/
def recoverRun : List SessionAnswer :=
  connectCalls 3 true ++ [.status true, .rcv [] [.error], .next, .next] ++ connectCalls 4 true ++
    [.status true, .rcv [] [.closed], .next, .next] ++ connectCalls 5 true ++
    [.status false, .next, .next, .next]

theorem client_receives_healthy_run : ∃ s : Session, s.pc = .done ∧
    ReceiveLaw 1 s.calls ∧ s.calls.head? = some .setAbor := by
  obtain ⟨s, hreach, hs⟩ := Reach.exists_of_exec (sessionStep msgClient) (ReceiveOk msgClient)
    sessionStart recoverRun (fun s : Session ↦ s.pc = .done) (by decide)
  have hdone := of_decide_eq_true hs
  obtain ⟨hlaw, hend⟩ := client_receives_healthy.1 s hreach
  rw [if_pos hdone] at hend
  exact ⟨s, hdone, hlaw, hend⟩

/-- Without `recon_flag` the client receives on a descriptor that is not connected. -/
theorem client_receives_unconnected : ∃ s : Session,
    Reach (sessionStep { msgClient with reconFlag := 0 }) Always sessionStart s ∧
    s.calls = [.rcv 3 osaEfail, .connect 3 osaEfail, .socket 3] ∧ ¬ ReceiveLaw 0 s.calls := by
  obtain ⟨s, hreach, hs⟩ := Reach.exists_of_exec (sessionStep { msgClient with reconFlag := 0 })
    Always sessionStart (connectCalls 3 false ++ [.status true, .rcv [] [.error]])
    (fun s : Session ↦ s.calls = [.rcv 3 osaEfail, .connect 3 osaEfail, .socket 3]) (by decide)
  have hcalls := of_decide_eq_true hs
  refine ⟨s, hreach, hcalls, fun hlaw ↦ ?_⟩
  rw [hcalls] at hlaw
  exact hlaw.1 rfl

end OsaBase.Client
