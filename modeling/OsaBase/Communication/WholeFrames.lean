import OsaBase.Communication.Delivery
import OsaBase.Communication.Senders

/-!
# Frames of concurrent senders

When no call gets between the two sends of another on one connection and every payload goes to the
connection of its header, each connection carries whole frames up to the place where it was closed.
The first step against this rule leaves a connection on which header and payload no longer alternate
call by call, whatever follows.
-/

open Transition Framing

namespace OsaBase

section

variable {T O A : Type} [DecidableEq T] {own : Owner O A} {s s' : SendState T O}

/-- The bytes that the peer of a connection gets. -/
def SendState.wire (s : SendState T O) (c : ℕ) : List UInt8 := Writers.bytes (s.sent c)

/-- The connection carries the frames of messages that were passed to the calls, and possibly one
more header, whose call is still at work if the connection is still open. -/
def CarriesFrames (s : SendState T O) (c : ℕ) : Prop :=
  ∃ ms : List Msg, (∀ m ∈ ms, m ∈ s.passed) ∧
    (s.wire c = stream (ms.map Msg.frame) ∨ ∃ m ∈ s.passed,
      s.wire c = stream (ms.map Msg.frame) ++ m.frame.head ∧
        ∀ fd, s.table.fds fd = .connected c → ∃ t call, s.sender t = .sentHead m fd call c)

/-- The callback gets messages that were passed to the calls, and nothing else. -/
def DeliversPassed (s : SendState T O) (run : LoopRun) : Prop :=
  ∀ d ∈ run.dealt, ∃ m ∈ s.passed, d.pair = m.pair

/-! ## One step -/

theorem Msg.frame_injective {m m' : Msg} (h : m.frame = m'.frame) : m = m' := by
  have hmessage : m.message = m'.message := congrArg Frame.body h
  have hpair := m.pair_eq.symm.trans (h ▸ hmessage ▸ m'.pair_eq)
  obtain ⟨hcode, -⟩ := Prod.mk.inj hpair
  cases m
  cases m'
  simp only at hcode hmessage
  subst hcode hmessage
  rfl

structure SendInv (s : SendState T O) : Prop where
  writers : Writers.Inv s.writers
  calls : ∀ m ∈ s.calls, m ∈ s.passed
  pending : ∀ t, ∀ m ∈ (s.sender t).msg?, m ∈ s.passed

/-- The messages in the hands of the threads were passed to the calls. -/
theorem passed_step {l : SendLabel T A} (hcalls : ∀ m ∈ s.calls, m ∈ s.passed)
    (hpending : ∀ t, ∀ m ∈ (s.sender t).msg?, m ∈ s.passed)
    (hstep : sendStep own s l = some s') :
    (∀ m ∈ s'.calls, m ∈ s'.passed) ∧ ∀ t, ∀ m ∈ (s'.sender t).msg?, m ∈ s'.passed := by
  have hupdate : ∀ {t : T} {pc : SenderPc}, (∀ m ∈ pc.msg?, m ∈ (s.sender t).msg?) →
      ∀ u, ∀ m ∈ (Function.update s.sender t pc u).msg?, m ∈ s.passed := by
    intro t pc hpc u m hm
    by_cases hut : u = t
    · subst hut
      rw [Function.update_self] at hm
      exact hpending u m (hpc m hm)
    · rw [Function.update_of_ne hut] at hm
      exact hpending u m hm
  have hidle : ∀ {t : T}, ∀ m ∈ SenderPc.idle.msg?, m ∈ (s.sender t).msg? := by
    intro t m hm
    cases hm
  cases senderEffect hstep with
  | invoke t m =>
      refine ⟨fun m' hm' ↦ List.mem_append_left _ (hcalls m' hm'), fun u m' hm' ↦ ?_⟩
      by_cases hut : u = t
      · subst hut
        simp only [Function.update_self] at hm'
        obtain rfl : m = m' := by simpa [SenderPc.msg?] using hm'
        simp
      · simp only [Function.update_of_ne hut] at hm'
        exact List.mem_append_left _ (hpending u m' hm')
  | noSocket | noHead | load | noLoad => exact ⟨hcalls, hupdate hidle⟩
  | getSocket t m hpc => exact ⟨hcalls, hupdate (by rw [hpc]; exact fun _ h ↦ h)⟩
  | head t es m socket c hpc =>
      have hm : m ∈ s.passed := hpending t m (by simp [hpc, SenderPc.msg?])
      constructor
      · intro m' hm'
        rcases List.mem_append.mp hm' with hm' | hm'
        · exact hcalls m' hm'
        · obtain rfl := List.mem_singleton.mp hm'
          exact hm
      · exact hupdate (by rw [hpc]; exact fun _ h ↦ h)
  | owner => exact ⟨hcalls, hpending⟩

theorem SendInv.step {l : SendLabel T A} (hs : SendInv s) (hok : SendOk s l)
    (hstep : sendStep own s l = some s') : SendInv s' := by
  obtain ⟨hcalls, hpending⟩ := passed_step hs.calls hs.pending hstep
  refine ⟨?_, hcalls, hpending⟩
  rcases simulates hstep with ⟨hsame, -⟩ | ⟨mv, hmove, hclean⟩
  · rw [hsame]
    exact hs.writers
  · exact hs.writers.step (hclean.mpr hok) hmove

/-- A step that is not admitted spoils a connection. -/
theorem SendInv.spoiled {l : SendLabel T A} (hs : SendInv s) (hbad : ¬ SendOk s l)
    (hstep : sendStep own s l = some s') : ∃ c, Writers.Spoiled msgFormat (s'.sent c) := by
  rcases simulates hstep with ⟨-, hok⟩ | ⟨mv, hmove, hclean⟩
  · exact (hbad hok).elim
  · exact hs.writers.spoiled_of_not_clean hmove (mt hclean.mp hbad)

theorem spoiled_step {l : SendLabel T A} {c : ℕ} (hs : Writers.Spoiled msgFormat (s.sent c))
    (hstep : sendStep own s l = some s') : Writers.Spoiled msgFormat (s'.sent c) := by
  have hwritten : s.writers.written c = s.sent c := rfl
  rcases simulates hstep with ⟨hsame, -⟩ | ⟨mv, hmove, -⟩
  · rw [← hwritten, ← hsame] at hs
    exact hs
  · exact Writers.Spoiled.step hs hmove

/-! ## What is on a connection and what its reader makes of it -/

omit [DecidableEq T] in
theorem SendInv.carriesFrames (hs : SendInv s) (c : ℕ) : CarriesFrames s c := by
  have hpassed : ∀ f ∈ s.writers.calls, ∃ m ∈ s.passed, m.frame = f := by
    intro f hf
    obtain ⟨m, hm, rfl⟩ := List.mem_map.mp hf
    exact ⟨m, hs.calls m hm, rfl⟩
  have hlift : ∀ fs : List (Frame msgFormat), (∀ f ∈ fs, f ∈ s.writers.calls) →
      ∃ ms : List Msg, (∀ m ∈ ms, m ∈ s.passed) ∧ ms.map Msg.frame = fs := by
    intro fs hfs
    induction fs with
    | nil => exact ⟨[], by simp, rfl⟩
    | cons f fs ih =>
        obtain ⟨m, hm, rfl⟩ := hpassed f (hfs f List.mem_cons_self)
        obtain ⟨ms, hms, rfl⟩ := ih fun g hg ↦ hfs g (List.mem_cons_of_mem _ hg)
        exact ⟨m :: ms, List.forall_mem_cons.mpr ⟨hm, hms⟩, rfl⟩
  obtain ⟨fs, hfs, hbytes⟩ := hs.writers.bytes c
  obtain ⟨ms, hms, rfl⟩ := hlift fs hfs
  refine ⟨ms, hms, ?_⟩
  rcases hbytes with hwhole | ⟨f, hf, hcut, hopen⟩
  · exact Or.inl hwhole
  · obtain ⟨m, hm, rfl⟩ := hpassed f hf
    refine Or.inr ⟨m, hm, hcut, fun fd hfd ↦ ?_⟩
    obtain ⟨t, n, ht⟩ := hopen fd (Descriptor.conn_eq_some.mpr hfd)
    refine ⟨t, n, ?_⟩
    change (s.sender t).half = _ at ht
    cases hpc : s.sender t with
    | sentHead m' socket call conn =>
        rw [hpc] at ht
        simp only [SenderPc.half, Option.some.injEq, Writers.Half.mk.injEq] at ht
        obtain ⟨rfl, hframe, rfl, rfl⟩ := ht
        rw [Msg.frame_injective hframe]
    | idle | called | hasSocket =>
        rw [hpc] at ht
        cases ht

omit [DecidableEq T] in
theorem CarriesFrames.deliversPassed {c : ℕ} {log : LoopLog} {fd : ℤ} {drops : ℤ → Bool}
    {turns : List TurnSchedule} (h : CarriesFrames s c) (hfd : 0 ≤ fd)
    (hkeeps : ∀ es ∈ turns, KeepsPlace msgKind log fd drops es) :
    DeliversPassed s (recvLoop msgKind log drops fd turns (s.wire c)) := by
  have hrest : ∃ (ms : List Msg) (t : List UInt8), (∀ m ∈ ms, m ∈ s.passed) ∧
      Unfinished s.passed t ∧ s.wire c = stream (ms.map Msg.frame) ++ t := by
    obtain ⟨ms, hms, hwhole | ⟨m, hm, hcut, -⟩⟩ := h
    · exact ⟨ms, [], hms, .head (by decide), by rw [hwhole, List.append_nil]⟩
    · refine ⟨ms, m.frame.head ++ [], hms, .body m hm m.length_pos, ?_⟩
      rw [hcut, List.append_nil]
  obtain ⟨ms, t, hms, ht, hwire⟩ := hrest
  rw [hwire]
  obtain ⟨hdealt, -⟩ := @dealt_of_wire log fd drops ms _ t turns hfd hkeeps ht
  intro d hd
  have hpair : d.pair ∈ ms.map Msg.pair := hdealt.subset (List.mem_map_of_mem hd)
  obtain ⟨m, hm, heq⟩ := List.mem_map.mp hpair
  exact ⟨m, hms m hm, heq.symm⟩

/-! ## Every run -/

theorem sendInv_run {s₀ : SendState T O} (h₀ : SendInv s₀)
    (h : Reach (sendStep own) SendOk s₀ s) : SendInv s :=
  h.invariant (I := SendInv) h₀ fun _ _ _ ha hok hstep ↦ ha.step hok hstep

/-- After a step that is not admitted, some connection is no sequence of frames any more. -/
theorem not_whole_run {s₀ : SendState T O} (h₀ : SendInv s₀) {l : SendLabel T A}
    {s'' : SendState T O} (h : Reach (sendStep own) SendOk s₀ s)
    (hstep : sendStep own s l = some s') (hbad : ¬ SendOk s l)
    (hrest : Reach (sendStep own) Always s' s'') :
    ∃ c, ¬ Writers.Whole msgFormat (s''.sent c) := by
  obtain ⟨c, hspoiled⟩ := (sendInv_run h₀ h).spoiled hbad hstep
  have hlast : Writers.Spoiled msgFormat (s''.sent c) :=
    hrest.invariant (I := fun s ↦ Writers.Spoiled msgFormat (s.sent c)) hspoiled
      fun _ _ _ ha _ hl ↦ spoiled_step ha hl
  refine ⟨c, ?_⟩
  have hwhole := hlast []
  rwa [List.append_nil] at hwhole

omit [DecidableEq T] in
theorem clientStart_inv : SendInv (clientStart T) where
  writers := Writers.start_inv
  calls := by
    intro m hm
    cases hm
  pending := by
    intro t m hm
    cases hm

omit [DecidableEq T] in
theorem serviceStart_inv (clientSocket : ℤ) : SendInv (serviceStart T clientSocket) where
  writers := by
    have h := (Writers.start_inv (T := T) (D := ℤ) (F := msgFormat)).connect clientSocket
    have hconn : (fun fd ↦ (Function.update (fun _ ↦ Descriptor.closed) clientSocket
        (.connected 0) fd).conn) = Function.update (fun _ ↦ none) clientSocket (some 0) :=
      conn_update _ _ _
    unfold serviceStart SendState.writers
    rw [hconn]
    exact h
  calls := by
    intro m hm
    cases hm
  pending := by
    intro t m hm
    cases hm

/-- Every connection carries the frames of messages that were passed to the calls, each with the
header and the payload of one call next to each other. -/
def SendsWhole (s : SendState T O) : Prop :=
  ∀ c, CarriesFrames s c ∧ Writers.Whole msgFormat (s.sent c)

/-- In a run whose steps are all admitted every connection carries whole frames and its reader hands
on only messages passed to the calls; after a step that is not admitted some connection never
carries whole frames again. The same holds of the threads that send on one client of a server,
whatever else the server does to its descriptors. -/
theorem concurrent_sends_whole_iff (T : Type) [DecidableEq T] (reconFlag clientSocket : ℤ) :
    (∀ s, Reach (sendStep (clientOwner reconFlag)) SendOk (clientStart T) s → SendsWhole s ∧
      (∀ logFun c fd turns, 3 ≤ fd →
        DeliversPassed s (osaProcessClientLoop logFun fd turns (s.wire c))) ∧
      ∀ l s', sendStep (clientOwner reconFlag) s l = some s' → ¬ SendOk s l →
        ∀ s'', Reach (sendStep (clientOwner reconFlag)) Always s' s'' → ¬ SendsWhole s'') ∧
    ∀ s, Reach (sendStep (serviceOwner clientSocket)) SendOk (serviceStart T clientSocket) s →
      SendsWhole s ∧
      (∀ c fd turns, 3 ≤ fd → (reconFlag = 1 ∨ ∀ es ∈ turns, TurnSchedule.Gentle es) →
        DeliversPassed s (osaClientProcessLoop .msgType reconFlag fd turns (s.wire c))) ∧
      ∀ l s', sendStep (serviceOwner clientSocket) s l = some s' → ¬ SendOk s l →
        ∀ s'', Reach (sendStep (serviceOwner clientSocket)) Always s' s'' → ¬ SendsWhole s'' := by
  constructor
  · intro s hs
    have hinv := sendInv_run clientStart_inv hs
    refine ⟨fun c ↦ ⟨hinv.carriesFrames c, hinv.writers.whole c⟩, ?_, ?_⟩
    · intro logFun c fd turns hfd
      apply (hinv.carriesFrames c).deliversPassed (by omega)
      intro es _
      exact keepsPlace_of_drops (fun ret hret ↦ by simpa [osaSok] using hret) es
    · intro l s' hstep hbad s'' hrest hwhole
      obtain ⟨c, hnot⟩ := not_whole_run clientStart_inv hs hstep hbad hrest
      exact hnot (hwhole c).2
  · intro s hs
    have hinv := sendInv_run (serviceStart_inv clientSocket) hs
    refine ⟨fun c ↦ ⟨hinv.carriesFrames c, hinv.writers.whole c⟩, ?_, ?_⟩
    · intro c fd turns hfd hturns
      have hfd' : 0 ≤ fd := by omega
      apply (hinv.carriesFrames c).deliversPassed hfd'
      intro es hes
      rcases hturns with rfl | hgentle
      · exact keepsPlace_of_drops (fun ret hret ↦ by simpa [osaSok] using hret) es
      · exact (hgentle es hes).keepsPlace hfd'
    · intro l s' hstep hbad s'' hrest hwhole
      obtain ⟨c, hnot⟩ := not_whole_run (serviceStart_inv clientSocket) hs hstep hbad hrest
      exact hnot (hwhole c).2

end

/-- The client connects at descriptor 4. -/
def connects : List (SendLabel (Fin 2) ClientAnswer) :=
  [.owner .next, .owner .next, .owner (.socket 4), .owner (.connect true), .owner .next,
    .owner .next]

/-- The first heartbeat. -/
def heartBeat : Msg := ⟨0x800, [1, 0, 0, 0, 0, 0, 0, 0], by decide, by decide⟩

/-- A message of one byte. -/
def oneByte : Msg := ⟨1, [65], by decide, by decide⟩

/-- The header of a heartbeat gets between the header and the payload of a message; its first byte
is handed on as the payload. -/
theorem heart_beat_splits_message :
    ¬ ∀ s : SendState (Fin 2) ClientThr,
      Reach (sendStep (clientOwner 1)) Always (clientStart (Fin 2)) s →
        ∀ logFun c fd turns, 3 ≤ fd →
          DeliversPassed s (osaProcessClientLoop logFun fd turns (s.wire c)) := by
  intro h
  obtain ⟨s, hs, hp⟩ := Reach.exists_of_exec (sendStep (clientOwner 1)) Always
    (clientStart (Fin 2))
    (connects ++ [.invoke 0 oneByte, .invoke 1 heartBeat, .getSocket 0,
      .getSocket 1, .sendHead 0 [.writable 16], .sendHead 1 [.writable 16],
      .sendLoad 0 [.writable 1], .sendLoad 1 [.writable 8]])
    (fun s ↦ decide (¬ ∀ d ∈
      (osaProcessClientLoop (fun _ _ ↦ false) 5 [⟨[.data 16], true, true, [.data 1], 0⟩]
        (s.wire 0)).dealt, ∃ m ∈ s.passed, d.pair = m.pair)) (by decide)
  exact of_decide_eq_true hp
    (h s hs (fun _ _ ↦ false) 0 5 [⟨[.data 16], true, true, [.data 1], 0⟩] (by decide))

/-- A heartbeat whose header goes out behind the message, and one whose header does not. -/
theorem concurrent_sends_whole_heart_beat :
    (∃ s : SendState (Fin 2) ClientThr, SendsWhole s ∧ (s.sent 0).length = 4) ∧
      ∃ s : SendState (Fin 2) ClientThr, ¬ SendsWhole s ∧ (s.sent 0).length = 2 := by
  constructor
  · obtain ⟨s, hs, hp⟩ := Reach.exists_of_exec (sendStep (clientOwner 1)) SendOk
      (clientStart (Fin 2))
      (connects ++ [.invoke 0 oneByte, .invoke 1 heartBeat, .getSocket 0, .getSocket 1,
        .sendHead 0 [.writable 16], .sendLoad 0 [.writable 1], .sendHead 1 [.writable 16],
        .sendLoad 1 [.writable 8]])
      (fun s ↦ (s.sent 0).length = 4) (by decide)
    exact ⟨s, ((concurrent_sends_whole_iff (Fin 2) 1 5).1 s hs).1, of_decide_eq_true hp⟩
  · obtain ⟨s, hs, hp⟩ := Reach.exists_of_exec (sendStep (clientOwner 1)) SendOk
      (clientStart (Fin 2))
      (connects ++ [.invoke 0 oneByte, .invoke 1 heartBeat, .getSocket 0, .getSocket 1,
        .sendHead 0 [.writable 16]])
      (fun s ↦ (sendStep (clientOwner 1) s (.sendHead 1 [.writable 16])).any
          (fun s' ↦ (s'.sent 0).length = 2) &&
        !decide (SendOk (A := ClientAnswer) s (.sendHead 1 [.writable 16]))) (by decide)
    obtain ⟨hany, hbad⟩ := Bool.and_eq_true_iff.mp hp
    obtain ⟨s', hstep, hlen⟩ := (Option.any_eq_true _ _).mp hany
    have hspoils := ((concurrent_sends_whole_iff (Fin 2) 1 5).1 s hs).2.2
    exact ⟨s', hspoils _ s' hstep (by simpa using hbad) s' .refl, of_decide_eq_true hlen⟩

end OsaBase
