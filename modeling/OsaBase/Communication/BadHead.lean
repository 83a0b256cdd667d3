import OsaBase.Communication.Receive
import OsaBase.Communication.SendMsg

/-!
# A header that fails the check

The error exit of the check is shared with the failed receives and is steered by `ret`, which the
successful receive of the header has left at `OSA_SOK`: the connection is kept and the next bytes
are read as a header. A bad header that arrives is never the end of the connection.
-/

open Framing

namespace OsaBase

/-- Headers that fail the check are the end of the connection: what is handed on follows good
headers only, after a bad one nothing is looked at or handed on, and the connection has been
dropped. -/
structure EndsAtBadHead (k : HeadKind) (run : LoopRun) : Prop where
  deals : ∀ pre dealmsg post, run.acts = pre ++ .deal dealmsg :: post →
    ∀ h, .checkHead h ∈ pre → k.check h = 0
  stops : ∀ pre h post, run.acts = pre ++ .checkHead h :: post → k.check h ≠ 0 → post = []
  dropped : ∀ h, .checkHead h ∈ run.acts → k.check h ≠ 0 → run.stop = .dropped

/-- After some whole frames, behind which the loop goes on, a header arrives that fails the
check. -/
inductive MeetsBadHead (k : HeadKind) (log : LoopLog) : List TurnSchedule → List UInt8 → Prop
  | bad {es : TurnSchedule} {rest : List TurnSchedule} {h s : List UInt8}
      (hlen : h.length = k.format.headSize) (hbad : k.check h ≠ 0)
      (harr : Arrives k.format.headSize es.head (h ++ s)) : MeetsBadHead k log (es :: rest) (h ++ s)
  | frame {es : TurnSchedule} {rest : List TurnSchedule} {f : Frame k.format} {s : List UInt8}
      (hbrings : es.Brings f s) (hgoes : log.goesOn es.dealRet f.head = true)
      (hrest : MeetsBadHead k log rest s) :
      MeetsBadHead k log (es :: rest) (f.head ++ (f.body ++ s))

variable {k : HeadKind} {log : LoopLog} {fd : ℤ} {drops : ℤ → Bool} {envs : List TurnSchedule}
  {s : List UInt8}

theorem MeetsBadHead.append (h : MeetsBadHead k log envs s) (more : List TurnSchedule) :
    MeetsBadHead k log (envs ++ more) s := by
  induction h with
  | bad hlen hbad harr => exact .bad hlen hbad harr
  | frame hbrings hgoes _ ih => exact .frame hbrings hgoes ih

theorem MeetsBadHead.length_le (h : MeetsBadHead k log envs s) : k.format.headSize ≤ s.length := by
  cases h with
  | bad hlen _ _ =>
      rw [List.length_append, hlen]
      exact Nat.le_add_right _ _
  | @frame _ _ f _ _ _ _ =>
      rw [List.length_append, f.length_head]
      exact Nat.le_add_right _ _

/-- A bad header on a stream that begins with a frame comes behind the frame. -/
theorem MeetsBadHead.behind {es : TurnSchedule} {f : Frame k.format}
    (h : MeetsBadHead k log (es :: envs) (f.head ++ (f.body ++ s))) :
    MeetsBadHead k log envs s := by
  generalize hst : f.head ++ (f.body ++ s) = st at h
  cases h with
  | @bad _ _ head _ hlen hbad _ =>
      obtain ⟨rfl, -⟩ := List.append_inj hst (f.length_head.trans hlen.symm)
      exact (hbad ((k.ok_iff _).mp f.ok)).elim
  | @frame _ _ g t _ _ hrest =>
      obtain ⟨hhead, hbody⟩ := List.append_inj hst (f.length_head.trans g.length_head.symm)
      have hlen : f.body.length = g.body.length := by rw [f.length_body, g.length_body, hhead]
      obtain ⟨-, rfl⟩ := List.append_inj hbody hlen
      exact hrest

/-- A header that was looked at and failed the check. -/
def LooksAtBadHead (k : HeadKind) (acts : List LoopAct) : Prop :=
  ∃ h, .checkHead h ∈ acts ∧ k.check h ≠ 0

theorem not_looksAtBadHead {acts : List LoopAct}
    (h : ∀ head, .checkHead head ∈ acts → k.format.ok head = true) : ¬ LooksAtBadHead k acts := by
  rintro ⟨head, hmem, hbad⟩
  exact hbad ((k.ok_iff head).mp (h head hmem))

theorem EndsAtBadHead.of_not_looks {run : LoopRun} (h : ¬ LooksAtBadHead k run.acts) :
    EndsAtBadHead k run where
  deals := by
    rintro pre dealmsg post hacts head hhead
    by_contra hbad
    exact h ⟨head, by rw [hacts]; exact List.mem_append_left _ hhead, hbad⟩
  stops := by
    rintro pre head post hacts hbad
    exact (h ⟨head, by rw [hacts]; simp, hbad⟩).elim
  dropped := fun head hmem hbad ↦ (h ⟨head, hmem, hbad⟩).elim

/-! ## Every run -/

section

variable (hfd : 0 ≤ fd) (hdrops : ∀ ret, drops ret = true ↔ ret ≠ osaSok)

include hdrops

theorem drops_osaSok : drops osaSok = false := by
  rw [Bool.eq_false_iff, ne_eq, hdrops]
  exact fun h ↦ h rfl

include hfd

/-- A bad header is looked at only where one arrives. -/
theorem meetsBadHead_of_looks (envs : List TurnSchedule) (s : List UInt8)
    (h : LooksAtBadHead k (recvLoop k log drops fd envs s).acts) : MeetsBadHead k log envs s := by
  induction envs generalizing s with
  | nil =>
      obtain ⟨head, hmem, -⟩ := h
      cases hmem
  | cons es rest ih =>
      have hcases := recvTurn_cases hfd k log es s
      have hone : ∀ {head : List UInt8} {acts : List LoopAct}, k.format.ok head = true →
          LooksAtBadHead k (.checkHead head :: acts) → LooksAtBadHead k acts := by
        rintro head acts hok ⟨bad, hmem, hbad⟩
        rcases List.mem_cons.mp hmem with heq | hmem
        · cases heq
          exact (hbad ((k.ok_iff _).mp hok)).elim
        · exact ⟨bad, hmem, hbad⟩
      have hnil : ¬ LooksAtBadHead k [] := not_looksAtBadHead (by simp)
      have hdeal : ∀ {d : CallbackMsg} {acts : List LoopAct},
          LooksAtBadHead k (.deal d :: acts) → LooksAtBadHead k acts := by
        rintro d acts ⟨bad, hmem, hbad⟩
        exact ⟨bad, by simpa using hmem, hbad⟩
      simp only [recvLoop] at h
      generalize recvTurn k log fd es s = e at h hcases
      cases hcases with
      | noHead => exact (hnil h).elim
      | headFails ret s' hret _ =>
          simp only [(hdrops ret).mpr hret, if_true] at h
          exact (hnil h).elim
      | badHead head s' hlen hs harr hbad =>
          subst hs
          rw [Bool.eq_false_iff, ne_eq, k.ok_iff] at hbad
          exact .bad hlen hbad harr
      | noLoad head s' hlen hs _ hok => exact (hnil (hone hok h)).elim
      | noKey head s' hlen hs _ hok => exact (hnil (hone hok h)).elim
      | loadFails head s' ret s'' hlen hs _ hok hret _ =>
          simp only [(hdrops ret).mpr hret, if_true] at h
          exact (hnil (hone hok h)).elim
      | loadCrashes head s' hlen hs _ hok => exact (hnil (hone hok h)).elim
      | deals f s' buf hs hbrings _ hgoes =>
          subst hs
          simp only [drops_osaSok hdrops, Bool.false_eq_true, if_false, List.cons_append,
            List.nil_append] at h
          exact .frame hbrings hgoes (ih s' (hdeal (hone f.ok h)))
      | dealCrashes f s' buf hs hbrings _ _ => exact (hnil (hdeal (hone f.ok h))).elim

/-- Where a bad header arrives, the turn that looks at it keeps the connection. -/
theorem MeetsBadHead.keeps (h : MeetsBadHead k log envs s) :
    ∃ n, LooksAtBadHead k (recvLoop k log drops fd (envs.take n) s).acts ∧
      (recvLoop k log drops fd (envs.take n) s).stop = .running := by
  induction h with
  | @bad es rest head s hlen hbad harr =>
      have hturn : recvTurn k log fd es (head ++ s) = .exit osaSok [.checkHead head] s := by
        rw [recvTurn_of_arrives hfd hlen harr, if_neg]
        exact mt (k.ok_iff head).mp hbad
      refine ⟨1, ?_⟩
      simp only [List.take_succ_cons, List.take_zero, recvLoop, hturn, drops_osaSok hdrops,
        Bool.false_eq_true, if_false, List.append_nil]
      exact ⟨⟨head, List.mem_singleton_self _, hbad⟩, trivial⟩
  | @frame es rest f s hbrings hgoes _ ih =>
      obtain ⟨n, ⟨head, hmem, hbad⟩, hstop⟩ := ih
      obtain ⟨buf, -, hturn⟩ := recvTurn_of_brings log hfd hbrings
      rw [hgoes, if_pos rfl] at hturn
      refine ⟨n + 1, ?_⟩
      simp only [List.take_succ_cons, recvLoop, hturn, drops_osaSok hdrops, Bool.false_eq_true,
        if_false]
      exact ⟨⟨head, List.mem_append_right _ hmem, hbad⟩, hstop⟩

theorem endsAtBadHead_iff (envs : List TurnSchedule) (s : List UInt8) :
    (∀ n, EndsAtBadHead k (recvLoop k log drops fd (envs.take n) s)) ↔
      ¬ MeetsBadHead k log envs s := by
  constructor
  · intro hends hmeets
    obtain ⟨n, ⟨head, hmem, hbad⟩, hstop⟩ := hmeets.keeps hfd hdrops
    rw [(hends n).dropped head hmem hbad] at hstop
    cases hstop
  · intro hnot n
    apply EndsAtBadHead.of_not_looks
    intro hlooks
    have hmeets := meetsBadHead_of_looks hfd hdrops (envs.take n) s hlooks
    apply hnot
    rw [← List.take_append_drop n envs]
    exact hmeets.append _

end

/-- At every time a bad header has ended the connection, in the message loop of the server and in
the client's loop on both types, exactly when none arrives. -/
theorem bad_head_ends_connection_iff (logFun : LogFun) (fd : ℤ) (hfd : 3 ≤ fd)
    (envs : List TurnSchedule) (s : List UInt8) :
    ((∀ n, EndsAtBadHead msgKind (osaProcessClientLoop logFun fd (envs.take n) s)) ↔
      ¬ MeetsBadHead msgKind (osaProcessClientLog logFun) envs s) ∧
    ∀ clientType : ComType,
      (∀ n, EndsAtBadHead clientType.headKind
          (osaClientProcessLoop clientType 1 fd (envs.take n) s)) ↔
        ¬ MeetsBadHead clientType.headKind osaClientProcessLog envs s := by
  have hfd' : 0 ≤ fd := by omega
  constructor
  · exact endsAtBadHead_iff hfd' (by intro ret; simp [osaSok]) envs s
  · intro clientType
    exact endsAtBadHead_iff hfd' (by intro ret; simp [osaSok]) envs s

/-- Sixteen zero bytes fail the check; the connection is kept, and the sixteen bytes behind them are
read as a header. -/
theorem bad_head_is_passed_over :
    ¬ ∀ (logFun : LogFun) (fd : ℤ) (envs : List TurnSchedule) (s : List UInt8), 3 ≤ fd →
      EndsAtBadHead msgKind (osaProcessClientLoop logFun fd envs s) := by
  intro h
  have hends := h (fun _ _ ↦ false) 4 [⟨[.data 16], true, true, [], 0⟩,
    ⟨[.data 16], true, true, [], 0⟩] (List.replicate 16 0 ++ (sendHead 1 7).bytes) (by decide)
  have hacts : (osaProcessClientLoop (fun _ _ ↦ false) 4 [⟨[.data 16], true, true, [], 0⟩,
      ⟨[.data 16], true, true, [], 0⟩] (List.replicate 16 0 ++ (sendHead 1 7).bytes)).acts =
      [.checkHead (List.replicate 16 0), .checkHead (sendHead 1 7).bytes] := by decide
  exact absurd (hends.stops [] _ _ hacts (by decide)) (by decide)

/-- A message arrives whole and is refused by the application, whose report comes back; then half a
header arrives and the peer closes the connection. -/
theorem bad_head_ends_connection_half_head :
    EndsAtBadHead msgKind (osaProcessClientLoop (fun _ _ ↦ true) 4
        [⟨[.data 16], true, true, [.data 1], -1⟩, ⟨[.data 8, .closed], true, true, [], 0⟩]
        ((sendHead 1 7).bytes ++ ([65] ++ List.replicate 8 0))) ∧
      (osaProcessClientLoop (fun _ _ ↦ true) 4
        [⟨[.data 16], true, true, [.data 1], -1⟩, ⟨[.data 8, .closed], true, true, [], 0⟩]
        ((sendHead 1 7).bytes ++ ([65] ++ List.replicate 8 0))).stop = .dropped := by
  have hiff := (bad_head_ends_connection_iff (fun _ _ ↦ true) 4 (by decide)
    [⟨[.data 16], true, true, [.data 1], -1⟩, ⟨[.data 8, .closed], true, true, [], 0⟩]
    ((sendHead 1 7).bytes ++ ([65] ++ List.replicate 8 0))).1
  refine ⟨hiff.mpr ?_ 2, by decide⟩
  intro hmeets
  let f : Frame msgKind.format := ⟨(sendHead 1 7).bytes, [65], by decide, by decide, by decide⟩
  have hrest := MeetsBadHead.behind (f := f) hmeets
  exact absurd hrest.length_le (by decide)

end OsaBase
