import OsaBase.Server.Invariant

/-!
# The limit of clients

`OSA_server_thread` compares the size of the list with `max_client`, but a client is put into the
list later, by its own thread. What stays bounded is the size of the list together with the threads
that have not added themselves yet, as long as a thread is only created while this sum is below the
limit.
-/

open Transition

namespace OsaBase.Server

variable {param : ServerParam} {s s' : State} {l : Label param}

/-- No more clients are in the list than `max_client` allows. -/
def LimitLaw (param : ServerParam) (s : State) : Prop :=
  (s.list.contents.length : ℤ) ≤ param.maxClient

instance (param : ServerParam) (s : State) : Decidable (LimitLaw param s) :=
  inferInstanceAs (Decidable (_ ≤ _))

/-- The clients in the list and those that are to add themselves to it. -/
def State.places (s : State) : ℕ :=
  s.list.contents.length + s.threads.countP fun thr ↦ thr.pc.pending

/-- A client thread is created only while less than `max_client` places are taken. -/
def LimitOk (param : ServerParam) (s : State) : Label param → Prop
  | .server (.thread true) => (s.places : ℤ) < param.maxClient
  | _ => True

instance (param : ServerParam) (s : State) : (l : Label param) → Decidable (LimitOk param s l)
  | .server (.thread true) => inferInstanceAs (Decidable (_ < _))
  | .server (.thread false) | .server .next | .server (.create _) | .server (.accept _)
  | .server (.mem _) | .app | .client _ _ | .sendBuf | .sender => inferInstanceAs (Decidable True)

/-! ## What a step does to the places -/

theorem Move.pending {server : ServerStatus} {thr thr' : CliThread} {h : OprHandle}
    {a : CliAnswer param} {e : CliEffect} (hmove : Move param server thr h a thr' e)
    (hpend : thr'.pc.pending = true) : thr.pc.pending = true ∧ ∀ mem, e ≠ .push mem := by
  cases hmove with
  | create hpc | connect hpc | noBuf hpc | createBuf mem initStatus r hpc | getSocket hpc =>
      exact ⟨by rw [hpc]; rfl, fun mem h ↦ by cases h⟩
  | running | getFull | testType | drain =>
      dsimp only at hpend
      split at hpend <;> cases hpend
  | quit | register | connected | disconnected | stopped | sent | sendFailed | putEmpty | turn
  | turnFailed | exitStatus | exitShutdown | exitClose | exitUnset | unregister | shutdown | close
  | deleteLock | deleteBuf | free => cases hpend

/-- A thread that adds itself to the list is one of those that were to. -/
theorem push_places (hs : RegInv s) {i : ℕ} {thr thr' : CliThread} {mem : Option ℕ} {l : ListHandle}
    (hthr : s.threads[i]? = some thr) (hfrom : thr.pc.pending = true)
    (hto : thr'.pc.pending = false) (hfresh : s.list.Fresh mem)
    (hpush : s.list.listPushBack mem thr.handle = some l) :
    State.places { s.setThread i thr' with list := l } ≤ s.places := by
  obtain ⟨hnone, hsome⟩ := hs.holds.push hfresh hpush
  have hcount := countP_set_add (y := thr') hthr fun thr ↦ thr.pc.pending
  rw [hfrom, hto, Bool.toNat_true, Bool.toNat_false] at hcount
  have hlen : l.contents.length ≤ s.list.contents.length + 1 := by
    cases mem with
    | none =>
        rw [(hnone rfl).1.contents]
        omega
    | some a => rw [(hsome (by simp)).1.contents, List.length_append, List.length_singleton]
  change l.contents.length + (s.threads.set i thr').countP _ ≤ _
  simp only [State.places]
  omega

theorem client_places (hs : Inv s) {i : ℕ} {a : CliAnswer param} {thr : CliThread}
    (hthr : s.threads[i]? = some thr) (h : ClientStep param s i a thr s') :
    s'.places ≤ s.places := by
  have hkeep : ∀ thr' : CliThread, (thr'.pc.pending = true → thr.pc.pending = true) →
      (s.threads.set i thr').countP (fun thr ↦ thr.pc.pending) ≤
        s.threads.countP fun thr ↦ thr.pc.pending := by
    intro thr' himp
    have hcount := countP_set_add (y := thr') hthr fun thr ↦ thr.pc.pending
    have := Bool.toNat_le_toNat himp
    omega
  cases h with
  | noHandle | fault | pushCrash | earseCrash =>
      exact Nat.add_le_add_left (hkeep _ fun h ↦ by cases h) _
  | none h thr' _ hmove | write h thr' h' _ hmove | shutdown h thr' _ hmove | close h thr' _ hmove
  | free h thr' _ hmove => exact Nat.add_le_add_left (hkeep _ fun h ↦ (hmove.pending h).1) _
  | push h thr' mem l _ hmove hidle hfresh hpush =>
      cases hmove with
      | register _ hpc => exact push_places hs.reg hthr (by rw [hpc]; rfl) rfl hfresh hpush
  | earse h thr' l _ hmove hidle hearse =>
      obtain ⟨l', hearse', hholds, -⟩ := hs.reg.holds.earse thr.handle
      obtain rfl : l' = l := Option.some.inj (hearse'.symm.trans hearse)
      have hlen : l'.contents.length ≤ s.list.contents.length := by
        rw [hholds.contents]
        exact List.length_erase_le
      exact Nat.add_le_add hlen (hkeep _ fun h ↦ (hmove.pending h).1)

/-- Only the creation of a client thread takes a place. -/
theorem places_step (hs : Inv s) (hstep : Server.step param s l = some s') :
    s'.places ≤ s.places ∨
      l = .server (.thread true) ∧ s'.places = s.places + 1 := by
  cases step_cases hstep with
  | app h => exact Or.inl (by cases h <;> exact le_rfl)
  | server a h =>
      cases h with
      | spawned fd conn handle hpc =>
          refine Or.inr ⟨rfl, ?_⟩
          simp only [State.places, List.countP_append, List.countP_singleton, CliPc.pending,
            if_true]
          omega
      | created | createFailed | setStar | goOn | leave | noClient | lowClient | accepted | readSize
      | admitted | refused | noMemory | allocated | spawnFailed | setAbor => exact Or.inl le_rfl
  | client i a thr hthr _ h => exact Or.inl (client_places hs hthr h)
  | sender l hl hfree h => exact Or.inl (by cases h <;> exact le_rfl)

/-! ## Runs -/

theorem places_le (h : Reach (step param) (LimitOk param) start s) :
    (s.places : ℤ) ≤ param.maxClient := by
  refine (h.invariant (I := fun s ↦ Inv s ∧ (s.places : ℤ) ≤ param.maxClient) ?_ ?_).2
  · exact ⟨start_inv, param.max_pos.le⟩
  · intro s l s' hs hok hstep
    refine ⟨hs.1.step hstep, ?_⟩
    have hle := hs.2
    rcases places_step hs.1 hstep with hstay | ⟨rfl, heq⟩
    · omega
    · have hlt : (s.places : ℤ) < param.maxClient := hok
      omega

/-- The limit holds in a run that creates a client thread only while less than `max_client` clients
are in the list or about to be. -/
theorem client_limit_of_places (h : Reach (step param) (LimitOk param) start s) :
    LimitLaw param s := by
  have hplaces := places_le h
  unfold State.places at hplaces
  unfold LimitLaw
  omega

theorem client_limit_of_places_one : ∃ s, s.list.contents = [0] ∧ LimitLaw oneClient s := by
  obtain ⟨s, hreach, hs⟩ := Reach.exists_of_exec (step oneClient) (LimitOk oneClient) start
    (listenRun 3 ++ admitRun 4 0 ++ joinRun 0 10) (fun s ↦ s.list.contents = [0]) (by decide)
  exact ⟨s, of_decide_eq_true hs, client_limit_of_places hreach⟩

/-- A second client is compared with the limit before the first one is in the list. -/
theorem client_limit_passed : ∃ s, Reach (step oneClient) Always start s ∧
    ¬ LimitLaw oneClient s := by
  obtain ⟨s, hreach, hs⟩ := Reach.exists_of_exec (step oneClient) Always start
    (listenRun 3 ++ admitRun 4 0 ++ admitRun 5 1 ++ joinRun 0 10 ++ joinRun 1 11)
    (fun s ↦ ¬ LimitLaw oneClient s) (by decide)
  exact ⟨s, hreach, of_decide_eq_true hs⟩

end OsaBase.Server
