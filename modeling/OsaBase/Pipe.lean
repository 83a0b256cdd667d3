import OsaBase.Lib.Descriptors
import OsaBase.Osa

/-!
# Making a pipe

`OSA_CreatePipe` wants two descriptors that are not 0, 1 or 2. Where `pipe` gives one of these, it
makes another pipe while the first one is open, and a third one where the second one still gets 2.
A jump to `EXIT` is an error that carries the state.
-/

namespace OsaBase

open Descriptor (Table)

structure OsaPipe where
  pfd : ℕ × ℕ
  pipeSize : ℕ
  messageSize : ℕ
  isFixedMessage : UInt8
  messageCount : ℤ
  totalBytesInPipe : ℤ
  deriving DecidableEq, Repr

/-- The blocks that a call allocates. -/
inductive PipeBlock
  | handle
  | handleBackup
  deriving DecidableEq, Repr

/-- Which allocations and which `pipe` calls succeed, in the order of the code. -/
structure PipeOutcomes where
  handle : Bool
  pipe : Bool
  handleBackup : Bool
  backup : Bool
  dummy : Bool
  backupAgain : Bool
  deriving DecidableEq, Repr

/-- The descriptors of the process, the blocks that the call has allocated, and its pointers that
are not `NULL`. -/
structure PipeCall where
  fds : Table
  allocated : Finset PipeBlock
  pointers : Finset PipeBlock

namespace PipeCall

def memAlloc (s : PipeCall) (ok : Bool) (block : PipeBlock) : Except PipeCall PipeCall :=
  if ok then
    .ok { s with
      allocated := insert block s.allocated
      pointers := insert block s.pointers }
  else .error s

def memFree (s : PipeCall) (block : PipeBlock) : PipeCall :=
  { s with allocated := s.allocated.erase block }

def pipe (s : PipeCall) (ok : Bool) : Except PipeCall ((ℕ × ℕ) × PipeCall) :=
  if ok then .ok (s.fds.pipe.1, { s with fds := s.fds.pipe.2 }) else .error s

def close (s : PipeCall) (fd : ℕ) : Except PipeCall PipeCall :=
  match s.fds.close fd with
  | some fds => .ok { s with fds := fds }
  | none => .error s

/-- The innermost block: where the backup has got 2, a dummy takes that. -/
def replaceBackup (s : PipeCall) (o : PipeOutcomes) (backup : ℕ × ℕ) :
    Except PipeCall ((ℕ × ℕ) × PipeCall) := do
  if backup.1 = 2 ∨ backup.2 = 2 then
    let s ← s.close backup.1
    let s ← s.close backup.2
    let (dummy, s) ← s.pipe o.dummy
    let (backup, s) ← s.pipe o.backupAgain
    let s ← s.close dummy.1
    let s ← s.close dummy.2
    return (backup, s)
  else return (backup, s)

/-- The block behind the test for 0, 1 and 2. -/
def moveToBackup (s : PipeCall) (o : PipeOutcomes) (pfd : ℕ × ℕ) :
    Except PipeCall ((ℕ × ℕ) × PipeCall) := do
  let s ← s.memAlloc o.handleBackup .handleBackup
  let (backup, s) ← s.pipe o.backup
  let (backup, s) ← s.replaceBackup o backup
  let s ← s.close pfd.1
  let s ← s.close pfd.2
  let s := s.memFree .handle
  return (backup, { s with pointers := s.pointers.erase .handle })

def reserved (fd : ℕ) : Prop := fd = 0 ∨ fd = 1 ∨ fd = 2

instance (fd : ℕ) : Decidable (reserved fd) := inferInstanceAs (Decidable (_ ∨ _))

/-- `OSA_CreatePipe` up to `EXIT`: the block that `*pPipe` gets, and its descriptors. -/
def create (s : PipeCall) (o : PipeOutcomes) :
    Except PipeCall ((PipeBlock × (ℕ × ℕ)) × PipeCall) := do
  let s ← s.memAlloc o.handle .handle
  let (pfd, s) ← s.pipe o.pipe
  if reserved pfd.1 ∨ reserved pfd.2 then
    let (backup, s) ← s.moveToBackup o pfd
    return ((.handleBackup, backup), s)
  else return ((.handle, pfd), s)

/-- What is done at `EXIT` with a failure. -/
def exit (s : PipeCall) : PipeCall :=
  let s := if .handle ∈ s.pointers then s.memFree .handle else s
  if .handleBackup ∈ s.pointers then s.memFree .handleBackup else s

end PipeCall

structure CreatePipeResult where
  status : ℤ
  pPipe : Option (PipeBlock × OsaPipe)
  call : PipeCall

def osaCreatePipe (fds : Table) (pipeSize messageSize : ℕ) (isFixedMessage : UInt8)
    (o : PipeOutcomes) : CreatePipeResult :=
  match PipeCall.create ⟨fds, ∅, ∅⟩ o with
  | .ok ((block, pfd), s) =>
      ⟨osaSok, some (block, ⟨pfd, pipeSize, messageSize, isFixedMessage, 0, 0⟩), s⟩
  | .error s => ⟨osaEfail, none, s.exit⟩

/-- A connected pair above 2 is added and its block allocated, or nothing is. -/
def AllOrNothing (fds : Table) (r : CreatePipeResult) : Prop :=
  (r.status = osaSok ∧ ∃ block pipe, r.pPipe = some (block, pipe) ∧ r.call.allocated = {block} ∧
    3 ≤ pipe.pfd.1 ∧ 3 ≤ pipe.pfd.2 ∧ r.call.fds.Connected pipe.pfd ∧
    pipe.pfd.1 ∉ fds.opened ∧ pipe.pfd.2 ∉ fds.opened ∧
    r.call.fds.opened = insert pipe.pfd.2 (insert pipe.pfd.1 fds.opened)) ∨
  (r.status = osaEfail ∧ r.pPipe = none ∧ r.call.allocated = ∅ ∧ r.call.fds.opened = fds.opened)

/-! ## The blocks of the code -/

namespace PipeCall

variable {s : PipeCall} {o : PipeOutcomes} {p q : ℕ × ℕ} {base : Finset ℕ} {t : Table}
  {α β : Type}

theorem ok_bind (a : α) (f : α → Except PipeCall β) : (Except.ok a >>= f) = f a := rfl

/-- Nothing is done behind a jump to `EXIT`. -/
theorem error_bind (s : PipeCall) (f : α → Except PipeCall β) :
    ((Except.error s : Except PipeCall α) >>= f) = .error s := rfl

theorem pipe_true (s : PipeCall) :
    s.pipe true = .ok (s.fds.pipe.1, { s with fds := s.fds.pipe.2 }) := rfl

theorem close_of_mem {fd : ℕ} (h : fd ∈ s.fds.opened) :
    s.close fd = .ok { s with fds := s.fds.closed fd } := by
  rw [close, Table.close, if_pos h]

/-- Both ends of a pipe that is open can be closed. -/
theorem close_pair_bind (hfst : p.1 ∈ s.fds.opened) (hsnd : p.2 ∈ s.fds.opened) (hlt : p.1 < p.2)
    (f : PipeCall → Except PipeCall β) :
    (s.close p.1 >>= fun s ↦ s.close p.2 >>= f) = f { s with fds := s.fds.closedPair p } := by
  have hstill : p.2 ∈ (s.fds.closed p.1).opened := Finset.mem_erase.mpr ⟨hlt.ne', hsnd⟩
  have hclose := close_of_mem (s := { s with fds := s.fds.closed p.1 }) hstill
  rw [close_of_mem hfst, ok_bind, hclose, ok_bind]
  rfl

/-- The backup ends above 2, or the jump leaves the dummy open. -/
theorem replaceBackup_cases (h : s.fds.Adds q base) (hlow : ∀ n < q.1, n ∈ base) (hq : 2 ≤ q.1) :
    ((q.1 = 2 → o.dummy = true ∧ o.backupAgain = true) ∧ ∃ r fds,
      s.replaceBackup o q = .ok (r, { s with fds := fds }) ∧ 3 ≤ r.1 ∧ fds.Adds r base) ∨
    (¬ (q.1 = 2 → o.dummy = true ∧ o.backupAgain = true) ∧ ∃ fds,
      s.replaceBackup o q = .error { s with fds := fds } ∧ base ⊆ fds.opened) := by
  have hlt := h.lt
  by_cases htwo : q.1 = 2
  · have hclosed := h.closedPair_opened
    have hdummy := (s.fds.closedPair q).makes_pipe
    have hagain := (s.fds.closedPair q).pipe.2.makes_pipe
    rw [replaceBackup, if_pos (Or.inl htwo), close_pair_bind h.fst_mem h.snd_mem hlt]
    cases hd : o.dummy with
    | false => exact Or.inr ⟨fun hall ↦ Bool.false_ne_true (hall htwo).1, _, rfl, hclosed.ge⟩
    | true =>
        cases ha : o.backupAgain with
        | false =>
            exact Or.inr ⟨fun hall ↦ Bool.false_ne_true (hall htwo).2, _, rfl,
              hclosed ▸ hdummy.subset⟩
        | true =>
            left
            have hkeep := hdummy.toAdds.closedPair hagain.toAdds
            refine ⟨fun _ ↦ ⟨rfl, rfl⟩, _, _, ?_, ?_, hclosed ▸ hkeep⟩
            · simp only [pipe_true, ok_bind]
              rw [close_pair_bind (hagain.subset hdummy.fst_mem) (hagain.subset hdummy.snd_mem)
                hdummy.lt]
              rfl
            · -- the dummy starts no lower than the backup, which was the lowest
              have hnot : ¬ (s.fds.closedPair q).pipe.1.1 < q.1 := by
                intro hlow'
                exact hdummy.fst_notMem (hclosed ▸ hlow _ hlow')
              have hnext := hdummy.lt_next hagain.fst_notMem
              have hltd := hdummy.lt
              omega
  · left
    refine ⟨fun heq ↦ (htwo heq).elim, q, s.fds, ?_, by omega, h⟩
    rw [replaceBackup, if_neg (by omega)]
    rfl

/-- The backup gets 2 exactly if none of the three is open at the start. -/
theorem backup_eq_two_iff {u v : Table} (h : t.Makes p u) (hp : p.1 ≤ 2) (hq : u.Makes q v) :
    q.1 = 2 ↔ Disjoint {0, 1, 2} t.opened := by
  have hlt := h.lt
  have habove := h.lt_next hq.fst_notMem
  simp only [Finset.disjoint_insert_left, Finset.disjoint_singleton_left]
  constructor
  · intro htwo
    have hfst := h.fst_notMem
    have hsnd := h.snd_notMem
    obtain ⟨hzero, hone⟩ : p.1 = 0 ∧ p.2 = 1 := by omega
    rw [hzero] at hfst
    rw [hone] at hsnd
    exact ⟨hfst, hsnd, fun hmem ↦ hq.fst_notMem (htwo ▸ h.subset hmem)⟩
  · rintro ⟨hzero, hone, htwo⟩
    have hfst : p.1 = 0 := by
      by_contra hne
      exact hzero (h.below 0 (Nat.pos_of_ne_zero hne))
    have hsnd : p.2 = 1 := by
      by_contra hne
      rcases h.between 1 (by omega) with heq | hmem
      · omega
      · exact hone hmem
    by_contra hne
    have hmem := hq.below 2 (by omega)
    simp [h.opened, hfst, hsnd, htwo] at hmem

/-- The pipe that got a reserved number is given up for the backup, or the jump leaves it open. -/
theorem moveToBackup_cases (h : t.Makes p s.fds) (hp : p.1 ≤ 2) :
    (o.handleBackup = true ∧ o.backup = true ∧
      (Disjoint {0, 1, 2} t.opened → o.dummy = true ∧ o.backupAgain = true) ∧ ∃ r fds,
        s.moveToBackup o p = .ok (r, ⟨fds, (insert .handleBackup s.allocated).erase .handle,
          (insert .handleBackup s.pointers).erase .handle⟩) ∧ 3 ≤ r.1 ∧ fds.Adds r t.opened) ∨
    (¬ (o.handleBackup = true ∧ o.backup = true ∧
        (Disjoint {0, 1, 2} t.opened → o.dummy = true ∧ o.backupAgain = true)) ∧ ∃ s',
      s.moveToBackup o p = .error s' ∧ s.fds.opened ⊆ s'.fds.opened ∧
        (s.allocated = s.pointers → s'.allocated = s'.pointers)) := by
  have hq := s.fds.makes_pipe
  have hlt := h.lt
  have hqlt := hq.lt
  have habove := h.lt_next hq.fst_notMem
  have htwo := backup_eq_two_iff h hp hq
  rw [← htwo]
  cases ha : o.handleBackup with
  | false =>
      right
      refine ⟨fun hall ↦ Bool.false_ne_true hall.1, s, ?_, subset_rfl, id⟩
      rw [moveToBackup, memAlloc, ha]
      rfl
  | true =>
      cases hb : o.backup with
      | false =>
          right
          refine ⟨fun hall ↦ Bool.false_ne_true hall.2.1,
            { s with
              allocated := insert .handleBackup s.allocated
              pointers := insert .handleBackup s.pointers }, ?_, subset_rfl,
            fun heq ↦ congrArg (insert PipeBlock.handleBackup) heq⟩
          rw [moveToBackup, ha, hb]
          rfl
      | true =>
          have hbody : s.moveToBackup o p =
              (⟨s.fds.pipe.2, insert .handleBackup s.allocated, insert .handleBackup s.pointers⟩ :
                PipeCall).replaceBackup o s.fds.pipe.1 >>= fun x ↦
                  x.2.close p.1 >>= fun s ↦ s.close p.2 >>= fun s ↦
                    .ok (x.1, { s.memFree .handle with pointers := s.pointers.erase .handle }) := by
            rw [moveToBackup, ha, hb]
            rfl
          rw [hbody]
          obtain ⟨hcond, r, fds, heq, hr, hadds⟩ | ⟨hcond, fds, heq, hsub⟩ :=
            replaceBackup_cases (s := ⟨s.fds.pipe.2, insert .handleBackup s.allocated,
              insert .handleBackup s.pointers⟩) (o := o) hq.toAdds hq.below (by omega)
          · left
            refine ⟨rfl, rfl, hcond, r, fds.closedPair p, ?_, hr, h.toAdds.closedPair hadds⟩
            rw [heq, ok_bind, close_pair_bind (hadds.subset h.fst_mem) (hadds.subset h.snd_mem) hlt]
            rfl
          · right
            refine ⟨fun hall ↦ hcond hall.2.2, _, by rw [heq, error_bind], hsub, ?_⟩
            exact fun halloc ↦ congrArg (insert PipeBlock.handleBackup) halloc

/-- `EXIT` frees what has been allocated, and closes nothing. -/
theorem exit_spec (h : s.allocated = s.pointers) : s.exit.allocated = ∅ ∧ s.exit.fds = s.fds := by
  constructor
  · ext block
    by_cases hhandle : .handle ∈ s.pointers <;> by_cases hbackup : .handleBackup ∈ s.pointers <;>
      cases block <;> simp [exit, memFree, hhandle, hbackup, h]
  · by_cases hhandle : .handle ∈ s.pointers <;> by_cases hbackup : .handleBackup ∈ s.pointers <;>
      simp [exit, memFree, hhandle, hbackup]

end PipeCall

/-! ## All or nothing -/

/-- What the call needs of its allocations and `pipe` calls to leave nothing half done. -/
def PipeOutcomes.Settled (o : PipeOutcomes) (opened : Finset ℕ) : Prop :=
  o.handle = false ∨ o.pipe = false ∨ {0, 1, 2} ⊆ opened ∨
    (o.handleBackup = true ∧ o.backup = true ∧
      (Disjoint {0, 1, 2} opened → o.dummy = true ∧ o.backupAgain = true))

section

variable {fds : Table} {o : PipeOutcomes} {p : ℕ × ℕ} {pipeSize messageSize : ℕ}
  {isFixedMessage : UInt8}

/-- A pipe has no reserved number exactly if these are all open before it. -/
theorem makes_three_le_iff {t : Table} (h : fds.Makes p t) :
    3 ≤ p.1 ↔ {0, 1, 2} ⊆ fds.opened := by
  simp only [Finset.insert_subset_iff, Finset.singleton_subset_iff]
  constructor
  · intro hle
    exact ⟨h.below 0 (by omega), h.below 1 (by omega), h.below 2 (by omega)⟩
  · rintro ⟨hzero, hone, htwo⟩
    by_contra hlt
    have hfst := h.fst_notMem
    obtain heq | heq | heq : p.1 = 0 ∨ p.1 = 1 ∨ p.1 = 2 := by omega
    all_goals
      rw [heq] at hfst
      exact hfst (by assumption)

theorem allOrNothing_ok {call : PipeCall} {block : PipeBlock} {pipe : OsaPipe}
    (h : call.fds.Adds pipe.pfd fds.opened) (hle : 3 ≤ pipe.pfd.1)
    (halloc : call.allocated = {block}) :
    AllOrNothing fds ⟨osaSok, some (block, pipe), call⟩ := by
  have hlt := h.lt
  exact Or.inl ⟨rfl, block, pipe, rfl, halloc, hle, by omega, h.connected, h.fst_notMem,
    h.snd_notMem, h.opened⟩

theorem allOrNothing_fail_iff {call : PipeCall} (h : call.allocated = call.pointers) :
    AllOrNothing fds ⟨osaEfail, none, call.exit⟩ ↔ call.fds.opened = fds.opened := by
  obtain ⟨halloc, hfds⟩ := PipeCall.exit_spec h
  constructor
  · rintro (⟨hok, -⟩ | ⟨-, -, -, hopened⟩)
    · exact (osaEfail_ne_osaSok hok).elim
    · rwa [hfds] at hopened
  · intro hopened
    exact Or.inr ⟨rfl, rfl, halloc, by rwa [hfds]⟩

theorem create_fails (fds : Table) (h : o.handle = false ∨ o.pipe = false) :
    ∃ s : PipeCall, PipeCall.create ⟨fds, ∅, ∅⟩ o = .error s ∧ s.allocated = s.pointers ∧
      s.fds = fds := by
  cases ha : o.handle with
  | false =>
      refine ⟨⟨fds, ∅, ∅⟩, ?_, rfl, rfl⟩
      rw [PipeCall.create, ha]
      rfl
  | true =>
      have hb : o.pipe = false := h.resolve_left (by simp [ha])
      refine ⟨⟨fds, {.handle}, {.handle}⟩, ?_, rfl, rfl⟩
      rw [PipeCall.create, ha, hb]
      rfl

theorem create_kept (ha : o.handle = true) (hb : o.pipe = true) (hle : 3 ≤ fds.pipe.1.1) :
    PipeCall.create ⟨fds, ∅, ∅⟩ o =
      .ok ((.handle, fds.pipe.1), ⟨fds.pipe.2, {.handle}, {.handle}⟩) := by
  have hlt := fds.makes_pipe.lt
  have hfree : ¬ (PipeCall.reserved fds.pipe.1.1 ∨ PipeCall.reserved fds.pipe.1.2) := by
    simp only [PipeCall.reserved]
    omega
  rw [PipeCall.create, ha, hb]
  exact if_neg hfree

theorem create_moved (ha : o.handle = true) (hb : o.pipe = true) (hle : fds.pipe.1.1 ≤ 2) :
    PipeCall.create ⟨fds, ∅, ∅⟩ o =
      (⟨fds.pipe.2, {.handle}, {.handle}⟩ : PipeCall).moveToBackup o fds.pipe.1 >>= fun x ↦
        .ok ((.handleBackup, x.1), x.2) := by
  have hreserved : PipeCall.reserved fds.pipe.1.1 ∨ PipeCall.reserved fds.pipe.1.2 := by
    left
    simp only [PipeCall.reserved]
    omega
  rw [PipeCall.create, ha, hb]
  exact if_pos hreserved

/-- The call is all or nothing exactly if it fails before it has a pipe, 0, 1 and 2 are open, or
the backup is made. -/
theorem create_pipe_iff (fds : Table) (pipeSize messageSize : ℕ) (isFixedMessage : UInt8)
    (o : PipeOutcomes) :
    AllOrNothing fds (osaCreatePipe fds pipeSize messageSize isFixedMessage o) ↔
      o.Settled fds.opened := by
  have hmade := fds.makes_pipe
  by_cases hfail : o.handle = false ∨ o.pipe = false
  · obtain ⟨s, hcreate, hown, hfds⟩ := create_fails fds hfail
    rw [osaCreatePipe, hcreate]
    refine iff_of_true ((allOrNothing_fail_iff hown).mpr (by rw [hfds])) ?_
    exact hfail.imp_right Or.inl
  · simp only [not_or, Bool.not_eq_false] at hfail
    obtain ⟨ha, hb⟩ := hfail
    by_cases hle : 3 ≤ fds.pipe.1.1
    · rw [osaCreatePipe, create_kept ha hb hle]
      refine iff_of_true (allOrNothing_ok hmade.toAdds hle rfl) ?_
      exact Or.inr (Or.inr (Or.inl ((makes_three_le_iff hmade).mp hle)))
    · obtain ⟨hok, hbackup, hcond, r, t, heq, hr, hadds⟩ | ⟨hcond, s, heq, hsub, hown⟩ :=
        PipeCall.moveToBackup_cases (s := ⟨fds.pipe.2, {.handle}, {.handle}⟩) (o := o) hmade
          (by omega)
      · rw [osaCreatePipe, create_moved ha hb (by omega), heq]
        have halloc : (insert .handleBackup {.handle} : Finset PipeBlock).erase .handle =
            {.handleBackup} := by decide
        refine iff_of_true (allOrNothing_ok hadds hr halloc) ?_
        exact Or.inr (Or.inr (Or.inr ⟨hok, hbackup, hcond⟩))
      · rw [osaCreatePipe, create_moved ha hb (by omega), heq]
        refine iff_of_false ?_ ?_
        · rw [PipeCall.error_bind, allOrNothing_fail_iff (hown rfl)]
          intro hopened
          exact hmade.fst_notMem (hopened ▸ hsub hmade.fst_mem)
        · rintro (hno | hno | hno | hno)
          · simp [ha] at hno
          · simp [hb] at hno
          · exact hle ((makes_three_le_iff hmade).mpr hno)
          · exact hcond hno

end

/-- With nothing open, 0 and 1 are given up first and the dummy takes 2 and 3. -/
example : (osaCreatePipe ⟨∅, fun _ ↦ none, 0⟩ 64 4 0 ⟨true, true, true, true, true, true⟩).pPipe =
    some (.handleBackup, ⟨(4, 5), 64, 4, 0, 0, 0⟩) := by decide

/-- Only 2 is free, and there is no memory for the backup: 2 and 3 stay open. -/
theorem create_pipe_leaks : ¬ ∀ fds pipeSize messageSize isFixedMessage o,
    AllOrNothing fds (osaCreatePipe fds pipeSize messageSize isFixedMessage o) := by
  intro h
  rcases h ⟨{0, 1}, fun _ ↦ none, 0⟩ 0 0 0 ⟨true, true, false, false, false, false⟩ with
    ⟨hok, -⟩ | ⟨-, -, -, hopened⟩
  · exact absurd hok (by decide)
  · exact absurd hopened (by decide)

end OsaBase
