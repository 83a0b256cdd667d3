import OsaBase.Lib.Runs
import OsaBase.Pipe

/-!
# The counters of a pipe

A pipe counts its messages and its bytes itself, and asks these counters before it reads. A read
takes one message off the counters, and as many bytes as it asked for, whatever it got: the counters
are right as long as every read asks for no more than there is and takes the last byte exactly when
it takes the last message.
-/

open Transition

namespace OsaBase

/-- The record of a pipe, and the bytes in the pipe. -/
structure PipeState where
  pipe : OsaPipe
  bytes : List UInt8
  deriving DecidableEq, Repr

/-- `write` on a pipe: what it returns, and the bytes that are then in the pipe. -/
def pipeWrite (bytes pMessage : List UInt8) : ℕ × List UInt8 :=
  (pMessage.length, bytes ++ pMessage)

/-- `read` on a pipe: what it gives and what it leaves; it blocks on an empty pipe. -/
def pipeRead (bytes : List UInt8) (size : ℕ) : Option (List UInt8 × List UInt8) :=
  if bytes = [] then none else some (bytes.take size, bytes.drop size)

/-- `OSA_WriteToPipe` -/
def osaWriteToPipe (s : PipeState) (pMessage : List UInt8) : PipeState × ℤ :=
  let size := pMessage.length
  if size = 0 then (s, osaEfail)
  else
    let (lSizeWritten, bytes) := pipeWrite s.bytes pMessage
    if lSizeWritten ≠ size then ({ s with bytes := bytes }, osaEfail)
    else
      let pipe := { s.pipe with
        messageCount := int32 (s.pipe.messageCount + 1)
        totalBytesInPipe := int32 (s.pipe.totalBytesInPipe + size) }
      (⟨pipe, bytes⟩, osaSok)

/-- `OSA_ReadFromPipe`: the status and, where `read` was called, what it gave; `none` if it
blocks. -/
def osaReadFromPipe (s : PipeState) (size : ℕ) :
    Option (PipeState × ℤ × Option (List UInt8)) :=
  if size = 0 ∨ s.pipe.messageCount = 0 then some (s, osaEfail, none)
  else
    (pipeRead s.bytes size).map fun (pMessage, bytes) ↦
      let lSizeRead := pMessage.length
      if 0 = lSizeRead then ({ s with bytes := bytes }, osaEfail, some pMessage)
      else
        let pipe := { s.pipe with
          messageCount := int32 (s.pipe.messageCount - 1)
          totalBytesInPipe := int32 (s.pipe.totalBytesInPipe - size) }
        (⟨pipe, bytes⟩, osaSok, some pMessage)

inductive PipeOp
  | write (pMessage : List UInt8)
  | read (size : ℕ)
  deriving DecidableEq, Repr

namespace PipeState

def step (s : PipeState) : PipeOp → Option PipeState
  | .write pMessage => some (osaWriteToPipe s pMessage).1
  | .read size => (osaReadFromPipe s size).map Prod.fst

/-- The counters tell what is in the pipe. -/
structure Counts (s : PipeState) : Prop where
  totalBytes : s.pipe.totalBytesInPipe = s.bytes.length
  messages : s.pipe.messageCount = 0 ↔ s.bytes = []

/-- The counters tell what is in the pipe, so that a read is refused only when nothing is left, and
never blocks. -/
structure Accounted (s : PipeState) : Prop extends Counts s where
  refuses : ∀ size s' got, size ≠ 0 → osaReadFromPipe s size = some (s', osaEfail, got) →
    s.bytes = []
  answers : ∀ size, (osaReadFromPipe s size).isSome

/-- The call keeps the counters right: a write does not overflow them, and a read that is let
through asks for no more than there is (or for a multiple of 2^32 more), and takes the last byte
exactly if it takes the last message. -/
def Keeps (s : PipeState) : PipeOp → Prop
  | .write pMessage => pMessage = [] ∨
      s.bytes.length + pMessage.length < 2 ^ 31 ∧ s.pipe.messageCount ≠ -1
  | .read size => size = 0 ∨ s.pipe.messageCount = 0 ∨
      2 ^ 32 ∣ size - s.bytes.length ∧ (s.bytes.length ≤ size ↔ s.pipe.messageCount = 1)

instance (s : PipeState) (op : PipeOp) : Decidable (s.Keeps op) :=
  match op with
  | .write _ => inferInstanceAs (Decidable (_ ∨ _))
  | .read _ => inferInstanceAs (Decidable (_ ∨ _))

/-- The counters are values of an `int`. -/
structure InRange (s : PipeState) : Prop where
  messages_ge : -2 ^ 31 ≤ s.pipe.messageCount
  messages_lt : s.pipe.messageCount < 2 ^ 31
  totalBytes_lt : s.pipe.totalBytesInPipe < 2 ^ 31

variable {s s' : PipeState} {size : ℕ} {pMessage : List UInt8} {op : PipeOp}

/-! ## What a call does -/

/-- The pipe after a message is written. -/
def wrote (s : PipeState) (pMessage : List UInt8) : PipeState :=
  ⟨{ s.pipe with
    messageCount := int32 (s.pipe.messageCount + 1)
    totalBytesInPipe := int32 (s.pipe.totalBytesInPipe + pMessage.length) },
    s.bytes ++ pMessage⟩

/-- The pipe after a read that was let through and found bytes. -/
def took (s : PipeState) (size : ℕ) : PipeState :=
  ⟨{ s.pipe with
    messageCount := int32 (s.pipe.messageCount - 1)
    totalBytesInPipe := int32 (s.pipe.totalBytesInPipe - size) },
    s.bytes.drop size⟩

theorem osaReadFromPipe_refused (h : size = 0 ∨ s.pipe.messageCount = 0) :
    osaReadFromPipe s size = some (s, osaEfail, none) := if_pos h

theorem osaReadFromPipe_took (hsize : size ≠ 0) (hcount : s.pipe.messageCount ≠ 0)
    (hne : s.bytes ≠ []) :
    osaReadFromPipe s size = some (s.took size, osaSok, some (s.bytes.take size)) := by
  have hlen : 0 ≠ (s.bytes.take size).length := by
    have hpos := List.length_pos_of_ne_nil hne
    rw [List.length_take]
    omega
  rw [osaReadFromPipe, if_neg (not_or.mpr ⟨hsize, hcount⟩), pipeRead, if_neg hne, Option.map_some]
  exact congrArg some (if_neg hlen)

/-- Every call that returns, with the guards under which it does what it does. -/
inductive Called (s : PipeState) : PipeOp → PipeState → Prop
  | nothing : Called s (.write []) s
  | wrote {pMessage : List UInt8} (hne : pMessage ≠ []) :
      Called s (.write pMessage) (s.wrote pMessage)
  | refused {size : ℕ} (h : size = 0 ∨ s.pipe.messageCount = 0) : Called s (.read size) s
  | took {size : ℕ} (hsize : size ≠ 0) (hcount : s.pipe.messageCount ≠ 0) (hne : s.bytes ≠ []) :
      Called s (.read size) (s.took size)

theorem called_of_step (h : s.step op = some s') : s.Called op s' := by
  cases op with
  | write pMessage =>
      obtain rfl := Option.some.inj h
      by_cases hne : pMessage = []
      · rw [hne]
        exact .nothing
      · have hwrote : (osaWriteToPipe s pMessage).1 = s.wrote pMessage := by
          rw [osaWriteToPipe, if_neg (mt List.length_eq_zero_iff.mp hne)]
          exact congrArg Prod.fst (if_neg (not_not.mpr rfl))
        rw [hwrote]
        exact .wrote hne
  | read size =>
      obtain ⟨x, hread, rfl⟩ := Option.map_eq_some_iff.mp h
      by_cases hrefuse : size = 0 ∨ s.pipe.messageCount = 0
      · rw [osaReadFromPipe_refused hrefuse] at hread
        cases hread
        exact .refused hrefuse
      · obtain ⟨hsize, hcount⟩ := not_or.mp hrefuse
        by_cases hne : s.bytes = []
        · rw [osaReadFromPipe, if_neg hrefuse, pipeRead, if_pos hne] at hread
          cases hread
        · rw [osaReadFromPipe_took hsize hcount hne] at hread
          cases hread
          exact .took hsize hcount hne

/-! ## The counters in a run -/

/-- With the counters right, a read that is let through finds bytes. -/
theorem Counts.accounted (h : s.Counts) : s.Accounted := by
  refine ⟨h, ?_, ?_⟩
  · intro size s' got hsize hread
    by_contra hne
    rw [osaReadFromPipe_took hsize (mt h.messages.mp hne) hne] at hread
    have hst := congrArg (fun x ↦ x.2.1) (Option.some.inj hread)
    exact osaEfail_ne_osaSok hst.symm
  · intro size
    by_cases hrefuse : size = 0 ∨ s.pipe.messageCount = 0
    · rw [osaReadFromPipe_refused hrefuse]
      rfl
    · obtain ⟨hsize, hcount⟩ := not_or.mp hrefuse
      rw [osaReadFromPipe_took hsize hcount (mt h.messages.mpr hcount)]
      rfl

theorem InRange.called (h : s.InRange) (hcall : s.Called op s') : s'.InRange := by
  cases hcall with
  | nothing | refused => exact h
  | wrote | took => exact ⟨(int32_range _).1, (int32_range _).2, (int32_range _).2⟩

theorem Counts.wrote_iff (h : s.Counts) (hrange : s.InRange) (hne : pMessage ≠ []) :
    (s.wrote pMessage).Counts ↔
      s.bytes.length + pMessage.length < 2 ^ 31 ∧ s.pipe.messageCount ≠ -1 := by
  obtain ⟨hge, hlt, -⟩ := hrange
  have hbytes : s.bytes ++ pMessage ≠ [] := List.append_ne_nil_of_right_ne_nil _ hne
  have htotal : int32 (s.pipe.totalBytesInPipe + pMessage.length) =
      ((s.bytes ++ pMessage).length : ℤ) ↔ s.bytes.length + pMessage.length < 2 ^ 31 := by
    rw [h.totalBytes, List.length_append, int32]
    omega
  have hmessages : int32 (s.pipe.messageCount + 1) = 0 ↔ s.pipe.messageCount = -1 := by
    rw [int32]
    omega
  constructor
  · intro hcounts
    refine ⟨htotal.mp hcounts.totalBytes, fun heq ↦ hbytes ?_⟩
    exact hcounts.messages.mp (hmessages.mpr heq)
  · rintro ⟨hfits, hcount⟩
    exact ⟨htotal.mpr hfits, iff_of_false (mt hmessages.mp hcount) hbytes⟩

theorem Counts.took_iff (h : s.Counts) (hrange : s.InRange) :
    (s.took size).Counts ↔
      2 ^ 32 ∣ size - s.bytes.length ∧ (s.bytes.length ≤ size ↔ s.pipe.messageCount = 1) := by
  obtain ⟨hge, hlt, htotal⟩ := hrange
  rw [h.totalBytes] at htotal
  have hbytes : int32 (s.pipe.totalBytesInPipe - size) = ((s.bytes.drop size).length : ℤ) ↔
      2 ^ 32 ∣ size - s.bytes.length := by
    rw [h.totalBytes, List.length_drop, int32]
    omega
  have hmessages : int32 (s.pipe.messageCount - 1) = 0 ↔ s.pipe.messageCount = 1 := by
    rw [int32]
    omega
  have hempty : s.bytes.drop size = [] ↔ s.bytes.length ≤ size := List.drop_eq_nil_iff
  constructor
  · intro hcounts
    refine ⟨hbytes.mp hcounts.totalBytes, ?_⟩
    rw [← hempty, ← hmessages]
    exact hcounts.messages.symm
  · rintro ⟨hfits, hlast⟩
    refine ⟨hbytes.mpr hfits, ?_⟩
    rw [← hempty, ← hmessages] at hlast
    exact hlast.symm

/-- The counters are right after a call exactly if it keeps them so. -/
theorem Counts.called_iff (h : s.Counts) (hrange : s.InRange) (hcall : s.Called op s') :
    s'.Counts ↔ s.Keeps op := by
  cases hcall with
  | nothing => exact iff_of_true h (Or.inl rfl)
  | wrote hne => exact (h.wrote_iff hrange hne).trans (by simp only [Keeps, hne, false_or])
  | refused hrefuse => exact iff_of_true h (hrefuse.imp_right Or.inl)
  | took hsize hcount hne =>
      exact (h.took_iff hrange).trans (by simp only [Keeps, hsize, hcount, false_or])

end PipeState

open PipeState

section

variable {fds : Descriptor.Table} {pipeSize messageSize : ℕ} {isFixedMessage : UInt8}
  {o : PipeOutcomes} {block : PipeBlock} {pipe : OsaPipe}

theorem created_counts
    (h : (osaCreatePipe fds pipeSize messageSize isFixedMessage o).pPipe = some (block, pipe)) :
    pipe.messageCount = 0 ∧ pipe.totalBytesInPipe = 0 := by
  rw [osaCreatePipe] at h
  split at h
  · cases h
    exact ⟨rfl, rfl⟩
  · cases h

/-- In every run from a created pipe in which each call keeps the counters they tell what is in the
pipe; a call that does not keep them leaves them wrong. -/
theorem pipe_counts_iff
    (h : (osaCreatePipe fds pipeSize messageSize isFixedMessage o).pPipe = some (block, pipe)) :
    (∀ s, Reach step Keeps ⟨pipe, []⟩ s → s.Accounted) ∧
    ∀ s op s', Reach step Keeps ⟨pipe, []⟩ s → step s op = some s' → ¬ s.Keeps op →
      ¬ s'.Accounted := by
  obtain ⟨hmessages, htotal⟩ := created_counts h
  have hstart : Counts ⟨pipe, []⟩ ∧ InRange ⟨pipe, []⟩ := by
    refine ⟨⟨htotal, iff_of_true hmessages rfl⟩, ?_, ?_, ?_⟩
    all_goals simp [hmessages, htotal]
  have hinv : ∀ s, Reach step Keeps ⟨pipe, []⟩ s → s.Counts ∧ s.InRange := by
    intro s hs
    apply hs.invariant (I := fun s ↦ s.Counts ∧ s.InRange) hstart
    intro a op b ⟨hcounts, hrange⟩ hkeeps hstep
    have hcall := called_of_step hstep
    exact ⟨(hcounts.called_iff hrange hcall).mpr hkeeps, hrange.called hcall⟩
  constructor
  · exact fun s hs ↦ (hinv s hs).1.accounted
  · intro s op s' hs hstep hbad haccounted
    obtain ⟨hcounts, hrange⟩ := hinv s hs
    exact hbad ((hcounts.called_iff hrange (called_of_step hstep)).mp haccounted.toCounts)

end

/-- The pipe of a process that has its standard descriptors. -/
theorem created_first :
    (osaCreatePipe ⟨{0, 1, 2}, fun _ ↦ none, 0⟩ 64 4 0 ⟨true, true, true, true, true, true⟩).pPipe =
      some (.handle, ⟨(3, 4), 64, 4, 0, 0, 0⟩) := by decide

theorem pipe_counts_first :
    (∀ s, Reach step Keeps ⟨⟨(3, 4), 64, 4, 0, 0, 0⟩, []⟩ s → s.Accounted) ∧
    ∀ s op s', Reach step Keeps ⟨⟨(3, 4), 64, 4, 0, 0, 0⟩, []⟩ s → step s op = some s' →
      ¬ s.Keeps op → ¬ s'.Accounted :=
  pipe_counts_iff created_first

/-- Two bytes of a message of four are read: the rest is refused. -/
theorem pipe_rest_refused : ¬ ∀ fds pipeSize messageSize isFixedMessage o block pipe,
    (osaCreatePipe fds pipeSize messageSize isFixedMessage o).pPipe = some (block, pipe) →
    ∀ s, Reach step Always ⟨pipe, []⟩ s → s.Accounted := by
  intro h
  obtain ⟨s, hs, hp⟩ := Reach.exists_of_exec step Always
    ⟨⟨(3, 4), 64, 4, 0, 0, 0⟩, []⟩ [.write [1, 2, 3, 4], .read 2]
    (fun s ↦ decide (s.pipe.messageCount = 0 ∧ s.bytes = [3, 4])) (by decide)
  obtain ⟨hcount, hbytes⟩ := of_decide_eq_true hp
  have haccounted := h _ _ _ _ _ _ _ created_first s hs
  rw [haccounted.messages.mp hcount] at hbytes
  cases hbytes

end OsaBase
