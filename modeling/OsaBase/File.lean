import OsaBase.Lib.Bytes
import OsaBase.Lib.Loops
import OsaBase.Osa

/-!
# Reading and writing a file `osa_file.c`

Both functions go through the file in chunks. `OSA_fileReadFile` compares what it has read with what
was asked for only at the end of a chunk, and the chunk is shortened only when it is larger than
the whole request. `OSA_fileWriteFile` counts the bytes down in an `Int32`.
-/

namespace OsaBase

/-! ## `OSA_fileReadFile` -/

/-- The locals of the loop, with what is left of the file and the bytes stored from `addr` on;
`curAddr` is the distance from `addr`. -/
structure FileRead where
  curAddr : ℕ
  fileSize : ℕ
  chunkSize : ℕ
  rest : List UInt8
  mem : ℕ → Option UInt8

/-- Store bytes at a distance from `addr`. -/
def memStore (mem : ℕ → Option UInt8) (off : ℕ) (bytes : List UInt8) (i : ℕ) : Option UInt8 :=
  if off ≤ i ∧ i < off + bytes.length then bytes[i - off]? else mem i

/-- `fread` of a chunk, and the addition to `fileSize`. -/
def FileRead.fread (s : FileRead) (chunkSize : ℕ) : ℕ × FileRead :=
  let bytes := s.rest.take chunkSize
  (bytes.length, { s with
    fileSize := uint32 (s.fileSize + bytes.length)
    chunkSize := chunkSize
    rest := s.rest.drop chunkSize
    mem := memStore s.mem s.curAddr bytes })

def fileReadLoop (userReadSize : ℕ) : ℕ → FileRead → Option FileRead
  | 0, _ => none
  | k + 1, s =>
    if userReadSize ≠ 0 then
      let chunkSize := if s.chunkSize > userReadSize then userReadSize else s.chunkSize
      let (readDataSize, s) := s.fread chunkSize
      if chunkSize ≠ readDataSize then some s
      else if userReadSize = s.fileSize then some s
      else fileReadLoop userReadSize k { s with curAddr := s.curAddr + chunkSize }
    else
      let (readDataSize, s) := s.fread s.chunkSize
      if s.chunkSize ≠ readDataSize then some s
      else fileReadLoop userReadSize k { s with curAddr := s.curAddr + s.chunkSize }

/-- What is returned, what is stored from `addr` on, and `*actualReadSize`. -/
structure FileReadResult where
  retVal : ℤ
  mem : ℕ → Option UInt8
  actualReadSize : ℕ

/-- `OSA_fileReadFile`; `file` is `none` when it cannot be opened. Each turn of the loop that is
not the last one reads something, so there are at most as many as bytes. -/
def osaFileReadFile (file : Option (List UInt8)) (readSize : ℕ) : Option FileReadResult :=
  match file with
  | none => some ⟨osaEfail, fun _ ↦ none, 0⟩
  | some bytes =>
      (fileReadLoop readSize (bytes.length + 1) ⟨0, 0, 6221760, bytes, fun _ ↦ none⟩).map
        fun s ↦ ⟨osaSok, s.mem, s.fileSize⟩

/-- The first `pos` bytes of the file are read. -/
structure FileRead.At (s : FileRead) (bytes : List UInt8) (pos : ℕ) : Prop where
  le : pos ≤ bytes.length
  fileSize : s.fileSize = uint32 pos
  rest : s.rest = bytes.drop pos
  mem : s.mem = fun i ↦ (bytes.take pos)[i]?

section

variable {bytes : List UInt8} {s : FileRead} {pos readSize k : ℕ}

theorem memStore_take {n : ℕ} :
    memStore (fun i ↦ (bytes.take pos)[i]?) pos ((bytes.drop pos).take n) =
      fun i ↦ (bytes.take (pos + n))[i]? := by
  funext i
  rw [memStore, List.length_take, List.length_drop]
  split
  · next hin =>
    rw [List.getElem?_take_of_lt (by omega), List.getElem?_take_of_lt (by omega),
      List.getElem?_drop]
    congr 1
    omega
  · next hout =>
    by_cases hlt : i < pos
    · rw [List.getElem?_take_of_lt hlt, List.getElem?_take_of_lt (by omega)]
    · have hge : (bytes.take (pos + n)).length ≤ i := by
        rw [List.length_take]
        omega
      rw [List.getElem?_eq_none hge, List.getElem?_eq_none]
      rw [List.length_take]
      omega

/-- One `fread` at the end of what is read. -/
theorem FileRead.At.fread (h : s.At bytes pos) (haddr : s.curAddr = pos) (chunkSize : ℕ) :
    (s.fread chunkSize).1 = min chunkSize (bytes.length - pos) ∧
      (s.fread chunkSize).2.At bytes (pos + min chunkSize (bytes.length - pos)) := by
  have hle := h.le
  have hlen : (s.rest.take chunkSize).length = min chunkSize (bytes.length - pos) := by
    rw [h.rest, List.length_take, List.length_drop]
  refine ⟨hlen, by omega, ?_, ?_, ?_⟩
  · simp only [FileRead.fread, hlen, h.fileSize, uint32]
    omega
  · simp only [FileRead.fread, h.rest, List.drop_drop]
    by_cases hmin : chunkSize ≤ bytes.length - pos
    · rw [min_eq_left hmin]
    · rw [min_eq_right (by omega), List.drop_eq_nil_of_le (by omega),
        List.drop_eq_nil_of_le (by omega)]
  · simp only [FileRead.fread, h.rest, h.mem, haddr, memStore_take]
    funext i
    by_cases hmin : chunkSize ≤ bytes.length - pos
    · rw [min_eq_left hmin]
    · rw [min_eq_right (by omega), List.take_of_length_le (by omega),
        List.take_of_length_le (by omega)]

/-- The loop ends with the file read, or at the end of a chunk; where the chunks add up to the
request, or the file is no longer than it, with what was asked for. -/
theorem fileReadLoop_spec {chunk : ℕ} (h : s.At bytes pos) (haddr : s.curAddr = pos)
    (hchunk : min s.chunkSize readSize = chunk) (hpos : 0 < chunk) (hdvd : chunk ∣ pos)
    (hfuel : bytes.length - pos < k) :
    ∃ s' q, fileReadLoop readSize k s = some s' ∧ s'.At bytes q ∧
      (q = bytes.length ∨ chunk ∣ q) ∧
      (pos < readSize → readSize < 2 ^ 32 → chunk ∣ readSize ∨ bytes.length ≤ readSize →
        q = min readSize bytes.length) := by
  induction k generalizing s pos with
  | zero => omega
  | succ k ih =>
      have hle := h.le
      have huser : readSize ≠ 0 := by
        rintro rfl
        omega
      have hif : (if s.chunkSize > readSize then readSize else s.chunkSize) = chunk := by
        rw [← hchunk]
        split <;> omega
      -- the request leaves room for another chunk, unless the file ends before
      have hroom : pos < readSize → chunk ∣ readSize ∨ bytes.length ≤ readSize →
          pos + min chunk (bytes.length - pos) ≤ readSize := by
        rintro hlt (hdiv | hshort)
        · have := Nat.le_of_dvd (by omega) (Nat.dvd_sub hdiv hdvd)
          omega
        · omega
      obtain ⟨hread, hat⟩ := h.fread haddr chunk
      simp only [fileReadLoop, huser, ne_eq, not_false_eq_true, if_true, hif, hread]
      by_cases hfull : chunk = min chunk (bytes.length - pos)
      · rw [← hfull] at hat hroom
        simp only [← hfull, not_true, if_false]
        by_cases hdone : readSize = (s.fread chunk).2.fileSize
        · rw [if_pos hdone]
          refine ⟨_, _, rfl, hat, Or.inr (Nat.dvd_add hdvd dvd_rfl), fun hlt hsize hgood ↦ ?_⟩
          have hle' := hroom hlt hgood
          rw [hat.fileSize, uint32_of_lt (by omega)] at hdone
          omega
        · rw [if_neg hdone]
          have hat' : FileRead.At { (s.fread chunk).2 with curAddr := s.curAddr + chunk } bytes
              (pos + chunk) := ⟨hat.le, hat.fileSize, hat.rest, hat.mem⟩
          obtain ⟨s', q, hloop, hs', hq, hexact⟩ := ih hat' (by rw [haddr])
            (by simp only [FileRead.fread]; omega) (Nat.dvd_add hdvd dvd_rfl) (by omega)
          refine ⟨s', q, hloop, hs', hq, fun hlt hsize hgood ↦ hexact ?_ hsize hgood⟩
          have hle' := hroom hlt hgood
          rw [hat.fileSize, uint32_of_lt (by omega)] at hdone
          omega
      · rw [if_pos hfull]
        have hend : pos + min chunk (bytes.length - pos) = bytes.length := by omega
        rw [hend] at hat hroom
        exact ⟨_, _, rfl, hat, Or.inl rfl, fun hlt hsize hgood ↦ by
          have := hroom hlt hgood
          omega⟩

end

/-- The call stores the first bytes of the file, as many as there are and were asked for, and
nothing behind them. -/
def ReadsFile (bytes : List UInt8) (readSize : ℕ) : Prop :=
  osaFileReadFile (some bytes) readSize =
    some ⟨osaSok, fun i ↦ (bytes.take readSize)[i]?, min readSize bytes.length⟩

section

variable {bytes : List UInt8} {readSize : ℕ}

theorem osaFileReadFile_spec (bytes : List UInt8) (hpos : 0 < readSize) :
    ∃ q ≤ bytes.length, osaFileReadFile (some bytes) readSize =
        some ⟨osaSok, fun i ↦ (bytes.take q)[i]?, uint32 q⟩ ∧
      (q = bytes.length ∨ min 6221760 readSize ∣ q) ∧
      (readSize < 2 ^ 32 → min 6221760 readSize ∣ readSize ∨ bytes.length ≤ readSize →
        q = min readSize bytes.length) := by
  have hstart : FileRead.At ⟨0, 0, 6221760, bytes, fun _ ↦ none⟩ bytes 0 :=
    ⟨Nat.zero_le _, rfl, rfl, by simp⟩
  obtain ⟨s, q, hloop, hs, hq, hexact⟩ := fileReadLoop_spec (k := bytes.length + 1) hstart rfl rfl
    (by omega : 0 < min 6221760 readSize) (dvd_zero _) (by omega)
  refine ⟨q, hs.le, ?_, hq, hexact hpos⟩
  rw [osaFileReadFile, hloop, Option.map_some, hs.mem, hs.fileSize]

theorem readsFile_of (hpos : 0 < readSize) (hsize : readSize < 2 ^ 32)
    (h : readSize ≤ 6221760 ∨ 6221760 ∣ readSize ∨ bytes.length ≤ readSize) :
    ReadsFile bytes readSize := by
  have hgood : min 6221760 readSize ∣ readSize ∨ bytes.length ≤ readSize := by
    rcases h with hle | hdvd | hshort
    · left
      rw [min_eq_right hle]
    · left
      rwa [min_eq_left (Nat.le_of_dvd hpos hdvd)]
    · exact Or.inr hshort
  obtain ⟨q, -, hcall, -, hexact⟩ := osaFileReadFile_spec bytes hpos
  obtain rfl := hexact hsize hgood
  rw [ReadsFile, hcall, uint32_of_lt (by omega)]
  congr 3
  funext i
  by_cases hle : readSize ≤ bytes.length
  · rw [min_eq_left hle]
  · rw [min_eq_right (by omega), List.take_length, List.take_of_length_le (by omega)]

/-- Otherwise the last chunk goes beyond the request. -/
theorem not_readsFile (hlarge : 6221760 < readSize) (hdvd : ¬ 6221760 ∣ readSize)
    (hlong : readSize < bytes.length) : ¬ ReadsFile bytes readSize := by
  intro h
  obtain ⟨q, hle, hcall, hq, -⟩ := osaFileReadFile_spec bytes (by omega : 0 < readSize)
  rw [min_eq_left hlarge.le] at hq
  rw [ReadsFile, hcall] at h
  simp only [Option.some.injEq, FileReadResult.mk.injEq, true_and] at h
  have htake : bytes.take q = bytes.take readSize := List.ext_getElem? (congrFun h.1)
  have hlen := congrArg List.length htake
  rw [List.length_take, List.length_take] at hlen
  rcases hq with hq | hq
  · omega
  · obtain rfl : q = readSize := by omega
    exact hdvd hq

/-- The read stays within the request exactly if the request is no larger than a chunk or a
multiple of it, or the file is no longer than the request. -/
theorem file_read_iff (hpos : readSize ≠ 0) (hsize : readSize < 2 ^ 32) (bytes : List UInt8) :
    ReadsFile bytes readSize ↔
      readSize ≤ 6221760 ∨ 6221760 ∣ readSize ∨ bytes.length ≤ readSize := by
  constructor
  · intro h
    by_contra hnot
    simp only [not_or, not_le] at hnot
    exact not_readsFile hnot.1 hnot.2.1 hnot.2.2 h
  · exact readsFile_of (Nat.pos_of_ne_zero hpos) hsize

end

/-- Two bytes of a file of three. -/
theorem file_read_two : ReadsFile [1, 2, 3] 2 :=
  (file_read_iff (by decide) (by decide) [1, 2, 3]).mpr (Or.inl (by decide))

/-- One byte more than a chunk is asked for, and the file has two more. -/
theorem file_read_overrun : ¬ ∀ bytes readSize, readSize ≠ 0 → readSize < 2 ^ 32 →
    ReadsFile bytes readSize := by
  intro h
  have hlong : 6221761 < (List.replicate 6221762 (0 : UInt8)).length := by
    rw [List.length_replicate]
    decide
  exact not_readsFile (by decide) (by decide) hlong (h _ 6221761 (by decide) (by decide))

/-! ## `OSA_fileWriteFile` -/

/-- The locals of the loop, and what has been appended to the file; `curAddr` is the distance from
`addr`. -/
structure FileWrite where
  fileSize : ℤ
  chunkSize : ℤ
  curAddr : ℕ
  file : List UInt8
  deriving DecidableEq, Repr

/-- The loop of `OSA_fileWriteFile`; an answer says how many bytes `fwrite` takes of the chunk. -/
def fileWriteLoop (addr : List UInt8) : Loop FileWrite ℕ (ℤ × FileWrite) where
  finish := fun s ↦ if s.fileSize > 0 then none else some (osaSok, s)
  turn := fun s answer ↦
    let chunkSize := if s.fileSize < s.chunkSize then s.fileSize else s.chunkSize
    let writeDataSize := min answer chunkSize.toNat
    let s := { s with
      chunkSize := chunkSize
      file := s.file ++ Bytes.slice s.curAddr writeDataSize addr }
    if (writeDataSize : ℤ) ≠ chunkSize then .inr (osaEfail, s)
    else .inl { s with curAddr := s.curAddr + chunkSize.toNat, fileSize := s.fileSize - chunkSize }

/-- `OSA_fileWriteFile`: its status and what it appended; `opened` says whether the file can be
opened. -/
def osaFileWriteFile (opened : Bool) (addr : List UInt8) (size : ℕ) (answers : List ℕ) :
    Option (ℤ × List UInt8) :=
  if size = 0 then some (osaSok, [])
  else if opened then
    ((fileWriteLoop addr).run ⟨int32 size, 96 * 1024, 0, []⟩ answers).map
      fun x ↦ (x.1, x.2.file)
  else some (osaEfail, [])

/-- The bytes up to `curAddr` are appended, and `fileSize` counts the others. -/
structure FileWrite.At (s : FileWrite) (addr : List UInt8) : Prop where
  le : s.curAddr ≤ addr.length
  file : s.file = addr.take s.curAddr
  fileSize : s.fileSize = addr.length - s.curAddr
  chunkSize : 0 < s.chunkSize

section

variable {addr : List UInt8} {s s' : FileWrite} {answer : ℕ} {st : ℤ} {answers : List ℕ}

/-- A turn writes a chunk, or fails with some of it written. -/
theorem FileWrite.At.turn (h : s.At addr) (answer : ℕ) (hmore : 0 < s.fileSize) :
    (∃ s', (fileWriteLoop addr).turn s answer = .inl s' ∧ s'.At addr ∧ s'.fileSize < s.fileSize) ∨
      ∃ s', (fileWriteLoop addr).turn s answer = .inr (osaEfail, s') ∧
        ∃ k < addr.length, s'.file = addr.take k := by
  obtain ⟨hle, hfile, hsize, hchunk⟩ := h
  obtain ⟨chunk, hc⟩ : ∃ chunk : ℕ, (chunk : ℤ) =
      if s.fileSize < s.chunkSize then s.fileSize else s.chunkSize :=
    Int.eq_ofNat_of_zero_le (by split <;> omega) |>.imp fun _ h ↦ h.symm
  have hbound : 0 < chunk ∧ chunk ≤ addr.length - s.curAddr := by
    split at hc <;> omega
  have happend : ∀ n, s.file ++ Bytes.slice s.curAddr n addr = addr.take (s.curAddr + n) := by
    intro n
    rw [hfile, Bytes.slice, List.take_add]
  simp only [fileWriteLoop, ← hc, Int.toNat_natCast, happend]
  by_cases hfull : ((min answer chunk : ℕ) : ℤ) = chunk
  · left
    rw [if_neg (not_not.mpr hfull)]
    refine ⟨_, rfl, ⟨?_, ?_, ?_, ?_⟩, ?_⟩
    · simp only
      omega
    · simp only
      rw [Int.ofNat.inj hfull]
    · simp only
      omega
    · simp only
      omega
    · simp only
      omega
  · right
    rw [if_pos hfull]
    exact ⟨_, rfl, s.curAddr + min answer chunk, by omega, rfl⟩

theorem fileWrite_returns (h : s.At addr) (f : Stream' ℕ) :
    ∃ n st t, (fileWriteLoop addr).Returns s (f.take n) (st, t) ∧
      ((st = osaSok ∧ t.file = addr) ∨
        (st = osaEfail ∧ ∃ k < addr.length, t.file = addr.take k)) := by
  generalize hm : s.fileSize.toNat = m
  induction m using Nat.strong_induction_on generalizing s f with
  | _ m ih =>
    by_cases hmore : 0 < s.fileSize
    · have hfinish : (fileWriteLoop addr).finish s = none := if_pos hmore
      obtain ⟨s', hturn, hs', hlt⟩ | ⟨s', hturn, hshort⟩ := h.turn f.head hmore
      · obtain ⟨n, st, t, hrest, hend⟩ := ih s'.fileSize.toNat (by omega) hs' f.tail rfl
        exact ⟨n + 1, st, t, .turn hfinish hturn hrest, hend⟩
      · exact ⟨1, osaEfail, s', .stop hfinish hturn, Or.inr ⟨rfl, hshort⟩⟩
    · refine ⟨0, osaSok, s, .finish (if_neg hmore), Or.inl ⟨rfl, ?_⟩⟩
      have hle := h.le
      have hsize := h.fileSize
      rw [h.file, List.take_of_length_le (by omega)]

/-- The call comes to an end; it reports success when everything is appended, and failure when a
part is. -/
def WritesFile (opened : Bool) (addr : List UInt8) (f : Stream' ℕ) : Prop :=
  ∃ n st file, osaFileWriteFile opened addr addr.length (f.take n) = some (st, file) ∧
    (st = osaSok → file = addr) ∧ (st ≠ osaSok → st = osaEfail ∧ file <+: addr)

theorem writesFile_of_not_opened (addr : List UInt8) (f : Stream' ℕ) :
    WritesFile false addr f := by
  by_cases hzero : addr.length = 0
  · obtain rfl := List.length_eq_zero_iff.mp hzero
    exact ⟨0, osaSok, [], rfl, fun _ ↦ rfl, fun h ↦ (h rfl).elim⟩
  · refine ⟨0, osaEfail, [], ?_, fun h ↦ (osaEfail_ne_osaSok h).elim,
      fun _ ↦ ⟨rfl, List.nil_prefix⟩⟩
    rw [osaFileWriteFile, if_neg hzero]
    rfl

theorem writesFile_of_lt (hlt : addr.length < 2 ^ 31) (opened : Bool) (f : Stream' ℕ) :
    WritesFile opened addr f := by
  by_cases hzero : addr.length = 0
  · obtain rfl := List.length_eq_zero_iff.mp hzero
    exact ⟨0, osaSok, [], rfl, fun _ ↦ rfl, fun h ↦ (h rfl).elim⟩
  · cases opened with
    | false => exact writesFile_of_not_opened addr f
    | true =>
        have hint : int32 addr.length = addr.length := int32_of_range (by omega) (by omega)
        have hstart : FileWrite.At ⟨int32 addr.length, 96 * 1024, 0, []⟩ addr :=
          ⟨Nat.zero_le _, rfl, by simp only [hint, Nat.cast_zero, sub_zero],
            show (0 : ℤ) < 96 * 1024 by decide⟩
        obtain ⟨n, st, t, h, hend⟩ := fileWrite_returns hstart f
        refine ⟨n, st, t.file, ?_, fun hok ↦ ?_, fun hfail ↦ ?_⟩
        · rw [osaFileWriteFile, if_neg hzero, if_pos rfl, h.run, Option.map_some]
        · rcases hend with ⟨-, hall⟩ | ⟨rfl, -⟩
          · exact hall
          · exact (osaEfail_ne_osaSok hok).elim
        · rcases hend with ⟨rfl, -⟩ | ⟨rfl, m, -, hpart⟩
          · exact (hfail rfl).elim
          · exact ⟨rfl, hpart ▸ List.take_prefix m addr⟩

theorem fileWriteLoop_run_of_le (addr : List UInt8) (h : s.fileSize ≤ 0) (answers : List ℕ) :
    (fileWriteLoop addr).run s answers = some (osaSok, s) := by
  have hfinish : (fileWriteLoop addr).finish s = some (osaSok, s) := if_neg (not_lt.mpr h)
  exact (Loop.Returns.finish hfinish).run_append answers

/-- From 2^31 on the count is negative, nothing is written and success is reported. -/
theorem osaFileWriteFile_large (hlt : ¬ addr.length < 2 ^ 31) (hsize : addr.length < 2 ^ 32)
    (answers : List ℕ) : osaFileWriteFile true addr addr.length answers = some (osaSok, []) := by
  have hneg : int32 addr.length ≤ 0 := by
    rw [int32]
    omega
  have hrun := fileWriteLoop_run_of_le addr
    (s := ⟨int32 addr.length, 96 * 1024, 0, []⟩) hneg answers
  rw [osaFileWriteFile, if_neg (by omega), if_pos rfl, hrun, Option.map_some]

theorem not_writesFile (hlt : ¬ addr.length < 2 ^ 31) (hsize : addr.length < 2 ^ 32)
    (f : Stream' ℕ) : ¬ WritesFile true addr f := by
  rintro ⟨n, st, file, hcall, hok, -⟩
  rw [osaFileWriteFile_large hlt hsize] at hcall
  cases hcall
  rw [← hok rfl] at hlt
  exact hlt (by decide)

/-- A write reports what it has done exactly if its size fits an `Int32` or the file cannot be
opened. -/
theorem file_write_iff (hsize : addr.length < 2 ^ 32) (opened : Bool) (f : Stream' ℕ) :
    WritesFile opened addr f ↔ addr.length < 2 ^ 31 ∨ opened = false := by
  constructor
  · intro h
    by_contra hnot
    simp only [not_or, Bool.not_eq_false] at hnot
    obtain ⟨hlt, rfl⟩ := hnot
    exact not_writesFile hlt hsize f h
  · rintro (hlt | rfl)
    · exact writesFile_of_lt hlt opened f
    · exact writesFile_of_not_opened addr f

end

/-- The second of three bytes is not taken. -/
theorem file_write_short : WritesFile true [1, 2, 3] fun _ ↦ 1 :=
  (file_write_iff (by decide) true _).mpr (Or.inl (by decide))

theorem file_write_nothing : ¬ ∀ opened addr f,
    addr.length < 2 ^ 32 → WritesFile opened addr f := by
  intro h
  have hlen : (List.replicate (2 ^ 31) (0 : UInt8)).length = 2 ^ 31 := List.length_replicate
  exact not_writesFile (by rw [hlen]; decide) (by rw [hlen]; decide) _
    (h true _ (fun n ↦ n) (by rw [hlen]; decide))

end OsaBase
