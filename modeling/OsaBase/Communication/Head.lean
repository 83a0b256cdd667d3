import OsaBase.Lib.Bytes
import OsaBase.Lib.Framing
import OsaBase.Osa

/-!
# The two frame headers of `osa_communication.c`

`Com_MsgHead_t` and `Frame_Head_t` travel as their memory images on a little-endian machine with
64-bit `long`. A received header is read field by field out of its bytes.
-/

open Bytes

namespace OsaBase

/-- The bytes `@#$&` that mark both headers. -/
def identifierBytes : List UInt8 := [0x40, 0x23, 0x24, 0x26]

/-! ## `Com_MsgHead_t` -/

structure MsgHead where
  identifier : List UInt8
  loadLen : BitVec 32
  msgCode : BitVec 32
  reserve : BitVec 32
  deriving DecidableEq, Repr

/-- `sizeof(Com_MsgHead_t)` -/
def msgHeadSize : ℕ := 16

def MsgHead.bytes (head : MsgHead) : List UInt8 :=
  head.identifier ++
    (ofWord head.loadLen ++ (ofWord head.msgCode ++ (ofWord head.reserve ++ [])))

def MsgHead.ofBytes (bs : List UInt8) : MsgHead where
  identifier := slice 0 4 bs
  loadLen := toWord (slice 4 4 bs)
  msgCode := toWord (slice 8 4 bs)
  reserve := toWord (slice 12 4 bs)

def clientCheckMsgHead (head : MsgHead) : ℤ :=
  if head.identifier ≠ identifierBytes then -1
  else if head.loadLen.toInt ≤ 0 then -1
  else 0

def netInitMsgHead : MsgHead := ⟨identifierBytes, 0, 0, 0⟩

theorem MsgHead.length_bytes {head : MsgHead} (h : head.identifier.length = 4) :
    head.bytes.length = msgHeadSize := by
  simp [MsgHead.bytes, h, msgHeadSize]

theorem MsgHead.ofBytes_bytes {head : MsgHead} (h : head.identifier.length = 4) :
    MsgHead.ofBytes head.bytes = head := by
  obtain ⟨identifier, loadLen, msgCode, reserve⟩ := head
  simp only at h
  have hid : slice 0 4 (MsgHead.bytes ⟨identifier, loadLen, msgCode, reserve⟩) = identifier := by
    rw [MsgHead.bytes]
    exact @slice_append_of_length _ [] _ _ _ _ rfl h
  have hlen : slice 4 4 (MsgHead.bytes ⟨identifier, loadLen, msgCode, reserve⟩) =
      ofWord loadLen := slice_append_of_length h (length_ofWord _)
  have hcode : slice 8 4 (MsgHead.bytes ⟨identifier, loadLen, msgCode, reserve⟩) =
      ofWord msgCode := by
    rw [MsgHead.bytes, ← List.append_assoc]
    exact slice_append_of_length (by simp [h]) (length_ofWord _)
  have hres : slice 12 4 (MsgHead.bytes ⟨identifier, loadLen, msgCode, reserve⟩) =
      ofWord reserve := by
    rw [MsgHead.bytes, ← List.append_assoc, ← List.append_assoc]
    exact slice_append_of_length (by simp [h]) (length_ofWord _)
  simp only [MsgHead.ofBytes, hid, hlen, hcode, hres, toWord_ofWord]

/-! ## `Frame_Head_t` -/

/-- `sizeof(Frame_Head_t)` -/
def frameHeadSize : ℕ := 88

/-- A `Frame_Head_t` as its memory image. -/
structure FrameHead where
  bytes : List UInt8
  length_bytes : bytes.length = frameHeadSize
  deriving DecidableEq

def FrameHead.checkStart (bs : List UInt8) : List UInt8 := slice 0 4 bs

def FrameHead.nFrameLength (bs : List UInt8) : BitVec 32 := toWord (slice 20 4 bs)

def FrameHead.checkEnd (bs : List UInt8) : List UInt8 := slice 80 4 bs

/-- `nFrameLength` is unsigned, so the comparison with zero refuses zero only. -/
def clientCheckStreamHead (head : List UInt8) : ℤ :=
  if FrameHead.checkStart head ≠ identifierBytes then -1
  else if FrameHead.checkEnd head ≠ identifierBytes then -1
  else if (FrameHead.nFrameLength head).toNat ≤ 0 then -1
  else 0

def netInitStreamHead (head : FrameHead) : FrameHead where
  bytes := store (store head.bytes 0 identifierBytes) 80 identifierBytes
  length_bytes := by
    have h := head.length_bytes
    rw [length_store, length_store, h] <;> simp [length_store, h, identifierBytes, frameHeadSize]

/-- The second header is the first with both marks set. -/
structure FrameHead.Marked (head head' : FrameHead) : Prop where
  checkStart : FrameHead.checkStart head'.bytes = identifierBytes
  checkEnd : FrameHead.checkEnd head'.bytes = identifierBytes
  fields : ∀ off n, (4 ≤ off ∧ off + n ≤ 80) ∨ 84 ≤ off →
    slice off n head'.bytes = slice off n head.bytes

theorem netInitStreamHead_marked (head : FrameHead) : head.Marked (netInitStreamHead head) := by
  have hlen := head.length_bytes
  have hfirst : (store head.bytes 0 identifierBytes).length = frameHeadSize := by
    rw [length_store, hlen]
    rw [hlen]
    decide
  have h80 : 80 ≤ (store head.bytes 0 identifierBytes).length := by
    rw [hfirst]
    decide
  refine ⟨?_, slice_store_self rfl h80, fun off n hoff ↦ ?_⟩
  · exact (slice_store_of_le _ _ (by decide) h80).trans (slice_store_self rfl (Nat.zero_le _))
  · have hid : identifierBytes.length = 4 := rfl
    rcases hoff with ⟨hge, hle⟩ | hge
    · exact (slice_store_of_le _ _ hle h80).trans
        (slice_store_of_ge _ _ (by omega) (Nat.zero_le _))
    · exact (slice_store_of_ge _ _ (by omega) h80).trans
        (slice_store_of_ge _ _ (by omega) (Nat.zero_le _))

theorem FrameHead.Marked.nFrameLength {head head' : FrameHead} (h : head.Marked head') :
    FrameHead.nFrameLength head'.bytes = FrameHead.nFrameLength head.bytes := by
  rw [FrameHead.nFrameLength, h.fields 20 4 (by omega), FrameHead.nFrameLength]

/-- The two marks do not touch the length. -/
theorem nFrameLength_netInitStreamHead (head : FrameHead) :
    FrameHead.nFrameLength (netInitStreamHead head).bytes = FrameHead.nFrameLength head.bytes :=
  (netInitStreamHead_marked head).nFrameLength

/-- A header with its marks passes the check of the client if its length is not zero. -/
theorem FrameHead.Marked.check {head head' : FrameHead} (h : head.Marked head')
    (hpos : 0 < (FrameHead.nFrameLength head.bytes).toNat) :
    clientCheckStreamHead head'.bytes = 0 := by
  have hlen : ¬ (FrameHead.nFrameLength head'.bytes).toNat ≤ 0 := by
    rw [h.nFrameLength]
    omega
  simp only [clientCheckStreamHead, h.checkStart, h.checkEnd, hlen, ne_eq, not_true, if_false]

/-! ## The frames of the two stream types -/

/-- A message: its header and `load_len` bytes. -/
def msgFormat : Framing.Format UInt8 where
  headSize := msgHeadSize
  headSize_pos := by decide
  ok := fun h ↦ clientCheckMsgHead (.ofBytes h) = 0
  bodySize := fun h ↦ (MsgHead.ofBytes h).loadLen.toInt.toNat

/-- A frame of a stream: its header and `nFrameLength` bytes, a length that the receiver reads as
an `int`. -/
def streamFormat : Framing.Format UInt8 where
  headSize := frameHeadSize
  headSize_pos := by decide
  ok := fun h ↦ clientCheckStreamHead h = 0
  bodySize := fun h ↦ (FrameHead.nFrameLength h).toInt.toNat

/-- The header that the send functions put before `nLen` bytes. -/
def sendHead (nLen : ℤ) (code : BitVec 32) : MsgHead :=
  { netInitMsgHead with msgCode := code, loadLen := BitVec.ofInt 32 nLen }

@[simp] theorem length_sendHead_bytes (nLen : ℤ) (code : BitVec 32) :
    (sendHead nLen code).bytes.length = msgHeadSize := MsgHead.length_bytes rfl

@[simp] theorem ofBytes_sendHead (nLen : ℤ) (code : BitVec 32) :
    MsgHead.ofBytes (sendHead nLen code).bytes = sendHead nLen code := MsgHead.ofBytes_bytes rfl

theorem sendHead_loadLen {n : ℕ} (code : BitVec 32) (hlt : n < 2 ^ 31) :
    (sendHead n code).loadLen.toInt = n := by
  simp only [sendHead, BitVec.toInt_ofInt]
  apply Int.bmod_eq_of_le <;> omega

/-- The frame of a message of a length that `int` holds. -/
def msgFrame (message : List UInt8) (code : BitVec 32) (hpos : 0 < message.length)
    (hlt : message.length < 2 ^ 31) : Framing.Frame msgFormat where
  head := (sendHead message.length code).bytes
  body := message
  length_head := length_sendHead_bytes _ _
  ok := by
    have hlen := sendHead_loadLen code hlt
    have hgt : ¬ (sendHead message.length code).loadLen.toInt ≤ 0 := by omega
    have hid : (sendHead message.length code).identifier = identifierBytes := rfl
    simp [msgFormat, clientCheckMsgHead, hid, hgt]
  length_body := by
    have hlen := sendHead_loadLen code hlt
    simp [msgFormat, hlen]

end OsaBase
