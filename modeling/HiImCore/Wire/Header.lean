import HiImCore.Lib.Words

/-! The bus wire header (`include/hiim/wire/header.hpp`) on a little-endian host. -/

namespace HiImCore.Wire

open Words

abbrev Bytes := List UInt8

def kWireChecksum : UInt32 := 0x1FE23DC4
def kFlagSys : UInt32 := 0
def kFlagExp : UInt32 := 1
def kWireHeaderSize : Nat := 20

/-- The packed struct. Each field holds the word as it lies in memory, so a
field in wire order is the byte-swapped host value. -/
structure WireHeader where
  type : UInt32
  nid : UInt32
  flag : UInt32
  length : UInt32
  chksum : UInt32
  deriving DecidableEq, Repr

def hostToBe32 (v : UInt32) : UInt32 := UInt32.ofNat (swap 4 v.toNat)

def beToHost32 (v : UInt32) : UInt32 := hostToBe32 v

def headerFieldHost (h : WireHeader) (field : WireHeader → UInt32) : UInt32 :=
  beToHost32 (field h)

def validateChecksum (h : WireHeader) : Bool := beToHost32 h.chksum == kWireChecksum

def makeHeader (type nid flag payloadLen : UInt32) : WireHeader where
  type := hostToBe32 type
  nid := hostToBe32 nid
  flag := hostToBe32 flag
  length := hostToBe32 payloadLen
  chksum := hostToBe32 kWireChecksum

def image32 (v : UInt32) : Bytes := image 4 v.toNat

def word32At (block : Bytes) (offset : Nat) : UInt32 :=
  UInt32.ofNat (word ((block.drop offset).take 4))

/-- The twenty bytes of the packed struct. -/
def WireHeader.bytes (h : WireHeader) : Bytes :=
  image32 h.type ++ image32 h.nid ++ image32 h.flag ++ image32 h.length ++ image32 h.chksum

/-- `memcpy` of twenty bytes into the packed struct. -/
def WireHeader.ofBytes (block : Bytes) : WireHeader where
  type := word32At block 0
  nid := word32At block 4
  flag := word32At block 8
  length := word32At block 12
  chksum := word32At block 16

def encodeHeader (src : WireHeader) (out : Bytes) : Bytes :=
  if out.length < kWireHeaderSize then out else copyAt out 0 src.bytes

def decodeHeader (input : Bytes) : Option WireHeader :=
  if input.length < kWireHeaderSize then none
  else
    let out := WireHeader.ofBytes input
    if validateChecksum out then some out else none

def encodeFrame (type nid flag : UInt32) (payload : Bytes) : Bytes :=
  let hdr := makeHeader type nid flag (UInt32.ofNat payload.length)
  let frame := List.replicate (kWireHeaderSize + payload.length) 0
  let frame := encodeHeader hdr frame
  if payload.isEmpty then frame else copyAt frame kWireHeaderSize payload

@[simp] theorem image32_length (v : UInt32) : (image32 v).length = 4 := image_length 4 _

@[simp] theorem WireHeader.bytes_length (h : WireHeader) : h.bytes.length = kWireHeaderSize := by
  simp [WireHeader.bytes, kWireHeaderSize]

@[simp] theorem beToHost32_hostToBe32 (v : UInt32) : beToHost32 (hostToBe32 v) = v := by
  have fits : v.toNat < 256 ^ 4 := v.toNat_lt
  have small : swap 4 v.toNat < 2 ^ 32 := swap_lt 4 _
  apply UInt32.toNat_inj.mp
  rw [beToHost32, hostToBe32, hostToBe32, UInt32.toNat_ofNat_of_lt' small,
    swap_swap 4 _ fits, UInt32.ofNat_toNat]

theorem word32At_image32 (front back : Bytes) (v : UInt32) :
    word32At (front ++ (image32 v ++ back)) front.length = v := by
  rw [word32At, image32, word_image_at front back 4 v.toNat v.toNat_lt, UInt32.ofNat_toNat]

section Words32

variable {block : Bytes} (offset : Nat) (long : offset + 4 ≤ block.length)
include long

theorem bytes32_length : ((block.drop offset).take 4).length = 4 := by
  simp only [List.length_take, List.length_drop]
  omega

theorem word32At_toNat : (word32At block offset).toNat = word ((block.drop offset).take 4) := by
  have bound := word_lt ((block.drop offset).take 4)
  rw [bytes32_length offset long] at bound
  exact UInt32.toNat_ofNat_of_lt' bound

theorem image32_word32At : image32 (word32At block offset) = (block.drop offset).take 4 := by
  have back := image_word ((block.drop offset).take 4)
  rw [bytes32_length offset long] at back
  rw [image32, word32At_toNat offset long, back]

theorem beToHost32_word32At :
    beToHost32 (word32At block offset) =
      UInt32.ofNat (bigEndian ((block.drop offset).take 4)) := by
  have swapped := swap_word ((block.drop offset).take 4)
  rw [bytes32_length offset long] at swapped
  rw [beToHost32, hostToBe32, word32At_toNat offset long, swapped]

end Words32

theorem ofBytes_bytes_append (h : WireHeader) (rest : Bytes) :
    WireHeader.ofBytes (h.bytes ++ rest) = h := by
  have type := word32At_image32 []
    (image32 h.nid ++ image32 h.flag ++ image32 h.length ++ image32 h.chksum ++ rest) h.type
  have nid := word32At_image32 (image32 h.type)
    (image32 h.flag ++ image32 h.length ++ image32 h.chksum ++ rest) h.nid
  have flag := word32At_image32 (image32 h.type ++ image32 h.nid)
    (image32 h.length ++ image32 h.chksum ++ rest) h.flag
  have length := word32At_image32 (image32 h.type ++ image32 h.nid ++ image32 h.flag)
    (image32 h.chksum ++ rest) h.length
  have chksum := word32At_image32
    (image32 h.type ++ image32 h.nid ++ image32 h.flag ++ image32 h.length) rest h.chksum
  simp only [List.length_append, image32_length, List.append_assoc, List.nil_append,
    List.length_nil, Nat.reduceAdd] at type nid flag length chksum
  cases h
  simp only [WireHeader.ofBytes, WireHeader.bytes, List.append_assoc, type, nid, flag,
    length, chksum]

theorem bytes_ofBytes (block : Bytes) (long : kWireHeaderSize ≤ block.length) :
    (WireHeader.ofBytes block).bytes = block.take kWireHeaderSize := by
  have split : ∀ k, block.take (k + 4) = block.take k ++ (block.drop k).take 4 := by
    intro k
    exact List.take_add
  simp only [kWireHeaderSize] at long ⊢
  simp only [WireHeader.bytes, WireHeader.ofBytes]
  rw [image32_word32At 0 (by omega), image32_word32At 4 (by omega), image32_word32At 8 (by omega),
    image32_word32At 12 (by omega), image32_word32At 16 (by omega)]
  rw [split 16, split 12, split 8, split 4, List.drop_zero]

theorem makeHeader_valid (type nid flag payloadLen : UInt32) :
    validateChecksum (makeHeader type nid flag payloadLen) = true := by
  simp [validateChecksum, makeHeader]

theorem encodeHeader_replicate (hdr : WireHeader) (n : Nat) :
    encodeHeader hdr (List.replicate (kWireHeaderSize + n) 0) =
      hdr.bytes ++ List.replicate n 0 := by
  have long : ¬ (List.replicate (kWireHeaderSize + n) (0 : UInt8)).length < kWireHeaderSize := by
    rw [List.length_replicate]
    omega
  have tail : kWireHeaderSize + n - (0 + kWireHeaderSize) = n := by omega
  rw [encodeHeader, if_neg long, copyAt, WireHeader.bytes_length, List.drop_replicate, tail,
    List.take_zero, List.nil_append]

theorem encodeFrame_eq (type nid flag : UInt32) (payload : Bytes) :
    encodeFrame type nid flag payload =
      (makeHeader type nid flag (UInt32.ofNat payload.length)).bytes ++ payload := by
  rw [encodeFrame, encodeHeader_replicate]
  generalize makeHeader type nid flag (UInt32.ofNat payload.length) = hdr
  cases payload with
  | nil => simp only [List.isEmpty_nil, if_true, List.length_nil, List.replicate_zero]
  | cons byte rest =>
      have front : kWireHeaderSize = hdr.bytes.length := (WireHeader.bytes_length hdr).symm
      simp only [List.isEmpty_cons, Bool.false_eq_true, if_false, copyAt]
      rw [front, List.take_left, List.drop_eq_nil_of_le (by simp), List.append_nil]

theorem encodeFrame_length (type nid flag : UInt32) (payload : Bytes) :
    (encodeFrame type nid flag payload).length = kWireHeaderSize + payload.length := by
  rw [encodeFrame_eq, List.length_append, WireHeader.bytes_length]

theorem encodeFrame_ne_nil (type nid flag : UInt32) (payload : Bytes) :
    encodeFrame type nid flag payload ≠ [] := by
  intro empty
  have size := encodeFrame_length type nid flag payload
  rw [empty, List.length_nil, kWireHeaderSize] at size
  omega

theorem decodeHeader_bytes_append (h : WireHeader) (rest : Bytes)
    (valid : validateChecksum h = true) : decodeHeader (h.bytes ++ rest) = some h := by
  have long : ¬ (h.bytes ++ rest).length < kWireHeaderSize := by
    rw [List.length_append, WireHeader.bytes_length]
    omega
  simp only [decodeHeader, if_neg long, ofBytes_bytes_append, valid, if_true]

end HiImCore.Wire
