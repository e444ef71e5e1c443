import HiImCore.Wire.Header

/-! The IM message header inside a business payload (`include/hiim/im/header.hpp`). -/

namespace HiImCore.Im

open Words Wire

def kHeaderSize : Nat := 52
def kOffsetCmd : Nat := 0
def kOffsetLength : Nat := 4
def kOffsetSid : Nat := 8
def kOffsetCid : Nat := 16
def kOffsetNid : Nat := 24
def kOffsetSeq : Nat := 28

def hostToBe64 (v : UInt64) : UInt64 := UInt64.ofNat (swap 8 v.toNat)

def beToHost64 (v : UInt64) : UInt64 := hostToBe64 v

def image64 (v : UInt64) : Bytes := image 8 v.toNat

def word64At (block : Bytes) (offset : Nat) : UInt64 :=
  UInt64.ofNat (word ((block.drop offset).take 8))

def writeHeader (buf : Bytes) (cmd length : UInt32) (sid : UInt64) (destNid : UInt32)
    (seq : UInt64) : Bytes :=
  if buf.length < kHeaderSize then buf
  else
    let buf := copyAt buf kOffsetCmd (image32 (hostToBe32 cmd))
    let buf := copyAt buf kOffsetLength (image32 (hostToBe32 length))
    let buf := copyAt buf kOffsetSid (image64 (hostToBe64 sid))
    let buf := copyAt buf kOffsetCid (List.replicate 8 0)
    let buf := copyAt buf kOffsetNid (image32 (hostToBe32 destNid))
    let buf := copyAt buf kOffsetSeq (image64 (hostToBe64 seq))
    copyAt buf (kOffsetSeq + 8) (List.replicate 16 0)

def packPayload (cmd : UInt32) (sid : UInt64) (destNid : UInt32) (seq : UInt64)
    (body : Bytes) : Bytes :=
  let out := List.replicate (kHeaderSize + body.length) 0
  let out := writeHeader out cmd (UInt32.ofNat body.length) sid destNid seq
  if body.isEmpty then out else copyAt out kHeaderSize body

def readDestNid (payload : Bytes) : UInt32 :=
  if payload.length < kHeaderSize then 0 else beToHost32 (word32At payload kOffsetNid)

def readSeq (payload : Bytes) : UInt64 :=
  if payload.length < kHeaderSize then 0 else beToHost64 (word64At payload kOffsetSeq)

theorem readDestNid_nil : readDestNid [] = 0 := rfl

@[simp] theorem image64_length (v : UInt64) : (image64 v).length = 8 := image_length 8 _

theorem beToHost64_hostToBe64 (v : UInt64) : beToHost64 (hostToBe64 v) = v := by
  have fits : v.toNat < 256 ^ 8 := v.toNat_lt
  have small : swap 8 v.toNat < 2 ^ 64 := swap_lt 8 _
  apply UInt64.toNat_inj.mp
  rw [beToHost64, hostToBe64, hostToBe64, UInt64.toNat_ofNat_of_lt' small,
    swap_swap 8 _ fits, UInt64.ofNat_toNat]

theorem word64At_image64 (front back : Bytes) (v : UInt64) :
    word64At (front ++ (image64 v ++ back)) front.length = v := by
  rw [word64At, image64, word_image_at front back 8 v.toNat v.toNat_lt, UInt64.ofNat_toNat]

def headerFront (cmd length : UInt32) (sid : UInt64) : Bytes :=
  image32 (hostToBe32 cmd) ++ image32 (hostToBe32 length) ++ image64 (hostToBe64 sid) ++
    List.replicate 8 0

def headerImage (cmd length : UInt32) (sid : UInt64) (destNid : UInt32) (seq : UInt64) : Bytes :=
  headerFront cmd length sid ++ image32 (hostToBe32 destNid) ++ image64 (hostToBe64 seq) ++
    List.replicate 16 0

section Layout

variable (cmd length : UInt32) (sid : UInt64) (destNid : UInt32) (seq : UInt64) (body : Bytes)

theorem headerFront_length : (headerFront cmd length sid).length = kOffsetNid := by
  simp only [headerFront, List.length_append, image32_length, image64_length,
    List.length_replicate, kOffsetNid]

theorem headerImage_length :
    (headerImage cmd length sid destNid seq).length = kHeaderSize := by
  simp only [headerImage, List.length_append, headerFront_length, image32_length, image64_length,
    List.length_replicate, kOffsetNid, kHeaderSize]

theorem writeHeader_eq (buf : Bytes) (long : kHeaderSize ≤ buf.length) :
    writeHeader buf cmd length sid destNid seq =
      headerImage cmd length sid destNid seq ++ buf.drop kHeaderSize := by
  have next : ∀ (offset n : Nat) (front source : Bytes), front.length = offset →
      source.length = n → ∀ rest : Bytes,
      copyAt (front ++ rest) offset source = front ++ source ++ rest.drop n := by
    rintro _ _ front source rfl rfl rest
    rw [copyAt_append, List.append_assoc]
  rw [writeHeader, if_neg (Nat.not_lt.mpr long)]
  dsimp only
  rw [← List.nil_append buf, next kOffsetCmd 4 [] _ rfl (by simp),
    next kOffsetLength 4 _ _ (by simp [kOffsetLength]) (by simp),
    next kOffsetSid 8 _ _ (by simp [kOffsetSid]) (by simp),
    next kOffsetCid 8 _ _ (by simp [kOffsetCid]) (by simp),
    next kOffsetNid 4 _ _ (by simp [kOffsetNid]) (by simp),
    next kOffsetSeq 8 _ _ (by simp [kOffsetSeq]) (by simp),
    next (kOffsetSeq + 8) 16 _ _ (by simp [kOffsetSeq]) (by simp)]
  simp [headerImage, headerFront, kHeaderSize]

theorem packPayload_eq :
    packPayload cmd sid destNid seq body =
      headerImage cmd (UInt32.ofNat body.length) sid destNid seq ++ body := by
  have long : kHeaderSize ≤ (List.replicate (kHeaderSize + body.length) (0 : UInt8)).length := by
    rw [List.length_replicate]
    omega
  rw [packPayload, writeHeader_eq _ _ _ _ _ _ long, List.drop_replicate, Nat.add_sub_cancel_left]
  have size := headerImage_length cmd (UInt32.ofNat body.length) sid destNid seq
  cases body with
  | nil => simp
  | cons byte rest =>
      rw [← size, copyAt_append]
      simp

theorem packPayload_length :
    (packPayload cmd sid destNid seq body).length = kHeaderSize + body.length := by
  rw [packPayload_eq, List.length_append, headerImage_length]

theorem packPayload_reads :
    readDestNid (packPayload cmd sid destNid seq body) = destNid ∧
      readSeq (packPayload cmd sid destNid seq body) = seq ∧
      (packPayload cmd sid destNid seq body).drop kHeaderSize = body := by
  have long : ¬ (packPayload cmd sid destNid seq body).length < kHeaderSize := by
    rw [packPayload_length]
    omega
  rw [readDestNid, readSeq, if_neg long, if_neg long, packPayload_eq]
  generalize UInt32.ofNat body.length = length
  have front := headerFront_length cmd length sid
  refine ⟨?_, ?_, ?_⟩
  · have layout : headerImage cmd length sid destNid seq ++ body =
        headerFront cmd length sid ++ (image32 (hostToBe32 destNid) ++
          (image64 (hostToBe64 seq) ++ List.replicate 16 0 ++ body)) := by
      simp only [headerImage, List.append_assoc]
    rw [layout, ← front, word32At_image32, beToHost32_hostToBe32]
  · have layout : headerImage cmd length sid destNid seq ++ body =
        (headerFront cmd length sid ++ image32 (hostToBe32 destNid)) ++
          (image64 (hostToBe64 seq) ++ (List.replicate 16 0 ++ body)) := by
      simp only [headerImage, List.append_assoc]
    have offset : kOffsetSeq = (headerFront cmd length sid ++ image32 (hostToBe32 destNid)).length := by
      rw [List.length_append, front, image32_length, kOffsetNid, kOffsetSeq]
    rw [layout, offset, word64At_image64, beToHost64_hostToBe64]
  · rw [← headerImage_length cmd length sid destNid seq, List.drop_left]

end Layout

theorem readDestNid_eq (payload : Bytes) (long : kHeaderSize ≤ payload.length) :
    readDestNid payload = UInt32.ofNat (bigEndian ((payload.drop kOffsetNid).take 4)) := by
  rw [readDestNid, if_neg (Nat.not_lt.mpr long), beToHost32_word32At]
  rw [kOffsetNid]
  rw [kHeaderSize] at long
  omega

end HiImCore.Im
