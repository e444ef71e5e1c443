import HiImCore.Wire.FrameBuffer
import Mathlib.Data.List.TakeWhile

/-! System commands and the authentication payload (`include/hiim/wire/sys_cmd.hpp`,
`include/hiim/wire/auth.hpp`). -/

namespace HiImCore.Wire

open Words

inductive SysCmd where
  | kAuthReq
  | kAuthAck
  | kKpaliveReq
  | kKpaliveAck
  | kSubReq
  | kSubAck
  | kUnsubReq
  | kUnsubAck
  | kQueryConfReq
  | kQueryConfAck
  deriving DecidableEq, Repr

namespace SysCmd

def code : SysCmd → UInt32
  | .kAuthReq => 0x0001
  | .kAuthAck => 0x0002
  | .kKpaliveReq => 0x0003
  | .kKpaliveAck => 0x0004
  | .kSubReq => 0x0005
  | .kSubAck => 0x0006
  | .kUnsubReq => 0x0007
  | .kUnsubAck => 0x0008
  | .kQueryConfReq => 0x1001
  | .kQueryConfAck => 0x1002

def all : List SysCmd :=
  [.kAuthReq, .kAuthAck, .kKpaliveReq, .kKpaliveAck, .kSubReq, .kSubAck, .kUnsubReq,
    .kUnsubAck, .kQueryConfReq, .kQueryConfAck]

/-- `static_cast<SysCmd>` followed by the `switch`: an unnamed value has no case. -/
def ofCode (type : UInt32) : Option SysCmd := all.find? (fun cmd => cmd.code == type)

theorem ofCode_code (cmd : SysCmd) : ofCode cmd.code = some cmd := by
  cases cmd <;> decide

end SysCmd

def kAuthUserLen : Nat := 32
def kAuthPassLen : Nat := 16
def kAuthPayloadSize : Nat := 4 + kAuthUserLen + kAuthPassLen + 4

/-- The packed struct; `gid` and `nid` are held in wire order. -/
structure AuthPayload where
  gid : UInt32
  user : Bytes
  passwd : Bytes
  nid : UInt32
  deriving DecidableEq, Repr

namespace AuthPayload

def bytes (p : AuthPayload) : Bytes := image32 p.gid ++ p.user ++ p.passwd ++ image32 p.nid

def ofBytes (block : Bytes) : AuthPayload where
  gid := word32At block 0
  user := (block.drop 4).take kAuthUserLen
  passwd := (block.drop (4 + kAuthUserLen)).take kAuthPassLen
  nid := word32At block (4 + kAuthUserLen + kAuthPassLen)

end AuthPayload

/-- A fixed `char` field: zeroed, then the first `size` bytes of the string copied in. -/
def charField (size : Nat) (text : Bytes) : Bytes :=
  let zeroed := List.replicate size 0
  if text.isEmpty then zeroed else copyAt zeroed 0 (text.take (min text.length size))

def makeAuthPayload (gid : UInt32) (user passwd : Bytes) (nid : UInt32) : AuthPayload where
  gid := hostToBe32 gid
  user := charField kAuthUserLen user
  passwd := charField kAuthPassLen passwd
  nid := hostToBe32 nid

def decodeAuthPayload (payload : Bytes) : Option AuthPayload :=
  if payload.length < kAuthPayloadSize then none else some (AuthPayload.ofBytes payload)

def encodeAuthFrame (gid : UInt32) (user passwd : Bytes) (nid : UInt32) : Bytes :=
  encodeFrame SysCmd.kAuthReq.code nid kFlagSys (makeAuthPayload gid user passwd nid).bytes

/-- `std::string(field, strnlen(field, size))`. -/
def fieldText (field : Bytes) : Bytes := field.takeWhile (fun byte => byte != 0)

/-- What a fixed field keeps of a string: up to its size, and up to the first NUL. -/
def kept (size : Nat) (text : Bytes) : Bytes := fieldText (text.take size)

/-- The string fits the field with nothing lost. -/
def FitsField (size : Nat) (text : Bytes) : Prop := text.length ≤ size ∧ 0 ∉ text

instance (size : Nat) (text : Bytes) : Decidable (FitsField size text) :=
  inferInstanceAs (Decidable (_ ∧ _))

section Fields

variable (size : Nat) (text : Bytes)

theorem charField_eq :
    charField size text = text.take size ++ List.replicate (size - text.length) 0 := by
  have cut : text.take (min text.length size) = text.take size := by
    rw [List.take_eq_take_iff]
    omega
  have copied : copyAt (List.replicate size (0 : UInt8)) 0 (text.take size) =
      text.take size ++ List.replicate (size - text.length) 0 := by
    have blank := copyAt_append [] (List.replicate size (0 : UInt8)) (text.take size)
    rw [List.nil_append, List.nil_append, List.length_nil, List.drop_replicate,
      List.length_take] at blank
    rw [blank]
    congr 2
    omega
  unfold charField
  cases text with
  | nil => simp
  | cons byte rest =>
      rw [← copied, cut]
      rfl

@[simp] theorem charField_length : (charField size text).length = size := by
  rw [charField_eq, List.length_append, List.length_take, List.length_replicate]
  omega

theorem fieldText_charField : fieldText (charField size text) = kept size text := by
  have zeros : fieldText (List.replicate (size - text.length) 0) = [] := by
    simp [fieldText]
  rw [charField_eq, kept, fieldText, List.takeWhile_append]
  split
  · rename_i whole
    have all : fieldText (text.take size) = text.take size :=
      (List.takeWhile_prefix _).eq_of_length whole
    rw [all]
    exact (congrArg (text.take size ++ ·) zeros).trans (List.append_nil _)
  · rfl

theorem kept_eq_self_iff : kept size text = text ↔ FitsField size text := by
  constructor
  · intro same
    constructor
    · have short := (List.takeWhile_prefix (fun byte => byte != 0) (l := text.take size)).length_le
      rw [← fieldText, ← kept, same, List.length_take] at short
      omega
    · intro member
      rw [← same] at member
      have nonzero := List.mem_takeWhile_imp member
      simp at nonzero
  · rintro ⟨short, free⟩
    rw [kept, List.take_of_length_le short, fieldText, List.takeWhile_eq_self_iff]
    intro byte member
    have other : byte ≠ 0 := fun zero => free (zero ▸ member)
    simpa using other

end Fields

theorem ofBytes_bytes_auth (p : AuthPayload) (user : p.user.length = kAuthUserLen)
    (passwd : p.passwd.length = kAuthPassLen) : AuthPayload.ofBytes p.bytes = p := by
  have gid := word32At_image32 [] (p.user ++ p.passwd ++ image32 p.nid) p.gid
  have nid := word32At_image32 (image32 p.gid ++ p.user ++ p.passwd) [] p.nid
  have front : (image32 p.gid ++ p.user ++ p.passwd).length = 4 + kAuthUserLen + kAuthPassLen := by
    simp only [List.length_append, image32_length, user, passwd]
  have userField : (p.bytes.drop 4).take kAuthUserLen = p.user := by
    rw [AuthPayload.bytes, List.append_assoc, List.append_assoc, List.drop_left' (image32_length _),
      List.take_left' user]
  have passField : (p.bytes.drop (4 + kAuthUserLen)).take kAuthPassLen = p.passwd := by
    have start : (image32 p.gid ++ p.user).length = 4 + kAuthUserLen := by
      simp only [List.length_append, image32_length, user]
    rw [AuthPayload.bytes, List.append_assoc, List.drop_left' start, List.take_left' passwd]
  rw [front, List.append_nil] at nid
  simp only [List.nil_append, List.length_nil, ← List.append_assoc] at gid
  obtain ⟨g, u, w, n⟩ := p
  simp only [AuthPayload.ofBytes, AuthPayload.mk.injEq]
  exact ⟨gid, userField, passField, nid⟩

theorem makeAuthPayload_length (gid : UInt32) (user passwd : Bytes) (nid : UInt32) :
    (makeAuthPayload gid user passwd nid).bytes.length = kAuthPayloadSize := by
  simp only [AuthPayload.bytes, makeAuthPayload, List.length_append, image32_length,
    charField_length, kAuthPayloadSize]

theorem decodeAuthPayload_make (gid : UInt32) (user passwd : Bytes) (nid : UInt32) :
    decodeAuthPayload (makeAuthPayload gid user passwd nid).bytes =
      some (makeAuthPayload gid user passwd nid) := by
  have size := makeAuthPayload_length gid user passwd nid
  rw [decodeAuthPayload, if_neg (by omega), ofBytes_bytes_auth]
  · exact charField_length ..
  · exact charField_length ..

end HiImCore.Wire
