import HiImCore.Wire.Segmentation

/-! What popping until `nullopt` makes of any bytes: complete frames that can be encoded
again, and a rest that is incomplete or was thrown away. -/

namespace HiImCore.Wire

open FrameBuffer

def reencode (view : FrameView) : Bytes :=
  encodeFrame (headerFieldHost view.header WireHeader.type)
    (headerFieldHost view.header WireHeader.nid) (headerFieldHost view.header WireHeader.flag)
    view.payload

/-- The bytes before the call that returned `nullopt`, and those after it. -/
inductive Rest : Bytes → Bytes → Prop
  | short {r : Bytes} (missing : r.length < kWireHeaderSize) : Rest r r
  | incomplete {r tail : Bytes} {hdr : WireHeader} (starts : r = hdr.bytes ++ tail)
      (valid : validateChecksum hdr = true)
      (missing : r.length < kWireHeaderSize + (headerFieldHost hdr WireHeader.length).toNat) :
      Rest r r
  | malformed {j : Bytes} (long : kWireHeaderSize ≤ j.length)
      (invalid : validateChecksum (WireHeader.ofBytes j) = false) : Rest j []

section Frames

variable {fb left : FrameBuffer} {view : FrameView} {views : List FrameView}

theorem makeHeader_fields (hdr : WireHeader) (valid : validateChecksum hdr = true) :
    makeHeader (headerFieldHost hdr WireHeader.type) (headerFieldHost hdr WireHeader.nid)
      (headerFieldHost hdr WireHeader.flag) (headerFieldHost hdr WireHeader.length) = hdr := by
  have back : ∀ v : UInt32, hostToBe32 (beToHost32 v) = v := beToHost32_hostToBe32
  have chksum : hostToBe32 kWireChecksum = hdr.chksum := by
    rw [← beq_iff_eq.mp valid, back]
  simp only [makeHeader, headerFieldHost, back, chksum]

theorem reencode_popped (popped : fb.tryPopFrame = (some view, left)) :
    reencode view = view.header.bytes ++ view.payload := by
  obtain ⟨valid, length, _⟩ := tryPopFrame_some popped
  have size : UInt32.ofNat view.payload.length = headerFieldHost view.header WireHeader.length := by
    rw [length, UInt32.ofNat_toNat]
  rw [reencode, encodeFrame_eq, size, makeHeader_fields view.header valid]

theorem Yields.reencoded (pops : Yields fb views left) :
    (∀ view ∈ views, reencode view = view.header.bytes ++ view.payload) ∧
      fb.buf = views.flatMap reencode ++ left.buf := by
  induction pops with
  | nil fb => exact ⟨fun view member => (by cases member), rfl⟩
  | @cons fb mid left view views popped rest ih =>
      have here := reencode_popped popped
      refine ⟨List.forall_mem_cons.mpr ⟨here, ih.1⟩, ?_⟩
      calc
        fb.buf = view.header.bytes ++ view.payload ++ mid.buf := (tryPopFrame_some popped).2.2
        _ = reencode view ++ (views.flatMap reencode ++ left.buf) := by rw [here, ih.2]
        _ = (view :: views).flatMap reencode ++ left.buf := by
          rw [List.flatMap_cons, List.append_assoc]

theorem Yields.length_le (pops : Yields fb views left) :
    kWireHeaderSize * views.length + left.buf.length ≤ fb.buf.length := by
  induction pops with
  | nil fb => simp
  | @cons fb mid left view views popped rest ih =>
      have size := congrArg List.length (tryPopFrame_some popped).2.2
      rw [List.length_append, List.length_append, WireHeader.bytes_length] at size
      rw [List.length_cons, Nat.mul_succ]
      omega

theorem tryPopFrame_rest {j r : Bytes} (stuck : FrameBuffer.tryPopFrame ⟨j⟩ = (none, ⟨r⟩)) :
    Rest j r := by
  unfold FrameBuffer.tryPopFrame at stuck
  split at stuck
  · rename_i missing
    cases stuck
    exact .short missing
  · rename_i enough
    have long : kWireHeaderSize ≤ j.length := Nat.not_lt.mp enough
    cases valid : validateChecksum (WireHeader.ofBytes j) with
    | false =>
        simp only [decodeHeader, if_neg enough, valid, Bool.false_eq_true, if_false] at stuck
        cases stuck
        exact .malformed long valid
    | true =>
        simp only [decodeHeader, if_neg enough, valid, if_true] at stuck
        split at stuck
        · rename_i missing
          cases stuck
          have starts : j = (WireHeader.ofBytes j).bytes ++ j.drop kWireHeaderSize := by
            rw [bytes_ofBytes j long, List.take_append_drop]
          exact .incomplete starts valid missing
        · cases stuck

end Frames

/-- Popping from any bytes ends. The frames, encoded again, give back the bytes they were
popped from, and what follows them is incomplete or starts with a bad header. -/
theorem drain_reaches_normal_form (b : Bytes) :
    ∃ views j r, Yields ⟨b⟩ views ⟨j⟩ ∧ FrameBuffer.tryPopFrame ⟨j⟩ = (none, ⟨r⟩) ∧
      FrameBuffer.drain ⟨b⟩ = (views, ⟨r⟩) ∧ kWireHeaderSize * views.length ≤ b.length ∧
      (∀ view ∈ views, reencode view = view.header.bytes ++ view.payload) ∧
      b = views.flatMap reencode ++ j ∧ Rest j r := by
  obtain ⟨views, pops, nothing⟩ := residue_yields b
  obtain ⟨⟨r⟩, stuck⟩ : ∃ after, FrameBuffer.tryPopFrame ⟨residue b⟩ = (none, after) :=
    ⟨_, Prod.ext nothing rfl⟩
  have drained : FrameBuffer.drain ⟨b⟩ = (views, ⟨r⟩) := by
    rw [pops.drain, drain_eq ⟨residue b⟩, stuck, List.append_nil]
  have size : kWireHeaderSize * views.length ≤ b.length :=
    Nat.le_trans (Nat.le_add_right _ _) pops.length_le
  obtain ⟨frames, whole⟩ := pops.reencoded
  exact ⟨views, residue b, r, pops, stuck, drained, size, frames, whole, tryPopFrame_rest stuck⟩

end HiImCore.Wire
