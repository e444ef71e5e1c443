import HiImCore.Wire.Header

/-! The reassembly buffer of one connection (`src/wire/frame_buffer.hpp`). -/

namespace HiImCore.Wire

structure FrameView where
  header : WireHeader
  payload : Bytes
  deriving DecidableEq, Repr

structure FrameBuffer where
  buf : Bytes
  deriving DecidableEq, Repr

namespace FrameBuffer

def empty : FrameBuffer := ⟨[]⟩

def append (fb : FrameBuffer) (data : Bytes) : FrameBuffer := ⟨fb.buf ++ data⟩

def clear (_ : FrameBuffer) : FrameBuffer := ⟨[]⟩

/-- The optional result of `TryPopFrame` and the buffer it leaves. `frameLen` is
a 64-bit `size_t`, so the sum does not wrap. -/
def tryPopFrame (fb : FrameBuffer) : Option FrameView × FrameBuffer :=
  if fb.buf.length < kWireHeaderSize then (none, fb)
  else
    match decodeHeader fb.buf with
    -- one bad header costs all that is in the buffer
    | none => (none, fb.clear)
    | some hdr =>
        let payloadLen := (headerFieldHost hdr WireHeader.length).toNat
        let frameLen := kWireHeaderSize + payloadLen
        if fb.buf.length < frameLen then (none, fb)
        else
          (some ⟨hdr, (fb.buf.drop kWireHeaderSize).take payloadLen⟩, ⟨fb.buf.drop frameLen⟩)

/-- `TryPopFrame` repeated until it returns `nullopt`, at most `fuel` times. -/
def drainWithin : Nat → FrameBuffer → List FrameView × FrameBuffer
  | 0, fb => ([], fb)
  | fuel + 1, fb =>
      match fb.tryPopFrame with
      | (none, left) => ([], left)
      | (some view, left) =>
          let rest := drainWithin fuel left
          (view :: rest.1, rest.2)

/-- `TryPopFrame` repeated until it returns `nullopt`. Every frame takes bytes out
of the buffer, so its size bounds the number of calls. -/
def drain (fb : FrameBuffer) : List FrameView × FrameBuffer :=
  drainWithin (fb.buf.length + 1) fb

@[simp] theorem append_buf (fb : FrameBuffer) (data : Bytes) :
    (fb.append data).buf = fb.buf ++ data := rfl

theorem tryPopFrame_some {fb left : FrameBuffer} {view : FrameView}
    (popped : fb.tryPopFrame = (some view, left)) :
    validateChecksum view.header = true ∧
      view.payload.length = (headerFieldHost view.header WireHeader.length).toNat ∧
      fb.buf = view.header.bytes ++ view.payload ++ left.buf := by
  unfold tryPopFrame at popped
  split at popped
  · simp at popped
  · rename_i long
    split at popped
    · simp at popped
    · rename_i hdr decoded
      dsimp only at popped
      split at popped
      · simp at popped
      · rename_i complete
        simp only [Prod.mk.injEq, Option.some.injEq] at popped
        obtain ⟨rfl, rfl⟩ := popped
        have header : WireHeader.ofBytes fb.buf = hdr ∧ validateChecksum hdr = true := by
          simp only [decodeHeader, if_neg long] at decoded
          split at decoded
          · rename_i valid
            simp only [Option.some.injEq] at decoded
            exact ⟨decoded, decoded ▸ valid⟩
          · simp at decoded
        have front := bytes_ofBytes fb.buf (Nat.le_of_not_lt long)
        rw [header.1] at front
        refine ⟨header.2, ?_, ?_⟩
        · simp only [List.length_take, List.length_drop]
          omega
        · rw [front, ← List.drop_drop, List.append_assoc, List.take_append_drop,
            List.take_append_drop]

theorem tryPopFrame_shrinks {fb left : FrameBuffer} {view : FrameView}
    (popped : fb.tryPopFrame = (some view, left)) : left.buf.length < fb.buf.length := by
  have whole := (tryPopFrame_some popped).2.2
  rw [whole, List.length_append, List.length_append, WireHeader.bytes_length, kWireHeaderSize]
  omega

theorem tryPopFrame_none {fb left : FrameBuffer}
    (stuck : fb.tryPopFrame = (none, left)) : left = fb ∨ left = empty := by
  unfold tryPopFrame at stuck
  split at stuck
  · simp only [Prod.mk.injEq, true_and] at stuck
    exact Or.inl stuck.symm
  · split at stuck
    · simp only [Prod.mk.injEq, true_and] at stuck
      exact Or.inr stuck.symm
    · dsimp only at stuck
      split at stuck
      · simp only [Prod.mk.injEq, true_and] at stuck
        exact Or.inl stuck.symm
      · simp at stuck

theorem tryPopFrame_empty : empty.tryPopFrame = (none, empty) := rfl

theorem tryPopFrame_none_again {fb left : FrameBuffer}
    (stuck : fb.tryPopFrame = (none, left)) : left.tryPopFrame = (none, left) := by
  rcases tryPopFrame_none stuck with rfl | rfl
  · exact stuck
  · exact tryPopFrame_empty

theorem drainWithin_stable (fuel more : Nat) (fb : FrameBuffer)
    (enough : fb.buf.length < fuel) (plenty : fb.buf.length < more) :
    drainWithin fuel fb = drainWithin more fb := by
  induction fuel generalizing more fb with
  | zero => omega
  | succ fuel ih =>
      cases more with
      | zero => omega
      | succ more =>
          simp only [drainWithin]
          split
          · rfl
          · rename_i view left popped
            have shrinks := tryPopFrame_shrinks popped
            rw [ih more left (by omega) (by omega)]

theorem drain_eq (fb : FrameBuffer) :
    fb.drain = match fb.tryPopFrame with
      | (none, left) => ([], left)
      | (some view, left) => (view :: left.drain.1, left.drain.2) := by
  rw [drain, drainWithin]
  split
  · rfl
  · rename_i view left popped
    have shrinks := tryPopFrame_shrinks popped
    rw [drain, drainWithin_stable fb.buf.length (left.buf.length + 1) left shrinks (by omega)]

end FrameBuffer

end HiImCore.Wire
