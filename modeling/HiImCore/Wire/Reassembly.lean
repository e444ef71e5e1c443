import HiImCore.Wire.FrameBuffer

/-! What a `FrameBuffer` yields when the bytes of encoded frames arrive in chunks. -/

namespace HiImCore.Wire

/-- The arguments of one `EncodeFrame` call whose payload size fits the length field. -/
structure Frame where
  type : UInt32
  nid : UInt32
  flag : UInt32
  payload : Bytes
  fits : payload.length < 2 ^ 32

namespace Frame

def encode (f : Frame) : Bytes := encodeFrame f.type f.nid f.flag f.payload

def header (f : Frame) : WireHeader :=
  makeHeader f.type f.nid f.flag (UInt32.ofNat f.payload.length)

def view (f : Frame) : FrameView := ⟨f.header, f.payload⟩

/-- The popped frame shows the encoded fields, the payload's size and its bytes. -/
def ShownBy (f : Frame) (v : FrameView) : Prop :=
  headerFieldHost v.header WireHeader.type = f.type ∧
  headerFieldHost v.header WireHeader.nid = f.nid ∧
  headerFieldHost v.header WireHeader.flag = f.flag ∧
  (headerFieldHost v.header WireHeader.length).toNat = f.payload.length ∧
  v.payload = f.payload

theorem encode_eq (f : Frame) : f.encode = f.header.bytes ++ f.payload :=
  encodeFrame_eq f.type f.nid f.flag f.payload

theorem encode_length (f : Frame) : f.encode.length = kWireHeaderSize + f.payload.length :=
  encodeFrame_length f.type f.nid f.flag f.payload

theorem header_length (f : Frame) :
    (headerFieldHost f.header WireHeader.length).toNat = f.payload.length := by
  simp only [headerFieldHost, header, makeHeader, beToHost32_hostToBe32]
  exact UInt32.toNat_ofNat_of_lt' f.fits

theorem view_shows (f : Frame) : f.ShownBy f.view := by
  refine ⟨?_, ?_, ?_, f.header_length, rfl⟩ <;>
    simp [view, header, headerFieldHost, makeHeader]

theorem decodeHeader_encode (f : Frame) (rest : Bytes) :
    decodeHeader (f.header.bytes ++ rest) = some f.header :=
  decodeHeader_bytes_append f.header rest (makeHeader_valid _ _ _ _)

end Frame

def stream (frames : List Frame) : Bytes := frames.flatMap Frame.encode

/-- A proper prefix of one encoded frame. -/
def Unfinished (t : Bytes) : Prop := ∃ f : Frame, t <+: f.encode ∧ t ≠ f.encode

theorem nothing_unfinished : Unfinished [] :=
  ⟨⟨0, 0, 0, [], by decide⟩, List.nil_prefix, by decide⟩

inductive Call where
  | append (data : Bytes)
  | tryPopFrame
  deriving DecidableEq, Repr

def fed : List Call → Bytes
  | [] => []
  | .append data :: calls => data ++ fed calls
  | .tryPopFrame :: calls => fed calls

/-- The frames that a sequence of calls pops, and the buffer it leaves. -/
def serve : FrameBuffer → List Call → List FrameView × FrameBuffer
  | fb, [] => ([], fb)
  | fb, .append data :: calls => serve (fb.append data) calls
  | fb, .tryPopFrame :: calls =>
      match fb.tryPopFrame with
      | (none, left) => serve left calls
      | (some view, left) =>
          let rest := serve left calls
          (view :: rest.1, rest.2)

theorem fed_append (first second : List Call) : fed (first ++ second) = fed first ++ fed second := by
  induction first with
  | nil => rfl
  | cons call calls ih => cases call <;> simp [fed, ih]

theorem serve_append (fb : FrameBuffer) (first second : List Call) :
    serve fb (first ++ second) = ((serve fb first).1 ++ (serve (serve fb first).2 second).1,
      (serve (serve fb first).2 second).2) := by
  induction first generalizing fb with
  | nil => rfl
  | cons call calls ih =>
      cases call with
      | append data => exact ih (fb.append data)
      | tryPopFrame =>
          rw [List.cons_append, serve, serve]
          rcases fb.tryPopFrame with ⟨_ | view, left⟩
          · exact ih left
          · simp only [ih left, List.cons_append]

theorem tryPopFrame_encodeFrame (type nid flag : UInt32) (payload rest : Bytes) :
    FrameBuffer.tryPopFrame ⟨encodeFrame type nid flag payload ++ rest⟩ =
      (some ⟨makeHeader type nid flag (UInt32.ofNat payload.length),
          payload.take (payload.length % 2 ^ 32)⟩,
        ⟨payload.drop (payload.length % 2 ^ 32) ++ rest⟩) := by
  have whole := encodeFrame_eq type nid flag payload
  have size : (headerFieldHost (makeHeader type nid flag (UInt32.ofNat payload.length))
      WireHeader.length).toNat = payload.length % 2 ^ 32 := by
    simp only [headerFieldHost, makeHeader, beToHost32_hostToBe32]
    exact UInt32.toNat_ofNat'
  have valid := makeHeader_valid type nid flag (UInt32.ofNat payload.length)
  generalize makeHeader type nid flag (UInt32.ofNat payload.length) = hdr at *
  have cut : payload.length % 2 ^ 32 ≤ payload.length := Nat.mod_le _ _
  generalize payload.length % 2 ^ 32 = n at *
  have buffer : encodeFrame type nid flag payload ++ rest = hdr.bytes ++ (payload ++ rest) := by
    rw [whole, List.append_assoc]
  have length : (hdr.bytes ++ (payload ++ rest)).length =
      kWireHeaderSize + (payload.length + rest.length) := by
    rw [List.length_append, List.length_append, WireHeader.bytes_length]
  have enough : ¬ (hdr.bytes ++ (payload ++ rest)).length < kWireHeaderSize := by omega
  have long : ¬ (hdr.bytes ++ (payload ++ rest)).length < kWireHeaderSize + n := by omega
  have after : (hdr.bytes ++ (payload ++ rest)).drop kWireHeaderSize = payload ++ rest :=
    List.drop_left' (WireHeader.bytes_length hdr)
  simp only [buffer, FrameBuffer.tryPopFrame, if_neg enough,
    decodeHeader_bytes_append hdr (payload ++ rest) valid, size, if_neg long, ← List.drop_drop, after,
    List.take_append_of_le_length cut, List.drop_append_of_le_length cut]

theorem tryPopFrame_encode (f : Frame) (rest : Bytes) :
    FrameBuffer.tryPopFrame ⟨f.encode ++ rest⟩ = (some f.view, ⟨rest⟩) := by
  rw [Frame.encode, tryPopFrame_encodeFrame, Nat.mod_eq_of_lt f.fits, List.take_length,
    List.drop_length, List.nil_append]
  rfl

theorem tryPopFrame_unfinished (t : Bytes) (cut : Unfinished t) :
    FrameBuffer.tryPopFrame ⟨t⟩ = (none, ⟨t⟩) := by
  obtain ⟨f, ⟨missing, whole⟩, proper⟩ := cut
  have short : t.length < kWireHeaderSize + f.payload.length := by
    have size := congrArg List.length whole
    rw [List.length_append, f.encode_length] at size
    have nonempty : missing ≠ [] := by
      intro nothing
      exact proper (by rw [← whole, nothing, List.append_nil])
    have positive := List.length_pos_of_ne_nil nonempty
    omega
  by_cases header : t.length < kWireHeaderSize
  · simp only [FrameBuffer.tryPopFrame, if_pos header]
  · have front : t = f.header.bytes ++ t.drop kWireHeaderSize := by
      have taken : t.take kWireHeaderSize = f.header.bytes := by
        have both := congrArg (List.take kWireHeaderSize) whole
        rw [List.take_append_of_le_length (by omega), f.encode_eq,
          ← WireHeader.bytes_length f.header, List.take_left] at both
        rwa [WireHeader.bytes_length] at both
      rw [← taken, List.take_append_drop]
    have decoded : decodeHeader t = some f.header := by
      rw [front]
      exact f.decodeHeader_encode _
    have length := f.header_length
    simp only [FrameBuffer.tryPopFrame, if_neg header, decoded, length, if_pos short]

theorem tryPopFrame_prefix (fb : FrameBuffer) (frames : List Frame) (t later : Bytes)
    (cut : Unfinished t) (sync : fb.buf ++ later = stream frames ++ t) :
    fb.tryPopFrame = (none, fb) ∨
    ∃ f rest left, frames = f :: rest ∧ fb.tryPopFrame = (some f.view, left) ∧
      fb.buf = f.encode ++ left.buf ∧ left.buf ++ later = stream rest ++ t := by
  obtain ⟨buf⟩ := fb
  cases frames with
  | nil =>
      left
      simp only [stream, List.flatMap_nil, List.nil_append] at sync
      obtain ⟨f, ⟨missing, whole⟩, proper⟩ := cut
      have cutBuf : Unfinished buf := by
        refine ⟨f, ⟨later ++ missing, ?_⟩, ?_⟩
        · rw [← List.append_assoc, sync, whole]
        · intro full
          rw [← whole, ← sync, List.append_assoc] at full
          have nothing := List.self_eq_append_right.mp full
          obtain ⟨noLater, noMissing⟩ := List.append_eq_nil_iff.mp nothing
          exact proper (by rw [← whole, noMissing, List.append_nil])
      exact tryPopFrame_unfinished buf cutBuf
  | cons f rest =>
      have shape : buf ++ later = f.encode ++ (stream rest ++ t) := by
        simpa [stream] using sync
      rcases List.append_eq_append_iff.mp shape with ⟨more, whole, tail⟩ | ⟨left, whole, tail⟩
      · by_cases full : more = []
        · right
          subst full
          rw [List.append_nil] at whole
          refine ⟨f, rest, ⟨[]⟩, rfl, ?_, ?_, by simpa using tail⟩
          · have popped := tryPopFrame_encode f []
            rwa [List.append_nil, whole] at popped
          · rw [whole, List.append_nil]
        · left
          have cutBuf : Unfinished buf := by
            refine ⟨f, ⟨more, whole.symm⟩, ?_⟩
            intro same
            rw [same] at whole
            exact full (List.self_eq_append_right.mp whole)
          exact tryPopFrame_unfinished buf cutBuf
      · right
        refine ⟨f, rest, ⟨left⟩, rfl, ?_, whole, tail.symm⟩
        rw [whole]
        exact tryPopFrame_encode f left

theorem serve_sync (calls : List Call) (fb : FrameBuffer) (frames : List Frame)
    (t later : Bytes) (cut : Unfinished t)
    (sync : fb.buf ++ fed calls ++ later = stream frames ++ t) :
    ∃ done todo, frames = done ++ todo ∧ (serve fb calls).1 = done.map Frame.view ∧
      fb.buf ++ fed calls = stream done ++ (serve fb calls).2.buf ∧
      (serve fb calls).2.buf ++ later = stream todo ++ t := by
  induction calls generalizing fb frames with
  | nil =>
      refine ⟨[], frames, rfl, rfl, ?_, ?_⟩
      · simp [fed, serve, stream]
      · simpa [fed, serve] using sync
  | cons call calls ih =>
      cases call with
      | append data =>
          have moved : (fb.append data).buf ++ fed calls ++ later = stream frames ++ t := by
            simpa [fed] using sync
          obtain ⟨done, todo, split, popped, spent, rest⟩ := ih (fb.append data) frames moved
          exact ⟨done, todo, split, popped, by simpa [fed, serve] using spent, rest⟩
      | tryPopFrame =>
          simp only [fed, List.append_assoc] at sync
          rcases tryPopFrame_prefix fb frames t (fed calls ++ later) cut sync with
            stuck | ⟨f, remaining, left, split, popped, front, tail⟩
          · simp only [serve, stuck, fed]
            exact ih fb frames (by simpa using sync)
          · obtain ⟨done, todo, splitRest, poppedRest, spent, rest⟩ :=
              ih left remaining (by simpa using tail)
            refine ⟨f :: done, todo, ?_, ?_, ?_, ?_⟩
            · rw [split, splitRest, List.cons_append]
            · simp only [serve, popped, poppedRest, List.map_cons]
            · simp only [serve, popped, fed]
              rw [front, List.append_assoc, spent]
              simp [stream]
            · simpa [serve, popped] using rest

theorem drain_stream (frames : List Frame) (t : Bytes) (cut : Unfinished t) :
    FrameBuffer.drain ⟨stream frames ++ t⟩ = (frames.map Frame.view, ⟨t⟩) := by
  induction frames with
  | nil =>
      rw [FrameBuffer.drain_eq]
      simp only [stream, List.flatMap_nil, List.nil_append, tryPopFrame_unfinished t cut,
        List.map_nil]
  | cons f rest ih =>
      have whole : stream (f :: rest) ++ t = f.encode ++ (stream rest ++ t) := by
        simp [stream]
      rw [FrameBuffer.drain_eq, whole, tryPopFrame_encode]
      simp only [ih, List.map_cons]

theorem views_show (frames : List Frame) :
    List.Forall₂ Frame.ShownBy frames (frames.map Frame.view) := by
  induction frames with
  | nil => exact List.Forall₂.nil
  | cons f rest ih => exact List.Forall₂.cons f.view_shows ih

/-- Reassembly undoes encoding under any fragmentation and any pop timing. The
last clause is about every moment of the run: the frames popped by then are the
first `k`, and the bytes appended by then are theirs followed by the buffer, so
no frame is popped before its last byte was appended. -/
theorem reassembly_undoes_encoding (frames : List Frame) (t : Bytes) (calls : List Call)
    (cut : Unfinished t) (whole : fed calls = stream frames ++ t) :
    List.Forall₂ Frame.ShownBy frames
      ((serve .empty calls).1 ++ (serve .empty calls).2.drain.1) ∧
    (serve .empty calls).2.drain.2.buf = t ∧
    ∀ front, front <+: calls → ∃ k, k ≤ frames.length ∧
      List.Forall₂ Frame.ShownBy (frames.take k) (serve .empty front).1 ∧
      fed front = stream (frames.take k) ++ (serve .empty front).2.buf := by
  have start : FrameBuffer.empty.buf ++ fed calls ++ [] = stream frames ++ t := by
    simpa [FrameBuffer.empty] using whole
  obtain ⟨done, todo, split, popped, -, rest⟩ := serve_sync calls .empty frames t [] cut start
  rw [List.append_nil] at rest
  have final : (serve .empty calls).2 = ⟨stream todo ++ t⟩ := by rw [← rest]
  refine ⟨?_, ?_, ?_⟩
  · rw [popped, final, drain_stream todo t cut, ← List.map_append, ← split]
    exact views_show frames
  · rw [final, drain_stream todo t cut]
  · rintro front ⟨back, joined⟩
    have startFront : FrameBuffer.empty.buf ++ fed front ++ fed back = stream frames ++ t := by
      rw [← whole, ← joined, fed_append]
      rfl
    obtain ⟨done, todo, split, popped, spent, -⟩ :=
      serve_sync front .empty frames t (fed back) cut startFront
    have taken : frames.take done.length = done := by rw [split, List.take_left]
    refine ⟨done.length, ?_, ?_, ?_⟩
    · rw [split, List.length_append]
      omega
    · rw [taken, popped]
      exact views_show done
    · rw [taken, ← spent]
      rfl

/-- Two frames and half a header, cut inside the first header and inside the
second payload, with a pop in between. -/
theorem reassembly_of_two_sticky_frames :
    let first : Frame := ⟨0x030B, 7, kFlagExp, [1, 2, 3], by decide⟩
    let second : Frame := ⟨5, 7, kFlagSys, [0, 0, 3, 11], by decide⟩
    let t : Bytes := (encodeFrame 9 9 1 []).take 10
    let bytes := first.encode ++ second.encode ++ t
    let calls : List Call := [.append (bytes.take 7), .tryPopFrame, .append [],
      .append ((bytes.drop 7).take 36), .tryPopFrame, .append (bytes.drop 43)]
    List.Forall₂ Frame.ShownBy [first, second]
      ((serve .empty calls).1 ++ (serve .empty calls).2.drain.1) ∧
    (serve .empty calls).2.drain.2.buf = t := by
  intro first second t bytes calls
  have cut : Unfinished t :=
    ⟨⟨9, 9, 1, [], by decide⟩, List.take_prefix _ _, by decide⟩
  have whole : fed calls = stream [first, second] ++ t := by decide
  have result := reassembly_undoes_encoding [first, second] t calls cut whole
  exact ⟨result.1, result.2.1⟩

end HiImCore.Wire
