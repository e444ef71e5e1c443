import HiImCore.Wire.FrameBuffer

/-! How far the frames of a byte stream depend on where `recv` cuts it, for any bytes. -/

namespace HiImCore.Wire

open FrameBuffer

/-- The loop of `HandleReadable`: every chunk is appended and the buffer drained. -/
def receive : FrameBuffer → List Bytes → List FrameView × FrameBuffer
  | fb, [] => ([], fb)
  | fb, chunk :: chunks =>
      let now := (fb.append chunk).drain
      let later := receive now.2 chunks
      (now.1 ++ later.1, later.2)

/-- Popping takes these frames off the front. -/
inductive Yields : FrameBuffer → List FrameView → FrameBuffer → Prop
  | nil (fb : FrameBuffer) : Yields fb [] fb
  | cons {fb mid left : FrameBuffer} {view : FrameView} {views : List FrameView}
      (popped : fb.tryPopFrame = (some view, mid)) (rest : Yields mid views left) :
      Yields fb (view :: views) left

def residueWithin : Nat → FrameBuffer → Bytes
  | 0, fb => fb.buf
  | fuel + 1, fb =>
      match fb.tryPopFrame with
      | (none, _) => fb.buf
      | (some _, left) => residueWithin fuel left

/-- The bytes at which `TryPopFrame` first returns `nullopt`, as they are before that call. -/
def residue (b : Bytes) : Bytes := residueWithin (b.length + 1) ⟨b⟩

section Popping

variable {fb left : FrameBuffer} {view : FrameView} {views : List FrameView}

theorem decodeHeader_append (b later : Bytes) (long : kWireHeaderSize ≤ b.length) :
    decodeHeader (b ++ later) = decodeHeader b := by
  have front : WireHeader.ofBytes (b ++ later) = WireHeader.ofBytes b := by
    have whole : (WireHeader.ofBytes b).bytes ++ (b.drop kWireHeaderSize ++ later) = b ++ later := by
      rw [bytes_ofBytes b long, ← List.append_assoc, List.take_append_drop]
    rw [← whole, ofBytes_bytes_append]
  have short : ¬ b.length < kWireHeaderSize := Nat.not_lt.mpr long
  have shortToo : ¬ (b ++ later).length < kWireHeaderSize := by
    rw [List.length_append]
    omega
  simp only [decodeHeader, if_neg short, if_neg shortToo, front]

theorem tryPopFrame_local (popped : fb.tryPopFrame = (some view, left)) :
    ∃ front, fb.buf = front ++ left.buf ∧
      ∀ later, FrameBuffer.tryPopFrame ⟨front ++ later⟩ = (some view, ⟨later⟩) := by
  obtain ⟨valid, length, whole⟩ := tryPopFrame_some popped
  refine ⟨view.header.bytes ++ view.payload, whole, fun later => ?_⟩
  have size : (view.header.bytes ++ view.payload ++ later).length =
      kWireHeaderSize + (headerFieldHost view.header WireHeader.length).toNat + later.length := by
    rw [List.length_append, List.length_append, WireHeader.bytes_length, length]
  have enough : ¬ (view.header.bytes ++ view.payload ++ later).length < kWireHeaderSize := by omega
  have complete : ¬ (view.header.bytes ++ view.payload ++ later).length <
      kWireHeaderSize + (headerFieldHost view.header WireHeader.length).toNat := by omega
  have decoded : decodeHeader (view.header.bytes ++ view.payload ++ later) = some view.header := by
    rw [List.append_assoc]
    exact decodeHeader_bytes_append view.header (view.payload ++ later) valid
  have payload : ((view.header.bytes ++ view.payload ++ later).drop kWireHeaderSize).take
      (headerFieldHost view.header WireHeader.length).toNat = view.payload := by
    rw [List.append_assoc, ← WireHeader.bytes_length view.header, List.drop_left, ← length,
      List.take_left]
  have rest : (view.header.bytes ++ view.payload ++ later).drop
      (kWireHeaderSize + (headerFieldHost view.header WireHeader.length).toNat) = later := by
    rw [← length, ← WireHeader.bytes_length view.header, ← List.length_append, List.drop_left]
  simp only [FrameBuffer.tryPopFrame, if_neg enough, decoded, if_neg complete, payload, rest]

theorem Yields.local (pops : Yields fb views left) :
    ∃ front, fb.buf = front ++ left.buf ∧ ∀ later, Yields ⟨front ++ later⟩ views ⟨later⟩ := by
  induction pops with
  | nil fb => exact ⟨[], rfl, fun later => Yields.nil ⟨later⟩⟩
  | cons popped rest ih =>
      obtain ⟨first, whole, again⟩ := tryPopFrame_local popped
      obtain ⟨second, middle, further⟩ := ih
      refine ⟨first ++ second, ?_, fun later => ?_⟩
      · rw [whole, middle, List.append_assoc]
      · rw [List.append_assoc]
        exact Yields.cons (again (second ++ later)) (further later)

theorem Yields.append (pops : Yields fb views left) (later : Bytes) :
    Yields (fb.append later) views (left.append later) := by
  obtain ⟨front, whole, again⟩ := pops.local
  have moved := again (left.buf ++ later)
  rw [← List.append_assoc, ← whole] at moved
  exact moved

theorem Yields.drain (pops : Yields fb views left) :
    fb.drain = (views ++ left.drain.1, left.drain.2) := by
  induction pops with
  | nil fb => rfl
  | cons popped rest ih =>
      rw [drain_eq, popped]
      simp only [ih, List.cons_append]

theorem residueWithin_yields (fuel : Nat) (fb : FrameBuffer) (enough : fb.buf.length < fuel) :
    ∃ views, Yields fb views ⟨residueWithin fuel fb⟩ ∧
      (FrameBuffer.tryPopFrame ⟨residueWithin fuel fb⟩).1 = none := by
  induction fuel generalizing fb with
  | zero => omega
  | succ fuel ih =>
      unfold residueWithin
      split
      · rename_i after stuck
        exact ⟨[], Yields.nil fb, by rw [stuck]⟩
      · rename_i view after popped
        have shrinks := tryPopFrame_shrinks popped
        obtain ⟨views, pops, stuck⟩ := ih after (by omega)
        exact ⟨view :: views, Yields.cons popped pops, stuck⟩

theorem residue_yields (b : Bytes) :
    ∃ views, Yields ⟨b⟩ views ⟨residue b⟩ ∧ (FrameBuffer.tryPopFrame ⟨residue b⟩).1 = none :=
  residueWithin_yields (b.length + 1) ⟨b⟩ (Nat.lt_succ_self b.length)

theorem Yields.unique {other : FrameBuffer} {others : List FrameView} (pops : Yields fb views left)
    (stuck : left.tryPopFrame.1 = none) (again : Yields fb others other)
    (stuckToo : other.tryPopFrame.1 = none) : left = other := by
  induction pops generalizing others with
  | nil fb =>
      cases again with
      | nil => rfl
      | cons popped rest =>
          rw [popped] at stuck
          cases stuck
  | cons popped rest ih =>
      cases again with
      | nil =>
          rw [popped] at stuckToo
          cases stuckToo
      | cons poppedToo restToo =>
          have same := popped.symm.trans poppedToo
          cases same
          exact ih stuck restToo

theorem Yields.trans {mid : FrameBuffer} {others : List FrameView} (pops : Yields fb views mid)
    (more : Yields mid others left) : Yields fb (views ++ others) left := by
  induction pops with
  | nil fb => exact more
  | cons popped rest ih => exact Yields.cons popped (ih more)

theorem residue_of_yields {b r : Bytes} (pops : Yields ⟨b⟩ views ⟨r⟩)
    (stuck : (FrameBuffer.tryPopFrame ⟨r⟩).1 = none) : residue b = r := by
  obtain ⟨others, popsToo, stuckToo⟩ := residue_yields b
  exact congrArg FrameBuffer.buf (popsToo.unique stuckToo pops stuck)

theorem residue_append {b r : Bytes} (pops : Yields ⟨b⟩ views ⟨r⟩) (later : Bytes) :
    residue (b ++ later) = residue (r ++ later) := by
  obtain ⟨others, further, stuck⟩ := residue_yields (r ++ later)
  exact residue_of_yields ((pops.append later).trans further) stuck

end Popping

section Settling

variable {fb : FrameBuffer}

theorem drain_stuck {r : Bytes} (stuck : (FrameBuffer.tryPopFrame ⟨r⟩).1 = none) :
    FrameBuffer.drain ⟨r⟩ =
      ([], if kWireHeaderSize ≤ r.length ∧ decodeHeader r = none then empty else ⟨r⟩) := by
  rw [drain_eq]
  unfold FrameBuffer.tryPopFrame at stuck ⊢
  by_cases short : r.length < kWireHeaderSize
  · have waits : ¬ (kWireHeaderSize ≤ r.length ∧ decodeHeader r = none) := by omega
    simp only [if_pos short, if_neg waits]
  · have long : kWireHeaderSize ≤ r.length := Nat.not_lt.mp short
    cases decoded : decodeHeader r with
    | none =>
        simp only [if_neg short, long, and_self, if_true, FrameBuffer.clear, FrameBuffer.empty]
    | some hdr =>
        simp only [if_neg short, decoded] at stuck ⊢
        split at stuck
        · rename_i waits
          simp [waits]
        · cases stuck

theorem stuck_of_bad {r : Bytes} (long : kWireHeaderSize ≤ r.length) (bad : decodeHeader r = none) :
    (FrameBuffer.tryPopFrame ⟨r⟩).1 = none := by
  have short : ¬ r.length < kWireHeaderSize := Nat.not_lt.mpr long
  simp only [FrameBuffer.tryPopFrame, if_neg short, bad]

theorem bad_append {r : Bytes} (long : kWireHeaderSize ≤ r.length) (bad : decodeHeader r = none)
    (later : Bytes) : residue (r ++ later) = r ++ later ∧ decodeHeader (r ++ later) = none := by
  have still : decodeHeader (r ++ later) = none := (decodeHeader_append r later long).trans bad
  have longer : kWireHeaderSize ≤ (r ++ later).length := by
    rw [List.length_append]
    omega
  exact ⟨residue_of_yields (Yields.nil _) (stuck_of_bad longer still), still⟩

/-- No byte follows the first bad header. -/
def EndsAtBadHeader (b : Bytes) : Prop :=
  decodeHeader (residue b) = none → (residue b).length ≤ kWireHeaderSize

instance (b : Bytes) : Decidable (EndsAtBadHeader b) := inferInstanceAs (Decidable (_ → _))

theorem receive_eq_drain (chunks : List Bytes) (fb : FrameBuffer) (settled : fb.drain = ([], fb))
    (ends : EndsAtBadHeader (fb.buf ++ chunks.flatten)) :
    receive fb chunks = (fb.append chunks.flatten).drain := by
  induction chunks generalizing fb with
  | nil =>
      have same : fb.append [] = fb := by
        rw [FrameBuffer.append, List.append_nil]
      rw [receive, List.flatten_nil, same, settled]
  | cons chunk chunks ih =>
      obtain ⟨views, pops, stuck⟩ := residue_yields (fb.buf ++ chunk)
      have ends : EndsAtBadHeader (residue (fb.buf ++ chunk) ++ chunks.flatten) := by
        rw [EndsAtBadHeader, ← residue_append pops, List.append_assoc]
        exact ends
      have whole : fb.append (chunk :: chunks).flatten =
          FrameBuffer.append ⟨fb.buf ++ chunk⟩ chunks.flatten := by
        simp only [FrameBuffer.append, List.flatten_cons, List.append_assoc]
      have first : (fb.append chunk).drain = _ := pops.drain
      have all := (pops.append chunks.flatten).drain
      generalize residue (fb.buf ++ chunk) = r at stuck ends first all
      rw [drain_stuck stuck, List.append_nil] at first
      rw [receive, whole, all, first]
      dsimp only
      by_cases bad : kWireHeaderSize ≤ r.length ∧ decodeHeader r = none
      · -- the first bad header is here, so all that follows is empty
        obtain ⟨same, still⟩ := bad_append bad.1 bad.2 chunks.flatten
        have short := ends
        rw [EndsAtBadHeader, same] at short
        have nothing : chunks.flatten = [] := by
          have bound := short still
          rw [List.length_append] at bound
          exact List.eq_nil_of_length_eq_zero (by omega)
        have rest : receive empty chunks = ([], empty) := by
          rw [ih empty rfl (by rw [nothing]; decide), nothing]
          rfl
        rw [if_pos bad, rest, nothing]
        have kept : FrameBuffer.append ⟨r⟩ [] = ⟨r⟩ := by
          rw [FrameBuffer.append, List.append_nil]
        rw [kept, drain_stuck stuck, if_pos bad]
      · have waits : FrameBuffer.drain ⟨r⟩ = ([], ⟨r⟩) := by
          rw [drain_stuck stuck, if_neg bad]
        rw [if_neg bad, ih ⟨r⟩ waits ends]

/-- The frames and the buffer that a stream leads to are the same for all ways of cutting
it if and only if no byte follows its first bad header. -/
theorem segmentation_is_irrelevant_iff (b : Bytes) :
    (∀ first second : List Bytes, first.flatten = b → second.flatten = b →
      receive .empty first = receive .empty second) ↔ EndsAtBadHeader b := by
  constructor
  · intro agree bad
    by_contra long
    obtain ⟨views, pops, stuck⟩ := residue_yields b
    obtain ⟨front, whole, again⟩ := pops.local
    rcases List.eq_nil_or_concat (residue b) with nothing | ⟨start, last, split⟩
    · rw [nothing] at long
      exact long (Nat.zero_le _)
    · have enough : kWireHeaderSize ≤ start.length := by
        rw [split, List.concat_eq_append, List.length_append, List.length_singleton] at long
        omega
      have early : decodeHeader start = none := by
        rw [split, List.concat_eq_append, decodeHeader_append start [last] enough] at bad
        exact bad
      have cleared : FrameBuffer.drain ⟨front ++ start⟩ = (views, empty) := by
        rw [(again start).drain, drain_stuck (stuck_of_bad enough early), if_pos ⟨enough, early⟩,
          List.append_nil]
      have total : FrameBuffer.drain ⟨b⟩ = (views, empty) := by
        rw [pops.drain, drain_stuck stuck, if_pos ⟨by omega, bad⟩, List.append_nil]
      have joined : [front ++ start, [last]].flatten = b := by
        rw [List.flatten_cons, List.flatten_singleton, List.append_assoc, ← List.concat_eq_append,
          ← split]
        exact whole.symm
      have same := agree [b] [front ++ start, [last]] (List.flatten_singleton ..) joined
      have once : receive .empty [b] = (views, empty) := by
        show (_ ++ [], _) = _
        rw [show FrameBuffer.append .empty b = ⟨b⟩ from rfl, total, List.append_nil]
        rfl
      have twice : (receive .empty [front ++ start, [last]]).2 = ⟨[last]⟩ := by
        show (FrameBuffer.drain (FrameBuffer.append (FrameBuffer.drain ⟨front ++ start⟩).2 [last])).2 = _
        rw [cleared]
        rfl
      rw [← same, once] at twice
      cases twice
  · intro ends first second whole wholeToo
    rw [receive_eq_drain first .empty rfl (by rw [whole]; exact ends),
      receive_eq_drain second .empty rfl (by rw [wholeToo]; exact ends), whole, wholeToo]

/-- A bad header and a good frame: at once they are both dropped, one after the other the
frame is seen. -/
theorem bad_header_swallows_frame :
    let frame := encodeFrame 9 0 kFlagExp [1]
    let b := List.replicate kWireHeaderSize 0 ++ frame
    receive .empty [b] = ([], .empty) ∧
      (receive .empty [b.take kWireHeaderSize, b.drop kWireHeaderSize]).1.map FrameView.payload =
        [[1]] := by
  decide +kernel

end Settling

end HiImCore.Wire
