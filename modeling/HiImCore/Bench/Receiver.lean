import HiImCore.Bench.Client
import HiImCore.Wire.NormalForm

/-! The receiving client of the benchmark (`cmd/hi-im-bench/main.cpp`): it starts its loop with a
new buffer after `Handshake`, so whatever `Handshake` has read beyond the frames it awaited is
lost to it. -/

namespace HiImCore.Bench

open Hub Transition Wire

def businessCount (frames : List FrameView) : Nat :=
  (frames.filter fun frame => headerFieldHost frame.header WireHeader.flag == kFlagExp).length

/-- What the loop of the receiver adds to `recv_count`, where each `recv` comes with the value of
`count_now` for the frames popped after it. In `RunUnicastBench` all of them count. -/
def recvCount : FrameBuffer → List (Bytes × Bool) → Nat
  | _, [] => 0
  | fb, (chunk, countNow) :: later =>
      let now := (fb.append chunk).drain
      (if countNow then businessCount now.1 else 0) + recvCount now.2 later

/-- The calls of `recv` in `RunPublishBench`: `count_now` turns true once. -/
def warmedUp (early late : List Bytes) : List (Bytes × Bool) :=
  early.map (fun chunk => (chunk, false)) ++ late.map fun chunk => (chunk, true)

section Streams

theorem yields_stream (frames : List Frame) :
    Yields ⟨stream frames⟩ (frames.map Frame.view) .empty := by
  induction frames with
  | nil => exact .nil _
  | cons f rest ih => exact .cons (tryPopFrame_encode f (stream rest)) ih

theorem receive_stream {chunks : List Bytes} {frames : List Frame}
    (whole : chunks.flatten = stream frames) :
    receive .empty chunks = (frames.map Frame.view, .empty) := by
  have pops := yields_stream frames
  have ends : EndsAtBadHeader (FrameBuffer.empty.buf ++ chunks.flatten) := by
    intro _
    rw [whole, show FrameBuffer.empty.buf ++ stream frames = stream frames from rfl,
      residue_of_yields pops rfl]
    exact Nat.zero_le _
  rw [receive_eq_drain chunks .empty rfl ends, whole]
  exact pops.drain.trans (by rw [show FrameBuffer.empty.drain = ([], .empty) from rfl, List.append_nil])

theorem drain_size (fb : FrameBuffer) :
    (fb.drain.1.flatMap reencode).length + fb.drain.2.buf.length ≤ fb.buf.length := by
  obtain ⟨views, pops, stuck⟩ := residue_yields fb.buf
  have size : fb.buf.length = (views.flatMap reencode).length + (residue fb.buf).length := by
    rw [← List.length_append]
    exact congrArg List.length pops.reencoded.2
  rw [pops.drain, drain_stuck stuck, List.append_nil]
  dsimp only
  split
  · simp only [FrameBuffer.empty, List.length_nil]
    omega
  · exact size.ge

theorem receive_size (fb : FrameBuffer) (chunks : List Bytes) :
    ((receive fb chunks).1.flatMap reencode).length ≤ fb.buf.length + chunks.flatten.length := by
  induction chunks generalizing fb with
  | nil => exact Nat.zero_le _
  | cons chunk chunks ih =>
      have now := drain_size (fb.append chunk)
      have later := ih (fb.append chunk).drain.2
      rw [FrameBuffer.append_buf, List.length_append] at now
      rw [receive, List.flatten_cons, List.length_append, List.flatMap_append, List.length_append]
      omega

theorem reencode_view (f : Frame) : reencode f.view = f.encode := by
  obtain ⟨type, nid, flag, _, payload⟩ := f.view_shows
  rw [reencode, type, nid, flag, payload, Frame.encode]

theorem receive_all_iff {frames : List Frame} {missed : Bytes} {chunks : List Bytes}
    (whole : missed ++ chunks.flatten = stream frames) :
    (receive .empty chunks).1 = frames.map Frame.view ↔ missed = [] := by
  constructor
  · intro all
    have size := receive_size .empty chunks
    have bytes : (frames.map Frame.view).flatMap reencode = stream frames := by
      rw [List.flatMap_map, stream]
      exact List.flatMap_congr fun f _ => reencode_view f
    rw [all, bytes, ← whole, List.length_append] at size
    simp only [FrameBuffer.empty, List.length_nil] at size
    exact List.eq_nil_of_length_eq_zero (by omega)
  · rintro rfl
    rw [receive_stream whole]

theorem receive_append (fb : FrameBuffer) (early late : List Bytes) :
    (receive fb (early ++ late)).1 =
      (receive fb early).1 ++ (receive (receive fb early).2 late).1 := by
  induction early generalizing fb with
  | nil => rfl
  | cons chunk early ih =>
      rw [List.cons_append, receive, receive, ih, List.append_assoc]

theorem recvCount_late (fb : FrameBuffer) (late : List Bytes) :
    recvCount fb (late.map fun chunk => (chunk, true)) = businessCount (receive fb late).1 := by
  induction late generalizing fb with
  | nil => rfl
  | cons chunk late ih =>
      rw [List.map_cons, recvCount, if_pos rfl, ih, receive, businessCount, businessCount,
        businessCount, List.filter_append, List.length_append]

theorem recvCount_warmedUp (fb : FrameBuffer) (early late : List Bytes) :
    recvCount fb (warmedUp early late) = businessCount (receive (receive fb early).2 late).1 := by
  induction early generalizing fb with
  | nil => exact recvCount_late fb late
  | cons chunk early ih =>
      have later := ih (fb.append chunk).drain.2
      rw [warmedUp] at later ⊢
      rw [List.map_cons, List.cons_append, recvCount, if_neg Bool.false_ne_true, Nat.zero_add, later,
        receive]

end Streams

section Sessions

variable {cfg : HubConfig} {wakeFd : Plane → Nat → Int}
  {taken : List (Taken HubServer Action Entry)} {h : HubServer} {q : Plane} {k : Nat}

theorem business_of_log {log rest : List (Frame × Option Origin)}
    (known : OutputLog q k (trace taken) log) (part : ∀ x ∈ rest, x ∈ log) :
    businessCount (rest.map fun x => x.1.view) = (rest.filterMap Prod.snd).length := by
  unfold businessCount
  induction rest with
  | nil => rfl
  | cons x rest ih =>
      obtain ⟨here, others⟩ := List.forall_mem_cons.mp part
      obtain ⟨_, _, flag, _⟩ := x.1.view_shows
      rw [List.map_cons, List.filter_cons, flag]
      obtain ⟨f, _ | o⟩ := x
      · rw [show f.flag = kFlagSys from (known.acks f here).1.1]
        exact ih others
      · rw [show f.flag = kFlagExp from (known.copies f o here).1.1]
        simp [ih others]

/-- After a handshake the receiver's loop pops exactly the frames that are left of its stream if and
only if `Handshake` had nothing left in its buffer when it returned; then its count is the number of
business frames among them, apart from those popped during the warm-up of `RunPublishBench`. -/
theorem receiver_pops_all_iff {opt : Options} {nid subCmd : UInt32} {sends : List Int}
    {recvs early late : List Bytes} {left : FrameBuffer} {link : Link}
    (run : HubRun cfg wakeFd taken h)
    (done : handshake opt nid subCmd ⟨sends, recvs, [], []⟩ = some (true, left, link))
    (read : link.got ++ (early ++ late).flatten = appendedBytes k (onPlane q.peer (trace taken))) :
    ∃ log, OutputLog q k (trace taken) log ∧
      ((receive .empty (early ++ late)).1 =
        (log.drop (awaited subCmd).length).map (fun x => x.1.view) ↔ left.buf = []) ∧
      (left.buf = [] → recvCount .empty (warmedUp early late) =
        ((log.drop ((awaited subCmd).length + (receive .empty early).1.length)).filterMap
          Prod.snd).length) := by
  obtain ⟨_, calls, frames, serves, fedAll, types⟩ := handshake_true done
  obtain ⟨log, known⟩ := hubRun_output run q k
  have sync : FrameBuffer.empty.buf ++ fed calls ++ (early ++ late).flatten =
      stream (log.map Prod.fst) ++ [] := by
    rw [fedAll, List.append_nil, ← known.bytes, ← read]
    rfl
  obtain ⟨popped, todo, split, views, _, rest⟩ :=
    serve_sync calls .empty _ [] (early ++ late).flatten nothing_unfinished sync
  rw [serves] at views rest
  rw [List.append_nil] at rest
  have count : (awaited subCmd).length = popped.length := by
    rw [← types, List.length_map, show frames = _ from views, List.length_map]
  have remaining : todo = (log.drop (awaited subCmd).length).map Prod.fst := by
    rw [count, List.map_drop, split, List.drop_left]
  have shown : todo.map Frame.view = (log.drop (awaited subCmd).length).map fun x => x.1.view := by
    rw [remaining, List.map_map]
    rfl
  have all := receive_all_iff rest
  rw [shown] at all
  refine ⟨log, known, all, ?_⟩
  intro nothing
  have whole := all.mpr nothing
  rw [receive_append] at whole
  have counted : (receive (receive .empty early).2 late).1 =
      (log.drop ((awaited subCmd).length + (receive .empty early).1.length)).map fun x => x.1.view := by
    rw [← List.drop_drop, List.map_drop, ← whole, List.drop_left]
  rw [recvCount_warmedUp, counted]
  exact business_of_log known fun x member => List.mem_of_mem_drop member

/-- A subscriber of the small hub whose second `recv` returns both acknowledgements and the first five
bytes of a business frame. -/
def eagerLink : Link :=
  ⟨[76, 24], [subscriberBytes.take 10, (subscriberBytes.take 45).drop 10], [], []⟩

def patientLink : Link :=
  ⟨[76, 24], [subscriberBytes.take 20, (subscriberBytes.take 40).drop 20], [], []⟩

/-- The first one loses a copy. The second one receives both, of which one came during the warm-up. -/
theorem receiver_pops_all_iff_eager :
    ∃ taken h, HubRun (smallConfig 4) smallWakeFd taken h ∧
      (∃ log, OutputLog .kForward 1 (trace taken) log ∧
        (receive .empty [subscriberBytes.drop 45]).1 ≠ (log.drop 2).map fun x => x.1.view) ∧
      ∃ log, OutputLog .kForward 1 (trace taken) log ∧
        (receive .empty [(subscriberBytes.take 61).drop 40, subscriberBytes.drop 61]).1 =
          (log.drop 2).map (fun x => x.1.view) ∧
        recvCount .empty [((subscriberBytes.take 61).drop 40, false), (subscriberBytes.drop 61, true)] =
          1 ∧ ((log.drop 3).filterMap Prod.snd).length = 1 := by
  obtain ⟨taken, h, run, _, seen⟩ := small_run 4 (fun _ => true) publishing
    (fun x => decide (appendedBytes 1 (onPlane .kBackend x.2) = subscriberBytes)) (by decide +kernel)
  have appended := of_decide_eq_true seen
  have eager : handshake ⟨[], []⟩ 2 9 eagerLink = some (true, ⟨(subscriberBytes.take 45).drop 40⟩,
      ⟨[], [], encodeAuthFrame 1 [] [] 2 ++ encodeSubFrame 2 9, subscriberBytes.take 45⟩) := by
    decide +kernel
  have patient : handshake ⟨[], []⟩ 2 9 patientLink = some (true, .empty,
      ⟨[], [], encodeAuthFrame 1 [] [] 2 ++ encodeSubFrame 2 9, subscriberBytes.take 40⟩) := by
    decide +kernel
  refine ⟨taken, h, run, ?_, ?_⟩
  · obtain ⟨log, known, all, _⟩ := @receiver_pops_all_iff _ _ _ _ .kForward 1 _ _ _ _ _ []
      [subscriberBytes.drop 45] _ _ run eager
      (Eq.trans (by decide +kernel) appended.symm)
    refine ⟨log, known, fun popped => ?_⟩
    have nothing := all.mp popped
    revert nothing
    decide +kernel
  · obtain ⟨log, known, all, count⟩ := @receiver_pops_all_iff _ _ _ _ .kForward 1 _ _ _ _ _
      [(subscriberBytes.take 61).drop 40] [subscriberBytes.drop 61] _ _ run patient
      (Eq.trans (by decide +kernel) appended.symm)
    have one : (receive .empty [(subscriberBytes.take 61).drop 40]).1.length = 1 := by decide +kernel
    have counted : recvCount .empty
        [((subscriberBytes.take 61).drop 40, false), (subscriberBytes.drop 61, true)] = 1 := by
      decide +kernel
    have later := count rfl
    rw [one] at later
    exact ⟨log, known, all.mpr rfl, counted, later.symm.trans counted⟩

end Sessions

end HiImCore.Bench
