import HiImCore.Hub.Exchange
import HiImCore.Wire.Reassembly

/-! The bridge between the planes (`src/hub/bridge.cpp`): which frames a worker pushes for
the message it handles, and what a receiver pops from them. -/

namespace HiImCore.Hub

open Transition Wire Words

/-- The big-endian `uint32_t` at the offset of the destination nid. -/
def destinationWord (payload : Bytes) : UInt32 :=
  UInt32.ofNat (bigEndian ((payload.drop 24).take 4))

structure Destination where
  sid : Nat
  reactorIdx : Int
  nid : UInt32
  deriving DecidableEq, Repr

/-- Where a payload of a type goes from a plane, by the routing tables of the other: to
every subscriber, or to the one session its IM header names. -/
def destinations (router : Router) (type : UInt32) (payload : Bytes) : Plane → List Destination
  | .kForward => (router.findSubscribers type).map fun sub => ⟨sub.sid, sub.reactorIdx, sub.nid⟩
  | .kBackend =>
      if 52 ≤ payload.length ∧ destinationWord payload ≠ 0 then
        match router.findNidRoute (destinationWord payload) with
        | some route => [⟨route.sid, route.reactorIdx, destinationWord payload⟩]
        | none => []
      else []

/-- The frame is addressed to the destination, and a fresh buffer pops the payload from it
under the type and the destination's nid, with no bytes left. -/
def Delivers (type : UInt32) (payload : Bytes) (dest : Destination) (frame : OutboundFrame) : Prop :=
  frame.sid = dest.sid ∧ frame.reactorIdx = dest.reactorIdx ∧
    ∃ view, (FrameBuffer.empty.append frame.bytes).tryPopFrame = (some view, .empty) ∧
      headerFieldHost view.header WireHeader.type = type ∧
      headerFieldHost view.header WireHeader.nid = dest.nid ∧
      headerFieldHost view.header WireHeader.flag = kFlagExp ∧ view.payload = payload

def bridgeFrame (type : UInt32) (payload : Bytes) (dest : Destination) : OutboundFrame :=
  ⟨dest.sid, dest.reactorIdx, encodeFrame type dest.nid kFlagExp payload⟩

theorem bridgeFrame_delivers {payload : Bytes} (fits : payload.length < 2 ^ 32) (type : UInt32)
    (dest : Destination) : Delivers type payload dest (bridgeFrame type payload dest) := by
  let frame : Frame := ⟨type, dest.nid, kFlagExp, payload, fits⟩
  have popped := tryPopFrame_encode frame []
  rw [List.append_nil] at popped
  obtain ⟨shownType, shownNid, shownFlag, _, shownPayload⟩ := frame.view_shows
  exact ⟨rfl, rfl, frame.view, popped, shownType, shownNid, shownFlag, shownPayload⟩

theorem readDestNid_eq_word (payload : Bytes) :
    Im.readDestNid payload = if 52 ≤ payload.length then destinationWord payload else 0 := by
  split
  · rename_i long
    exact Im.readDestNid_eq payload long
  · rename_i short
    exact if_pos (Nat.not_le.mp short)

section Alone

variable {cfg : HubConfig} {p : Plane} {v : Nat} {h mid : HubServer} {msg : Tagged InboundMessage}

def WorksTo (cfg : HubConfig) (p : Plane) (v : Nat) (h post : HubServer) : Prop :=
  ∃ taken, Run (hubSystem cfg) h taken post ∧ Within (fun x => x.act = .worker p v) taken

theorem worksTo_refl : WorksTo cfg p v h h := ⟨[], Run.nil, fun x member => by cases member⟩

theorem WorksTo.step {post : HubServer} {events : List Entry}
    (step : hubStep cfg h (.worker p v) = some (mid, events)) (works : WorksTo cfg p v mid post) :
    WorksTo cfg p v h post := by
  obtain ⟨taken, run, alone⟩ := works
  have first : (hubSystem cfg).step h (.worker p v) = some (mid, events) := step
  exact ⟨_ :: taken, Run.cons first run, List.forall_mem_cons.mpr ⟨rfl, alone⟩⟩

structure Works (cfg : HubConfig) (p : Plane) (v : Nat) (router : Router) (h : HubServer)
    (worker : Worker) (queue : List (Tagged OutboundFrame)) : Prop where
  sound : h.sound = true
  inside : v < cfg.workers
  worker : (h.plane p).worker v = worker
  router : (h.plane p.peer).router = router
  queue : (h.plane p.peer).distQueue = queue

variable {router : Router} {worker : Worker} {queue : List (Tagged OutboundFrame)}

theorem Works.step (works : Works cfg p v router h worker queue) {s : WorkerStep}
    (step : workerStep cfg p v (h.plane p) (h.plane p.peer) = some s) :
    ∃ post events, hubStep cfg h (.worker p v) = some (post, events) ∧
      Works cfg p v router post s.worker s.distQueue := by
  have able : ¬ h.sound = false := by
    rw [works.sound]
    decide
  refine ⟨?post, ?events, ?step, ?works⟩
  case step =>
    simp only [hubStep, if_neg able, if_pos works.inside, step, Option.map_some]
    rfl
  case works =>
    have other : p ≠ p.peer := (Plane.peer_ne p).symm
    refine ⟨?_, works.inside, ?_, ?_, ?_⟩
    · have sound := works.sound
      cases p <;> simpa [HubServer.sound, HubServer.setPlane, Plane.peer] using sound
    · rw [HubServer.setPlane_other _ _ other, HubServer.setPlane_self]
      exact Function.update_self ..
    · rw [HubServer.setPlane_self]
      exact works.router
    · rw [HubServer.setPlane_self]

/-- Where a worker is after a push of `AsyncSend`, or of `Publish` with subscribers left. -/
def afterPush (msg : Tagged InboundMessage) : Option (List Subscriber) → Worker
  | none => .pop
  | some subs => (publishNext msg subs).1

theorem workerStep_room {own peer : PlaneState} {out : Tagged OutboundFrame} {attempt : Nat}
    {rest : Option (List Subscriber)} (p : Plane) (busy : own.worker v = .push msg out attempt rest)
    (room : peer.distQueue.length < cfg.queueCapacity) :
    ∃ s, workerStep cfg p v own peer = some s ∧ s.worker = afterPush msg rest ∧
      s.distQueue = peer.distQueue ++ [out] := by
  have pushed : pushAttempt kMaxRetries cfg.queueCapacity peer.distQueue out attempt =
      .pushed (peer.distQueue ++ [out]) := by
    simp [pushAttempt, push, Nat.not_le.mpr room]
  cases rest with
  | none => simp [workerStep, busy, pushed, afterPush]
  | some subs => simp [workerStep, busy, pushed, afterPush]

theorem Works.push {out : Tagged OutboundFrame} {rest : Option (List Subscriber)}
    (works : Works cfg p v router h (.push msg out 0 rest) queue)
    (room : queue.length < cfg.queueCapacity) :
    ∃ post events, hubStep cfg h (.worker p v) = some (post, events) ∧
      Works cfg p v router post (afterPush msg rest) (queue ++ [out]) := by
  have space : (h.plane p.peer).distQueue.length < cfg.queueCapacity := by
    rwa [works.queue]
  obtain ⟨s, step, next, gained⟩ := workerStep_room p works.worker space
  obtain ⟨post, events, taken, after⟩ := works.step step
  rw [gained, next, works.queue] at after
  exact ⟨post, events, taken, after⟩

def queuedFrame (msg : Tagged InboundMessage) (dest : Destination) : Tagged OutboundFrame :=
  ⟨bridgeFrame msg.val.type msg.val.payload dest, msg.origin⟩

theorem Works.publish (subs : List Subscriber)
    (works : Works cfg p v router h (publishNext msg subs).1 queue)
    (room : queue.length + subs.length ≤ cfg.queueCapacity) :
    ∃ post, WorksTo cfg p v h post ∧
      Works cfg p v router post .pop
        (queue ++ subs.map fun sub => queuedFrame msg ⟨sub.sid, sub.reactorIdx, sub.nid⟩) := by
  induction subs generalizing h queue with
  | nil =>
      rw [List.map_nil, List.append_nil]
      exact ⟨h, worksTo_refl, works⟩
  | cons sub rest ih =>
      rw [List.length_cons] at room
      obtain ⟨mid, events, step, after⟩ := Works.push works (by omega)
      have left : queue.length + 1 + rest.length ≤ cfg.queueCapacity := by omega
      obtain ⟨post, reached, done⟩ := ih after (by rwa [List.length_append])
      refine ⟨post, .step step reached, ?_⟩
      rw [List.map_cons, ← List.singleton_append, ← List.append_assoc]
      exact done

theorem forwardUplinkHandler_worker (msg : Tagged InboundMessage) (peer : PlaneState) :
    (forwardUplinkHandler msg peer).1 =
      (publishNext msg (peer.router.findSubscribers msg.val.type)).1 := by
  unfold forwardUplinkHandler
  cases peer.router.findSubscribers msg.val.type <;> rfl

theorem backendDownlinkHandler_worker (msg : Tagged InboundMessage) (peer : PlaneState) :
    (backendDownlinkHandler msg peer).1 =
      match destinations peer.router msg.val.type msg.val.payload .kBackend with
      | [] => .pop
      | dest :: _ => .push msg (queuedFrame msg dest) 0 none := by
  rw [backendDownlinkHandler, destinations, readDestNid_eq_word]
  by_cases long : 52 ≤ msg.val.payload.length
  · by_cases zero : destinationWord msg.val.payload = 0
    · simp [long, zero]
    · simp only [long, zero, if_true, if_false, ne_eq, not_false_eq_true, and_self]
      cases peer.router.findNidRoute (destinationWord msg.val.payload) <;> rfl
  · simp [long]

theorem destinations_backend_length (router : Router) (type : UInt32) (payload : Bytes) :
    (destinations router type payload .kBackend).length ≤ 1 := by
  rw [destinations]
  split
  · split <;> simp
  · simp

theorem workerStep_handle {own peer : PlaneState} (cfg : HubConfig) (p : Plane)
    (busy : own.worker v = .handle msg) :
    ∃ s, workerStep cfg p v own peer = some s ∧ s.distQueue = peer.distQueue ∧
      s.worker = match p with
        | .kForward => (forwardUplinkHandler msg peer).1
        | .kBackend => (backendDownlinkHandler msg peer).1 := by
  have handler := chooseHandler_eq p msg.val.type
  cases p with
  | kForward => simp [workerStep, busy, handler]
  | kBackend => simp [workerStep, busy, handler]

theorem Works.downlink (works : Works cfg .kBackend v router h (.handle msg) queue) :
    ∃ post events, hubStep cfg h (.worker .kBackend v) = some (post, events) ∧
      Works cfg .kBackend v router post
        (match destinations router msg.val.type msg.val.payload .kBackend with
          | [] => .pop
          | dest :: _ => .push msg (queuedFrame msg dest) 0 none)
        queue := by
  obtain ⟨s, step, same, next⟩ := workerStep_handle cfg .kBackend works.worker
  obtain ⟨post, events, first, after⟩ := works.step step
  simp only [same, next, works.queue, backendDownlinkHandler_worker, works.router] at after
  exact ⟨post, events, first, after⟩

theorem Works.handle (works : Works cfg p v router h (.handle msg) queue)
    (room : queue.length + (destinations router msg.val.type msg.val.payload p).length ≤
      cfg.queueCapacity) :
    ∃ post, WorksTo cfg p v h post ∧
      Works cfg p v router post .pop
        (queue ++ (destinations router msg.val.type msg.val.payload p).map (queuedFrame msg)) := by
  cases p with
  | kForward =>
      obtain ⟨s, step, same, next⟩ := workerStep_handle cfg .kForward works.worker
      obtain ⟨mid, events, first, after⟩ := works.step step
      simp only [same, next, works.queue, forwardUplinkHandler_worker, works.router] at after
      rw [destinations, List.length_map] at room
      obtain ⟨post, reached, done⟩ := after.publish _ room
      refine ⟨post, .step first reached, ?_⟩
      rw [destinations, List.map_map]
      exact done
  | kBackend =>
      obtain ⟨mid, events, first, after⟩ := works.downlink
      have single := destinations_backend_length router msg.val.type msg.val.payload
      generalize destinations router msg.val.type msg.val.payload .kBackend = dests at *
      cases dests with
      | nil =>
          rw [List.map_nil, List.append_nil]
          exact ⟨mid, .step first worksTo_refl, after⟩
      | cons dest others =>
          obtain rfl : others = [] := List.eq_nil_of_length_eq_zero (by simpa using single)
          obtain ⟨post, more, second, done⟩ := Works.push after room
          exact ⟨post, .step first (.step second worksTo_refl), done⟩

end Alone

section Translation

variable {cfg : HubConfig} {pl : PlaneState} {i k : Nat} {session : Session} {rest : List Task}
  {w : Bytes} {view : FrameView}

theorem reactorStep_business (top : (pl.reactor i).stack = .popLoop k :: rest)
    (found : (pl.reactor i).sessions k = some session) (authed : session.authed = true)
    {left : FrameBuffer} (popped : session.fb.tryPopFrame = (some view, left))
    (business : headerFieldHost view.header WireHeader.flag ≠ kFlagSys) :
    ∃ post events, reactorStep cfg i .run pl = some (post, events) ∧
      (post.reactor i).stack = .pushInbound k (inbound i session view) 0 :: .popLoop k :: rest := by
  simp [reactorStep, top, stepPop, found, popped, business, enqueueInbound, authed, inbound,
    PlaneState.setStack, PlaneState.setReactor]

theorem forall₂_delivers {payload : Bytes} (fits : payload.length < 2 ^ 32) (type : UInt32)
    (dests : List Destination) :
    List.Forall₂ (Delivers type payload) dests (dests.map (bridgeFrame type payload)) := by
  induction dests with
  | nil => exact .nil
  | cons dest others ih => exact .cons (bridgeFrame_delivers fits type dest) ih

/-- A business frame that is popped from an authenticated session reaches the peer's queue
as one frame for each destination, with its type and payload, and the IM header of a packed
payload names its destination. -/
theorem bridge_translates_frames (top : (pl.reactor i).stack = .popLoop k :: rest)
    (found : (pl.reactor i).sessions k = some session) (authed : session.authed = true)
    (buffered : session.fb = ⟨w⟩)
    (popped : FrameBuffer.tryPopFrame ⟨w⟩ = (some view, .empty))
    (business : headerFieldHost view.header WireHeader.flag ≠ kFlagSys) :
    let type := headerFieldHost view.header WireHeader.type
    (∃ msg post events, reactorStep cfg i .run pl = some (post, events) ∧
        (post.reactor i).stack = .pushInbound k msg 0 :: .popLoop k :: rest ∧
        ∀ p v h, h.sound = true → v < cfg.workers → (h.plane p).worker v = .handle msg →
          (h.plane p.peer).distQueue.length +
              (destinations (h.plane p.peer).router type view.payload p).length ≤
            cfg.queueCapacity →
          ∃ after frames, WorksTo cfg p v h after ∧ (after.plane p).worker v = .pop ∧
            (after.plane p.peer).distQueue.map Tagged.val =
              (h.plane p.peer).distQueue.map Tagged.val ++ frames ∧
            List.Forall₂ (Delivers type view.payload)
              (destinations (h.plane p.peer).router type view.payload p) frames) ∧
      ∀ cmd sid nid seq body, body.length + 52 < 2 ^ 32 →
        52 ≤ (Im.packPayload cmd sid nid seq body).length ∧
        destinationWord (Im.packPayload cmd sid nid seq body) = nid ∧
        Im.readSeq (Im.packPayload cmd sid nid seq body) = seq ∧
        (Im.packPayload cmd sid nid seq body).drop 52 = body := by
  intro type
  constructor
  · obtain ⟨post, events, step, stack⟩ :=
      reactorStep_business top found authed (buffered ▸ popped) business
    refine ⟨_, post, events, step, stack, ?_⟩
    intro p v h sound inside handles room
    have works : Works cfg p v (h.plane p.peer).router h (.handle (inbound i session view))
        (h.plane p.peer).distQueue := ⟨sound, inside, handles, rfl, rfl⟩
    obtain ⟨after, reached, done⟩ := works.handle room
    have fits : view.payload.length < 2 ^ 32 := by
      rw [(FrameBuffer.tryPopFrame_some popped).2.1]
      exact UInt32.toNat_lt _
    refine ⟨after, _, reached, done.worker, ?_, forall₂_delivers fits type _⟩
    rw [done.queue, List.map_append, List.map_map]
    rfl
  · intro cmd sid nid seq body _
    have size := Im.packPayload_length cmd sid nid seq body
    have long : 52 ≤ (Im.packPayload cmd sid nid seq body).length := by
      rw [size, Im.kHeaderSize]
      omega
    obtain ⟨dest, read, tail⟩ := Im.packPayload_reads cmd sid nid seq body
    rw [readDestNid_eq_word, if_pos long] at dest
    exact ⟨long, dest, read, tail⟩

def downlinkFrame : Frame := ⟨9, 2, kFlagExp, Im.packPayload 9 0 1 7 [], by decide⟩

def downlinkSession : Session :=
  { Session.fresh with sid := 1, authed := true, fb := ⟨downlinkFrame.encode⟩ }

def downlinkHandled (msg : Tagged InboundMessage) : HubServer where
  plane
    | .kForward =>
        { PlaneState.init (smallWakeFd .kForward) with router := Router.empty.bindNid 1 1 0 }
    | .kBackend => { PlaneState.init (smallWakeFd .kBackend) with worker := fun _ => .handle msg }
  round := 0

theorem bridge_translates_frames_downlink :
    ∃ msg after frames, WorksTo (smallConfig 4) .kBackend 0 (downlinkHandled msg) after ∧
      (after.plane .kForward).distQueue.map Tagged.val = frames ∧
      List.Forall₂ (Delivers 9 downlinkFrame.payload) [⟨1, 0, 1⟩] frames := by
  have popped := tryPopFrame_encode downlinkFrame []
  rw [List.append_nil] at popped
  have flag : headerFieldHost downlinkFrame.view.header WireHeader.flag ≠ kFlagSys := by decide
  have type : headerFieldHost downlinkFrame.view.header WireHeader.type = 9 := by decide
  have dests : destinations (Router.empty.bindNid 1 1 0) 9 downlinkFrame.payload .kBackend =
      [⟨1, 0, 1⟩] := by
    decide +kernel
  obtain ⟨⟨msg, _, _, _, _, handled⟩, _⟩ := @bridge_translates_frames (smallConfig 4)
    (popping downlinkSession) 0 1 downlinkSession [] downlinkFrame.encode _ rfl rfl rfl rfl popped flag
  have room : 0 + (destinations (Router.empty.bindNid 1 1 0) 9 downlinkFrame.payload
      .kBackend).length ≤ 4 := by
    rw [dests]
    decide
  have pushes := handled .kBackend 0 (downlinkHandled msg) rfl (by decide) rfl
  simp only [type] at pushes
  obtain ⟨after, frames, works, _, queue, delivers⟩ := pushes room
  exact ⟨msg, after, frames, works, queue, dests ▸ delivers⟩

end Translation

end HiImCore.Hub
