import HiImCore.Hub.Reactor

/-! The listener, the workers with the bridge handlers they run, and the distributor
(`src/hub/listener.cpp`, `src/hub/worker.cpp`, `src/hub/bridge.cpp`,
`src/hub/context_impl.cpp`, `src/hub/distributor.cpp`). -/

namespace HiImCore.Hub

open Wire

/-- `n % reactor_count` for the value `n` taken from the shared round-robin counter. -/
def pickReactor (cfg : HubConfig) (n : UInt64) : Int := (n.toNat % cfg.reactors : Nat)

/-- The loop of `Listener::Run` begins a round or ends. -/
def PlaneState.again (pl : PlaneState) : Listener := if pl.running then .accept else .stopped

/-- `accept` returned `fd`, whatever `Stop` has done since the round began. A descriptor that cannot
be made non-blocking is closed at once. `NextSid` is called by no other thread of the plane, so the
session id is taken here. -/
def acceptStep (fd : Int) (nonBlocking : Bool) (pl : PlaneState) :
    Option (PlaneState × List Event) :=
  match pl.listener with
  | .accept =>
      if nonBlocking then
        let conn : NewConnection := ⟨fd, pl.nextSid⟩
        some
          ({ pl with
              listener := .pick conn
              nextSid := pl.nextSid + 1
              sockets := Function.update pl.sockets fd (some conn.sid) },
            [.accepted fd conn.sid])
      -- `close` and `continue`
      else some ({ pl with listener := pl.again }, [])
  | _ => none

/-- Whether the next step of the listener is the `fetch_add` of `PickReactor`. -/
def Listener.counts : Listener → Bool
  | .pick _ => true
  | _ => false

/-- `Listener::Run` apart from an `accept` that succeeds. -/
def listenerStep (cfg : HubConfig) (round : UInt64) (pl : PlaneState) :
    Option (PlaneState × List Event) :=
  match pl.listener with
  | .stopped => none
  -- `accept` failed
  | .accept => some ({ pl with listener := pl.again }, [])
  | .pick conn =>
      some ({ pl with listener := .push (pickReactor cfg round) conn }, [.picked conn])
  | .push idx conn =>
      match queueIndex cfg.reactors idx with
      | none => some ({ pl with fault := true }, [.outOfRange])
      | some i =>
          match push cfg.queueCapacity (pl.connQueue i) conn with
          | none =>
              some
                ({ pl with
                    listener := pl.again
                    sockets := Function.update pl.sockets conn.fd none },
                  [.refused conn.fd conn.sid])
          | some queue =>
              some
                ({ pl with
                    listener := .notify i
                    connQueue := Function.update pl.connQueue i queue },
                  [.queued i conn])
  | .notify i =>
      some
        ({ pl with
            listener := pl.again
            wakeReadable := Function.update pl.wakeReadable i true }, [])

inductive MessageHandler where
  | forwardUplink
  | backendDownlink
  deriving DecidableEq, Repr

/-- The table after `RegisterBridgeHandlers`: one default handler, under key zero. -/
def handlers : Plane → UInt32 → Option MessageHandler
  | .kForward, cmd => if cmd = 0 then some .forwardUplink else none
  | .kBackend, cmd => if cmd = 0 then some .backendDownlink else none

def findHandler (p : Plane) (cmd : UInt32) : Option MessageHandler := handlers p cmd

/-- The handler `Worker::Run` calls for a message type. -/
def chooseHandler (p : Plane) (type : UInt32) : Option MessageHandler :=
  match findHandler p type with
  | some handler => some handler
  | none => findHandler p 0

/-- The frame `Publish` builds for one subscriber. -/
def publishFrame (cmd : UInt32) (data : Bytes) (sub : Subscriber) : OutboundFrame :=
  ⟨sub.sid, sub.reactorIdx, encodeFrame cmd sub.nid kFlagExp data⟩

/-- The frame `AsyncSend` builds for the route it found. -/
def unicastFrame (cmd destNid : UInt32) (data : Bytes) (route : NidRoute) : OutboundFrame :=
  ⟨route.sid, route.reactorIdx, encodeFrame cmd destNid kFlagExp data⟩

/-- A worker's step: its next state, what is left of its queue with the events on its
own plane, and the peer's distribution queue with the events there. -/
structure WorkerStep where
  worker : Worker
  recvQueue : List (Tagged InboundMessage)
  own : List Event
  distQueue : List (Tagged OutboundFrame)
  peer : List Event

/-- The rest of `Publish` after its snapshot, from the next subscriber on. -/
def publishNext (msg : Tagged InboundMessage) : List Subscriber → Worker × List Event
  | [] => (.pop, [.returned msg.origin .ok])
  | sub :: rest =>
      (.push msg ⟨publishFrame msg.val.type msg.val.payload sub, msg.origin⟩ 0 (some rest), [])

/-- `ForwardUplinkHandler` up to the snapshot of `Publish` on the peer. -/
def forwardUplinkHandler (msg : Tagged InboundMessage) (peer : PlaneState) :
    Worker × List Event :=
  let subs := peer.router.findSubscribers msg.val.type
  let snapshot := Event.expanded msg.origin msg.val.type subs
  if subs.isEmpty then
    (.pop, [snapshot, .returned msg.origin (.error .kNotFound "no subscribers")])
  else
    let next := publishNext msg subs
    (next.1, snapshot :: next.2)

/-- `BackendDownlinkHandler` up to the route lookup of `AsyncSend` on the peer. -/
def backendDownlinkHandler (msg : Tagged InboundMessage) (peer : PlaneState) :
    Worker × List Event :=
  let destNid := Im.readDestNid msg.val.payload
  if destNid = 0 then (.pop, [])
  else
    let route := peer.router.findNidRoute destNid
    let lookup := Event.resolved msg.origin destNid route
    match route with
    | none => (.pop, [lookup, .returned msg.origin (.error .kNotFound "nid not connected")])
    | some route =>
        (.push msg ⟨unicastFrame msg.val.type destNid msg.val.payload route, msg.origin⟩ 0 none,
          [lookup])

def workerStep (cfg : HubConfig) (p : Plane) (w : Nat) (own peer : PlaneState) :
    Option WorkerStep :=
  let queue := own.recvQueue w
  match own.worker w with
  | .stopped => none
  | .pop =>
      match pop queue with
      -- `Running` is read only where the queue was found empty
      | none => some ⟨if own.running then .pop else .stopped, queue, [], peer.distQueue, []⟩
      | some (msg, left) => some ⟨.handle msg, left, [.recvPopped w msg], peer.distQueue, []⟩
  | .handle msg =>
      match chooseHandler p msg.val.type with
      | none => some ⟨.pop, queue, [], peer.distQueue, []⟩
      | some .forwardUplink =>
          let next := forwardUplinkHandler msg peer
          some ⟨next.1, queue, [], peer.distQueue, next.2⟩
      | some .backendDownlink =>
          let next := backendDownlinkHandler msg peer
          some ⟨next.1, queue, [], peer.distQueue, next.2⟩
  | .push msg out attempt rest =>
      match pushAttempt kMaxRetries cfg.queueCapacity peer.distQueue out attempt with
      | .pushed dist =>
          match rest with
          -- without a snapshot this is the one push of `AsyncSend`
          | none => some ⟨.pop, queue, [], dist, [.distPushed out, .returned msg.origin .ok]⟩
          | some subs =>
              let next := publishNext msg subs
              some ⟨next.1, queue, [], dist, .distPushed out :: next.2⟩
      | .retry left next => some ⟨.push msg left next rest, queue, [], peer.distQueue, []⟩
      | .gaveUp =>
          some ⟨.pop, queue, [], peer.distQueue,
            [.returned msg.origin (.error .kQueueFull "")]⟩

def distributorStep (cfg : HubConfig) (pl : PlaneState) : Option (PlaneState × List Event) :=
  match pl.distributor with
  | .stopped => none
  | .pop =>
      match pop pl.distQueue with
      | none => some ({ pl with distributor := if pl.running then .pop else .stopped }, [])
      | some (frame, left) =>
          some ({ pl with distributor := .route frame 0, distQueue := left }, [.distPopped frame])
  | .route frame attempt =>
      -- no reactor: the frame is dropped
      if frame.val.reactorIdx < 0 then some ({ pl with distributor := .pop }, [])
      else
        match queueIndex cfg.reactors frame.val.reactorIdx with
        | none => some ({ pl with fault := true }, [.outOfRange])
        | some i =>
            match pushAttempt kMaxRetries cfg.queueCapacity (pl.sendQueue i) frame attempt with
            | .pushed queue =>
                some
                  ({ pl with
                      distributor := .notify i
                      sendQueue := Function.update pl.sendQueue i queue },
                    [.sendPushed i frame])
            | .retry left next => some ({ pl with distributor := .route left next }, [])
            | .gaveUp => some ({ pl with distributor := .pop }, [])
  | .notify i =>
      some
        ({ pl with
            distributor := .pop
            wakeReadable := Function.update pl.wakeReadable i true }, [])

end HiImCore.Hub
