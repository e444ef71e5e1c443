import HiImCore.Hub.Context

/-! The reactor thread (`src/hub/reactor.cpp`, Linux branch) as a step function over
its control stack. Sessions belong to one thread, so a step runs from one access to
shared state, or one system call, to the next. A reference to a session is followed
by looking its key up again at every access; where the key is gone the access is
undefined behaviour and the run ends with a fault. A poll reports any list of entries:
those of `epoll_wait` may carry both flags, those of `kevent` in the other branch carry
one flag each and can name a descriptor twice. -/

namespace HiImCore.Hub

open Wire

inductive RecvResult where
  | data (bytes : Bytes)
  | wouldBlock
  | endOfStream
  | failed
  deriving DecidableEq, Repr

inductive SendResult where
  | sent (count : Nat)
  | wouldBlock
  | failed
  deriving DecidableEq, Repr

/-- What the outside decides in a reactor step: the result of a system call, or the
next key of the iteration over the session map at shutdown. -/
inductive ReactorInput where
  | run
  | poll (batch : List PollEvent)
  | recv (result : RecvResult)
  | send (result : SendResult)
  | next (sid : Nat)
  deriving DecidableEq, Repr

def kRecvSize : Nat := 65536

namespace PlaneState

def setReactor (pl : PlaneState) (i : Nat) (r : Reactor) : PlaneState :=
  { pl with reactor := Function.update pl.reactor i r }

def setStack (pl : PlaneState) (i : Nat) (stack : List Task) : PlaneState :=
  pl.setReactor i { pl.reactor i with stack := stack }

def setSession (pl : PlaneState) (i sid : Nat) (session : Session) : PlaneState :=
  pl.setReactor i
    { pl.reactor i with
      sessions := Function.update (pl.reactor i).sessions sid (some session) }

/-- `sessions_[sid]`: a missing key is inserted with a default session. -/
def subscript (pl : PlaneState) (i sid : Nat) : PlaneState :=
  match (pl.reactor i).sessions sid with
  | some _ => pl
  | none => pl.setSession i sid .fresh

/-- `EPOLL_CTL_MOD`, which fails for a descriptor that is not registered. -/
def updateInterest (pl : PlaneState) (i : Nat) (fd : Int) (wantRead wantWrite : Bool) :
    PlaneState :=
  match (pl.reactor i).interest fd with
  | none => pl
  | some _ =>
      pl.setReactor i
        { pl.reactor i with
          interest := Function.update (pl.reactor i).interest fd (some ⟨wantRead, wantWrite⟩) }

end PlaneState

/-- The result of a call made by the reactor: the new state, the calls still to be
made before it returns, and its events. -/
structure Effect where
  state : PlaneState
  calls : List Task
  events : List Event

def credentialsMatch (cfg : HubConfig) (auth : AuthPayload) : Bool :=
  fieldText auth.user == cfg.authUser && fieldText auth.passwd == cfg.authPass

def pickWorker (cfg : HubConfig) (sid : Nat) : Int := (sid % cfg.workers : Nat)

def closeSession (i sid : Nat) (pl : PlaneState) : Effect :=
  match (pl.reactor i).sessions sid with
  -- a session that is gone already is not closed again
  | none => ⟨pl, [], []⟩
  | some session =>
      let r := pl.reactor i
      let router :=
        if session.authed then pl.router.removeSession session.sid session.nid else pl.router
      ⟨{ pl with
          router := router
          sockets := Function.update pl.sockets session.fd none
          reactor := Function.update pl.reactor i
            { r with
              fdToSid := Function.update r.fdToSid session.fd none
              interest := Function.update r.interest session.fd none
              sessions := Function.update r.sessions sid none } },
        [], [.closed i sid]⟩

def sendBytes (i sid : Nat) (session : Session) (data : Bytes) (pl : PlaneState) : Effect :=
  if data.isEmpty then ⟨pl, [], []⟩
  else
    let pl := pl.setSession i sid { session with outbuf := session.outbuf ++ data }
    ⟨pl.updateInterest i session.fd true true, [.handleWritable session.fd],
      [.appended i sid data]⟩

/-- The empty system frame that answers a request. -/
def ackFrame (cmd : SysCmd) (nid : UInt32) : Bytes := encodeFrame cmd.code nid kFlagSys []

/-- The command in the first four payload bytes of `SUB_REQ` and `UNSUB_REQ`. -/
def requestedCmd (frame : FrameView) : UInt32 := beToHost32 (word32At frame.payload 0)

/-- `HandleSystem` up to the writes of its answer; the Boolean is its return value. -/
def handleSystem (cfg : HubConfig) (i sid : Nat) (session : Session) (frame : FrameView)
    (pl : PlaneState) : Effect × Bool :=
  let type := headerFieldHost frame.header WireHeader.type
  match SysCmd.ofCode type with
  | some .kAuthReq =>
      match decodeAuthPayload frame.payload with
      | none => (closeSession i session.sid pl, false)
      | some auth =>
          if credentialsMatch cfg auth then
            let session :=
              { session with
                authed := true, gid := beToHost32 auth.gid, nid := beToHost32 auth.nid }
            let pl := pl.setSession i sid session
            let pl := { pl with router := pl.router.bindNid session.nid session.sid i }
            let out := sendBytes i sid session (ackFrame .kAuthAck session.nid) pl
            ({ out with events := .bound i session.sid session.gid session.nid :: out.events },
              true)
          else (closeSession i session.sid pl, false)
  | some .kSubReq =>
      if session.authed = false ∨ frame.payload.length < 4 then
        (closeSession i session.sid pl, false)
      else
        let cmd := requestedCmd frame
        let sub : Subscriber := ⟨session.gid, session.sid, session.nid, i⟩
        let pl := { pl with router := (pl.router.subscribe cmd sub).2 }
        let out := sendBytes i sid session (ackFrame .kSubAck session.nid) pl
        ({ out with events := .subscribed cmd sub :: out.events }, true)
  | some .kUnsubReq =>
      -- unlike `SUB_REQ`, a request that is refused here leaves the session open
      if session.authed = false ∨ frame.payload.length < 4 then (⟨pl, [], []⟩, false)
      else
        let cmd := requestedCmd frame
        let pl := { pl with router := (pl.router.unsubscribe cmd session.sid).2 }
        let out := sendBytes i sid session (ackFrame .kUnsubAck session.nid) pl
        ({ out with events := .unsubscribed cmd session.sid :: out.events }, true)
  | some .kKpaliveReq => (sendBytes i sid session (ackFrame .kKpaliveAck session.nid) pl, true)
  -- acknowledgements and unknown types are passed over
  | _ => (⟨pl, [], []⟩, true)

/-- `EnqueueInbound` up to the first attempt of its push. -/
def enqueueInbound (i sid : Nat) (session : Session) (frame : FrameView) (pl : PlaneState) :
    Effect :=
  if session.authed = false then closeSession i session.sid pl
  else
    let msg : InboundMessage :=
      { sid := session.sid
        reactorIdx := i
        gid := session.gid
        nid := session.nid
        type := headerFieldHost frame.header WireHeader.type
        flag := headerFieldHost frame.header WireHeader.flag
        payload := frame.payload }
    let origin : Origin := ⟨session.sid, session.popped, frame⟩
    ⟨pl.setSession i sid { session with popped := session.popped + 1 },
      [.pushInbound sid ⟨msg, origin⟩ 0], [.received i origin]⟩

/-- The registration of one new connection. `emplace` keeps an existing session. -/
def registerConnection (i : Nat) (conn : NewConnection) (pl : PlaneState) : PlaneState :=
  let r := pl.reactor i
  let session := { Session.fresh with sid := conn.sid, fd := conn.fd }
  let s := (r.sessions conn.sid).getD session
  pl.setReactor i
    { r with
      fdToSid := Function.update r.fdToSid conn.fd (some conn.sid)
      sessions := Function.update r.sessions conn.sid (some s)
      interest := Function.update r.interest s.fd (some ⟨true, false⟩) }

def dangle (i sid : Nat) (pl : PlaneState) : PlaneState × List Event :=
  -- the loop still holds a reference to a session that was erased under it
  ({ pl with fault := true }, [.dangling i sid])

section Steps

variable (cfg : HubConfig) (i : Nat) (input : ReactorInput) (pl : PlaneState) (rest : List Task)

def stepPoll : Option (PlaneState × List Event) :=
  match pl.running, input with
  | true, .poll batch => some (pl.setStack i (.events batch :: .drainSendQueue :: .poll :: rest), [])
  | false, .run => some (pl.setStack i (.closeAll :: rest), [])
  | _, _ => none

def stepEvents (batch : List PollEvent) : Option (PlaneState × List Event) :=
  match batch, input with
  | [], .run => some (pl.setStack i rest, [])
  | event :: later, .run =>
      -- both handlers run for one event, the second whatever became of the session in the first
      let reading := if event.readable then [Task.handleReadable event.fd] else []
      let writing := if event.writable then [Task.handleWritable event.fd] else []
      some (pl.setStack i (reading ++ writing ++ .events later :: rest), [])
  | _, _ => none

def stepReadable (fd : Int) : Option (PlaneState × List Event) :=
  match input with
  | .run =>
      if fd = pl.wakeFd i then
        -- `Drain` comes before both queues, so that what is pushed later wakes the reactor again
        let drained := { pl with wakeReadable := Function.update pl.wakeReadable i false }
        some (drained.setStack i (.drainNewConnections :: .drainSendQueue :: rest), [])
      else
        match (pl.reactor i).fdToSid fd with
        | none => some (pl.setStack i rest, [])
        | some sid => some ((pl.subscript i sid).setStack i (.recvLoop sid :: rest), [])
  | _ => none

def stepRecv (sid : Nat) : Option (PlaneState × List Event) :=
  match (pl.reactor i).sessions sid, input with
  | none, _ => some (dangle i sid pl)
  | some session, .recv (.data bytes) =>
      if 0 < bytes.length ∧ bytes.length ≤ kRecvSize then
        let session := { session with fb := session.fb.append bytes }
        some ((pl.setSession i sid session).setStack i (.popLoop sid :: rest), [])
      else none
  | some _, .recv .wouldBlock => some (pl.setStack i rest, [])
  | some session, .recv .endOfStream | some session, .recv .failed =>
      let out := closeSession i session.sid pl
      some (out.state.setStack i (out.calls ++ rest), out.events)
  | _, _ => none

def stepPop (sid : Nat) : Option (PlaneState × List Event) :=
  match (pl.reactor i).sessions sid, input with
  | none, _ => some (dangle i sid pl)
  | some session, .run =>
      match session.fb.tryPopFrame with
      | (none, left) =>
          let session := { session with fb := left }
          some ((pl.setSession i sid session).setStack i (.recvLoop sid :: rest), [])
      | (some frame, left) =>
          let session := { session with fb := left }
          let pl := pl.setSession i sid session
          if headerFieldHost frame.header WireHeader.flag = kFlagSys then
            let (out, ok) := handleSystem cfg i sid session frame pl
            -- where it is false, `HandleReadable` returns without another `recv`
            let after := if ok then .popLoop sid :: rest else rest
            some (out.state.setStack i (out.calls ++ after), .system sid frame :: out.events)
          else
            let out := enqueueInbound i sid session frame pl
            some (out.state.setStack i (out.calls ++ .popLoop sid :: rest), out.events)
  | _, _ => none

def stepPush (sid : Nat) (msg : Tagged InboundMessage) (attempt : Nat) :
    Option (PlaneState × List Event) :=
  match queueIndex cfg.workers (pickWorker cfg msg.val.sid), input with
  | none, _ => some ({ pl with fault := true }, [.outOfRange])
  | some w, .run =>
      match pushAttempt kMaxRetries cfg.queueCapacity (pl.recvQueue w) msg attempt with
      | .pushed queue =>
          let pl := { pl with recvQueue := Function.update pl.recvQueue w queue }
          some (pl.setStack i rest, [.recvPushed w msg])
      | .retry left next => some (pl.setStack i (.pushInbound sid left next :: rest), [])
      | .gaveUp =>
          -- the line in the log reads the session
          match (pl.reactor i).sessions sid with
          | none => some (dangle i sid pl)
          | some _ => some (pl.setStack i rest, [])
  | _, _ => none

def stepWritable (fd : Int) : Option (PlaneState × List Event) :=
  match input with
  | .run =>
      match (pl.reactor i).fdToSid fd with
      | none => some (pl.setStack i rest, [])
      | some sid => some ((pl.subscript i sid).setStack i (.writeLoop sid :: rest), [])
  | _ => none

def stepWrite (sid : Nat) : Option (PlaneState × List Event) :=
  match (pl.reactor i).sessions sid with
  | none => some (dangle i sid pl)
  | some session =>
      if session.outbuf.isEmpty then
        match input with
        | .run => some ((pl.updateInterest i session.fd true false).setStack i rest, [])
        | _ => none
      else
        match input with
        | .send (.sent (count + 1)) =>
            if count + 1 ≤ session.outbuf.length then
              let left := { session with outbuf := session.outbuf.drop (count + 1) }
              some ((pl.setSession i sid left).setStack i (.writeLoop sid :: rest),
                [.wrote i sid (session.outbuf.take (count + 1))])
            else none
        | .send .wouldBlock =>
            some ((pl.updateInterest i session.fd true true).setStack i rest, [])
        | .send (.sent 0) | .send .failed =>
            let out := closeSession i session.sid pl
            some (out.state.setStack i (out.calls ++ rest), out.events)
        | _ => none

def stepDrainNew : Option (PlaneState × List Event) :=
  match pop (pl.connQueue i), input with
  | none, .run => some (pl.setStack i rest, [])
  | some (conn, left), .run =>
      let pl := { pl with connQueue := Function.update pl.connQueue i left }
      some ((registerConnection i conn pl).setStack i (.drainNewConnections :: rest),
        [.registered i conn])
  | _, _ => none

def stepDrainSend : Option (PlaneState × List Event) :=
  match pop (pl.sendQueue i), input with
  | none, .run => some (pl.setStack i rest, [])
  | some (item, left), .run =>
      let pl := { pl with sendQueue := Function.update pl.sendQueue i left }
      match (pl.reactor i).sessions item.val.sid with
      | none =>
          -- a frame for a session that is gone is dropped
          some (pl.setStack i (.drainSendQueue :: rest), [.sendPopped i item false])
      | some session =>
          let out := sendBytes i item.val.sid session item.val.bytes pl
          some (out.state.setStack i (out.calls ++ .drainSendQueue :: rest),
            .sendPopped i item true :: out.events)
  | _, _ => none

def stepCloseAll : Option (PlaneState × List Event) :=
  match input with
  -- an unordered map is walked in any order
  | .next sid =>
      let out := closeSession i sid pl
      some (out.state.setStack i (out.calls ++ .closeAll :: rest), out.events)
  | _ => none

end Steps

def reactorStep (cfg : HubConfig) (i : Nat) (input : ReactorInput) (pl : PlaneState) :
    Option (PlaneState × List Event) :=
  match (pl.reactor i).stack with
  | [] => none
  | .poll :: rest => stepPoll i input pl rest
  | .events batch :: rest => stepEvents i input pl rest batch
  | .drainNewConnections :: rest => stepDrainNew i input pl rest
  | .drainSendQueue :: rest => stepDrainSend i input pl rest
  | .handleReadable fd :: rest => stepReadable i input pl rest fd
  | .recvLoop sid :: rest => stepRecv i input pl rest sid
  | .popLoop sid :: rest => stepPop cfg i input pl rest sid
  | .pushInbound sid msg attempt :: rest => stepPush cfg i input pl rest sid msg attempt
  | .handleWritable fd :: rest => stepWritable i input pl rest fd
  | .writeLoop sid :: rest => stepWrite i input pl rest sid
  | .closeAll :: rest => stepCloseAll i input pl rest

end HiImCore.Hub
