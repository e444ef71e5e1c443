import HiImCore.Hub.Core
import HiImCore.Hub.System

/-! What the steps of a plane's threads do to the messages and frames in transit. -/

namespace HiImCore.Hub

open Wire

def Task.inHand : Task → Option (Tagged InboundMessage × Nat)
  | .pushInbound _ msg attempt => some (msg, attempt)
  | _ => none

/-- The messages and frames of one plane, wherever they are. -/
structure Traffic where
  hand : Nat → List (Tagged InboundMessage × Nat)
  recvQueue : Nat → List (Tagged InboundMessage)
  worker : Nat → Worker
  distQueue : List (Tagged OutboundFrame)
  distributor : Distributor
  sendQueue : Nat → List (Tagged OutboundFrame)

def PlaneState.traffic (pl : PlaneState) : Traffic where
  hand := fun i => (pl.reactor i).stack.filterMap Task.inHand
  recvQueue := pl.recvQueue
  worker := pl.worker
  distQueue := pl.distQueue
  distributor := pl.distributor
  sendQueue := pl.sendQueue

def Reactor.Shaped (r : Reactor) : Prop := ∀ task ∈ r.stack.tail, task.inHand = none

structure Kept (pl post : PlaneState) : Prop where
  stack : ∀ j, (post.reactor j).stack = (pl.reactor j).stack
  recvQueue : post.recvQueue = pl.recvQueue
  worker : post.worker = pl.worker
  distQueue : post.distQueue = pl.distQueue
  distributor : post.distributor = pl.distributor
  sendQueue : post.sendQueue = pl.sendQueue

namespace Kept

variable {pl mid post : PlaneState} {i k : Nat}

theorem refl (pl : PlaneState) : Kept pl pl := ⟨fun _ => rfl, rfl, rfl, rfl, rfl, rfl⟩

theorem trans (first : Kept pl mid) (second : Kept mid post) : Kept pl post where
  stack := fun j => (second.stack j).trans (first.stack j)
  recvQueue := second.recvQueue.trans first.recvQueue
  worker := second.worker.trans first.worker
  distQueue := second.distQueue.trans first.distQueue
  distributor := second.distributor.trans first.distributor
  sendQueue := second.sendQueue.trans first.sendQueue

theorem traffic (kept : Kept pl post) : post.traffic = pl.traffic := by
  simp only [PlaneState.traffic, kept.stack, kept.recvQueue, kept.worker, kept.distQueue,
    kept.distributor, kept.sendQueue]

theorem setReactor {r : Reactor} (same : r.stack = (pl.reactor i).stack) :
    Kept pl (pl.setReactor i r) := by
  refine ⟨?_, rfl, rfl, rfl, rfl, rfl⟩
  intro j
  simp only [PlaneState.setReactor, Function.update_apply]
  split
  · rename_i here
    rw [same, here]
  · rfl

theorem setSession (session : Session) : Kept pl (pl.setSession i k session) := setReactor rfl

theorem updateInterest (fd : Int) (wantRead wantWrite : Bool) :
    Kept pl (pl.updateInterest i fd wantRead wantWrite) := by
  unfold PlaneState.updateInterest
  split
  · exact refl pl
  · exact setReactor rfl

theorem subscript : Kept pl (pl.subscript i k) := by
  unfold PlaneState.subscript
  split
  · exact refl pl
  · exact setSession _

theorem registerConnection (conn : NewConnection) : Kept pl (registerConnection i conn pl) :=
  setReactor rfl

theorem closeSession : Kept pl (closeSession i k pl).state := by
  unfold Hub.closeSession
  split
  · exact refl pl
  · refine ⟨?_, rfl, rfl, rfl, rfl, rfl⟩
    intro j
    simp only [Function.update_apply]
    split
    · rename_i here
      rw [here]
    · rfl

theorem sendBytes (session : Session) (data : Bytes) :
    Kept pl (sendBytes i k session data pl).state := by
  unfold Hub.sendBytes
  split
  · exact refl pl
  · exact (setSession _).trans (updateInterest ..)

theorem handleSystem (cfg : HubConfig) (session : Session) (frame : FrameView) :
    Kept pl (handleSystem cfg i k session frame pl).1.state := by
  have router : ∀ (pl : PlaneState) r, Kept pl { pl with router := r } :=
    fun pl r => ⟨fun _ => rfl, rfl, rfl, rfl, rfl, rfl⟩
  unfold Hub.handleSystem
  dsimp only
  split
  · split
    · exact closeSession
    · split
      · exact ((setSession _).trans (router _ _)).trans (sendBytes ..)
      · exact closeSession
  · split
    · exact closeSession
    · exact (router _ _).trans (sendBytes ..)
  · split
    · exact refl pl
    · exact (router _ _).trans (sendBytes ..)
  · exact sendBytes ..
  · exact refl pl

end Kept

def inbound (i : Nat) (session : Session) (frame : FrameView) : Tagged InboundMessage :=
  ⟨⟨session.sid, i, session.gid, session.nid, headerFieldHost frame.header WireHeader.type,
      headerFieldHost frame.header WireHeader.flag, frame.payload⟩,
    ⟨session.sid, session.popped, frame⟩⟩

structure Pops (pl : PlaneState) (i k : Nat) (session : Session) (frame : FrameView)
    (left : FrameBuffer) : Prop where
  top : (pl.reactor i).stack.head? = some (.popLoop k)
  found : (pl.reactor i).sessions k = some session
  popped : session.fb.tryPopFrame = (some frame, left)

section Effects

variable (cfg : HubConfig) (i : Nat) (pl : PlaneState)

/-- The frame is an `AUTH_REQ` that is accepted with this payload. -/
structure Accepted (frame : FrameView) (auth : AuthPayload) : Prop where
  type : SysCmd.ofCode (headerFieldHost frame.header WireHeader.type) = some .kAuthReq
  decoded : decodeAuthPayload frame.payload = some auth
  matching : credentialsMatch cfg auth = true

inductive Answer (k : Nat) (session : Session) (frame : FrameView) : List Event → Prop
  | nothing : Answer k session frame []
  | closed : Answer k session frame [.closed i session.sid]
  | authenticated {auth : AuthPayload} (accepted : Accepted cfg frame auth) :
      Answer k session frame
        [.bound i session.sid (beToHost32 auth.gid) (beToHost32 auth.nid),
          .appended i k (ackFrame .kAuthAck (beToHost32 auth.nid))]
  | subscribed (authed : session.authed = true) :
      Answer k session frame
        [.subscribed (requestedCmd frame) ⟨session.gid, session.sid, session.nid, i⟩,
          .appended i k (ackFrame .kSubAck session.nid)]
  | unsubscribed (authed : session.authed = true) :
      Answer k session frame
        [.unsubscribed (requestedCmd frame) session.sid,
          .appended i k (ackFrame .kUnsubAck session.nid)]
  | alive : Answer k session frame [.appended i k (ackFrame .kKpaliveAck session.nid)]

/-- What a step of reactor `i` records and does to the traffic of its plane. -/
inductive ReactorEffect : List Event → Traffic → Prop
  | quiet : ReactorEffect [] pl.traffic
  | dangling (k : Nat) : ReactorEffect [.dangling i k] pl.traffic
  | outOfRange : ReactorEffect [.outOfRange] pl.traffic
  | closed (k : Nat) : ReactorEffect [.closed i k] pl.traffic
  | registered (conn : NewConnection) : ReactorEffect [.registered i conn] pl.traffic
  | wrote (k : Nat) (data : Bytes) : ReactorEffect [.wrote i k data] pl.traffic
  | system {k : Nat} {session : Session} {frame : FrameView} {left : FrameBuffer}
      {answer : List Event} (pops : Pops pl i k session frame left)
      (flag : headerFieldHost frame.header WireHeader.flag = kFlagSys)
      (answered : Answer cfg i k { session with fb := left } frame answer) :
      ReactorEffect (.system k frame :: answer) pl.traffic
  | received {k : Nat} {session : Session} {frame : FrameView} {left : FrameBuffer}
      (pops : Pops pl i k session frame left)
      (flag : headerFieldHost frame.header WireHeader.flag ≠ kFlagSys)
      (authed : session.authed = true) (free : pl.traffic.hand i = []) :
      ReactorEffect [.received i (inbound i session frame).origin]
        { pl.traffic with
          hand := Function.update pl.traffic.hand i [(inbound i session frame, 0)] }
  | pushed {msg : Tagged InboundMessage} {attempt w : Nat}
      (held : pl.traffic.hand i = [(msg, attempt)])
      (index : queueIndex cfg.workers (pickWorker cfg msg.val.sid) = some w)
      (room : (pl.recvQueue w).length < cfg.queueCapacity) :
      ReactorEffect [.recvPushed w msg]
        { pl.traffic with
          hand := Function.update pl.traffic.hand i []
          recvQueue := Function.update pl.recvQueue w (pl.recvQueue w ++ [msg]) }
  | retried {msg : Tagged InboundMessage} {attempt : Nat}
      (held : pl.traffic.hand i = [(msg, attempt)]) :
      ReactorEffect []
        { pl.traffic with
          hand := Function.update pl.traffic.hand i [(movedFrom msg, attempt + 1)] }
  | gaveUp {msg : Tagged InboundMessage} {attempt : Nat}
      (held : pl.traffic.hand i = [(msg, attempt)]) :
      ReactorEffect [] { pl.traffic with hand := Function.update pl.traffic.hand i [] }
  | dropped {item : Tagged OutboundFrame} {left : List (Tagged OutboundFrame)}
      (front : pl.sendQueue i = item :: left)
      (absent : (pl.reactor i).sessions item.val.sid = none) :
      ReactorEffect [.sendPopped i item false]
        { pl.traffic with sendQueue := Function.update pl.sendQueue i left }
  | sent {item : Tagged OutboundFrame} {left : List (Tagged OutboundFrame)} {session : Session}
      (front : pl.sendQueue i = item :: left)
      (found : (pl.reactor i).sessions item.val.sid = some session) :
      ReactorEffect
        (.sendPopped i item true ::
          if item.val.bytes.isEmpty then [] else [.appended i item.val.sid item.val.bytes])
        { pl.traffic with sendQueue := Function.update pl.sendQueue i left }

end Effects

section Answers

variable {cfg : HubConfig} {i k : Nat} {pl : PlaneState} {session : Session} {frame : FrameView}

theorem sendBytes_ack (cmd : SysCmd) (nid : UInt32) :
    (sendBytes i k session (ackFrame cmd nid) pl).events = [.appended i k (ackFrame cmd nid)] := by
  rw [sendBytes_ackFrame]

theorem closeSession_answer (mid : PlaneState) :
    Answer cfg i k session frame (closeSession i session.sid mid).events := by
  unfold closeSession
  split
  · exact .nothing
  · exact .closed

theorem handleSystem_answer (pl : PlaneState) :
    Answer cfg i k session frame (handleSystem cfg i k session frame pl).1.events := by
  unfold handleSystem
  dsimp only
  split
  · rename_i type
    split
    · exact closeSession_answer pl
    · rename_i auth decoded
      split
      · rename_i matching
        dsimp only
        rw [sendBytes_ack]
        exact .authenticated ⟨type, decoded, matching⟩
      · exact closeSession_answer pl
  · split
    · exact closeSession_answer pl
    · rename_i accepted
      dsimp only
      rw [sendBytes_ack]
      exact .subscribed (authed_of_accepted accepted)
  · split
    · exact .nothing
    · rename_i accepted
      dsimp only
      rw [sendBytes_ack]
      exact .unsubscribed (authed_of_accepted accepted)
  · rw [sendBytes_ack]
    exact .alive
  · exact .nothing

end Answers

section Steps

variable {cfg : HubConfig} {i : Nat} {input : ReactorInput} {pl mid post : PlaneState}
  {task : Task} {rest : List Task} {events : List Event}

theorem hand_of_stack (top : (pl.reactor i).stack = task :: rest) :
    pl.traffic.hand i = task.inHand.toList ++ rest.filterMap Task.inHand := by
  have hand : pl.traffic.hand i = (task :: rest).filterMap Task.inHand := by
    rw [← top]
    rfl
  rw [hand]
  cases carried : task.inHand <;> simp [carried]

theorem traffic_setStack (kept : Kept pl mid) (stack : List Task) :
    (mid.setStack i stack).traffic =
      { pl.traffic with
        hand := Function.update pl.traffic.hand i (stack.filterMap Task.inHand) } := by
  have hands : (mid.setStack i stack).traffic.hand =
      Function.update pl.traffic.hand i (stack.filterMap Task.inHand) := by
    funext j
    simp only [PlaneState.traffic, PlaneState.setStack, PlaneState.setReactor,
      Function.update_apply]
    split
    · rfl
    · rw [kept.stack]
  rw [← hands]
  simp only [PlaneState.traffic, PlaneState.setStack, PlaneState.setReactor, kept.recvQueue,
    kept.worker, kept.distQueue, kept.distributor, kept.sendQueue]

theorem traffic_replaced (kept : Kept pl mid) (top : (pl.reactor i).stack = task :: rest)
    (empty : task.inHand = none) {calls : List Task} (free : ∀ c ∈ calls, c.inHand = none) :
    (mid.setStack i (calls ++ rest)).traffic = pl.traffic := by
  have none : calls.filterMap Task.inHand = [] := List.filterMap_eq_nil_iff.mpr free
  have hand := hand_of_stack top
  rw [empty, Option.toList_none, List.nil_append] at hand
  rw [traffic_setStack kept, List.filterMap_append, none, List.nil_append, ← hand,
    Function.update_eq_self]

theorem shaped_setStack (shaped : ∀ j, (pl.reactor j).Shaped) (kept : Kept pl mid)
    {stack : List Task} (clean : ∀ t ∈ stack.tail, t.inHand = none) :
    ∀ j, ((mid.setStack i stack).reactor j).Shaped := by
  intro j
  simp only [PlaneState.setStack, PlaneState.setReactor, Function.update_apply]
  split
  · exact clean
  · rw [Reactor.Shaped, kept.stack]
    exact shaped j

structure Moves (cfg : HubConfig) (i : Nat) (pl : PlaneState) (events : List Event)
    (post : PlaneState) : Prop where
  effect : ReactorEffect cfg i pl events post.traffic
  shaped : ∀ j, (post.reactor j).Shaped

theorem sendBytes_calls (k : Nat) (session : Session) (data : Bytes) :
    ∀ c ∈ (sendBytes i k session data pl).calls, c.inHand = none := by
  unfold sendBytes
  split <;> simp [Task.inHand]

theorem handleSystem_calls (k : Nat) (session : Session) (frame : FrameView) :
    ∀ c ∈ (handleSystem cfg i k session frame pl).1.calls, c.inHand = none := by
  have closing : ∀ pl : PlaneState, ∀ c ∈ (closeSession i session.sid pl).calls,
      c.inHand = none := by
    intro pl c member
    rw [closeSession_calls] at member
    cases member
  unfold handleSystem
  dsimp only
  split
  · split
    · exact closing pl
    · split
      · exact sendBytes_calls _ _ _
      · exact closing pl
  · split
    · exact closing pl
    · exact sendBytes_calls _ _ _
  · split
    · exact fun c member => by cases member
    · exact sendBytes_calls _ _ _
  · exact sendBytes_calls _ _ _
  · exact fun c member => by cases member

theorem closeSession_effect (k : Nat) :
    ReactorEffect cfg i pl (closeSession i k mid).events pl.traffic := by
  unfold closeSession
  split
  · exact .quiet
  · exact .closed k

variable (shaped : ∀ j, (pl.reactor j).Shaped)
include shaped

theorem clean_rest (top : (pl.reactor i).stack = task :: rest) : ∀ t ∈ rest, t.inHand = none := by
  have below := shaped i
  rw [Reactor.Shaped, top] at below
  exact below

theorem replaced_shaped (kept : Kept pl mid) (top : (pl.reactor i).stack = task :: rest)
    {calls : List Task} (free : ∀ c ∈ calls, c.inHand = none) :
    ∀ j, ((mid.setStack i (calls ++ rest)).reactor j).Shaped := by
  refine shaped_setStack shaped kept ?_
  intro t member
  rcases List.mem_append.mp (List.mem_of_mem_tail member) with call | below
  · exact free t call
  · exact clean_rest shaped top t below

theorem replaced_moves (kept : Kept pl mid) (top : (pl.reactor i).stack = task :: rest)
    (empty : task.inHand = none) (calls : List Task) (free : ∀ c ∈ calls, c.inHand = none)
    (effect : ReactorEffect cfg i pl events pl.traffic) :
    Moves cfg i pl events (mid.setStack i (calls ++ rest)) where
  effect := by rwa [traffic_replaced kept top empty free]
  shaped := replaced_shaped shaped kept top free

theorem dangle_moves (k : Nat) : Moves cfg i pl (dangle i k pl).2 (dangle i k pl).1 :=
  ⟨.dangling k, shaped⟩

theorem stepPoll_moves (top : (pl.reactor i).stack = .poll :: rest)
    (step : stepPoll i input pl rest = some (post, events)) : Moves cfg i pl events post := by
  unfold stepPoll at step
  split at step
  · rename_i batch _
    cases step
    exact replaced_moves shaped (.refl pl) top rfl [.events batch, .drainSendQueue, .poll]
      (by simp [Task.inHand]) .quiet
  · cases step
    exact replaced_moves shaped (.refl pl) top rfl [.closeAll] (by simp [Task.inHand]) .quiet
  · cases step

theorem stepEvents_moves {batch : List PollEvent}
    (top : (pl.reactor i).stack = .events batch :: rest)
    (step : stepEvents i input pl rest batch = some (post, events)) :
    Moves cfg i pl events post := by
  unfold stepEvents at step
  split at step
  · cases step
    exact replaced_moves shaped (.refl pl) top rfl [] (by simp) .quiet
  · rename_i event later
    cases step
    have calls : ∀ c ∈ (if event.readable then [Task.handleReadable event.fd] else []) ++
        (if event.writable then [Task.handleWritable event.fd] else []) ++ [.events later],
        c.inHand = none := by
      intro c member
      rcases List.mem_append.mp member with polled | last
      · rcases List.mem_append.mp polled with reading | writing
        · split at reading <;> simp_all [Task.inHand]
        · split at writing <;> simp_all [Task.inHand]
      · rw [List.mem_singleton.mp last]
        rfl
    have next : Moves cfg i pl [] _ :=
      replaced_moves shaped (.refl pl) top rfl _ calls .quiet
    rwa [List.append_assoc] at next
  · cases step

theorem stepReadable_moves {fd : Int} (top : (pl.reactor i).stack = .handleReadable fd :: rest)
    (step : stepReadable i input pl rest fd = some (post, events)) :
    Moves cfg i pl events post := by
  unfold stepReadable at step
  split at step
  · split at step
    · cases step
      have drained : Kept pl
          { pl with wakeReadable := Function.update pl.wakeReadable i false } :=
        ⟨fun _ => rfl, rfl, rfl, rfl, rfl, rfl⟩
      exact replaced_moves shaped drained top rfl [.drainNewConnections, .drainSendQueue]
        (by simp [Task.inHand]) .quiet
    · split at step
      · cases step
        exact replaced_moves shaped (.refl pl) top rfl [] (by simp) .quiet
      · rename_i k _
        cases step
        exact replaced_moves shaped .subscript top rfl [.recvLoop k] (by simp [Task.inHand]) .quiet
  · cases step

theorem stepWritable_moves {fd : Int} (top : (pl.reactor i).stack = .handleWritable fd :: rest)
    (step : stepWritable i input pl rest fd = some (post, events)) :
    Moves cfg i pl events post := by
  unfold stepWritable at step
  split at step
  · split at step
    · cases step
      exact replaced_moves shaped (.refl pl) top rfl [] (by simp) .quiet
    · rename_i k _
      cases step
      exact replaced_moves shaped .subscript top rfl [.writeLoop k] (by simp [Task.inHand]) .quiet
  · cases step

theorem closed_moves (k : Nat) (kept : Kept pl mid) (top : (pl.reactor i).stack = task :: rest)
    (empty : task.inHand = none) (below : List Task) (free : ∀ c ∈ below, c.inHand = none) :
    Moves cfg i pl (closeSession i k mid).events
      ((closeSession i k mid).state.setStack i ((closeSession i k mid).calls ++ (below ++ rest))) := by
  rw [closeSession_calls, List.nil_append]
  exact replaced_moves shaped (kept.trans .closeSession) top empty below free
    (closeSession_effect k)

theorem stepRecv_moves {k : Nat} (top : (pl.reactor i).stack = .recvLoop k :: rest)
    (step : stepRecv i input pl rest k = some (post, events)) : Moves cfg i pl events post := by
  unfold stepRecv at step
  split at step
  · cases step
    exact dangle_moves shaped k
  · split at step
    · cases step
      exact replaced_moves shaped (.setSession _) top rfl [.popLoop k] (by simp [Task.inHand]) .quiet
    · cases step
  · cases step
    exact replaced_moves shaped (.refl pl) top rfl [] (by simp) .quiet
  · cases step
    exact closed_moves shaped _ (.refl pl) top rfl [] (by simp)
  · cases step
    exact closed_moves shaped _ (.refl pl) top rfl [] (by simp)
  · cases step

theorem stepWrite_moves {k : Nat} (top : (pl.reactor i).stack = .writeLoop k :: rest)
    (step : stepWrite i input pl rest k = some (post, events)) : Moves cfg i pl events post := by
  unfold stepWrite at step
  split at step
  · cases step
    exact dangle_moves shaped k
  · split at step
    · split at step
      · cases step
        exact replaced_moves shaped (.updateInterest ..) top rfl [] (by simp) .quiet
      · cases step
    · split at step
      · split at step
        · cases step
          exact replaced_moves shaped (.setSession _) top rfl [.writeLoop k]
            (by simp [Task.inHand]) (.wrote k _)
        · cases step
      · cases step
        exact replaced_moves shaped (.updateInterest ..) top rfl [] (by simp) .quiet
      · cases step
        exact closed_moves shaped _ (.refl pl) top rfl [] (by simp)
      · cases step
        exact closed_moves shaped _ (.refl pl) top rfl [] (by simp)
      · cases step

theorem stepDrainNew_moves (top : (pl.reactor i).stack = .drainNewConnections :: rest)
    (step : stepDrainNew i input pl rest = some (post, events)) : Moves cfg i pl events post := by
  unfold stepDrainNew at step
  split at step
  · cases step
    exact replaced_moves shaped (.refl pl) top rfl [] (by simp) .quiet
  · rename_i conn left _
    cases step
    have taken : Kept pl { pl with connQueue := Function.update pl.connQueue i left } :=
      ⟨fun _ => rfl, rfl, rfl, rfl, rfl, rfl⟩
    exact replaced_moves shaped (taken.trans (.registerConnection conn)) top rfl [.drainNewConnections]
      (by simp [Task.inHand]) (.registered conn)
  · cases step

theorem stepCloseAll_moves (top : (pl.reactor i).stack = .closeAll :: rest)
    (step : stepCloseAll i input pl rest = some (post, events)) : Moves cfg i pl events post := by
  unfold stepCloseAll at step
  split at step
  · cases step
    exact closed_moves shaped _ (.refl pl) top rfl [.closeAll] (by simp [Task.inHand])
  · cases step

theorem received_moves {k : Nat} {session : Session} {frame : FrameView} {left : FrameBuffer}
    (top : (pl.reactor i).stack = .popLoop k :: rest) (pops : Pops pl i k session frame left)
    (flag : headerFieldHost frame.header WireHeader.flag ≠ kFlagSys)
    (authed : session.authed = true) (kept : Kept pl mid) :
    Moves cfg i pl [.received i (inbound i session frame).origin]
      (mid.setStack i (.pushInbound k (inbound i session frame) 0 :: .popLoop k :: rest)) where
  effect := by
    have none : rest.filterMap Task.inHand = [] :=
      List.filterMap_eq_nil_iff.mpr (clean_rest shaped top)
    have free : pl.traffic.hand i = [] := by
      rw [hand_of_stack top, none]
      rfl
    have hand : (Task.pushInbound k (inbound i session frame) 0 :: .popLoop k :: rest).filterMap
        Task.inHand = [(inbound i session frame, 0)] := by
      change (inbound i session frame, 0) :: rest.filterMap Task.inHand = _
      rw [none]
    rw [traffic_setStack kept, hand]
    exact .received pops flag authed free
  shaped := by
    refine shaped_setStack shaped kept ?_
    intro t member
    rcases List.mem_cons.mp member with rfl | below
    · rfl
    · exact clean_rest shaped top t below

theorem stepPop_moves {k : Nat} (top : (pl.reactor i).stack = .popLoop k :: rest)
    (step : stepPop cfg i input pl rest k = some (post, events)) : Moves cfg i pl events post := by
  unfold stepPop at step
  split at step
  · cases step
    exact dangle_moves shaped k
  · rename_i session found
    split at step
    · cases step
      exact replaced_moves shaped (.setSession _) top rfl [.recvLoop k] (by simp [Task.inHand])
        .quiet
    · rename_i frame left popped
      have pops : Pops pl i k session frame left := ⟨by rw [top]; rfl, found, popped⟩
      have kept : Kept pl (pl.setSession i k { session with fb := left }) := .setSession _
      dsimp only at step
      split at step
      · rename_i flag
        cases step
        have after : ∀ ok : Bool, ∀ c ∈ (if ok then [Task.popLoop k] else []), c.inHand = none := by
          intro ok c member
          cases ok <;> simp_all [Task.inHand]
        have answered : Answer cfg i k { session with fb := left } frame _ :=
          handleSystem_answer (pl.setSession i k { session with fb := left })
        generalize outcome : handleSystem cfg i k { session with fb := left } frame
          (pl.setSession i k { session with fb := left }) = out at answered
        have calls : ∀ c ∈ out.1.calls, c.inHand = none :=
          outcome ▸ handleSystem_calls k { session with fb := left } frame
        have state : Kept pl out.1.state :=
          kept.trans (outcome ▸ .handleSystem cfg { session with fb := left } frame)
        have next : Moves cfg i pl (.system k frame :: out.1.events) _ :=
          replaced_moves shaped state top rfl (out.1.calls ++ if out.2 then [.popLoop k] else [])
            (fun c member => (List.mem_append.mp member).elim (calls c) (after out.2 c))
            (.system pops flag answered)
        have back : (if out.2 then [Task.popLoop k] else []) ++ rest =
            if out.2 then .popLoop k :: rest else rest := by
          cases out.2 <;> rfl
        rw [List.append_assoc, back] at next
        exact next
      · rename_i flag
        cases step
        unfold enqueueInbound
        split
        · exact closed_moves shaped _ kept top rfl [.popLoop k] (by simp [Task.inHand])
        · rename_i accepted
          have authed : session.authed = true := by simpa using accepted
          have moved : Moves cfg i pl _ _ := received_moves shaped top pops flag authed
            (kept.trans (.setSession (i := i) (k := k)
              { session with fb := left, popped := session.popped + 1 }))
          exact moved
  · cases step

theorem stepPush_moves {k : Nat} {msg : Tagged InboundMessage} {attempt : Nat}
    (top : (pl.reactor i).stack = .pushInbound k msg attempt :: rest)
    (step : stepPush cfg i input pl rest k msg attempt = some (post, events)) :
    Moves cfg i pl events post := by
  have clean := clean_rest shaped top
  have none : rest.filterMap Task.inHand = [] := List.filterMap_eq_nil_iff.mpr clean
  have held : pl.traffic.hand i = [(msg, attempt)] := by
    rw [hand_of_stack top, none]
    rfl
  have below : ∀ t ∈ rest.tail, t.inHand = Option.none :=
    fun t member => clean t (List.mem_of_mem_tail member)
  unfold stepPush at step
  split at step
  · cases step
    exact ⟨.outOfRange, shaped⟩
  · rename_i w index
    split at step
    · rename_i queue done
      cases step
      obtain ⟨room, rfl⟩ := pushAttempt_pushed done
      refine ⟨?_, shaped_setStack shaped ⟨fun _ => rfl, rfl, rfl, rfl, rfl, rfl⟩ below⟩
      rw [traffic_setStack (.refl _), none]
      exact .pushed held index room
    · rename_i again
      cases step
      obtain ⟨_, rfl, rfl⟩ := pushAttempt_retry again
      refine ⟨?_, shaped_setStack shaped (.refl pl) clean⟩
      have hand : (Task.pushInbound k (movedFrom msg) (attempt + 1) :: rest).filterMap Task.inHand =
          [(movedFrom msg, attempt + 1)] := by
        change (movedFrom msg, attempt + 1) :: rest.filterMap Task.inHand = _
        rw [none]
      rw [traffic_setStack (.refl pl), hand]
      exact .retried held
    · split at step
      · cases step
        exact dangle_moves shaped k
      · cases step
        refine ⟨?_, shaped_setStack shaped (.refl pl) below⟩
        rw [traffic_setStack (.refl pl), none]
        exact .gaveUp held
  · cases step

theorem stepDrainSend_moves (top : (pl.reactor i).stack = .drainSendQueue :: rest)
    (step : stepDrainSend i input pl rest = some (post, events)) : Moves cfg i pl events post := by
  unfold stepDrainSend at step
  split at step
  · cases step
    exact replaced_moves shaped (.refl pl) top rfl [] (by simp) .quiet
  · rename_i item left popped
    have front := pop_some popped
    generalize next : { pl with sendQueue := Function.update pl.sendQueue i left } = base at step
    have queue : base.traffic =
        { pl.traffic with sendQueue := Function.update pl.sendQueue i left } := by
      rw [← next]
      rfl
    have same : base.reactor = pl.reactor := by rw [← next]
    rw [← same] at top shaped
    dsimp only at step
    split at step
    · rename_i absent
      cases step
      have free : ∀ c ∈ [Task.drainSendQueue], c.inHand = none := by simp [Task.inHand]
      refine ⟨?_, replaced_shaped shaped (.refl base) top free⟩
      change ReactorEffect cfg i pl _ (base.setStack i ([Task.drainSendQueue] ++ rest)).traffic
      rw [traffic_replaced (.refl base) top rfl free, queue]
      exact .dropped front (same ▸ absent)
    · rename_i session found
      cases step
      have free : ∀ c ∈ (sendBytes i item.val.sid session item.val.bytes base).calls ++
          [.drainSendQueue], c.inHand = none := by
        intro c member
        rcases List.mem_append.mp member with call | last
        · exact sendBytes_calls _ _ _ c call
        · rw [List.mem_singleton.mp last]
          rfl
      have kept : Kept base (sendBytes i item.val.sid session item.val.bytes base).state :=
        .sendBytes session item.val.bytes
      have records : (sendBytes i item.val.sid session item.val.bytes base).events =
          if item.val.bytes.isEmpty then [] else [.appended i item.val.sid item.val.bytes] := by
        unfold sendBytes
        split <;> rfl
      have stack : ∀ calls : List Task, calls ++ Task.drainSendQueue :: rest =
          (calls ++ [.drainSendQueue]) ++ rest := by simp
      rw [records, stack]
      refine ⟨?_, replaced_shaped shaped kept top free⟩
      rw [traffic_replaced kept top rfl free, queue]
      exact .sent front (same ▸ found)
  · cases step

theorem reactorStep_moves (step : reactorStep cfg i input pl = some (post, events)) :
    Moves cfg i pl events post := by
  unfold reactorStep at step
  split at step
  · cases step
  · rename_i top
    exact stepPoll_moves shaped top step
  · rename_i top
    exact stepEvents_moves shaped top step
  · rename_i top
    exact stepDrainNew_moves shaped top step
  · rename_i top
    exact stepDrainSend_moves shaped top step
  · rename_i top
    exact stepReadable_moves shaped top step
  · rename_i top
    exact stepRecv_moves shaped top step
  · rename_i top
    exact stepPop_moves shaped top step
  · rename_i top
    exact stepPush_moves shaped top step
  · rename_i top
    exact stepWritable_moves shaped top step
  · rename_i top
    exact stepWrite_moves shaped top step
  · rename_i top
    exact stepCloseAll_moves shaped top step

end Steps

end HiImCore.Hub
