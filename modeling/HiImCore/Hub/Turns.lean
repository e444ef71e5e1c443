import HiImCore.Hub.Exchange
import HiImCore.Hub.Refinement

/-! What one step of a reactor does to the reactors of its plane and to the hand-over of
connections: the innermost call is replaced by the calls it makes. -/

namespace HiImCore.Hub

open Wire

structure SameHandover (pl mid : PlaneState) : Prop where
  listener : mid.listener = pl.listener
  connQueue : mid.connQueue = pl.connQueue
  wakeReadable : mid.wakeReadable = pl.wakeReadable
  wakeFd : mid.wakeFd = pl.wakeFd

structure Untouched (pl mid : PlaneState) : Prop extends SameHandover pl mid where
  reactor : mid.reactor = pl.reactor
  sockets : mid.sockets = pl.sockets

structure Writes (i k : Nat) (session : Session) (pl mid : PlaneState) : Prop
    extends SameHandover pl mid where
  reactor : mid.reactor = Function.update pl.reactor i
    { pl.reactor i with
      sessions := Function.update (pl.reactor i).sessions k (some session) }
  sockets : mid.sockets = pl.sockets

structure Closes (i k : Nat) (session : Session) (pl mid : PlaneState) : Prop
    extends SameHandover pl mid where
  reactor : mid.reactor = Function.update pl.reactor i
    { pl.reactor i with
      fdToSid := Function.update (pl.reactor i).fdToSid session.fd none
      interest := Function.update (pl.reactor i).interest session.fd none
      sessions := Function.update (pl.reactor i).sessions k none }
  sockets : mid.sockets = Function.update pl.sockets session.fd none

structure SameFace (session next : Session) : Prop where
  sid : next.sid = session.sid
  fd : next.fd = session.fd
  outbuf : next.outbuf = session.outbuf

def PollEvent.calls (event : PollEvent) : List Task :=
  (if event.readable then [Task.handleReadable event.fd] else []) ++
    (if event.writable then [Task.handleWritable event.fd] else [])

theorem PollEvent.mem_calls {event : PollEvent} {task : Task} (member : task ∈ event.calls) :
    task = .handleReadable event.fd ∨ task = .handleWritable event.fd := by
  unfold PollEvent.calls at member
  rcases List.mem_append.mp member with reading | writing
  · split at reading
    · exact .inl (List.mem_singleton.mp reading)
    · cases reading
  · split at writing
    · exact .inr (List.mem_singleton.mp writing)
    · cases writing

inductive Resumes : Task → List Task → Prop
  | polled (batch : List PollEvent) : Resumes .poll [.events batch, .drainSendQueue, .poll]
  | stopped : Resumes .poll [.closeAll]
  | finished : Resumes (.events []) []
  | dispatched (event : PollEvent) (later : List PollEvent) :
      Resumes (.events (event :: later)) (event.calls ++ [.events later])
  | waited (k : Nat) : Resumes (.recvLoop k) []
  | pushed (k : Nat) (msg : Tagged InboundMessage) (attempt : Nat) :
      Resumes (.pushInbound k msg attempt) []
  | retried (k : Nat) (msg : Tagged InboundMessage) (attempt : Nat) :
      Resumes (.pushInbound k msg attempt) [.pushInbound k (movedFrom msg) (attempt + 1)]
  | dropped : Resumes .drainSendQueue [.drainSendQueue]
  | allSent : Resumes .drainSendQueue []
  | nobody : Resumes .closeAll [.closeAll]

inductive Reads (k : Nat) : Task → List Task → Prop
  | appended : Reads k (.recvLoop k) [.popLoop k]
  | exhausted : Reads k (.popLoop k) [.recvLoop k]
  | ignored : Reads k (.popLoop k) [.popLoop k]
  | refused : Reads k (.popLoop k) []
  | received (msg : Tagged InboundMessage) : Reads k (.popLoop k) [.pushInbound k msg 0, .popLoop k]

/-- Calls that close session `k`. -/
inductive Ends (k : Nat) : Task → List Task → Prop
  | hungUp : Ends k (.recvLoop k) []
  | expelled : Ends k (.popLoop k) [.popLoop k]
  | rejected : Ends k (.popLoop k) []
  | broken : Ends k (.writeLoop k) []
  | shutDown : Ends k .closeAll [.closeAll]

/-- A step of reactor `i` turns the call into these calls, and the plane into this one. -/
inductive Turn (i : Nat) (pl : PlaneState) : Task → PlaneState → List Task → Prop
  | resumed {task : Task} {calls : List Task} {mid : PlaneState} (same : Untouched pl mid)
      (resumes : Resumes task calls) : Turn i pl task mid calls
  | woken : Turn i pl (.handleReadable (pl.wakeFd i))
      { pl with wakeReadable := Function.update pl.wakeReadable i false }
      [.drainNewConnections, .drainSendQueue]
  | strayReadable {fd : Int} (other : fd ≠ pl.wakeFd i)
      (absent : (pl.reactor i).fdToSid fd = none) : Turn i pl (.handleReadable fd) pl []
  | strayWritable {fd : Int} (absent : (pl.reactor i).fdToSid fd = none) :
      Turn i pl (.handleWritable fd) pl []
  | readable {fd : Int} {k : Nat} (other : fd ≠ pl.wakeFd i)
      (found : (pl.reactor i).fdToSid fd = some k) : Turn i pl (.handleReadable fd) pl [.recvLoop k]
  | writable {fd : Int} {k : Nat} (found : (pl.reactor i).fdToSid fd = some k) :
      Turn i pl (.handleWritable fd) pl [.writeLoop k]
  | reads {k : Nat} {session next : Session} {task : Task} {calls : List Task} {mid : PlaneState}
      (found : (pl.reactor i).sessions k = some session) (face : SameFace session next)
      (writes : Writes i k next pl mid) (reads : Reads k task calls) : Turn i pl task mid calls
  | sends {k : Nat} {session next : Session} {task : Task} {mid : PlaneState} {data : Bytes}
      (found : (pl.reactor i).sessions k = some session) (face : SameFace session next)
      (writes : Writes i k { next with outbuf := session.outbuf ++ data } pl mid)
      (some : data.isEmpty = false) (caller : task = .popLoop k ∨ task = .drainSendQueue) :
      Turn i pl task (mid.updateInterest i session.fd true true)
        [.handleWritable session.fd, task]
  | wrote {k count : Nat} {session : Session} {mid : PlaneState}
      (found : (pl.reactor i).sessions k = some session)
      (writes : Writes i k { session with outbuf := session.outbuf.drop count } pl mid) :
      Turn i pl (.writeLoop k) mid [.writeLoop k]
  | stopsWriting {k : Nat} {session : Session} (found : (pl.reactor i).sessions k = some session) :
      Turn i pl (.writeLoop k) (pl.updateInterest i session.fd true (!session.outbuf.isEmpty)) []
  | closes {k : Nat} {session : Session} {task : Task} {calls : List Task} {mid : PlaneState}
      (found : (pl.reactor i).sessions k = some session) (closes : Closes i k session pl mid)
      (ends : Ends k task calls) : Turn i pl task mid calls
  | registered {conn : NewConnection} {left : List NewConnection}
      (queue : pl.connQueue i = conn :: left) :
      Turn i pl .drainNewConnections
        (registerConnection i conn { pl with connQueue := Function.update pl.connQueue i left })
        [.drainNewConnections]
  | allRegistered (empty : pl.connQueue i = []) : Turn i pl .drainNewConnections pl []

theorem Untouched.refl (pl : PlaneState) : Untouched pl pl := ⟨⟨rfl, rfl, rfl, rfl⟩, rfl, rfl⟩

section Calls

variable {cfg : HubConfig} {i k : Nat} {pl mid : PlaneState} {session next : Session}

theorem writes_setSession (session : Session) : Writes i k session pl (pl.setSession i k session) :=
  ⟨⟨rfl, rfl, rfl, rfl⟩, rfl, rfl⟩

theorem Writes.again (first : Writes i k session pl mid) (next : Session) :
    Writes i k next pl (mid.setSession i k next) := by
  obtain ⟨⟨listener, connQueue, wakeReadable, wakeFd⟩, reactor, sockets⟩ := first
  refine ⟨⟨listener, connQueue, wakeReadable, wakeFd⟩, ?_, sockets⟩
  simp only [PlaneState.setSession, PlaneState.setReactor, reactor, Function.update_self,
    Function.update_idem]

theorem Writes.setRouter (writes : Writes i k session pl mid) (router : Router) :
    Writes i k session pl { mid with router := router } := by
  obtain ⟨⟨listener, connQueue, wakeReadable, wakeFd⟩, reactor, sockets⟩ := writes
  exact ⟨⟨listener, connQueue, wakeReadable, wakeFd⟩, reactor, sockets⟩

theorem Writes.found (writes : Writes i k session pl mid) :
    (mid.reactor i).sessions k = some session := by
  rw [writes.reactor, Function.update_self]
  exact Function.update_self ..

theorem Untouched.writes (same : Untouched pl mid)
    (found : (pl.reactor i).sessions k = some session) : Writes i k session pl mid := by
  refine ⟨⟨same.listener, same.connQueue, same.wakeReadable, same.wakeFd⟩, ?_, same.sockets⟩
  have sessions : Function.update (pl.reactor i).sessions k (some session) =
      (pl.reactor i).sessions := by
    rw [← found, Function.update_eq_self]
  rw [sessions, Function.update_eq_self, same.reactor]

theorem closes_closeSession (found : (pl.reactor i).sessions k = some session) :
    Closes i k session pl (closeSession i k pl).state := by
  simp only [closeSession, found]
  exact ⟨⟨rfl, rfl, rfl, rfl⟩, rfl, rfl⟩

theorem Writes.closes (writes : Writes i k next pl mid) (fd : next.fd = session.fd) :
    Closes i k session pl (closeSession i k mid).state := by
  have closed := closes_closeSession writes.found
  refine ⟨⟨closed.listener.trans writes.listener, closed.connQueue.trans writes.connQueue,
    closed.wakeReadable.trans writes.wakeReadable, closed.wakeFd.trans writes.wakeFd⟩, ?_, ?_⟩
  · rw [closed.reactor, writes.reactor, fd]
    simp only [Function.update_self, Function.update_idem]
  · rw [closed.sockets, writes.sockets, fd]

theorem closeSession_inRange : .outOfRange ∉ (closeSession i k pl).events := by
  unfold closeSession
  split <;> simp

theorem sendBytes_inRange (data : Bytes) : .outOfRange ∉ (sendBytes i k session data pl).events := by
  unfold sendBytes
  split <;> simp

theorem Writes.sends {data : Bytes} {task : Task} (writes : Writes i k next pl mid)
    (found : (pl.reactor i).sessions k = some session) (face : SameFace session next)
    (nonempty : data.isEmpty = false) (caller : task = .popLoop k ∨ task = .drainSendQueue) :
    Turn i pl task (sendBytes i k next data mid).state
      ((sendBytes i k next data mid).calls ++ [task]) := by
  have longer := writes.again { next with outbuf := session.outbuf ++ data }
  have turn := Turn.sends found face longer nonempty caller
  rw [← face.fd] at turn
  simp only [sendBytes, nonempty, Bool.false_eq_true, if_false, face.outbuf]
  exact turn

end Calls

section Steps

variable {cfg : HubConfig} {i : Nat} {input : ReactorInput} {pl post : PlaneState}
  {rest : List Task} {events : List Event}

def Turns (i : Nat) (pl : PlaneState) (task : Task) (rest : List Task) (events : List Event)
    (post : PlaneState) : Prop :=
  .outOfRange ∉ events ∧
    ((∃ mid calls, Turn i pl task mid calls ∧ post = mid.setStack i (calls ++ rest)) ∨
      post = { pl with fault := true })

theorem Turn.turns {task : Task} {mid : PlaneState} {calls : List Task} (turn : Turn i pl task mid calls)
    (inRange : .outOfRange ∉ events) : Turns i pl task rest events (mid.setStack i (calls ++ rest)) :=
  ⟨inRange, .inl ⟨mid, calls, turn, rfl⟩⟩

theorem inRange_nil : .outOfRange ∉ ([] : List Event) := List.not_mem_nil

theorem inRange_cons {event : Event} (other : event ≠ .outOfRange) (inRange : .outOfRange ∉ events) :
    .outOfRange ∉ event :: events := by
  simp only [List.mem_cons, not_or]
  exact ⟨other.symm, inRange⟩

theorem inRange_sendPopped {item : Tagged OutboundFrame} {isOpen : Bool}
    (inRange : .outOfRange ∉ events) : .outOfRange ∉ .sendPopped i item isOpen :: events := by
  refine inRange_cons ?_ inRange
  intro same
  cases same

theorem dangle_turns (task : Task) (k : Nat) :
    Turns i pl task rest (dangle i k pl).2 (dangle i k pl).1 :=
  ⟨by simp [dangle], .inr rfl⟩

theorem stepPoll_turns (step : stepPoll i input pl rest = some (post, events)) :
    Turns i pl .poll rest events post := by
  unfold stepPoll at step
  split at step
  · rename_i batch _
    cases step
    exact (Turn.resumed (.refl pl) (.polled batch)).turns inRange_nil
  · cases step
    exact (Turn.resumed (.refl pl) .stopped).turns inRange_nil
  · cases step

theorem stepEvents_turns {batch : List PollEvent}
    (step : stepEvents i input pl rest batch = some (post, events)) :
    Turns i pl (.events batch) rest events post := by
  unfold stepEvents at step
  split at step
  · cases step
    exact (Turn.resumed (.refl pl) .finished).turns inRange_nil
  · rename_i event later
    cases step
    have turned : Turns i pl (.events (event :: later)) rest [] _ :=
      (Turn.resumed (.refl pl) (.dispatched event later)).turns inRange_nil
    rwa [List.append_assoc] at turned
  · cases step

theorem stepDrainNew_turns (step : stepDrainNew i input pl rest = some (post, events)) :
    Turns i pl .drainNewConnections rest events post := by
  unfold stepDrainNew at step
  split at step
  · rename_i empty
    cases step
    exact (Turn.allRegistered (pop_none empty)).turns inRange_nil
  · rename_i front
    cases step
    exact (Turn.registered (pop_some front)).turns (inRange_cons nofun inRange_nil)
  · cases step

variable {g : Registry} (agrees : Agrees g pl.core)
include agrees

theorem session_named {k : Nat} {session : Session}
    (found : (pl.reactor i).sessions k = some session) : session.sid = k :=
  agrees.sid i k _ (by rw [core_keys, found]; rfl)

theorem subscript_found {fd : Int} {k : Nat} (found : (pl.reactor i).fdToSid fd = some k) :
    pl.subscript i k = pl := by
  obtain ⟨key, present, _⟩ := agrees.keyOfFd i fd k found
  rw [core_keys, Option.map_eq_some_iff] at present
  obtain ⟨session, here, _⟩ := present
  simp only [PlaneState.subscript, here]

theorem stepReadable_turns {fd : Int} (step : stepReadable i input pl rest fd = some (post, events)) :
    Turns i pl (.handleReadable fd) rest events post := by
  unfold stepReadable at step
  split at step
  · split at step
    · rename_i here
      subst here
      cases step
      exact Turn.woken.turns inRange_nil
    · rename_i other
      split at step
      · rename_i absent
        cases step
        exact (Turn.strayReadable other absent).turns inRange_nil
      · rename_i k found
        cases step
        rw [subscript_found agrees found]
        exact (Turn.readable other found).turns inRange_nil
  · cases step

theorem stepWritable_turns {fd : Int} (step : stepWritable i input pl rest fd = some (post, events)) :
    Turns i pl (.handleWritable fd) rest events post := by
  unfold stepWritable at step
  split at step
  · split at step
    · rename_i absent
      cases step
      exact (Turn.strayWritable absent).turns inRange_nil
    · rename_i k found
      cases step
      rw [subscript_found agrees found]
      exact (Turn.writable found).turns inRange_nil
  · cases step

theorem closeSession_turns {k : Nat} {session next : Session} {mid : PlaneState} {task : Task}
    {calls : List Task} (found : (pl.reactor i).sessions k = some session)
    (writes : Writes i k next pl mid) (face : SameFace session next) (ends : Ends k task calls)
    (inRange : .outOfRange ∉ events) :
    Turns i pl task rest events
      ((closeSession i next.sid mid).state.setStack i
        ((closeSession i next.sid mid).calls ++ (calls ++ rest))) := by
  rw [face.sid, session_named agrees found, closeSession_calls, List.nil_append]
  exact (Turn.closes found (writes.closes face.fd) ends).turns inRange

theorem stepRecv_turns {k : Nat} (step : stepRecv i input pl rest k = some (post, events)) :
    Turns i pl (.recvLoop k) rest events post := by
  have closed : ∀ {session : Session}, (pl.reactor i).sessions k = some session →
      Turns i pl (.recvLoop k) rest (closeSession i session.sid pl).events
        ((closeSession i session.sid pl).state.setStack i
          ((closeSession i session.sid pl).calls ++ rest)) := by
    intro session found
    rw [session_named agrees found, closeSession_calls]
    exact (Turn.closes found (closes_closeSession found) .hungUp).turns closeSession_inRange
  unfold stepRecv at step
  split at step
  · cases step
    exact dangle_turns _ k
  · rename_i session bytes found
    split at step
    · cases step
      let next : Session := { session with fb := session.fb.append bytes }
      have face : SameFace session next := ⟨rfl, rfl, rfl⟩
      exact (Turn.reads found face (writes_setSession next) .appended).turns inRange_nil
    · cases step
  · cases step
    exact (Turn.resumed (.refl pl) (.waited k)).turns inRange_nil
  · rename_i found
    cases step
    exact closed found
  · rename_i found
    cases step
    exact closed found
  · cases step

theorem stepWrite_turns {k : Nat} (step : stepWrite i input pl rest k = some (post, events)) :
    Turns i pl (.writeLoop k) rest events post := by
  unfold stepWrite at step
  split at step
  · cases step
    exact dangle_turns _ k
  · rename_i session found
    have closed : Turns i pl (.writeLoop k) rest (closeSession i session.sid pl).events
        ((closeSession i session.sid pl).state.setStack i
          ((closeSession i session.sid pl).calls ++ rest)) := by
      rw [session_named agrees found, closeSession_calls]
      exact (Turn.closes found (closes_closeSession found) .broken).turns closeSession_inRange
    have stops : Turns i pl (.writeLoop k) rest []
        ((pl.updateInterest i session.fd true (!session.outbuf.isEmpty)).setStack i rest) :=
      (Turn.stopsWriting found).turns inRange_nil
    split at step
    · rename_i empty
      rw [empty] at stops
      split at step
      · cases step
        exact stops
      · cases step
    · rename_i nonempty
      rw [Bool.not_eq_true] at nonempty
      rw [nonempty] at stops
      split at step
      · split at step
        · cases step
          exact (Turn.wrote found (writes_setSession _)).turns (inRange_cons nofun inRange_nil)
        · cases step
      · cases step
        exact stops
      · cases step
        exact closed
      · cases step
        exact closed
      · cases step

/-- What a result of `HandleSystem` means for the loop that called it. -/
def Handles (i k : Nat) (pl : PlaneState) (out : Effect × Bool) : Prop :=
  .outOfRange ∉ out.1.events ∧
    Turn i pl (.popLoop k) out.1.state (out.1.calls ++ if out.2 then [.popLoop k] else [])

theorem handleSystem_handles {k : Nat} {session next : Session} {mid : PlaneState}
    (frame : FrameView) (found : (pl.reactor i).sessions k = some session)
    (face : SameFace session next) (writes : Writes i k next pl mid) :
    Handles i k pl (handleSystem cfg i k next frame mid) := by
  have closed : Handles i k pl (closeSession i next.sid mid, false) := by
    rw [face.sid, session_named agrees found]
    refine ⟨closeSession_inRange, ?_⟩
    dsimp only
    rw [closeSession_calls]
    exact .closes found (writes.closes face.fd) .rejected
  have sent : ∀ {changed : Session} {base : PlaneState} (cmd : SysCmd) (nid : UInt32),
      SameFace session changed → Writes i k changed pl base →
      Turn i pl (.popLoop k) (sendBytes i k changed (ackFrame cmd nid) base).state
        ((sendBytes i k changed (ackFrame cmd nid) base).calls ++ [.popLoop k]) := by
    intro changed base cmd nid same changes
    exact changes.sends found same rfl (.inl rfl)
  unfold handleSystem
  dsimp only
  split
  · split
    · exact closed
    · rename_i auth _
      split
      · let changed : Session :=
          { next with authed := true, gid := beToHost32 auth.gid, nid := beToHost32 auth.nid }
        have same : SameFace session changed := ⟨face.sid, face.fd, face.outbuf⟩
        exact ⟨inRange_cons nofun (sendBytes_inRange _),
          sent _ _ same ((writes.again changed).setRouter _)⟩
      · exact closed
  · split
    · exact closed
    · exact ⟨inRange_cons nofun (sendBytes_inRange _), sent _ _ face (writes.setRouter _)⟩
  · split
    · exact ⟨by simp, .reads found face writes .refused⟩
    · exact ⟨inRange_cons nofun (sendBytes_inRange _), sent _ _ face (writes.setRouter _)⟩
  · exact ⟨sendBytes_inRange _, sent _ _ face writes⟩
  · exact ⟨by simp, .reads found face writes .ignored⟩

theorem stepPop_turns {k : Nat} (step : stepPop cfg i input pl rest k = some (post, events)) :
    Turns i pl (.popLoop k) rest events post := by
  unfold stepPop at step
  split at step
  · cases step
    exact dangle_turns _ k
  · rename_i session found
    split at step
    · rename_i left _
      cases step
      let next : Session := { session with fb := left }
      have face : SameFace session next := ⟨rfl, rfl, rfl⟩
      exact (Turn.reads found face (writes_setSession next) .exhausted).turns inRange_nil
    · rename_i frame left _
      let next : Session := { session with fb := left }
      have face : SameFace session next := ⟨rfl, rfl, rfl⟩
      have writes : Writes i k next pl (pl.setSession i k next) := writes_setSession next
      dsimp only at step
      split at step
      · cases step
        have handles : Handles i k pl (handleSystem cfg i k next frame (pl.setSession i k next)) :=
          handleSystem_handles agrees frame found face writes
        generalize handleSystem cfg i k next frame (pl.setSession i k next) = out at handles
        obtain ⟨inRange, turn⟩ := handles
        have turned : Turns i pl (.popLoop k) rest (.system k frame :: out.1.events) _ :=
          turn.turns (inRange_cons nofun inRange)
        have back : (if out.2 then [Task.popLoop k] else []) ++ rest =
            if out.2 then .popLoop k :: rest else rest := by
          cases out.2 <;> rfl
        rw [List.append_assoc, back] at turned
        exact turned
      · cases step
        unfold enqueueInbound
        split
        · exact closeSession_turns agrees found writes face .expelled closeSession_inRange
        · let counted : Session := { next with popped := next.popped + 1 }
          have same : SameFace session counted := ⟨rfl, rfl, rfl⟩
          exact (Turn.reads found same (writes.again counted)
            (.received (inbound i session frame))).turns (inRange_cons nofun inRange_nil)
  · cases step

omit agrees in
theorem queueIndex_pickWorker (cfg : HubConfig) (sid : Nat) :
    queueIndex cfg.workers (pickWorker cfg sid) = some (sid % cfg.workers) := by
  have positive : 0 < cfg.workers := by
    unfold HubConfig.workers
    omega
  have below := Nat.mod_lt sid positive
  unfold queueIndex pickWorker
  rw [if_pos ⟨by omega, by omega⟩, Int.toNat_natCast]

omit agrees in
theorem stepPush_turns {k : Nat} {msg : Tagged InboundMessage} {attempt : Nat}
    (step : stepPush cfg i input pl rest k msg attempt = some (post, events)) :
    Turns i pl (.pushInbound k msg attempt) rest events post := by
  unfold stepPush at step
  rw [queueIndex_pickWorker] at step
  split at step
  · rename_i bad
    cases bad
  · rename_i w _
    split at step
    · rename_i queue _
      cases step
      have same : Untouched pl { pl with recvQueue := Function.update pl.recvQueue w queue } :=
        ⟨⟨rfl, rfl, rfl, rfl⟩, rfl, rfl⟩
      exact (Turn.resumed same (.pushed k msg attempt)).turns (inRange_cons nofun inRange_nil)
    · rename_i again
      cases step
      obtain ⟨_, rfl, rfl⟩ := pushAttempt_retry again
      exact (Turn.resumed (.refl pl) (.retried k msg attempt)).turns inRange_nil
    · split at step
      · cases step
        exact dangle_turns _ k
      · cases step
        exact (Turn.resumed (.refl pl) (.pushed k msg attempt)).turns inRange_nil
  · cases step

omit agrees in
theorem stepDrainSend_turns (step : stepDrainSend i input pl rest = some (post, events)) :
    Turns i pl .drainSendQueue rest events post := by
  unfold stepDrainSend at step
  split at step
  · cases step
    exact (Turn.resumed (.refl pl) .allSent).turns inRange_nil
  · rename_i item left _
    generalize next : { pl with sendQueue := Function.update pl.sendQueue i left } = base at step
    have same : Untouched pl base := by
      rw [← next]
      exact ⟨⟨rfl, rfl, rfl, rfl⟩, rfl, rfl⟩
    dsimp only at step
    split at step
    · cases step
      exact (Turn.resumed same .dropped).turns (inRange_sendPopped inRange_nil)
    · rename_i session found
      cases step
      rw [same.reactor] at found
      by_cases empty : item.val.bytes.isEmpty = true
      · simp only [sendBytes, empty, if_true]
        exact (Turn.resumed same .dropped).turns (inRange_sendPopped inRange_nil)
      · have turn := (same.writes found).sends found ⟨rfl, rfl, rfl⟩ (Bool.not_eq_true _ ▸ empty)
          (.inr rfl : Task.drainSendQueue = .popLoop _ ∨ _)
        have turned : Turns i pl .drainSendQueue rest (.sendPopped i item true ::
            (sendBytes i item.val.sid session item.val.bytes base).events) _ :=
          turn.turns (inRange_sendPopped (sendBytes_inRange _))
        rwa [List.append_assoc] at turned
  · cases step

omit agrees in
theorem stepCloseAll_turns (step : stepCloseAll i input pl rest = some (post, events)) :
    Turns i pl .closeAll rest events post := by
  unfold stepCloseAll at step
  split at step
  · rename_i k
    cases step
    rw [closeSession_calls]
    cases found : (pl.reactor i).sessions k with
    | none =>
        simp only [closeSession, found]
        exact (Turn.resumed (.refl pl) .nobody).turns inRange_nil
    | some session =>
        exact (Turn.closes found (closes_closeSession found) .shutDown).turns closeSession_inRange
  · cases step

theorem reactorStep_turns (step : reactorStep cfg i input pl = some (post, events)) :
    ∃ task rest, (pl.reactor i).stack = task :: rest ∧ Turns i pl task rest events post := by
  unfold reactorStep at step
  split at step
  · cases step
  · exact ⟨_, _, ‹_›, stepPoll_turns step⟩
  · exact ⟨_, _, ‹_›, stepEvents_turns step⟩
  · exact ⟨_, _, ‹_›, stepDrainNew_turns step⟩
  · exact ⟨_, _, ‹_›, stepDrainSend_turns step⟩
  · exact ⟨_, _, ‹_›, stepReadable_turns agrees step⟩
  · exact ⟨_, _, ‹_›, stepRecv_turns agrees step⟩
  · exact ⟨_, _, ‹_›, stepPop_turns agrees step⟩
  · exact ⟨_, _, ‹_›, stepPush_turns step⟩
  · exact ⟨_, _, ‹_›, stepWritable_turns agrees step⟩
  · exact ⟨_, _, ‹_›, stepWrite_turns agrees step⟩
  · exact ⟨_, _, ‹_›, stepCloseAll_turns step⟩

end Steps

end HiImCore.Hub
