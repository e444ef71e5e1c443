import HiImCore.Hub.Workload
import HiImCore.Hub.ReadableCall

/-! What no bound holds for: the buffers of a client that sends requests which are turned down, and
of one that does not read its answers. -/

namespace HiImCore.Hub

open Transition Wire

/-- A running reactor is inside these calls, with nothing queued to send, and holds the session. -/
structure Serving (p : Plane) (i k : Nat) (stack : List Task) (session : Session) (h : HubServer) :
    Prop where
  sound : h.sound = true
  running : (h.plane p).running = true
  nothing : (h.plane p).sendQueue i = []
  stack : ((h.plane p).reactor i).stack = stack
  found : ((h.plane p).reactor i).sessions k = some session
  lookup : ((h.plane p).reactor i).fdToSid session.fd = some k
  client : session.fd ≠ (h.plane p).wakeFd i

theorem updateInterest_maps (pl : PlaneState) (i : Nat) (fd : Int) (wantRead wantWrite : Bool) :
    ((pl.updateInterest i fd wantRead wantWrite).reactor i).fdToSid = (pl.reactor i).fdToSid ∧
      ((pl.updateInterest i fd wantRead wantWrite).reactor i).sessions = (pl.reactor i).sessions := by
  unfold PlaneState.updateInterest
  split
  · exact ⟨rfl, rfl⟩
  · simp only [PlaneState.setReactor, Function.update_self, and_self]

section Calls

variable {cfg : HubConfig} {p : Plane} {i k : Nat} {session : Session} {rest : List Task}
  {h : HubServer} (inside : i < cfg.reactors)
include inside

theorem Serving.go {stack after : List Task} {next : Session} {input : ReactorInput}
    {mid : PlaneState} {events : List Event} (serving : Serving p i k stack session h)
    (step : reactorStep cfg i input (h.plane p) = some (mid.setStack i after, events))
    (confined : Confined i (h.plane p) mid) (wakeFd : mid.wakeFd = (h.plane p).wakeFd)
    (maps : (mid.reactor i).fdToSid = ((h.plane p).reactor i).fdToSid)
    (found : (mid.reactor i).sessions k = some next) (fd : next.fd = session.fd) :
    ∃ more t, Run (hubSystem cfg) h more t ∧ Serving p i k after next t := by
  have taken : (hubSystem cfg).step h (.reactor p i input) =
      some (h.setPlane p (mid.setStack i after), events.map (Prod.mk p)) := by
    simp only [hubSystem, hubStep, serving.sound, Bool.true_eq_false, if_false, inside, if_true, step,
      localStep, Option.map_some]
  refine ⟨_, _, .snoc .nil taken, ?_⟩
  have faults : ∀ q, ((h.setPlane p (mid.setStack i after)).plane q).fault = (h.plane q).fault :=
    HubServer.forall_setPlane (P := fun q pl => pl.fault = (h.plane q).fault) confined.fault
      fun q => rfl
  constructor
  · rw [HubServer.sound, faults, faults]
    exact serving.sound
  all_goals rw [HubServer.setPlane_self]
  · exact confined.running.trans serving.running
  · exact (congrFun confined.sendQueue i).trans serving.nothing
  all_goals simp only [PlaneState.setStack, PlaneState.setReactor, Function.update_self]
  · exact found
  · rw [maps, fd]
    exact serving.lookup
  · rw [wakeFd, fd]
    exact serving.client

theorem serving_moves {stack after : List Task} (input : ReactorInput)
    (step : ∀ h, Serving p i k stack session h →
      reactorStep cfg i input (h.plane p) = some ((h.plane p).setStack i after, [])) :
    CanReach (hubSystem cfg) (Serving p i k stack session) (Serving p i k after session) := by
  intro h serving
  exact serving.go inside (step h serving) (.refl i _) rfl rfl serving.found rfl

theorem serving_sets {stack after : List Task} (input : ReactorInput) {next : Session}
    (fd : next.fd = session.fd)
    (step : ∀ h, Serving p i k stack session h → ∃ events, reactorStep cfg i input (h.plane p) =
      some (((h.plane p).setSession i k next).setStack i after, events)) :
    CanReach (hubSystem cfg) (Serving p i k stack session) (Serving p i k after next) := by
  intro h serving
  obtain ⟨events, done⟩ := step h serving
  refine serving.go inside done (.setSession next) rfl ?_ ?_ fd
  · simp only [PlaneState.setSession, PlaneState.setReactor, Function.update_self]
  · simp only [PlaneState.setSession, PlaneState.setReactor, Function.update_self]

theorem poll_reports : CanReach (hubSystem cfg) (Serving p i k [.poll] session)
    (Serving p i k [.handleReadable session.fd, .events [], .drainSendQueue, .poll] session) := by
  have polled : CanReach (hubSystem cfg) (Serving p i k [.poll] session)
      (Serving p i k [.events [⟨session.fd, true, false⟩], .drainSendQueue, .poll] session) := by
    refine serving_moves inside (.poll [⟨session.fd, true, false⟩]) fun h serving => ?_
    simp only [reactorStep, serving.stack, stepPoll, serving.running]
  refine polled.trans (serving_moves inside .run fun h serving => ?_)
  simp only [reactorStep, serving.stack, stepEvents]
  rfl

theorem readable_looks_up : CanReach (hubSystem cfg)
    (Serving p i k (.handleReadable session.fd :: rest) session)
    (Serving p i k (.recvLoop k :: rest) session) := by
  refine serving_moves inside .run fun h serving => ?_
  simp only [reactorStep, serving.stack, stepReadable, serving.client, if_false, serving.lookup,
    PlaneState.subscript, serving.found]

theorem recv_appends {bytes : Bytes} (nonempty : 0 < bytes.length) (within : bytes.length ≤ kRecvSize) :
    CanReach (hubSystem cfg) (Serving p i k (.recvLoop k :: rest) session)
      (Serving p i k (.popLoop k :: rest) { session with fb := session.fb.append bytes }) := by
  refine serving_sets inside (.recv (.data bytes)) rfl fun h serving => ⟨[], ?_⟩
  simp only [reactorStep, serving.stack, stepRecv, serving.found, nonempty, within, and_self, if_true]

theorem recv_blocks : CanReach (hubSystem cfg) (Serving p i k (.recvLoop k :: rest) session)
    (Serving p i k rest session) := by
  refine serving_moves inside (.recv .wouldBlock) fun h serving => ?_
  simp only [reactorStep, serving.stack, stepRecv, serving.found]

theorem pop_misses {left : FrameBuffer} (popped : session.fb.tryPopFrame = (none, left)) :
    CanReach (hubSystem cfg) (Serving p i k (.popLoop k :: rest) session)
      (Serving p i k (.recvLoop k :: rest) { session with fb := left }) := by
  refine serving_sets inside .run rfl fun h serving => ⟨[], ?_⟩
  simp only [reactorStep, serving.stack, stepPop, serving.found, popped]

theorem pop_turns_down {frame : FrameView} {left : FrameBuffer}
    (popped : session.fb.tryPopFrame = (some frame, left))
    (isSys : headerFieldHost frame.header WireHeader.flag = kFlagSys)
    (refused : UnsubRefused session frame) :
    CanReach (hubSystem cfg) (Serving p i k (.popLoop k :: rest) session)
      (Serving p i k rest { session with fb := left }) := by
  obtain ⟨type, bad⟩ := refused
  refine serving_sets inside .run rfl fun h serving => ⟨[.system k frame], ?_⟩
  simp only [reactorStep, serving.stack, stepPop, serving.found, popped, isSys, if_true, handleSystem,
    type, bad, Bool.false_eq_true, if_false, List.nil_append]

theorem pop_answers {frame : FrameView} {left : FrameBuffer}
    (popped : session.fb.tryPopFrame = (some frame, left))
    (isSys : headerFieldHost frame.header WireHeader.flag = kFlagSys)
    (type : SysCmd.ofCode (headerFieldHost frame.header WireHeader.type) = some .kKpaliveReq) :
    CanReach (hubSystem cfg) (Serving p i k (.popLoop k :: rest) session)
      (Serving p i k (.handleWritable session.fd :: .popLoop k :: rest)
        { session with
          fb := left, outbuf := session.outbuf ++ ackFrame .kKpaliveAck session.nid }) := by
  intro h serving
  let next : Session := { session with fb := left }
  let answered : Session := { next with outbuf := next.outbuf ++ ackFrame .kKpaliveAck next.nid }
  let mid := (((h.plane p).setSession i k next).setSession i k answered).updateInterest i session.fd
    true true
  have step : reactorStep cfg i .run (h.plane p) =
      some (mid.setStack i (.handleWritable session.fd :: .popLoop k :: rest),
        [.system k frame, .appended i k (ackFrame .kKpaliveAck session.nid)]) := by
    simp only [reactorStep, serving.stack, stepPop, serving.found, popped, isSys, if_true, handleSystem,
      type, sendBytes_ackFrame]
    rfl
  have confined : Confined i (h.plane p) mid :=
    ((Confined.setSession next).trans (.setSession answered)).trans (.updateInterest ..)
  obtain ⟨maps, sessions⟩ := updateInterest_maps
    (((h.plane p).setSession i k next).setSession i k answered) i session.fd true true
  refine serving.go inside step confined (updateInterest_wakeFd ..) ?_ ?_ rfl
  · rw [maps]
    simp only [PlaneState.setSession, PlaneState.setReactor, Function.update_self]
  · rw [sessions]
    simp only [PlaneState.setSession, PlaneState.setReactor, Function.update_self]
    rfl

theorem writable_looks_up : CanReach (hubSystem cfg)
    (Serving p i k (.handleWritable session.fd :: rest) session)
    (Serving p i k (.writeLoop k :: rest) session) := by
  refine serving_moves inside .run fun h serving => ?_
  simp only [reactorStep, serving.stack, stepWritable, serving.lookup, PlaneState.subscript,
    serving.found]

theorem send_blocks (unsent : session.outbuf.isEmpty = false) :
    CanReach (hubSystem cfg) (Serving p i k (.writeLoop k :: rest) session)
      (Serving p i k rest session) := by
  intro h serving
  have step : reactorStep cfg i (.send .wouldBlock) (h.plane p) =
      some (((h.plane p).updateInterest i session.fd true true).setStack i rest, []) := by
    simp only [reactorStep, serving.stack, stepWrite, serving.found, unsent, Bool.false_eq_true,
      if_false]
  obtain ⟨maps, sessions⟩ := updateInterest_maps (h.plane p) i session.fd true true
  refine serving.go inside step (.updateInterest ..) (updateInterest_wakeFd ..) maps ?_ rfl
  rw [sessions]
  exact serving.found

theorem loop_ends : CanReach (hubSystem cfg)
    (Serving p i k [.events [], .drainSendQueue, .poll] session) (Serving p i k [.poll] session) := by
  have finished : CanReach (hubSystem cfg)
      (Serving p i k [.events [], .drainSendQueue, .poll] session)
      (Serving p i k [.drainSendQueue, .poll] session) := by
    refine serving_moves inside .run fun h serving => ?_
    simp only [reactorStep, serving.stack, stepEvents]
  refine finished.trans (serving_moves inside .run fun h serving => ?_)
  simp only [reactorStep, serving.stack, stepDrainSend, serving.nothing, pop]

end Calls

theorem small_stranger : ∃ taken h session, HubRun (smallConfig 4) smallWakeFd taken h ∧
    Serving .kForward 0 1 [.poll] session h ∧ session.authed = false ∧ session.fb = .empty := by
  obtain ⟨taken, h, run, _, seen⟩ := small_run 4 (fun _ => true)
    (connecting .kForward 0 smallWakeFd 5)
    (fun x => x.1.sound && (x.1.plane .kForward).running &&
      decide ((x.1.plane .kForward).sendQueue 0 = []) &&
      decide (((x.1.plane .kForward).reactor 0).stack = [.poll]) &&
      decide ((x.1.plane .kForward).wakeFd 0 = 100) &&
      decide (((x.1.plane .kForward).reactor 0).fdToSid 5 = some 1) &&
      decide ((((x.1.plane .kForward).reactor 0).sessions 1).map
        (fun s => (s.fd, s.authed, s.fb)) = some (5, false, .empty)))
    (by decide +kernel)
  simp only [Bool.and_eq_true, decide_eq_true_eq, Option.map_eq_some_iff, Prod.mk.injEq] at seen
  obtain ⟨⟨⟨⟨⟨⟨sound, running⟩, nothing⟩, stack⟩, wakeFd⟩, lookup⟩, session, found, fd, stranger,
    empty⟩ := seen
  refine ⟨taken, h, session, run, ⟨sound, running, nothing, stack, found, ?_, ?_⟩, stranger, empty⟩
  · rw [fd]
    exact lookup
  · rw [fd, wakeFd]
    decide

section Rounds

def request (cmd : SysCmd) : Frame := ⟨cmd.code, 0, kFlagSys, [], by decide⟩

theorem request_sys (cmd : SysCmd) :
    headerFieldHost (request cmd).view.header WireHeader.flag = kFlagSys := (request cmd).view_shows.2.2.1

theorem request_type (cmd : SysCmd) :
    SysCmd.ofCode (headerFieldHost (request cmd).view.header WireHeader.type) = some cmd := by
  rw [(request cmd).view_shows.1]
  exact SysCmd.ofCode_code cmd

def requests (cmd : SysCmd) (n : Nat) : Bytes := stream (List.replicate n (request cmd))

theorem requests_length (cmd : SysCmd) (n : Nat) : (requests cmd n).length = n * kWireHeaderSize := by
  induction n with
  | zero => rw [Nat.zero_mul]; rfl
  | succ n ih =>
      rw [requests, List.replicate_succ, stream, List.flatMap_cons, List.length_append,
        Frame.encode_length, ← stream, ← requests, ih, Nat.succ_mul, Nat.add_comm]
      rfl

variable {cfg : HubConfig} {p : Plane} {i k : Nat} {session : Session} {h : HubServer}
  (inside : i < cfg.reactors)
include inside

theorem refused_round (stranger : session.authed = false) (n : Nat) :
    CanReach (hubSystem cfg)
      (Serving p i k [.poll] { session with fb := ⟨requests .kUnsubReq n⟩ })
      (Serving p i k [.poll] { session with fb := ⟨requests .kUnsubReq (n + 1)⟩ }) := by
  have appended : requests .kUnsubReq n ++ requests .kUnsubReq 2 =
      (request .kUnsubReq).encode ++ requests .kUnsubReq (n + 1) := by
    rw [requests, requests, stream, stream, ← List.flatMap_append, List.replicate_append_replicate]
    rfl
  have size := requests_length .kUnsubReq 2
  have received := @recv_appends cfg p i k { session with fb := ⟨requests .kUnsubReq n⟩ }
    [.events [], .drainSendQueue, .poll] inside (requests .kUnsubReq 2)
    (by rw [size]; decide) (by rw [size]; decide)
  rw [FrameBuffer.append, appended] at received
  have down := @pop_turns_down cfg p i k
    { session with fb := ⟨(request .kUnsubReq).encode ++ requests .kUnsubReq (n + 1)⟩ }
    [.events [], .drainSendQueue, .poll] inside _ _ (tryPopFrame_encode (request .kUnsubReq) _)
    (request_sys .kUnsubReq) ⟨request_type .kUnsubReq, .inl stranger⟩
  exact ((((poll_reports inside).trans (readable_looks_up inside)).trans received).trans down).trans
    (loop_ends inside)

/-- A client that is not authenticated makes the buffer of its session as large as it likes: each
call of `HandleReadable` takes in what has come, turns the first `UNSUB_REQ` down and returns. -/
theorem refused_requests_pile_up (serving : Serving p i k [.poll] session h)
    (stranger : session.authed = false) (empty : session.fb = .empty) (n : Nat) :
    ∃ more t next, Run (hubSystem cfg) h more t ∧ Serving p i k [.poll] next t ∧
      next.authed = false ∧ next.fb = ⟨requests .kUnsubReq n⟩ := by
  have start : Serving p i k [.poll] { session with fb := ⟨requests .kUnsubReq 0⟩ } h := by
    rw [show (⟨requests .kUnsubReq 0⟩ : FrameBuffer) = session.fb from empty.symm]
    exact serving
  obtain ⟨more, t, run, done⟩ := CanReach.iterate (refused_round inside stranger) n h start
  exact ⟨more, t, _, run, done, stranger, rfl⟩

omit inside in
/-- A hundred million requests of a connection that has never authenticated. -/
theorem refused_requests_pile_up_connected :
    ∃ taken h session, HubRun (smallConfig 4) smallWakeFd taken h ∧
      ((h.plane .kForward).reactor 0).sessions 1 = some session ∧ session.authed = false ∧
      session.fb = ⟨requests .kUnsubReq 100000000⟩ ∧
      session.fb.buf.length = 100000000 * kWireHeaderSize := by
  obtain ⟨taken, h, session, run, serving, stranger, empty⟩ := small_stranger
  obtain ⟨more, t, next, later, held, unknown, frames⟩ :=
    refused_requests_pile_up (show 0 < (smallConfig 4).reactors from Nat.one_pos) serving stranger empty
      100000000
  refine ⟨taken ++ more, t, next, run.append later, held.found, unknown, frames, ?_⟩
  rw [frames]
  exact requests_length ..

theorem answered_round (empty : session.fb = .empty) :
    CanReach (hubSystem cfg) (Serving p i k [.poll] session)
      (Serving p i k [.poll]
        { session with outbuf := session.outbuf ++ ackFrame .kKpaliveAck session.nid }) := by
  let waiting : List Task := [.events [], .drainSendQueue, .poll]
  let answered : Session :=
    { session with outbuf := session.outbuf ++ ackFrame .kKpaliveAck session.nid }
  have unsent : answered.outbuf.isEmpty = false :=
    List.isEmpty_eq_false_iff.mpr (List.append_ne_nil_of_right_ne_nil _ (encodeFrame_ne_nil _ _ _ _))
  have received := @recv_appends cfg p i k session waiting inside (request .kKpaliveReq).encode
    (by decide) (by decide)
  have popped : (session.fb.append (request .kKpaliveReq).encode).tryPopFrame =
      (some (request .kKpaliveReq).view, session.fb) := by
    have alone := tryPopFrame_encode (request .kKpaliveReq) []
    rw [List.append_nil] at alone
    rw [empty]
    exact alone
  have answer : CanReach (hubSystem cfg) _
      (Serving p i k (.handleWritable answered.fd :: .popLoop k :: waiting) answered) :=
    @pop_answers cfg p i k
      { session with fb := session.fb.append (request .kKpaliveReq).encode } waiting inside _ _ popped
      (request_sys .kKpaliveReq) (request_type .kKpaliveReq)
  have looked := @writable_looks_up cfg p i k answered (.popLoop k :: waiting) inside
  have missed := @pop_misses cfg p i k answered waiting inside answered.fb (by
    rw [show answered.fb = .empty from empty]
    exact FrameBuffer.tryPopFrame_empty)
  have taken := ((poll_reports inside).trans (readable_looks_up inside)).trans received
  have kept := ((taken.trans answer).trans looked).trans (send_blocks inside unsent)
  exact ((kept.trans missed).trans (recv_blocks inside)).trans (loop_ends inside)

/-- A client that does not read makes the output of its session as large as it likes: each
`KPALIVE_REQ` is answered, authenticated or not. -/
theorem unread_answers_pile_up (serving : Serving p i k [.poll] session h)
    (empty : session.fb = .empty) (n : Nat) :
    ∃ more t next, Run (hubSystem cfg) h more t ∧ Serving p i k [.poll] next t ∧
      next.authed = session.authed ∧
      next.outbuf = session.outbuf ++
        (List.replicate n (ackFrame .kKpaliveAck session.nid)).flatten := by
  let grown (n : Nat) : Session :=
    { session with
      outbuf := session.outbuf ++ (List.replicate n (ackFrame .kKpaliveAck session.nid)).flatten }
  have round : ∀ n, CanReach (hubSystem cfg) (Serving p i k [.poll] (grown n))
      (Serving p i k [.poll] (grown (n + 1))) := by
    intro n
    have more : (grown n).outbuf ++ ackFrame .kKpaliveAck (grown n).nid = (grown (n + 1)).outbuf := by
      simp only [grown, List.replicate_succ', List.flatten_concat, List.append_assoc]
    have answered := @answered_round cfg p i k (grown n) inside empty
    rw [more] at answered
    exact answered
  have start : Serving p i k [.poll] (grown 0) h := by
    simpa only [grown, List.replicate_zero, List.flatten_nil, List.append_nil] using serving
  obtain ⟨more, t, run, done⟩ := CanReach.iterate round n h start
  exact ⟨more, t, grown n, run, done, rfl, rfl⟩

omit inside in
/-- As many answers to a connection that has never authenticated. -/
theorem unread_answers_pile_up_connected :
    ∃ taken h session, HubRun (smallConfig 4) smallWakeFd taken h ∧
      ((h.plane .kForward).reactor 0).sessions 1 = some session ∧ session.authed = false ∧
      100000000 * kWireHeaderSize ≤ session.outbuf.length := by
  obtain ⟨taken, h, session, run, serving, stranger, empty⟩ := small_stranger
  obtain ⟨more, t, next, later, held, unknown, output⟩ :=
    unread_answers_pile_up (show 0 < (smallConfig 4).reactors from Nat.one_pos) serving empty 100000000
  refine ⟨taken ++ more, t, next, run.append later, held.found, unknown.trans stranger, ?_⟩
  have size : (ackFrame .kKpaliveAck session.nid).length = kWireHeaderSize := encodeFrame_length ..
  rw [output, List.length_append, List.length_flatten, List.map_replicate, size,
    List.sum_replicate_nat]
  exact Nat.le_add_left ..

end Rounds

end HiImCore.Hub
