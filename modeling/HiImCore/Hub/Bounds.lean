import HiImCore.Hub.Intake
import HiImCore.Hub.ReadableCall

/-! What the hub holds at a time: the queues keep to their capacity, and the buffer of a session
to one frame and one chunk, unless a request is turned down in front of other frames. -/

namespace HiImCore.Hub

open Transition Wire

section Queues

variable {cfg : HubConfig} {pl post : PlaneState}

/-- No queue on the way of the messages exceeds its capacity. -/
structure Traffic.Within (cfg : HubConfig) (t : Traffic) : Prop where
  recvQueue : ∀ w, (t.recvQueue w).length ≤ cfg.queueCapacity
  distQueue : t.distQueue.length ≤ cfg.queueCapacity
  sendQueue : ∀ i, (t.sendQueue i).length ≤ cfg.queueCapacity

theorem update_within {α : Type} {queues : Nat → List α} {capacity i : Nat} {queue : List α}
    (all : ∀ j, (queues j).length ≤ capacity) (here : queue.length ≤ capacity) (j : Nat) :
    (Function.update queues i queue j).length ≤ capacity := by
  rw [Function.update_apply]
  split
  · exact here
  · exact all j

theorem appended_within {α : Type} {queue : List α} {capacity : Nat} (room : queue.length < capacity)
    (value : α) : (queue ++ [value]).length ≤ capacity := by
  rw [List.length_append, List.length_singleton]
  exact room

theorem front_within {α : Type} {queue left : List α} {capacity : Nat} {value : α}
    (front : queue = value :: left) (all : queue.length ≤ capacity) : left.length ≤ capacity := by
  rw [front, List.length_cons] at all
  omega

theorem ReactorEffect.within {i : Nat} {events : List Event} {t : Traffic}
    (effect : ReactorEffect cfg i pl events t) (within : pl.traffic.Within cfg) : t.Within cfg := by
  obtain ⟨recv, dist, send⟩ := within
  cases effect with
  | pushed held index room => exact ⟨update_within recv (appended_within room _), dist, send⟩
  | dropped front absent => exact ⟨recv, dist, update_within send (front_within front (send i))⟩
  | sent front found => exact ⟨recv, dist, update_within send (front_within front (send i))⟩
  | _ => exact ⟨recv, dist, send⟩

theorem DistributorEffect.within {events : List Event} {t : Traffic}
    (effect : DistributorEffect cfg pl events t) (within : pl.traffic.Within cfg) : t.Within cfg := by
  obtain ⟨recv, dist, send⟩ := within
  cases effect with
  | took was front => exact ⟨recv, front_within front dist, send⟩
  | posted was index room => exact ⟨recv, dist, update_within send (appended_within room _)⟩
  | _ => exact ⟨recv, dist, send⟩

theorem WorkerEffect.within {p : Plane} {w : Nat} {peer : PlaneState} {s : WorkerStep}
    (effect : WorkerEffect cfg p w pl peer s) (recv : (pl.recvQueue w).length ≤ cfg.queueCapacity)
    (dist : peer.distQueue.length ≤ cfg.queueCapacity) :
    s.recvQueue.length ≤ cfg.queueCapacity ∧ s.distQueue.length ≤ cfg.queueCapacity := by
  cases effect with
  | took was front => exact ⟨front_within front recv, dist⟩
  | pushed was room results => exact ⟨recv, appended_within room _⟩
  | _ => exact ⟨recv, dist⟩

theorem HubEffect.within {h next : HubServer} {act : Action} {entries : List Entry}
    (effect : HubEffect cfg h act next entries) (within : ∀ q, (h.plane q).traffic.Within cfg) :
    ∀ q, (next.plane q).traffic.Within cfg := by
  cases effect with
  | listening same silent =>
      intro q
      rw [same]
      exact within q
  | reactor effect =>
      exact HubServer.forall_setPlane (P := fun _ pl => pl.traffic.Within cfg)
        (effect.within (within _)) within
  | distributor effect =>
      exact HubServer.forall_setPlane (P := fun _ pl => pl.traffic.Within cfg)
        (effect.within (within _)) within
  | @worker p w s effect =>
      obtain ⟨recv, dist⟩ := effect.within ((within p).recvQueue w) (within p.peer).distQueue
      refine HubServer.forall_setPlanes (P := fun _ pl => pl.traffic.Within cfg) ?_ ?_
      · exact ⟨update_within (within p).recvQueue recv, (within p).distQueue, (within p).sendQueue⟩
      · exact ⟨(within p.peer).recvQueue, dist, (within p.peer).sendQueue⟩

theorem Turn.connQueue {i : Nat} {mid : PlaneState} {task : Task} {calls : List Task}
    (turn : Turn i pl task mid calls) (j : Nat) :
    (mid.connQueue j).length ≤ (pl.connQueue j).length := by
  by_cases own : j = i
  · subst own
    cases turn with
    | resumed same resumes => rw [same.connQueue]
    | reads found face writes reads => rw [writes.connQueue]
    | sends found face writes some caller => rw [updateInterest_connQueue, writes.connQueue]
    | wrote found writes => rw [writes.connQueue]
    | stopsWriting found => rw [updateInterest_connQueue]
    | closes found closes ends => rw [closes.connQueue]
    | registered queue =>
        change (Function.update pl.connQueue j _ j).length ≤ _
        rw [Function.update_self, queue, List.length_cons]
        omega
    | _ => exact le_rfl
  · rw [(turn.others own).2.1]

theorem listenerStep_within {round : UInt64} {events : List Event}
    (step : listenerStep cfg round pl = some (post, events))
    (within : ∀ i, (pl.connQueue i).length ≤ cfg.queueCapacity) :
    ∀ i, (post.connQueue i).length ≤ cfg.queueCapacity := by
  cases listenerStep_listens step with
  | queued was index room => exact update_within within (appended_within room _)
  | _ => exact within

theorem PlaneStep.within {h : HubServer} {p : Plane} {act : Action} {events : List Event}
    {g : Registry} (step : PlaneStep cfg h p act pl events) (agrees : Agrees g (h.plane p).core)
    (within : ∀ i, ((h.plane p).connQueue i).length ≤ cfg.queueCapacity) :
    ∀ i, (pl.connQueue i).length ≤ cfg.queueCapacity := by
  cases step with
  | aside same inRange =>
      rw [same.connQueue]
      exact within
  | accepted free step =>
      cases acceptStep_accepts step with
      | taken was => exact within
      | blocking => exact within
  | listened step => exact listenerStep_within step within
  | distributed step =>
      rw [(distributorStep_apart step).connQueue]
      exact within
  | reacted inside step =>
      obtain ⟨task, rest, top, _, ⟨mid, calls, turn, rfl⟩ | rfl⟩ := reactorStep_turns agrees step
      · intro i
        exact (turn.connQueue i).trans (within i)
      · exact within

end Queues

section Stacks

def Task.reads : Task → Bool
  | .handleReadable _ | .recvLoop _ | .popLoop _ => true
  | _ => false

def Task.helps : Task → Bool
  | .pushInbound .. | .handleWritable _ | .writeLoop _ => true
  | _ => false

def Orderly : List Task → Prop
  | [] => True
  | task :: below => (task.helps = false → ∀ t ∈ below, t.reads = false) ∧ Orderly below

theorem Orderly.below {task : Task} {rest : List Task} (orderly : Orderly (task :: rest))
    (other : task.helps = false) : ∀ t ∈ rest, t.reads = false := orderly.1 other

theorem Orderly.replace {task next : Task} {rest : List Task} (orderly : Orderly (task :: rest))
    (other : task.helps = false) : Orderly (next :: rest) := ⟨fun _ => orderly.below other, orderly.2⟩

theorem Orderly.push {helper : Task} {stack : List Task} (orderly : Orderly stack)
    (helps : helper.helps = true) : Orderly (helper :: stack) := by
  refine ⟨fun other => ?_, orderly⟩
  rw [helps] at other
  cases other

theorem PollEvent.orderly (event : PollEvent) {later : List PollEvent} {rest : List Task}
    (orderly : Orderly (.events later :: rest)) :
    Orderly (event.calls ++ .events later :: rest) := by
  have writing : Orderly ((if event.writable then [Task.handleWritable event.fd] else []) ++
      .events later :: rest) := by
    split
    · exact orderly.push rfl
    · exact orderly
  have quiet : ∀ t ∈ (if event.writable then [Task.handleWritable event.fd] else []) ++
      .events later :: rest, t.reads = false := by
    intro t member
    rcases List.mem_append.mp member with call | below
    · split at call
      · rw [List.mem_singleton.mp call]
        rfl
      · cases call
    · rcases List.mem_cons.mp below with rfl | deeper
      · rfl
      · exact orderly.below rfl t deeper
  rw [PollEvent.calls, List.append_assoc]
  split
  · exact ⟨fun _ => quiet, writing⟩
  · exact writing

theorem Turn.orderly {i : Nat} {pl mid : PlaneState} {task : Task} {calls rest : List Task}
    (turn : Turn i pl task mid calls) (orderly : Orderly (task :: rest)) : Orderly (calls ++ rest) := by
  cases turn with
  | resumed same resumes =>
      cases resumes with
      | polled batch =>
          have quiet : ∀ t ∈ Task.drainSendQueue :: .poll :: rest, t.reads = false := by
            simpa [Task.reads] using orderly.below rfl
          exact ⟨fun _ => quiet, fun _ => (List.forall_mem_cons.mp quiet).2, orderly⟩
      | stopped => exact orderly.replace rfl
      | dispatched event later =>
          rw [List.append_assoc]
          exact event.orderly (orderly.replace rfl)
      | retried => exact orderly.2.push rfl
      | dropped => exact orderly
      | nobody => exact orderly
      | _ => exact orderly.2
  | woken =>
      have quiet : ∀ t ∈ Task.drainSendQueue :: rest, t.reads = false :=
        List.forall_mem_cons.mpr ⟨rfl, orderly.below rfl⟩
      exact ⟨fun _ => quiet, orderly.replace rfl⟩
  | readable => exact orderly.replace rfl
  | writable => exact orderly.2.push rfl
  | reads found face writes reads =>
      cases reads with
      | received msg => exact Orderly.push orderly rfl
      | refused => exact orderly.2
      | _ => exact orderly.replace rfl
  | sends found face writes some caller => exact Orderly.push orderly rfl
  | wrote => exact orderly
  | closes found closes ends =>
      cases ends with
      | expelled => exact orderly
      | shutDown => exact orderly
      | _ => exact orderly.2
  | registered => exact orderly
  | _ => exact orderly.2

theorem Turn.popLoop {i k : Nat} {pl mid : PlaneState} {task : Task} {calls : List Task}
    (turn : Turn i pl task mid calls) (popping : .popLoop k ∈ calls) :
    task = .recvLoop k ∨ task = .popLoop k := by
  cases turn with
  | resumed same resumes =>
      cases resumes with
      | dispatched event later =>
          rcases List.mem_append.mp popping with call | last
          · rcases PollEvent.mem_calls call with same | same <;> cases same
          · cases List.mem_singleton.mp last
      | _ => simp at popping
  | reads found face writes reads =>
      cases reads with
      | appended => simp_all
      | ignored => simp_all
      | received msg => simp_all
      | _ => simp at popping
  | sends found face writes some caller => simp_all
  | closes found closes ends =>
      cases ends with
      | expelled => simp_all
      | _ => simp at popping
  | _ => simp at popping

end Stacks

section Buffers

/-- The longest frame and one chunk. -/
def kBufferBound : Nat := kWireHeaderSize + (UInt32.size - 1) + kRecvSize

def Tame (stack : List Task) (k : Nat) (fb : FrameBuffer) : Prop :=
  if .popLoop k ∈ stack then fb.buf.length < kBufferBound else fb.tryPopFrame = (none, fb)

theorem incomplete_length {fb : FrameBuffer} (incomplete : fb.tryPopFrame = (none, fb)) :
    fb.buf.length < kWireHeaderSize + (UInt32.size - 1) := by
  unfold FrameBuffer.tryPopFrame at incomplete
  split at incomplete
  · rename_i short
    exact Nat.lt_add_right _ short
  · split at incomplete
    · have cleared : fb.clear = fb := (Prod.mk.inj incomplete).2
      rw [← cleared, FrameBuffer.clear, List.length_nil]
      exact Nat.lt_add_right _ (by decide)
    · rename_i hdr _
      have small := Nat.le_sub_one_of_lt (headerFieldHost hdr WireHeader.length).toNat_lt_size
      dsimp only at incomplete
      split at incomplete
      · rename_i missing
        exact Nat.lt_of_lt_of_le missing (Nat.add_le_add_left small _)
      · cases (Prod.mk.inj incomplete).1

variable {stack : List Task} {k : Nat}

theorem Tame.bounded {fb : FrameBuffer} (tame : Tame stack k fb) : fb.buf.length < kBufferBound := by
  unfold Tame at tame
  split at tame
  · exact tame
  · exact Nat.lt_add_right _ (incomplete_length tame)

theorem chunk_bounded {size chunk : Nat} (short : size < kWireHeaderSize + (UInt32.size - 1))
    (within : chunk ≤ kRecvSize) : size + chunk < kBufferBound :=
  Nat.add_lt_add_of_lt_of_le short within

theorem bound_pos : 0 < kBufferBound := Nat.lt_add_right _ (Nat.lt_add_right _ (by decide))

theorem tame_empty : Tame stack k .empty := by
  unfold Tame
  split
  · exact bound_pos
  · rfl

theorem Intake.tame {state next : Option FrameBuffer} {frames : List FrameView}
    {after : List Task} (intake : Intake state [] frames next)
    (same : .popLoop k ∈ after ↔ .popLoop k ∈ stack)
    (before : ∀ fb, state = some fb → Tame stack k fb) : ∀ fb, next = some fb → Tame after k fb := by
  unfold Tame at before ⊢
  simp only [same]
  generalize nothing : ([] : Bytes) = data at intake
  intro fb found
  cases intake with
  | idle => exact before fb found
  | opened =>
      obtain rfl := Option.some.inj found
      exact tame_empty
  | appended old =>
      obtain rfl := Option.some.inj found
      subst nothing
      rw [FrameBuffer.append, List.append_nil]
      exact before old rfl
  | stuck popped =>
      obtain rfl := Option.some.inj found
      have old := before _ rfl
      split
      · rename_i popping
        rw [if_pos popping] at old
        rcases FrameBuffer.tryPopFrame_none popped with rfl | rfl
        · exact old
        · exact bound_pos
      · exact FrameBuffer.tryPopFrame_none_again popped
  | handled popped =>
      obtain rfl := Option.some.inj found
      have old := before _ rfl
      split
      · rename_i popping
        rw [if_pos popping] at old
        exact (FrameBuffer.tryPopFrame_shrinks popped).trans old
      · rename_i waiting
        rw [if_neg waiting, popped] at old
        cases (Prod.mk.inj old).1
  | shut => cases found
  | handledLast => cases found
  | expelled => cases found

end Buffers

section Reading

variable {cfg : HubConfig} {i k : Nat} {input : ReactorInput} {pl post : PlaneState}
  {rest : List Task} {events : List Event} {g : Registry} (agrees : Agrees g pl.core)

theorem handleSystem_stops {session : Session} {frame : FrameView} (named : session.sid = k)
    (stops : (handleSystem cfg i k session frame pl).2 = false) :
    UnsubRefused session frame ∨
      (handleSystem cfg i k session frame pl).1.state.buffers i k = none := by
  have closed : (closeSession i session.sid pl).state.buffers i k = none := by
    rw [named, buffers_closeSession, Function.update_self]
  revert stops
  unfold handleSystem
  dsimp only
  split
  · split
    · exact fun _ => .inr closed
    · split
      · intro stops
        cases stops
      · exact fun _ => .inr closed
  · split
    · exact fun _ => .inr closed
    · intro stops
      cases stops
  · rename_i type
    split
    · rename_i bad
      exact fun _ => .inl ⟨type, bad⟩
    · intro stops
      cases stops
  · intro stops
    cases stops
  · intro stops
    cases stops

include agrees

theorem stepRecv_tame (top : (pl.reactor i).stack = .recvLoop k :: rest)
    (orderly : Orderly (.recvLoop k :: rest))
    (step : stepRecv i input pl rest k = some (post, events))
    (tame : ∀ fb, pl.buffers i k = some fb → Tame (pl.reactor i).stack k fb) :
    ∀ fb, post.buffers i k = some fb → Tame (post.reactor i).stack k fb := by
  have outside : .popLoop k ∉ rest := by
    intro member
    cases orderly.below rfl _ member
  have waiting : ∀ fb, pl.buffers i k = some fb → fb.tryPopFrame = (none, fb) := by
    intro fb found
    have before := tame fb found
    unfold Tame at before
    rwa [if_neg (by simp [top, outside])] at before
  unfold stepRecv at step
  intro fb found
  split at step
  · cases step
    exact tame fb found
  · rename_i session bytes here
    split at step
    · rename_i chunk
      cases step
      rw [buffers_setStack, buffers_setSession, Function.update_self] at found
      obtain rfl := Option.some.inj found
      have short := incomplete_length (waiting session.fb (by rw [PlaneState.buffers, here]; rfl))
      simp only [PlaneState.setStack, PlaneState.setReactor, Function.update_self, Tame,
        List.mem_cons_self, if_true, FrameBuffer.append_buf, List.length_append]
      exact chunk_bounded short chunk.2
    · cases step
  · cases step
    rw [buffers_setStack] at found
    simp only [PlaneState.setStack, PlaneState.setReactor, Function.update_self, Tame, outside, if_false]
    exact waiting fb found
  all_goals first
    | cases step
      rename_i session here
      rw [buffers_setStack, session_named agrees here, buffers_closeSession,
        Function.update_self] at found
      cases found
    | cases step

theorem stepPop_tame (orderly : Orderly (.popLoop k :: rest))
    (step : stepPop cfg i input pl rest k = some (post, events))
    (tame : ∀ fb, pl.buffers i k = some fb → Tame (pl.reactor i).stack k fb)
    (kept : ∀ session frame, (pl.reactor i).sessions k = some session → .system k frame ∈ events →
      ¬ UnsubRefused session frame) :
    ∀ fb, post.buffers i k = some fb → Tame (post.reactor i).stack k fb := by
  have outside : .popLoop k ∉ rest := by
    intro member
    cases orderly.below rfl _ member
  unfold stepPop at step
  intro fb found
  split at step
  · cases step
    exact tame fb found
  · rename_i session here
    have bounded := (tame session.fb (by rw [PlaneState.buffers, here]; rfl)).bounded
    have named := session_named agrees here
    split at step
    · rename_i left popped
      cases step
      rw [buffers_setStack, buffers_setSession, Function.update_self] at found
      obtain rfl := Option.some.inj found
      simp only [PlaneState.setStack, PlaneState.setReactor, Function.update_self, Tame,
        List.mem_cons, reduceCtorEq, outside, or_self, if_false]
      exact FrameBuffer.tryPopFrame_none_again popped
    · rename_i frame left popped
      have shorter := FrameBuffer.tryPopFrame_shrinks popped
      let next : Session := { session with fb := left }
      have present : (pl.setSession i k next).buffers i k = some next.fb := by
        rw [buffers_setSession, Function.update_self]
      -- Where the loop goes on, the buffer is what the frame has left of it.
      have goesOn : ∀ (state : PlaneState) (calls : List Task),
          (state.buffers i = (pl.setSession i k next).buffers i ∨
            state.buffers i = Function.update ((pl.setSession i k next).buffers i) k none) →
          (state.setStack i (calls ++ .popLoop k :: rest)).buffers i k = some fb →
          Tame ((state.setStack i (calls ++ .popLoop k :: rest)).reactor i).stack k fb := by
        intro state calls buffers found
        rw [buffers_setStack] at found
        simp only [PlaneState.setStack, PlaneState.setReactor, Function.update_self, Tame,
          List.mem_append, List.mem_cons_self, or_true, if_true]
        rcases buffers with same | gone
        · rw [same, present] at found
          obtain rfl := Option.some.inj found
          exact shorter.trans bounded
        · rw [gone, Function.update_self] at found
          cases found
      dsimp only at step
      split at step
      · cases ok : (handleSystem cfg i k next frame (pl.setSession i k next)).2 with
        | true =>
            rw [ok, if_pos rfl] at step
            cases step
            exact goesOn _ _ (handleSystem_buffers next frame present named) found
        | false =>
            rw [ok, if_neg Bool.false_ne_true] at step
            cases step
            rcases @handleSystem_stops cfg i k _ next frame named ok with refused | gone
            · exact absurd refused (kept session frame here List.mem_cons_self)
            · rw [buffers_setStack, gone] at found
              cases found
      · cases step
        refine goesOn _ _ ?_ found
        rcases enqueueInbound_buffers next frame present named with ⟨same, _⟩ | ⟨gone, _⟩
        · exact .inl same
        · exact .inr gone
  · cases step

theorem reactorStep_tame (orderly : Orderly (pl.reactor i).stack)
    (step : reactorStep cfg i input pl = some (post, events))
    (tame : ∀ fb, pl.buffers i k = some fb → Tame (pl.reactor i).stack k fb)
    (kept : ∀ session frame, (pl.reactor i).sessions k = some session → .system k frame ∈ events →
      ¬ UnsubRefused session frame) :
    ∀ fb, post.buffers i k = some fb → Tame (post.reactor i).stack k fb := by
  obtain ⟨task, rest, top, _, turns⟩ := reactorStep_turns agrees step
  rw [top] at orderly
  by_cases receiving : task = .recvLoop k
  · subst receiving
    simp only [reactorStep, top] at step
    exact stepRecv_tame agrees top orderly step tame
  by_cases popping : task = .popLoop k
  · subst popping
    simp only [reactorStep, top] at step
    exact stepPop_tame agrees orderly step tame kept
  · have takes := reactorStep_takes agrees step k
    rw [recvData_outside top k receiving] at takes
    refine takes.tame ?_ tame
    rcases turns with ⟨mid, calls, turn, rfl⟩ | rfl
    · have others : .popLoop k ∉ calls := by
        intro member
        rcases turn.popLoop member with same | same
        · exact receiving same
        · exact popping same
      simp only [PlaneState.setStack, PlaneState.setReactor, Function.update_self, top,
        List.mem_append, List.mem_cons, others, Ne.symm popping, false_or]
    · rfl

end Reading

section Runs

variable {cfg : HubConfig} {wakeFd : Plane → Nat → Int}
  {taken : List (Taken HubServer Action Entry)} {h : HubServer}

theorem hubRun_orderly (run : HubRun cfg wakeFd taken h) (p : Plane) (i : Nat) :
    Orderly ((h.plane p).reactor i).stack := by
  have first : Orderly [.poll] := ⟨fun _ t member => absurd member List.not_mem_nil, trivial⟩
  refine run.invariant (fun _ h => Orderly ((h.plane p).reactor i).stack) first ?_
  intro past pre act post events before orderly step
  have agrees := (hubRun_follows before p).2
  rcases (hubStep_plane p step).reactor agrees i with same | ⟨task, mid, calls, rest, turn, top, done⟩
  · rwa [same]
  · rw [top] at orderly
    rw [done]
    simp only [PlaneState.setStack, PlaneState.setReactor, Function.update_self]
    exact turn.orderly orderly

/-- A step that turns an `UNSUB_REQ` of session `k` down and keeps the session. -/
def TurnsDown (p : Plane) (k : Nat) (x : Taken HubServer Action Entry) : Prop :=
  ∃ i session frame, ((x.pre.plane p).reactor i).sessions k = some session ∧
    (p, .system k frame) ∈ x.events ∧ UnsubRefused session frame

def Event.isSystem : Event → Bool
  | .system .. => true
  | _ => false

theorem hubRun_within (run : HubRun cfg wakeFd taken h) :
    ∀ q, (h.plane q).traffic.Within cfg := by
  refine run.invariant (fun _ h => ∀ q, (h.plane q).traffic.Within cfg) ?_ ?_
  · intro q
    exact ⟨fun _ => Nat.zero_le _, Nat.zero_le _, fun _ => Nat.zero_le _⟩
  · intro past pre act post events before within step
    exact (hubRun_effect before step).within within

theorem hubRun_connQueue (run : HubRun cfg wakeFd taken h) (p : Plane) :
    ∀ i, ((h.plane p).connQueue i).length ≤ cfg.queueCapacity := by
  refine run.invariant (fun _ h => ∀ i, ((h.plane p).connQueue i).length ≤ cfg.queueCapacity)
    (fun _ => Nat.zero_le _) ?_
  intro past pre act post events before within step
  exact (hubStep_plane p step).within (hubRun_follows before p).2 within

theorem hubRun_tame (run : HubRun cfg wakeFd taken h) (p : Plane) (k : Nat)
    (served : ∀ x ∈ taken, ¬ TurnsDown p k x) (i : Nat) :
    ∀ fb, (h.plane p).buffers i k = some fb → Tame ((h.plane p).reactor i).stack k fb := by
  refine run.invariant_within (fun x => ¬ TurnsDown p k x)
    (fun _ h => ∀ fb, (h.plane p).buffers i k = some fb → Tame ((h.plane p).reactor i).stack k fb)
    ?_ ?_ served
  · intro fb found
    cases found
  · intro past pre act post entries before _ tame kept step
    rcases hubStep_reactor (hubRun_shaped before) step p with ⟨j, input, rfl, inside⟩ | ⟨_, same, _⟩
    · have agrees := (hubRun_follows before p).2
      by_cases own : i = j
      · subst own
        refine reactorStep_tame agrees (hubRun_orderly before p i) inside tame ?_
        intro session frame found seen refused
        exact kept ⟨i, session, frame, found, mem_onPlane.mp seen, refused⟩
      · obtain ⟨task, rest, top, _, ⟨mid, calls, turn, done⟩ | done⟩ := reactorStep_turns agrees inside
        · have reactor : (post.plane p).reactor i = (pre.plane p).reactor i := by
            rw [done]
            exact (Function.update_of_ne own ..).trans (turn.others own).1
          unfold PlaneState.buffers
          rwa [reactor]
        · rw [done]
          exact tame
    · unfold PlaneState.buffers
      rwa [same]

/-- The queues never exceed their capacity, and the buffer of a session never exceeds one frame and
one chunk as long as none of its `UNSUB_REQ`s is turned down. -/
theorem queues_and_buffers_are_bounded (run : HubRun cfg wakeFd taken h) (p : Plane) :
    (∀ i, ((h.plane p).connQueue i).length ≤ cfg.queueCapacity ∧
      ((h.plane p).sendQueue i).length ≤ cfg.queueCapacity) ∧
    (∀ w, ((h.plane p).recvQueue w).length ≤ cfg.queueCapacity) ∧
    (h.plane p).distQueue.length ≤ cfg.queueCapacity ∧
    ∀ k, (∀ x ∈ taken, ¬ TurnsDown p k x) → ∀ i session,
      ((h.plane p).reactor i).sessions k = some session → session.fb.buf.length < kBufferBound := by
  have within := hubRun_within run p
  refine ⟨fun i => ⟨hubRun_connQueue run p i, within.sendQueue i⟩, within.recvQueue,
    within.distQueue, ?_⟩
  intro k served i session found
  refine (hubRun_tame run p k served i session.fb ?_).bounded
  rw [PlaneState.buffers, found]
  rfl

/-- Session 1 has sent three bytes of a frame, and a third connection finds the queue full. -/
theorem queues_and_buffers_are_bounded_full :
    ∃ taken h session, HubRun (smallConfig 1) smallWakeFd taken h ∧
      ((h.plane .kForward).reactor 0).sessions 1 = some session ∧ session.fb.buf = [1, 2, 3] ∧
      ((h.plane .kForward).connQueue 0).length = 1 ∧ (.kForward, .refused 7 3) ∈ trace taken ∧
      (∀ i, ((h.plane .kForward).connQueue i).length ≤ 1) ∧ session.fb.buf.length < kBufferBound := by
  obtain ⟨taken, h, run, within, seen⟩ := small_run 1
    (fun x => x.events.all fun e => !e.2.isSystem)
    (connecting .kForward 0 smallWakeFd 5 ++
      reading .kForward 0 5 [.recv (.data [1, 2, 3]), .run, .recv .wouldBlock] ++
      [.accept .kForward 6 true, .listener .kForward, .listener .kForward, .listener .kForward,
        .accept .kForward 7 true, .listener .kForward, .listener .kForward])
    (fun x => decide ((((x.1.plane .kForward).reactor 0).sessions 1).map (·.fb.buf) = some [1, 2, 3]) &&
      decide (((x.1.plane .kForward).connQueue 0).length = 1) &&
      decide ((.kForward, .refused 7 3) ∈ x.2))
    (by decide +kernel)
  simp only [Bool.and_eq_true, decide_eq_true_eq] at seen
  obtain ⟨⟨read, full⟩, refused⟩ := seen
  obtain ⟨session, found, bytes⟩ := Option.map_eq_some_iff.mp read
  have served : ∀ x ∈ taken, ¬ TurnsDown .kForward 1 x := by
    rintro x member ⟨i, other, frame, _, system, _⟩
    have silent := List.all_eq_true.mp (within x member) _ system
    cases silent
  obtain ⟨queues, _, _, buffers⟩ := queues_and_buffers_are_bounded run .kForward
  exact ⟨taken, h, session, run, found, bytes, full, refused, fun i => (queues i).1,
    buffers 1 served 0 session found⟩

end Runs

end HiImCore.Hub
