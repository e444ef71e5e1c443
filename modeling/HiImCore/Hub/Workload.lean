import HiImCore.Hub.Intake
import HiImCore.Lib.Ranking
import Mathlib.Algebra.Order.BigOperators.Group.Finset
import Mathlib.Algebra.Order.BigOperators.Group.List

/-! What a reactor has left to do. After `Stop`, each of its steps that receives no more data
leaves less. -/

namespace HiImCore.Hub

open Ranking Transition Wire

structure Confined (i : Nat) (pl mid : PlaneState) : Prop extends Kept pl mid where
  others : ∀ j, j ≠ i → mid.reactor j = pl.reactor j
  connQueue : mid.connQueue = pl.connQueue
  listener : mid.listener = pl.listener
  nextSid : mid.nextSid = pl.nextSid
  running : mid.running = pl.running
  fault : mid.fault = pl.fault

namespace Confined

variable {pl mid post : PlaneState} {i k : Nat}

theorem refl (i : Nat) (pl : PlaneState) : Confined i pl pl :=
  ⟨.refl pl, fun _ _ => rfl, rfl, rfl, rfl, rfl, rfl⟩

theorem trans (first : Confined i pl mid) (second : Confined i mid post) : Confined i pl post where
  toKept := first.toKept.trans second.toKept
  others := fun j other => (second.others j other).trans (first.others j other)
  connQueue := second.connQueue.trans first.connQueue
  listener := second.listener.trans first.listener
  nextSid := second.nextSid.trans first.nextSid
  running := second.running.trans first.running
  fault := second.fault.trans first.fault

theorem setReactor {r : Reactor} (same : r.stack = (pl.reactor i).stack) :
    Confined i pl (pl.setReactor i r) :=
  ⟨.setReactor same, fun _ other => Function.update_of_ne other .., rfl, rfl, rfl, rfl, rfl⟩

theorem setSession (session : Session) : Confined i pl (pl.setSession i k session) :=
  setReactor rfl

theorem setRouter (router : Router) : Confined i pl { pl with router := router } :=
  ⟨⟨fun _ => rfl, rfl, rfl, rfl, rfl, rfl⟩, fun _ _ => rfl, rfl, rfl, rfl, rfl, rfl⟩

theorem updateInterest (fd : Int) (wantRead wantWrite : Bool) :
    Confined i pl (pl.updateInterest i fd wantRead wantWrite) := by
  unfold PlaneState.updateInterest
  split
  · exact refl i pl
  · exact setReactor rfl

theorem closeSession : Confined i pl (closeSession i k pl).state := by
  refine ⟨.closeSession, ?_, ?_, ?_, ?_, ?_, ?_⟩ <;> unfold Hub.closeSession <;> split
  · exact fun _ _ => rfl
  · exact fun _ other => Function.update_of_ne other ..
  all_goals rfl

theorem sendBytes (session : Session) (data : Bytes) :
    Confined i pl (sendBytes i k session data pl).state := by
  unfold Hub.sendBytes
  split
  · exact refl i pl
  · exact (setSession _).trans (updateInterest ..)

theorem handleSystem (cfg : HubConfig) (session : Session) (frame : FrameView) :
    Confined i pl (handleSystem cfg i k session frame pl).1.state := by
  unfold Hub.handleSystem
  dsimp only
  split
  · split
    · exact closeSession
    · split
      · exact ((setSession _).trans (setRouter _)).trans (sendBytes ..)
      · exact closeSession
  · split
    · exact closeSession
    · exact (setRouter _).trans (sendBytes ..)
  · split
    · exact refl i pl
    · exact (setRouter _).trans (sendBytes ..)
  · exact sendBytes ..
  · exact refl i pl

theorem enqueueInbound (session : Session) (frame : FrameView) :
    Confined i pl (enqueueInbound i k session frame pl).state := by
  unfold Hub.enqueueInbound
  split
  · exact closeSession
  · exact setSession _

end Confined

section Work

def bufferSize : Option FrameBuffer → Nat
  | some fb => fb.buf.length
  | none => 0

namespace Task

def unread (buffers : Nat → Option FrameBuffer) : Task → Nat
  | .popLoop k => bufferSize (buffers k)
  | _ => 0

def attempts : Task → Nat
  | .pushInbound _ _ attempt => kMaxRetries - attempt + 1
  | _ => 0

def errands : Task → Nat
  | .poll => 1
  | .events batch => 6 * batch.length + 1
  | .drainNewConnections => 1
  | .drainSendQueue => 1
  | .handleReadable _ => 3
  | .recvLoop _ => 1
  | .popLoop _ => 2
  | .pushInbound _ _ _ => 0
  | .handleWritable _ => 2
  | .writeLoop _ => 1
  | .closeAll => 0

def unwritten (unsent : Nat → Nat) : Task → Nat
  | .writeLoop k => unsent k
  | _ => 0

end Task

namespace PlaneState

def unsent (pl : PlaneState) (i k : Nat) : Nat :=
  match (pl.reactor i).sessions k with
  | some session => session.outbuf.length
  | none => 0

def opened (pl : PlaneState) (i : Nat) : Nat :=
  ∑ k ∈ Finset.range pl.nextSid, (pl.buffers i k).toList.length

def unread (pl : PlaneState) (i : Nat) : Nat :=
  ((pl.reactor i).stack.map (Task.unread (pl.buffers i))).sum

def attempts (pl : PlaneState) (i : Nat) : Nat := ((pl.reactor i).stack.map Task.attempts).sum

def queued (pl : PlaneState) (i : Nat) : Nat := (pl.connQueue i).length + (pl.sendQueue i).length

def errands (pl : PlaneState) (i : Nat) : Nat :=
  ((pl.reactor i).stack.map Task.errands).sum + pl.opened i

def unwritten (pl : PlaneState) (i : Nat) : Nat :=
  ((pl.reactor i).stack.map (Task.unwritten (pl.unsent i))).sum

end PlaneState

def Worker.inbound (queue : List (Tagged InboundMessage)) : Worker → Nat
  | .handle _ => 2 * queue.length + 1
  | _ => 2 * queue.length

def PlaneState.received (cfg : HubConfig) (pl : PlaneState) : Nat :=
  ∑ w ∈ Finset.range cfg.workers, (pl.worker w).inbound (pl.recvQueue w)

def PlaneState.work (cfg : HubConfig) (i : Nat) (pl : PlaneState) : List Nat :=
  [if pl.fault then 0 else 1, pl.unread i, pl.attempts i, pl.received cfg, pl.queued i,
    pl.errands i, pl.unwritten i]

structure Elsewhere (i : Nat) (pl post : PlaneState) : Prop where
  reactor : ∀ j, j ≠ i → post.reactor j = pl.reactor j
  connQueue : ∀ j, j ≠ i → post.connQueue j = pl.connQueue j
  sendQueue : ∀ j, j ≠ i → post.sendQueue j = pl.sendQueue j
  listener : post.listener = pl.listener
  worker : post.worker = pl.worker
  distributor : post.distributor = pl.distributor
  distQueue : post.distQueue = pl.distQueue
  nextSid : post.nextSid = pl.nextSid
  running : post.running = pl.running

structure Eases (cfg : HubConfig) (i : Nat) (pl post : PlaneState) : Prop
    extends Elsewhere i pl post where
  falls : Falls (post.work cfg i) (pl.work cfg i)

variable {cfg : HubConfig} {i k : Nat} {input : ReactorInput} {pl mid post : PlaneState} {task : Task}
  {rest : List Task} {events : List Event}

theorem unread_le {before after : Nat → Option FrameBuffer}
    (sizes : ∀ k, bufferSize (after k) ≤ bufferSize (before k)) (tasks : List Task) :
    (tasks.map (Task.unread after)).sum ≤ (tasks.map (Task.unread before)).sum := by
  refine List.sum_le_sum fun task _ => ?_
  cases task with
  | popLoop k => exact sizes k
  | _ => exact Nat.le_refl 0

theorem work_eases (calls : List Task) (top : (pl.reactor i).stack = task :: rest)
    (elsewhere : Elsewhere i pl post) (stack : (post.reactor i).stack = calls ++ rest)
    (fault : post.fault = pl.fault)
    (sizes : ∀ k, bufferSize (post.buffers i k) ≤ bufferSize (pl.buffers i k))
    (lighter : Falls
      [(calls.map (Task.unread (post.buffers i))).sum, (calls.map Task.attempts).sum,
        post.received cfg, post.queued i, (calls.map Task.errands).sum + post.opened i]
      [task.unread (pl.buffers i), task.attempts, pl.received cfg, pl.queued i,
        task.errands + pl.opened i]) :
    Eases cfg i pl post := by
  have others := unread_le sizes rest
  refine ⟨elsewhere, ?_⟩
  simp only [Falls, and_false, or_false] at lighter
  simp only [PlaneState.work, PlaneState.unread, PlaneState.attempts, PlaneState.errands, top, stack,
    fault, List.map_append, List.sum_append, List.map_cons, List.sum_cons, Falls]
  omega

theorem opened_congr (nextSid : post.nextSid = pl.nextSid)
    (same : ∀ k, (post.buffers i k).isSome = (pl.buffers i k).isSome) : post.opened i = pl.opened i := by
  have count : ∀ k, (post.buffers i k).toList.length = (pl.buffers i k).toList.length := by
    intro k
    rw [Option.length_toList, Option.length_toList, same]
  simp only [PlaneState.opened, nextSid, count]

theorem Confined.elsewhere (confined : Confined i pl mid) (stack : List Task) :
    Elsewhere i pl (mid.setStack i stack) where
  reactor := fun j other => (Function.update_of_ne other ..).trans (confined.others j other)
  connQueue := fun j _ => congrFun confined.connQueue j
  sendQueue := fun j _ => congrFun confined.sendQueue j
  listener := confined.listener
  worker := confined.worker
  distributor := confined.distributor
  distQueue := confined.distQueue
  nextSid := confined.nextSid
  running := confined.running

theorem confined_eases (confined : Confined i pl mid) (top : (pl.reactor i).stack = task :: rest)
    (calls : List Task) (sizes : ∀ k, bufferSize (mid.buffers i k) ≤ bufferSize (pl.buffers i k))
    (lighter : Falls
      [(calls.map (Task.unread (mid.buffers i))).sum, (calls.map Task.attempts).sum,
        (calls.map Task.errands).sum + mid.opened i]
      [task.unread (pl.buffers i), task.attempts, task.errands + pl.opened i]) :
    Eases cfg i pl (mid.setStack i (calls ++ rest)) := by
  have received : (mid.setStack i (calls ++ rest)).received cfg = pl.received cfg := by
    simp only [PlaneState.received, PlaneState.setStack, PlaneState.setReactor, confined.worker,
      confined.recvQueue]
  have queued : (mid.setStack i (calls ++ rest)).queued i = pl.queued i := by
    simp only [PlaneState.queued, PlaneState.setStack, PlaneState.setReactor, confined.connQueue,
      confined.sendQueue]
  have opened : (mid.setStack i (calls ++ rest)).opened i = mid.opened i :=
    opened_congr rfl fun k => by rw [buffers_setStack]
  refine work_eases calls top (confined.elsewhere _) ?_ confined.fault ?_ ?_
  · simp only [PlaneState.setStack, PlaneState.setReactor, Function.update_self]
  · rw [buffers_setStack]
    exact sizes
  · rw [buffers_setStack, received, queued, opened]
    simp only [Falls, and_false, or_false] at lighter ⊢
    omega

theorem resumed_eases (confined : Confined i pl mid) (top : (pl.reactor i).stack = task :: rest)
    (calls : List Task) (buffers : mid.buffers i = pl.buffers i)
    (quiet : ∀ call ∈ calls, call.unread (pl.buffers i) = 0 ∧ call.attempts = 0)
    (lighter : (calls.map Task.errands).sum < task.errands) :
    Eases cfg i pl (mid.setStack i (calls ++ rest)) := by
  have unread : (calls.map (Task.unread (pl.buffers i))).sum = 0 :=
    List.sum_eq_zero (by simpa using fun call member => (quiet call member).1)
  have attempts : (calls.map Task.attempts).sum = 0 :=
    List.sum_eq_zero (by simpa using fun call member => (quiet call member).2)
  have opened : mid.opened i = pl.opened i := opened_congr confined.nextSid fun k => by rw [buffers]
  refine confined_eases confined top calls ?_ ?_
  · rw [buffers]
    exact fun k => Nat.le_refl _
  · simp only [buffers, unread, attempts, opened, Falls, and_false, or_false]
    omega

theorem fault_eases (sound : pl.fault = false) :
    Eases cfg i pl { pl with fault := true } := by
  refine ⟨⟨fun _ _ => rfl, fun _ _ => rfl, fun _ _ => rfl, rfl, rfl, rfl, rfl, rfl, rfl⟩, ?_⟩
  simp [PlaneState.work, Falls, sound]

theorem stepPoll_eases (top : (pl.reactor i).stack = .poll :: rest) (stopped : pl.running = false)
    (step : stepPoll i input pl rest = some (post, events)) : Eases cfg i pl post := by
  unfold stepPoll at step
  rw [stopped] at step
  split at step
  · contradiction
  · cases step
    exact resumed_eases (.refl i pl) top [.closeAll] rfl (by simp [Task.unread, Task.attempts]) (by decide)
  · cases step

theorem stepEvents_eases {batch : List PollEvent} (top : (pl.reactor i).stack = .events batch :: rest)
    (step : stepEvents i input pl rest batch = some (post, events)) :
    Eases cfg i pl post := by
  unfold stepEvents at step
  split at step
  · cases step
    exact resumed_eases (.refl i pl) top [] rfl (by simp) (by simp [Task.errands])
  · rename_i event later
    cases step
    have eases : Eases cfg i pl (pl.setStack i (event.calls ++ [.events later] ++ rest)) :=
      resumed_eases (.refl i pl) top _ rfl ?_ ?_
    · rwa [List.append_assoc] at eases
    · intro call member
      rcases List.mem_append.mp member with inside | last
      · rcases PollEvent.mem_calls inside with rfl | rfl <;> exact ⟨rfl, rfl⟩
      · rw [List.mem_singleton.mp last]
        exact ⟨rfl, rfl⟩
    · have few : (event.calls.map Task.errands).sum ≤ 5 := by
        unfold PollEvent.calls
        split <;> split <;> simp [Task.errands]
      simp only [List.map_append, List.sum_append, List.map_cons, List.map_nil, List.sum_cons,
        List.sum_nil, Task.errands, List.length_cons]
      omega
  · cases step

theorem stepPush_eases {sid attempt : Nat} {msg : Tagged InboundMessage} (sound : pl.fault = false)
    (top : (pl.reactor i).stack = .pushInbound sid msg attempt :: rest)
    (step : stepPush cfg i input pl rest sid msg attempt = some (post, events)) :
    Eases cfg i pl post := by
  unfold stepPush at step
  split at step
  · cases step
    exact fault_eases sound
  · split at step
    · cases step
      refine work_eases [] top ?_ ?_ rfl ?_ ?_
      · exact ⟨fun _ other => Function.update_of_ne other .., fun _ _ => rfl, fun _ _ => rfl, rfl, rfl,
          rfl, rfl, rfl, rfl⟩
      · simp only [PlaneState.setStack, PlaneState.setReactor, Function.update_self, List.nil_append]
      · rw [buffers_setStack]
        exact fun k => Nat.le_refl _
      · simp only [Falls, List.map_nil, List.sum_nil, Task.unread, Task.attempts]
        omega
    · rename_i again
      obtain ⟨⟨_, more⟩, rfl, rfl⟩ := pushAttempt_retry again
      cases step
      refine confined_eases (.refl i pl) top [_] (fun k => Nat.le_refl _) ?_
      simp only [Falls, List.map_cons, List.map_nil, List.sum_cons, List.sum_nil, Task.unread,
        Task.attempts]
      omega
    · split at step
      · cases step
        exact fault_eases sound
      · cases step
        refine confined_eases (.refl i pl) top [] (fun k => Nat.le_refl _) ?_
        simp only [Falls, List.map_nil, List.sum_nil, Task.unread, Task.attempts]
        omega
  · cases step

theorem taken_eases (calls : List Task) (top : (pl.reactor i).stack = task :: rest)
    (elsewhere : Elsewhere i pl post) (stack : (post.reactor i).stack = calls ++ rest)
    (fault : post.fault = pl.fault)
    (sizes : ∀ k, bufferSize (post.buffers i k) ≤ bufferSize (pl.buffers i k))
    (quiet : ∀ call ∈ calls, call.unread (post.buffers i) = 0 ∧ call.attempts = 0)
    (received : post.received cfg = pl.received cfg) (fewer : post.queued i < pl.queued i) :
    Eases cfg i pl post := by
  have unread : (calls.map (Task.unread (post.buffers i))).sum = 0 :=
    List.sum_eq_zero (by simpa using fun call member => (quiet call member).1)
  have attempts : (calls.map Task.attempts).sum = 0 :=
    List.sum_eq_zero (by simpa using fun call member => (quiet call member).2)
  refine work_eases calls top elsewhere stack fault sizes ?_
  simp only [unread, attempts, received, Falls]
  omega

theorem sendBytes_quiet (session : Session) (data : Bytes) (buffers : Nat → Option FrameBuffer) :
    ∀ call ∈ (sendBytes i k session data pl).calls, call.unread buffers = 0 ∧ call.attempts = 0 := by
  unfold sendBytes
  split <;> simp [Task.unread, Task.attempts]

theorem stepDrainSend_eases (top : (pl.reactor i).stack = .drainSendQueue :: rest)
    (step : stepDrainSend i input pl rest = some (post, events)) :
    Eases cfg i pl post := by
  have idle := stepDrainSend_idle step
  have sizes : ∀ k, bufferSize (post.buffers i k) ≤ bufferSize (pl.buffers i k) := by
    rw [idle.1]
    exact fun k => Nat.le_refl _
  unfold stepDrainSend at step
  split at step
  · cases step
    exact resumed_eases (.refl i pl) top [] rfl (by simp) (by simp [Task.errands])
  · rename_i item left popped
    have front := pop_some popped
    let base : PlaneState := { pl with sendQueue := Function.update pl.sendQueue i left }
    -- the queue is shorter, whatever becomes of the frame
    have shorter : ∀ {mid : PlaneState} (calls : List Task), Confined i base mid →
        post = mid.setStack i (calls ++ rest) →
        (∀ call ∈ calls, call.unread (post.buffers i) = 0 ∧ call.attempts = 0) →
        Eases cfg i pl post := by
      rintro mid calls confined rfl quiet
      refine taken_eases calls top ?_ ?_ confined.fault sizes quiet ?_ ?_
      · have elsewhere := confined.elsewhere (calls ++ rest)
        exact { elsewhere with
          sendQueue := fun j other =>
            (elsewhere.sendQueue j other).trans (Function.update_of_ne other ..) }
      · simp only [PlaneState.setStack, PlaneState.setReactor, Function.update_self]
      · simp only [PlaneState.received, PlaneState.setStack, PlaneState.setReactor, confined.worker,
          confined.recvQueue, base]
      · simp only [PlaneState.queued, PlaneState.setStack, PlaneState.setReactor, confined.connQueue,
          confined.sendQueue, base, Function.update_self, front, List.length_cons]
        omega
    dsimp only at step
    split at step
    · cases step
      exact shorter [.drainSendQueue] (.refl i _) rfl (by simp [Task.unread, Task.attempts])
    · rename_i session found
      cases step
      let out := sendBytes i item.val.sid session item.val.bytes base
      have confined : Confined i base out.state := .sendBytes ..
      refine shorter (out.calls ++ [.drainSendQueue]) confined ?_ ?_
      · rw [List.append_assoc]
        rfl
      · intro call member
        rcases List.mem_append.mp member with sends | last
        · exact sendBytes_quiet _ _ _ call sends
        · rw [List.mem_singleton.mp last]
          exact ⟨rfl, rfl⟩
  · cases step

theorem sizes_update {state : Option FrameBuffer}
    (changed : mid.buffers i = Function.update (pl.buffers i) k state)
    (smaller : bufferSize state ≤ bufferSize (pl.buffers i k)) :
    ∀ l, bufferSize (mid.buffers i l) ≤ bufferSize (pl.buffers i l) := by
  intro l
  rw [changed, Function.update_apply]
  split
  · rename_i same
    rw [same]
    exact smaller
  · exact Nat.le_refl _

theorem sizes_closeSession (k : Nat) :
    ∀ l, bufferSize ((closeSession i k pl).state.buffers i l) ≤ bufferSize (pl.buffers i l) :=
  sizes_update buffers_closeSession (Nat.zero_le _)

theorem opened_closeSession (k : Nat) : (closeSession i k pl).state.opened i ≤ pl.opened i := by
  rw [PlaneState.opened, Confined.closeSession.nextSid]
  refine Finset.sum_le_sum fun l _ => ?_
  rw [buffers_closeSession, Function.update_apply]
  split
  · exact Nat.zero_le _
  · exact Nat.le_refl _

theorem opened_closeSession_lt (inside : k < pl.nextSid) (was : (pl.buffers i k).isSome = true) :
    (closeSession i k pl).state.opened i < pl.opened i := by
  have changed : _ = _ := sum_changed inside
    (f := fun l => (pl.buffers i l).toList.length)
    (g := fun l => ((closeSession i k pl).state.buffers i l).toList.length) fun l other => by
      rw [buffers_closeSession, Function.update_of_ne other]
  have one : (pl.buffers i k).toList.length = 1 := by
    rw [Option.length_toList, if_pos was]
  have zero : ((closeSession i k pl).state.buffers i k).toList.length = 0 := by
    rw [buffers_closeSession, Function.update_self]
    rfl
  rw [PlaneState.opened, PlaneState.opened, Confined.closeSession.nextSid]
  omega

theorem closed_eases (top : (pl.reactor i).stack = task :: rest) (k : Nat) (some : 0 < task.errands) :
    Eases cfg i pl ((closeSession i k pl).state.setStack i ((closeSession i k pl).calls ++ rest)) := by
  rw [closeSession_calls]
  refine confined_eases .closeSession top [] (sizes_closeSession k) ?_
  have fewer : (closeSession i k pl).state.opened i ≤ pl.opened i := opened_closeSession k
  simp only [Falls, List.map_nil, List.sum_nil, and_false, or_false]
  omega

theorem stepRecv_eases {sid : Nat} (sound : pl.fault = false)
    (top : (pl.reactor i).stack = .recvLoop sid :: rest) (quiet : ∀ bytes, input ≠ .recv (.data bytes))
    (step : stepRecv i input pl rest sid = some (post, events)) :
    Eases cfg i pl post := by
  unfold stepRecv at step
  split at step
  · cases step
    exact fault_eases sound
  · exact absurd rfl (quiet _)
  · cases step
    exact resumed_eases (.refl i pl) top [] rfl (by simp) (by simp [Task.errands])
  · cases step
    exact closed_eases top _ (by simp [Task.errands])
  · cases step
    exact closed_eases top _ (by simp [Task.errands])
  · cases step

theorem wrote_eases {session : Session} {count : Nat}
    (top : (pl.reactor i).stack = .writeLoop k :: rest)
    (found : (pl.reactor i).sessions k = some session) (some : 0 < count)
    (within : count ≤ session.outbuf.length) :
    Eases cfg i pl
      ((pl.setSession i k { session with outbuf := session.outbuf.drop count }).setStack i
        (.writeLoop k :: rest)) := by
  generalize next : (pl.setSession i k { session with outbuf := session.outbuf.drop count }).setStack i
    (.writeLoop k :: rest) = post
  have stack : (post.reactor i).stack = .writeLoop k :: rest := by
    simp only [← next, PlaneState.setStack, PlaneState.setReactor, Function.update_self]
  have buffers : post.buffers i = pl.buffers i := by
    rw [← next, buffers_setStack, buffers_setSession, ← buffers_of_found found, Function.update_eq_self]
  have unsent : post.unsent i = Function.update (pl.unsent i) k (session.outbuf.length - count) := by
    funext l
    simp only [← next, PlaneState.unsent, PlaneState.setStack, PlaneState.setSession,
      PlaneState.setReactor, Function.update_self, Function.update_apply]
    by_cases same : l = k
    · simp only [same, if_true, List.length_drop]
    · simp only [same, if_false]
  have before : pl.unsent i k = session.outbuf.length := by
    simp only [PlaneState.unsent, found]
  have others : (rest.map (Task.unwritten (post.unsent i))).sum ≤
      (rest.map (Task.unwritten (pl.unsent i))).sum := by
    refine List.sum_le_sum fun task _ => ?_
    cases task with
    | writeLoop l =>
        rw [Task.unwritten, Task.unwritten, unsent, Function.update_apply]
        split
        · rename_i same
          rw [same, before]
          omega
        · exact Nat.le_refl _
    | _ => exact Nat.le_refl 0
  have opened : post.opened i = pl.opened i := opened_congr (by rw [← next]; rfl) fun l => by rw [buffers]
  have rest : post.fault = pl.fault ∧ post.received cfg = pl.received cfg ∧
      post.queued i = pl.queued i := by
    rw [← next]
    exact ⟨rfl, rfl, rfl⟩
  have here : post.unsent i k = session.outbuf.length - count := by
    rw [unsent, Function.update_self]
  refine ⟨next ▸ (Confined.setSession _).elsewhere _, ?_⟩
  simp only [PlaneState.work, PlaneState.unread, PlaneState.attempts, PlaneState.errands,
    PlaneState.unwritten, stack, top, buffers, opened, rest, List.map_cons, List.sum_cons,
    Task.unwritten, here, before, Falls, and_false, or_false]
  omega

theorem stepWrite_eases {sid : Nat} (sound : pl.fault = false)
    (top : (pl.reactor i).stack = .writeLoop sid :: rest)
    (step : stepWrite i input pl rest sid = some (post, events)) :
    Eases cfg i pl post := by
  unfold stepWrite at step
  split at step
  · cases step
    exact fault_eases sound
  · rename_i session found
    have stops : ∀ wantWrite, Eases cfg i pl
        ((pl.updateInterest i session.fd true wantWrite).setStack i rest) := fun wantWrite =>
      resumed_eases (.updateInterest ..) top [] (buffers_updateInterest ..) (by simp)
        (by simp [Task.errands])
    split at step
    · split at step
      · cases step
        exact stops false
      · cases step
    · split at step
      · rename_i count
        split at step
        · rename_i within
          cases step
          exact wrote_eases top found (Nat.succ_pos count) within
        · cases step
      · cases step
        exact stops true
      · cases step
        exact closed_eases top _ (by simp [Task.errands])
      · cases step
        exact closed_eases top _ (by simp [Task.errands])
      · cases step

theorem popped_eases {left : FrameBuffer} (confined : Confined i pl mid)
    (top : (pl.reactor i).stack = .popLoop k :: rest)
    (smaller : left.buf.length < bufferSize (pl.buffers i k))
    (buffers : mid.buffers i = Function.update (pl.buffers i) k (some left) ∨
      mid.buffers i = Function.update (Function.update (pl.buffers i) k (some left)) k none)
    (calls : List Task) (quiet : ∀ call ∈ calls, call.unread (mid.buffers i) = 0) :
    Eases cfg i pl (mid.setStack i (calls ++ .popLoop k :: rest)) ∧
      Eases cfg i pl (mid.setStack i (calls ++ rest)) := by
  have unread : (calls.map (Task.unread (mid.buffers i))).sum = 0 :=
    List.sum_eq_zero (by simpa using quiet)
  have here : bufferSize (mid.buffers i k) < bufferSize (pl.buffers i k) ∧
      ∀ l, bufferSize (mid.buffers i l) ≤ bufferSize (pl.buffers i l) := by
    rcases buffers with kept | closed
    · refine ⟨?_, sizes_update kept (Nat.le_of_lt smaller)⟩
      rw [kept, Function.update_self]
      exact smaller
    · rw [Function.update_idem] at closed
      refine ⟨?_, sizes_update closed (Nat.zero_le _)⟩
      rw [closed, Function.update_self]
      exact Nat.zero_lt_of_lt smaller
  constructor
  · have eases : Eases cfg i pl (mid.setStack i (calls ++ [.popLoop k] ++ rest)) := by
      refine confined_eases confined top _ here.2 ?_
      simp only [Falls, List.map_append, List.sum_append, unread, List.map_cons, List.map_nil,
        List.sum_cons, List.sum_nil, Task.unread]
      omega
    rwa [List.append_assoc] at eases
  · refine confined_eases confined top _ here.2 ?_
    simp only [Falls, unread, Task.unread]
    omega

theorem handleSystem_quiet (session : Session) (frame : FrameView)
    (buffers : Nat → Option FrameBuffer) :
    ∀ call ∈ (handleSystem cfg i k session frame pl).1.calls, call.unread buffers = 0 := by
  have closing : ∀ pl : PlaneState, ∀ call ∈ (closeSession i session.sid pl).calls,
      call.unread buffers = 0 := by
    intro pl call member
    rw [closeSession_calls] at member
    cases member
  have sending : ∀ (session : Session) (data : Bytes) (pl : PlaneState),
      ∀ call ∈ (sendBytes i k session data pl).calls, call.unread buffers = 0 :=
    fun session data pl call member => (sendBytes_quiet session data buffers call member).1
  unfold handleSystem
  dsimp only
  split
  · split
    · exact closing pl
    · split
      · exact sending _ _ _
      · exact closing pl
  · split
    · exact closing pl
    · exact sending _ _ _
  · split
    · simp
    · exact sending _ _ _
  · exact sending _ _ _
  · simp

theorem enqueueInbound_quiet (session : Session) (frame : FrameView)
    (buffers : Nat → Option FrameBuffer) :
    ∀ call ∈ (enqueueInbound i k session frame pl).calls, call.unread buffers = 0 := by
  unfold enqueueInbound
  split
  · rw [closeSession_calls]
    simp
  · simp [Task.unread]

section Agreement

variable {g : Registry} (agrees : Agrees g pl.core)
include agrees

theorem stepReadable_eases {fd : Int} (top : (pl.reactor i).stack = .handleReadable fd :: rest)
    (step : stepReadable i input pl rest fd = some (post, events)) :
    Eases cfg i pl post := by
  unfold stepReadable at step
  split at step
  · split at step
    · cases step
      have confined : Confined i pl
          { pl with wakeReadable := Function.update pl.wakeReadable i false } :=
        ⟨⟨fun _ => rfl, rfl, rfl, rfl, rfl, rfl⟩, fun _ _ => rfl, rfl, rfl, rfl, rfl, rfl⟩
      exact resumed_eases confined top [.drainNewConnections, .drainSendQueue] rfl
        (by simp [Task.unread, Task.attempts]) (by simp [Task.errands])
    · split at step
      · cases step
        exact resumed_eases (.refl i pl) top [] rfl (by simp) (by simp [Task.errands])
      · rename_i sid found
        cases step
        rw [subscript_found agrees found]
        exact resumed_eases (.refl i pl) top [.recvLoop sid] rfl (by simp [Task.unread, Task.attempts])
          (by simp [Task.errands])
  · cases step

theorem stepWritable_eases {fd : Int} (top : (pl.reactor i).stack = .handleWritable fd :: rest)
    (step : stepWritable i input pl rest fd = some (post, events)) :
    Eases cfg i pl post := by
  unfold stepWritable at step
  split at step
  · split at step
    · cases step
      exact resumed_eases (.refl i pl) top [] rfl (by simp) (by simp [Task.errands])
    · rename_i sid found
      cases step
      rw [subscript_found agrees found]
      exact resumed_eases (.refl i pl) top [.writeLoop sid] rfl (by simp [Task.unread, Task.attempts])
        (by simp [Task.errands])
  · cases step

theorem stepDrainNew_eases (top : (pl.reactor i).stack = .drainNewConnections :: rest)
    (step : stepDrainNew i input pl rest = some (post, events)) :
    Eases cfg i pl post := by
  unfold stepDrainNew at step
  split at step
  · cases step
    exact resumed_eases (.refl i pl) top [] rfl (by simp) (by simp [Task.errands])
  · rename_i conn left popped
    have front := pop_some popped
    cases step
    have absent : (pl.reactor i).sessions conn.sid = none := by
      refine (agrees.fresh (i := i) ?_ i).2
      rw [front]
      exact List.mem_cons_self
    refine taken_eases [.drainNewConnections] top ?_ ?_ rfl ?_ (by simp [Task.unread, Task.attempts]) rfl ?_
    · exact ⟨fun _ other => (Function.update_of_ne other ..).trans (Function.update_of_ne other ..),
        fun _ other => Function.update_of_ne other .., fun _ _ => rfl, rfl, rfl, rfl, rfl, rfl, rfl⟩
    · simp only [PlaneState.setStack, PlaneState.setReactor, Function.update_self, List.cons_append,
        List.nil_append]
    · intro k
      rw [buffers_setStack]
      simp only [registerConnection, PlaneState.buffers, PlaneState.setReactor, absent,
        Option.getD_none, Function.update_self, Function.update_apply]
      split
      · exact Nat.zero_le _
      · exact Nat.le_refl _
    · simp only [PlaneState.queued, PlaneState.setStack, PlaneState.setReactor, registerConnection,
        Function.update_self, front, List.length_cons]
      omega
  · cases step

theorem session_inside {session : Session} (found : (pl.reactor i).sessions k = some session) :
    k < pl.nextSid := by
  by_contra beyond
  have unborn := agrees.unborn k (Nat.le_of_not_lt beyond)
  have live := agrees.live i k session.key (by rw [core_keys, found]; rfl)
  rw [unborn] at live
  cases live

theorem stepCloseAll_eases (top : (pl.reactor i).stack = .closeAll :: rest)
    (present : ∀ sid, input = .next sid → ((pl.reactor i).sessions sid).isSome = true)
    (step : stepCloseAll i input pl rest = some (post, events)) :
    Eases cfg i pl post := by
  unfold stepCloseAll at step
  split at step
  · rename_i sid
    obtain ⟨session, found⟩ := Option.isSome_iff_exists.mp (present sid rfl)
    cases step
    have fewer := opened_closeSession_lt (i := i) (session_inside agrees found)
      (by rw [buffers_of_found found]; rfl)
    rw [closeSession_calls]
    refine confined_eases .closeSession top [.closeAll] (sizes_closeSession sid) ?_
    simp only [Falls, List.map_cons, List.map_nil, List.sum_cons, List.sum_nil, Task.unread,
      Task.attempts, Task.errands, and_false, or_false]
    omega
  · cases step

theorem stepPop_eases {sid : Nat} (sound : pl.fault = false)
    (top : (pl.reactor i).stack = .popLoop sid :: rest)
    (step : stepPop cfg i input pl rest sid = some (post, events)) :
    Eases cfg i pl post := by
  unfold stepPop at step
  split at step
  · cases step
    exact fault_eases sound
  · rename_i session found
    have before := buffers_of_found found
    have named := session_named agrees found
    split at step
    · rename_i left stuck
      cases step
      have smaller : left.buf.length ≤ session.fb.buf.length := by
        rcases FrameBuffer.tryPopFrame_none stuck with rfl | rfl
        · exact Nat.le_refl _
        · exact Nat.zero_le _
      have buffers : (pl.setSession i sid { session with fb := left }).buffers i =
          Function.update (pl.buffers i) sid (some left) := buffers_setSession _
      have opened : (pl.setSession i sid { session with fb := left }).opened i = pl.opened i := by
        refine opened_congr rfl fun k => ?_
        rw [buffers, Function.update_apply]
        split
        · rename_i same
          rw [same, before]
          rfl
        · rfl
      refine confined_eases (.setSession _) top [.recvLoop sid] ?_ ?_
      · exact sizes_update buffers (by rw [before]; exact smaller)
      · simp only [Falls, List.map_cons, List.map_nil, List.sum_cons, List.sum_nil, Task.unread,
          Task.attempts, Task.errands, opened, and_false, or_false]
        omega
    · rename_i frame left popped
      let next : Session := { session with fb := left }
      have after : (pl.setSession i sid next).buffers i = Function.update (pl.buffers i) sid (some left) :=
        buffers_setSession next
      have present : (pl.setSession i sid next).buffers i sid = some next.fb := by
        rw [after, Function.update_self]
      have smaller : left.buf.length < bufferSize (pl.buffers i sid) := by
        rw [before]
        exact FrameBuffer.tryPopFrame_shrinks popped
      dsimp only at step
      split at step
      · cases step
        let out := handleSystem cfg i sid next frame (pl.setSession i sid next)
        have confined : Confined i pl out.1.state := .trans (.setSession next) (.handleSystem ..)
        have eases : Eases cfg i pl (out.1.state.setStack i (out.1.calls ++ .popLoop sid :: rest)) ∧
            Eases cfg i pl (out.1.state.setStack i (out.1.calls ++ rest)) :=
          popped_eases confined top smaller
            (after ▸ handleSystem_buffers next frame present named) out.1.calls
            (handleSystem_quiet next frame _)
        change Eases cfg i pl (out.1.state.setStack i
          (out.1.calls ++ if out.2 = true then .popLoop sid :: rest else rest))
        cases out.2 with
        | true => exact eases.1
        | false => exact eases.2
      · cases step
        let out := enqueueInbound i sid next frame (pl.setSession i sid next)
        have confined : Confined i pl out.state := .trans (.setSession next) (.enqueueInbound ..)
        have buffers := (enqueueInbound_buffers next frame present named).imp And.left And.left
        exact (popped_eases confined top smaller (after ▸ buffers) out.calls
          (enqueueInbound_quiet next frame _)).1
  · cases step

theorem reactorStep_eases (sound : pl.fault = false) (stopped : pl.running = false)
    (quiet : ∀ bytes, input ≠ .recv (.data bytes))
    (present : ∀ sid, input = .next sid → ((pl.reactor i).sessions sid).isSome = true)
    (step : reactorStep cfg i input pl = some (post, events)) :
    Eases cfg i pl post := by
  unfold reactorStep at step
  split at step
  · cases step
  · exact stepPoll_eases ‹_› stopped step
  · exact stepEvents_eases ‹_› step
  · exact stepDrainNew_eases agrees ‹_› step
  · exact stepDrainSend_eases ‹_› step
  · exact stepReadable_eases agrees ‹_› step
  · exact stepRecv_eases sound ‹_› quiet step
  · exact stepPop_eases agrees sound ‹_› step
  · exact stepPush_eases sound ‹_› step
  · exact stepWritable_eases agrees ‹_› step
  · exact stepWrite_eases sound ‹_› step
  · exact stepCloseAll_eases agrees ‹_› present step

end Agreement

end Work

end HiImCore.Hub
