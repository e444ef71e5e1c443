import HiImCore.Hub.Context
import HiImCore.Hub.RouterHistory
import HiImCore.Lib.Fifo
import HiImCore.Lib.Locking

/-! The objects that threads share under a lock, one access to their containers a step: `MpscQueue`
of `src/hub/queue.hpp` and `Router` of `src/hub/router.cpp`. Their calls may be taken as atomic. -/

namespace HiImCore.Hub

open Fifo Locking Replay Transition

section Queues

variable {α : Type}

inductive MpscCall (α : Type) where
  | push (value : α)
  | pop

inductive MpscResult (α : Type) where
  | pushed (ok : Bool)
  | popped (value : Option α)

variable [MoveSource α]

/-- `std::move(queue_.front())` leaves a moved-from object at the front. -/
def moveFront : List α → List α
  | [] => []
  | value :: rest => movedFrom value :: rest

def mpscBody (capacity : Nat) : MpscCall α → Body (List α) (MpscResult α)
  | .push value =>
      .access id fun queue =>
        if queue.length ≥ capacity then .done (.pushed false)
        else .access (· ++ [value]) fun _ => .done (.pushed true)
  | .pop =>
      .access id fun queue =>
        if queue.isEmpty then .done (.popped none)
        else .access moveFront fun queue =>
          .access List.tail fun _ => .done (.popped queue.head?)

def lockedQueue (α : Type) [MoveSource α] (capacity : Nat) :
    Guarded (List α) (MpscResult α) (MpscCall α) where
  mode := fun _ => .exclusive
  body := mpscBody capacity
  reads := fun _ shared => by cases shared

/-- A call of the queue with its result, as an operation of a bounded queue. -/
def mpscOp (e : Returned (MpscResult α) (MpscCall α)) : List (Op α) :=
  match e.op, e.result with
  | .push value, .pushed true => [.pushed value]
  | .push value, .pushed false => [.refused value]
  | .pop, .popped (some value) => [.popped value]
  | .pop, .popped none => [.missed]
  | _, _ => []

variable {capacity : Nat}

theorem mpscBody_push (queue : List α) (value : α) :
    (mpscBody capacity (.push value)).run queue =
      match push capacity queue value with
      | some after => (after, .pushed true)
      | none => (queue, .pushed false) := by
  simp only [mpscBody, Body.run, id, push]
  split <;> rfl

theorem mpscBody_pop (queue : List α) :
    (mpscBody capacity .pop).run queue =
      match pop queue with
      | some (value, left) => (left, .popped (some value))
      | none => (queue, .popped none) := by
  cases queue <;> rfl

theorem mpscOp_allowed {queue : List α} {e : Returned (MpscResult α) (MpscCall α)}
    (small : queue.length ≤ capacity) (allowed : (lockedQueue α capacity).Allows queue e) :
    ∃ op, mpscOp e = [op] ∧ Fifo.Allows capacity queue op ∧
      Fifo.apply queue op = (lockedQueue α capacity).apply queue e := by
  obtain ⟨t, call, result⟩ := e
  rw [Guarded.Allows] at allowed
  rw [Guarded.apply]
  dsimp only [lockedQueue] at allowed ⊢
  cases call with
  | push value =>
      rw [mpscBody_push] at allowed ⊢
      cases done : push capacity queue value with
      | some after =>
          rw [done] at allowed
          obtain ⟨room, rfl⟩ := push_some done
          cases allowed
          exact ⟨.pushed value, rfl, room, rfl⟩
      | none =>
          rw [done] at allowed
          cases allowed
          exact ⟨.refused value, rfl, Nat.le_antisymm small (push_none done), rfl⟩
  | pop =>
      rw [mpscBody_pop] at allowed ⊢
      cases queue with
      | nil =>
          cases allowed
          exact ⟨.missed, rfl, rfl, rfl⟩
      | cons value left =>
          cases allowed
          exact ⟨.popped value, rfl, rfl, rfl⟩

/-- Any number of threads may push to and pop from `MpscQueue` at once: the calls that have returned
are those of a bounded queue in the order of their returns, what was pushed is what was popped and
what is there, and whenever the lock is free the container holds just that. -/
theorem mpscQueue_refines_bounded_fifo {taken : List (Taken (Locked (List α) (MpscResult α) (MpscCall α))
      (Move (MpscCall α)) (Returned (MpscResult α) (MpscCall α)))}
    {s : Locked (List α) (MpscResult α) (MpscCall α)}
    (run : Run (lockedQueue α capacity).system (.start []) taken s) :
    let history := (trace taken).flatMap mpscOp
    Legal capacity history ∧ history.length = (trace taken).length ∧
      (∃ items, pushes history = pops history ++ items ∧ items.length ≤ capacity ∧
        (s.writer = none → s.state = items)) := by
  obtain ⟨along, consistent⟩ := Guarded.run_linearizes run
  have refined : Legal capacity ((trace taken).flatMap mpscOp) ∧
      replay Fifo.apply [] ((trace taken).flatMap mpscOp) =
        replay (lockedQueue α capacity).apply [] (trace taken) ∧
      ((trace taken).flatMap mpscOp).length = (trace taken).length := by
    refine along_invariant (lockedQueue α capacity).apply (fun past queue =>
      Legal capacity (past.flatMap mpscOp) ∧ replay Fifo.apply [] (past.flatMap mpscOp) = queue ∧
        (past.flatMap mpscOp).length = past.length) along ⟨trivial, rfl, rfl⟩ ?_
    rintro past queue e _ _ ⟨legal, same, count⟩ allowed
    have small := bounded legal
    rw [same] at small
    obtain ⟨op, shown, permitted, moved⟩ := mpscOp_allowed small allowed
    rw [List.flatMap_append, List.flatMap_singleton, shown]
    refine ⟨(along_append ..).mpr ⟨legal, by rw [same]; exact permitted, trivial⟩, ?_, ?_⟩
    · rw [replay_append, same]
      exact moved
    · rw [List.length_append, List.length_append, count]
      rfl
  obtain ⟨legal, same, count⟩ := refined
  refine ⟨legal, count, _, conserved legal, bounded legal, ?_⟩
  intro free
  rw [same]
  exact consistent.free free

/-- Two producers and a consumer whose calls overlap. -/
theorem mpscQueue_refines_bounded_fifo_overlapping :
    ∃ taken s, Run (lockedQueue OutboundFrame 4).system (.start []) taken s ∧
      (trace taken).length = 3 ∧ Legal 4 ((trace taken).flatMap mpscOp) := by
  obtain ⟨taken, s, run, _, seen⟩ := run_of_follow (lockedQueue OutboundFrame 4).system (fun _ => true)
    (.start []) [.call 1 (.push ⟨1, 0, [7]⟩), .call 2 (.push ⟨2, 0, [8]⟩), .acquire 1, .access 1,
      .call 3 .pop, .access 1, .release 1, .acquire 2, .access 2, .access 2, .release 2, .acquire 3,
      .access 3, .access 3, .access 3, .release 3] (fun r => r.2.length == 3) (by decide)
  exact ⟨taken, s, run, beq_iff_eq.mp seen, (mpscQueue_refines_bounded_fifo run).1⟩

end Queues

section Routers

open Router

inductive RouterCall where
  | change (op : RouterOp)
  | findSubscribers (cmd : UInt32)
  | findNidRoute (nid : UInt32)
  | subscriptionCount (cmd : UInt32)
  deriving DecidableEq

inductive RouterResult where
  | nothing
  | status (status : Status)
  | subscribers (subs : List Subscriber)
  | route (route : Option NidRoute)
  | count (count : Nat)
  deriving DecidableEq

/-- `std::remove_if`: the kept entries move to the front, and the old ones remain behind them. -/
def removeIf (sid : Nat) (vec : List Subscriber) : List Subscriber :=
  without sid vec ++ vec.drop (without sid vec).length

def onVector (cmd : UInt32) (change : List Subscriber → List Subscriber) (r : Router) : Router :=
  { r with subTable := Function.update r.subTable cmd (some (change (r.findSubscribers cmd))) }

def eraseNid (nid : UInt32) (sid : Nat) : Body Router RouterResult :=
  .access id fun r =>
    match r.nidMap nid with
    | none => .done .nothing
    | some route =>
        if route.sid = sid then
          .access (fun r => { r with nidMap := Function.update r.nidMap nid none })
            fun _ => .done .nothing
        else .done .nothing

/-- The methods that take a `std::unique_lock`. The sweep of `RemoveSession` is one access. -/
def changeBody : RouterOp → Body Router RouterResult
  | .subscribe cmd sub =>
      .access (onVector cmd id) fun r =>
        match (r.findSubscribers cmd).findIdx? (fun s => s.sid == sub.sid) with
        | some place => .access (onVector cmd (·.set place sub)) fun _ => .done (.status .ok)
        | none => .access (onVector cmd (· ++ [sub])) fun _ => .done (.status .ok)
  | .unsubscribe cmd sid =>
      .access id fun r =>
        match r.subTable cmd with
        | none => .done (.status (.error .kNotFound ""))
        | some vec =>
            let last := (without sid vec).length
            .access (onVector cmd (removeIf sid)) fun _ =>
              if last = vec.length then .done (.status (.error .kNotFound ""))
              else
                .access (onVector cmd (·.take last)) fun _ =>
                  if last = 0 then
                    .access (fun r => { r with subTable := Function.update r.subTable cmd none })
                      fun _ => .done (.status .ok)
                  else .done (.status .ok)
  | .removeSession sid nid =>
      .access (fun r => { r with subTable := fun cmd => (r.subTable cmd).map (without sid) })
        fun _ => eraseNid nid sid
  | .bindNid nid sid reactorIdx => .access (·.bindNid nid sid reactorIdx) fun _ => .done .nothing
  | .unbindNid nid sid => eraseNid nid sid

/-- The three lookups take a `std::shared_lock`: a search, and a copy of what it found. -/
def routerBody : RouterCall → Body Router RouterResult
  | .change op => changeBody op
  | .findSubscribers cmd =>
      .access id fun r =>
        if r.subTable cmd = none then .done (.subscribers [])
        else .access id fun r => .done (.subscribers (r.findSubscribers cmd))
  | .findNidRoute nid =>
      .access id fun r =>
        if r.nidMap nid = none then .done (.route none)
        else .access id fun r => .done (.route (r.nidMap nid))
  | .subscriptionCount cmd =>
      .access id fun r =>
        if r.subTable cmd = none then .done (.count 0)
        else .access id fun r => .done (.count (r.findSubscribers cmd).length)

def routerMode : RouterCall → Mode
  | .change _ => .exclusive
  | _ => .shared

theorem lookup_readOnly (missing : Router → Prop) [DecidablePred missing] (absent : RouterResult)
    (found : Router → RouterResult) :
    (Body.access id fun r => if missing r then .done absent
      else .access id fun r => .done (found r)).ReadOnly := by
  refine ⟨fun _ => rfl, ?_⟩
  intro r
  dsimp only
  split
  · trivial
  · exact ⟨fun _ => rfl, fun _ => trivial⟩

theorem routerBody_readOnly (call : RouterCall) (shared : routerMode call = .shared) :
    (routerBody call).ReadOnly := by
  cases call with
  | change op => cases shared
  | findSubscribers cmd => exact lookup_readOnly (·.subTable cmd = none) _ _
  | findNidRoute nid => exact lookup_readOnly (·.nidMap nid = none) _ _
  | subscriptionCount cmd => exact lookup_readOnly (·.subTable cmd = none) _ _

def lockedRouter : Guarded Router RouterResult RouterCall where
  mode := routerMode
  body := routerBody
  reads := routerBody_readOnly

def changes (history : List (Returned RouterResult RouterCall)) : List RouterOp :=
  history.filterMap fun e => match e.op with
    | .change op => some op
    | _ => none

def reply (r : Router) : RouterCall → RouterResult
  | .change (.subscribe cmd sub) => .status (r.subscribe cmd sub).1
  | .change (.unsubscribe cmd sid) => .status (r.unsubscribe cmd sid).1
  | .change _ => .nothing
  | .findSubscribers cmd => .subscribers (r.findSubscribers cmd)
  | .findNidRoute nid => .route (r.findNidRoute nid)
  | .subscriptionCount cmd => .count (r.subscriptionCount cmd)

theorem onVector_onVector (r : Router) (cmd : UInt32)
    (first second : List Subscriber → List Subscriber) :
    onVector cmd second (onVector cmd first r) = onVector cmd (second ∘ first) r := by
  simp [onVector, findSubscribers]

theorem eraseNid_run (nid : UInt32) (sid : Nat) (r : Router) :
    (eraseNid nid sid).run r = (r.unbindNid nid sid, .nothing) := by
  simp only [eraseNid, Body.run, id, unbindNid]
  cases r.nidMap nid with
  | none => rfl
  | some route =>
      dsimp only
      split <;> rfl

theorem subscribe_run (cmd : UInt32) (sub : Subscriber) (r : Router) :
    (changeBody (.subscribe cmd sub)).run r = ((r.subscribe cmd sub).2, .status .ok) := by
  have same : (r.subscribe cmd sub).2 = onVector cmd (upsert · sub) r := rfl
  rw [same, changeBody, Body.run]
  cases found : (r.findSubscribers cmd).findIdx? (fun s => s.sid == sub.sid) with
  | some place =>
      simp only [Body.run, onVector_onVector]
      simp only [onVector, upsert, found, Function.comp_apply, id]
  | none =>
      simp only [Body.run, onVector_onVector]
      simp only [onVector, upsert, found, Function.comp_apply, id]

theorem onVector_found {r : Router} {cmd : UInt32} {vec : List Subscriber}
    (found : r.subTable cmd = some vec) (change : List Subscriber → List Subscriber) :
    onVector cmd change r = { r with subTable := Function.update r.subTable cmd (some (change vec)) } := by
  rw [onVector, findSubscribers, found, Option.getD_some]

theorem take_removeIf (sid : Nat) (vec : List Subscriber) :
    (removeIf sid vec).take (without sid vec).length = without sid vec := List.take_left

theorem unsubscribe_run (cmd : UInt32) (sid : Nat) (r : Router) :
    (changeBody (.unsubscribe cmd sid)).run r =
      ((r.unsubscribe cmd sid).2, .status (r.unsubscribe cmd sid).1) := by
  rcases unsubscribe_cases r cmd sid with ⟨absent, result⟩ | ⟨vec, found, ways⟩
  · simp only [changeBody, Body.run, id, absent, result]
  · have same : (without sid vec).length = vec.length ↔ without sid vec = vec :=
      List.length_filter_eq_length_iff.trans List.filter_eq_self.symm
    simp only [changeBody, Body.run, id, found, same]
    rcases ways with ⟨all, result⟩ | ⟨fewer, nothing, result⟩ | ⟨fewer, left, result⟩
    · have back : removeIf sid vec = vec := by
        rw [removeIf, all, List.drop_length, List.append_nil]
      rw [result, if_pos all, Body.run, onVector_found found, back, ← found, Function.update_eq_self]
    · have none : (without sid vec).length = 0 := List.length_eq_zero_iff.mpr nothing
      rw [result, if_neg fewer, Body.run, onVector_onVector, if_pos none]
      simp only [Body.run, onVector, Function.update_idem]
    · have some : (without sid vec).length ≠ 0 := mt List.length_eq_zero_iff.mp left
      rw [result, if_neg fewer, Body.run, onVector_onVector, if_neg some, Body.run, onVector_found found,
        Function.comp_apply, take_removeIf]

theorem routerBody_run (call : RouterCall) (r : Router) :
    (routerBody call).run r =
      (match call with | .change op => r.apply op | _ => r, reply r call) := by
  cases call with
  | change op =>
      cases op with
      | subscribe cmd sub => exact subscribe_run cmd sub r
      | unsubscribe cmd sid => exact unsubscribe_run cmd sid r
      | removeSession sid nid => exact eraseNid_run nid sid _
      | bindNid nid sid reactorIdx => rfl
      | unbindNid nid sid => exact eraseNid_run nid sid r
  | findSubscribers cmd =>
      simp only [routerBody, Body.run, reply, findSubscribers]
      cases found : r.subTable cmd <;> simp [Body.run, found]
  | findNidRoute nid =>
      simp only [routerBody, Body.run, reply, findNidRoute]
      cases found : r.nidMap nid <;> simp [Body.run, found]
  | subscriptionCount cmd =>
      simp only [routerBody, Body.run, reply, subscriptionCount, findSubscribers]
      cases found : r.subTable cmd <;> simp [Body.run, found]

theorem replay_changes (r : Router) (history : List (Returned RouterResult RouterCall)) :
    replay lockedRouter.apply r history = replay Router.apply r (changes history) := by
  induction history generalizing r with
  | nil => rfl
  | cons e later ih =>
      have step : lockedRouter.apply r e = match e.op with | .change op => r.apply op | _ => r :=
        congrArg Prod.fst (routerBody_run e.op r)
      rw [replay_cons, ih, step]
      obtain ⟨t, call, result⟩ := e
      cases call <;> rfl

/-- Threads may look up and change a `Router` at once: every call that has returned answered as a
router that had performed just the changes returned before it, and so no lookup sees half a change;
and whenever no thread holds the lock alone, the tables are those of all the changes returned. -/
theorem router_calls_are_atomic {taken : List (Taken (Locked Router RouterResult RouterCall)
      (Move RouterCall) (Returned RouterResult RouterCall))}
    {s : Locked Router RouterResult RouterCall}
    (run : Run lockedRouter.system (.start Router.empty) taken s) :
    (∀ before e later, trace taken = before ++ e :: later →
        e.result = reply (perform (changes before)) e.op) ∧
      (s.writer = none → s.state = perform (changes (trace taken))) := by
  obtain ⟨along, consistent⟩ := Guarded.run_linearizes run
  rw [replay_changes] at consistent
  refine ⟨?_, consistent.free⟩
  intro before e later split
  rw [split] at along
  have allowed := along_at lockedRouter.apply along
  rw [replay_changes] at allowed
  exact allowed.symm.trans (congrArg Prod.snd (routerBody_run e.op _))

/-- A lookup between two subscriptions, with all three calls under way at once. -/
theorem router_calls_are_atomic_overlapping :
    ∃ taken s, Run lockedRouter.system (.start Router.empty) taken s ∧
      (trace taken).map Returned.op = [.change (.subscribe 7 ⟨1, 1, 1, 0⟩), .findSubscribers 7,
        .change (.subscribe 7 ⟨1, 2, 2, 1⟩)] ∧
      (s.writer = none → s.state = perform (changes (trace taken))) := by
  obtain ⟨taken, s, run, _, seen⟩ := run_of_follow lockedRouter.system (fun _ => true)
    (.start Router.empty) [.call 1 (.change (.subscribe 7 ⟨1, 1, 1, 0⟩)),
      .call 2 (.change (.subscribe 7 ⟨1, 2, 2, 1⟩)), .call 3 (.findSubscribers 7), .acquire 1, .access 1,
      .access 1, .release 1, .acquire 3, .access 3, .access 3, .release 3, .acquire 2, .access 2,
      .access 2, .release 2]
    (fun r => decide (r.2.map Returned.op = [.change (.subscribe 7 ⟨1, 1, 1, 0⟩), .findSubscribers 7,
        .change (.subscribe 7 ⟨1, 2, 2, 1⟩)])) (by decide)
  exact ⟨taken, s, run, of_decide_eq_true seen, (router_calls_are_atomic run).2⟩

end Routers

end HiImCore.Hub
