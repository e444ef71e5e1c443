import HiImCore.Hub.System

/-! `Publish` and `AsyncSend` (`src/hub/context_impl.cpp`), as calls that run alone. -/

namespace HiImCore.Hub

open Transition Wire

section Alone

variable {α : Type} [MoveSource α]

/-- `PushWithBackoff` with so many retries left, while no other thread uses the queue. -/
def pushWithBackoff (capacity : Nat) (queue : List α) : Nat → α → List α × Bool
  | 0, value =>
      match push capacity queue value with
      | some after => (after, true)
      | none => (queue, false)
  | retries + 1, value =>
      match push capacity queue value with
      | some after => (after, true)
      | none => pushWithBackoff capacity queue retries (movedFrom value)

variable {capacity : Nat} {queue : List α}

theorem pushWithBackoff_room (room : queue.length < capacity) (retries : Nat) (value : α) :
    pushWithBackoff capacity queue retries value = (queue ++ [value], true) := by
  cases retries <;> simp [pushWithBackoff, push, Nat.not_le.mpr room]

theorem pushWithBackoff_full (full : capacity ≤ queue.length) (retries : Nat) (value : α) :
    pushWithBackoff capacity queue retries value = (queue, false) := by
  induction retries generalizing value with
  | zero => simp [pushWithBackoff, push, full]
  | succ retries ih => simp [pushWithBackoff, push, full, ih]

end Alone

section Calls

variable (capacity : Nat) (cmd : UInt32) (data : Bytes)

/-- The loop of `Publish` over what is left of its snapshot. -/
def publishEach (queue : List OutboundFrame) : List Subscriber → List OutboundFrame × Status
  | [] => (queue, .ok)
  | sub :: rest =>
      match pushWithBackoff capacity queue kMaxRetries (publishFrame cmd data sub) with
      | (queue, true) => publishEach queue rest
      | (queue, false) => (queue, .error .kQueueFull "")

def publish (router : Router) (queue : List OutboundFrame) : List OutboundFrame × Status :=
  let subs := router.findSubscribers cmd
  if subs.isEmpty then (queue, .error .kNotFound "no subscribers")
  else publishEach capacity cmd data queue subs

def asyncSend (router : Router) (destNid : UInt32) (queue : List OutboundFrame) :
    List OutboundFrame × Status :=
  match router.findNidRoute destNid with
  | none => (queue, .error .kNotFound "nid not connected")
  | some route =>
      match pushWithBackoff capacity queue kMaxRetries (unicastFrame cmd destNid data route) with
      | (queue, true) => (queue, .ok)
      | (queue, false) => (queue, .error .kQueueFull "")

/-- `AsyncSend` to the nid of each subscriber in turn: the queue after the calls and what
they returned. -/
def asyncSendEach (router : Router) (queue : List OutboundFrame) :
    List Subscriber → List OutboundFrame × List Status
  | [] => (queue, [])
  | sub :: rest =>
      let sent := asyncSend capacity cmd data router sub.nid queue
      let later := asyncSendEach router sent.1 rest
      (later.1, sent.2 :: later.2)

end Calls

section Expansion

variable {capacity : Nat} {cmd : UInt32} {data : Bytes} {router : Router}

theorem publishEach_room {queue : List OutboundFrame} {subs : List Subscriber}
    (room : queue.length + subs.length ≤ capacity) :
    publishEach capacity cmd data queue subs = (queue ++ subs.map (publishFrame cmd data), .ok) := by
  induction subs generalizing queue with
  | nil => simp [publishEach]
  | cons sub rest ih =>
      rw [List.length_cons] at room
      have longer : (queue ++ [publishFrame cmd data sub]).length + rest.length ≤ capacity := by
        rw [List.length_append, List.length_singleton]
        omega
      rw [publishEach, pushWithBackoff_room (by omega)]
      dsimp only
      rw [ih longer, List.append_assoc]
      rfl

/-- The frame that a call of `AsyncSend` for a subscriber adds, if its nid has a route. -/
def unicastOf (cmd : UInt32) (data : Bytes) (router : Router) (sub : Subscriber) :
    Option OutboundFrame :=
  (router.findNidRoute sub.nid).map (unicastFrame cmd sub.nid data)

theorem asyncSend_room (cmd : UInt32) (data : Bytes) (router : Router)
    {queue : List OutboundFrame} (sub : Subscriber)
    (room : queue.length < capacity) :
    (asyncSend capacity cmd data router sub.nid queue).1 =
        queue ++ (unicastOf cmd data router sub).toList ∧
      ((asyncSend capacity cmd data router sub.nid queue).2 = .ok ↔
        (router.findNidRoute sub.nid).isSome) := by
  unfold asyncSend unicastOf
  cases router.findNidRoute sub.nid with
  | none => simp [Status.ok, Status.error]
  | some route => simp [pushWithBackoff_room room]

theorem asyncSendEach_room (cmd : UInt32) (data : Bytes) (router : Router)
    {queue : List OutboundFrame} {subs : List Subscriber}
    (room : queue.length + subs.length ≤ capacity) :
    (asyncSendEach capacity cmd data router queue subs).1 =
        queue ++ subs.filterMap (unicastOf cmd data router) ∧
      ((∀ status ∈ (asyncSendEach capacity cmd data router queue subs).2, status = .ok) ↔
        ∀ sub ∈ subs, (router.findNidRoute sub.nid).isSome) := by
  induction subs generalizing queue with
  | nil => simp [asyncSendEach]
  | cons sub rest ih =>
      rw [List.length_cons] at room
      obtain ⟨frames, result⟩ := asyncSend_room cmd data router sub
        (show queue.length < capacity by omega)
      have short : (unicastOf cmd data router sub).toList.length ≤ 1 := Option.length_toList_le
      have longer : (asyncSend capacity cmd data router sub.nid queue).1.length + rest.length
          ≤ capacity := by
        rw [frames, List.length_append]
        omega
      obtain ⟨later, results⟩ := ih longer
      constructor
      · rw [asyncSendEach, later, frames, List.append_assoc, List.filterMap_cons]
        cases unicastOf cmd data router sub <;> rfl
      · simp only [asyncSendEach, List.forall_mem_cons, result, results]

theorem unicastOf_eq_some_iff {sub : Subscriber} :
    unicastOf cmd data router sub = some (publishFrame cmd data sub) ↔
      router.findNidRoute sub.nid = some ⟨sub.sid, sub.reactorIdx⟩ := by
  unfold unicastOf
  constructor
  · intro same
    obtain ⟨⟨sid, reactorIdx⟩, found, frame⟩ := Option.map_eq_some_iff.mp same
    simp only [unicastFrame, publishFrame, OutboundFrame.mk.injEq] at frame
    rw [found, frame.1, frame.2.1]
  · intro found
    rw [found]
    rfl

/-- `Publish` into a queue with room is `AsyncSend` to the nid of each subscriber in turn,
exactly where the route of every such nid leads to that subscriber; `Hub/Identity.lean` says in which
runs of the hub it does. -/
theorem publish_eq_asyncSendEach_iff (capacity : Nat) (cmd : UInt32) (data : Bytes)
    (router : Router) (queue : List OutboundFrame)
    (present : router.findSubscribers cmd ≠ [])
    (room : queue.length + (router.findSubscribers cmd).length ≤ capacity) :
    ((publish capacity cmd data router queue).1 =
          (asyncSendEach capacity cmd data router queue (router.findSubscribers cmd)).1 ∧
        ((publish capacity cmd data router queue).2 = .ok ↔
          ∀ status ∈ (asyncSendEach capacity cmd data router queue (router.findSubscribers cmd)).2,
            status = .ok)) ↔
      ∀ sub ∈ router.findSubscribers cmd,
        router.findNidRoute sub.nid = some ⟨sub.sid, sub.reactorIdx⟩ := by
  have published : publish capacity cmd data router queue =
      (queue ++ (router.findSubscribers cmd).map (publishFrame cmd data), .ok) := by
    unfold publish
    rw [if_neg (by simpa using present)]
    exact publishEach_room room
  obtain ⟨frames, results⟩ := asyncSendEach_room cmd data router room
  rw [published, frames, results]
  constructor
  · rintro ⟨same, _⟩ sub member
    have pointwise := List.filterMap_eq_map_iff_forall_eq_some.mp (List.append_cancel_left same).symm
    exact unicastOf_eq_some_iff.mp (pointwise sub member)
  · intro routes
    constructor
    · refine congrArg (queue ++ ·) (Eq.symm ?_)
      exact List.filterMap_eq_map_iff_forall_eq_some.mpr fun sub member =>
        unicastOf_eq_some_iff.mpr (routes sub member)
    · constructor
      · intro _ sub member
        rw [routes sub member]
        rfl
      · intro _
        rfl

end Expansion

end HiImCore.Hub
