import HiImCore.Hub.SpscQueue

/-! `PushWithBackoff` (`src/hub/queue_push.hpp`) on either kind of queue, with pops and
other producers' pushes between its attempts. -/

namespace HiImCore.Hub

open Fifo Replay SlotRing Transition

variable {α : Type}

def SpscQueue.push (q : SpscQueue α) (value : α) : SpscQueue α × Bool :=
  let next := (q.tail + 1) % q.capacity
  if next = q.head then (q, false)
  else ({ q with slots := Function.update q.slots q.tail value, tail := next }, true)

def SpscQueue.pop [MoveSource α] (q : SpscQueue α) : SpscQueue α × Option α :=
  if q.head = q.tail then (q, none)
  else
    let value := q.slots q.head
    ({ q with
        slots := Function.update q.slots q.head (movedFrom value)
        head := (q.head + 1) % q.capacity }, some value)

def SpscQueue.atRest (q : SpscQueue α) : SpscState α := ⟨q, .idle, .idle⟩

structure SpscQueue.Valid (q : SpscQueue α) : Prop where
  head : q.head < q.capacity
  tail : q.tail < q.capacity

structure MpscQueue (α : Type) where
  capacity : Nat
  queue : List α

def MpscQueue.push (q : MpscQueue α) (value : α) : MpscQueue α × Bool :=
  match Hub.push q.capacity q.queue value with
  | none => (q, false)
  | some queue => ({ q with queue := queue }, true)

def MpscQueue.pop (q : MpscQueue α) : MpscQueue α × Option α :=
  match Hub.pop q.queue with
  | none => (q, none)
  | some (value, rest) => ({ q with queue := rest }, some value)

/-- What the template `PushWithBackoff` uses of its `Queue`, and what a queue is. -/
structure BoundedQueue (α : Type) where
  State : Type
  capacity : State → Nat
  contents : State → List α
  push : State → α → State × Bool
  pop : State → State × Option α
  push_true : ∀ q value, (push q value).2 = true →
    (contents q).length < capacity q ∧ contents (push q value).1 = contents q ++ [value]
  push_false : ∀ q value, (push q value).2 = false →
    capacity q ≤ (contents q).length ∧ (push q value).1 = q
  pop_contents : ∀ q, contents (pop q).1 = (contents q).tail ∧ (pop q).2 = (contents q).head?

def BoundedQueue.Full (Q : BoundedQueue α) (q : Q.State) : Prop :=
  Q.capacity q ≤ (Q.contents q).length

section Ring

variable [MoveSource α] {q : SpscQueue α} (valid : q.Valid)
include valid

omit [MoveSource α] in
theorem SpscQueue.Valid.sound : q.atRest.Sound (q.capacity - 1) := by
  have head := valid.head
  refine ⟨?_, head, valid.tail, trivial, trivial⟩
  show q.capacity = q.capacity - 1 + 1
  omega

theorem SpscQueue.push_pushed {value : α} (done : (q.push value).2 = true) :
    SpscKept (q.capacity - 1) q.atRest (q.push value).1.atRest [.pushed value] := by
  by_cases next : (q.tail + 1) % q.capacity = q.head
  · simp [SpscQueue.push, next] at done
  · have loaded := spscStep_kept (.push value) valid.sound rfl
    have room := spscStep_kept .producer loaded.sound (if_neg next)
    have stored := spscStep_kept .producer room.sound rfl
    have kept := spscStep_kept .producer stored.sound rfl
    have same : _ = q.atRest.contents :=
      stored.contents.trans (room.contents.trans loaded.contents)
    simp only [SpscQueue.push, next, if_false]
    exact ⟨kept.sound, kept.single, same ▸ kept.legal, same ▸ kept.contents⟩

theorem SpscQueue.push_refused {value : α} (full : (q.push value).2 = false) :
    q.atRest.contents.length = q.capacity - 1 ∧ (q.push value).1 = q := by
  by_cases next : (q.tail + 1) % q.capacity = q.head
  · have loaded := spscStep_kept (.push value) valid.sound rfl
    have refused := spscStep_kept .producer loaded.sound (if_pos next)
    refine ⟨?_, by simp [SpscQueue.push, next]⟩
    rw [← show _ = q.atRest.contents from loaded.contents]
    exact refused.legal.1
  · simp [SpscQueue.push, next] at full

theorem SpscQueue.pop_kept :
    ∃ op, SpscKept (q.capacity - 1) q.atRest q.pop.1.atRest [op] ∧
      (op = .missed ∧ q.pop.2 = none ∨ ∃ value, op = .popped value ∧ q.pop.2 = some value) := by
  have loaded := spscStep_kept .pop valid.sound rfl
  have first : _ = q.atRest.contents := loaded.contents
  by_cases empty : q.head = q.tail
  · have missed := spscStep_kept .consumer loaded.sound (if_pos empty)
    refine ⟨.missed, ?_, .inl ⟨rfl, by simp [SpscQueue.pop, empty]⟩⟩
    simp only [SpscQueue.pop, empty, if_true]
    exact ⟨missed.sound, missed.single, first ▸ missed.legal, first ▸ missed.contents⟩
  · have present := spscStep_kept .consumer loaded.sound (if_neg empty)
    have moved := spscStep_kept .consumer present.sound rfl
    have kept := spscStep_kept .consumer moved.sound rfl
    have same : _ = q.atRest.contents := moved.contents.trans (present.contents.trans first)
    refine ⟨.popped (q.slots q.head), ?_, .inr ⟨_, rfl, by simp [SpscQueue.pop, empty]⟩⟩
    simp only [SpscQueue.pop, empty, if_false]
    exact ⟨kept.sound, kept.single, same ▸ kept.legal, same ▸ kept.contents⟩

end Ring

theorem SpscState.Sound.valid {capacity : Nat} {q : SpscQueue α} (sound : q.atRest.Sound capacity) :
    q.Valid := ⟨sound.head, sound.tail⟩

section Kinds

variable [MoveSource α]

theorem SpscQueue.push_valid {q : SpscQueue α} (valid : q.Valid) (value : α) :
    (q.push value).1.Valid := by
  cases done : (q.push value).2 with
  | true => exact (SpscQueue.push_pushed valid done).sound.valid
  | false => rwa [(SpscQueue.push_refused valid done).2]

theorem SpscQueue.pop_valid {q : SpscQueue α} (valid : q.Valid) : q.pop.1.Valid := by
  obtain ⟨op, kept, _⟩ := SpscQueue.pop_kept valid
  exact kept.sound.valid

def spscQueue : BoundedQueue α where
  State := { q : SpscQueue α // q.Valid }
  capacity q := q.1.capacity - 1
  contents q := q.1.atRest.contents
  push q value := (⟨(q.1.push value).1, SpscQueue.push_valid q.2 value⟩, (q.1.push value).2)
  pop q := (⟨q.1.pop.1, SpscQueue.pop_valid q.2⟩, q.1.pop.2)
  push_true q value done := by
    have kept := SpscQueue.push_pushed q.2 done
    exact ⟨kept.legal.1, kept.contents⟩
  push_false q value full := by
    obtain ⟨length, same⟩ := SpscQueue.push_refused q.2 full
    exact ⟨Nat.le_of_eq length.symm, Subtype.ext same⟩
  pop_contents q := by
    obtain ⟨op, kept, ⟨rfl, result⟩ | ⟨value, rfl, result⟩⟩ := SpscQueue.pop_kept q.2
    · have empty : q.1.atRest.contents = [] := kept.legal.1
      have same : q.1.pop.1.atRest.contents = q.1.atRest.contents := kept.contents
      exact ⟨by rw [same, empty]; rfl, by rw [empty]; exact result⟩
    · exact ⟨kept.contents, result.trans (show _ = _ from kept.legal.1).symm⟩

omit [MoveSource α] in
def mpscQueue : BoundedQueue α where
  State := MpscQueue α
  capacity q := q.capacity
  contents q := q.queue
  push := MpscQueue.push
  pop := MpscQueue.pop
  push_true q value done := by
    unfold MpscQueue.push at done ⊢
    split at done
    · cases done
    · rename_i queue pushed
      exact push_some pushed
  push_false q value full := by
    unfold MpscQueue.push at full ⊢
    split at full
    · rename_i refused
      exact ⟨push_none refused, rfl⟩
    · cases full
  pop_contents q := by
    obtain ⟨capacity, queue⟩ := q
    cases queue with
    | nil => exact ⟨rfl, rfl⟩
    | cons head tail => exact ⟨rfl, rfl⟩

inductive QueueKind where
  | spsc
  | mpsc

def queueOf : QueueKind → BoundedQueue α
  | .spsc => spscQueue
  | .mpsc => mpscQueue

end Kinds

/-- Where a call of `PushWithBackoff` is: about to make an attempt with what it has of
the value, after so many failures, or back at its caller. -/
inductive PushCall (α : Type) where
  | pushing (value : α) (attempt : Nat)
  | returned (result : Bool)
  deriving DecidableEq

structure PushState (Q : BoundedQueue α) where
  queue : Q.State
  call : PushCall α

inductive PushAction (α : Type) where
  | attempt
  | pop
  | push (value : α)
  deriving DecidableEq

variable [MoveSource α]

def pushStep (Q : BoundedQueue α) (maxRetries : Nat) (s : PushState Q) :
    PushAction α → Option (PushState Q × List α)
  | .attempt =>
      match s.call with
      | .returned _ => none
      | .pushing value i =>
          let pushed := Q.push s.queue value
          if pushed.2 then some (⟨pushed.1, .returned true⟩, [value])
          else if i < maxRetries then some (⟨pushed.1, .pushing (movedFrom value) (i + 1)⟩, [])
          else some (⟨pushed.1, .returned false⟩, [])
  | .pop => some (⟨(Q.pop s.queue).1, s.call⟩, [])
  | .push value => some (⟨(Q.push s.queue value).1, s.call⟩, [])

def pushSystem (Q : BoundedQueue α) (maxRetries : Nat) : System (PushState Q) (PushAction α) α :=
  ⟨pushStep Q maxRetries⟩

theorem pushAttempt_is_pushStep (maxRetries capacity : Nat) (queue : List α) (value : α)
    (attempt : Nat) :
    pushStep mpscQueue maxRetries ⟨⟨capacity, queue⟩, .pushing value attempt⟩ .attempt =
      some (match pushAttempt maxRetries capacity queue value attempt with
        | .pushed after => (⟨⟨capacity, after⟩, .returned true⟩, [value])
        | .retry left next => (⟨⟨capacity, queue⟩, .pushing left next⟩, [])
        | .gaveUp => (⟨⟨capacity, queue⟩, .returned false⟩, [])) := by
  unfold pushStep pushAttempt mpscQueue MpscQueue.push
  dsimp only
  generalize Hub.push capacity queue value = outcome
  cases outcome with
  | some after => rfl
  | none =>
      by_cases more : attempt < maxRetries
      · simp [more]
      · simp [more]

section Calls

variable {Q : BoundedQueue α} {maxRetries : Nat} {value : α} {start : Q.State}
  {taken : List (Taken (PushState Q) (PushAction α) α)} {s : PushState Q}

abbrev PushRun (Q : BoundedQueue α) (maxRetries : Nat) (start : Q.State) (value : α) :=
  Run (pushSystem Q maxRetries) ⟨start, .pushing value 0⟩

def FoundFull (x : Taken (PushState Q) (PushAction α) α) : Prop :=
  x.act = .attempt → Q.Full x.pre.queue

/-- The step is an attempt that finds room, made after `failures` failures. -/
def FindsRoom (failures : Nat) (x : Taken (PushState Q) (PushAction α) α) : Prop :=
  x.act = .attempt ∧ (∃ held, x.pre.call = .pushing held failures) ∧ ¬ Q.Full x.pre.queue

def leftOf (failures : Nat) (value : α) : α := movedFrom^[failures] value

def Accounted (value : α) (taken : List (Taken (PushState Q) (PushAction α) α)) :
    PushCall α → Prop
  | .pushing held failures =>
      held = leftOf failures value ∧ trace taken = [] ∧ Within FoundFull taken
  | .returned true =>
      ∃ failures, trace taken = [leftOf failures value] ∧ (∃ x ∈ taken, FindsRoom failures x) ∧
        ∀ x ∈ taken, ∀ n, FindsRoom n x → n = failures
  | .returned false => trace taken = [] ∧ Within FoundFull taken

theorem leftOf_succ (failures : Nat) (value : α) :
    leftOf (failures + 1) value = movedFrom (leftOf failures value) :=
  Function.iterate_succ_apply' movedFrom failures value

theorem Accounted.others {call : PushCall α} {x : Taken (PushState Q) (PushAction α) α}
    (before : Accounted value taken call) (other : x.act ≠ .attempt) (silent : x.events = []) :
    Accounted value (taken ++ [x]) call := by
  have same : trace (taken ++ [x]) = trace taken := by
    rw [trace_append, trace_singleton, silent, List.append_nil]
  have full : Within FoundFull [x] := by
    intro y member attempt
    obtain rfl := List.mem_singleton.mp member
    exact absurd attempt other
  cases call with
  | pushing held failures =>
      obtain ⟨left, none, all⟩ := before
      exact ⟨left, same.trans none, within_append.mpr ⟨all, full⟩⟩
  | returned result =>
      cases result with
      | false =>
          obtain ⟨none, all⟩ := before
          exact ⟨same.trans none, within_append.mpr ⟨all, full⟩⟩
      | true =>
          obtain ⟨failures, added, ⟨y, member, room⟩, only⟩ := before
          refine ⟨failures, same.trans added, ⟨y, List.mem_append_left _ member, room⟩, ?_⟩
          intro z inside n found
          rcases List.mem_append.mp inside with old | new
          · exact only z old n found
          · obtain rfl := List.mem_singleton.mp new
            exact absurd found.1 other

theorem Accounted.attempt {pre post : PushState Q} {events : List α}
    (before : Accounted value taken pre.call)
    (step : pushStep Q maxRetries pre .attempt = some (post, events)) :
    Accounted value (taken ++ [⟨pre, .attempt, events⟩]) post.call := by
  obtain ⟨queue, call⟩ := pre
  cases call with
  | returned result => cases step
  | pushing held failures =>
      obtain ⟨rfl, none, all⟩ := before
      simp only [pushStep] at step
      split at step
      · rename_i done
        obtain ⟨rfl, rfl⟩ := Prod.mk.inj (Option.some.inj step)
        have room := (Q.push_true queue _ done).1
        refine ⟨failures, by simp [none],
          ⟨_, List.mem_append_right taken (List.mem_singleton.mpr rfl), rfl, ⟨_, rfl⟩,
            Nat.not_le.mpr room⟩, ?_⟩
        rintro x member n ⟨attempt, ⟨value, here⟩, free⟩
        rcases List.mem_append.mp member with old | new
        · exact absurd (all x old attempt) free
        · obtain rfl := List.mem_singleton.mp new
          exact (PushCall.pushing.inj here).2.symm
      · rename_i refused
        have full := Q.push_false queue _ (Bool.eq_false_iff.mpr refused)
        have still : Within FoundFull (taken ++ [⟨⟨queue, .pushing (leftOf failures value) failures⟩,
            .attempt, []⟩]) := by
          refine within_append.mpr ⟨all, fun x member _ => ?_⟩
          obtain rfl := List.mem_singleton.mp member
          exact full.1
        split at step <;> obtain ⟨rfl, rfl⟩ := Prod.mk.inj (Option.some.inj step)
        · exact ⟨(leftOf_succ failures value).symm, by simp [none], still⟩
        · exact ⟨by simp [none], still⟩

theorem pushRun_accounted (run : PushRun Q maxRetries start value taken s) :
    Accounted value taken s.call := by
  induction run with
  | nil => exact ⟨rfl, rfl, fun x member => by cases member⟩
  | @snoc past pre post action events before step ih =>
      cases action with
      | attempt => exact ih.attempt step
      | pop | push _ =>
          obtain ⟨rfl, rfl⟩ := Prod.mk.inj (Option.some.inj step)
          exact ih.others nofun rfl

theorem pushStep_gain {pre post : PushState Q} {events : List α}
    (step : pushStep Q maxRetries pre .attempt = some (post, events)) :
    Q.contents post.queue = Q.contents pre.queue ++ events := by
  obtain ⟨queue, call⟩ := pre
  cases call with
  | returned result => cases step
  | pushing held failures =>
      simp only [pushStep] at step
      split at step
      · rename_i done
        obtain ⟨rfl, rfl⟩ := Prod.mk.inj (Option.some.inj step)
        exact (Q.push_true queue _ done).2
      · rename_i refused
        have same := (Q.push_false queue held (Bool.eq_false_iff.mpr refused)).2
        split at step <;> obtain ⟨rfl, rfl⟩ := Prod.mk.inj (Option.some.inj step) <;>
          rw [List.append_nil, same]

/-- The value is in the queue exactly once, or not at all after attempts that all found
it full. -/
def DeliveredOnce (value : α) (taken : List (Taken (PushState Q) (PushAction α) α))
    (result : Bool) : Prop :=
  (result = true → trace taken = [value]) ∧
    (result = false → trace taken = [] ∧ Within FoundFull taken)

def KeepsValue (value : α) (x : Taken (PushState Q) (PushAction α) α) : Prop :=
  ∀ failures, FindsRoom failures x → leftOf failures value = value

end Calls

/-- A finished call adds the value passed in exactly once or not at all where no attempt
finds room with a value that earlier attempts have changed, and only there. -/
theorem pushWithBackoff_delivers_once_iff (kind : QueueKind) (maxRetries : Nat)
    (start : (queueOf (α := α) kind).State) (value : α) (result : Bool)
    {taken : List (Taken (PushState (queueOf (α := α) kind)) (PushAction α) α)}
    {s : PushState (queueOf (α := α) kind)}
    (run : PushRun (queueOf kind) maxRetries start value taken s)
    (finished : s.call = .returned result) :
    (∀ x ∈ taken, x.act = .attempt → ∀ post, pushStep (queueOf kind) maxRetries x.pre x.act =
        some (post, x.events) →
        (queueOf kind).contents post.queue = (queueOf kind).contents x.pre.queue ++ x.events) ∧
      (DeliveredOnce value taken result ↔ Within (KeepsValue value) taken) := by
  have account := pushRun_accounted run
  rw [finished] at account
  constructor
  · intro x _ attempt post step
    rw [attempt] at step
    exact pushStep_gain step
  · cases result with
    | false =>
        obtain ⟨none, all⟩ := account
        constructor
        · intro _ x member failures room
          exact absurd (all x member room.1) room.2.2
        · intro _
          exact ⟨nofun, fun _ => ⟨none, all⟩⟩
    | true =>
        obtain ⟨failures, added, ⟨x, member, room⟩, only⟩ := account
        constructor
        · intro once y inside n found
          have same := once.1 rfl
          rw [added] at same
          rw [only y inside n found]
          exact List.singleton_inj.mp same
        · intro kept
          refine ⟨fun _ => ?_, nofun⟩
          rw [added, kept x member failures room]

/-- The queue is full at the first attempt and has room at the second: the call returns
true and has added the frame without its bytes. -/
theorem pushWithBackoff_adds_moved_from :
    ∃ (taken : List (Taken (PushState (queueOf .mpsc)) (PushAction OutboundFrame) OutboundFrame))
      (s : PushState (queueOf .mpsc)),
      PushRun (queueOf .mpsc) kMaxRetries ⟨1, [⟨1, 0, [7]⟩]⟩ ⟨2, 0, [8]⟩ taken s ∧
      s.call = .returned true ∧ trace taken = [⟨2, 0, []⟩] ∧
      ¬ DeliveredOnce ⟨2, 0, [8]⟩ taken true := by
  have check : ((follow (pushSystem (α := OutboundFrame) (queueOf .mpsc) kMaxRetries)
      (fun _ => true) ⟨⟨1, [⟨1, 0, [7]⟩]⟩, .pushing ⟨2, 0, [8]⟩ 0⟩
      [.attempt, .pop, .attempt]).any fun r =>
        decide (r.1.call = .returned true ∧ r.2 = [⟨2, 0, []⟩])) = true := by
    decide
  obtain ⟨taken, s, run, _, ends⟩ := run_of_follow _ _ _ _ _ check
  obtain ⟨returned, added⟩ := of_decide_eq_true ends
  refine ⟨taken, s, run, returned, added, ?_⟩
  intro once
  exact absurd (added.symm.trans (once.1 rfl)) (by decide)

theorem pushWithBackoff_delivers_once_at_first :
    ∃ (taken : List (Taken (PushState (queueOf .mpsc)) (PushAction OutboundFrame) OutboundFrame))
      (s : PushState (queueOf .mpsc)),
      PushRun (queueOf .mpsc) kMaxRetries ⟨1, [⟨1, 0, [7]⟩]⟩ ⟨2, 0, [8]⟩ taken s ∧
      s.call = .returned true ∧ DeliveredOnce ⟨2, 0, [8]⟩ taken true := by
  have check : ((follow (pushSystem (α := OutboundFrame) (queueOf .mpsc) kMaxRetries)
      (fun x => decide (x.pre.call = .pushing ⟨2, 0, [8]⟩ 0))
      ⟨⟨1, [⟨1, 0, [7]⟩]⟩, .pushing ⟨2, 0, [8]⟩ 0⟩
      [.pop, .attempt]).any fun r => decide (r.1.call = .returned true)) = true := by
    decide
  obtain ⟨taken, s, run, first, ends⟩ := run_of_follow _ _ _ _ _ check
  have returned := of_decide_eq_true ends
  have kept : Within (KeepsValue ⟨2, 0, [8]⟩) taken := by
    rintro x member failures ⟨_, ⟨held, here⟩, _⟩
    have fresh := of_decide_eq_true (first x member)
    rw [here] at fresh
    rw [(PushCall.pushing.inj fresh).2]
    rfl
  exact ⟨taken, s, run, returned,
    (pushWithBackoff_delivers_once_iff .mpsc kMaxRetries _ _ true run returned).2.mpr kept⟩

end HiImCore.Hub
