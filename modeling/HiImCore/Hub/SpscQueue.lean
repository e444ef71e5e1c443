import HiImCore.Hub.Context
import HiImCore.Lib.Fifo
import HiImCore.Lib.Ring
import HiImCore.Lib.Transition

/-! The single-producer single-consumer ring (`SpscQueue` of `src/hub/queue.hpp`), one
access to shared memory a step: the producer and the consumer are each inside one call,
and their steps come in any order. -/

namespace HiImCore.Hub

open Fifo Replay SlotRing Transition

variable {α : Type}

/-- The members of `SpscQueue`: `capacity_` is one more than the capacity asked for. -/
structure SpscQueue (α : Type) where
  capacity : Nat
  slots : Nat → α
  head : Nat
  tail : Nat

/-- `SpscQueue(capacity)` with default-constructed slots. -/
def SpscQueue.make (capacity : Nat) (blank : α) : SpscQueue α := ⟨capacity + 1, fun _ => blank, 0, 0⟩

def SpscQueue.sizeApprox (q : SpscQueue α) : Nat :=
  if q.tail ≥ q.head then q.tail - q.head else q.capacity - q.head + q.tail

/-- Where `Push` is: its own index loaded, the other index found different, the slot
written. -/
inductive Producer (α : Type) where
  | idle
  | loadedTail (value : α) (tail : Nat)
  | hasRoom (value : α) (tail : Nat)
  | storedSlot (value : α) (tail : Nat)

/-- Where `Pop` is: its own index loaded, the other index found different, the value
moved out of its slot. -/
inductive Consumer (α : Type) where
  | idle
  | loadedHead (head : Nat)
  | hasValue (head : Nat)
  | movedValue (head : Nat) (value : α)

structure SpscState (α : Type) where
  queue : SpscQueue α
  producer : Producer α
  consumer : Consumer α

inductive SpscAction (α : Type) where
  | push (value : α)
  | producer
  | pop
  | consumer

def SpscState.init (capacity : Nat) (blank : α) : SpscState α := ⟨.make capacity blank, .idle, .idle⟩

variable [MoveSource α]

def spscStep (s : SpscState α) : SpscAction α → Option (SpscState α × List (Op α))
  | .push value =>
      match s.producer with
      | .idle => some ({ s with producer := .loadedTail value s.queue.tail }, [])
      | _ => none
  | .producer =>
      match s.producer with
      | .idle => none
      | .loadedTail value tail =>
          -- one slot stays free, so equal indices mean an empty ring
          if (tail + 1) % s.queue.capacity = s.queue.head then
            some ({ s with producer := .idle }, [.refused value])
          else some ({ s with producer := .hasRoom value tail }, [])
      | .hasRoom value tail =>
          some
            ({ s with
                queue := { s.queue with slots := Function.update s.queue.slots tail value }
                producer := .storedSlot value tail }, [])
      | .storedSlot value tail =>
          some
            ({ s with
                queue := { s.queue with tail := (tail + 1) % s.queue.capacity }
                producer := .idle }, [.pushed value])
  | .pop =>
      match s.consumer with
      | .idle => some ({ s with consumer := .loadedHead s.queue.head }, [])
      | _ => none
  | .consumer =>
      match s.consumer with
      | .idle => none
      | .loadedHead head =>
          if head = s.queue.tail then some ({ s with consumer := .idle }, [.missed])
          else some ({ s with consumer := .hasValue head }, [])
      | .hasValue head =>
          let value := s.queue.slots head
          some
            ({ s with
                queue :=
                  { s.queue with slots := Function.update s.queue.slots head (movedFrom value) }
                consumer := .movedValue head value }, [])
      | .movedValue head value =>
          some
            ({ s with
                queue := { s.queue with head := (head + 1) % s.queue.capacity }
                consumer := .idle }, [.popped value])

def spscSystem : System (SpscState α) (SpscAction α) (Op α) := ⟨spscStep⟩

section Contents

omit [MoveSource α]

namespace SpscState

variable (s : SpscState α)

def values : Nat → α :=
  match s.consumer with
  | .movedValue head value => Function.update s.queue.slots head value
  | _ => s.queue.slots

def count : Nat := distance s.queue.capacity s.queue.head s.queue.tail

def contents : List α := window s.queue.capacity s.queue.head s.count s.values

/-- The slot holds a value that was not popped yet. -/
def Occupied (place : Nat) : Prop :=
  ∃ j < s.count, (s.queue.head + j) % s.queue.capacity = place

/-- The consumer is about to move the value out of the slot, or has done so. -/
def Reading (place : Nat) : Prop :=
  s.consumer = .hasValue place ∨ ∃ value, s.consumer = .movedValue place value

@[simp] theorem contents_length : s.contents.length = s.count := window_length ..

end SpscState

def Producer.Knows (q : SpscQueue α) (count : Nat) : Producer α → Prop
  | .idle => True
  | .loadedTail _ tail => tail = q.tail
  | .hasRoom _ tail => tail = q.tail ∧ count + 1 < q.capacity
  | .storedSlot value tail => tail = q.tail ∧ count + 1 < q.capacity ∧ q.slots tail = value

def Consumer.Knows (q : SpscQueue α) (count : Nat) : Consumer α → Prop
  | .idle => True
  | .loadedHead head => head = q.head
  | .hasValue head | .movedValue head _ => head = q.head ∧ 0 < count

/-- The index that a call has loaded of its own side. -/
def Producer.Holds (index : Nat) : Producer α → Prop
  | .idle => False
  | .loadedTail _ tail | .hasRoom _ tail | .storedSlot _ tail => tail = index

def Consumer.Holds (index : Nat) : Consumer α → Prop
  | .idle => False
  | .loadedHead head | .hasValue head | .movedValue head _ => head = index

theorem Producer.Knows.holds {q : SpscQueue α} {count index : Nat} {producer : Producer α}
    (knows : producer.Knows q count) (held : producer.Holds index) : index = q.tail := by
  cases producer with
  | idle => cases held
  | loadedTail value tail => exact held.symm.trans knows
  | hasRoom value tail | storedSlot value tail => exact held.symm.trans knows.1

theorem Consumer.Knows.holds {q : SpscQueue α} {count index : Nat} {consumer : Consumer α}
    (knows : consumer.Knows q count) (held : consumer.Holds index) : index = q.head := by
  cases consumer with
  | idle => cases held
  | loadedHead head => exact held.symm.trans knows
  | hasValue head | movedValue head value => exact held.symm.trans knows.1

theorem Producer.Knows.fewer {q r : SpscQueue α} {count less : Nat} {producer : Producer α}
    (knows : producer.Knows q count) (size : r.capacity = q.capacity) (tail : r.tail = q.tail)
    (slot : r.slots q.tail = q.slots q.tail) (le : less ≤ count) : producer.Knows r less := by
  cases producer with
  | idle => trivial
  | loadedTail value own => exact knows.trans tail.symm
  | hasRoom value own =>
      obtain ⟨rfl, room⟩ := knows
      exact ⟨tail.symm, by omega⟩
  | storedSlot value own =>
      obtain ⟨rfl, room, stored⟩ := knows
      exact ⟨tail.symm, by omega, slot.trans stored⟩

theorem Consumer.Knows.more {q r : SpscQueue α} {count most : Nat} {consumer : Consumer α}
    (knows : consumer.Knows q count) (head : r.head = q.head) (le : count ≤ most) :
    consumer.Knows r most := by
  cases consumer with
  | idle => trivial
  | loadedHead own => exact knows.trans head.symm
  | hasValue own | movedValue own value => exact ⟨knows.1.trans head.symm, by have := knows.2; omega⟩

structure SpscState.Sound (capacity : Nat) (s : SpscState α) : Prop where
  size : s.queue.capacity = capacity + 1
  head : s.queue.head < s.queue.capacity
  tail : s.queue.tail < s.queue.capacity
  producer : s.producer.Knows s.queue s.count
  consumer : s.consumer.Knows s.queue s.count

namespace SpscState.Sound

variable {capacity : Nat} {s : SpscState α} (sound : s.Sound capacity)
include sound

theorem count_le : s.count ≤ capacity := by
  have below : s.count < s.queue.capacity := distance_lt sound.tail
  have size := sound.size
  omega

theorem not_occupied_tail : ¬ s.Occupied s.queue.tail := by
  rintro ⟨j, inside, same⟩
  exact place_ne_tail sound.head sound.tail inside same

theorem head_ne_tail (present : 0 < s.count) : s.queue.head ≠ s.queue.tail := by
  intro same
  have none : s.count = 0 := (distance_zero_iff sound.head sound.tail).mpr same
  omega

theorem not_reading_tail : ¬ s.Reading s.queue.tail := by
  have knows := sound.consumer
  rintro (reading | ⟨value, reading⟩) <;>
  · rw [reading] at knows
    exact sound.head_ne_tail knows.2 knows.1.symm

theorem sizeApprox_eq : s.queue.sizeApprox = s.contents.length := by
  have head := sound.head
  rw [SpscState.contents_length, SpscState.count, distance_eq sound.head sound.tail]
  unfold SpscQueue.sizeApprox
  split <;> omega

end SpscState.Sound

end Contents

/-- A step from `s` to `t` keeps the invariant, and is at most one operation of a bounded
queue that leads from the contents of `s` to those of `t`. -/
structure SpscKept (capacity : Nat) (s t : SpscState α) (events : List (Op α)) : Prop where
  sound : t.Sound capacity
  single : events.length ≤ 1
  legal : Along Fifo.apply (Allows capacity) s.contents events
  contents : t.contents = replay Fifo.apply s.contents events

omit [MoveSource α] in
theorem SpscKept.allowed {capacity : Nat} {s t : SpscState α} {events : List (Op α)}
    (kept : SpscKept capacity s t events) {op : Op α} (member : op ∈ events) :
    Allows capacity s.contents op := by
  have single := kept.single
  have legal := kept.legal
  cases events with
  | nil => cases member
  | cons first rest =>
      obtain rfl : rest = [] := List.length_eq_zero_iff.mp (by simpa using single)
      obtain rfl := List.mem_singleton.mp member
      exact legal.1

section Steps

omit [MoveSource α]

variable {capacity : Nat} {s : SpscState α} {value : α} {tail head : Nat}
  (sound : s.Sound capacity)
include sound

theorem keep_producer {producer : Producer α} {events : List (Op α)}
    (knows : producer.Knows s.queue s.count) (single : events.length ≤ 1)
    (legal : Along Fifo.apply (Allows capacity) s.contents events)
    (still : replay Fifo.apply s.contents events = s.contents) :
    SpscKept capacity s { s with producer := producer } events :=
  ⟨{ sound with producer := knows }, single, legal, still.symm⟩

theorem keep_consumer {consumer : Consumer α} {events : List (Op α)}
    (knows : consumer.Knows s.queue s.count) (single : events.length ≤ 1)
    (same : ({ s with consumer := consumer } : SpscState α).values = s.values)
    (legal : Along Fifo.apply (Allows capacity) s.contents events)
    (still : replay Fifo.apply s.contents events = s.contents) :
    SpscKept capacity s { s with consumer := consumer } events := by
  refine ⟨{ sound with consumer := knows }, single, legal, still.symm ▸ ?_⟩
  unfold SpscState.contents
  rw [same]
  rfl

theorem keep_slotStore (knows : (Producer.hasRoom value tail).Knows s.queue s.count) :
    SpscKept capacity s
      { s with
        queue := { s.queue with slots := Function.update s.queue.slots tail value }
        producer := .storedSlot value tail } [] := by
  obtain ⟨rfl, room⟩ := knows
  refine ⟨⟨sound.size, sound.head, sound.tail, ⟨rfl, room, Function.update_self ..⟩, ?_⟩,
    Nat.zero_le 1, trivial, ?_⟩
  · exact sound.consumer.more rfl (Nat.le_refl s.count)
  · -- the slot written is the one after the last value
    refine window_congr fun j inside => ?_
    have away := place_ne_tail sound.head sound.tail inside
    unfold SpscState.values
    cases s.consumer with
    | movedValue head moved =>
        dsimp only
        by_cases here : (s.queue.head + j) % s.queue.capacity = head
        · rw [here, Function.update_self, Function.update_self]
        · rw [Function.update_of_ne here, Function.update_of_ne here, Function.update_of_ne away]
    | idle | loadedHead _ | hasValue _ => exact Function.update_of_ne away ..

theorem keep_tailStore (knows : (Producer.storedSlot value tail).Knows s.queue s.count) :
    SpscKept capacity s
      { s with
        queue := { s.queue with tail := (tail + 1) % s.queue.capacity }
        producer := .idle } [.pushed value] := by
  obtain ⟨rfl, room, stored⟩ := knows
  have longer : distance s.queue.capacity s.queue.head
      ((s.queue.tail + 1) % s.queue.capacity) = s.count + 1 :=
    distance_grow sound.head sound.tail room
  have last : s.values s.queue.tail = value := by
    have reading := sound.not_reading_tail
    unfold SpscState.values
    cases consumer : s.consumer with
    | movedValue head moved =>
        have away : s.queue.tail ≠ head := fun same =>
          reading (.inr ⟨moved, same ▸ consumer⟩)
        dsimp only
        rw [Function.update_of_ne away, stored]
    | idle | loadedHead _ | hasValue _ => exact stored
  have size := sound.size
  refine ⟨⟨sound.size, sound.head, Nat.mod_lt _ (by omega), trivial, ?_⟩, Nat.le_refl 1, ⟨?_, trivial⟩, ?_⟩
  · refine sound.consumer.more rfl ?_
    exact Nat.le_of_lt (Nat.lt_of_lt_of_eq (Nat.lt_succ_self s.count) longer.symm)
  · show s.contents.length < capacity
    rw [SpscState.contents_length]
    omega
  · calc window s.queue.capacity s.queue.head
          (distance s.queue.capacity s.queue.head ((s.queue.tail + 1) % s.queue.capacity)) s.values
        = s.contents ++ [s.values ((s.queue.head + s.count) % s.queue.capacity)] := by
          rw [longer, window_snoc]
          rfl
      _ = s.contents ++ [value] := by
          rw [SpscState.count, place_tail sound.head sound.tail, last]

theorem keep_slotMove (left : α) (knows : (Consumer.hasValue (α := α) head).Knows s.queue s.count)
    (before : s.values = s.queue.slots) :
    SpscKept capacity s
      { s with
        queue := { s.queue with slots := Function.update s.queue.slots head left }
        consumer := .movedValue head (s.queue.slots head) } [] := by
  obtain ⟨rfl, present⟩ := knows
  refine ⟨⟨sound.size, sound.head, sound.tail, ?_, ⟨rfl, present⟩⟩, Nat.zero_le 1, trivial, ?_⟩
  · have away := sound.head_ne_tail present
    exact sound.producer.fewer rfl rfl (Function.update_of_ne away.symm ..) (Nat.le_refl s.count)
  · have same : Function.update (Function.update s.queue.slots s.queue.head left) s.queue.head
        (s.queue.slots s.queue.head) = s.values := by
      rw [Function.update_idem, Function.update_eq_self, before]
    exact congrArg (window s.queue.capacity s.queue.head s.count) same

theorem keep_headStore (knows : (Consumer.movedValue head value).Knows s.queue s.count)
    (before : s.values = Function.update s.queue.slots head value) :
    SpscKept capacity s
      { s with
        queue := { s.queue with head := (head + 1) % s.queue.capacity }
        consumer := .idle } [.popped value] := by
  obtain ⟨rfl, present⟩ := knows
  have size := sound.size
  have shorter : distance s.queue.capacity ((s.queue.head + 1) % s.queue.capacity) s.queue.tail + 1
      = s.count := distance_shrink sound.head sound.tail present
  have split : s.contents = value ::
      window s.queue.capacity ((s.queue.head + 1) % s.queue.capacity)
        (distance s.queue.capacity ((s.queue.head + 1) % s.queue.capacity) s.queue.tail)
        s.queue.slots := by
    rw [SpscState.contents, ← shorter, window_cons sound.head, before, Function.update_self]
    congr 1
    refine window_update value fun j inside => ?_
    have bound := sound.count_le
    rw [Nat.mod_add_mod, Nat.add_assoc, Nat.add_comm 1]
    exact place_ne_head sound.head (Nat.succ_pos j) (by omega)
  refine ⟨⟨sound.size, Nat.mod_lt _ (by omega), sound.tail, ?_, trivial⟩, Nat.le_refl 1, ⟨?_, trivial⟩, ?_⟩
  · refine sound.producer.fewer rfl rfl rfl ?_
    exact Nat.le_of_succ_le (Nat.le_of_eq shorter)
  · show s.contents.head? = some value
    rw [split]
    rfl
  · show _ = s.contents.tail
    rw [split]
    rfl

end Steps

theorem spscStep_kept {capacity : Nat} {s t : SpscState α} (action : SpscAction α)
    {events : List (Op α)} (sound : s.Sound capacity)
    (step : spscStep s action = some (t, events)) : SpscKept capacity s t events := by
  have own := sound.producer
  have other := sound.consumer
  cases action with
  | push value =>
      simp only [spscStep] at step
      split at step
      · obtain ⟨rfl, rfl⟩ := Prod.mk.inj (Option.some.inj step)
        exact keep_producer sound rfl (Nat.zero_le 1) trivial rfl
      · cases step
  | producer =>
      simp only [spscStep] at step
      split at step <;> rename_i here
      · cases step
      · rename_i value tail
        rw [here] at own
        obtain rfl := own
        split at step <;> rename_i next <;>
          obtain ⟨rfl, rfl⟩ := Prod.mk.inj (Option.some.inj step)
        · have full : s.count + 1 = s.queue.capacity :=
            (next_eq_head_iff sound.head sound.tail).mp next
          refine keep_producer sound trivial (Nat.le_refl 1) ⟨?_, trivial⟩ rfl
          show s.contents.length = capacity
          rw [SpscState.contents_length]
          have size := sound.size
          omega
        · have notFull : s.count + 1 ≠ s.queue.capacity :=
            fun full => next ((next_eq_head_iff sound.head sound.tail).mpr full)
          have bound := sound.count_le
          have size := sound.size
          exact keep_producer sound ⟨rfl, by omega⟩ (Nat.zero_le 1) trivial rfl
      · obtain ⟨rfl, rfl⟩ := Prod.mk.inj (Option.some.inj step)
        exact keep_slotStore sound (here ▸ own)
      · obtain ⟨rfl, rfl⟩ := Prod.mk.inj (Option.some.inj step)
        exact keep_tailStore sound (here ▸ own)
  | pop =>
      simp only [spscStep] at step
      split at step
      · rename_i here
        obtain ⟨rfl, rfl⟩ := Prod.mk.inj (Option.some.inj step)
        exact keep_consumer sound rfl (Nat.zero_le 1) (by simp only [SpscState.values, here]) trivial rfl
      · cases step
  | consumer =>
      simp only [spscStep] at step
      split at step <;> rename_i here
      · cases step
      · rename_i head
        rw [here] at other
        obtain rfl := other
        split at step <;> rename_i next <;>
          obtain ⟨rfl, rfl⟩ := Prod.mk.inj (Option.some.inj step)
        · have none : s.count = 0 := (distance_zero_iff sound.head sound.tail).mpr next
          refine keep_consumer sound trivial (Nat.le_refl 1)
            (by simp only [SpscState.values, here]) ⟨?_, trivial⟩ rfl
          exact List.length_eq_zero_iff.mp (by rw [SpscState.contents_length, none])
        · have some : s.count ≠ 0 :=
            fun none => next ((distance_zero_iff sound.head sound.tail).mp none)
          exact keep_consumer sound ⟨rfl, by omega⟩ (Nat.zero_le 1)
            (by simp only [SpscState.values, here]) trivial rfl
      · obtain ⟨rfl, rfl⟩ := Prod.mk.inj (Option.some.inj step)
        exact keep_slotMove sound _ (here ▸ other) (by simp only [SpscState.values, here])
      · obtain ⟨rfl, rfl⟩ := Prod.mk.inj (Option.some.inj step)
        exact keep_headStore sound (here ▸ other) (by simp only [SpscState.values, here])

abbrev SpscRun (capacity : Nat) (blank : α) :=
  Run (spscSystem (α := α)) (SpscState.init capacity blank)

variable {capacity : Nat} {blank : α} {taken : List (Taken (SpscState α) (SpscAction α) (Op α))}
  {s : SpscState α}

omit [MoveSource α] in
theorem sound_init (capacity : Nat) (blank : α) : (SpscState.init capacity blank).Sound capacity :=
  ⟨rfl, Nat.succ_pos capacity, Nat.succ_pos capacity, trivial, trivial⟩

omit [MoveSource α] in
theorem contents_init (capacity : Nat) (blank : α) : (SpscState.init capacity blank).contents = [] := by
  have none : (SpscState.init capacity blank).count = 0 :=
    (distance_zero_iff (Nat.succ_pos capacity) (Nat.succ_pos capacity)).mpr rfl
  exact List.length_eq_zero_iff.mp (by rw [SpscState.contents_length, none])

theorem spscRun_legal (run : SpscRun capacity blank taken s) :
    s.Sound capacity ∧ Legal capacity (trace taken) ∧
      s.contents = replay Fifo.apply [] (trace taken) := by
  refine run.invariant
    (fun past s => s.Sound capacity ∧ Legal capacity past ∧
      s.contents = replay Fifo.apply [] past)
    ⟨sound_init capacity blank, trivial, contents_init capacity blank⟩ ?_
  rintro past pre action post events _ ⟨sound, legal, same⟩ step
  have kept := spscStep_kept action sound step
  refine ⟨kept.sound, (along_append ..).mpr ⟨legal, same ▸ kept.legal⟩, ?_⟩
  rw [replay_append, ← same]
  exact kept.contents

/-- The values of the successful pushes are those popped and those in the ring, under
every interleaving; a push is refused only by a full ring and a pop only by an empty one,
at the load of the other index; the slot written is neither occupied nor being read. -/
theorem spscQueue_refines_bounded_fifo (run : SpscRun capacity blank taken s) :
    Legal capacity (trace taken) ∧ replay Fifo.apply [] (trace taken) = s.contents ∧
      pushes (trace taken) = pops (trace taken) ++ s.contents ∧ s.contents.length ≤ capacity ∧
      (∀ x ∈ taken,
        (∀ value, Op.refused value ∈ x.events → x.pre.contents.length = capacity) ∧
        (Op.missed ∈ x.events → x.pre.contents = []) ∧
        (x.act = .producer → ∀ value tail, x.pre.producer = .hasRoom value tail →
          ¬ x.pre.Occupied tail ∧ ¬ x.pre.Reading tail)) ∧
      s.queue.head < capacity + 1 ∧ s.queue.tail < capacity + 1 ∧
      (∀ index, s.producer.Holds index ∨ s.consumer.Holds index → index < capacity + 1) ∧
      (s.producer = .idle → s.consumer = .idle → s.queue.sizeApprox = s.contents.length) := by
  obtain ⟨sound, legal, same⟩ := spscRun_legal run
  have size := sound.size
  refine ⟨legal, same.symm, ?_, ?_, ?_, ?_, ?_, ?_, ?_⟩
  · rw [same]
    exact conserved legal
  · rw [same]
    exact bounded legal
  · intro x member
    obtain ⟨front, back, rfl⟩ := List.append_of_mem member
    obtain ⟨before, post, step⟩ := run.at
    have earlier := (spscRun_legal before).1
    have kept := spscStep_kept x.act earlier step
    refine ⟨fun value refused => kept.allowed refused, fun missed => kept.allowed missed, ?_⟩
    · intro _ value tail writing
      have knows := earlier.producer
      rw [writing] at knows
      obtain ⟨rfl, _⟩ := knows
      exact ⟨earlier.not_occupied_tail, earlier.not_reading_tail⟩
  · exact size ▸ sound.head
  · exact size ▸ sound.tail
  · intro index held
    rcases held with own | other
    · rw [sound.producer.holds own, ← size]
      exact sound.tail
    · rw [sound.consumer.holds other, ← size]
      exact sound.head
  · intro _ _
    exact sound.sizeApprox_eq

theorem spscQueue_refines_bounded_fifo_filled :
    ∃ taken s, SpscRun (α := OutboundFrame) 1 ⟨0, 0, []⟩ taken s ∧
      s.contents = [⟨2, 0, [8]⟩] ∧ pops (trace taken) = [⟨1, 0, [7]⟩] ∧
      pushes (trace taken) = [⟨1, 0, [7]⟩] ++ [⟨2, 0, [8]⟩] := by
  have check : ((follow (spscSystem (α := OutboundFrame)) (fun _ => true) (.init 1 ⟨0, 0, []⟩)
      [.push ⟨1, 0, [7]⟩, .producer, .producer, .producer, .push ⟨3, 0, [9]⟩, .producer,
       .pop, .consumer, .consumer, .consumer, .push ⟨2, 0, [8]⟩, .producer, .producer,
       .producer]).any fun r =>
        decide (r.1.contents = [⟨2, 0, [8]⟩] ∧ pops r.2 = [⟨1, 0, [7]⟩])) = true := by
    decide
  obtain ⟨taken, s, run, _, ends⟩ := run_of_follow _ _ _ _ _ check
  obtain ⟨held, popped⟩ := of_decide_eq_true ends
  have whole := (spscQueue_refines_bounded_fifo run).2.2.1
  rw [popped, held] at whole
  exact ⟨taken, s, run, held, popped, whole⟩

end HiImCore.Hub
