import Mathlib.Data.List.Basic

/-! The bounded queues (`src/hub/queue.hpp`) and one attempt of `PushWithBackoff`
(`src/hub/queue_push.hpp`). A call on a queue is one atomic step: `MpscQueue` holds
its lock, and `SpscQueue` has a single producer and a single consumer. -/

namespace HiImCore.Hub

/-- What `std::move` leaves behind in the source object. -/
class MoveSource (α : Type) where
  movedFrom : α → α

export MoveSource (movedFrom)

variable {α : Type}

def push (capacity : Nat) (queue : List α) (value : α) : Option (List α) :=
  if queue.length ≥ capacity then none else some (queue ++ [value])

def pop : List α → Option (α × List α)
  | [] => none
  | value :: rest => some (value, rest)

def kMaxRetries : Nat := 1000000

inductive PushOutcome (α : Type) where
  | pushed (queue : List α)
  | retry (value : α) (attempt : Nat)
  | gaveUp
  deriving DecidableEq, Repr

/-- One round of `PushWithBackoff`, `attempt` counting from zero to `max_retries`.
`Push` takes its argument by value, so the caller's object is moved from even when
the queue was full, and the next round pushes what is left of it. -/
def pushAttempt [MoveSource α] (maxRetries capacity : Nat) (queue : List α) (value : α)
    (attempt : Nat) : PushOutcome α :=
  match push capacity queue value with
  | some queue => .pushed queue
  | none => if attempt < maxRetries then .retry (movedFrom value) (attempt + 1) else .gaveUp

theorem push_some {capacity : Nat} {queue after : List α} {value : α}
    (done : push capacity queue value = some after) :
    queue.length < capacity ∧ after = queue ++ [value] := by
  unfold push at done
  split at done
  · cases done
  · rename_i room
    exact ⟨by omega, (Option.some.inj done).symm⟩

theorem push_none {capacity : Nat} {queue : List α} {value : α}
    (full : push capacity queue value = none) : capacity ≤ queue.length := by
  unfold push at full
  split at full
  · assumption
  · cases full

theorem pop_none {queue : List α} (empty : pop queue = none) : queue = [] := by
  cases queue with
  | nil => rfl
  | cons head tail => cases empty

theorem pop_some {queue rest : List α} {value : α} (done : pop queue = some (value, rest)) :
    queue = value :: rest := by
  cases queue with
  | nil => cases done
  | cons head tail =>
      simp only [pop, Option.some.injEq, Prod.mk.injEq] at done
      rw [done.1, done.2]

theorem pushAttempt_pushed [MoveSource α] {maxRetries capacity attempt : Nat}
    {queue after : List α} {value : α}
    (done : pushAttempt maxRetries capacity queue value attempt = .pushed after) :
    queue.length < capacity ∧ after = queue ++ [value] := by
  unfold pushAttempt at done
  split at done
  · rename_i pushed
    obtain rfl := PushOutcome.pushed.inj done
    exact push_some pushed
  · split at done <;> cases done

theorem pushAttempt_retry [MoveSource α] {maxRetries capacity attempt next : Nat}
    {queue : List α} {value left : α}
    (again : pushAttempt maxRetries capacity queue value attempt = .retry left next) :
    (capacity ≤ queue.length ∧ attempt < maxRetries) ∧ left = movedFrom value ∧
      next = attempt + 1 := by
  unfold pushAttempt at again
  split at again
  · cases again
  · rename_i full
    split at again
    · rename_i more
      obtain ⟨rfl, rfl⟩ := PushOutcome.retry.inj again
      exact ⟨⟨push_none full, more⟩, rfl, rfl⟩
    · cases again

theorem pushAttempt_gaveUp [MoveSource α] {maxRetries capacity attempt : Nat} {queue : List α}
    {value : α} (failed : pushAttempt maxRetries capacity queue value attempt = .gaveUp) :
    capacity ≤ queue.length ∧ maxRetries ≤ attempt := by
  unfold pushAttempt at failed
  split at failed
  · cases failed
  · rename_i full
    split at failed
    · cases failed
    · rename_i last
      exact ⟨push_none full, Nat.le_of_not_lt last⟩

end HiImCore.Hub
