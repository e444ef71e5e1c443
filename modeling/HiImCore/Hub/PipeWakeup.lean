import HiImCore.Lib.Replay
import HiImCore.Lib.Transition

/-! The wake-up of a thread (`src/hub/pipe_wakeup.hpp`), one system call a step: any thread may
`Notify` while its owner is inside the loop of `Drain`. -/

namespace HiImCore.Hub

open Replay Transition

/-- The kernel object: what was written and not read, what fits, and what one `read` takes. -/
structure PipeWakeup where
  limit : Nat
  chunk : Nat
  count : Nat
  holds : 0 < limit
  takes : 0 < chunk
  fits : count ≤ limit

namespace PipeWakeup

/-- On Linux an `eventfd`, whose counter ends at `2 ^ 64 - 2` and is read as a whole. -/
def eventfd : PipeWakeup := ⟨UInt64.size - 2, UInt64.size - 2, 0, by decide, by decide, by decide⟩

/-- Elsewhere a pipe, which `Drain` reads 64 bytes at a time. -/
def pipe (capacity : Nat) (positive : 0 < capacity) : PipeWakeup :=
  ⟨capacity, 64, 0, positive, by decide, Nat.zero_le _⟩

/-- `Notify`: a `write` that does not fit fails, and its result is not looked at. -/
def notify (w : PipeWakeup) : PipeWakeup :=
  if room : w.count < w.limit then { w with count := w.count + 1, fits := room } else w

/-- One `read` of `Drain`; `none` where it fails because there is nothing to read. -/
def read (w : PipeWakeup) : Option PipeWakeup :=
  if w.count = 0 then none
  else some { w with count := w.count - min w.count w.chunk, fits := by have := w.fits; omega }

theorem notify_count (w : PipeWakeup) : 0 < w.notify.count ∧ w.count ≤ w.notify.count ∧
    w.notify.count ≤ w.count + 1 := by
  have holds := w.holds
  unfold notify
  split
  · simp
  · omega

theorem read_none {w : PipeWakeup} : w.read = none ↔ w.count = 0 := by
  unfold read
  split <;> simp_all

theorem read_some {w left : PipeWakeup} (took : w.read = some left) : left.count < w.count := by
  have takes := w.takes
  unfold read at took
  split at took
  · cases took
  · obtain rfl := Option.some.inj took
    dsimp only
    omega

end PipeWakeup

structure WakeState where
  wakeup : PipeWakeup
  draining : Bool

inductive WakeAction where
  | notify
  | drain
  | read
  deriving DecidableEq, Repr

inductive WakeEvent where
  | notified
  | took
  | drained
  deriving DecidableEq, Repr

def wakeStep (s : WakeState) : WakeAction → Option (WakeState × List WakeEvent)
  | .notify => some ({ s with wakeup := s.wakeup.notify }, [.notified])
  | .drain => if s.draining then none else some ({ s with draining := true }, [])
  | .read =>
      if s.draining then
        match s.wakeup.read with
        | none => some ({ s with draining := false }, [.drained])
        | some left => some ({ s with wakeup := left }, [.took])
      else none

def wakeSystem : System WakeState WakeAction WakeEvent := ⟨wakeStep⟩

/-- The flag that the calls set and clear: `Notify` with its write, `Drain` with its last read. -/
def raise (flag : Bool) : WakeEvent → Bool
  | .notified => true
  | .took => flag
  | .drained => false

structure Flagged (history : List WakeEvent) (s : WakeState) : Prop where
  remembered : 0 < s.wakeup.count → replay raise false history = true
  readable : s.draining = false → replay raise false history = true → 0 < s.wakeup.count
  paid : history.count .took + s.wakeup.count ≤ history.count .notified

section Runs

variable {start : PipeWakeup} {taken : List (Taken WakeState WakeAction WakeEvent)} {s : WakeState}

theorem count_snoc (history : List WakeEvent) (e x : WakeEvent) :
    (history ++ [e]).count x = history.count x + if e = x then 1 else 0 := by
  rw [List.count_append, List.count_singleton]
  simp only [beq_iff_eq]

theorem Flagged.step {history events : List WakeEvent} {post : WakeState} {act : WakeAction}
    (flagged : Flagged history s) (step : wakeStep s act = some (post, events)) :
    Flagged (history ++ events) post := by
  obtain ⟨remembered, readable, paid⟩ := flagged
  cases act with
  | notify =>
      cases step
      obtain ⟨positive, _, most⟩ := s.wakeup.notify_count
      have raised : replay raise false (history ++ [.notified]) = true := by
        rw [replay_append]
        rfl
      refine ⟨fun _ => raised, fun _ _ => positive, ?_⟩
      simp only [count_snoc, reduceCtorEq, if_false, if_true]
      omega
  | drain =>
      simp only [wakeStep] at step
      split at step
      · cases step
      · cases step
        rw [List.append_nil]
        exact ⟨remembered, nofun, paid⟩
  | read =>
      simp only [wakeStep] at step
      split at step
      · split at step
        · rename_i empty
          cases step
          have nothing := PipeWakeup.read_none.mp empty
          have cleared : replay raise false (history ++ [.drained]) = false := by
            rw [replay_append]
            rfl
          refine ⟨?_, ?_, ?_⟩
          · intro positive
            exact absurd nothing (Nat.ne_of_gt positive)
          · intro _ raised
            rw [cleared] at raised
            cases raised
          · simpa only [count_snoc, reduceCtorEq, if_false, Nat.add_zero] using paid
        · rename_i draining _ left took
          cases step
          have less := PipeWakeup.read_some took
          have same : replay raise false (history ++ [.took]) = replay raise false history := by
            rw [replay_append]
            rfl
          refine ⟨?_, ?_, ?_⟩
          · intro _
            rw [same]
            exact remembered (by omega)
          · intro idle
            rw [draining] at idle
            cases idle
          · simp only [count_snoc, reduceCtorEq, if_false, if_true]
            omega
      · cases step

theorem wakeRun_flagged (empty : start.count = 0)
    (run : Run wakeSystem ⟨start, false⟩ taken s) : Flagged (trace taken) s := by
  refine run.invariant Flagged ⟨?_, ?_, ?_⟩ ?_
  · intro positive
    exact absurd empty (Nat.ne_of_gt positive)
  · intro _ raised
    cases raised
  · exact Nat.le_of_eq ((Nat.zero_add _).trans empty)
  · intro past pre act post events _ flagged step
    exact flagged.step step

theorem drain_returns (draining : s.draining = true) :
    ∃ more t, Run wakeSystem s more t ∧ (∀ x ∈ more, x.act = .read) ∧ t.draining = false ∧
      t.wakeup.count = 0 ∧ more.length ≤ s.wakeup.count + 1 := by
  induction bound : s.wakeup.count using Nat.strongRecOn generalizing s with
  | ind count ih =>
      cases reads : s.wakeup.read with
      | none =>
          have step : wakeSystem.step s .read = some ({ s with draining := false }, [.drained]) := by
            simp only [wakeSystem, wakeStep, draining, if_true, reads]
          refine ⟨_, _, .snoc .nil step, by simp, rfl, PipeWakeup.read_none.mp reads, ?_⟩
          exact Nat.le_add_left ..
      | some left =>
          have less := PipeWakeup.read_some reads
          have step : wakeSystem.step s .read = some ({ s with wakeup := left }, [.took]) := by
            simp only [wakeSystem, wakeStep, draining, if_true, reads]
          obtain ⟨more, t, run, only, done, nothing, short⟩ := @ih left.count (by omega)
            { s with wakeup := left } draining rfl
          refine ⟨_, t, (Run.snoc .nil step).append run, ?_, done, nothing, ?_⟩
          · intro x member
            rcases List.mem_append.mp member with first | later
            · obtain rfl := List.mem_singleton.mp first
              rfl
            · exact only x later
          · rw [List.length_append]
            simp only [List.nil_append, List.length_singleton]
            omega

/-- The wake-up is a flag: between the calls of `Drain` it is readable exactly if it was notified
since the last one returned, however full it was, and no notification that is still to be read is
forgotten while `Drain` reads. `Drain` never reads more often than it was notified, and left to
itself it returns. -/
theorem pipeWakeup_refines_flag (empty : start.count = 0)
    (run : Run wakeSystem ⟨start, false⟩ taken s) :
    (s.draining = false → (replay raise false (trace taken) = true ↔ 0 < s.wakeup.count)) ∧
      (0 < s.wakeup.count → replay raise false (trace taken) = true) ∧
      (trace taken).count .took + s.wakeup.count ≤ (trace taken).count .notified ∧
      (s.draining = true → ∃ more t, Run wakeSystem s more t ∧ (∀ x ∈ more, x.act = .read) ∧
        t.draining = false ∧ t.wakeup.count = 0 ∧ more.length ≤ s.wakeup.count + 1) := by
  have flagged := wakeRun_flagged empty run
  refine ⟨fun idle => ⟨flagged.readable idle, flagged.remembered⟩, flagged.remembered, flagged.paid,
    drain_returns⟩

/-- A notification comes between two reads of `Drain` on an `eventfd`; one that does not fit a pipe
is covered by the one before it. -/
theorem pipeWakeup_refines_flag_overlapping :
    (∃ taken s, Run wakeSystem ⟨.eventfd, false⟩ taken s ∧
      trace taken = [.notified, .notified, .took, .notified, .took, .drained] ∧
      s.wakeup.count = 0 ∧ replay raise false (trace taken) ≠ true) ∧
    ∃ taken s, Run wakeSystem ⟨.pipe 1 Nat.one_pos, false⟩ taken s ∧
      trace taken = [.notified, .notified] ∧ s.draining = true ∧ s.wakeup.count = 1 ∧
      ∃ more t, Run wakeSystem s more t ∧ (∀ x ∈ more, x.act = .read) ∧ t.draining = false ∧
        more.length ≤ 2 := by
  constructor
  · obtain ⟨taken, s, run, _, seen⟩ := run_of_follow wakeSystem (fun _ => true) ⟨.eventfd, false⟩
      [.notify, .notify, .drain, .read, .notify, .read, .read]
      (fun x => decide (x.2 = [.notified, .notified, .took, .notified, .took, .drained]) &&
        decide (x.1.wakeup.count = 0) && !x.1.draining)
      (by decide +kernel)
    simp only [Bool.and_eq_true, decide_eq_true_eq, Bool.not_eq_true'] at seen
    obtain ⟨⟨events, nothing⟩, idle⟩ := seen
    refine ⟨taken, s, run, events, nothing, ?_⟩
    intro raised
    have some := ((pipeWakeup_refines_flag rfl run).1 idle).mp raised
    omega
  · obtain ⟨taken, s, run, _, seen⟩ := run_of_follow wakeSystem (fun _ => true)
      ⟨.pipe 1 Nat.one_pos, false⟩ [.notify, .notify, .drain]
      (fun x => decide (x.2 = [.notified, .notified]) && x.1.draining &&
        decide (x.1.wakeup.count = 1))
      (by decide +kernel)
    simp only [Bool.and_eq_true, decide_eq_true_eq] at seen
    obtain ⟨⟨events, draining⟩, one⟩ := seen
    obtain ⟨more, t, later, only, done, _, short⟩ :=
      (pipeWakeup_refines_flag rfl run).2.2.2 draining
    refine ⟨taken, s, run, events, draining, one, more, t, later, only, done, ?_⟩
    rw [one] at short
    exact short

end Runs

end HiImCore.Hub
