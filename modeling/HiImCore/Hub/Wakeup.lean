import HiImCore.Hub.PlaneSteps

/-! The wake-up of a reactor (`src/hub/pipe_wakeup.hpp`) as the only thing that tells it
of a queued connection. -/

namespace HiImCore.Hub

open Transition

def PlaneState.Announced (pl : PlaneState) (i : Nat) : Prop :=
  pl.connQueue i ≠ [] → pl.wakeReadable i = true ∨ pl.listener = .notify i ∨
    .drainNewConnections ∈ (pl.reactor i).stack

section Steps

variable {cfg : HubConfig} {g : Registry} {i j : Nat} {pl mid post : PlaneState} {task : Task}
  {calls rest : List Task} {events : List Event}

theorem Untouched.announced (same : Untouched pl mid) (announced : pl.Announced j) :
    mid.Announced j := by
  unfold PlaneState.Announced
  rwa [same.connQueue, same.wakeReadable, same.listener, same.reactor]

theorem Turn.drains (turn : Turn i pl task mid calls) :
    .drainNewConnections ∈ calls ∨ mid.connQueue i = [] ∨
      task ≠ .drainNewConnections ∧ mid.connQueue i = pl.connQueue i ∧
        mid.wakeReadable i = pl.wakeReadable i := by
  cases turn with
  | resumed same resumes =>
      refine .inr (.inr ⟨?_, by rw [same.connQueue], by rw [same.wakeReadable]⟩)
      cases resumes <;> exact nofun
  | woken => exact .inl List.mem_cons_self
  | strayReadable | strayWritable | readable | writable => exact .inr (.inr ⟨nofun, rfl, rfl⟩)
  | reads found face writes reads =>
      refine .inr (.inr ⟨?_, by rw [writes.connQueue], by rw [writes.wakeReadable]⟩)
      cases reads <;> exact nofun
  | sends found face writes some caller =>
      refine .inr (.inr ⟨?_, by rw [updateInterest_connQueue, writes.connQueue],
        by rw [updateInterest_wakeReadable, writes.wakeReadable]⟩)
      rcases caller with rfl | rfl <;> exact nofun
  | wrote found writes =>
      exact .inr (.inr ⟨nofun, by rw [writes.connQueue], by rw [writes.wakeReadable]⟩)
  | stopsWriting found =>
      exact .inr (.inr ⟨nofun, by rw [updateInterest_connQueue],
        by rw [updateInterest_wakeReadable]⟩)
  | closes found closes ends =>
      refine .inr (.inr ⟨?_, by rw [closes.connQueue], by rw [closes.wakeReadable]⟩)
      cases ends <;> exact nofun
  | registered queue => exact .inl List.mem_cons_self
  | allRegistered empty => exact .inr (.inl empty)

theorem Turn.announced (turn : Turn i pl task mid calls) (top : (pl.reactor i).stack = task :: rest)
    (announced : pl.Announced j) : (mid.setStack i (calls ++ rest)).Announced j := by
  obtain ⟨listener, _⟩ := turn.listener
  intro waiting
  by_cases own : j = i
  · subst own
    have stack : ((mid.setStack j (calls ++ rest)).reactor j).stack = calls ++ rest := by
      simp [PlaneState.setStack, PlaneState.setReactor]
    rcases turn.drains with drains | empty | ⟨other, queue, signal⟩
    · refine .inr (.inr ?_)
      rw [stack]
      exact List.mem_append_left rest drains
    · exact absurd empty waiting
    · rcases announced (queue ▸ waiting) with signalled | about | draining
      · exact .inl (signal.trans signalled)
      · exact .inr (.inl (listener.trans about))
      · rw [top] at draining
        refine .inr (.inr ?_)
        rw [stack]
        rcases List.mem_cons.mp draining with here | below
        · exact absurd here.symm other
        · exact List.mem_append_right calls below
  · obtain ⟨reactor, queue, signal⟩ := turn.others own
    have stack : (mid.setStack i (calls ++ rest)).reactor j = pl.reactor j := by
      rw [← reactor]
      exact Function.update_of_ne own ..
    rw [stack]
    exact (announced (queue ▸ waiting)).imp signal.trans (.imp listener.trans id)

theorem reactorStep_announced {input : ReactorInput} (agrees : Agrees g pl.core)
    (step : reactorStep cfg i input pl = some (post, events)) (announced : pl.Announced j) :
    post.Announced j := by
  obtain ⟨task, rest, top, _, ⟨mid, calls, turn, rfl⟩ | rfl⟩ := reactorStep_turns agrees step
  · exact turn.announced top announced
  · exact announced

theorem PlaneState.Announced.otherwise (announced : pl.Announced j)
    (elsewhere : pl.listener ≠ .notify j) (waiting : pl.connQueue j ≠ []) :
    pl.wakeReadable j = true ∨ .drainNewConnections ∈ (pl.reactor j).stack := by
  rcases announced waiting with signalled | about | draining
  · exact .inl signalled
  · exact absurd about elsewhere
  · exact .inr draining

theorem acceptStep_announced {fd : Int} {nonBlocking : Bool}
    (step : acceptStep fd nonBlocking pl = some (post, events))
    (announced : pl.Announced j) : post.Announced j := by
  cases acceptStep_accepts step with
  | taken was | blocking was =>
      exact fun waiting => (announced.otherwise (by simp [was]) waiting).imp_right .inr

theorem listenerStep_announced {round : UInt64}
    (step : listenerStep cfg round pl = some (post, events)) (announced : pl.Announced j) :
    post.Announced j := by
  cases listenerStep_listens step with
  | outOfRange was index => exact announced
  | failed was | picked was | refused was =>
      exact fun waiting => (announced.otherwise (by simp [was]) waiting).imp_right .inr
  | @queued _ _ i was =>
      intro waiting
      by_cases here : j = i
      · exact .inr (.inl (congrArg Listener.notify here.symm))
      · dsimp only at waiting
        rw [Function.update_of_ne here] at waiting
        exact (announced.otherwise (by simp [was]) waiting).imp_right .inr
  | @notified i was =>
      intro waiting
      by_cases here : j = i
      · subst here
        exact .inl (Function.update_self ..)
      · rcases announced waiting with signalled | about | draining
        · exact .inl ((Function.update_of_ne here ..).trans signalled)
        · rw [was] at about
          exact absurd (Listener.notify.inj about).symm here
        · exact .inr (.inr draining)

theorem distributorStep_announced (step : distributorStep cfg pl = some (post, events))
    (announced : pl.Announced j) : post.Announced j := by
  cases distributorStep_distributes step with
  | @notified i was =>
      intro waiting
      refine (announced waiting).imp_left fun signalled => ?_
      by_cases here : j = i
      · subst here
        exact Function.update_self ..
      · exact (Function.update_of_ne here ..).trans signalled
  | _ => exact announced

end Steps

section Runs

variable {cfg : HubConfig} {wakeFd : Plane → Nat → Int}
  {taken : List (Taken HubServer Action Entry)} {h : HubServer}

/-- In every state a queued connection is announced to its reactor. -/
theorem queued_connection_is_announced (run : HubRun cfg wakeFd taken h) (p : Plane) (i : Nat)
    (waiting : (h.plane p).connQueue i ≠ []) :
    (h.plane p).wakeReadable i = true ∨ (h.plane p).listener = .notify i ∨
      .drainNewConnections ∈ ((h.plane p).reactor i).stack := by
  revert waiting
  refine run.invariant (fun _ h => (h.plane p).Announced i) ?_ ?_
  · intro waiting
    exact absurd rfl waiting
  · intro past pre act post events before announced step
    have agrees := (hubRun_follows before p).2
    have planeStep := hubStep_plane p step
    generalize post.plane p = next at planeStep
    cases planeStep with
    | aside same inRange => exact same.announced announced
    | accepted free step => exact acceptStep_announced step announced
    | listened step => exact listenerStep_announced step announced
    | reacted inside step => exact reactorStep_announced agrees step announced
    | distributed step => exact distributorStep_announced step announced

/-- A connection is queued before the listener has signalled the wake-up. -/
theorem queued_connection_is_announced_waiting :
    ∃ taken h, HubRun (smallConfig 4) smallWakeFd taken h ∧
      (h.plane .kForward).connQueue 0 = [⟨5, 1⟩] ∧
      ((h.plane .kForward).wakeReadable 0 = true ∨ (h.plane .kForward).listener = .notify 0 ∨
        .drainNewConnections ∈ ((h.plane .kForward).reactor 0).stack) := by
  obtain ⟨taken, h, run, _, seen⟩ := small_run 4 (fun _ => true)
    [.accept .kForward 5 true, .listener .kForward, .listener .kForward]
    (fun x => decide ((x.1.plane .kForward).connQueue 0 = [⟨5, 1⟩])) (by decide +kernel)
  have queue := of_decide_eq_true seen
  exact ⟨taken, h, run, queue,
    queued_connection_is_announced run .kForward 0 (by rw [queue]; exact List.cons_ne_nil _ _)⟩

end Runs

end HiImCore.Hub
