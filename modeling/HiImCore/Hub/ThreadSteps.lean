import HiImCore.Hub.Threads

/-! What one step of a listener or of a distributor does, said once. -/

namespace HiImCore.Hub

variable {cfg : HubConfig} {pl post : PlaneState} {events : List Event}

inductive Accepts (fd : Int) (pl : PlaneState) : PlaneState → List Event → Prop
  | taken (was : pl.listener = .accept) :
      Accepts fd pl
        { pl with
          listener := .pick ⟨fd, pl.nextSid⟩
          nextSid := pl.nextSid + 1
          sockets := Function.update pl.sockets fd (some pl.nextSid) }
        [.accepted fd pl.nextSid]
  | blocking (was : pl.listener = .accept) : Accepts fd pl { pl with listener := pl.again } []

theorem acceptStep_accepts {fd : Int} {nonBlocking : Bool}
    (step : acceptStep fd nonBlocking pl = some (post, events)) : Accepts fd pl post events := by
  unfold acceptStep at step
  split at step
  · rename_i was
    split at step <;> cases step
    · exact .taken was
    · exact .blocking was
  · cases step

theorem PlaneState.again_eq (pl : PlaneState) : pl.again = .accept ∨ pl.again = .stopped := by
  unfold PlaneState.again
  split
  · exact .inl rfl
  · exact .inr rfl

theorem again_held (pl : PlaneState) : pl.again.held = none := by
  rcases pl.again_eq with more | done
  · rw [more]; rfl
  · rw [done]; rfl

theorem again_ne_push (pl : PlaneState) (idx : Int) (conn : NewConnection) :
    pl.again ≠ .push idx conn := by
  rcases pl.again_eq with more | done
  · simp [more]
  · simp [done]

inductive Listens (cfg : HubConfig) (round : UInt64) (pl : PlaneState) :
    PlaneState → List Event → Prop
  | failed (was : pl.listener = .accept) :
      Listens cfg round pl { pl with listener := pl.again } []
  | picked {conn : NewConnection} (was : pl.listener = .pick conn) :
      Listens cfg round pl { pl with listener := .push (pickReactor cfg round) conn } [.picked conn]
  | outOfRange {idx : Int} {conn : NewConnection} (was : pl.listener = .push idx conn)
      (index : queueIndex cfg.reactors idx = none) :
      Listens cfg round pl { pl with fault := true } [.outOfRange]
  | refused {idx : Int} {conn : NewConnection} (was : pl.listener = .push idx conn) :
      Listens cfg round pl
        { pl with listener := pl.again, sockets := Function.update pl.sockets conn.fd none }
        [.refused conn.fd conn.sid]
  | queued {idx : Int} {conn : NewConnection} {i : Nat} (was : pl.listener = .push idx conn)
      (index : queueIndex cfg.reactors idx = some i)
      (room : (pl.connQueue i).length < cfg.queueCapacity) :
      Listens cfg round pl
        { pl with
          listener := .notify i
          connQueue := Function.update pl.connQueue i (pl.connQueue i ++ [conn]) }
        [.queued i conn]
  | notified {i : Nat} (was : pl.listener = .notify i) :
      Listens cfg round pl
        { pl with listener := pl.again, wakeReadable := Function.update pl.wakeReadable i true } []

theorem listenerStep_listens {round : UInt64}
    (step : listenerStep cfg round pl = some (post, events)) : Listens cfg round pl post events := by
  unfold listenerStep at step
  split at step
  · cases step
  · rename_i was
    cases step
    exact .failed was
  · rename_i was
    cases step
    exact .picked was
  · rename_i was
    split at step
    · rename_i index
      cases step
      exact .outOfRange was index
    · rename_i index
      split at step
      · cases step
        exact .refused was
      · rename_i pushed
        obtain ⟨room, rfl⟩ := push_some pushed
        cases step
        exact .queued was index room
  · rename_i was
    cases step
    exact .notified was

inductive Distributes (cfg : HubConfig) (pl : PlaneState) : PlaneState → List Event → Prop
  | idle {next : Distributor} (was : pl.distributor = .pop)
      (still : next = .pop ∨ next = .stopped) :
      Distributes cfg pl { pl with distributor := next } []
  | took {frame : Tagged OutboundFrame} {left : List (Tagged OutboundFrame)}
      (was : pl.distributor = .pop) (front : pl.distQueue = frame :: left) :
      Distributes cfg pl { pl with distributor := .route frame 0, distQueue := left }
        [.distPopped frame]
  | gaveUp {frame : Tagged OutboundFrame} {attempt : Nat}
      (was : pl.distributor = .route frame attempt) :
      Distributes cfg pl { pl with distributor := .pop } []
  | outOfRange {frame : Tagged OutboundFrame} {attempt : Nat}
      (was : pl.distributor = .route frame attempt)
      (index : queueIndex cfg.reactors frame.val.reactorIdx = none) :
      Distributes cfg pl { pl with fault := true } [.outOfRange]
  | posted {frame : Tagged OutboundFrame} {attempt i : Nat}
      (was : pl.distributor = .route frame attempt)
      (index : queueIndex cfg.reactors frame.val.reactorIdx = some i)
      (room : (pl.sendQueue i).length < cfg.queueCapacity) :
      Distributes cfg pl
        { pl with
          distributor := .notify i
          sendQueue := Function.update pl.sendQueue i (pl.sendQueue i ++ [frame]) }
        [.sendPushed i frame]
  | retried {frame : Tagged OutboundFrame} {attempt : Nat}
      (was : pl.distributor = .route frame attempt) :
      Distributes cfg pl { pl with distributor := .route (movedFrom frame) (attempt + 1) } []
  | notified {i : Nat} (was : pl.distributor = .notify i) :
      Distributes cfg pl
        { pl with distributor := .pop, wakeReadable := Function.update pl.wakeReadable i true } []

theorem distributorStep_distributes (step : distributorStep cfg pl = some (post, events)) :
    Distributes cfg pl post events := by
  unfold distributorStep at step
  split at step
  · cases step
  · rename_i was
    split at step
    · cases step
      refine .idle was ?_
      split
      · exact .inl rfl
      · exact .inr rfl
    · rename_i popped
      cases step
      exact .took was (pop_some popped)
  · rename_i was
    split at step
    · cases step
      exact .gaveUp was
    · split at step
      · rename_i index
        cases step
        exact .outOfRange was index
      · rename_i index
        split at step
        · rename_i done
          obtain ⟨room, rfl⟩ := pushAttempt_pushed done
          cases step
          exact .posted was index room
        · rename_i again
          obtain ⟨_, rfl, rfl⟩ := pushAttempt_retry again
          cases step
          exact .retried was
        · cases step
          exact .gaveUp was
  · rename_i was
    cases step
    exact .notified was

structure Apart (pl post : PlaneState) : Prop where
  listener : post.listener = pl.listener
  connQueue : post.connQueue = pl.connQueue
  reactor : post.reactor = pl.reactor
  sockets : post.sockets = pl.sockets
  wakeFd : post.wakeFd = pl.wakeFd

theorem distributorStep_apart (step : distributorStep cfg pl = some (post, events)) :
    Apart pl post := by
  cases distributorStep_distributes step <;> exact ⟨rfl, rfl, rfl, rfl, rfl⟩

end HiImCore.Hub
