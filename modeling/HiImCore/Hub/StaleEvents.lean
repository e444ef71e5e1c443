import HiImCore.Hub.Batches

/-! Events of a poll that are handled after their descriptor was closed, and possibly used
again. -/

namespace HiImCore.Hub

open Transition

/-- `fd_to_sid_` of reactor `i` as it was when the reactor last polled. -/
def atLastPoll (p : Plane) (i : Nat) (taken : List (Taken HubServer Action Entry)) :
    Int → Option Nat :=
  taken.foldl
    (fun known x =>
      match x.act with
      | .reactor q j _ =>
          if q = p ∧ j = i ∧ ((x.pre.plane p).reactor i).stack.head? = some .poll then
            ((x.pre.plane p).reactor i).fdToSid
          else known
      | _ => known)
    fun _ => none

/-- A poll names no descriptor twice, and only descriptors that are waited for. -/
def pollsOnce (x : Taken HubServer Action Entry) : Bool :=
  match x.act with
  | .reactor p i (.poll batch) =>
      decide (batch.map PollEvent.fd).Nodup && batch.all fun event =>
        event.fd == (x.pre.plane p).wakeFd i ||
          (((x.pre.plane p).reactor i).interest event.fd).isSome
  | _ => true

section WakeUps

variable {cfg : HubConfig} {g : Registry} {i : Nat} {pl mid post : PlaneState} {task : Task}
  {calls : List Task} {events : List Event}

theorem Turn.sockets (turn : Turn i pl task mid calls) (agrees : Agrees g pl.core) {fd : Int}
    (free : pl.sockets fd = none) : mid.sockets fd = none := by
  rcases turn.maps agrees with keeps | ⟨k, session, found, closes, _⟩ | ⟨conn, left, registers, _⟩
  · rwa [keeps.sockets]
  · rw [closes.sockets, Function.update_apply, free, ite_self]
  · rwa [registers.sockets]

theorem acceptStep_sockets {fd other : Int} {nonBlocking : Bool}
    (step : acceptStep fd nonBlocking pl = some (post, events)) (apart : other ≠ fd) :
    post.wakeFd = pl.wakeFd ∧ post.sockets other = pl.sockets other := by
  cases acceptStep_accepts step with
  | taken was => exact ⟨rfl, Function.update_of_ne apart ..⟩
  | blocking => exact ⟨rfl, rfl⟩

theorem listenerStep_sockets {round : UInt64}
    (step : listenerStep cfg round pl = some (post, events)) {fd : Int} (free : pl.sockets fd = none) :
    post.wakeFd = pl.wakeFd ∧ post.sockets fd = none := by
  cases listenerStep_listens step with
  | refused was =>
      refine ⟨rfl, ?_⟩
      dsimp only
      rw [Function.update_apply, free, ite_self]
  | _ => exact ⟨rfl, free⟩

theorem fdFree_wakeFd {h : HubServer} {fd : Int} (free : h.fdFree cfg fd = true) (p : Plane)
    (inside : i < cfg.reactors) : (h.plane p).wakeFd i ≠ fd := by
  have both : ∀ q : Plane, q ∈ [Plane.kForward, Plane.kBackend] := by
    intro q
    cases q <;> decide
  have here := List.all_eq_true.mp free p (both p)
  have wakes := ((Bool.and_eq_true _ _).mp here).2
  simpa using List.all_eq_true.mp wakes i (List.mem_range.mpr inside)

variable {wakeFd : Plane → Nat → Int} {taken : List (Taken HubServer Action Entry)} {h : HubServer}

theorem hubRun_wakeFd (run : HubRun cfg wakeFd taken h) (p : Plane) (inside : i < cfg.reactors) :
    (h.plane p).wakeFd i = wakeFd p i ∧ (h.plane p).sockets (wakeFd p i) = none := by
  refine run.invariant (fun _ h => (h.plane p).wakeFd i = wakeFd p i ∧
    (h.plane p).sockets (wakeFd p i) = none) ⟨rfl, rfl⟩ ?_
  intro past pre act post events before known step
  obtain ⟨same, free⟩ := known
  have agrees := (hubRun_follows before p).2
  have planeStep := hubStep_plane p step
  generalize post.plane p = next at planeStep
  cases planeStep with
  | aside untouched inRange =>
      rw [untouched.wakeFd, untouched.sockets]
      exact ⟨same, free⟩
  | accepted unused step =>
      have apart := fdFree_wakeFd unused p inside
      rw [same] at apart
      obtain ⟨wakes, sockets⟩ := acceptStep_sockets step apart
      exact ⟨wakes ▸ same, sockets.trans free⟩
  | listened step =>
      obtain ⟨wakes, sockets⟩ := listenerStep_sockets step free
      exact ⟨wakes ▸ same, sockets⟩
  | reacted within step =>
      obtain ⟨task, rest, top, _, ⟨mid, calls, turn, rfl⟩ | rfl⟩ := reactorStep_turns agrees step
      · exact ⟨(congrFun turn.listener.2 i).trans same, turn.sockets agrees free⟩
      · exact ⟨same, free⟩
  | distributed step =>
      have apart := distributorStep_apart step
      exact ⟨apart.wakeFd ▸ same, apart.sockets ▸ free⟩

theorem wakeFd_unmapped (run : HubRun cfg wakeFd taken h) (p : Plane) (inside : i < cfg.reactors) :
    ((h.plane p).reactor i).fdToSid (wakeFd p i) = none := by
  cases found : ((h.plane p).reactor i).fdToSid (wakeFd p i) with
  | none => rfl
  | some k =>
      have held : (h.plane p).Holds (wakeFd p i) k (.reactor i) := found
      have opened := ((hubRun_follows run p).2.holds held).2
      rw [(hubRun_wakeFd run p inside).2] at opened
      cases opened

end WakeUps

section Runs

variable {cfg : HubConfig} {wakeFd : Plane → Nat → Int}
  {taken : List (Taken HubServer Action Entry)} {h : HubServer} {p : Plane} {i : Nat}

theorem reactorStep_poll {input : ReactorInput} {pl post : PlaneState} {rest : List Task}
    {events : List Event} (top : (pl.reactor i).stack = .poll :: rest)
    (step : reactorStep cfg i input pl = some (post, events)) :
    (∃ batch, input = .poll batch ∧
        post = pl.setStack i (.events batch :: .drainSendQueue :: .poll :: rest)) ∨
      post = pl.setStack i (.closeAll :: rest) := by
  unfold reactorStep at step
  rw [top] at step
  dsimp only [stepPoll] at step
  split at step <;> cases step
  · exact .inl ⟨_, rfl, rfl⟩
  · exact .inr rfl

theorem polled_awaits {pl : PlaneState} {batch : List PollEvent}
    (watched : (pl.reactor i).Watched) (once : (batch.map PollEvent.fd).Nodup)
    (known : ∀ event ∈ batch,
      event.fd = pl.wakeFd i ∨ ((pl.reactor i).interest event.fd).isSome = true) :
    (pl.reactor i).Awaits (pl.wakeFd i) (pl.reactor i).fdToSid batch := by
  refine ⟨once, fun fd _ k => id, fun _ fd member other => ?_⟩
  obtain ⟨event, reported, rfl⟩ := List.mem_map.mp member
  obtain ⟨mask, waited⟩ := Option.isSome_iff_exists.mp ((known event reported).resolve_left other)
  obtain ⟨k, found⟩ := watched.known event.fd mask waited
  exact ⟨k, found, found⟩

theorem atLastPoll_snoc (taken : List (Taken HubServer Action Entry))
    (x : Taken HubServer Action Entry) :
    atLastPoll p i (taken ++ [x]) = atLastPoll p i taken ∨
      ((x.pre.plane p).reactor i).stack.head? = some .poll := by
  rw [atLastPoll, List.foldl_append]
  dsimp only [List.foldl_cons, List.foldl_nil]
  split
  · split
    · rename_i polls
      exact .inr polls.2.2
    · exact .inl rfl
  · exact .inl rfl

theorem atLastPoll_own {x : Taken HubServer Action Entry} {input : ReactorInput}
    (act : x.act = .reactor p i input) :
    atLastPoll p i (taken ++ [x]) =
      if ((x.pre.plane p).reactor i).stack.head? = some .poll then
        ((x.pre.plane p).reactor i).fdToSid
      else atLastPoll p i taken := by
  rw [atLastPoll, List.foldl_append]
  dsimp only [List.foldl_cons, List.foldl_nil]
  rw [act]
  simp only [true_and]
  rfl

theorem Reactor.InBatch.still {wake : Int} {polled again : Int → Option Nat} {r : Reactor}
    (inBatch : r.InBatch wake polled r.stack)
    (same : again = polled ∨ r.stack.head? = some .poll) : r.InBatch wake again r.stack := by
  rcases same with rfl | top
  · exact inBatch
  · cases shape : r.stack with
    | nil => exact .idle nofun
    | cons task rest =>
        rw [shape] at inBatch top
        obtain rfl := Option.some.inj top
        exact .idle inBatch.outside

theorem reactorStep_inBatch {input : ReactorInput} {pl post : PlaneState} {events : List Event}
    {g : Registry} {polled : Int → Option Nat} (agrees : Agrees g pl.core)
    (watched : (pl.reactor i).Watched) (unmapped : (pl.reactor i).fdToSid (pl.wakeFd i) = none)
    (polls : ∀ batch, input = .poll batch → (batch.map PollEvent.fd).Nodup ∧
      ∀ event ∈ batch, event.fd = pl.wakeFd i ∨ ((pl.reactor i).interest event.fd).isSome = true)
    (inBatch : (pl.reactor i).InBatch (pl.wakeFd i) polled (pl.reactor i).stack)
    (step : reactorStep cfg i input pl = some (post, events)) :
    (post.reactor i).InBatch (pl.wakeFd i)
      (if (pl.reactor i).stack.head? = some .poll then (pl.reactor i).fdToSid else polled)
      (post.reactor i).stack := by
  obtain ⟨task, rest, top, _, turned⟩ := reactorStep_turns agrees step
  by_cases polling : task = .poll
  · subst polling
    rw [top] at inBatch
    rw [if_pos (by rw [top]; rfl)]
    have outside := inBatch.outside
    have below := (List.forall_mem_cons.mp outside).2
    rcases reactorStep_poll top step with ⟨batch, reported, rfl⟩ | rfl
    · obtain ⟨once, known⟩ := polls batch reported
      rw [setStack_reactor]
      have started : (pl.reactor i).InBatch (pl.wakeFd i) (pl.reactor i).fdToSid
          ([] ++ .events batch :: .drainSendQueue :: .poll :: rest) :=
        .event nofun (polled_awaits watched once known) (List.forall_mem_cons.mpr ⟨rfl, outside⟩)
      exact started.setStack _
    · rw [setStack_reactor]
      exact .idle (List.forall_mem_cons.mpr ⟨rfl, below⟩)
  · have other : ¬ (pl.reactor i).stack.head? = some .poll := by
      rw [top]
      exact fun same => polling (Option.some.inj same)
    rw [if_neg other]
    rcases turned with ⟨mid, calls, turn, rfl⟩ | rfl
    · rw [top] at inBatch
      rw [setStack_reactor]
      exact (inBatch.turn turn agrees unmapped polling).setStack _
    · exact inBatch

theorem hubRun_inBatch (run : HubRun cfg wakeFd taken h) (polls : Within (fun x => pollsOnce x = true) taken)
    (p : Plane) (i : Nat) :
    ((h.plane p).reactor i).InBatch (wakeFd p i) (atLastPoll p i taken)
      ((h.plane p).reactor i).stack := by
  induction run with
  | nil => exact .idle (by simp [HubServer.init, PlaneState.init, Reactor.init, Task.outside])
  | @snoc taken pre post act entries before step ih =>
      obtain ⟨earlier, last⟩ := within_append.mp polls
      have inBatch := ih earlier
      have agrees := (hubRun_follows before p).2
      have still : ∀ {next : PlaneState}, next.reactor i = (pre.plane p).reactor i →
          (next.reactor i).InBatch (wakeFd p i) (atLastPoll p i (taken ++ [⟨pre, act, entries⟩]))
            (next.reactor i).stack := by
        intro next same
        rw [same]
        exact inBatch.still (atLastPoll_snoc taken ⟨pre, act, entries⟩)
      have once := last _ (List.mem_singleton.mpr rfl)
      have planeStep := hubStep_plane p step
      generalize post.plane p = next at planeStep
      cases planeStep with
      | aside same inRange => exact still (congrFun same.reactor i)
      | accepted free step => exact still (congrFun (acceptStep_listening step).2.1 i)
      | listened step => exact still (congrFun (listenerStep_listening step).2.1 i)
      | distributed step => exact still (congrFun (distributorStep_apart step).reactor i)
      | @reacted j input _ _ inside step =>
          by_cases own : i = j
          · subst own
            have wake := (hubRun_wakeFd before p inside).1
            rw [atLastPoll_own rfl, ← wake]
            rw [← wake] at inBatch
            refine reactorStep_inBatch agrees (hubRun_watched before p i).1 ?_ ?_ inBatch step
            · rw [wake]
              exact wakeFd_unmapped before p inside
            · rintro batch rfl
              simpa [pollsOnce] using once
          · obtain ⟨_, _, _, _, ⟨mid, calls, turn, rfl⟩ | rfl⟩ := reactorStep_turns agrees step
            · exact still ((Function.update_of_ne own ..).trans (turn.others own).1)
            · exact still rfl

/-- The loop over a batch has called a handler for an event of this descriptor. -/
def Reactor.Handles (wake : Int) (r : Reactor) (fd : Int) : Prop :=
  (fd ≠ wake ∧ ∃ rest, r.stack = .handleReadable fd :: rest) ∨
    ∃ later rest, r.stack = .handleWritable fd :: .events later :: rest

/-- In every run in which no poll names a descriptor twice: connections are held in one
place, and an event is handled for the session its descriptor had at the poll, or for none. -/
theorem connections_are_held_exclusively (run : HubRun cfg wakeFd taken h)
    (polls : Within (fun x => pollsOnce x = true) taken) (p : Plane) :
    (h.plane p).Owned ∧
      ∀ i fd k, ((h.plane p).reactor i).Handles (wakeFd p i) fd →
        ((h.plane p).reactor i).fdToSid fd = some k → atLastPoll p i taken fd = some k := by
  refine ⟨hubRun_owned run p, fun i fd k handles found => ?_⟩
  have inBatch := hubRun_inBatch run polls p i
  rcases handles with ⟨other, rest, top⟩ | ⟨later, rest, top⟩
  · rw [top] at inBatch
    exact inBatch.readable other k found
  · rw [top] at inBatch
    exact inBatch.writable k found

/-- A descriptor becomes readable. -/
theorem connections_are_held_exclusively_readable :
    ∃ taken h, HubRun (smallConfig 4) smallWakeFd taken h ∧
      Within (fun x => pollsOnce x = true) taken ∧
      ((h.plane .kForward).reactor 0).Handles 100 5 ∧
      ((h.plane .kForward).reactor 0).fdToSid 5 = some 1 ∧
      atLastPoll .kForward 0 taken 5 = some 1 := by
  obtain ⟨taken, h, run, polls, seen⟩ := small_run 4 pollsOnce
    (connecting .kForward 0 smallWakeFd 5 ++
      [.poll [⟨5, true, false⟩], .run].map (Action.reactor .kForward 0))
    (fun x =>
      ((x.1.plane .kForward).reactor 0).stack.head? == some (.handleReadable 5) &&
      ((x.1.plane .kForward).reactor 0).fdToSid 5 == some 1) (by decide +kernel)
  simp only [Bool.and_eq_true, beq_iff_eq] at seen
  obtain ⟨top, found⟩ := seen
  have handles : ((h.plane .kForward).reactor 0).Handles 100 5 :=
    .inl ⟨by decide, List.head?_eq_some_iff.mp top⟩
  exact ⟨taken, h, run, polls, handles, found,
    (connections_are_held_exclusively run polls .kForward).2 0 5 1 handles found⟩

/-- A poll as `kevent` answers it: no entry twice, and only what is waited for. -/
def pollsWaited (x : Taken HubServer Action Entry) : Bool :=
  match x.act with
  | .reactor p i (.poll batch) =>
      decide batch.Nodup && batch.all fun event =>
        if event.fd = (x.pre.plane p).wakeFd i then
          event.readable && !event.writable && (x.pre.plane p).wakeReadable i
        else
          (((x.pre.plane p).reactor i).interest event.fd).any fun mask =>
            (!event.readable || mask.read) && (!event.writable || mask.write)
  | _ => true

def reusing : List Action :=
  connecting .kForward 0 smallWakeFd 5 ++
    reading .kForward 0 5
      [.recv (.data (Wire.encodeAuthFrame 1 [] [] 7)), .run, .run, .send .wouldBlock, .run,
        .recv .wouldBlock] ++
    [.accept .kForward 6 true, .listener .kForward, .listener .kForward, .listener .kForward] ++
    [.poll [⟨5, true, false⟩, ⟨100, true, false⟩, ⟨5, false, true⟩], .run, .run,
      .recv .endOfStream].map (Action.reactor .kForward 0) ++
    [.accept .kForward 5 true, .listener .kForward, .listener .kForward, .listener .kForward] ++
    List.replicate 7 (.reactor .kForward 0 .run)

/-- The event of a closed descriptor is applied to the session that got it since. -/
theorem stale_event_reaches_new_session :
    ∃ taken h, HubRun (smallConfig 4) smallWakeFd taken h ∧
      Within (fun x => pollsWaited x = true) taken ∧
      ((h.plane .kForward).reactor 0).Handles 100 5 ∧
      ((h.plane .kForward).reactor 0).fdToSid 5 = some 3 ∧
      atLastPoll .kForward 0 taken 5 = some 1 := by
  obtain ⟨taken, h, run, seen⟩ := run_of_record (hubSystem (smallConfig 4)) (.init smallWakeFd)
    reusing
    (fun x =>
      x.2.all pollsWaited &&
      ((x.1.plane .kForward).reactor 0).stack.take 2 == [.handleWritable 5, .events []] &&
      ((x.1.plane .kForward).reactor 0).fdToSid 5 == some 3 &&
      atLastPoll .kForward 0 x.2 5 == some 1) (by decide +kernel)
  simp only [Bool.and_eq_true, beq_iff_eq, List.all_eq_true] at seen
  obtain ⟨⟨⟨polls, top⟩, found⟩, polled⟩ := seen
  have stack := List.take_append_drop 2 ((h.plane .kForward).reactor 0).stack
  rw [top] at stack
  exact ⟨taken, h, run, polls, .inr ⟨[], _, stack.symm⟩, found, polled⟩

end Runs

end HiImCore.Hub
