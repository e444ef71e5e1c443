import HiImCore.Hub.Publish

/-! `Publish` as a call between whose attempts other threads use the distribution queue. -/

namespace HiImCore.Hub

open Transition Wire

/-- Where a call of `Publish` is: before its snapshot, about to make an attempt for a
subscriber, or back at its caller. -/
inductive PublishCall where
  | start
  | pushing (out : OutboundFrame) (attempt : Nat) (rest : List Subscriber)
  | returned (status : Status)
  deriving DecidableEq

structure PublishState where
  queue : List OutboundFrame
  call : PublishCall

inductive PublishAction where
  | own
  | pop
  | push (frame : OutboundFrame)

section Steps

variable (router : Router) (cmd : UInt32) (data : Bytes) (capacity : Nat)

def PublishCall.next : List Subscriber → PublishCall
  | [] => .returned .ok
  | sub :: rest => .pushing (publishFrame cmd data sub) 0 rest

/-- A step of the call, or a call of another thread on the queue. The events are the
frames that the call adds. -/
def publishStep (s : PublishState) : PublishAction → Option (PublishState × List OutboundFrame)
  | .own =>
      match s.call with
      | .start =>
          let subs := router.findSubscribers cmd
          if subs.isEmpty then
            some (⟨s.queue, .returned (.error .kNotFound "no subscribers")⟩, [])
          else some (⟨s.queue, .next cmd data subs⟩, [])
      | .pushing out attempt rest =>
          match pushAttempt kMaxRetries capacity s.queue out attempt with
          | .pushed queue => some (⟨queue, .next cmd data rest⟩, [out])
          | .retry left next => some (⟨s.queue, .pushing left next rest⟩, [])
          | .gaveUp => some (⟨s.queue, .returned (.error .kQueueFull "")⟩, [])
      | .returned _ => none
  | .pop =>
      match Hub.pop s.queue with
      | none => some (s, [])
      | some (_, left) => some (⟨left, s.call⟩, [])
  | .push frame =>
      match Hub.push capacity s.queue frame with
      | none => some (s, [])
      | some queue => some (⟨queue, s.call⟩, [])

def publishSystem : System PublishState PublishAction OutboundFrame :=
  ⟨publishStep router cmd data capacity⟩

end Steps

def OutboundFrame.address (frame : OutboundFrame) : Nat × Int := (frame.sid, frame.reactorIdx)

def Subscriber.address (sub : Subscriber) : Nat × Int := (sub.sid, sub.reactorIdx)

section Account

variable {router : Router} {cmd : UInt32} {data : Bytes} {capacity : Nat}
  {queue : List OutboundFrame} {subs : List Subscriber}
  {taken : List (Taken PublishState PublishAction OutboundFrame)} {s : PublishState}

abbrev PublishRun (router : Router) (cmd : UInt32) (data : Bytes) (capacity : Nat)
    (queue : List OutboundFrame) :=
  Run (publishSystem router cmd data capacity) ⟨queue, .start⟩

/-- The call gives up, at its last attempt on a full queue, only at the first subscriber. -/
def SparesServed (capacity : Nat) (subs : List Subscriber)
    (x : Taken PublishState PublishAction OutboundFrame) : Prop :=
  x.act = .own → ∀ out attempt rest, x.pre.call = .pushing out attempt rest →
    kMaxRetries ≤ attempt → capacity ≤ x.pre.queue.length → rest.length + 1 = subs.length

def Serves (taken : List (Taken PublishState PublishAction OutboundFrame))
    (served : List Subscriber) : Prop :=
  (trace taken).map OutboundFrame.address = served.map Subscriber.address

def PublishAccount (capacity : Nat) (subs : List Subscriber)
    (taken : List (Taken PublishState PublishAction OutboundFrame)) : PublishCall → Prop
  | .start => Serves taken [] ∧ Within (SparesServed capacity subs) taken
  | .pushing out _ rest =>
      ∃ served sub, subs = served ++ sub :: rest ∧ out.address = sub.address ∧
        Serves taken served ∧ Within (SparesServed capacity subs) taken
  | .returned status =>
      ∃ served left, subs = served ++ left ∧ Serves taken served ∧
        (status.code = .kOk → left = []) ∧
        (Within (SparesServed capacity subs) taken ↔ status.code = .kOk ∨ served = [])

variable {x : Taken PublishState PublishAction OutboundFrame}

theorem Serves.silent {served : List Subscriber} (serves : Serves taken served)
    (silent : x.events = []) : Serves (taken ++ [x]) served := by
  unfold Serves
  rw [trace_append, trace_singleton, silent, List.append_nil]
  exact serves

theorem Serves.frame {served : List Subscriber} {sub : Subscriber} {out : OutboundFrame}
    (serves : Serves taken served) (added : x.events = [out]) (same : out.address = sub.address) :
    Serves (taken ++ [x]) (served ++ [sub]) := by
  unfold Serves
  rw [trace_append, trace_singleton, added, List.map_append, List.map_append, serves]
  simp [same]

theorem within_snoc {ok : Taken PublishState PublishAction OutboundFrame → Prop} (last : ok x) :
    Within ok (taken ++ [x]) ↔ Within ok taken := by
  rw [within_append]
  constructor
  · rintro ⟨front, _⟩
    exact front
  · intro front
    refine ⟨front, fun y member => ?_⟩
    rwa [List.mem_singleton.mp member]

theorem PublishAccount.others {call : PublishCall} (before : PublishAccount capacity subs taken call)
    (other : x.act ≠ .own) (silent : x.events = []) :
    PublishAccount capacity subs (taken ++ [x]) call := by
  have spared : Within (SparesServed capacity subs) (taken ++ [x]) ↔
      Within (SparesServed capacity subs) taken := within_snoc fun own => absurd own other
  cases call with
  | start => exact ⟨before.1.silent silent, spared.mpr before.2⟩
  | pushing out attempt rest =>
      obtain ⟨served, sub, split, same, serves, spares⟩ := before
      exact ⟨served, sub, split, same, serves.silent silent, spared.mpr spares⟩
  | returned status =>
      obtain ⟨served, left, split, serves, done, spares⟩ := before
      exact ⟨served, left, split, serves.silent silent, done, spared.trans spares⟩

theorem PublishAccount.moveOn {served rest : List Subscriber} (split : subs = served ++ rest)
    (serves : Serves taken served) (spares : Within (SparesServed capacity subs) taken) :
    PublishAccount capacity subs taken (.next cmd data rest) := by
  cases rest with
  | nil => exact ⟨served, [], split, serves, fun _ => rfl, iff_of_true spares (.inl rfl)⟩
  | cons sub rest => exact ⟨served, sub, split, rfl, serves, spares⟩

theorem PublishAccount.own {pre post : PublishState} {events : List OutboundFrame}
    (before : PublishAccount capacity (router.findSubscribers cmd) taken pre.call)
    (step : publishStep router cmd data capacity pre .own = some (post, events)) :
    PublishAccount capacity (router.findSubscribers cmd) (taken ++ [⟨pre, .own, events⟩])
      post.call := by
  obtain ⟨queue, call⟩ := pre
  cases call with
  | start =>
      obtain ⟨serves, spares⟩ := before
      have spared : ∀ events : List OutboundFrame,
          Within (SparesServed capacity (router.findSubscribers cmd))
            (taken ++ [⟨⟨queue, .start⟩, .own, events⟩]) := fun _ =>
        (within_snoc fun _ _ _ _ here => by cases here).mpr spares
      simp only [publishStep] at step
      split at step <;> rename_i empty <;> obtain ⟨rfl, rfl⟩ := Prod.mk.inj (Option.some.inj step)
      · exact ⟨[], [], List.isEmpty_iff.mp empty, serves.silent rfl, fun _ => rfl,
          iff_of_true (spared _) (.inr rfl)⟩
      · exact .moveOn rfl (serves.silent rfl) (spared _)
  | pushing out attempt rest =>
      obtain ⟨served, sub, split, same, serves, spares⟩ := before
      simp only [publishStep] at step
      split at step <;> rename_i outcome <;>
        obtain ⟨rfl, rfl⟩ := Prod.mk.inj (Option.some.inj step)
      · obtain ⟨room, _⟩ := pushAttempt_pushed outcome
        refine .moveOn (split.trans (by simp)) (serves.frame rfl same) ((within_snoc ?_).mpr spares)
        intro _ _ _ _ _ _ full
        exact absurd full (Nat.not_le.mpr room)
      · obtain ⟨⟨_, more⟩, rfl, _⟩ := pushAttempt_retry outcome
        refine ⟨served, sub, split, same, serves.silent rfl, (within_snoc ?_).mpr spares⟩
        intro _ _ _ _ here last
        obtain ⟨_, rfl, _⟩ := PublishCall.pushing.inj here
        exact absurd last (Nat.not_le.mpr more)
      · obtain ⟨full, last⟩ := pushAttempt_gaveUp outcome
        refine ⟨served, sub :: rest, split, serves.silent rfl, nofun, ?_⟩
        rw [within_append]
        constructor
        · rintro ⟨_, now⟩
          have first := now _ (List.mem_singleton.mpr rfl) rfl out attempt rest rfl last full
          rw [split, List.length_append, List.length_cons] at first
          exact .inr (List.length_eq_zero_iff.mp (by omega))
        · rintro (ok | rfl)
          · cases ok
          · refine ⟨spares, fun y member _ out' attempt' rest' here _ _ => ?_⟩
            obtain rfl := List.mem_singleton.mp member
            obtain ⟨_, _, rfl⟩ := PublishCall.pushing.inj here
            rw [split]
            rfl
  | returned status => cases step

theorem publishRun_account (run : PublishRun router cmd data capacity queue taken s) :
    PublishAccount capacity (router.findSubscribers cmd) taken s.call := by
  induction run with
  | nil => exact ⟨rfl, fun x member => by cases member⟩
  | @snoc past pre post action events before step ih =>
      cases action with
      | own => exact ih.own step
      | pop =>
          simp only [publishSystem, publishStep] at step
          split at step <;> obtain ⟨rfl, rfl⟩ := Prod.mk.inj (Option.some.inj step) <;>
            exact ih.others nofun rfl
      | push frame =>
          simp only [publishSystem, publishStep] at step
          split at step <;> obtain ⟨rfl, rfl⟩ := Prod.mk.inj (Option.some.inj step) <;>
            exact ih.others nofun rfl

theorem publishStep_gain {pre post : PublishState} {events : List OutboundFrame}
    (step : publishStep router cmd data capacity pre .own = some (post, events)) :
    post.queue = pre.queue ++ events := by
  obtain ⟨queue, call⟩ := pre
  cases call with
  | start =>
      simp only [publishStep] at step
      split at step <;> obtain ⟨rfl, rfl⟩ := Prod.mk.inj (Option.some.inj step) <;> simp
  | pushing out attempt rest =>
      simp only [publishStep] at step
      split at step <;> rename_i outcome <;>
        obtain ⟨rfl, rfl⟩ := Prod.mk.inj (Option.some.inj step)
      · exact (pushAttempt_pushed outcome).2
      · simp
      · simp
  | returned status => cases step

end Account

section Uninterrupted

variable {router : Router} {cmd : UInt32} {data : Bytes} {capacity : Nat}
  {queue after : List OutboundFrame} {call final : PublishCall} {rest : List Subscriber}

def RunsTo (router : Router) (cmd : UInt32) (data : Bytes) (capacity : Nat)
    (queue : List OutboundFrame) (call : PublishCall) (after : List OutboundFrame)
    (final : PublishCall) : Prop :=
  ∃ taken, Run (publishSystem router cmd data capacity) ⟨queue, call⟩ taken ⟨after, final⟩ ∧
    after = queue ++ trace taken

theorem runsTo_refl : RunsTo router cmd data capacity queue call queue call :=
  ⟨[], .nil, (List.append_nil queue).symm⟩

theorem RunsTo.step {middle : List OutboundFrame} {next : PublishCall} {events : List OutboundFrame}
    (step : publishStep router cmd data capacity ⟨queue, call⟩ .own = some (⟨middle, next⟩, events))
    (reached : RunsTo router cmd data capacity middle next after final) :
    RunsTo router cmd data capacity queue call after final := by
  obtain ⟨taken, run, rfl⟩ := reached
  obtain rfl : middle = queue ++ events := publishStep_gain step
  have first : (publishSystem router cmd data capacity).step ⟨queue, call⟩ .own =
      some (⟨queue ++ events, next⟩, events) := step
  exact ⟨_ :: taken, Run.cons first run, List.append_assoc queue events (trace taken)⟩

theorem runsTo_pushing (retries : Nat) {attempt : Nat} {out : OutboundFrame}
    (budget : attempt + retries = kMaxRetries)
    (done : ∀ middle, pushWithBackoff capacity queue retries out = (middle, true) →
      RunsTo router cmd data capacity middle (.next cmd data rest) after final)
    (failed : ∀ middle, pushWithBackoff capacity queue retries out = (middle, false) →
      after = middle ∧ final = .returned (.error .kQueueFull "")) :
    RunsTo router cmd data capacity queue (.pushing out attempt rest) after final := by
  by_cases room : queue.length < capacity
  · have pushed : pushAttempt kMaxRetries capacity queue out attempt = .pushed (queue ++ [out]) := by
      simp [pushAttempt, push, Nat.not_le.mpr room]
    have step : publishStep router cmd data capacity ⟨queue, .pushing out attempt rest⟩ .own =
        some (⟨queue ++ [out], .next cmd data rest⟩, [out]) := by
      simp only [publishStep, pushed]
    exact .step step (done _ (pushWithBackoff_room room retries out))
  · have full : capacity ≤ queue.length := Nat.le_of_not_lt room
    obtain ⟨rfl, rfl⟩ := failed _ (pushWithBackoff_full full retries out)
    clear done failed
    induction retries generalizing attempt out with
    | zero =>
        have gaveUp : pushAttempt kMaxRetries capacity after out attempt = .gaveUp := by
          simp [pushAttempt, push, full, show ¬ attempt < kMaxRetries by omega]
        have step : publishStep router cmd data capacity ⟨after, .pushing out attempt rest⟩ .own =
            some (⟨after, .returned (.error .kQueueFull "")⟩, []) := by
          simp only [publishStep, gaveUp]
        exact .step step runsTo_refl
    | succ retries ih =>
        have retry : pushAttempt kMaxRetries capacity after out attempt =
            .retry (movedFrom out) (attempt + 1) := by
          simp [pushAttempt, push, full, show attempt < kMaxRetries by omega]
        have step : publishStep router cmd data capacity ⟨after, .pushing out attempt rest⟩ .own =
            some (⟨after, .pushing (movedFrom out) (attempt + 1) rest⟩, []) := by
          simp only [publishStep, retry]
        exact .step step (ih (by omega))

theorem runsTo_publishEach (subs : List Subscriber) :
    RunsTo router cmd data capacity queue (.next cmd data subs)
      (publishEach capacity cmd data queue subs).1
      (.returned (publishEach capacity cmd data queue subs).2) := by
  induction subs generalizing queue with
  | nil => exact runsTo_refl
  | cons sub rest ih =>
      refine runsTo_pushing kMaxRetries (Nat.zero_add kMaxRetries) ?_ ?_
      · intro middle pushed
        rw [publishEach, pushed]
        exact ih
      · intro middle refused
        rw [publishEach, refused]
        exact ⟨rfl, rfl⟩

theorem publish_runsTo (router : Router) (cmd : UInt32) (data : Bytes) (capacity : Nat)
    (queue : List OutboundFrame) :
    RunsTo router cmd data capacity queue .start (publish capacity cmd data router queue).1
      (.returned (publish capacity cmd data router queue).2) := by
  by_cases empty : (router.findSubscribers cmd).isEmpty = true
  · have ends : publish capacity cmd data router queue =
        (queue, .error .kNotFound "no subscribers") := if_pos empty
    rw [ends]
    have step : publishStep router cmd data capacity ⟨queue, .start⟩ .own =
        some (⟨queue, .returned (.error .kNotFound "no subscribers")⟩, []) := if_pos empty
    exact .step step runsTo_refl
  · have loops : publish capacity cmd data router queue =
        publishEach capacity cmd data queue (router.findSubscribers cmd) := if_neg empty
    rw [loops]
    have step : publishStep router cmd data capacity ⟨queue, .start⟩ .own =
        some (⟨queue, .next cmd data (router.findSubscribers cmd)⟩, []) := if_neg empty
    exact .step step (runsTo_publishEach (router.findSubscribers cmd))

end Uninterrupted

section Workers

variable {α β : Type}

theorem push_map (f : α → β) (capacity : Nat) (queue : List α) (value : α) :
    push capacity (queue.map f) (f value) = (push capacity queue value).map (List.map f) := by
  unfold push
  rw [List.length_map]
  split <;> simp

def PushOutcome.map (f : α → β) : PushOutcome α → PushOutcome β
  | .pushed queue => .pushed (queue.map f)
  | .retry value attempt => .retry (f value) attempt
  | .gaveUp => .gaveUp

theorem pushAttempt_map [MoveSource α] [MoveSource β] {f : α → β}
    (moves : ∀ value, movedFrom (f value) = f (movedFrom value)) (maxRetries capacity : Nat)
    (queue : List α) (value : α) (attempt : Nat) :
    pushAttempt maxRetries capacity (queue.map f) (f value) attempt =
      (pushAttempt maxRetries capacity queue value attempt).map f := by
  unfold pushAttempt
  rw [push_map]
  cases push capacity queue value with
  | some after => rfl
  | none =>
      simp only [Option.map_none, moves]
      split <;> rfl

/-- Where a worker is inside `Publish` for a message. -/
inductive Publishes (msg : Tagged InboundMessage) : PublishCall → Worker → Prop
  | start : Publishes msg .start (.handle msg)
  | pushing (out : Tagged OutboundFrame) (attempt : Nat) (rest : List Subscriber) :
      Publishes msg (.pushing out.val attempt rest) (.push msg out attempt (some rest))
  | returned (status : Status) : Publishes msg (.returned status) .pop

theorem publishes_next (msg : Tagged InboundMessage) (rest : List Subscriber) :
    Publishes msg (.next msg.val.type msg.val.payload rest) (publishNext msg rest).1 ∧
      ∀ status, PublishCall.next msg.val.type msg.val.payload rest = .returned status →
        .returned msg.origin status ∈ (publishNext msg rest).2 := by
  cases rest with
  | nil =>
      refine ⟨.returned .ok, fun status same => ?_⟩
      obtain rfl := PublishCall.returned.inj same
      exact List.mem_singleton.mpr rfl
  | cons sub rest =>
      let out : Tagged OutboundFrame :=
        ⟨publishFrame msg.val.type msg.val.payload sub, msg.origin⟩
      exact ⟨.pushing out 0 rest, fun status same => by cases same⟩

theorem workerStep_publishes {cfg : HubConfig} {p : Plane} {w : Nat} {own peer : PlaneState}
    {msg : Tagged InboundMessage} {call : PublishCall} {r : WorkerStep}
    (inside : Publishes msg call (own.worker w)) (running : ∀ status, call ≠ .returned status)
    (handler : chooseHandler p msg.val.type = some .forwardUplink)
    (step : workerStep cfg p w own peer = some r) :
    ∃ next events, publishStep peer.router msg.val.type msg.val.payload cfg.queueCapacity
        ⟨peer.distQueue.map Tagged.val, call⟩ .own =
          some (⟨r.distQueue.map Tagged.val, next⟩, events) ∧
      Publishes msg next r.worker ∧
      ∀ status, next = .returned status → .returned msg.origin status ∈ r.peer := by
  generalize here : own.worker w = worker at inside
  cases inside with
  | returned status => exact absurd rfl (running status)
  | start =>
      simp only [workerStep, here, handler, forwardUplinkHandler] at step
      split at step <;> rename_i empty <;> obtain rfl := Option.some.inj step
      · refine ⟨_, _, if_pos empty, .returned _, fun status same => ?_⟩
        obtain rfl := PublishCall.returned.inj same
        simp
      · obtain ⟨next, results⟩ := publishes_next msg (peer.router.findSubscribers msg.val.type)
        exact ⟨_, _, if_neg empty, next, fun status same =>
          List.mem_cons_of_mem _ (results status same)⟩
  | pushing out attempt rest =>
      simp only [workerStep, here] at step
      have attempted := pushAttempt_map (f := Tagged.val) (fun _ => rfl) kMaxRetries
        cfg.queueCapacity peer.distQueue out attempt
      simp only [publishStep, attempted]
      split at step <;> rename_i outcome <;> obtain rfl := Option.some.inj step
      · obtain ⟨next, results⟩ := publishes_next msg rest
        rw [outcome]
        exact ⟨_, _, rfl, next, fun status same => List.mem_cons_of_mem _ (results status same)⟩
      · rw [outcome]
        exact ⟨_, _, rfl, .pushing _ _ rest, fun status same => by cases same⟩
      · rw [outcome]
        refine ⟨_, _, rfl, .returned _, fun status same => ?_⟩
        obtain rfl := PublishCall.returned.inj same
        exact List.mem_singleton.mpr rfl

end Workers

section Results

variable {router : Router} {cmd : UInt32} {data : Bytes} {capacity : Nat}
  {queue : List OutboundFrame} {taken : List (Taken PublishState PublishAction OutboundFrame)}
  {s : PublishState}

/-- Nothing is added where the status is an error, one frame for each subscriber in order
where it is not. -/
def AllOrNothing (subs : List Subscriber)
    (taken : List (Taken PublishState PublishAction OutboundFrame)) (status : Status) : Prop :=
  (status.code ≠ .kOk → trace taken = []) ∧ (status.code = .kOk → Serves taken subs)

/-- A finished call is all or nothing where it gives up at no subscriber after the first,
and only there. -/
theorem publish_is_all_or_nothing_iff (run : PublishRun router cmd data capacity queue taken s)
    {status : Status} (finished : s.call = .returned status) :
    (∀ x ∈ taken, x.act = .own → ∀ post,
        publishStep router cmd data capacity x.pre x.act = some (post, x.events) →
        post.queue = x.pre.queue ++ x.events) ∧
      (AllOrNothing (router.findSubscribers cmd) taken status ↔
        Within (SparesServed capacity (router.findSubscribers cmd)) taken) := by
  have account := publishRun_account run
  rw [finished] at account
  obtain ⟨served, left, split, serves, done, spares⟩ := account
  constructor
  · intro x _ own post step
    rw [own] at step
    exact publishStep_gain step
  · rw [spares]
    have empty : trace taken = [] ↔ served = [] := by
      rw [← List.map_eq_nil_iff (f := OutboundFrame.address), serves, List.map_eq_nil_iff]
    by_cases ok : status.code = .kOk
    · obtain rfl := done ok
      rw [List.append_nil] at split
      exact iff_of_true ⟨fun bad => absurd ok bad, fun _ => split ▸ serves⟩ (.inl ok)
    · constructor
      · intro whole
        exact .inr (empty.mp (whole.1 ok))
      · rintro (good | none)
        · exact absurd good ok
        · exact ⟨fun _ => empty.mpr none, fun good => absurd good ok⟩

def twoSubscribers : Router :=
  ((Router.empty.subscribe 9 ⟨1, 1, 1, 0⟩).2.subscribe 9 ⟨1, 2, 2, 0⟩).2

/-- The queue has room for one of two frames: the call returns an error and has added the
first. -/
theorem publish_leaves_partial_fanout :
    ∃ taken s, PublishRun twoSubscribers 9 [7] 1 [] taken s ∧
      s.call = .returned (.error .kQueueFull "") ∧
      trace taken = [publishFrame 9 [7] ⟨1, 1, 1, 0⟩] ∧
      ¬ AllOrNothing (twoSubscribers.findSubscribers 9) taken (.error .kQueueFull "") := by
  have result : publish 1 9 [7] twoSubscribers [] =
      ([publishFrame 9 [7] ⟨1, 1, 1, 0⟩], .error .kQueueFull "") := by
    have subs : twoSubscribers.findSubscribers 9 = [⟨1, 1, 1, 0⟩, ⟨1, 2, 2, 0⟩] := by decide
    rw [publish, subs, if_neg (by decide), publishEach, pushWithBackoff_room (by decide)]
    dsimp only
    rw [publishEach, pushWithBackoff_full (by decide)]
    rfl
  obtain ⟨taken, run, gained⟩ := publish_runsTo twoSubscribers 9 [7] 1 []
  rw [result] at run gained
  refine ⟨taken, _, run, rfl, gained.symm, ?_⟩
  intro whole
  have none := whole.1 (by decide)
  rw [none] at gained
  cases gained

/-- The queue has room for both. -/
theorem publish_is_all_or_nothing_with_room :
    ∃ taken s, PublishRun twoSubscribers 9 [7] 2 [] taken s ∧ s.call = .returned .ok ∧
      AllOrNothing (twoSubscribers.findSubscribers 9) taken .ok := by
  have check : ((follow (publishSystem twoSubscribers 9 [7] 2)
      (fun x => match x.pre.call with
        | .pushing _ attempt _ => decide (attempt < kMaxRetries)
        | _ => true) ⟨[], .start⟩ [.own, .own, .own]).any fun r =>
          decide (r.1.call = .returned .ok)) = true := by
    decide
  obtain ⟨taken, s, run, early, ends⟩ := run_of_follow _ _ _ _ _ check
  have returned : s.call = .returned .ok := of_decide_eq_true ends
  have spares : Within (SparesServed 2 (twoSubscribers.findSubscribers 9)) taken := by
    intro x member _ out attempt rest here last
    have more := early x member
    simp only [here, decide_eq_true_eq] at more
    exact absurd last (Nat.not_le.mpr more)
  exact ⟨taken, s, run, returned, (publish_is_all_or_nothing_iff run returned).2.mpr spares⟩

end Results

end HiImCore.Hub
