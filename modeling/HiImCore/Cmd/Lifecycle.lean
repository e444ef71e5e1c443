import HiImCore.Cmd.Args
import HiImCore.Lib.ForEach

/-! The life of the process (`cmd/hi-im-hub/main.cpp`, `src/hub/hub_server.cpp` and the `Start`, `Stop`
and `Join` of the parts): which threads and descriptors there are from `Start` to the destructors. A
part that is not made yet is one without a thread and a descriptor. -/

namespace HiImCore.Cmd

open Decimal ForEach Hub Wire

/-- The parts of a `HubServer`, each with a `std::thread` and a descriptor. -/
inductive Part where
  | listener (p : Plane)
  | distributor (p : Plane)
  | reactor (p : Plane) (i : Nat)
  | worker (p : Plane) (i : Nat)
  | health
  deriving DecidableEq, Repr

/-- What the process meets: whether there is memory for queues of so many slots, whether a socket can
be made, bound to a port and listened on, whether `epoll_create1` succeeds, and whether a thread can be
made; whether a signal, or an exception in one of its threads, ends the process while they run; and
whether the thread of a part ends after `Stop`. -/
structure Kernel where
  memory : Nat → Bool
  socket : Part → Bool
  bind : Part → UInt16 → Bool
  listen : Part → Bool
  epoll : Part → Bool
  thread : Part → Bool
  killed : Bool
  ends : Part → Bool

inductive FdEvent where
  | opened
  | closed
  deriving DecidableEq, Repr

/-- A part: whether it holds its descriptor (not -1), whether its thread can be joined, and what was
opened and closed so far. -/
structure Member where
  fd : Bool
  joinable : Bool
  log : List FdEvent
  deriving DecidableEq, Repr

namespace Member

def initial : Member := ⟨false, false, []⟩

def openFd (m : Member) : Member := { m with fd := true, log := m.log ++ [.opened] }

def closeFd (m : Member) : Member :=
  if m.fd then { m with fd := false, log := m.log ++ [.closed] } else m

def join (m : Member) : Member := { m with joinable := false }

end Member

/-- `std::thread`; `none` where it throws. -/
def Kernel.makeThread (kernel : Kernel) (part : Part) (m : Member) : Option Member :=
  if kernel.thread part then some { m with joinable := true } else none

def DualHubConfig.listenAddr (cfg : DualHubConfig) : Plane → Bytes
  | .kForward => cfg.forwardListen
  | .kBackend => cfg.backendListen

def DualHubConfig.hubConfig (cfg : DualHubConfig) : HubConfig :=
  ⟨cfg.reactorThreads, cfg.workerThreads, cfg.queueCapacity, cfg.authUser, cfg.authPass⟩

/-- The slots of a `SpscQueue`: one more than its capacity, in 64 bits. -/
def slots (cfg : DualHubConfig) : Nat := (cfg.queueCapacity + 1) % UInt64.size

/-- `max_size` of a vector of `OutboundFrame`s, of 40 bytes each. -/
def kMaxSlots : Nat := (UInt64.size / 2 - 1) / 40

/-- `HubServer::HubServer`: a vector that is too long throws `std::length_error`, and one for which
there is no memory `std::bad_alloc`. -/
def Kernel.constructs (kernel : Kernel) (cfg : DualHubConfig) : Bool :=
  decide (slots cfg ≤ kMaxSlots) && kernel.memory (slots cfg)

/-- A port, an address without a colon, or a text that `std::stoi` throws at. -/
inductive Port where
  | number (port : UInt16)
  | invalid
  | throws
  deriving DecidableEq, Repr

/-- `ParseListenAddr` and `ParsePort`: the number after the last colon, cut to 16 bits. -/
def parsePort (addr : Bytes) : Port :=
  if 58 ∈ addr then
    match stoi (addr.reverse.takeWhile (· != 58)).reverse with
    | none => .throws
    | some port => .number (UInt16.ofNat (port % 65536).toNat)
  else .invalid

inductive Started (σ : Type) where
  | threw
  | returned (ok : Bool) (s : σ)

/-- `Listener::Start` and `HealthServer::Start`: a socket that cannot be used is closed again. -/
def startListening (kernel : Kernel) (part : Part) (addr : Bytes) (m : Member) : Started Member :=
  match parsePort addr with
  | .invalid => .returned false m
  | .throws => .threw
  | .number port =>
      if kernel.socket part = false then .returned false m
      else if kernel.bind part port = false ∨ kernel.listen part = false then
        .returned false m.openFd.closeFd
      else
        match kernel.makeThread part m.openFd with
        | none => .threw
        | some m => .returned true m

/-- The `Start` of a part that polls: a reactor without a poller gets no thread, a worker and a
distributor do not look at the result. `none` where it throws. -/
def startPolling (kernel : Kernel) (part : Part) (m : Member) : Option Member :=
  if kernel.epoll part then kernel.makeThread part m.openFd
  else
    match part with
    -- `Start` of a reactor returns before it makes its thread
    | .reactor .. => some m
    | _ => kernel.makeThread part m

structure Process where
  member : Part → Member
  listening : Plane → Bool

namespace Process

def initial : Process := ⟨fun _ => .initial, fun _ => false⟩

def modify (part : Part) (f : Member → Member) (s : Process) : Process :=
  { s with member := Function.update s.member part (f (s.member part)) }

def isReady (s : Process) : Bool := s.listening .kForward && s.listening .kBackend

end Process

def listenerStart (kernel : Kernel) (cfg : DualHubConfig) (p : Plane) (s : Process) :
    Started Process :=
  match startListening kernel (.listener p) (cfg.listenAddr p) (s.member (.listener p)) with
  | .threw => .threw
  | .returned ok m =>
      .returned ok
        { member := Function.update s.member (.listener p) m
          listening := if ok then Function.update s.listening p true else s.listening }

def healthStart (kernel : Kernel) (cfg : DualHubConfig) (s : Process) : Started Process :=
  match startListening kernel .health cfg.healthListen (s.member .health) with
  | .threw => .threw
  | .returned ok m => .returned ok { s with member := Function.update s.member .health m }

def pollingParts (cfg : HubConfig) : List Part :=
  [.distributor .kForward, .distributor .kBackend] ++
    (List.range cfg.reactors).flatMap (fun i => [.reactor .kForward i, .reactor .kBackend i]) ++
    (List.range cfg.workers).flatMap (fun i => [.worker .kForward i, .worker .kBackend i])

/-- `HubServer::Start` once both planes listen. -/
def startParts (kernel : Kernel) (cfg : DualHubConfig) (s : Process) : Started Process :=
  match forEach (startPolling kernel) (pollingParts cfg.hubConfig) s.member with
  | none => .threw
  | some member => healthStart kernel cfg { s with member := member }

def start (kernel : Kernel) (cfg : DualHubConfig) (s : Process) : Started Process :=
  match listenerStart kernel cfg .kForward s with
  | .returned true s =>
      match listenerStart kernel cfg .kBackend s with
      | .returned true s => startParts kernel cfg s
      | other => other
  | other => other

def stop (s : Process) : Process :=
  ((s.modify .health .closeFd).modify (.listener .kForward) .closeFd).modify
    (.listener .kBackend) .closeFd

/-- The `Join` of a part: those that poll close their pollers. -/
def joinPart (part : Part) (m : Member) : Member :=
  match part with
  | .listener _ | .health => m.join
  | _ => m.join.closeFd

def joinedParts (cfg : HubConfig) : List Part :=
  [.listener .kForward, .listener .kBackend] ++
    (List.range cfg.reactors).map (.reactor .kForward) ++
    (List.range cfg.reactors).map (.reactor .kBackend) ++
    (List.range cfg.workers).map (.worker .kForward) ++
    (List.range cfg.workers).map (.worker .kBackend) ++
    [.distributor .kForward, .distributor .kBackend, .health]

/-- `HubServer::Wait`, each thread having ended. -/
def wait (cfg : HubConfig) (s : Process) : Process :=
  { s with member := forEachPure joinPart (joinedParts cfg) s.member }

/-- How the process ends: with a status, without one by `std::terminate` or another signal, or not at
all. -/
inductive Outcome where
  | exited (status : Nat) (s : Process)
  | aborted
  | blocked

def Outcome.status : Outcome → Option Nat
  | exited status _ => some status
  | _ => none

/-- `~HubServer` and the return from `main`. The destructor of a `std::thread` that can still be joined
terminates the process. -/
def leave (cfg : HubConfig) (status : Nat) (s : Process) : Outcome :=
  if ∃ part ∈ joinedParts cfg, (s.member part).joinable then .aborted
  else .exited status (stop s)

/-- The end of `main`, after the signal to stop: `Wait` returns if every thread that it joins ends. -/
def shutDown (kernel : Kernel) (cfg : HubConfig) (s : Process) : Outcome :=
  if ∀ part ∈ joinedParts cfg, (s.member part).joinable → kernel.ends part then
    leave cfg 0 (wait cfg (stop s))
  else .blocked

/-- `main` from the construction of the server on, with a signal to stop once it has started. An
exception is caught nowhere. -/
def serve (kernel : Kernel) (cfg : DualHubConfig) : Outcome :=
  if kernel.constructs cfg then
    match start kernel cfg .initial with
    | .threw => .aborted
    -- `main` returns with neither `Stop` nor `Wait`
    | .returned false s => leave cfg.hubConfig 1 s
    | .returned true s => if kernel.killed then .aborted else shutDown kernel cfg.hubConfig s
  else .aborted

def runMain (kernel : Kernel) (args : List Bytes) : Outcome :=
  match parseArgs .initial args with
  | .help => .exited 0 .initial
  | .throws => .aborted
  | .config cfg => serve kernel cfg

section Listening

variable {kernel : Kernel} {part : Part} {addr : Bytes}

/-- The address names a port on which the part can listen. -/
def Kernel.listens (kernel : Kernel) (part : Part) (addr : Bytes) : Bool :=
  match parsePort addr with
  | .number port => kernel.socket part && kernel.bind part port && kernel.listen part
  | _ => false

inductive Settles (kernel : Kernel) (part : Part) (addr : Bytes) : Started Member → Prop
  | threw (why : parsePort addr = .throws ∨ kernel.thread part = false)
      (heard : ¬ (parsePort addr ≠ .throws ∧ kernel.listens part addr = false)) :
      Settles kernel part addr .threw
  | failed (parsed : parsePort addr ≠ .throws) (deaf : kernel.listens part addr = false)
      {m : Member} (kept : m = .initial ∨ m = ⟨false, false, [.opened, .closed]⟩) :
      Settles kernel part addr (.returned false m)
  | up (listens : kernel.listens part addr = true) (thread : kernel.thread part = true) :
      Settles kernel part addr (.returned true ⟨true, true, [.opened]⟩)

theorem startListening_settles (kernel : Kernel) (part : Part) (addr : Bytes) :
    Settles kernel part addr (startListening kernel part addr .initial) := by
  unfold startListening
  split
  next invalid => exact .failed (by simp [invalid]) (by simp [Kernel.listens, invalid]) (.inl rfl)
  next throws => exact .threw (.inl throws) fun refused => refused.1 throws
  next port number =>
    have parsed : parsePort addr ≠ .throws := by simp [number]
    split
    next noSocket => exact .failed parsed (by simp [Kernel.listens, number, noSocket]) (.inl rfl)
    next socket =>
      split
      next refused =>
        refine .failed parsed ?_ (.inr rfl)
        rcases refused with refused | refused <;> simp [Kernel.listens, number, refused]
      next usable =>
        have listens : kernel.listens part addr = true := by
          simp only [not_or, Bool.not_eq_false] at socket usable
          simp [Kernel.listens, number, socket, usable]
        unfold Kernel.makeThread
        cases thread : kernel.thread part with
        | false => exact .threw (.inr thread) fun refused => by simp [listens] at refused
        | true => exact .up listens thread

theorem Settles.fails (threw : Settles kernel part addr .threw) :
    ¬ (kernel.listens part addr = true ∧ kernel.thread part = true) := by
  rintro ⟨listens, thread⟩
  cases threw with
  | threw why _ =>
      rcases why with throws | none
      · simp [Kernel.listens, throws] at listens
      · simp [none] at thread

end Listening

section Parts

variable {cfg : HubConfig} {part : Part}

def Part.polls : Part → Bool
  | .listener _ | .health => false
  | _ => true

def Part.Present (cfg : HubConfig) : Part → Prop
  | .reactor _ i => i < cfg.reactors
  | .worker _ i => i < cfg.workers
  | _ => True

theorem mem_joinedParts : part ∈ joinedParts cfg ↔ part.Present cfg := by
  cases part with
  | health => simp [joinedParts, Part.Present]
  | listener p | distributor p | reactor p i | worker p i =>
      cases p <;> simp [joinedParts, Part.Present]

theorem mem_pollingParts : part ∈ pollingParts cfg ↔ part.polls ∧ part.Present cfg := by
  cases part with
  | health => simp [pollingParts, Part.polls]
  | listener p | distributor p | reactor p i | worker p i =>
      cases p <;> simp [pollingParts, Part.Present, Part.polls]

theorem nodup_pairs (kind : Plane → Nat → Part)
    (distinct : ∀ {p q i j}, kind p i = kind q j → p = q ∧ i = j) (n : Nat) :
    ((List.range n).flatMap fun i => [kind .kForward i, kind .kBackend i]).Nodup := by
  refine List.nodup_flatMap.mpr ⟨fun i _ => ?_, List.nodup_range.imp fun {i j} apart => ?_⟩
  · rw [List.nodup_cons, List.mem_singleton]
    refine ⟨fun same => ?_, List.nodup_singleton _⟩
    cases (distinct same).1
  · intro part first second
    simp only [List.mem_cons, List.not_mem_nil, or_false] at first second
    rcases first with first | first <;> rcases second with second | second <;>
      exact apart (distinct (first.symm.trans second)).2

theorem pollingParts_nodup (cfg : HubConfig) : (pollingParts cfg).Nodup := by
  have reactors := nodup_pairs .reactor (by simp) cfg.reactors
  have workers := nodup_pairs .worker (by simp) cfg.workers
  unfold pollingParts
  refine (List.Nodup.append ?_ reactors ?_).append workers ?_
  · decide
  · simp [List.disjoint_left]
  · simp only [List.disjoint_left, List.mem_append, List.mem_flatMap, List.mem_range, List.mem_cons,
      List.not_mem_nil, or_false]
    grind

end Parts

section Start

variable {kernel : Kernel} {cfg : DualHubConfig}

/-- What the start needs of the kernel. A reactor without a poller is let pass. -/
structure Kernel.Starts (kernel : Kernel) (cfg : DualHubConfig) : Prop where
  listeners : ∀ p, kernel.listens (.listener p) (cfg.listenAddr p) = true ∧
    kernel.thread (.listener p) = true
  polling : ∀ part ∈ pollingParts cfg.hubConfig, kernel.thread part = true ∨
    kernel.epoll part = false ∧ ∃ p i, part = .reactor p i
  health : kernel.listens .health cfg.healthListen = true ∧ kernel.thread .health = true

/-- `Listener::Start` of the forward plane returns false: `std::stoi` does not throw at its address, and
the address cannot be listened on. -/
def Kernel.Refuses (kernel : Kernel) (cfg : DualHubConfig) : Prop :=
  parsePort cfg.forwardListen ≠ .throws ∧
    kernel.listens (.listener .kForward) cfg.forwardListen = false

def started (kernel : Kernel) (part : Part) : Member :=
  if part.polls then (startPolling kernel part .initial).getD .initial
  else ⟨true, true, [.opened]⟩

inductive StartEnds (kernel : Kernel) (cfg : DualHubConfig) : Started Process → Prop
  | threw (fails : ¬ kernel.Starts cfg) (heard : ¬ kernel.Refuses cfg) :
      StartEnds kernel cfg .threw
  | refused (refuses : kernel.Refuses cfg) {s : Process}
      (others : ∀ part, part ≠ .listener .kForward → s.member part = .initial)
      (forward : s.member (.listener .kForward) = .initial ∨
        s.member (.listener .kForward) = ⟨false, false, [.opened, .closed]⟩) :
      StartEnds kernel cfg (.returned false s)
  | abandoned (fails : ¬ kernel.Starts cfg) (heard : ¬ kernel.Refuses cfg) {s : Process}
      (running : (s.member (.listener .kForward)).joinable = true) :
      StartEnds kernel cfg (.returned false s)
  | up (starts : kernel.Starts cfg) {s : Process}
      (present : ∀ part, part.Present cfg.hubConfig → s.member part = started kernel part)
      (absent : ∀ part, ¬ part.Present cfg.hubConfig → s.member part = .initial) :
      StartEnds kernel cfg (.returned true s)

theorem startPolling_isSome (kernel : Kernel) (part : Part) (m : Member) :
    (startPolling kernel part m).isSome ↔
      kernel.thread part = true ∨ kernel.epoll part = false ∧ ∃ p i, part = .reactor p i := by
  unfold startPolling Kernel.makeThread
  cases kernel.epoll part <;> cases kernel.thread part <;> cases part <;> simp

section Listeners

variable {p : Plane} {s : Process}

theorem listenerStart_settles (cfg : DualHubConfig) (unstarted : s.member (.listener p) = .initial) :
    ∃ result, Settles kernel (.listener p) (cfg.listenAddr p) result ∧
      listenerStart kernel cfg p s =
        match result with
        | .threw => .threw
        | .returned ok m =>
            .returned ok
              { member := Function.update s.member (.listener p) m
                listening := if ok then Function.update s.listening p true else s.listening } := by
  refine ⟨_, startListening_settles kernel (.listener p) (cfg.listenAddr p), ?_⟩
  rw [listenerStart, unstarted]

end Listeners

def listeningMembers : Part → Member :=
  Function.update (Function.update (fun _ => .initial) (.listener .kForward) ⟨true, true, [.opened]⟩)
    (.listener .kBackend) ⟨true, true, [.opened]⟩

theorem listeningMembers_listener (p : Plane) :
    listeningMembers (.listener p) = ⟨true, true, [.opened]⟩ := by
  cases p <;> rfl

theorem listeningMembers_other {part : Part} (other : ∀ p, part ≠ .listener p) :
    listeningMembers part = .initial := by
  rw [listeningMembers, Function.update_of_ne (other _), Function.update_of_ne (other _)]

theorem ne_listener {part : Part} (polls : part.polls = true) (p : Plane) : part ≠ .listener p := by
  rintro rfl
  cases polls

structure Polled (kernel : Kernel) (cfg : HubConfig) (final : Part → Member) : Prop where
  inside : ∀ part ∈ pollingParts cfg, final part = started kernel part
  outside : ∀ part, part ∉ pollingParts cfg → final part = listeningMembers part

section Polling

variable {hub : HubConfig} {final : Part → Member}

theorem polled_of_forEach
    (ran : forEach (startPolling kernel) (pollingParts hub) listeningMembers = some final) :
    Polled kernel hub final where
  inside := by
    intro part member
    have polls := (mem_pollingParts.mp member).1
    have stepped := forEach_of_mem (pollingParts_nodup hub) ran member
    rw [listeningMembers_other (ne_listener polls)] at stepped
    rw [started, if_pos polls, stepped, Option.getD_some]
  outside := fun part other => forEach_of_notMem ran other

theorem Polled.listener (polled : Polled kernel hub final)
    (p : Plane) : final (.listener p) = ⟨true, true, [.opened]⟩ := by
  rw [polled.outside _ (by simp [mem_pollingParts, Part.polls]), listeningMembers_listener]

theorem Polled.health (polled : Polled kernel hub final) :
    final .health = .initial := by
  rw [polled.outside _ (by simp [mem_pollingParts, Part.polls]), listeningMembers_other (by simp)]

theorem Polled.present (polled : Polled kernel hub final)
    {part : Part} (present : part.Present hub) :
    Function.update final .health ⟨true, true, [.opened]⟩ part = started kernel part := by
  cases part with
  | health => rw [Function.update_self]; rfl
  | listener p => rw [Function.update_of_ne (by simp), polled.listener p]; rfl
  | distributor p | reactor p i | worker p i =>
      rw [Function.update_of_ne (by simp), polled.inside _ (mem_pollingParts.mpr ⟨rfl, present⟩)]

theorem Polled.absent (polled : Polled kernel hub final)
    (m : Member) {part : Part} (absent : ¬ part.Present hub) :
    Function.update final .health m part = .initial := by
  have other : part ∉ pollingParts hub := fun member => absent (mem_pollingParts.mp member).2
  have kind : part ≠ .health ∧ ∀ p, part ≠ .listener p := by
    constructor
    · rintro rfl
      exact absent trivial
    · rintro p rfl
      exact absent trivial
  rw [Function.update_of_ne kind.1, polled.outside part other, listeningMembers_other kind.2]

end Polling

theorem startParts_ends {s : Process} (members : s.member = listeningMembers)
    (up : ∀ p, kernel.listens (.listener p) (cfg.listenAddr p) = true ∧
      kernel.thread (.listener p) = true) :
    StartEnds kernel cfg (startParts kernel cfg s) := by
  have heard : ¬ kernel.Refuses cfg := by
    intro refuses
    exact absurd (up .kForward).1 (Bool.eq_false_iff.mp refuses.2)
  have possible : (forEach (startPolling kernel) (pollingParts cfg.hubConfig) listeningMembers).isSome ↔
      _ := forEach_isSome (pollingParts_nodup cfg.hubConfig)
  simp only [startPolling_isSome] at possible
  rw [startParts, members]
  cases ran : forEach (startPolling kernel) (pollingParts cfg.hubConfig) listeningMembers with
  | none =>
      refine .threw (fun starts => ?_) heard
      have all := possible.mpr starts.polling
      rw [ran] at all
      cases all
  | some final =>
      have polled := polled_of_forEach ran
      have polling := possible.mp (by rw [ran]; rfl)
      dsimp only [healthStart]
      rw [polled.health]
      have health := startListening_settles kernel .health cfg.healthListen
      generalize startListening kernel .health cfg.healthListen .initial = result at health ⊢
      cases health with
      | threw why known =>
          exact .threw (fun starts => (Settles.threw why known).fails starts.health) heard
      | failed parsed deaf kept =>
          refine .abandoned (fun starts => ?_) heard ?_
          · exact absurd starts.health.1 (Bool.eq_false_iff.mp deaf)
          · dsimp only
            rw [Function.update_of_ne (by simp), polled.listener]
      | up listens thread =>
          exact .up ⟨up, polling, listens, thread⟩ (fun _ present => polled.present present)
            (fun _ absent => polled.absent _ absent)

theorem start_ends (kernel : Kernel) (cfg : DualHubConfig) :
    StartEnds kernel cfg (start kernel cfg .initial) := by
  obtain ⟨forward, settled, stepped⟩ :=
    @listenerStart_settles kernel .kForward .initial cfg rfl
  rw [start, stepped]
  cases settled with
  | threw why heard =>
      exact .threw (fun starts => (Settles.threw why heard).fails (starts.listeners .kForward)) heard
  | failed parsed deaf kept =>
      refine .refused ⟨parsed, deaf⟩ (fun part other => ?_) ?_
      · exact Function.update_of_ne other ..
      · simp only [Function.update_self]
        exact kept
  | up listens thread =>
      have heard : ¬ kernel.Refuses cfg := fun refuses =>
        absurd listens (Bool.eq_false_iff.mp refuses.2)
      obtain ⟨backend, settled, stepped⟩ :=
        @listenerStart_settles kernel .kBackend
          ⟨Function.update (fun _ => .initial) (.listener .kForward) ⟨true, true, [.opened]⟩,
            Function.update (fun _ => false) .kForward true⟩ cfg rfl
      simp only [Process.initial, if_pos]
      rw [stepped]
      cases settled with
      | threw why known =>
          exact .threw (fun starts => (Settles.threw why known).fails (starts.listeners .kBackend)) heard
      | failed parsed deaf kept =>
          refine .abandoned (fun starts => ?_) heard rfl
          exact absurd (starts.listeners .kBackend).1 (Bool.eq_false_iff.mp deaf)
      | up listensBackend threadBackend =>
          refine startParts_ends rfl fun p => ?_
          cases p with
          | kForward => exact ⟨listens, thread⟩
          | kBackend => exact ⟨listensBackend, threadBackend⟩

end Start

section Ending

variable {kernel : Kernel} {cfg : DualHubConfig} {part : Part} {s : Process}

theorem joinPart_joinPart (part : Part) (m : Member) :
    joinPart part (joinPart part m) = joinPart part m := by
  obtain ⟨fd, joinable, log⟩ := m
  cases part <;> cases fd <;> rfl

theorem stop_member (s : Process) (part : Part) :
    (stop s).member part = if part.polls then s.member part else (s.member part).closeFd := by
  cases part with
  | listener p => cases p <;> simp [stop, Process.modify, Part.polls, Function.update]
  | distributor p | reactor p i | worker p i | health =>
      simp [stop, Process.modify, Part.polls, Function.update]

theorem wait_present (s : Process) (cfg : HubConfig) (present : part.Present cfg) :
    (wait cfg s).member part = joinPart part (s.member part) :=
  forEachPure_of_mem (joinPart_joinPart part) (mem_joinedParts.mpr present)

theorem wait_absent (s : Process) (cfg : HubConfig) (absent : ¬ part.Present cfg) :
    (wait cfg s).member part = s.member part :=
  forEachPure_of_notMem fun member => absent (mem_joinedParts.mp member)

def Kernel.opens (kernel : Kernel) (part : Part) : Bool := !part.polls || kernel.epoll part

theorem startPolling_begun (starts : kernel.Starts cfg) (present : part.Present cfg.hubConfig)
    (polls : part.polls = true) : (startPolling kernel part .initial).isSome := by
  rw [startPolling_isSome]
  exact starts.polling part (mem_pollingParts.mpr ⟨polls, present⟩)

theorem started_opens (starts : kernel.Starts cfg) (present : part.Present cfg.hubConfig) :
    (started kernel part).fd = kernel.opens part ∧
      (started kernel part).log = if kernel.opens part then [.opened] else [] := by
  cases polls : part.polls with
  | false => simp [started, Kernel.opens, polls]
  | true =>
      have begun := startPolling_begun starts present polls
      simp only [started, polls, if_true, Kernel.opens, Bool.not_true, Bool.false_or]
      revert begun
      unfold startPolling Kernel.makeThread
      cases kernel.epoll part <;> cases kernel.thread part <;> cases part <;>
        simp [Member.openFd, Member.initial]

theorem ended_member (s : Process) {cfg : HubConfig} (present : part.Present cfg) :
    (stop (wait cfg (stop s))).member part = (s.member part).closeFd.join := by
  rw [stop_member, wait_present _ _ present, stop_member]
  obtain ⟨fd, joinable, log⟩ := s.member part
  cases part <;> cases fd <;> rfl

theorem joined_member (s : Process) {cfg : HubConfig} (present : part.Present cfg) :
    ((wait cfg s).member part).joinable = false := by
  rw [wait_present _ _ present]
  obtain ⟨fd, joinable, log⟩ := s.member part
  cases part <;> cases fd <;> rfl

theorem leave_joined {cfg : HubConfig} (status : Nat)
    (joined : ∀ part, part.Present cfg → (s.member part).joinable = false) :
    leave cfg status s = .exited status (stop s) := by
  refine if_neg ?_
  rintro ⟨part, member, joinable⟩
  rw [joined part (mem_joinedParts.mp member)] at joinable
  cases joinable

theorem leave_joinable {cfg : HubConfig} (status : Nat) (present : part.Present cfg)
    (joinable : (s.member part).joinable = true) : leave cfg status s = .aborted :=
  if_pos ⟨part, mem_joinedParts.mpr present, joinable⟩

/-- The part runs a thread when it was started: all do but reactors without a poller. -/
def Kernel.runs (kernel : Kernel) : Part → Bool
  | .reactor p i => kernel.epoll (.reactor p i)
  | _ => true

/-- After `Stop` every thread of the hub ends. -/
def Kernel.Ends (kernel : Kernel) (cfg : DualHubConfig) : Prop :=
  ∀ part, part.Present cfg.hubConfig → kernel.runs part = true → kernel.ends part = true

theorem started_joinable (starts : kernel.Starts cfg) (present : part.Present cfg.hubConfig) :
    (started kernel part).joinable = kernel.runs part := by
  cases polls : part.polls with
  | false => cases part <;> simp_all [started, Kernel.runs, Part.polls]
  | true =>
      have begun := startPolling_begun starts present polls
      simp only [started, polls, if_true]
      revert begun
      unfold startPolling Kernel.makeThread
      cases epoll : kernel.epoll part <;> cases kernel.thread part <;> cases part <;>
        simp_all [Member.openFd, Member.initial, Kernel.runs, Part.polls]

/-- How `main` ends once the arguments are read. -/
inductive ServeEnds (kernel : Kernel) (cfg : DualHubConfig) : Outcome → Prop
  | unmade (fails : kernel.constructs cfg = false) : ServeEnds kernel cfg .aborted
  | terminated (made : kernel.constructs cfg = true) (fails : ¬ kernel.Starts cfg)
      (heard : ¬ kernel.Refuses cfg) : ServeEnds kernel cfg .aborted
  | refused (made : kernel.constructs cfg = true) (refuses : kernel.Refuses cfg) {s : Process}
      (closed : ∀ part, s.member part = .initial ∨
        s.member part = ⟨false, false, [.opened, .closed]⟩) :
      ServeEnds kernel cfg (.exited 1 s)
  | killed (made : kernel.constructs cfg = true) (starts : kernel.Starts cfg)
      (signal : kernel.killed = true) : ServeEnds kernel cfg .aborted
  | waiting (made : kernel.constructs cfg = true) (starts : kernel.Starts cfg)
      (calm : kernel.killed = false) (stuck : ¬ kernel.Ends cfg) : ServeEnds kernel cfg .blocked
  | stopped (made : kernel.constructs cfg = true) (starts : kernel.Starts cfg)
      (calm : kernel.killed = false) (ends : kernel.Ends cfg) {s : Process}
      (closed : ∀ part, part.Present cfg.hubConfig →
        s.member part = ⟨false, false, if kernel.opens part then [.opened, .closed] else []⟩)
      (absent : ∀ part, ¬ part.Present cfg.hubConfig → s.member part = .initial) :
      ServeEnds kernel cfg (.exited 0 s)

theorem stop_closed {m : Member} (closed : s.member part = m) (none : m.fd = false) :
    (stop s).member part = m := by
  rw [stop_member, closed, Member.closeFd, none]
  simp

theorem shutDown_ends (made : kernel.constructs cfg = true) (starts : kernel.Starts cfg)
    (calm : kernel.killed = false)
    (present : ∀ part, part.Present cfg.hubConfig → s.member part = started kernel part)
    (absent : ∀ part, ¬ part.Present cfg.hubConfig → s.member part = .initial) :
    ServeEnds kernel cfg (shutDown kernel cfg.hubConfig s) := by
  have joined : (∀ part ∈ joinedParts cfg.hubConfig, (s.member part).joinable → kernel.ends part) ↔
      kernel.Ends cfg := by
    simp only [mem_joinedParts]
    refine forall_congr' fun part => forall_congr' fun there => ?_
    rw [present part there, started_joinable starts there]
  unfold shutDown
  split
  next ends =>
    rw [leave_joined _ fun part => joined_member _]
    refine .stopped made starts calm (joined.mp ends) (fun part there => ?_) (fun part away => ?_)
    · obtain ⟨fd, log⟩ := started_opens starts there
      rw [ended_member s there, present part there, Member.closeFd, Member.join, fd, log]
      cases opens : kernel.opens part <;> simp [fd, log, opens]
    · refine stop_closed ?_ rfl
      rw [wait_absent _ _ away, stop_closed (absent part away) rfl]
  next stuck => exact .waiting made starts calm fun ends => stuck (joined.mpr ends)

theorem serve_ends (kernel : Kernel) (cfg : DualHubConfig) :
    ServeEnds kernel cfg (serve kernel cfg) := by
  have ends := start_ends kernel cfg
  unfold serve
  cases made : kernel.constructs cfg with
  | false => exact .unmade made
  | true =>
      rw [if_pos rfl]
      generalize start kernel cfg .initial = result at ends ⊢
      cases ends with
      | threw fails heard => exact .terminated made fails heard
      | refused refuses others forward =>
          rename_i s
          have closed : ∀ part, s.member part = .initial ∨
              s.member part = ⟨false, false, [.opened, .closed]⟩ := by
            intro part
            by_cases own : part = .listener .kForward
            · rw [own]
              exact forward
            · exact .inl (others part own)
          dsimp only
          rw [leave_joined]
          · refine .refused made refuses fun part => ?_
            rcases closed part with unused | used
            · exact .inl (stop_closed unused rfl)
            · exact .inr (stop_closed used rfl)
          · intro part _
            rcases closed part with unused | used
            · rw [unused]; rfl
            · rw [used]
      | abandoned fails heard running =>
          dsimp only
          have there : Part.Present cfg.hubConfig (.listener .kForward) := trivial
          rw [leave_joinable 1 there running]
          exact .terminated made fails heard
      | up starts present absent =>
          dsimp only
          split
          next signal => exact .killed made starts signal
          next calm => exact shutDown_ends made starts (Bool.eq_false_iff.mpr calm) present absent

theorem Kernel.Starts.heard (starts : kernel.Starts cfg) : ¬ kernel.Refuses cfg := fun refuses =>
  absurd (starts.listeners .kForward).1 (Bool.eq_false_iff.mp refuses.2)

/-- How the process ends, for every command line and every kernel. A start that fails is reported by
status 1 only if it is the forward listener that fails: with the forward listener up, its thread is
never joined, and the process is terminated. -/
theorem failed_start_is_reported_iff (kernel : Kernel) (args : List Bytes) :
    ((runMain kernel args).status = some 1 ↔ ∃ cfg, parseArgs .initial args = .config cfg ∧
        kernel.constructs cfg = true ∧ kernel.Refuses cfg) ∧
      ((runMain kernel args).status = some 0 ↔ parseArgs .initial args = .help ∨
        ∃ cfg, parseArgs .initial args = .config cfg ∧ kernel.constructs cfg = true ∧
          kernel.Starts cfg ∧ kernel.killed = false ∧ kernel.Ends cfg) ∧
      (runMain kernel args = .blocked ↔ ∃ cfg, parseArgs .initial args = .config cfg ∧
        kernel.constructs cfg = true ∧ kernel.Starts cfg ∧ kernel.killed = false ∧
          ¬ kernel.Ends cfg) ∧
      (runMain kernel args = .aborted ↔ parseArgs .initial args = .throws ∨
        ∃ cfg, parseArgs .initial args = .config cfg ∧ (kernel.constructs cfg = false ∨
          ¬ kernel.Starts cfg ∧ ¬ kernel.Refuses cfg ∨ kernel.Starts cfg ∧ kernel.killed = true)) := by
  unfold runMain
  cases parsed : parseArgs .initial args with
  | help => simp [Outcome.status]
  | throws => simp [Outcome.status]
  | config cfg =>
      have ends := serve_ends kernel cfg
      dsimp only
      generalize serve kernel cfg = outcome at ends ⊢
      cases ends with
      | unmade fails => simp [Outcome.status, fails]
      | terminated made fails heard => simp [Outcome.status, fails, heard]
      | refused made refuses closed =>
          have fails : ¬ kernel.Starts cfg := fun starts => starts.heard refuses
          simp [Outcome.status, made, fails, refuses]
      | killed made starts signal => simp [Outcome.status, starts, starts.heard, signal]
      | waiting made starts calm stuck => simp [Outcome.status, made, starts, starts.heard, calm, stuck]
      | stopped made starts calm ends closed absent =>
          simp [Outcome.status, made, starts, starts.heard, calm, ends]

example (kernel : Kernel) :
    runMain kernel [ascii "--queue-capacity", ascii "9223372036854775807"] = .aborted := by
  have parsed : parseArgs .initial [ascii "--queue-capacity", ascii "9223372036854775807"] =
      .config { DualHubConfig.initial with queueCapacity := 9223372036854775807 } := by
    decide +kernel
  rw [runMain, parsed]
  rfl

/-- When the process exits no part of the hub holds a descriptor or a thread. What a part has opened it
has closed once, and after a run that was started, these are the sockets and all the pollers that the
kernel gave its parts. -/
theorem descriptors_are_closed_once {args : List Bytes} {status : Nat}
    (ended : runMain kernel args = .exited status s) (part : Part) :
    ((s.member part).fd = false ∧ (s.member part).joinable = false) ∧
      ((s.member part).log = [] ∨ (s.member part).log = [.opened, .closed]) ∧
      (status = 0 → ∀ cfg, parseArgs .initial args = .config cfg →
        ((s.member part).log = [.opened, .closed] ↔
          part.Present cfg.hubConfig ∧ kernel.opens part = true)) := by
  unfold runMain at ended
  cases parsed : parseArgs .initial args with
  | help =>
      rw [parsed] at ended
      cases ended
      refine ⟨⟨rfl, rfl⟩, .inl rfl, fun _ cfg config => ?_⟩
      cases config
  | throws =>
      rw [parsed] at ended
      cases ended
  | config cfg =>
      rw [parsed] at ended
      have ends := serve_ends kernel cfg
      dsimp only at ended
      rw [ended] at ends
      cases ends with
      | refused made refuses closed =>
          rcases closed part with unused | used
          · rw [unused]
            exact ⟨⟨rfl, rfl⟩, .inl rfl, fun zero => by cases zero⟩
          · rw [used]
            exact ⟨⟨rfl, rfl⟩, .inr rfl, fun zero => by cases zero⟩
      | stopped made starts calm ends closed absent =>
          by_cases present : part.Present cfg.hubConfig
          · rw [closed part present]
            refine ⟨⟨rfl, rfl⟩, ?_, ?_⟩
            · cases kernel.opens part <;> simp
            · rintro - _ ⟨⟩
              cases kernel.opens part <;> simp [present]
          · rw [absent part present]
            refine ⟨⟨rfl, rfl⟩, .inl rfl, ?_⟩
            rintro - _ ⟨⟩
            simp [Member.initial, present]

def generousKernel : Kernel where
  memory _ := true
  socket _ := true
  bind _ _ := true
  listen _ := true
  epoll _ := true
  thread _ := true
  killed := false
  ends _ := true

theorem descriptors_are_closed_once_default :
    ∃ s, runMain generousKernel [] = .exited 0 s ∧
      (s.member (.worker .kBackend 3)).log = [.opened, .closed] ∧
      (s.member (.worker .kBackend 4)).log = [] := by
  have zero : (runMain generousKernel []).status = some 0 := by decide +kernel
  cases ended : runMain generousKernel [] with
  | aborted | blocked =>
      rw [ended] at zero
      cases zero
  | exited status s =>
      rw [ended] at zero
      cases zero
      have last := descriptors_are_closed_once ended (.worker .kBackend 3)
      have beyond := descriptors_are_closed_once ended (.worker .kBackend 4)
      have opened := (last.2.2 rfl .initial rfl).mpr ⟨(by decide : 3 < 4), rfl⟩
      refine ⟨s, rfl, opened, beyond.2.1.resolve_right ?_⟩
      intro used
      have present := ((beyond.2.2 rfl .initial rfl).mp used).1
      exact absurd present (by decide : ¬ 4 < 4)

end Ending

end HiImCore.Cmd
