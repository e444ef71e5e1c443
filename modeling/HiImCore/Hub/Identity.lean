import HiImCore.Hub.Publish
import HiImCore.Hub.Routing

/-! The identity of a session is copied into the subscription table and the route map
when it subscribes and authenticates: whether the copies stay those of the session. -/

namespace HiImCore.Hub

open Replay Transition Wire

section Registry

namespace Registry

variable (g : Registry)

def HasSubscription (sid : Nat) : Prop :=
  ∃ cmd sub, sub ∈ g.router.findSubscribers cmd ∧ sub.sid = sid

/-- No session with a subscription takes another gid or nid. -/
def KeepsSubscribed : Event → Prop
  | .bound i sid gid nid => ∀ id, g.conn sid = .live i id → id.authed = true →
      g.HasSubscription sid → gid = id.gid ∧ nid = id.nid
  | _ => True

end Registry

variable {history : List Event}

theorem subscriber_identity (legal : Registry.Legal .empty history)
    (keeps : Along Registry.apply Registry.KeepsSubscribed .empty history) {cmd : UInt32}
    {sub : Subscriber} (member : sub ∈ (after history).router.findSubscribers cmd) :
    ∃ (i : Nat) (id : Ident), (after history).conn sub.sid = .live i id ∧ id.authed = true ∧
      sub.gid = id.gid ∧ sub.nid = id.nid ∧ sub.reactorIdx = i := by
  revert cmd sub
  refine along_invariant Registry.apply
    (fun past g => ∀ {cmd : UInt32} {sub : Subscriber}, sub ∈ g.router.findSubscribers cmd →
      ∃ (i : Nat) (id : Ident), g.conn sub.sid = .live i id ∧ id.authed = true ∧
        sub.gid = id.gid ∧ sub.nid = id.nid ∧ sub.reactorIdx = i)
    ((along_and ..).mpr ⟨legal, keeps⟩) ?_ ?_
  · intro cmd sub member
    cases member
  · rintro past g e _ _ known ⟨allowed, keep⟩ cmd sub member
    rcases apply_subscriber member with rfl | ⟨old, _, notClosed⟩
    · exact allowed
    · obtain ⟨i, id, live, authed, gid, nid, reactor⟩ := known old
      have step := apply_connStep allowed sub.sid
      rw [live] at step
      generalize (g.apply e).conn sub.sid = conn at step
      cases step with
      | same => exact ⟨i, id, rfl, authed, gid, nid, reactor⟩
      | closed =>
          rw [notClosed i i id rfl live] at authed
          cases authed
      | bound i id newGid newNid =>
          obtain ⟨sameGid, sameNid⟩ := keep id live authed ⟨cmd, sub, old, rfl⟩
          exact ⟨i, _, rfl, rfl, gid.trans sameGid.symm, nid.trans sameNid.symm, reactor⟩
      | received | appended | wrote => exact ⟨i, _, rfl, authed, gid, nid, reactor⟩

end Registry

section Guards

namespace PlaneState

variable (pl : PlaneState)

def HasSubscription (sid : Nat) : Prop :=
  ∃ cmd sub, sub ∈ pl.router.findSubscribers cmd ∧ sub.sid = sid

/-- No accepted `AUTH_REQ` gives a session with a subscription another gid or nid. -/
def KeepsSubscribed : Event → Prop
  | .bound i sid gid nid => ∀ session, (pl.reactor i).sessions sid = some session →
      session.authed = true → pl.HasSubscription sid → gid = session.gid ∧ nid = session.nid
  | _ => True

/-- No accepted `AUTH_REQ` changes what an entry of the router carries. -/
def KeepsIdentity (e : Event) : Prop := pl.KeepsNid e ∧ pl.KeepsSubscribed e

end PlaneState

variable {g : Registry} {pl : PlaneState}

theorem keepsSubscribed_registry (agrees : Agrees g pl.core) {e : Event}
    (keeps : pl.KeepsSubscribed e) : g.KeepsSubscribed e := by
  cases e with
  | bound i sid gid nid =>
      intro id live authed subscribed
      obtain ⟨session, found, rfl⟩ := session_of_live agrees live
      rw [Registry.HasSubscription, agrees.router] at subscribed
      exact keeps session found authed subscribed
  | _ => trivial

theorem easy_keepsSubscribed (g : Registry) (e : Event) (calm : e.isTurning = false) :
    g.KeepsSubscribed e := by
  cases e <;> trivial

theorem bindsOnce_keepsIdentity {x : Taken HubServer Action Entry} (once : bindsOnce x = true) :
    EachEvent PlaneState.KeepsIdentity x := by
  intro p e member
  refine ⟨bindsOnce_keepsNid once p e member, ?_⟩
  cases e with
  | bound i sid gid nid =>
      intro session found authed _
      rw [bindsOnce_first once member found] at authed
      cases authed
  | _ => trivial

end Guards

section Results

variable {cfg : HubConfig} {wakeFd : Plane → Nat → Int}
  {taken : List (Taken HubServer Action Entry)} {h : HubServer}

/-- Every entry of the router for an open session carries the session's identity. -/
def PlaneState.RouterAgrees (pl : PlaneState) : Prop :=
  ∀ (i sid : Nat) (session : Session), (pl.reactor i).sessions sid = some session →
    (∀ cmd vec, pl.router.subTable cmd = some vec → ∀ sub ∈ vec, sub.sid = sid →
      sub.gid = session.gid ∧ sub.nid = session.nid ∧ sub.reactorIdx = i) ∧
    ∀ nid route, pl.router.nidMap nid = some route → route.sid = sid →
      nid = session.nid ∧ route.reactorIdx = i

theorem hubRun_identity (run : HubRun cfg wakeFd taken h)
    (keeps : Within (EachEvent PlaneState.KeepsIdentity) taken) (p : Plane) {cmd : UInt32}
    {sub : Subscriber} (member : sub ∈ (h.plane p).router.findSubscribers cmd) :
    ∃ (i : Nat) (session : Session), ((h.plane p).reactor i).sessions sub.sid = some session ∧
      sub.gid = session.gid ∧ sub.nid = session.nid ∧ sub.reactorIdx = i := by
  obtain ⟨legal, agrees⟩ := hubRun_follows run p
  have along := hubRun_along easy_keepsSubscribed
    (fun _ _ _ agrees keeps => keepsSubscribed_registry agrees keeps) run
    (keeps.mono fun x each p e seen => (each p e seen).2) p
  rw [← show (after (onPlane p (trace taken))).router = (h.plane p).router from agrees.router]
    at member
  obtain ⟨i, id, live, _, gid, nid, reactor⟩ := subscriber_identity legal along member
  obtain ⟨session, found, rfl⟩ := session_of_live agrees live
  exact ⟨i, session, found, gid, nid, reactor⟩

theorem hubRun_session_unique (run : HubRun cfg wakeFd taken h) (p : Plane) {i j sid : Nat}
    {session other : Session} (here : ((h.plane p).reactor i).sessions sid = some session)
    (there : ((h.plane p).reactor j).sessions sid = some other) :
    i = j ∧ session.key.ident = other.key.ident := by
  have agrees := (hubRun_follows run p).2
  have first := live_of_session agrees here
  rw [live_of_session agrees there] at first
  obtain ⟨same, ident⟩ := Conn.live.inj first
  exact ⟨same.symm, ident.symm⟩

theorem expanded_snapshot (run : HubRun cfg wakeFd taken h) {x : Taken HubServer Action Entry}
    (member : x ∈ taken) {p : Plane} {origin : Origin} {cmd : UInt32} {subs : List Subscriber}
    (seen : (p, .expanded origin cmd subs) ∈ x.events) :
    (∃ front, HubRun cfg wakeFd front x.pre ∧ front <+: taken) ∧
      subs = (x.pre.plane p).router.findSubscribers cmd := by
  obtain ⟨front, back, rfl⟩ := List.append_of_mem member
  obtain ⟨earlier, post, step⟩ := run.at
  refine ⟨⟨front, earlier, List.prefix_append _ _⟩, ?_⟩
  obtain ⟨q, w, s, _, effect, place⟩ := (hubRun_effect earlier step).of_worker seen rfl
  rcases place with ⟨_, own⟩ | ⟨rfl, peer⟩
  · cases effect with
    | took => simp at own
    | _ => cases own
  · have quiet : ∀ {o : Origin} {tail : List Event}, Returns o tail →
        .expanded origin cmd subs ∉ tail := by
      intro o tail results inside
      obtain ⟨status, same⟩ := results _ inside
      cases same
    cases effect with
    | idle | took | ignored | retried => cases peer
    | published was plane results =>
        rcases List.mem_cons.mp peer with same | rest
        · cases same
          rfl
        · exact absurd rest (quiet results)
    | unrouted was plane dest results | pushed was room results =>
        rcases List.mem_cons.mp peer with same | rest
        · cases same
        · exact absurd rest (quiet results)
    | routed was plane dest found => cases List.mem_singleton.mp peer
    | gaveUp was results => exact absurd peer (quiet results)

/-- Where no accepted `AUTH_REQ` changes what an entry carries, the router agrees with the
open sessions, and `Publish` addresses every subscriber by its current nid. -/
theorem router_agrees_with_sessions (run : HubRun cfg wakeFd taken h)
    (keeps : Within (EachEvent PlaneState.KeepsIdentity) taken) (p : Plane) :
    (h.plane p).RouterAgrees ∧
      ∀ x ∈ taken, ∀ origin cmd subs, (p, .expanded origin cmd subs) ∈ x.events →
        ∀ sub ∈ subs, ∃ (i : Nat) (session : Session),
          ((x.pre.plane p).reactor i).sessions sub.sid = some session ∧ session.nid = sub.nid := by
  constructor
  · intro i sid session found
    constructor
    · rintro cmd vec table sub member rfl
      obtain ⟨j, other, there, gid, nid, reactor⟩ :=
        hubRun_identity run keeps p (Router.mem_findSubscribers.mpr ⟨vec, table, member⟩)
      obtain ⟨rfl, same⟩ := hubRun_session_unique run p found there
      exact ⟨gid.trans (congrArg Ident.gid same).symm, nid.trans (congrArg Ident.nid same).symm,
        reactor⟩
    · rintro nid route there rfl
      obtain ⟨legal, agrees⟩ := hubRun_follows run p
      have along := hubRun_along easy_keepsNid
        (fun _ _ _ agrees keeps => keepsNid_registry agrees keeps) run
        (keeps.mono fun x each p e seen => (each p e seen).1) p
      rw [← show (after (onPlane p (trace taken))).router = (h.plane p).router from agrees.router]
        at there
      obtain ⟨j, id, live, _, same, reactor⟩ := routes_lead legal along there
      have here := live_of_session agrees found
      rw [here] at live
      obtain ⟨rfl, rfl⟩ := Conn.live.inj live
      exact ⟨same.symm, reactor⟩
  · intro x inside origin cmd subs seen sub member
    obtain ⟨⟨front, earlier, ⟨back, rfl⟩⟩, rfl⟩ := expanded_snapshot run inside seen
    obtain ⟨i, session, found, _, nid, _⟩ :=
      hubRun_identity earlier (within_append.mp keeps).1 p member
    exact ⟨i, session, found, nid.symm⟩

/-- A session subscribes as nid 1 and takes nid 2: the subscriber still carries nid 1. -/
theorem subscriber_keeps_old_nid :
    ∃ taken h, HubRun (smallConfig 4) smallWakeFd taken h ∧ ¬ (h.plane .kForward).RouterAgrees := by
  obtain ⟨taken, h, run, _, seen⟩ := small_run 4 (fun _ => true)
    (connecting .kForward 0 smallWakeFd 5 ++ authenticating .kForward 0 5 1 ++
      subscribing .kForward 0 5 9 ++ authenticating .kForward 0 5 2)
    (fun x => decide ((x.1.plane .kForward).router.subTable 9 = some [⟨1, 1, 1, 0⟩]) &&
      (((x.1.plane .kForward).reactor 0).sessions 1).any fun session => session.nid == 2)
    (by decide +kernel)
  simp only [Bool.and_eq_true, decide_eq_true_eq, Option.any_eq_true, beq_iff_eq] at seen
  obtain ⟨table, session, found, nid⟩ := seen
  refine ⟨taken, h, run, fun agrees => ?_⟩
  have same := ((agrees 0 1 session found).1 9 _ table _ List.mem_cons_self rfl).2.1
  rw [nid] at same
  cases same

theorem router_agrees_with_sessions_linked :
    ∃ taken h, HubRun (smallConfig 4) smallWakeFd taken h ∧
      (h.plane .kBackend).router.subTable 9 = some [⟨1, 1, 2, 0⟩] ∧
      (h.plane .kBackend).RouterAgrees := by
  obtain ⟨taken, h, run, inside, seen⟩ := small_run 4 bindsOnce linked
    (fun x => decide ((x.1.plane .kBackend).router.subTable 9 = some [⟨1, 1, 2, 0⟩]))
    (by decide +kernel)
  have agrees := router_agrees_with_sessions run
    (inside.mono fun _ => bindsOnce_keepsIdentity) .kBackend
  exact ⟨taken, h, run, of_decide_eq_true seen, agrees.1⟩

end Results

section Expansion

variable {cfg : HubConfig} {wakeFd : Plane → Nat → Int}
  {taken : List (Taken HubServer Action Entry)} {h : HubServer}

/-- No two open, authenticated sessions have the same nid. -/
def PlaneState.NidsUnshared (pl : PlaneState) : Prop :=
  ∀ sid other nid, pl.OpenAs sid nid → pl.OpenAs other nid → sid = other

theorem subscriber_routed (run : HubRun cfg wakeFd taken h)
    (keeps : Within (EachEvent PlaneState.KeepsSubscribed) taken)
    (spares : Within (EachEvent PlaneState.SparesHolders) taken) (p : Plane)
    (unshared : (h.plane p).NidsUnshared) {cmd : UInt32} {sub : Subscriber}
    (member : sub ∈ (h.plane p).router.findSubscribers cmd) :
    (h.plane p).router.findNidRoute sub.nid = some ⟨sub.sid, sub.reactorIdx⟩ := by
  obtain ⟨legal, agrees⟩ := hubRun_follows run p
  have kept := hubRun_along easy_keepsSubscribed
    (fun _ _ _ agrees keeps => keepsSubscribed_registry agrees keeps) run keeps p
  have spared := hubRun_along easy_sparesHolders
    (fun _ _ _ agrees spares => sparesHolders_registry agrees spares) run spares p
  have router : (after (onPlane p (trace taken))).router = (h.plane p).router := agrees.router
  rw [← router] at member ⊢
  obtain ⟨i, id, live, authed, _, nid, reactor⟩ := subscriber_identity legal kept member
  have here : (after (onPlane p (trace taken))).OpenAs sub.sid sub.nid :=
    ⟨i, id, live, authed, nid.symm⟩
  obtain ⟨⟨sid, reactorIdx⟩, found, j, other, there, still, same, index⟩ :=
    connected_lead legal spared here
  dsimp only at there index
  obtain rfl : sid = sub.sid := unshared sid sub.sid sub.nid
    ((openAs_iff agrees _ _).mp ⟨j, other, there, still, same⟩) ((openAs_iff agrees _ _).mp here)
  obtain ⟨rfl, _⟩ := Conn.live.inj (there.symm.trans live)
  rw [reactor, ← index]
  exact found

/-- `Publish` is `AsyncSend` to the nid of each subscriber in turn wherever no two open sessions have
one nid, no session has taken another gid or nid while it was subscribed, and no session that held the
route of its nid has gone, or taken another nid, while another one had that nid. -/
theorem publish_expands_to_unicasts (run : HubRun cfg wakeFd taken h)
    (keeps : Within (EachEvent PlaneState.KeepsSubscribed) taken)
    (spares : Within (EachEvent PlaneState.SparesHolders) taken) (p : Plane)
    (unshared : (h.plane p).NidsUnshared) (capacity : Nat) (cmd : UInt32) (data : Bytes)
    (queue : List OutboundFrame) (present : (h.plane p).router.findSubscribers cmd ≠ [])
    (room : queue.length + ((h.plane p).router.findSubscribers cmd).length ≤ capacity) :
    (publish capacity cmd data (h.plane p).router queue).1 =
        (asyncSendEach capacity cmd data (h.plane p).router queue
          ((h.plane p).router.findSubscribers cmd)).1 ∧
      ((publish capacity cmd data (h.plane p).router queue).2 = .ok ↔
        ∀ status ∈ (asyncSendEach capacity cmd data (h.plane p).router queue
          ((h.plane p).router.findSubscribers cmd)).2, status = .ok) := by
  refine (publish_eq_asyncSendEach_iff capacity cmd data _ queue present room).mpr ?_
  intro sub member
  exact subscriber_routed run keeps spares p unshared member

theorem publish_expands_to_unicasts_linked :
    ∃ taken h, HubRun (smallConfig 4) smallWakeFd taken h ∧
      (h.plane .kBackend).router.findSubscribers 9 = [⟨1, 1, 2, 0⟩] ∧
      (h.plane .kBackend).NidsUnshared ∧
      (publish 4 9 [7] (h.plane .kBackend).router []).1 =
        (asyncSendEach 4 9 [7] (h.plane .kBackend).router [] [⟨1, 1, 2, 0⟩]).1 := by
  obtain ⟨taken, h, run, inside, seen⟩ := small_run 4 (fun x => bindsOnce x && closesNone x) linked
    (fun x => decide ((x.1.plane .kBackend).router.findSubscribers 9 = [⟨1, 1, 2, 0⟩]) &&
      x.2.all fun e => match e.2 with | .registered _ conn => conn.sid == 1 | _ => true)
    (by decide +kernel)
  simp only [Bool.and_eq_true, decide_eq_true_eq, List.all_eq_true] at seen
  obtain ⟨subs, single⟩ := seen
  -- Every session is the first one of its plane.
  have first : ∀ sid nid, (h.plane .kBackend).OpenAs sid nid → sid = 1 := by
    rintro sid nid ⟨i, session, found, _⟩
    obtain ⟨legal, agrees⟩ := hubRun_follows run .kBackend
    obtain ⟨fd, registered⟩ := live_registered legal (live_of_session agrees found)
    exact beq_iff_eq.mp (single _ (mem_onPlane.mp registered))
  have unshared : (h.plane .kBackend).NidsUnshared := by
    intro sid other nid here there
    rw [first sid nid here, first other nid there]
  have equal := publish_expands_to_unicasts run
    (inside.mono fun x calm p e member =>
      (bindsOnce_keepsIdentity (Bool.and_eq_true_iff.mp calm).1 p e member).2)
    (inside.mono fun _ => bindsOnce_sparesHolders) .kBackend unshared 4 9 [7] []
    (by rw [subs]; decide) (by rw [subs]; decide)
  rw [subs] at equal
  exact ⟨taken, h, run, subs, unshared, equal.1⟩

/-- In this state of the small hub `Publish` reaches the subscriber of type 9, and `AsyncSend` to its
nid does not. -/
def Differs (h : HubServer) : Prop :=
  (h.plane .kBackend).router.findSubscribers 9 = [⟨1, 1, 2, 0⟩] ∧
    (publish 4 9 [7] (h.plane .kBackend).router []).1 ≠
      (asyncSendEach 4 9 [7] (h.plane .kBackend).router [] [⟨1, 1, 2, 0⟩]).1

theorem differs_after (acts : List Action) (holders : List (Nat × UInt32)) (route : Option NidRoute)
    (elsewhere : route ≠ some ⟨1, 0⟩)
    (check : (follow (hubSystem (smallConfig 4)) (fun _ => true) (.init smallWakeFd) acts).any
      (fun x => decide ((x.1.plane .kBackend).router.findSubscribers 9 = [⟨1, 1, 2, 0⟩]) &&
        decide ((x.1.plane .kBackend).router.findNidRoute 2 = route) &&
        holders.all fun holder => (((x.1.plane .kBackend).reactor 0).sessions holder.1).any
          fun session => session.authed && session.nid == holder.2) = true) :
    ∃ taken h, HubRun (smallConfig 4) smallWakeFd taken h ∧
      (h.plane .kBackend).router.findNidRoute 2 = route ∧
      (∀ holder ∈ holders, (h.plane .kBackend).OpenAs holder.1 holder.2) ∧ Differs h := by
  obtain ⟨taken, h, run, _, seen⟩ := small_run 4 (fun _ => true) acts _ check
  simp only [Bool.and_eq_true, decide_eq_true_eq, List.all_eq_true, Option.any_eq_true,
    beq_iff_eq] at seen
  obtain ⟨⟨subs, found⟩, openAs⟩ := seen
  refine ⟨taken, h, run, found, ?_, subs, ?_⟩
  · intro holder member
    obtain ⟨session, present, authed, nid⟩ := openAs holder member
    exact ⟨0, session, present, authed, nid⟩
  · rw [publish, subs, if_neg (by decide), publishEach_room (by decide),
      (asyncSendEach_room _ _ _ (by decide)).1]
    intro same
    have pointwise := List.filterMap_eq_map_iff_forall_eq_some.mp (List.append_cancel_left same).symm
    exact elsewhere (found.symm.trans (unicastOf_eq_some_iff.mp (pointwise _ List.mem_cons_self)))

def takingOver : List Action :=
  connecting .kBackend 0 smallWakeFd 7 ++ authenticating .kBackend 0 7 2

/-- `Publish` is not `AsyncSend` to the nids of the subscribers where another open session has taken
the nid over, where that session has gone since, and where the subscriber has taken another nid and a
newcomer has its old one. -/
theorem publish_differs_from_unicasts :
    (∃ taken h, HubRun (smallConfig 4) smallWakeFd taken h ∧
      (h.plane .kBackend).router.findNidRoute 2 = some ⟨2, 0⟩ ∧
      (∀ holder ∈ [(1, 2), (2, 2)], (h.plane .kBackend).OpenAs holder.1 holder.2) ∧ Differs h) ∧
    (∃ taken h, HubRun (smallConfig 4) smallWakeFd taken h ∧
      (h.plane .kBackend).router.findNidRoute 2 = none ∧
      (∀ holder ∈ [(1, 2)], (h.plane .kBackend).OpenAs holder.1 holder.2) ∧ Differs h) ∧
    ∃ taken h, HubRun (smallConfig 4) smallWakeFd taken h ∧
      (h.plane .kBackend).router.findNidRoute 2 = some ⟨2, 0⟩ ∧
      (∀ holder ∈ [(1, 3), (2, 2)], (h.plane .kBackend).OpenAs holder.1 holder.2) ∧ Differs h := by
  refine ⟨?_, ?_, ?_⟩
  · exact differs_after (linked ++ takingOver) _ _ (by decide) (by decide +kernel)
  · exact differs_after (linked ++ takingOver ++ ending .kBackend 0 7) _ _ (by decide)
      (by decide +kernel)
  · exact differs_after (linked ++ authenticating .kBackend 0 6 3 ++ takingOver) _ _ (by decide)
      (by decide +kernel)

end Expansion

end HiImCore.Hub
