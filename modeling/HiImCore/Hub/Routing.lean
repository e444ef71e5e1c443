import HiImCore.Hub.Exchange
import HiImCore.Hub.History
import HiImCore.Hub.Refinement

/-! Routes and open sessions: what `CloseSession` leaves in the router, and whether an
open session can be reached by its nid. -/

namespace HiImCore.Hub

open Replay Transition Wire

section Registry

namespace Registry

variable (g : Registry)

def OpenAs (sid : Nat) (nid : UInt32) : Prop :=
  ∃ i id, g.conn sid = .live i id ∧ id.authed = true ∧ id.nid = nid

/-- The route of the nid leads to the session. -/
def HoldsRoute (sid : Nat) (nid : UInt32) : Prop :=
  ∃ route, g.router.nidMap nid = some route ∧ route.sid = sid

/-- No session that holds the route of its nid takes another nid. -/
def KeepsNid : Event → Prop
  | .bound i sid _ nid => ∀ id, g.conn sid = .live i id → id.authed = true →
      g.HoldsRoute sid id.nid → nid = id.nid
  | _ => True

/-- No session that holds the route of its nid goes, or takes another nid, while
another open session has that nid. -/
def SparesHolders : Event → Prop
  | .closed i sid => ∀ id, g.conn sid = .live i id → id.authed = true →
      g.HoldsRoute sid id.nid → ∀ other, g.OpenAs other id.nid → other = sid
  | .bound i sid _ nid => ∀ id, g.conn sid = .live i id → id.authed = true →
      g.HoldsRoute sid id.nid → nid ≠ id.nid → ∀ other, g.OpenAs other id.nid → other = sid
  | _ => True

def Leads (nid : UInt32) (route : NidRoute) : Prop :=
  ∃ (i : Nat) (id : Ident), g.conn route.sid = .live i id ∧ id.authed = true ∧ id.nid = nid ∧
    route.reactorIdx = i

end Registry

variable {history : List Event}

theorem leads_stays {g : Registry} {e : Event} {nid : UInt32} {route : NidRoute}
    (allowed : g.Allows e) (leads : g.Leads nid route)
    (notClosed : ∀ i, e ≠ .closed i route.sid)
    (notBound : ∀ i gid n, e = .bound i route.sid gid n → n = nid) :
    (g.apply e).Leads nid route := by
  obtain ⟨i, id, live, authed, same, reactor⟩ := leads
  have step := apply_connStep allowed route.sid
  rw [live] at step
  generalize after : (g.apply e).conn route.sid = conn at step
  cases step with
  | same => exact ⟨i, id, after, authed, same, reactor⟩
  | closed => exact absurd rfl (notClosed i)
  | bound i id gid n => exact ⟨i, _, after, rfl, notBound i gid n rfl, reactor⟩
  | received | appended | wrote => exact ⟨i, _, after, authed, same, reactor⟩

theorem leads_bound {g : Registry} {i sid : Nat} {gid nid : UInt32}
    (allowed : g.Allows (.bound i sid gid nid)) :
    (g.apply (.bound i sid gid nid)).Leads nid ⟨sid, i⟩ := by
  obtain ⟨id, live⟩ := allowed
  refine ⟨i, { id with authed := true, gid := gid, nid := nid }, ?_, rfl, rfl, rfl⟩
  simp [Registry.apply, live, Registry.authenticated]

theorem routes_lead (legal : Registry.Legal .empty history)
    (keeps : Along Registry.apply Registry.KeepsNid .empty history) {nid : UInt32}
    {route : NidRoute} (found : (after history).router.nidMap nid = some route) :
    (after history).Leads nid route := by
  revert nid route
  refine along_invariant Registry.apply
    (fun past g => ∀ {nid : UInt32} {route : NidRoute}, g.router.nidMap nid = some route →
      g.Leads nid route) ((along_and ..).mpr ⟨legal, keeps⟩) ?_ ?_
  · intro nid route found
    cases found
  · rintro past g e _ _ known ⟨allowed, keep⟩ nid route found
    rcases apply_route found with ⟨i, gid, rfl, reactor⟩ | ⟨old, other⟩
    · have leads := leads_bound allowed
      rwa [← reactor] at leads
    · have leads := known old
      refine leads_stays allowed leads ?_ ?_
      · -- closing the session would have removed this route
        rintro i rfl
        obtain ⟨j, id, live, authed, rfl, _⟩ := leads
        simp only [Registry.apply, live, Registry.routerAfter, authed, if_true] at found
        exact (Router.removeSession_route found).2 rfl rfl
      · rintro i gid n rfl
        obtain ⟨j, id, live, authed, rfl, _⟩ := leads
        obtain ⟨id', live'⟩ := allowed
        rw [live] at live'
        obtain ⟨rfl, rfl⟩ := Conn.live.inj live'
        exact keep id live authed ⟨route, old, rfl⟩

theorem connected_lead (legal : Registry.Legal .empty history)
    (spares : Along Registry.apply Registry.SparesHolders .empty history) {sid : Nat}
    {nid : UInt32} (connected : (after history).OpenAs sid nid) :
    ∃ route, (after history).router.nidMap nid = some route ∧ (after history).Leads nid route := by
  revert sid nid
  refine along_invariant Registry.apply
    (fun past g => ∀ {sid : Nat} {nid : UInt32}, g.OpenAs sid nid →
      ∃ route, g.router.nidMap nid = some route ∧ g.Leads nid route)
    ((along_and ..).mpr ⟨legal, spares⟩) ?_ ?_
  · rintro sid nid ⟨i, id, live, _⟩
    cases live
  · rintro past g e _ _ known ⟨allowed, spare⟩ sid nid ⟨i, id, live, authed, rfl⟩
    by_cases binding : ∃ j l gid, e = .bound j l gid id.nid
    · obtain ⟨j, l, gid, rfl⟩ := binding
      exact ⟨⟨l, j⟩, by simp [Registry.apply, Router.bindNid_nidMap], leads_bound allowed⟩
    · have connected : g.OpenAs sid id.nid := by
        have step := apply_connStep allowed sid
        rw [live] at step
        generalize before : g.conn sid = conn at step
        cases step with
        | same => exact ⟨i, id, before, authed, rfl⟩
        | registered => cases authed
        | bound i id gid nid => exact absurd ⟨i, sid, gid, rfl⟩ binding
        | received | appended | wrote => exact ⟨i, _, before, authed, rfl⟩
      have survives : ∀ j l, e = .closed j l → sid ≠ l := by
        rintro j l rfl rfl
        simp [Registry.apply] at live
      obtain ⟨route, found, leads⟩ := known connected
      have holds : ∀ j id', g.conn route.sid = .live j id' → id'.authed = true ∧ id'.nid = id.nid := by
        intro j id' live'
        obtain ⟨_, held, there, authed', same, _⟩ := leads
        rw [there] at live'
        obtain ⟨_, rfl⟩ := Conn.live.inj live'
        exact ⟨authed', same⟩
      have notClosed : ∀ j, e ≠ .closed j route.sid := by
        rintro j rfl
        obtain ⟨id', there⟩ := allowed
        obtain ⟨authed', same⟩ := holds j id' there
        exact survives j route.sid rfl
          (spare id' there authed' ⟨route, by rw [same]; exact found, rfl⟩ sid (by rw [same]; exact connected))
      refine ⟨route, ?_, leads_stays allowed leads notClosed ?_⟩
      · exact route_stays found notClosed fun j l gid same => binding ⟨j, l, gid, same⟩
      · rintro j gid n rfl
        by_contra different
        obtain ⟨id', there⟩ := allowed
        obtain ⟨authed', same⟩ := holds j id' there
        have alone := spare id' there authed' ⟨route, by rw [same]; exact found, rfl⟩
          (by rw [same]; exact different) sid (by rw [same]; exact connected)
        subst alone
        simp only [Registry.apply, Registry.setConn_conn, if_true, there, Registry.authenticated]
          at live
        obtain ⟨rfl, rfl⟩ := Conn.live.inj live
        exact different rfl

end Registry

section Guards

namespace PlaneState

variable (pl : PlaneState)

def OpenAs (sid : Nat) (nid : UInt32) : Prop :=
  ∃ i session, (pl.reactor i).sessions sid = some session ∧ session.authed = true ∧
    session.nid = nid

/-- `FindNidRoute` leads to the session. -/
def HoldsRoute (sid : Nat) (nid : UInt32) : Prop :=
  ∃ route, pl.router.findNidRoute nid = some route ∧ route.sid = sid

/-- No accepted `AUTH_REQ` gives a session that holds the route of its nid another nid. -/
def KeepsNid : Event → Prop
  | .bound i sid _ nid => ∀ session, (pl.reactor i).sessions sid = some session →
      session.authed = true → pl.HoldsRoute sid session.nid → nid = session.nid
  | _ => True

/-- No session that holds the route of its nid is closed, or gets another nid, while
another open session has that nid. -/
def SparesHolders : Event → Prop
  | .closed i sid => ∀ session, (pl.reactor i).sessions sid = some session →
      session.authed = true → pl.HoldsRoute sid session.nid →
      ∀ other, pl.OpenAs other session.nid → other = sid
  | .bound i sid _ nid => ∀ session, (pl.reactor i).sessions sid = some session →
      session.authed = true → pl.HoldsRoute sid session.nid → nid ≠ session.nid →
      ∀ other, pl.OpenAs other session.nid → other = sid
  | _ => True

end PlaneState

/-- Every event of a step meets a condition on the plane before the step. -/
def EachEvent (G : PlaneState → Event → Prop) (x : Taken HubServer Action Entry) : Prop :=
  ∀ p e, (p, e) ∈ x.events → G (x.pre.plane p) e

variable {g : Registry} {pl : PlaneState}

theorem session_of_live (agrees : Agrees g pl.core) {i sid : Nat} {id : Ident}
    (live : g.conn sid = .live i id) :
    ∃ session, (pl.reactor i).sessions sid = some session ∧ session.key.ident = id := by
  obtain ⟨key, present, same⟩ := agrees.keyed i sid id live
  rw [core_keys, Option.map_eq_some_iff] at present
  obtain ⟨session, found, rfl⟩ := present
  exact ⟨session, found, same⟩

theorem live_of_session (agrees : Agrees g pl.core) {i sid : Nat} {session : Session}
    (found : (pl.reactor i).sessions sid = some session) :
    g.conn sid = .live i session.key.ident :=
  agrees.live i sid session.key (present_of_found found)

theorem openAs_iff (agrees : Agrees g pl.core) (sid : Nat) (nid : UInt32) :
    g.OpenAs sid nid ↔ pl.OpenAs sid nid := by
  constructor
  · rintro ⟨i, id, live, authed, same⟩
    obtain ⟨session, found, rfl⟩ := session_of_live agrees live
    exact ⟨i, session, found, authed, same⟩
  · rintro ⟨i, session, found, authed, same⟩
    exact ⟨i, session.key.ident, live_of_session agrees found, authed, same⟩

theorem holdsRoute_iff (agrees : Agrees g pl.core) (sid : Nat) (nid : UInt32) :
    g.HoldsRoute sid nid ↔ pl.HoldsRoute sid nid := by
  rw [Registry.HoldsRoute, agrees.router]
  exact Iff.rfl

theorem keepsNid_registry (agrees : Agrees g pl.core) {e : Event} (keeps : pl.KeepsNid e) :
    g.KeepsNid e := by
  cases e with
  | bound i sid gid nid =>
      intro id live authed holds
      obtain ⟨session, found, rfl⟩ := session_of_live agrees live
      exact keeps session found authed ((holdsRoute_iff agrees _ _).mp holds)
  | _ => trivial

theorem sparesHolders_registry (agrees : Agrees g pl.core) {e : Event}
    (spares : pl.SparesHolders e) : g.SparesHolders e := by
  cases e with
  | closed i sid =>
      intro id live authed holds other connected
      obtain ⟨session, found, rfl⟩ := session_of_live agrees live
      exact spares session found authed ((holdsRoute_iff agrees _ _).mp holds) other
        ((openAs_iff agrees _ _).mp connected)
  | bound i sid gid nid =>
      intro id live authed holds different other connected
      obtain ⟨session, found, rfl⟩ := session_of_live agrees live
      exact spares session found authed ((holdsRoute_iff agrees _ _).mp holds) different other
        ((openAs_iff agrees _ _).mp connected)
  | _ => trivial

def Event.isTurning : Event → Bool
  | .bound .. | .closed .. => true
  | _ => false

section Along

variable {P : Registry → Event → Prop} (easy : ∀ g e, e.isTurning = false → P g e)
include easy

theorem along_easy {events : List Event} (none : ∀ e ∈ events, e.isTurning = false) :
    Along Registry.apply P g events := by
  induction events generalizing g with
  | nil => trivial
  | cons e later ih =>
      exact ⟨easy g e (none e List.mem_cons_self),
        ih fun x member => none x (List.mem_cons_of_mem e member)⟩

theorem ReactorEffect.along {cfg : HubConfig} {i : Nat} {events : List Event} {t : Traffic}
    (effect : ReactorEffect cfg i pl events t) (hard : ∀ e ∈ events, P g e) :
    Along Registry.apply P g events := by
  cases effect with
  | closed k => exact ⟨hard _ List.mem_cons_self, trivial⟩
  | @system k session frame left answer pops flag answered =>
      refine ⟨easy g _ rfl, ?_⟩
      cases answered with
      | closed => exact ⟨hard _ (by simp), trivial⟩
      | authenticated accepted => exact ⟨hard _ (by simp), easy _ _ rfl, trivial⟩
      | _ => exact along_easy easy (by simp [Event.isTurning])
  | sent front found =>
      refine along_easy easy ?_
      split <;> simp [Event.isTurning]
  | _ => exact along_easy easy (by simp [Event.isTurning])

theorem HubEffect.along {cfg : HubConfig} {h post : HubServer} {act : Action}
    {entries : List Entry} (effect : HubEffect cfg h act post entries) (p : Plane)
    (hard : ∀ e, (p, e) ∈ entries → P g e) : Along Registry.apply P g (onPlane p entries) := by
  by_cases calm : ∀ e, (p, e) ∈ entries → e.isTurning = false
  · exact along_easy easy fun e member => calm e (mem_onPlane.mp member)
  · obtain ⟨e, seen, turning⟩ : ∃ e, (p, e) ∈ entries ∧ e.isTurning = true := by
      simpa using calm
    have role : e.role = some .reactor := by
      cases e <;> first | rfl | cases turning
    obtain ⟨i, input, pl, events, rfl, rfl, rfl, _, effect⟩ := effect.of_reactor seen role
    rw [onPlane_map, if_pos rfl]
    exact effect.along easy fun e member => hard e (mem_entries.mpr ⟨rfl, member⟩)

theorem hubRun_along {cfg : HubConfig} {wakeFd : Plane → Nat → Int}
    {taken : List (Taken HubServer Action Entry)} {h : HubServer} {G : PlaneState → Event → Prop}
    (agree : ∀ g pl e, Agrees g pl.core → G pl e → P g e) (run : HubRun cfg wakeFd taken h)
    (inside : Within (EachEvent G) taken) (p : Plane) :
    Along Registry.apply P .empty (onPlane p (trace taken)) := by
  refine run.invariant_within (EachEvent G)
    (fun history _ => Along Registry.apply P .empty (onPlane p history)) trivial ?_ inside
  intro past pre act post events before _ along each step
  rw [onPlane_append]
  refine (along_append ..).mpr ⟨along, ?_⟩
  refine (hubRun_effect before step).along easy p fun e member => ?_
  exact agree _ _ e (hubRun_follows before p).2 (each p e member)

end Along

end Guards

section Quiet

def bindsOnce (x : Taken HubServer Action Entry) : Bool :=
  x.events.all fun entry =>
    match entry with
    | (p, .bound i sid _ _) =>
        (((x.pre.plane p).reactor i).sessions sid).all fun session => !session.authed
    | _ => true

def closesNone (x : Taken HubServer Action Entry) : Bool :=
  x.events.all fun entry => match entry with | (_, .closed _ _) => false | _ => true

theorem bindsOnce_first {x : Taken HubServer Action Entry} (once : bindsOnce x = true) {p : Plane}
    {i sid : Nat} {gid nid : UInt32} (member : (p, .bound i sid gid nid) ∈ x.events)
    {session : Session} (found : ((x.pre.plane p).reactor i).sessions sid = some session) :
    session.authed = false := by
  have first := List.all_eq_true.mp once _ member
  simpa [found] using first

theorem bindsOnce_keepsNid {x : Taken HubServer Action Entry} (once : bindsOnce x = true) :
    EachEvent PlaneState.KeepsNid x := by
  intro p e member
  cases e with
  | bound i sid gid nid =>
      intro session found authed _
      rw [bindsOnce_first once member found] at authed
      cases authed
  | _ => trivial

theorem bindsOnce_sparesHolders {x : Taken HubServer Action Entry}
    (calm : (bindsOnce x && closesNone x) = true) : EachEvent PlaneState.SparesHolders x := by
  obtain ⟨once, none⟩ := Bool.and_eq_true_iff.mp calm
  intro p e member
  cases e with
  | bound i sid gid nid =>
      intro session found authed _
      rw [bindsOnce_first once member found] at authed
      cases authed
  | closed i sid =>
      have never := List.all_eq_true.mp none _ member
      cases never
  | _ => trivial

end Quiet

section Results

variable {cfg : HubConfig} {wakeFd : Plane → Nat → Int}
  {taken : List (Taken HubServer Action Entry)} {h : HubServer}

theorem easy_keepsNid (g : Registry) (e : Event) (calm : e.isTurning = false) : g.KeepsNid e := by
  cases e <;> trivial

theorem easy_sparesHolders (g : Registry) (e : Event) (calm : e.isTurning = false) :
    g.SparesHolders e := by
  cases e <;> trivial

/-- Where no session that holds the route of its nid takes another nid, a closed session
is in no vector and no route of the router, then and later, and `AsyncSend` never
resolves to a session that was closed before the lookup. -/
theorem closed_session_leaves_no_trace (run : HubRun cfg wakeFd taken h)
    (keeps : Within (EachEvent PlaneState.KeepsNid) taken) (p : Plane) :
    (∀ i sid, (p, .closed i sid) ∈ trace taken →
      (∀ cmd vec, (h.plane p).router.subTable cmd = some vec → ∀ sub ∈ vec, sub.sid ≠ sid) ∧
        ∀ nid route, (h.plane p).router.nidMap nid = some route → route.sid ≠ sid) ∧
      ∀ before origin nid route later,
        trace taken = before ++ (p, .resolved origin nid (some route)) :: later →
        ∀ i, (p, .closed i route.sid) ∉ before := by
  obtain ⟨legal, agrees⟩ := hubRun_follows run p
  have along := hubRun_along easy_keepsNid
    (fun _ _ _ agrees keeps => keepsNid_registry agrees keeps) run keeps p
  have router : (after (onPlane p (trace taken))).router = (h.plane p).router := agrees.router
  constructor
  · intro i sid closed
    have gone := gone_of_closed legal (mem_onPlane.mpr closed)
    constructor
    · rintro cmd vec found sub member rfl
      rw [← router] at found
      obtain ⟨j, id, live, _⟩ :=
        subscriber_live legal (Router.mem_findSubscribers.mpr ⟨vec, found, member⟩)
      rw [gone] at live
      cases live
    · rintro nid route found rfl
      rw [← router] at found
      obtain ⟨j, id, live, _⟩ := routes_lead legal along found
      rw [gone] at live
      cases live
  · intro before origin nid route later split i closed
    rw [split, onPlane_split] at legal along
    have found := along_at Registry.apply legal
    have gone := gone_of_closed ((along_append ..).mp legal).1 (mem_onPlane.mpr closed)
    obtain ⟨j, id, live, _⟩ := routes_lead ((along_append ..).mp legal).1
      ((along_append ..).mp along).1 found.symm
    rw [gone] at live
    cases live

/-- A session binds nid 1, binds nid 2 and closes: the route of nid 1 still leads to it. -/
theorem closed_session_keeps_stale_route :
    ∃ taken h, HubRun (smallConfig 4) smallWakeFd taken h ∧
      (Plane.kForward, Event.closed 0 1) ∈ trace taken ∧
      (h.plane .kForward).router.nidMap 1 = some ⟨1, 0⟩ := by
  obtain ⟨taken, h, run, _, seen⟩ := small_run 4 (fun _ => true)
    (connecting .kForward 0 smallWakeFd 5 ++ authenticating .kForward 0 5 1 ++
      authenticating .kForward 0 5 2 ++ ending .kForward 0 5)
    (fun x => decide ((Plane.kForward, Event.closed 0 1) ∈ x.2) &&
      decide ((x.1.plane .kForward).router.nidMap 1 = some ⟨1, 0⟩)) (by decide +kernel)
  simp only [Bool.and_eq_true, decide_eq_true_eq] at seen
  exact ⟨taken, h, run, seen.1, seen.2⟩

theorem closed_session_leaves_no_trace_once :
    ∃ taken h, HubRun (smallConfig 4) smallWakeFd taken h ∧
      (Plane.kForward, Event.closed 0 1) ∈ trace taken ∧
      ∀ nid route, (h.plane .kForward).router.nidMap nid = some route → route.sid ≠ 1 := by
  obtain ⟨taken, h, run, inside, seen⟩ := small_run 4 bindsOnce
    (connecting .kForward 0 smallWakeFd 5 ++ authenticating .kForward 0 5 1 ++ ending .kForward 0 5)
    (fun x => decide ((Plane.kForward, Event.closed 0 1) ∈ x.2)) (by decide +kernel)
  have closed := of_decide_eq_true seen
  have clean := closed_session_leaves_no_trace run
    (inside.mono fun _ => bindsOnce_keepsNid) .kForward
  exact ⟨taken, h, run, closed, (clean.1 0 1 closed).2⟩

/-- Where no session that holds the route of its nid goes or takes another nid while
another open session has that nid, `FindNidRoute` of every connected nid names an open,
authenticated session with that nid and the reactor it is at. -/
theorem connected_nid_is_routable (run : HubRun cfg wakeFd taken h)
    (spares : Within (EachEvent PlaneState.SparesHolders) taken) (p : Plane) {sid : Nat}
    {nid : UInt32} (connected : (h.plane p).OpenAs sid nid) :
    ∃ (route : NidRoute) (i : Nat) (session : Session),
      (h.plane p).router.findNidRoute nid = some route ∧ route.reactorIdx = i ∧
        ((h.plane p).reactor i).sessions route.sid = some session ∧ session.authed = true ∧
        session.nid = nid := by
  obtain ⟨legal, agrees⟩ := hubRun_follows run p
  have along := hubRun_along easy_sparesHolders
    (fun _ _ _ agrees spares => sparesHolders_registry agrees spares) run spares p
  obtain ⟨route, found, i, id, live, authed, same, reactor⟩ :=
    connected_lead legal along ((openAs_iff agrees sid nid).mpr connected)
  obtain ⟨session, there, rfl⟩ := session_of_live agrees live
  refine ⟨route, i, session, ?_, reactor, there, authed, same⟩
  rw [agrees.router] at found
  exact found

/-- Two sessions bind nid 7 and the second, which holds the route, closes: the first is
still open and no route leads to it. -/
theorem surviving_session_is_unroutable :
    ∃ taken h, HubRun (smallConfig 4) smallWakeFd taken h ∧ (h.plane .kForward).OpenAs 1 7 ∧
      (h.plane .kForward).router.findNidRoute 7 = none := by
  obtain ⟨taken, h, run, _, seen⟩ := small_run 4 (fun _ => true)
    (connecting .kForward 0 smallWakeFd 5 ++ authenticating .kForward 0 5 7 ++
      connecting .kForward 0 smallWakeFd 6 ++ authenticating .kForward 0 6 7 ++
      ending .kForward 0 6)
    (fun x => (((x.1.plane .kForward).reactor 0).sessions 1).any
        (fun session => session.authed && session.nid == 7) &&
      decide ((x.1.plane .kForward).router.findNidRoute 7 = none)) (by decide +kernel)
  simp only [Bool.and_eq_true, decide_eq_true_eq, Option.any_eq_true, beq_iff_eq] at seen
  obtain ⟨⟨session, found, authed, nid⟩, none⟩ := seen
  exact ⟨taken, h, run, ⟨0, session, found, authed, nid⟩, none⟩

theorem connected_nid_is_routable_shared :
    ∃ taken h, HubRun (smallConfig 4) smallWakeFd taken h ∧ (h.plane .kForward).OpenAs 1 7 ∧
      ∃ route, (h.plane .kForward).router.findNidRoute 7 = some route := by
  obtain ⟨taken, h, run, inside, seen⟩ := small_run 4 (fun x => bindsOnce x && closesNone x)
    (connecting .kForward 0 smallWakeFd 5 ++ authenticating .kForward 0 5 7 ++
      connecting .kForward 0 smallWakeFd 6 ++ authenticating .kForward 0 6 7)
    (fun x => (((x.1.plane .kForward).reactor 0).sessions 1).any
        (fun session => session.authed && session.nid == 7)) (by decide +kernel)
  simp only [Bool.and_eq_true, Option.any_eq_true, beq_iff_eq] at seen
  obtain ⟨session, found, authed, nid⟩ := seen
  have connected : (h.plane .kForward).OpenAs 1 7 := ⟨0, session, found, authed, nid⟩
  obtain ⟨route, _, _, found, _⟩ := connected_nid_is_routable run
    (inside.mono fun _ => bindsOnce_sparesHolders) .kForward connected
  exact ⟨taken, h, run, connected, route, found⟩

end Results

end HiImCore.Hub
