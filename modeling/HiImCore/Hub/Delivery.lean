import HiImCore.Hub.Flow
import HiImCore.Hub.History
import HiImCore.Hub.Refinement

/-! Forwarding from one plane to the other: where frames come from, where they go, in
which order and how often. -/

namespace HiImCore.Hub

open Pipeline Replay Transition Wire

section Signals

variable {p : Plane} {history : List Entry}

theorem mem_signals {x : Signal Origin Dest} :
    x ∈ signals p history ↔ (∃ e, (p, e) ∈ history ∧ inward e = some x) ∨
      ∃ e, (p.peer, e) ∈ history ∧ outward e = some x := by
  simp only [signals, List.mem_filterMap]
  constructor
  · rintro ⟨⟨q, e⟩, member, shown⟩
    split at shown
    · rename_i here
      exact Or.inl ⟨e, here ▸ member, shown⟩
    · rename_i other
      exact Or.inr ⟨e, Plane.eq_peer other ▸ member, shown⟩
  · rintro (⟨e, member, shown⟩ | ⟨e, member, shown⟩)
    · exact ⟨(p, e), member, by simpa using shown⟩
    · exact ⟨(p.peer, e), member, by simpa [Plane.peer_ne] using shown⟩

theorem received_of_arrived {i : Nat} {o : Origin} (arrived : .arrived i o ∈ signals p history) :
    (p, .received i o) ∈ history := by
  rcases mem_signals.mp arrived with ⟨e, member, shown⟩ | ⟨e, member, shown⟩
  · cases e <;> cases shown
    exact member
  · cases e <;> cases shown

theorem lookup_of_expanded {o : Origin} {ds : List Dest}
    (expanded : .expanded o ds ∈ signals p history) :
    ∃ e, (p.peer, e) ∈ history ∧ outward e = some (.expanded o ds) := by
  rcases mem_signals.mp expanded with ⟨e, member, shown⟩ | found
  · cases e <;> cases shown
  · exact found

theorem mem_of_outward {e : Event} {x : Signal Origin Dest} (member : (p.peer, e) ∈ history)
    (shown : outward e = some x) : x ∈ signals p history :=
  mem_signals.mpr (Or.inr ⟨e, member, shown⟩)

theorem signals_split {e : Event} {x : Signal Origin Dest} {before later : List Entry}
    (shown : outward e = some x) :
    signals p (before ++ (p.peer, e) :: later) = signals p before ++ x :: signals p later := by
  rw [signals_append]
  simp [signals, Plane.peer_ne, shown]

theorem filterMap_signals_own {β : Type} {f : Signal Origin Dest → Option β}
    (deaf : ∀ e, (outward e).bind f = none) :
    (signals p history).filterMap f = (onPlane p history).filterMap fun e => (inward e).bind f := by
  rw [signals, onPlane, List.filterMap_filterMap, List.filterMap_filterMap]
  refine List.filterMap_congr fun entry _ => ?_
  by_cases here : entry.1 = p
  · simp only [if_pos here, Option.bind_some]
  · simp only [if_neg here, Option.bind_none, deaf]

theorem filterMap_signals_peer {β : Type} {f : Signal Origin Dest → Option β}
    (deaf : ∀ e, (inward e).bind f = none) :
    (signals p history).filterMap f =
      (onPlane p.peer history).filterMap fun e => (outward e).bind f := by
  rw [signals, onPlane, List.filterMap_filterMap, List.filterMap_filterMap]
  refine List.filterMap_congr fun entry _ => ?_
  by_cases here : entry.1 = p
  · have elsewhere : entry.1 ≠ p.peer := here ▸ (Plane.peer_ne entry.1).symm
    simp only [if_pos here, if_neg elsewhere, Option.bind_none, deaf]
  · simp only [if_neg here, if_pos (Plane.eq_peer here), Option.bind_some]

def receivedFrames (p : Plane) (history : List Entry) : List Origin :=
  (onPlane p history).filterMap fun | .received _ o => some o | _ => none

def poppedFrames (p : Plane) (history : List Entry) : List (Tagged OutboundFrame) :=
  (onPlane p history).filterMap fun | .sendPopped _ frame _ => some frame | _ => none

theorem arrivals_signals : arrivals (signals p history) = receivedFrames p history := by
  rw [arrivals, filterMap_signals_own fun e => by cases e <;> rfl]
  refine List.filterMap_congr fun e _ => ?_
  cases e <;> rfl

theorem allDeliveries_signals :
    allDeliveries (signals p history) = (poppedFrames p.peer history).map frameLabel := by
  rw [allDeliveries, filterMap_signals_peer fun e => by cases e <;> rfl, poppedFrames,
    List.map_filterMap]
  refine List.filterMap_congr fun e _ => ?_
  cases e <;> rfl

end Signals

section Lookups

variable {cfg : HubConfig} {wakeFd : Plane → Nat → Int}
  {taken : List (Taken HubServer Action Entry)} {h : HubServer}

theorem WorkerEffect.lookup {p : Plane} {w : Nat} {own peer : PlaneState} {s : WorkerStep}
    {e : Event} {o : Origin} {ds : List Dest} (effect : WorkerEffect cfg p w own peer s)
    (seen : e ∈ s.peer) (looks : outward e = some (.expanded o ds)) :
    ∃ msg, own.worker w = .handle msg ∧
      (p = .kForward ∧ (∃ subs, e = .expanded msg.origin msg.val.type subs) ∨
        p = .kBackend ∧ Im.readDestNid msg.val.payload ≠ 0 ∧
          ∃ route, e = .resolved msg.origin (Im.readDestNid msg.val.payload) route) := by
  have returned : ∀ {origin : Origin} {tail : List Event}, Returns origin tail → e ∉ tail := by
    intro origin tail results member
    obtain ⟨status, rfl⟩ := results e member
    cases looks
  cases effect with
  | idle | took | ignored | retried => cases seen
  | published was plane results =>
      refine ⟨_, was, Or.inl ⟨plane, ?_⟩⟩
      rcases List.mem_cons.mp seen with rfl | rest
      · exact ⟨_, rfl⟩
      · exact absurd rest (returned results)
  | unrouted was plane dest results =>
      refine ⟨_, was, Or.inr ⟨plane, dest, ?_⟩⟩
      rcases List.mem_cons.mp seen with rfl | rest
      · exact ⟨_, rfl⟩
      · exact absurd rest (returned results)
  | routed was plane dest found =>
      exact ⟨_, was, Or.inr ⟨plane, dest, _, List.mem_singleton.mp seen⟩⟩
  | pushed was room results =>
      rcases List.mem_cons.mp seen with rfl | rest
      · cases looks
      · exact absurd rest (returned results)
  | gaveUp was results => exact absurd seen (returned results)

theorem lookup_genuine (run : HubRun cfg wakeFd taken h) {q : Plane} {e : Event} {o : Origin}
    {ds : List Dest} (seen : (q, e) ∈ trace taken) (looks : outward e = some (.expanded o ds)) :
    q = .kBackend ∧ (∃ subs, e = .expanded o (headerFieldHost o.frame.header WireHeader.type) subs) ∨
      q = .kForward ∧ Im.readDestNid o.frame.payload ≠ 0 ∧
        ∃ route, e = .resolved o (Im.readDestNid o.frame.payload) route := by
  obtain ⟨before, later, split⟩ := List.append_of_mem seen
  obtain ⟨front, x, back, first, last, rfl, inside, _⟩ := trace_split split
  obtain ⟨earlier, post, step⟩ := run.at
  have effect := hubRun_effect earlier step
  have role : e.role = some .worker := by
    cases e <;> first | rfl | cases looks
  obtain ⟨p, w, s, _, effect, place⟩ :=
    effect.of_worker (q := q) (e := e) (by rw [inside]; simp) role
  rcases place with ⟨_, own⟩ | ⟨rfl, peer⟩
  · rw [List.filterMap_eq_nil_iff.mp effect.silent.1 e own] at looks
    cases looks
  · obtain ⟨msg, busy, kind⟩ := effect.lookup peer looks
    obtain ⟨_, type, payload⟩ :=
      (hubRun_genuine earlier p).worker w msg (congrArg Worker.message busy)
    rcases kind with ⟨rfl, subs, rfl⟩ | ⟨rfl, dest, route, rfl⟩
    · cases looks
      rw [← type]
      exact Or.inl ⟨rfl, subs, rfl⟩
    · cases looks
      rcases payload with kept | lost
      · rw [← kept]
        exact Or.inr ⟨rfl, dest, route, rfl⟩
      · exact absurd (by rw [lost, Im.readDestNid_nil]) dest

theorem allowed_at (run : HubRun cfg wakeFd taken h) {q : Plane} {e : Event}
    {before later : List Entry} (split : trace taken = before ++ (q, e) :: later) :
    Registry.Legal .empty (onPlane q before) ∧ (after (onPlane q before)).Allows e := by
  have legal := (hubRun_follows run q).1
  rw [split, onPlane_split] at legal
  exact ⟨((along_append ..).mp legal).1, along_at Registry.apply legal⟩

theorem lookup_nodup (run : HubRun cfg wakeFd taken h) {q : Plane} {e : Event} {o : Origin}
    {ds : List Dest} (seen : (q, e) ∈ trace taken) (looks : outward e = some (.expanded o ds)) :
    (ds.map Dest.sid).Nodup := by
  obtain ⟨before, later, split⟩ := List.append_of_mem seen
  obtain ⟨legal, allowed⟩ := allowed_at run split
  cases e with
  | expanded origin cmd subs =>
      cases looks
      rw [List.map_map, show subs = _ from allowed]
      exact (router_unique legal).findSubscribers cmd
  | resolved origin nid route =>
      cases looks
      cases route <;> simp
  | _ => cases looks

end Lookups

section Origins

variable {cfg : HubConfig} {wakeFd : Plane → Nat → Int}
  {taken : List (Taken HubServer Action Entry)} {h : HubServer} {p : Plane}

theorem receivedNumbers_frames (k : Nat) (history : List Entry) :
    receivedNumbers k (onPlane p history) =
      ((receivedFrames p history).filter (·.sid == k)).map Origin.num := by
  rw [receivedFrames, List.filter_filterMap, List.map_filterMap]
  refine List.filterMap_congr fun e _ => ?_
  cases e with
  | received i o => by_cases mine : o.sid = k <;> simp [mine]
  | _ => rfl

theorem received_exactly {history : List Entry} (legal : Registry.Legal .empty (onPlane p history))
    {o : Origin} (seen : o ∈ receivedFrames p history) :
    (receivedFrames p history).filter (fun x => x.sid == o.sid && x.num == o.num) = [o] := by
  obtain ⟨n, numbers⟩ := numbers_range legal o.sid
  rw [receivedNumbers_frames] at numbers
  have few : ((receivedFrames p history).filter fun x => x.sid == o.sid && x.num == o.num).length ≤
      1 := by
    calc
      _ = ((((receivedFrames p history).filter (·.sid == o.sid)).map Origin.num).filter
            (· == o.num)).length := by
        rw [List.filter_map, List.length_map, List.filter_filter]
        simp only [Function.comp_apply, Bool.and_comm]
      _ = (List.range n).count o.num := by rw [numbers, List.count_eq_length_filter]
      _ ≤ 1 := List.nodup_iff_count_le_one.mp List.nodup_range o.num
  have member : o ∈ (receivedFrames p history).filter
      fun x => x.sid == o.sid && x.num == o.num := by
    simp [seen]
  generalize (receivedFrames p history).filter
    (fun x => x.sid == o.sid && x.num == o.num) = same at few member
  cases same with
  | nil => cases member
  | cons x rest =>
      obtain rfl := List.eq_nil_of_length_eq_zero (Nat.le_zero.mp (Nat.le_of_succ_le_succ few))
      rw [List.mem_singleton.mp member]

theorem mem_receivedFrames {history : List Entry} {i : Nat} {o : Origin}
    (received : (p, .received i o) ∈ history) : o ∈ receivedFrames p history :=
  List.mem_filterMap.mpr ⟨.received i o, mem_onPlane.mpr received, rfl⟩

theorem received_count (run : HubRun cfg wakeFd taken h) (o : Origin) :
    (arrivals (signals p (trace taken))).count o ≤ 1 := by
  rw [arrivals_signals]
  by_cases seen : o ∈ receivedFrames p (trace taken)
  · have exactly := received_exactly (hubRun_follows run p).1 seen
    rw [← List.count_filter (p := fun x => x.sid == o.sid && x.num == o.num) (by simp), exactly]
    simp
  · rw [List.count_eq_zero_of_not_mem seen]
    exact Nat.zero_le 1

theorem received_at_one (run : HubRun cfg wakeFd taken h) (k : Nat) :
    ∃ i, ∀ j o, .arrived j o ∈ signals p (trace taken) → o.sid = k → j = i := by
  have legal := (hubRun_follows run p).1
  by_cases some : ∃ i o, .arrived i o ∈ signals p (trace taken) ∧ o.sid = k
  · obtain ⟨i, o, arrived, rfl⟩ := some
    refine ⟨i, fun j other again same => ?_⟩
    exact received_same legal (mem_onPlane.mpr (received_of_arrived again))
      (mem_onPlane.mpr (received_of_arrived arrived)) same
  · exact ⟨0, fun j o arrived same => absurd ⟨j, o, arrived, same⟩ some⟩

theorem lookup_once (run : HubRun cfg wakeFd taken h) {e f : Event} {o : Origin}
    {ds es : List Dest} (first : (p.peer, e) ∈ trace taken)
    (looks : outward e = some (.expanded o ds)) (second : (p.peer, f) ∈ trace taken)
    (again : outward f = some (.expanded o es)) : ds = es := by
  obtain ⟨i, home⟩ := received_at_one (p := p) run o.sid
  exact (hubRun_flow run p).expanded_once (fun j arrived => home j o arrived rfl)
    (received_count run o) (mem_of_outward first looks) (mem_of_outward second again)

theorem popped_origin (run : HubRun cfg wakeFd taken h) {before later : List Entry} {i : Nat}
    {frame : Tagged OutboundFrame} {isOpen : Bool}
    (split : trace taken = before ++ (p.peer, .sendPopped i frame isOpen) :: later) :
    (receivedFrames p before).filter
        (fun o => o.sid == frame.origin.sid && o.num == frame.origin.num) = [frame.origin] ∧
      (∃ e ds, (p.peer, e) ∈ before ∧ outward e = some (.expanded frame.origin ds)) ∧
      ∀ e ds, (p.peer, e) ∈ trace taken → outward e = some (.expanded frame.origin ds) →
        (frameLabel frame).2 ∈ ds := by
  have flow := hubRun_flow run p
  rw [split, signals_split rfl] at flow
  have backs := flow.backs_front
  obtain ⟨_, ds, expanded, named⟩ := backs.posted (flow.backed rfl)
  obtain ⟨e, member, looks⟩ := lookup_of_expanded expanded
  obtain ⟨j, arrived⟩ := backs.expanded expanded
  refine ⟨received_exactly ?_ (mem_receivedFrames (received_of_arrived arrived)),
    ⟨e, ds, member, looks⟩, ?_⟩
  · have legal := (hubRun_follows run p).1
    rw [split, onPlane_append] at legal
    exact ((along_append ..).mp legal).1
  · intro f es seen again
    have here : (p.peer, e) ∈ trace taken := by
      rw [split]
      exact List.mem_append_left _ member
    rwa [lookup_once run seen again here looks]

theorem popped_once (run : HubRun cfg wakeFd taken h) (o : Origin) (D : Dest → Bool)
    (single : ∀ e ds, (p.peer, e) ∈ trace taken → outward e = some (.expanded o ds) →
      (ds.filter D).length ≤ 1) :
    ((poppedFrames p.peer (trace taken)).filter
      fun frame => frame.origin == o && D (frameLabel frame).2).length ≤ 1 := by
  obtain ⟨i, home⟩ := received_at_one (p := p) run o.sid
  have once := (hubRun_flow run p).delivered_once (fun j arrived => home j o arrived rfl)
    (received_count run o) (D := D) (fun ds expanded => by
      obtain ⟨e, member, looks⟩ := lookup_of_expanded expanded
      exact single e ds member looks)
  rw [allDeliveries_signals, List.filter_map, List.length_map] at once
  exact once

end Origins

section Results

variable {cfg : HubConfig} {wakeFd : Plane → Nat → Int}
  {taken : List (Taken HubServer Action Entry)} {h : HubServer}

theorem single_destination {ds : List Dest} (distinct : (ds.map Dest.sid).Nodup) (d : Nat) :
    (ds.filter (·.sid == d)).length ≤ 1 := by
  have once := List.nodup_iff_count_le_one.mp distinct d
  rwa [List.count_eq_length_filter, List.filter_map, List.length_map] at once

/-- The numbers of the frames that stem from session `s` of plane `p`, in the order in
which reactor `l` of the other plane pops them for session `d`. -/
def poppedNumbers (p : Plane) (l s d : Nat) (history : List Entry) : List Nat :=
  (onPlane p.peer history).filterMap fun
    | .sendPopped i frame _ =>
        if i = l ∧ frame.origin.sid = s ∧ frame.val.sid = d then some frame.origin.num else none
    | _ => none

theorem poppedNumbers_chosen (p : Plane) (l s d : Nat) (history : List Entry) :
    poppedNumbers p l s d history =
      (chosen (·.sid == s) (·.sid == d) (deliveries l (signals p history))).map Origin.num := by
  rw [deliveries, filterMap_signals_peer fun e => by cases e <;> rfl]
  simp only [chosen, poppedNumbers, List.filter_filterMap, List.map_filterMap]
  refine List.filterMap_congr fun e _ => ?_
  cases e with
  | sendPopped i frame isOpen =>
      by_cases lane : i = l <;> by_cases source : frame.origin.sid = s <;>
        by_cases dest : frame.val.sid = d <;> simp [outward, frameLabel, lane, source, dest]
  | _ => rfl

/-- Business frames keep their order on the way to a session: those of a session are
numbered as they are taken, and the numbers that the destination's reactor sees are
strictly increasing. -/
theorem flow_order_is_kept (run : HubRun cfg wakeFd taken h) (p : Plane) (l s d : Nat) :
    (∃ n, receivedNumbers s (onPlane p (trace taken)) = List.range n) ∧
      (poppedNumbers p l s d (trace taken)).Pairwise (· < ·) := by
  obtain ⟨n, numbers⟩ := numbers_range (hubRun_follows run p).1 s
  refine ⟨⟨n, numbers⟩, ?_⟩
  obtain ⟨i, home⟩ := received_at_one (p := p) run s
  have order := (hubRun_flow run p).ordered (A := (·.sid == s)) (D := (·.sid == d)) (l := l)
    (w := s % cfg.workers) (i := i) (fun o same => by rw [shardOf, beq_iff_eq.mp same])
    (fun j o arrived same => home j o arrived (beq_iff_eq.mp same))
    (fun o ds expanded _ => by
      obtain ⟨e, member, looks⟩ := lookup_of_expanded expanded
      exact single_destination (lookup_nodup run member looks) d)
  have numbered := order.map Origin.num
  rw [arrivals_signals, ← receivedNumbers_frames, numbers, ← poppedNumbers_chosen] at numbered
  exact List.pairwise_lt_range.sublist numbered

theorem flow_order_is_kept_published :
    ∃ taken h, HubRun (smallConfig 4) smallWakeFd taken h ∧
      poppedNumbers .kForward 0 1 1 (trace taken) = [0, 1] ∧
      (poppedNumbers .kForward 0 1 1 (trace taken)).Pairwise (· < ·) := by
  obtain ⟨taken, h, run, _, seen⟩ := small_run 4 (fun _ => true) publishing
    (fun x => poppedNumbers .kForward 0 1 1 x.2 == [0, 1]) (by decide +kernel)
  exact ⟨taken, h, run, beq_iff_eq.mp seen, (flow_order_is_kept run .kForward 0 1 1).2⟩

/-- The session that bound the nid last. -/
def LastBound (nid : UInt32) (sid : Nat) : List Event → Prop :=
  Since (fun e => ∃ i gid, e = .bound i sid gid nid) (fun e => ∃ i k gid, e = .bound i k gid nid)

/-- The session has been authenticated and is open. -/
def Authenticated (sid : Nat) : List Event → Prop :=
  Since (fun e => ∃ i gid nid, e = .bound i sid gid nid) (fun e => ∃ i, e = .closed i sid)

/-- The session has subscribed, and neither unsubscribed nor closed since. -/
def Subscribed (cmd : UInt32) (sid : Nat) : List Event → Prop :=
  Since (fun e => ∃ sub : Subscriber, e = .subscribed cmd sub ∧ sub.sid = sid)
    (fun e => e = .unsubscribed cmd sid ∨ ∃ i, e = .closed i sid)

/-- A frame that a reactor of the forward plane appends to a session stems from exactly
one message of the backend plane with a non-zero destination nid, which the session had
bound last when the route was looked up; every message yields at most one frame. -/
theorem downlink_is_never_misrouted (run : HubRun cfg wakeFd taken h) :
    (∀ before i frame later,
      trace taken = before ++ (.kForward, .sendPopped i frame true) :: later →
      (receivedFrames .kBackend before).filter
          (fun o => o.sid == frame.origin.sid && o.num == frame.origin.num) = [frame.origin] ∧
        Im.readDestNid frame.origin.frame.payload ≠ 0 ∧
        (∃ nid route, (.kForward, .resolved frame.origin nid route) ∈ before) ∧
        ∀ first nid route rest,
          trace taken = first ++ (.kForward, .resolved frame.origin nid route) :: rest →
          nid = Im.readDestNid frame.origin.frame.payload ∧
            LastBound nid frame.val.sid (onPlane .kForward first)) ∧
      ∀ m, ((poppedFrames .kForward (trace taken)).filter fun f => f.origin == m).length ≤ 1 := by
  have routes : ∀ e o ds, (Plane.kForward, e) ∈ trace taken →
      outward e = some (.expanded o ds) → Im.readDestNid o.frame.payload ≠ 0 ∧
        ∃ route, e = .resolved o (Im.readDestNid o.frame.payload) route ∧
          ds = route.toList.map NidRoute.dest := by
    intro e o ds seen looks
    rcases lookup_genuine run seen looks with ⟨wrong, _⟩ | ⟨_, dest, route, rfl⟩
    · cases wrong
    · cases looks
      exact ⟨dest, route, rfl, rfl⟩
  constructor
  · intro before i frame later split
    obtain ⟨exactly, ⟨e, ds, member, looks⟩, named⟩ := popped_origin (p := .kBackend) run split
    have here : (Plane.kForward, e) ∈ trace taken := by
      rw [split]
      exact List.mem_append_left _ member
    obtain ⟨dest, found, rfl, _⟩ := routes e frame.origin ds here looks
    refine ⟨exactly, dest, ⟨_, found, member⟩, ?_⟩
    intro first nid route rest lookup
    have seen : (Plane.kForward, Event.resolved frame.origin nid route) ∈ trace taken := by
      rw [lookup]
      simp
    obtain ⟨_, again, same, _⟩ := routes _ frame.origin _ seen rfl
    obtain ⟨_, rfl, rfl⟩ := Event.resolved.inj same
    refine ⟨rfl, ?_⟩
    have target := named _ _ seen rfl
    obtain ⟨legal, allowed⟩ := allowed_at run lookup
    cases route with
    | none => cases target
    | some route =>
        have same : frame.val.sid = route.sid :=
          congrArg Dest.sid (List.mem_singleton.mp target)
        rw [same]
        refine (route_since legal allowed.symm).imp ?_
        rintro e ⟨j, gid, rfl, _⟩
        exact ⟨j, gid, rfl⟩
  · intro m
    have once := popped_once (p := .kBackend) run m (fun _ => true) fun e ds seen looks => by
      obtain ⟨_, route, _, rfl⟩ := routes e m ds seen looks
      cases route <;> simp
    simp only [Bool.and_true] at once
    exact once

def Event.hands : Event → Bool
  | .sendPopped _ _ isOpen => isOpen
  | _ => false

theorem handed_of_any {q : Plane} {history : List Entry}
    (seen : (history.any fun entry => entry.1 == q && entry.2.hands) = true) :
    ∃ before i frame later, history = before ++ (q, .sendPopped i frame true) :: later := by
  obtain ⟨⟨plane, e⟩, member, shown⟩ := List.any_eq_true.mp seen
  obtain ⟨same, handed⟩ := Bool.and_eq_true_iff.mp shown
  obtain rfl : plane = q := beq_iff_eq.mp same
  cases e with
  | sendPopped i frame isOpen =>
      obtain rfl : isOpen = true := handed
      obtain ⟨before, later, split⟩ := List.append_of_mem member
      exact ⟨before, i, frame, later, split⟩
  | _ => cases handed

theorem downlink_is_never_misrouted_answer :
    ∃ taken h, HubRun (smallConfig 4) smallWakeFd taken h ∧
      ∃ i frame, (.kForward, .sendPopped i frame true) ∈ trace taken ∧
        Im.readDestNid frame.origin.frame.payload ≠ 0 ∧
        ((poppedFrames .kForward (trace taken)).filter
          fun f => f.origin == frame.origin).length ≤ 1 := by
  obtain ⟨taken, h, run, _, seen⟩ := small_run 4 (fun _ => true) answering
    (fun x => x.2.any fun entry => entry.1 == .kForward && entry.2.hands) (by decide +kernel)
  dsimp only at seen
  obtain ⟨before, i, frame, later, split⟩ := handed_of_any seen
  obtain ⟨routed, once⟩ := downlink_is_never_misrouted run
  refine ⟨taken, h, run, i, frame, ?_, (routed before i frame later split).2.1, once _⟩
  rw [split]
  simp

/-- A frame that a reactor of the backend plane appends to a session stems from exactly
one message of the forward plane, taken from an authenticated session; the session had
subscribed to its type when `Publish` took its snapshot, and gets at most one frame for
it. A message without subscribers yields no frame. -/
theorem uplink_reaches_subscribers_once (run : HubRun cfg wakeFd taken h) :
    (∀ before i frame later,
      trace taken = before ++ (.kBackend, .sendPopped i frame true) :: later →
      (receivedFrames .kForward before).filter
          (fun o => o.sid == frame.origin.sid && o.num == frame.origin.num) = [frame.origin] ∧
        (∀ first j rest, trace taken = first ++ (.kForward, .received j frame.origin) :: rest →
          Authenticated frame.origin.sid (onPlane .kForward first)) ∧
        (∃ cmd subs, (.kBackend, .expanded frame.origin cmd subs) ∈ before) ∧
        ∀ first cmd subs rest,
          trace taken = first ++ (.kBackend, .expanded frame.origin cmd subs) :: rest →
          cmd = headerFieldHost frame.origin.frame.header WireHeader.type ∧
            Subscribed cmd frame.val.sid (onPlane .kBackend first)) ∧
      (∀ m d, ((poppedFrames .kBackend (trace taken)).filter
        fun f => f.origin == m && f.val.sid == d).length ≤ 1) ∧
      ∀ m cmd, (.kBackend, .expanded m cmd []) ∈ trace taken →
        ∀ frame, (.kBackend, .distPushed frame) ∈ trace taken → frame.origin ≠ m := by
  have snapshots : ∀ e o ds, (Plane.kBackend, e) ∈ trace taken →
      outward e = some (.expanded o ds) →
        ∃ subs, e = .expanded o (headerFieldHost o.frame.header WireHeader.type) subs := by
    intro e o ds seen looks
    rcases lookup_genuine run seen looks with ⟨_, found⟩ | ⟨wrong, _⟩
    · exact found
    · cases wrong
  refine ⟨?_, ?_, ?_⟩
  · intro before i frame later split
    obtain ⟨exactly, ⟨e, ds, member, looks⟩, named⟩ := popped_origin (p := .kForward) run split
    have here : (Plane.kBackend, e) ∈ trace taken := by
      rw [split]
      exact List.mem_append_left _ member
    obtain ⟨subs, rfl⟩ := snapshots e frame.origin ds here looks
    refine ⟨exactly, ?_, ⟨_, subs, member⟩, ?_⟩
    · intro first j rest taken
      obtain ⟨legal, id, live, authed, _⟩ := allowed_at run taken
      exact authed_since legal live authed
    · intro first cmd vec rest lookup
      have seen : (Plane.kBackend, Event.expanded frame.origin cmd vec) ∈ trace taken := by
        rw [lookup]
        simp
      obtain ⟨_, same⟩ := snapshots _ frame.origin _ seen rfl
      refine ⟨(Event.expanded.inj same).2.1, ?_⟩
      obtain ⟨legal, allowed⟩ := allowed_at run lookup
      obtain ⟨sub, inside, target⟩ := List.mem_map.mp (named _ _ seen rfl)
      have same : frame.val.sid = sub.sid := congrArg Dest.sid target.symm
      rw [show vec = _ from allowed] at inside
      rw [same]
      exact (subscriber_since legal inside).imp fun e now => ⟨sub, now, rfl⟩
  · intro m d
    exact popped_once (p := .kForward) run m (·.sid == d) fun e ds seen looks =>
      single_destination (lookup_nodup run seen looks) d
  · rintro m cmd snapshot frame pushed rfl
    obtain ⟨ds, expanded, named⟩ :=
      (hubRun_flow run .kForward).backs.spooled (mem_of_outward (p := .kForward) pushed rfl)
    obtain ⟨e, seen, looks⟩ := lookup_of_expanded expanded
    rw [lookup_once (p := .kForward) run seen looks snapshot rfl] at named
    cases named

theorem uplink_reaches_subscribers_once_published :
    ∃ taken h, HubRun (smallConfig 4) smallWakeFd taken h ∧
      ∃ i frame, (.kBackend, .sendPopped i frame true) ∈ trace taken ∧
        (∃ cmd subs, (.kBackend, .expanded frame.origin cmd subs) ∈ trace taken) ∧
        ((poppedFrames .kBackend (trace taken)).filter
          fun f => f.origin == frame.origin && f.val.sid == frame.val.sid).length ≤ 1 := by
  obtain ⟨taken, h, run, _, seen⟩ := small_run 4 (fun _ => true) publishing
    (fun x => x.2.any fun entry => entry.1 == .kBackend && entry.2.hands) (by decide +kernel)
  dsimp only at seen
  obtain ⟨before, i, frame, later, split⟩ := handed_of_any seen
  obtain ⟨reached, once, _⟩ := uplink_reaches_subscribers_once run
  obtain ⟨_, _, ⟨cmd, subs, snapshot⟩, _⟩ := reached before i frame later split
  refine ⟨taken, h, run, i, frame, ?_, ⟨cmd, subs, ?_⟩, once _ _⟩
  · rw [split]
    simp
  · rw [split]
    exact List.mem_append_left _ snapshot

end Results

end HiImCore.Hub
