import HiImCore.Hub.Intake
import HiImCore.Hub.Output
import Mathlib.Data.List.Forall2

/-! From client to client: the bytes that one sends, and the frames that the other pops. -/

namespace HiImCore.Hub

open Pipeline Replay Transition Wire

section Homes

variable {history : List Event} {k : Nat}

theorem home_stays {g : Registry} {e : Event} {l : Nat} (allowed : g.Allows e)
    (home : (∃ id, g.conn k = .live l id) ∨ g.conn k = .gone) :
    (∃ id, (g.apply e).conn k = .live l id) ∨ (g.apply e).conn k = .gone := by
  rcases home with ⟨id, live⟩ | gone
  · exact live_stays allowed live
  · exact .inr (gone_stays allowed gone)

theorem one_home (legal : Registry.Legal .empty history) (place : Event → Option Nat)
    (needs : ∀ (g : Registry) e i, place e = some i → g.Allows e → ∃ id, g.conn k = .live i id) :
    ∃ l, ∀ e ∈ history, ∀ i, place e = some i → i = l := by
  have strong : (∀ e ∈ history, place e = none) ∨
      ∃ l, (∀ e ∈ history, ∀ i, place e = some i → i = l) ∧
        ((∃ id, (after history).conn k = .live l id) ∨ (after history).conn k = .gone) := by
    refine along_invariant Registry.apply
      (fun past g => (∀ e ∈ past, place e = none) ∨
        ∃ l, (∀ e ∈ past, ∀ i, place e = some i → i = l) ∧
          ((∃ id, g.conn k = .live l id) ∨ g.conn k = .gone)) legal (.inl nofun) ?_
    intro past g e _ _ known allowed
    cases placed : place e with
    | none =>
        rcases known with silent | ⟨l, same, home⟩
        · refine .inl (List.forall_mem_append.mpr ⟨silent, ?_⟩)
          exact List.forall_mem_singleton.mpr placed
        · refine .inr ⟨l, List.forall_mem_append.mpr ⟨same, ?_⟩, home_stays allowed home⟩
          refine List.forall_mem_singleton.mpr fun i here => ?_
          rw [placed] at here
          cases here
    | some i =>
        obtain ⟨id, live⟩ := needs g e i placed allowed
        have now : ∀ j, place e = some j → j = i := by
          intro j here
          rw [placed] at here
          exact (Option.some.inj here).symm
        refine .inr ⟨i, List.forall_mem_append.mpr ⟨?_, List.forall_mem_singleton.mpr now⟩,
          home_stays allowed (.inl ⟨id, live⟩)⟩
        rcases known with silent | ⟨l, same, home⟩
        · intro f member j here
          rw [silent f member] at here
          cases here
        · have equal : l = i := by
            rcases home with ⟨id', live'⟩ | gone
            · rw [live] at live'
              exact (Conn.live.inj live').1.symm
            · rw [live] at gone
              cases gone
          exact equal ▸ same
  rcases strong with silent | ⟨l, same, _⟩
  · refine ⟨0, fun e member i here => ?_⟩
    rw [silent e member] at here
    cases here
  · exact ⟨l, same⟩

end Homes

section Passage

variable {cfg : HubConfig} {wakeFd : Plane → Nat → Int}
  {taken : List (Taken HubServer Action Entry)} {h : HubServer}

theorem filterMap_sublist {α β : Type} {f g : α → Option β} {xs : List α}
    (implies : ∀ x y, x ∈ xs → f x = some y → g x = some y) :
    (xs.filterMap f).Sublist (xs.filterMap g) := by
  induction xs with
  | nil => exact List.Sublist.refl _
  | cons x rest ih =>
      have later := ih fun y z member => implies y z (List.mem_cons_of_mem x member)
      cases shown : f x with
      | none =>
          rw [List.filterMap_cons_none shown]
          refine later.trans ?_
          cases more : g x with
          | none => rw [List.filterMap_cons_none more]
          | some z =>
              rw [List.filterMap_cons_some more]
              exact List.sublist_cons_self _ _
      | some y =>
          rw [List.filterMap_cons_some shown,
            List.filterMap_cons_some (implies x y List.mem_cons_self shown)]
          exact later.cons_cons y

def poppedAt (k : Nat) : Event → Option Nat
  | .sendPopped i frame true => if frame.val.sid = k then some i else none
  | _ => none

theorem poppedAt_live {k i : Nat} {e : Event} (g : Registry) (placed : poppedAt k e = some i)
    (allowed : g.Allows e) : ∃ id, g.conn k = .live i id := by
  unfold poppedAt at placed
  split at placed
  · split at placed
    · rename_i same
      obtain rfl := Option.some.inj placed
      rw [← same]
      exact allowed.mp rfl
    · cases placed
  · cases placed

theorem deliveredTo_ordered (run : HubRun cfg wakeFd taken h) (q : Plane) (a k : Nat) :
    ((deliveredTo k (onPlane q.peer (trace taken))).filter (·.sid == a)).Sublist
      ((receivedFrames q (trace taken)).filter (·.sid == a)) := by
  obtain ⟨l, home⟩ := one_home (hubRun_follows run q.peer).1 (poppedAt k)
    (fun g e i => poppedAt_live g)
  obtain ⟨i, source⟩ := received_at_one (p := q) run a
  have order := (hubRun_flow run q).ordered (A := (·.sid == a)) (D := (·.sid == k)) (l := l)
    (w := a % cfg.workers) (i := i) (fun o same => by rw [shardOf, beq_iff_eq.mp same])
    (fun j o arrived same => source j o arrived (beq_iff_eq.mp same))
    (fun o ds expanded _ => by
      obtain ⟨e, member, looks⟩ := lookup_of_expanded expanded
      exact single_destination (lookup_nodup run member looks) k)
  rw [arrivals_signals] at order
  refine List.Sublist.trans ?_ order
  rw [deliveries, filterMap_signals_peer fun e => by cases e <;> rfl]
  simp only [chosen, deliveredTo, List.filter_filterMap, List.map_filterMap]
  refine filterMap_sublist fun e o member shown => ?_
  cases e with
  | sendPopped j frame isOpen =>
      cases isOpen with
      | false => cases shown
      | true =>
          by_cases mine : frame.val.sid = k ∧ frame.val.bytes ≠ []
          · have lane : j = l := home _ member j (if_pos mine.1)
            by_cases wanted : frame.origin.sid = a <;> simp_all [outward, frameLabel]
          · simp [mine] at shown
  | _ => cases shown

theorem handled_flag (run : HubRun cfg wakeFd taken h) {p : Plane} :
    (∀ k frame, (p, .system k frame) ∈ trace taken →
      headerFieldHost frame.header WireHeader.flag = kFlagSys) ∧
    ∀ i o, (p, .received i o) ∈ trace taken →
      headerFieldHost o.frame.header WireHeader.flag ≠ kFlagSys := by
  constructor
  · intro k frame seen
    obtain ⟨_, _, j, events, t, _, here, effect, _⟩ := reactor_step_of run seen rfl
    cases effect with
    | system pops flag answered =>
        rcases List.mem_cons.mp here with same | rest
        · obtain ⟨_, rfl⟩ := Event.system.inj same
          exact flag
        · cases answered <;> simp at rest
    | sent front found => split at here <;> simp at here
    | _ => simp at here
  · intro i o seen
    obtain ⟨_, _, j, events, t, _, here, effect, _⟩ := reactor_step_of run seen rfl
    cases effect with
    | received pops flag authed free =>
        obtain ⟨_, rfl⟩ := Event.received.inj (List.mem_singleton.mp here)
        exact flag
    | system pops flag answered => cases answered <;> simp at here
    | sent front found => split at here <;> simp at here
    | _ => simp at here

theorem receivedFrames_handled (run : HubRun cfg wakeFd taken h) (p : Plane) (k : Nat) :
    ((receivedFrames p (trace taken)).filter (·.sid == k)).map Origin.frame =
      (handledFrames k (onPlane p (trace taken))).filter
        (fun view => headerFieldHost view.header WireHeader.flag != kFlagSys) := by
  rw [receivedFrames, handledFrames, List.filter_filterMap, List.filter_filterMap,
    List.map_filterMap]
  refine List.filterMap_congr fun e member => ?_
  obtain ⟨system, business⟩ := handled_flag (p := p) run
  cases e with
  | system sid frame =>
      have flag := system sid frame (mem_onPlane.mp member)
      by_cases mine : sid = k <;> simp [mine, flag, Option.filter_some]
  | received i o =>
      have flag := business i o (mem_onPlane.mp member)
      by_cases mine : o.sid = k <;> simp [mine, flag, Option.filter_some]
  | _ => rfl

/-- A business frame that arrives has the type of the frame that was sent, and its payload or none. -/
def ArrivesAs (sent popped : Frame) : Prop :=
  popped.flag = kFlagExp ∧ popped.type = sent.type ∧
    (popped.payload = sent.payload ∨ popped.payload = [])

/-- The entries of a log that copy frames of session `a`. -/
def copiesOf (a : Nat) (log : List (Frame × Option Origin)) : List (Frame × Option Origin) :=
  log.filter fun x => x.2.any (·.sid == a)

theorem copiesOf_origins (a : Nat) (log : List (Frame × Option Origin)) :
    (copiesOf a log).filterMap Prod.snd = (log.filterMap Prod.snd).filter (·.sid == a) := by
  rw [copiesOf, List.filterMap_filter, List.filter_filterMap]
  refine List.filterMap_congr fun x _ => ?_
  obtain ⟨f, _ | o⟩ := x
  · rfl
  · by_cases mine : o.sid = a <;> simp [mine, Option.filter_some]

theorem copies_arrive {log : List (Frame × Option Origin)} {sent : List Frame}
    (copies : ∀ x ∈ log, ∃ o, x.2 = some o ∧ CopyOf o x.1)
    (views : (log.filterMap Prod.snd).map Origin.frame = sent.map Frame.view) :
    List.Forall₂ (fun x f => ArrivesAs f x.1) log sent := by
  induction log generalizing sent with
  | nil =>
      rw [List.map_eq_nil_iff.mp views.symm]
      exact .nil
  | cons x rest ih =>
      obtain ⟨o, origin, flag, type, payload⟩ := copies x List.mem_cons_self
      rw [List.filterMap_cons_some origin, List.map_cons] at views
      cases sent with
      | nil => cases views
      | cons f later =>
          obtain ⟨same, further⟩ := List.cons.inj views
          obtain ⟨sentType, _, _, _, sentPayload⟩ := f.view_shows
          refine .cons ⟨flag, ?_, ?_⟩ (ih (fun y member => copies y (.tail x member)) further)
          · rw [type, Origin.type, same, sentType]
          · rw [← sentPayload, ← same]
            exact payload

/-- The frames that a client pops are those of the log of its session, of which it is said what
they copy. A client that has sent these frames on the other plane finds its business frames
among them in order, each at most once and with none of them changed but for a lost payload. -/
theorem frames_pass_from_client_to_client (run : HubRun cfg wakeFd taken h) (q : Plane) (a k : Nat)
    (sent : List Frame) (t : Bytes) (cut : Unfinished t)
    (arrived : arrivedBytes q a taken <+: stream sent ++ t) (calls : List Call)
    (read : fed calls <+: writtenBytes k (onPlane q.peer (trace taken))) :
    ∃ log n, OutputLog q k (trace taken) log ∧
      (serve .empty calls).1 = (log.take n).map (fun x => x.1.view) ∧
      List.SublistForall₂ (fun x f => ArrivesAs f x.1) (copiesOf a (log.take n))
        (sent.filter (·.flag != kFlagSys)) := by
  obtain ⟨log, known⟩ := hubRun_output run q k
  obtain ⟨n, popped, _⟩ := known.popped run read
  refine ⟨log, n, known, popped, ?_⟩
  have handled := handled_initial run q a sent t cut arrived
  have copies : ∀ x ∈ copiesOf a (log.take n), ∃ o, x.2 = some o ∧ CopyOf o x.1 := by
    rintro ⟨f, _ | o⟩ member
    · simp [copiesOf] at member
    · exact ⟨o, rfl, (known.copies f o (List.mem_of_mem_take (List.mem_filter.mp member).1)).1⟩
  have origins : ((copiesOf a (log.take n)).filterMap Prod.snd).Sublist
      ((receivedFrames q (trace taken)).filter (·.sid == a)) := by
    rw [copiesOf_origins]
    refine List.Sublist.trans ?_ (deliveredTo_ordered run q a k)
    rw [← known.origins]
    exact ((List.take_sublist n log).filterMap _).filter _
  have business : ((handledFrames a (onPlane q (trace taken))).filter fun view =>
      headerFieldHost view.header WireHeader.flag != kFlagSys).Sublist
      ((sent.filter (·.flag != kFlagSys)).map Frame.view) := by
    have flags : (fun view : FrameView => headerFieldHost view.header WireHeader.flag != kFlagSys) ∘
        Frame.view = fun f => f.flag != kFlagSys := by
      funext f
      obtain ⟨_, _, flag, _⟩ := f.view_shows
      rw [Function.comp_apply, flag]
    rw [← flags, ← List.filter_map]
    exact handled.sublist.filter _
  have views := (origins.map Origin.frame).trans (receivedFrames_handled run q a ▸ business)
  obtain ⟨chosen, among, same⟩ := List.sublist_map_iff.mp views
  exact List.sublistForall₂_iff.mpr ⟨chosen, copies_arrive copies same, among⟩

theorem frames_pass_from_client_to_client_published :
    ∃ taken h, HubRun (smallConfig 4) smallWakeFd taken h ∧
      (writtenBytes 1 (onPlane .kBackend (trace taken))).length = 82 ∧
      ∃ log n, OutputLog .kForward 1 (trace taken) log ∧
        (serve .empty [.append (writtenBytes 1 (onPlane .kBackend (trace taken))), .tryPopFrame]).1 =
          (log.take n).map (fun x => x.1.view) ∧
        List.SublistForall₂ (fun x f => ArrivesAs f x.1) (copiesOf 1 (log.take n))
          (publisherFrames.filter (·.flag != kFlagSys)) := by
  obtain ⟨taken, h, run, seen⟩ := run_of_record (hubSystem (smallConfig 4)) (.init smallWakeFd)
    publishing
    (fun x => arrivedBytes .kForward 1 x.2 == stream publisherFrames &&
      (writtenBytes 1 (onPlane .kBackend (trace x.2))).length == 82) (by decide +kernel)
  simp only [Bool.and_eq_true, beq_iff_eq] at seen
  have sent : arrivedBytes .kForward 1 taken <+: stream publisherFrames ++ [] := by
    simp only [seen.1, List.append_nil, List.prefix_rfl]
  refine ⟨taken, h, run, seen.2, ?_⟩
  refine frames_pass_from_client_to_client run .kForward 1 1 publisherFrames [] nothing_unfinished sent _ ?_
  simp only [fed, List.append_nil]
  exact List.prefix_rfl

end Passage

end HiImCore.Hub
