import HiImCore.Hub.ReadableCall
import HiImCore.Hub.Refinement

/-! When a call of `HandleReadable` uses a session it has closed, and when it leaves a
complete frame behind. -/

namespace HiImCore.Hub

open Transition Wire

section Conditions

def nextPop (i : Nat) (pl : PlaneState) : Option (Session × FrameView × FrameBuffer) :=
  match (pl.reactor i).stack with
  | .popLoop k :: _ =>
      match (pl.reactor i).sessions k with
      | none => none
      | some s =>
          match s.fb.tryPopFrame with
          | (none, _) => none
          | (some frame, left) => some (s, frame, left)
  | _ => none

/-- The step fails to send, or pops a business frame of a session that is not
authenticated. -/
def closesUnnoticed (i : Nat) (x : Taken PlaneState CallAction Event) : Bool :=
  match x.act with
  | .own (.send .failed) | .own (.send (.sent 0)) => true
  | .own .run =>
      (nextPop i x.pre).any fun (s, frame, _) =>
        headerFieldHost frame.header WireHeader.flag != kFlagSys && !s.authed
  | _ => false

/-- The step pops an `UNSUB_REQ` that is refused and has a complete frame behind it. -/
def strandsFrame (i : Nat) (x : Taken PlaneState CallAction Event) : Bool :=
  match x.act with
  | .own .run =>
      (nextPop i x.pre).any fun (s, frame, left) =>
        headerFieldHost frame.header WireHeader.flag == kFlagSys && decide (UnsubRefused s frame) &&
          left.tryPopFrame.1.isSome
  | _ => false

/-- The results of the calls of `recv`, in order. -/
def recvResults : List (Taken PlaneState CallAction Event) → List RecvResult :=
  List.filterMap fun x => match x.act with | .own (.recv result) => some result | _ => none

variable {i k : Nat} {fd : Int} {rest : List Task} {stage next : Stage}
  {session after : Option Session} {s : Session} {pl : PlaneState} {input : ReactorInput}
  {events : List Event}

theorem nextPop_popping (reached : At i fd k rest .popping (some s) pl) :
    nextPop i pl = match s.fb.tryPopFrame with
      | (none, _) => none
      | (some frame, left) => some (s, frame, left) := by
  rw [nextPop, reached.stack]
  simp only [Stage.calls, List.singleton_append, reached.holds.found]

theorem nextPop_other (reached : At i fd k rest stage session pl) (popping : stage ≠ .popping)
    (returned : stage ≠ .returned) : nextPop i pl = none := by
  rw [nextPop, reached.stack]
  cases stage with
  | popping => exact absurd rfl popping
  | returned => exact absurd rfl returned
  | _ => rfl

theorem closesUnnoticed_iff (reached : At i fd k rest stage session pl)
    (advance : Advance stage session input next after) :
    closesUnnoticed i ⟨pl, .own input, events⟩ = true ↔ next = .popping ∧ after = none := by
  cases advance with
  | looked | retried | enqueuedOrLost | writable =>
      simp [closesUnnoticed, nextPop_other reached]
  | received | blocked => simp [closesUnnoticed]
  | ended s result finished => simp [closesUnnoticed]
  | drained s left popped => simp [closesUnnoticed, nextPop_popping reached, popped]
  | system s frame left stage next popped flag outcome =>
      cases outcome <;> simp [closesUnnoticed, nextPop_popping reached, popped, flag]
  | enqueued s frame left msg popped flag authed =>
      simp [closesUnnoticed, nextPop_popping reached, popped, authed]
  | expelled s frame left popped flag unauthed =>
      simp [closesUnnoticed, nextPop_popping reached, popped, flag, unauthed]
  | wrote s count => simp [closesUnnoticed]
  | flushed s input idle =>
      rcases idle with rfl | rfl <;> simp [closesUnnoticed, nextPop_other reached]
  | failed s input broken => rcases broken with rfl | rfl <;> simp [closesUnnoticed]

theorem strandsFrame_iff (reached : At i fd k rest stage session pl)
    (advance : Advance stage session input next after) (pops : stage = .popping) :
    strandsFrame i ⟨pl, .own input, events⟩ = true ↔
      next = .returned ∧ ∃ s, after = some s ∧ s.fb.tryPopFrame.1 ≠ none := by
  subst pops
  cases advance with
  | drained s left popped => simp [strandsFrame, nextPop_popping reached, popped]
  | system s frame left stage next popped flag outcome =>
      cases outcome with
      | refused refusal =>
          have same : UnsubRefused s frame := refusal
          simp [strandsFrame, nextPop_popping reached, popped, flag, same, Option.isSome_iff_ne_none]
      | closed other | acknowledged next other | ignored other =>
          have same : ¬ UnsubRefused s frame := other
          simp [strandsFrame, nextPop_popping reached, popped, same]
  | enqueued s frame left msg popped flag authed =>
      simp [strandsFrame, nextPop_popping reached, popped, flag]
  | expelled s frame left popped flag unauthed =>
      simp [strandsFrame, nextPop_popping reached, popped, flag]

theorem strandsFrame_other (reached : At i fd k rest stage session pl) (popping : stage ≠ .popping)
    (returned : stage ≠ .returned) : strandsFrame i ⟨pl, .own input, events⟩ = false := by
  cases input <;> simp [strandsFrame, nextPop_other reached popping returned]

end Conditions

section Reached

variable {cfg : HubConfig} {wakeFd : Plane → Nat → Int} {h : HubServer}
  {taken : List (Taken HubServer Action Entry)}

theorem hubRun_consistent (run : HubRun cfg wakeFd taken h) (p : Plane) (i : Nat) :
    ((h.plane p).reactor i).Consistent := by
  have agrees := (hubRun_follows run p).2
  refine ⟨fun k s found => ?_, fun k s found => ?_, fun fd k lookup => ?_⟩
  · exact agrees.sid i k s.key (present_of_found found)
  · exact agrees.fdOfKey i k s.key (present_of_found found)
  · obtain ⟨key, present, same⟩ := agrees.keyOfFd i fd k lookup
    rw [core_keys, Option.map_eq_some_iff] at present
    obtain ⟨s, found, rfl⟩ := present
    exact ⟨s, found, same⟩

end Reached

section SmallCall

/-- Where the reactor goes on after the only event of a poll. -/
def afterEvent : List Task := [.events [], .drainSendQueue, .poll]

def becomingReadable : List Action :=
  connecting .kForward 0 smallWakeFd 5 ++
    [.reactor .kForward 0 (.poll [⟨5, true, false⟩]), .reactor .kForward 0 .run]

def readableNow (pl : PlaneState) : Bool :=
  decide ((pl.reactor 0).stack = .handleReadable 5 :: afterEvent) && !pl.fault &&
    decide (5 ≠ pl.wakeFd 0) && decide ((pl.reactor 0).fdToSid 5 = some 1) &&
    ((pl.reactor 0).sessions 1).all fun s => s.fb.tryPopFrame.1.isNone

theorem small_call (ok : Taken PlaneState CallAction Event → Bool) (inputs : List ReactorInput)
    (P : PlaneState × List Event → Bool)
    (check : (follow (hubSystem (smallConfig 4)) (fun _ => true) (.init smallWakeFd)
      becomingReadable).any (fun x => readableNow (x.1.plane .kForward) &&
        (follow (callSystem (smallConfig 4) 0)
          (fun y => decide ((y.pre.reactor 0).stack ≠ afterEvent) && ok y)
          (x.1.plane .kForward) (inputs.map .own)).any P) = true) :
    ∃ before h taken final, HubRun (smallConfig 4) smallWakeFd before h ∧
      ReadableCall (smallConfig 4) 0 5 1 afterEvent (h.plane .kForward) taken final ∧
      (∀ s, ((h.plane .kForward).reactor 0).sessions 1 = some s → s.fb.tryPopFrame.1 = none) ∧
      Within (fun x => ok x = true) taken ∧ P (final, trace taken) = true := by
  obtain ⟨before, h, run, _, seen⟩ := small_run 4 (fun _ => true) becomingReadable _ check
  simp only [Bool.and_eq_true, readableNow, decide_eq_true_eq, Bool.not_eq_true'] at seen
  obtain ⟨⟨⟨⟨⟨called, sound⟩, notWake⟩, lookup⟩, empty⟩, goes⟩ := seen
  obtain ⟨taken, final, inner, inside, known⟩ := run_of_follow _ _ _ _ P goes
  have consistent := hubRun_consistent run .kForward 0
  refine ⟨before, h, taken, final, run, ?_, ?_, ?_, known⟩
  · refine ⟨called, sound, consistent, notWake, lookup, inner, fun x member => ?_⟩
    have both := inside x member
    simp only [Bool.and_eq_true, decide_eq_true_eq] at both
    exact both.1
  · intro s found
    rw [found] at empty
    exact Option.isNone_iff_eq_none.mp empty
  · intro x member
    have both := inside x member
    simp only [Bool.and_eq_true] at both
    exact both.2

def bareRequest (cmd : SysCmd) : Bytes := encodeFrame cmd.code 0 kFlagSys []

def keepingAlive : List ReactorInput :=
  [.run, .recv (.data (bareRequest .kKpaliveReq)), .run, .run, .send (.sent kWireHeaderSize), .run,
    .run, .recv .wouldBlock]

end SmallCall

section Results

variable {cfg : HubConfig} {i k : Nat} {fd : Int} {rest : List Task} {start final : PlaneState}
  {taken : List (Taken PlaneState CallAction Event)}

theorem exists_snoc {α : Type} {P : α → Prop} {past : List α} {x : α} :
    (∃ y ∈ past ++ [x], P y) ↔ (∃ y ∈ past, P y) ∨ P x := by
  simp [or_and_right, exists_or]

/-- A call that is over has used its session only while it was open if and only if no
send failed in it and no business frame was popped before the session was authenticated. -/
theorem session_is_used_while_open_iff (call : ReadableCall cfg i fd k rest start taken final)
    (finished : (final.reactor i).stack = rest ∨ final.fault = true) :
    (∀ j, .dangling i j ∉ trace taken) ↔ Within (fun x => closesUnnoticed i x = false) taken := by
  have within : Within (fun x => closesUnnoticed i x = false) taken ↔
      ¬ ∃ x ∈ taken, closesUnnoticed i x = true := by
    simp [Within]
  rw [within]
  -- the session is gone inside the loop exactly where such a step was taken
  have came := call.induct
    (fun past stage session => (stage = .popping ∧ session = none) ↔
      ∃ x ∈ past, closesUnnoticed i x = true)
    (fun s found => by simp)
    (fun past pre stage session input events next after reached known advance => by
      have present : session ≠ none := by
        cases advance <;> exact nofun
      have clean : ¬ ∃ x ∈ past, closesUnnoticed i x = true := fun bad =>
        present (known.mpr bad).2
      rw [exists_snoc, closesUnnoticed_iff reached advance]
      exact ⟨Or.inr, fun either => either.resolve_left clean⟩)
    (fun past pre state events stage session known => by
      rw [exists_snoc, known]
      simp [closesUnnoticed])
  cases came with
  | stage stage session reached calm known =>
      refine ⟨fun _ bad => ?_, fun _ => calm⟩
      obtain ⟨rfl, rfl⟩ := known.mpr bad
      rcases finished with back | fault
      · cases reached.returned back
      · rw [reached.holds.sound] at fault
        cases fault
  | dangled front back split known recorded fault stuck =>
      refine ⟨fun calm => absurd recorded (calm k), fun clean => ?_⟩
      obtain ⟨x, member, bad⟩ := known.mp ⟨rfl, rfl⟩
      exact absurd ⟨x, by rw [split]; exact List.mem_append_left _ member, bad⟩ clean

/-- A session that sends a business frame first is closed, and its buffer is read once more. -/
theorem expelled_session_is_used :
    ∃ before h taken final, HubRun (smallConfig 4) smallWakeFd before h ∧
      ReadableCall (smallConfig 4) 0 5 1 afterEvent (h.plane .kForward) taken final ∧
      .dangling 0 1 ∈ trace taken := by
  obtain ⟨before, h, taken, final, run, call, _, _, seen⟩ := small_call (fun _ => true)
    [.run, .recv (.data (businessFrame [1])), .run, .run]
    (fun x => decide (.dangling 0 1 ∈ x.2)) (by decide +kernel)
  exact ⟨before, h, taken, final, run, call, of_decide_eq_true seen⟩

theorem session_is_used_while_open_alive :
    ∃ before h taken final, HubRun (smallConfig 4) smallWakeFd before h ∧
      ReadableCall (smallConfig 4) 0 5 1 afterEvent (h.plane .kForward) taken final ∧
      (final.reactor 0).stack = afterEvent ∧ ∀ j, .dangling 0 j ∉ trace taken := by
  obtain ⟨before, h, taken, final, run, call, _, inside, finished⟩ :=
    small_call (fun x => !closesUnnoticed 0 x) keepingAlive
      (fun x => decide ((x.1.reactor 0).stack = afterEvent)) (by decide +kernel)
  have back : (final.reactor 0).stack = afterEvent := of_decide_eq_true finished
  refine ⟨before, h, taken, final, run, call, back, ?_⟩
  refine (session_is_used_while_open_iff call (Or.inl back)).mpr ?_
  exact inside.mono fun x fine => by simpa using fine

end Results

section Stranding

variable {cfg : HubConfig} {i k : Nat} {fd : Int} {rest : List Task} {start final : PlaneState}
  {taken past : List (Taken PlaneState CallAction Event)} {x : Taken PlaneState CallAction Event}
  {fb : FrameBuffer}

def Pending (session : Option Session) : Prop :=
  ∃ s, session = some s ∧ s.fb.tryPopFrame.1 ≠ none

def Strands (i : Nat) (past : List (Taken PlaneState CallAction Event)) : Prop :=
  ∃ x ∈ past, strandsFrame i x = true

def Fed (past : List (Taken PlaneState CallAction Event)) : Prop :=
  ∃ bytes, (recvResults past).head? = some (.data bytes)

def Handled (i : Nat) (fb : FrameBuffer) (past : List (Taken PlaneState CallAction Event))
    (session : Option Session) : Stage → Prop
  | .called => ¬ Strands i past ∧ recvResults past = [] ∧ session.map Session.fb = some fb
  | .receiving =>
      ¬ Strands i past ∧
        (recvResults past = [] ∧ session.map Session.fb = some fb ∨ Fed past ∧ ¬ Pending session)
  | .returned =>
      Pending session ↔ Strands i past ∨
        fb.tryPopFrame.1 ≠ none ∧ (recvResults past).head? = some .wouldBlock
  | _ => ¬ Strands i past ∧ Fed past

theorem recvResults_snoc :
    recvResults (past ++ [x]) = recvResults past ++ recvResults [x] :=
  List.filterMap_append

theorem Fed.snoc (fed : Fed past) : Fed (past ++ [x]) := by
  obtain ⟨bytes, head⟩ := fed
  refine ⟨bytes, ?_⟩
  rw [recvResults_snoc, List.head?_append, head]
  rfl

theorem Fed.not_blocked (fed : Fed past) : (recvResults past).head? ≠ some .wouldBlock := by
  obtain ⟨bytes, head⟩ := fed
  rw [head]
  exact nofun

theorem not_strands_snoc (clean : ¬ Strands i past) (calm : strandsFrame i x = false) :
    ¬ Strands i (past ++ [x]) := by
  rw [Strands, exists_snoc, calm]
  exact fun either => either.elim clean nofun

variable {stage next : Stage} {session after : Option Session} {pre state : PlaneState}
  {input : ReactorInput} {events : List Event}

theorem handled_inner (handled : ¬ Strands i past ∧ Fed past)
    (calm : strandsFrame i x = false) : ¬ Strands i (past ++ [x]) ∧ Fed (past ++ [x]) :=
  ⟨not_strands_snoc handled.1 calm, handled.2.snoc⟩

theorem handled_returned (handled : ¬ Strands i past ∧ Fed past)
    (strands : strandsFrame i x = true ↔ Pending after) :
    Handled i fb (past ++ [x]) after .returned := by
  have blocked : ¬ (fb.tryPopFrame.1 ≠ none ∧
      (recvResults (past ++ [x])).head? = some .wouldBlock) := fun both =>
    handled.2.snoc.not_blocked both.2
  have latest : Strands i (past ++ [x]) ↔ strandsFrame i x = true := by
    rw [Strands, exists_snoc]
    exact or_iff_right handled.1
  show Pending after ↔ _
  rw [← strands, or_iff_left blocked, latest]

theorem handled_popping (reached : At i fd k rest .popping session pre)
    (handled : ¬ Strands i past ∧ Fed past)
    (advance : Advance .popping session input next after) :
    Handled i fb (past ++ [⟨pre, .own input, events⟩]) after next := by
  have strands : strandsFrame i ⟨pre, .own input, events⟩ = true ↔ next = .returned ∧ Pending after :=
    strandsFrame_iff reached advance rfl
  have calm : next ≠ .returned → strandsFrame i ⟨pre, .own input, events⟩ = false := fun going =>
    Bool.eq_false_iff.mpr fun bad => going (strands.mp bad).1
  cases advance with
  | drained s left popped =>
      have inner := handled_inner handled (calm nofun)
      refine ⟨inner.1, Or.inr ⟨inner.2, ?_⟩⟩
      rintro ⟨t, same, complete⟩
      cases same
      exact complete (congrArg Prod.fst (FrameBuffer.tryPopFrame_none_again popped))
  | system s frame left stage next popped flag outcome =>
      cases outcome with
      | closed | refused =>
          exact handled_returned handled (strands.trans (and_iff_right rfl))
      | acknowledged | ignored => exact handled_inner handled (calm nofun)
  | enqueued | expelled => exact handled_inner handled (calm nofun)

theorem handled_receiving (reached : At i fd k rest .receiving session pre)
    (handled : Handled i fb past session .receiving)
    (advance : Advance .receiving session input next after) :
    Handled i fb (past ++ [⟨pre, .own input, events⟩]) after next := by
  have calm : strandsFrame i ⟨pre, .own input, events⟩ = false :=
    strandsFrame_other reached nofun nofun
  obtain ⟨clean, known⟩ := handled
  have kept := not_strands_snoc clean calm
  cases advance with
  | received s bytes =>
      refine ⟨kept, ?_⟩
      rcases known with ⟨silent, _⟩ | ⟨fed, _⟩
      · exact ⟨bytes, by rw [recvResults_snoc, silent]; rfl⟩
      · exact fed.snoc
  | blocked s =>
      show Pending (some s) ↔ _
      rw [or_iff_right kept]
      rcases known with ⟨silent, same⟩ | ⟨fed, none⟩
      · have buffer : s.fb = fb := Option.some.inj same
        have head : (recvResults (past ++ [⟨pre, .own (.recv .wouldBlock), events⟩])).head? =
            some .wouldBlock := by
          rw [recvResults_snoc, silent]
          rfl
        rw [and_iff_left head, ← buffer]
        exact ⟨fun ⟨t, found, complete⟩ => Option.some.inj found ▸ complete,
          fun complete => ⟨s, rfl, complete⟩⟩
      · exact iff_of_false none fun both => fed.snoc.not_blocked both.2
  | ended s result finished =>
      have gone : ¬ Pending none := fun ⟨_, absent, _⟩ => nomatch absent
      refine iff_of_false gone fun either => either.elim kept fun both => ?_
      rcases known with ⟨silent, _⟩ | ⟨fed, _⟩
      · have head := both.2
        rw [recvResults_snoc, silent] at head
        rcases finished with rfl | rfl <;> cases head
      · exact fed.snoc.not_blocked both.2

theorem Handled.own (reached : At i fd k rest stage session pre)
    (handled : Handled i fb past session stage) (advance : Advance stage session input next after) :
    Handled i fb (past ++ [⟨pre, .own input, events⟩]) after next := by
  cases stage with
  | popping => exact handled_popping reached handled advance
  | receiving => exact handled_receiving reached handled advance
  | called =>
      obtain ⟨clean, silent, same⟩ := handled
      have calm : strandsFrame i ⟨pre, .own input, events⟩ = false :=
        strandsFrame_other reached nofun nofun
      have kept := not_strands_snoc clean calm
      cases advance
      exact ⟨kept, Or.inl ⟨by rw [recvResults_snoc, silent]; rfl, same⟩⟩
  | pushing | writing | sending =>
      have calm : strandsFrame i ⟨pre, .own input, events⟩ = false :=
        strandsFrame_other reached nofun nofun
      have inner := handled_inner handled calm
      cases advance <;> exact inner
  | returned => cases advance

theorem Handled.others (handled : Handled i fb past session stage) :
    Handled i fb (past ++ [⟨pre, .others state, events⟩]) session stage := by
  have strands : Strands i (past ++ [⟨pre, .others state, events⟩]) ↔ Strands i past := by
    rw [Strands, exists_snoc]
    exact or_iff_left nofun
  have results : recvResults (past ++ [⟨pre, .others state, events⟩]) = recvResults past := by
    rw [recvResults_snoc]
    exact List.append_nil _
  cases stage <;> simpa only [Handled, Fed, strands, results] using handled

/-- A call that returns leaves no complete frame in the buffer of an open session if and
only if it refused no `UNSUB_REQ` with a complete frame behind it, and did not find a
complete frame in the buffer and nothing to receive. -/
theorem no_frame_is_stranded_iff (call : ReadableCall cfg i fd k rest start taken final)
    (returned : (final.reactor i).stack = rest) :
    (∀ s, (final.reactor i).sessions k = some s → s.fb.tryPopFrame.1 = none) ↔
      Within (fun x => strandsFrame i x = false) taken ∧
        ¬ ∃ s, (start.reactor i).sessions k = some s ∧ s.fb.tryPopFrame.1 ≠ none ∧
          (recvResults taken).head? = some .wouldBlock := by
  obtain ⟨s, found, _⟩ := call.consistent.keyOfFd fd k call.lookup
  have came := call.induct (fun past stage session => Handled i s.fb past session stage)
    (fun t same => by
      rw [found] at same
      cases same
      exact ⟨by simp [Strands], rfl, rfl⟩)
    (fun _ _ _ _ _ _ _ _ reached handled advance => handled.own reached advance)
    (fun _ _ _ _ _ _ handled => handled.others)
  cases came with
  | stage stage session reached calm handled =>
      obtain rfl := reached.returned returned
      have pending : Pending session ↔ _ := handled
      have stays : (∀ s, (final.reactor i).sessions k = some s → s.fb.tryPopFrame.1 = none) ↔
          ¬ Pending session := by
        rw [reached.holds.found]
        simp [Pending]
      have within : Within (fun x => strandsFrame i x = false) taken ↔ ¬ Strands i taken := by
        simp [Within, Strands]
      rw [stays, pending, within, not_or]
      simp [found]
  | dangled front back split handled recorded fault stuck => exact absurd returned stuck

/-- An `UNSUB_REQ` before authentication leaves the `KPALIVE_REQ` behind it unanswered. -/
theorem refused_unsub_strands_frame :
    ∃ before h taken final, HubRun (smallConfig 4) smallWakeFd before h ∧
      ReadableCall (smallConfig 4) 0 5 1 afterEvent (h.plane .kForward) taken final ∧
      (final.reactor 0).stack = afterEvent ∧
      ∃ s, (final.reactor 0).sessions 1 = some s ∧ s.fb.tryPopFrame.1 ≠ none := by
  obtain ⟨before, h, taken, final, run, call, _, _, seen⟩ := small_call (fun _ => true)
    [.run, .recv (.data (bareRequest .kUnsubReq ++ bareRequest .kKpaliveReq)), .run]
    (fun x => decide ((x.1.reactor 0).stack = afterEvent) &&
      ((x.1.reactor 0).sessions 1).any fun s => s.fb.tryPopFrame.1.isSome) (by decide +kernel)
  simp only [Bool.and_eq_true, decide_eq_true_eq] at seen
  obtain ⟨back, holds⟩ := seen
  obtain ⟨s, found, complete⟩ := (Option.any_eq_true _ _).mp holds
  exact ⟨before, h, taken, final, run, call, back, s, found, Option.isSome_iff_ne_none.mp complete⟩

theorem no_frame_is_stranded_alive :
    ∃ before h taken final, HubRun (smallConfig 4) smallWakeFd before h ∧
      ReadableCall (smallConfig 4) 0 5 1 afterEvent (h.plane .kForward) taken final ∧
      (final.reactor 0).stack = afterEvent ∧
      ∀ s, (final.reactor 0).sessions 1 = some s → s.fb.tryPopFrame.1 = none := by
  obtain ⟨before, h, taken, final, run, call, empty, inside, finished⟩ :=
    small_call (fun x => !strandsFrame 0 x) keepingAlive
      (fun x => decide ((x.1.reactor 0).stack = afterEvent)) (by decide +kernel)
  have back : (final.reactor 0).stack = afterEvent := of_decide_eq_true finished
  refine ⟨before, h, taken, final, run, call, back, ?_⟩
  refine (no_frame_is_stranded_iff call back).mpr ⟨?_, ?_⟩
  · exact inside.mono fun x fine => by simpa using fine
  · rintro ⟨s, found, complete, _⟩
    exact complete (empty s found)

end Stranding

end HiImCore.Hub
