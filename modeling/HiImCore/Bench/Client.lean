import HiImCore.Hub.Protocol
import HiImCore.Hub.Authentication

/-! The handshake of the benchmark client (`cmd/hi-im-bench/main.cpp`) and what the hub has done
for the session when it succeeds. -/

namespace HiImCore.Bench

open Hub Replay Transition Wire Words

/-- The options that `Handshake` reads. -/
structure Options where
  authUser : Bytes
  authPass : Bytes
  deriving DecidableEq, Repr

/-- A connected socket: what the calls on it return, in order, and the bytes that have passed. A
`recv` of nothing stands for `n <= 0`, and a call that finds no result blocks for good. -/
structure Link where
  sends : List Int
  recvs : List Bytes
  sent : Bytes
  got : Bytes
  deriving DecidableEq, Repr

/-- The loop of `WriteAll`. -/
def writeLoop : List Int → Bytes → Bytes → Option (Bool × List Int × Bytes)
  | [], data, sent => if data.isEmpty then some (true, [], sent) else none
  | n :: later, data, sent =>
      if data.isEmpty then some (true, n :: later, sent)
      else if n ≤ 0 then some (false, later, sent)
      else writeLoop later (data.drop n.toNat) (sent ++ data.take n.toNat)

def writeAll (data : Bytes) (link : Link) : Option (Bool × Link) :=
  (writeLoop link.sends data link.sent).map fun out =>
    (out.1, { link with sends := out.2.1, sent := out.2.2 })

/-- The loop of `ReadFrame`. -/
def readLoop : List Bytes → FrameBuffer → Bytes →
    Option (Option FrameView × FrameBuffer × List Bytes × Bytes)
  | recvs, fb, got =>
      match fb.tryPopFrame with
      | (some frame, left) => some (some frame, left, recvs, got)
      | (none, left) =>
          match recvs with
          | [] => none
          | data :: later =>
              if data.isEmpty then some (none, left, later, got)
              else readLoop later (left.append data) (got ++ data)

def readFrame (fb : FrameBuffer) (link : Link) : Option (Option FrameView × FrameBuffer × Link) :=
  (readLoop link.recvs fb link.got).map fun out =>
    (out.1, out.2.1, { link with recvs := out.2.2.1, got := out.2.2.2 })

/-- `ReadFrame`, and the comparison of the type of what was read. -/
def readReply (cmd : SysCmd) (fb : FrameBuffer) (link : Link) : Option (Bool × FrameBuffer × Link) :=
  (readFrame fb link).map fun out =>
    (out.1.any fun frame => headerFieldHost frame.header WireHeader.type == cmd.code, out.2)

def encodeSubFrame (nid subCmd : UInt32) : Bytes :=
  encodeFrame SysCmd.kSubReq.code nid kFlagSys (image32 (hostToBe32 subCmd))

def subscribe (nid subCmd : UInt32) (fb : FrameBuffer) (link : Link) :
    Option (Bool × FrameBuffer × Link) :=
  match writeAll (encodeSubFrame nid subCmd) link with
  | none => none
  | some (false, link) => some (false, fb, link)
  | some (true, link) => readReply .kSubAck fb link

/-- `Handshake`, with the buffer that is destroyed when it returns. -/
def handshake (opt : Options) (nid subCmd : UInt32) (link : Link) : Option (Bool × FrameBuffer × Link) :=
  match writeAll (encodeAuthFrame 1 opt.authUser opt.authPass nid) link with
  | none => none
  | some (false, link) => some (false, .empty, link)
  | some (true, link) =>
      match readReply .kAuthAck .empty link with
      | none => none
      | some (false, fb, link) => some (false, fb, link)
      | some (true, fb, link) =>
          if subCmd = 0 then some (true, fb, link) else subscribe nid subCmd fb link

section Calls

variable {link after : Link} {fb left : FrameBuffer}

theorem writeLoop_true {sends rest : List Int} {data sent total : Bytes}
    (done : writeLoop sends data sent = some (true, rest, total)) : total = sent ++ data := by
  induction sends generalizing data sent with
  | nil =>
      unfold writeLoop at done
      split at done
      · rename_i empty
        cases done
        rw [List.isEmpty_iff.mp empty, List.append_nil]
      · cases done
  | cons n later ih =>
      unfold writeLoop at done
      split at done
      · rename_i empty
        cases done
        rw [List.isEmpty_iff.mp empty, List.append_nil]
      · split at done
        · cases done
        · rw [ih done, List.append_assoc, List.take_append_drop]

theorem writeAll_true {data : Bytes} (done : writeAll data link = some (true, after)) :
    after.sent = link.sent ++ data ∧ after.got = link.got := by
  obtain ⟨⟨ok, rest, total⟩, looped, same⟩ := Option.map_eq_some_iff.mp done
  cases same
  exact ⟨writeLoop_true looped, rfl⟩

theorem readLoop_calls {recvs rest : List Bytes} {got total : Bytes} {frame : FrameView}
    (done : readLoop recvs fb got = some (some frame, left, rest, total)) :
    ∃ calls, serve fb calls = ([frame], left) ∧ total = got ++ fed calls := by
  induction recvs generalizing fb got with
  | nil =>
      unfold readLoop at done
      split at done
      · rename_i popped
        cases done
        refine ⟨[.tryPopFrame], ?_, (List.append_nil _).symm⟩
        simp only [serve, popped]
      · cases done
  | cons data later ih =>
      unfold readLoop at done
      split at done
      · rename_i popped
        cases done
        refine ⟨[.tryPopFrame], ?_, (List.append_nil _).symm⟩
        simp only [serve, popped]
      · rename_i mid popped
        dsimp only at done
        split at done
        · cases done
        · obtain ⟨calls, serves, whole⟩ := ih done
          refine ⟨.tryPopFrame :: .append data :: calls, ?_, ?_⟩
          · simp only [serve, popped, serves]
          · rw [whole, fed, fed, List.append_assoc]

theorem readReply_true {cmd : SysCmd} (done : readReply cmd fb link = some (true, left, after)) :
    ∃ calls frame, serve fb calls = ([frame], left) ∧ after.got = link.got ++ fed calls ∧
      after.sent = link.sent ∧ headerFieldHost frame.header WireHeader.type = cmd.code := by
  obtain ⟨⟨found, mid, next⟩, read, same⟩ := Option.map_eq_some_iff.mp done
  obtain ⟨⟨popped, buffer, rest, total⟩, looped, again⟩ := Option.map_eq_some_iff.mp read
  cases again
  cases popped with
  | none => cases same
  | some frame =>
      simp only [Prod.mk.injEq, Option.any_some, beq_iff_eq] at same
      obtain ⟨type, rfl, rfl⟩ := same
      obtain ⟨calls, serves, whole⟩ := readLoop_calls looped
      exact ⟨calls, frame, serves, whole, rfl, type⟩

end Calls

section Requests

def subFrame (nid subCmd : UInt32) : Frame :=
  ⟨SysCmd.kSubReq.code, nid, kFlagSys, image32 (hostToBe32 subCmd), by rw [image32_length]; decide⟩

def requests (opt : Options) (nid subCmd : UInt32) : List Frame :=
  authFrame 1 opt.authUser opt.authPass nid :: if subCmd = 0 then [] else [subFrame nid subCmd]

def awaited (subCmd : UInt32) : List UInt32 :=
  SysCmd.kAuthAck.code :: if subCmd = 0 then [] else [SysCmd.kSubAck.code]

variable {opt : Options} {nid subCmd : UInt32} {link after : Link} {left : FrameBuffer}

theorem subscribe_true {fb : FrameBuffer} (done : subscribe nid subCmd fb link = some (true, left, after)) :
    ∃ calls frame, serve fb calls = ([frame], left) ∧ after.got = link.got ++ fed calls ∧
      after.sent = link.sent ++ (subFrame nid subCmd).encode ∧
      headerFieldHost frame.header WireHeader.type = SysCmd.kSubAck.code := by
  unfold subscribe at done
  split at done
  · cases done
  · cases done
  · rename_i written
    obtain ⟨sent, got⟩ := writeAll_true written
    obtain ⟨calls, frame, serves, whole, same, type⟩ := readReply_true done
    exact ⟨calls, frame, serves, by rw [whole, got], by rw [same, sent]; rfl, type⟩

theorem handshake_true {sends : List Int} {recvs : List Bytes}
    (done : handshake opt nid subCmd ⟨sends, recvs, [], []⟩ = some (true, left, after)) :
    after.sent = stream (requests opt nid subCmd) ∧
      ∃ calls frames, serve .empty calls = (frames, left) ∧ fed calls = after.got ∧
        frames.map (fun frame => headerFieldHost frame.header WireHeader.type) = awaited subCmd := by
  unfold handshake at done
  split at done
  · cases done
  · cases done
  rename_i first written
  obtain ⟨sent, got⟩ := writeAll_true written
  split at done
  · cases done
  · cases done
  rename_i fb second read
  obtain ⟨calls, frame, serves, whole, same, type⟩ := readReply_true read
  have auth : second.sent = (authFrame 1 opt.authUser opt.authPass nid).encode := by
    rw [same, sent]
    rfl
  have once : second.got = fed calls := by
    rw [whole, got]
    rfl
  split at done
  · rename_i none
    cases done
    refine ⟨?_, calls, [frame], serves, once.symm, ?_⟩
    · rw [auth, requests, if_pos none]
      exact (List.append_nil _).symm
    · rw [awaited, if_pos none, List.map_singleton, type]
  · rename_i some
    obtain ⟨more, reply, again, twice, both, types⟩ := subscribe_true done
    refine ⟨?_, calls ++ more, [frame, reply], ?_, ?_, ?_⟩
    · rw [both, auth, requests, if_neg some]
      simp [stream]
    · rw [serve_append, serves, again]
      rfl
    · rw [twice, once, fed_append]
    · rw [awaited, if_neg some, List.map_cons, List.map_singleton, type, types]

variable (cfg : HubConfig)

theorem answer_system (login : Login) (cmd : SysCmd) {f : Frame} (flag : f.flag = kFlagSys)
    (type : f.type = cmd.code) : login.answer cfg f.view = login.request cfg f.view (some cmd) := by
  obtain ⟨types, _, flags, _⟩ := f.view_shows
  rw [Login.answer, if_pos (flags.trans flag), types, type, SysCmd.ofCode_code]

theorem answer_authFrame (login : Login) :
    login.answer cfg (authFrame 1 opt.authUser opt.authPass nid).view =
      if credentialsMatch cfg (makeAuthPayload 1 opt.authUser opt.authPass nid) then
        some [.bind 1 nid, .reply (ackFrame .kAuthAck nid)]
      else none := by
  rw [answer_system cfg login .kAuthReq rfl rfl, Login.request, Login.authenticate,
    decodeAuthPayload_authFrame]
  have gid : beToHost32 (makeAuthPayload 1 opt.authUser opt.authPass nid).gid = 1 :=
    beToHost32_hostToBe32 1
  have same : beToHost32 (makeAuthPayload 1 opt.authUser opt.authPass nid).nid = nid :=
    beToHost32_hostToBe32 nid
  dsimp only
  rw [gid, same]

theorem requestedCmd_subFrame : requestedCmd (subFrame nid subCmd).view = subCmd := by
  have word := word32At_image32 [] [] (hostToBe32 subCmd)
  rw [List.append_nil, List.nil_append, List.length_nil] at word
  rw [requestedCmd, show (subFrame nid subCmd).view.payload = image32 (hostToBe32 subCmd) from rfl,
    word, beToHost32_hostToBe32]

theorem answer_subFrame :
    (Login.mk true 1 nid).answer cfg (subFrame nid subCmd).view =
      some [.subscribe subCmd 1 nid, .reply (ackFrame .kSubAck nid)] := by
  have granted : (Login.mk true 1 nid).Grants (subFrame nid subCmd).view :=
    ⟨rfl, (image32_length (hostToBe32 subCmd)).ge⟩
  rw [answer_system cfg _ .kSubReq rfl rfl, Login.request, if_pos granted, requestedCmd_subFrame]

theorem converse_requests {frames : List FrameView}
    (sent : frames <+: (requests opt nid subCmd).map Frame.view) :
    (converse cfg frames).deeds = [] ∨
      credentialsMatch cfg (makeAuthPayload 1 opt.authUser opt.authPass nid) = true ∧
        ((converse cfg frames).deeds = [.bind 1 nid, .reply (ackFrame .kAuthAck nid)] ∨
          subCmd ≠ 0 ∧ (converse cfg frames).deeds =
            [.bind 1 nid, .reply (ackFrame .kAuthAck nid), .subscribe subCmd 1 nid,
              .reply (ackFrame .kSubAck nid)]) := by
  rcases List.prefix_cons_iff.mp sent with rfl | ⟨rest, rfl, more⟩
  · exact .inl rfl
  -- The first frame decides, and only then is there a second.
  have first : Talk.hears cfg .begun (authFrame 1 opt.authUser opt.authPass nid).view =
      if credentialsMatch cfg (makeAuthPayload 1 opt.authUser opt.authPass nid) then
        ⟨some ⟨true, 1, nid⟩, [.bind 1 nid, .reply (ackFrame .kAuthAck nid)]⟩
      else ⟨none, []⟩ := by
    simp only [Talk.hears, Talk.begun, answer_authFrame]
    by_cases matching : credentialsMatch cfg (makeAuthPayload 1 opt.authUser opt.authPass nid) = true
    · rw [if_pos matching, if_pos matching]
      rfl
    · rw [if_neg matching, if_neg matching]
  by_cases matching : credentialsMatch cfg (makeAuthPayload 1 opt.authUser opt.authPass nid) = true
  · right
    refine ⟨matching, ?_⟩
    rw [if_pos matching] at first
    by_cases none : subCmd = 0
    · rw [if_pos none] at more
      obtain rfl := List.prefix_nil.mp more
      left
      rw [converse, List.foldl_cons, first]
      rfl
    · rw [if_neg none] at more
      rcases List.prefix_cons_iff.mp more with rfl | ⟨last, rfl, nothing⟩
      · left
        rw [converse, List.foldl_cons, first]
        rfl
      · obtain rfl := List.prefix_nil.mp nothing
        right
        refine ⟨none, ?_⟩
        rw [converse, List.foldl_cons, first, List.foldl_cons, List.foldl_nil, Talk.hears]
        simp only [answer_subFrame]
        rfl
  · left
    have closed : ∀ frames, (List.foldl (Talk.hears cfg) ⟨none, []⟩ frames).deeds = [] := by
      intro frames
      induction frames with
      | nil => rfl
      | cons frame later ih => exact ih
    rw [converse, List.foldl_cons, first, if_neg matching]
    exact closed rest

end Requests

section Agreement

variable {cfg : HubConfig} {wakeFd : Plane → Nat → Int}
  {taken : List (Taken HubServer Action Entry)} {h : HubServer} {q : Plane} {k : Nat}

def authenticatedDeeds (nid : UInt32) : List Deed :=
  [.bind 1 nid, .reply (ackFrame .kAuthAck nid)]

def subscribedDeeds (nid subCmd : UInt32) : List Deed :=
  authenticatedDeeds nid ++ [.subscribe subCmd 1 nid, .reply (ackFrame .kSubAck nid)]

theorem mem_deeds {events : List Event} {e : Event} {d : Deed} (member : e ∈ events)
    (shown : deedOf k e = some d) : d ∈ deeds k events := List.mem_filterMap.mpr ⟨e, member, shown⟩

theorem header_of_encode {f g : Frame} (same : f.encode = g.encode) : f.header = g.header := by
  have decoded := f.decodeHeader_encode f.payload
  rw [← f.encode_eq, same, g.encode_eq, g.decodeHeader_encode] at decoded
  exact (Option.some.inj decoded).symm

theorem type_of_ack {f : Frame} {cmd : SysCmd} {nid : UInt32} (same : f.encode = ackFrame cmd nid) :
    f.type = cmd.code := by
  have header := header_of_encode (g := ⟨cmd.code, nid, kFlagSys, [], by decide⟩) same
  have types := congrArg (fun hdr => beToHost32 hdr.type) header
  simp only [Frame.header, makeHeader, beToHost32_hostToBe32] at types
  exact types

theorem ack_replied {log : List (Frame × Option Origin)} (known : OutputLog q k (trace taken) log)
    {f : Frame} (member : (f, none) ∈ log) :
    .reply f.encode ∈ deeds k (onPlane q.peer (trace taken)) := by
  obtain ⟨⟨flag, _⟩, i, appended⟩ := known.acks f member
  have system : isSystem f.encode = true := by
    rw [Frame.encode, isSystem_encodeFrame, flag]
    rfl
  exact mem_deeds (mem_onPlane.mpr appended) (if_pos ⟨rfl, system⟩)

theorem copy_looked_up {log : List (Frame × Option Origin)} (known : OutputLog q k (trace taken) log)
    (run : HubRun cfg wakeFd taken h) {f : Frame} {o : Origin} (member : (f, some o) ∈ log) :
    ∃ e ds d, (q.peer, e) ∈ trace taken ∧ outward e = some (.expanded o ds) ∧ d ∈ ds ∧ d.sid = k := by
  have delivered : o ∈ deliveredTo k (onPlane q.peer (trace taken)) := by
    rw [← known.origins]
    exact List.mem_filterMap.mpr ⟨_, member, rfl⟩
  obtain ⟨e, here, shown⟩ := List.mem_filterMap.mp delivered
  cases e with
  | sendPopped i frame isOpen =>
      cases isOpen with
      | false => cases shown
      | true =>
          simp only [Option.ite_none_right_eq_some, Option.some.injEq] at shown
          obtain ⟨⟨same, _⟩, rfl⟩ := shown
          obtain ⟨before, later, split⟩ := List.append_of_mem (mem_onPlane.mp here)
          obtain ⟨_, ⟨e, ds, seen, looks⟩, named⟩ := popped_origin run split
          have whole : (q.peer, e) ∈ trace taken := by
            rw [split]
            exact List.mem_append_left _ seen
          exact ⟨e, ds, _, whole, looks, named e ds whole looks, same⟩
  | _ => cases shown

theorem log_served {log : List (Frame × Option Origin)} (known : OutputLog q k (trace taken) log)
    (run : HubRun cfg wakeFd taken h) {x : Frame × Option Origin} (member : x ∈ log) :
    deeds k (onPlane q.peer (trace taken)) ≠ [] := by
  obtain ⟨f, _ | o⟩ := x
  · exact List.ne_nil_of_mem (ack_replied known member)
  · obtain ⟨e, ds, d, seen, looks, named, rfl⟩ := copy_looked_up known run member
    obtain ⟨i, gid, nid, bound⟩ := lookup_bound run seen looks named
    exact List.ne_nil_of_mem (mem_deeds (mem_onPlane.mpr bound) (if_pos rfl))

theorem copy_subscribed {log : List (Frame × Option Origin)}
    (known : OutputLog .kForward k (trace taken) log) (run : HubRun cfg wakeFd taken h) {f : Frame}
    {o : Origin} (member : (f, some o) ∈ log) :
    ∃ cmd gid nid, .subscribe cmd gid nid ∈ deeds k (onPlane .kBackend (trace taken)) := by
  obtain ⟨e, ds, d, seen, looks, named, rfl⟩ := copy_looked_up known run member
  rcases lookup_genuine run seen looks with ⟨_, subs, rfl⟩ | ⟨wrong, _⟩
  · cases looks
    obtain ⟨before, later, split⟩ := List.append_of_mem seen
    obtain ⟨legal, allowed⟩ := allowed_at run split
    obtain ⟨sub, inside, rfl⟩ := List.mem_map.mp named
    rw [show subs = _ from allowed] at inside
    obtain ⟨_, earlier, rfl⟩ := since_mem (subscriber_since legal inside)
    refine ⟨o.type, sub.gid, sub.nid, mem_deeds (e := .subscribed o.type sub) ?_ (if_pos rfl)⟩
    rw [split]
    exact mem_onPlane.mpr (List.mem_append_left _ (mem_onPlane.mp earlier))
  · cases wrong

/-- When `Handshake` returns true, the credentials are the hub's as the `AUTH_REQ` carries them, cut
to the sizes of its fields and at the first NUL; the hub has authenticated the session for the
client's nid and has done nothing else for it but to subscribe it; and it has subscribed it if a
command was given, unless a business frame of the type of `SUB_ACK` came in its place, which
`Handshake` does not tell from it. -/
theorem handshake_agrees {opt : Options} {nid subCmd : UInt32} {sends : List Int}
    {recvs : List Bytes} {left : FrameBuffer} {link : Link} (run : HubRun cfg wakeFd taken h)
    (done : handshake opt nid subCmd ⟨sends, recvs, [], []⟩ = some (true, left, link))
    (arrived : arrivedBytes q.peer k taken <+: link.sent)
    (read : link.got <+: writtenBytes k (onPlane q.peer (trace taken))) :
    (kept kAuthUserLen opt.authUser = cfg.authUser ∧ kept kAuthPassLen opt.authPass = cfg.authPass) ∧
      (subCmd = 0 → deeds k (onPlane q.peer (trace taken)) = authenticatedDeeds nid) ∧
      (subCmd ≠ 0 → deeds k (onPlane q.peer (trace taken)) = subscribedDeeds nid subCmd ∨
        q = .kBackend ∧ deeds k (onPlane q.peer (trace taken)) = authenticatedDeeds nid ∧
          ∃ j o, (q, .received j o) ∈ trace taken ∧ o.type = SysCmd.kSubAck.code) := by
  obtain ⟨sent, calls, frames, serves, fedAll, types⟩ := handshake_true done
  rw [sent] at arrived
  rw [← fedAll] at read
  obtain ⟨log, known⟩ := hubRun_output run q k
  obtain ⟨n, popped, _⟩ := known.popped run read
  rw [serves] at popped
  have inLog : ∀ type ∈ awaited subCmd, ∃ x ∈ log, x.1.type = type := by
    intro type member
    rw [← types, show frames = _ from popped, List.map_map] at member
    obtain ⟨x, inside, rfl⟩ := List.mem_map.mp member
    exact ⟨x, List.mem_of_mem_take inside, x.1.view_shows.1.symm⟩
  obtain ⟨first, firstIn, _⟩ := inLog _ List.mem_cons_self
  have told := (hubRun_speaks run q.peer k).done
  rw [← List.append_nil (stream _)] at arrived
  have handled := handled_initial run q.peer k _ [] nothing_unfinished arrived
  rcases converse_requests cfg handled with nothing | ⟨matching, some⟩
  · exact absurd (told.trans nothing) (log_served known run firstIn)
  rw [← told] at some
  refine ⟨credentialsMatch_make.mp matching, ?_, ?_⟩
  · intro none
    exact some.resolve_right fun both => both.1 none
  · intro given
    rcases some with plain | ⟨_, both⟩
    · obtain ⟨⟨f, _ | o⟩, secondIn, type⟩ := inLog SysCmd.kSubAck.code (by simp [awaited, given])
      · -- The reply to the first request is not of this type.
        have replied := ack_replied known secondIn
        simp only [plain, List.mem_cons, Deed.reply.injEq, reduceCtorEq, List.not_mem_nil, or_false,
          false_or] at replied
        exact absurd ((type_of_ack replied).symm.trans type) (by decide)
      · obtain ⟨copy, j, received⟩ := known.copies f o secondIn
        cases q with
        | kForward =>
            obtain ⟨cmd, gid, other, subscribed⟩ := copy_subscribed known run secondIn
            rw [show deeds k (onPlane .kBackend (trace taken)) = _ from plain] at subscribed
            simp at subscribed
        | kBackend => exact .inr ⟨rfl, plain, j, o, received, copy.2.1.symm.trans type⟩
    · exact .inl both

def greetingLink : Link where
  sends := [70, 6, 24]
  recvs := [(ackFrame .kAuthAck 2).take 15, (ackFrame .kAuthAck 2).drop 15 ++ ackFrame .kSubAck 2]
  sent := []
  got := []

def greeting : List Action :=
  connecting .kBackend 0 smallWakeFd 6 ++ requesting .kBackend 0 6 (encodeAuthFrame 1 [] [] 2) ++
    requesting .kBackend 0 6 (encodeSubFrame 2 9)

theorem handshake_agrees_greeting :
    ∃ taken h, HubRun (smallConfig 4) smallWakeFd taken h ∧
      ∃ left link, handshake ⟨[], []⟩ 2 9 greetingLink = some (true, left, link) ∧
        deeds 1 (onPlane .kBackend (trace taken)) = subscribedDeeds 2 9 := by
  obtain ⟨taken, h, run, seen⟩ := run_of_record (hubSystem (smallConfig 4)) (.init smallWakeFd)
    greeting (fun x => (handshake ⟨[], []⟩ 2 9 greetingLink).any fun out =>
      out.1 && arrivedBytes .kBackend 1 x.2 == out.2.2.sent &&
        out.2.2.got == writtenBytes 1 (onPlane .kBackend (trace x.2))) (by decide +kernel)
  cases done : handshake ⟨[], []⟩ 2 9 greetingLink with
  | none =>
      rw [done] at seen
      cases seen
  | some out =>
      obtain ⟨ok, left, link⟩ := out
      simp only [done, Option.any_some, Bool.and_eq_true, beq_iff_eq] at seen
      obtain ⟨⟨rfl, sent⟩, got⟩ := seen
      have agrees := handshake_agrees (q := .kForward) (k := 1) run done
        (by rw [← sent]; exact List.prefix_rfl) (by rw [got]; exact List.prefix_rfl)
      refine ⟨taken, h, run, left, link, rfl, ?_⟩
      exact (agrees.2.2 (by decide)).resolve_right fun both => by cases both.1

end Agreement

end HiImCore.Bench
