import HiImCore.Hub.Bridge

/-! The unicast mode of the benchmark client (`cmd/hi-im-bench/main.cpp`): the frames it sends
to the backend plane, and what the bridge makes of them. -/

namespace HiImCore.Bench

open Wire Words Hub

def makeBusinessPayload (payloadSize : Nat) (destNid : UInt32) : Bytes :=
  let payload := List.replicate (max payloadSize 48) 0
  let payload := copyAt payload 0 (image32 (hostToBe32 0x030B))
  copyAt payload 4 (image32 (hostToBe32 destNid))

/-- The frame that `RunUnicastBench` writes, from the client with nid 30002 for the one with
nid 20002. -/
def unicastBenchFrame (cmd : UInt32) (payloadSize : Nat) : Bytes :=
  encodeFrame cmd 30002 kFlagExp (makeBusinessPayload payloadSize 20002)

/-- A reactor that pops a frame of the benchmark hands its message on, and a worker of the
backend plane that handles the message is done with it after one step, without a frame for the
forward plane. -/
def UnicastDropped (cfg : HubConfig) (cmd : UInt32) (payloadSize : Nat) : Prop :=
  ∀ (pl : PlaneState) (i k : Nat) (session : Session) (later : Bytes) (rest : List Task),
    (pl.reactor i).stack = .popLoop k :: rest → (pl.reactor i).sessions k = some session →
    session.authed = true → session.fb = ⟨unicastBenchFrame cmd payloadSize ++ later⟩ →
    ∃ msg post events, reactorStep cfg i .run pl = some (post, events) ∧
      (post.reactor i).stack = .pushInbound k msg 0 :: .popLoop k :: rest ∧
      ∀ v h, h.sound = true → v < cfg.workers → (h.plane .kBackend).worker v = .handle msg →
        ∃ after events, hubStep cfg h (.worker .kBackend v) = some (after, events) ∧
          (after.plane .kBackend).worker v = .pop ∧
          (after.plane .kForward).distQueue = (h.plane .kForward).distQueue

section Payload

variable (payloadSize : Nat) (destNid : UInt32)

theorem makeBusinessPayload_eq :
    makeBusinessPayload payloadSize destNid =
      image32 (hostToBe32 0x030B) ++
        (image32 (hostToBe32 destNid) ++ List.replicate (max payloadSize 48 - 8) 0) := by
  have first := copyAt_append [] (List.replicate (max payloadSize 48) 0) (image32 (hostToBe32 0x030B))
  have second := copyAt_append (image32 (hostToBe32 0x030B))
    (List.replicate (max payloadSize 48 - 4) 0) (image32 (hostToBe32 destNid))
  simp only [List.nil_append, List.length_nil, image32_length, List.drop_replicate,
    Nat.sub_sub, Nat.reduceAdd] at first second
  rw [makeBusinessPayload, first, second]

theorem destinationWord_take (n : Nat) :
    destinationWord ((makeBusinessPayload payloadSize destNid).take n) = 0 := by
  have zeros : (makeBusinessPayload payloadSize destNid).drop 24 =
      List.replicate (max payloadSize 48 - 8 - 16) 0 := by
    rw [makeBusinessPayload_eq, ← List.append_assoc, show 24 = 8 + 16 from rfl, ← List.drop_drop,
      List.drop_left' (by simp), List.drop_replicate]
  rw [destinationWord, List.drop_take, zeros, List.take_replicate, List.take_replicate,
    bigEndian_zeros]
  rfl

theorem readDestNid_makeBusinessPayload :
    Im.readDestNid (makeBusinessPayload payloadSize destNid) = 0 := by
  have word := destinationWord_take payloadSize destNid (makeBusinessPayload payloadSize destNid).length
  rw [List.take_length] at word
  rw [readDestNid_eq_word, word, ite_self]

theorem destinations_take (router : Router) (type : UInt32) (n : Nat) :
    destinations router type ((makeBusinessPayload payloadSize destNid).take n) .kBackend = [] := by
  rw [destinations, destinationWord_take, if_neg]
  rintro ⟨_, nonzero⟩
  exact nonzero rfl

theorem unicastDropped (cfg : HubConfig) (cmd : UInt32) : UnicastDropped cfg cmd payloadSize := by
  intro pl i k session later rest top found authed buffered
  have popped := tryPopFrame_encodeFrame cmd 30002 kFlagExp (makeBusinessPayload payloadSize 20002) later
  rw [← unicastBenchFrame, ← buffered] at popped
  have business : headerFieldHost (makeHeader cmd 30002 kFlagExp
      (UInt32.ofNat (makeBusinessPayload payloadSize 20002).length)) WireHeader.flag ≠ kFlagSys := by
    simp only [headerFieldHost, makeHeader, beToHost32_hostToBe32]
    decide
  obtain ⟨post, events, step, stack⟩ := reactorStep_business top found authed popped business
  refine ⟨_, post, events, step, stack, ?_⟩
  intro v h sound inside handles
  have works : Works cfg .kBackend v (h.plane .kForward).router h (.handle (inbound i session _))
      (h.plane .kForward).distQueue := ⟨sound, inside, handles, rfl, rfl⟩
  obtain ⟨after, events, first, done⟩ := works.downlink
  rw [inbound, destinations_take] at done
  exact ⟨after, events, first, done.worker, done.queue⟩

/-- `MakeBusinessPayload` writes the destination at offset 4 and `ReadDestNid` reads it at offset 24,
in a payload of at least 52 bytes: it reads zero from every payload of the benchmark, and the
frames of `RunUnicastBench` go nowhere. -/
theorem bench_payload_is_routable_iff (cfg : HubConfig) :
    (Im.readDestNid (makeBusinessPayload payloadSize destNid) = destNid ↔ destNid = 0) ∧
      ∀ cmd, UnicastDropped cfg cmd payloadSize := by
  constructor
  · rw [readDestNid_makeBusinessPayload]
    exact eq_comm
  · exact unicastDropped payloadSize cfg

/-- The default payload size, while the receiver is connected. -/
theorem bench_destination_is_missing :
    Im.readDestNid (makeBusinessPayload 256 20002) ≠ 20002 ∧
      destinations (Router.empty.bindNid 20002 1 0) 0x030B (makeBusinessPayload 256 20002) .kBackend =
        [] := by
  decide +kernel

end Payload

end HiImCore.Bench
