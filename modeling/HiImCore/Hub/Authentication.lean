import HiImCore.Hub.Core
import HiImCore.Hub.System
import HiImCore.Wire.Reassembly

/-! Which credentials an `AUTH_REQ` is accepted with, from the client's `EncodeAuthFrame` to
the reactor's `HandleSystem`. -/

namespace HiImCore.Hub

open Wire

def authFrame (gid : UInt32) (user passwd : Bytes) (nid : UInt32) : Frame where
  type := SysCmd.kAuthReq.code
  nid := nid
  flag := kFlagSys
  payload := (makeAuthPayload gid user passwd nid).bytes
  fits := by
    rw [makeAuthPayload_length]
    decide

/-- A reactor that pops the encoded request from an open session decodes it, finds that the
credentials match exactly if they are the configured ones, and then gives the session the
identity of the request; otherwise it closes the session. -/
def AuthenticatesExactly (cfg : HubConfig) (gid : UInt32) (user passwd : Bytes) (nid : UInt32) :
    Prop :=
  ∀ (pl : PlaneState) (i k : Nat) (session : Session) (later : Bytes) (rest : List Task),
    (pl.reactor i).stack = .popLoop k :: rest → (pl.reactor i).sessions k = some session →
    session.sid = k → session.fb = ⟨encodeAuthFrame gid user passwd nid ++ later⟩ →
    ∃ frame auth post events,
      session.fb.tryPopFrame = (some frame, ⟨later⟩) ∧
      decodeAuthPayload frame.payload = some auth ∧
      reactorStep cfg i .run pl = some (post, events) ∧
      (credentialsMatch cfg auth = true ↔ user = cfg.authUser ∧ passwd = cfg.authPass) ∧
      (credentialsMatch cfg auth = true → ∃ s, (post.reactor i).sessions k = some s ∧
        s.authed = true ∧ s.gid = gid ∧ s.nid = nid) ∧
      (credentialsMatch cfg auth = false → (post.reactor i).sessions k = none)

section Requests

variable {cfg : HubConfig} {gid nid : UInt32} {user passwd : Bytes}

theorem credentialsMatch_make :
    credentialsMatch cfg (makeAuthPayload gid user passwd nid) = true ↔
      kept kAuthUserLen user = cfg.authUser ∧ kept kAuthPassLen passwd = cfg.authPass := by
  simp only [credentialsMatch, makeAuthPayload, fieldText_charField, Bool.and_eq_true, beq_iff_eq]

theorem decodeAuthPayload_authFrame :
    decodeAuthPayload (authFrame gid user passwd nid).view.payload =
      some (makeAuthPayload gid user passwd nid) := by
  obtain ⟨_, _, _, _, payload⟩ := (authFrame gid user passwd nid).view_shows
  rw [payload]
  exact decodeAuthPayload_make gid user passwd nid

variable {pl : PlaneState} {i k : Nat} {session : Session} {later : Bytes} {rest : List Task}

theorem tryPopFrame_authFrame (buffered : session.fb = ⟨encodeAuthFrame gid user passwd nid ++ later⟩) :
    session.fb.tryPopFrame = (some (authFrame gid user passwd nid).view, ⟨later⟩) := by
  rw [buffered]
  exact tryPopFrame_encode (authFrame gid user passwd nid) later

theorem sendBytes_ident (cmd : SysCmd) (stack : List Task) :
    ∃ s, (((sendBytes i k session (ackFrame cmd nid) pl).state.setStack i stack).reactor i).sessions k =
      some s ∧ s.authed = session.authed ∧ s.gid = session.gid ∧ s.nid = session.nid := by
  have present : ((sendBytes i k session (ackFrame cmd nid) pl).state.setStack i stack).core.keys i k =
      some { session with outbuf := session.outbuf ++ ackFrame cmd nid : Session }.key := by
    rw [core_setStack, sendBytes_ackFrame, core_updateInterest, setSession_present]
  rw [core_keys, Option.map_eq_some_iff] at present
  obtain ⟨s, here, same⟩ := present
  simp only [Session.key, SessionKey.mk.injEq, Ident.mk.injEq] at same
  exact ⟨s, here, same.2.2.1, same.2.2.2.1, same.2.2.2.2.1⟩

theorem closeSession_absent (stack : List Task) :
    (((closeSession i k pl).state.setStack i stack).reactor i).sessions k = none := by
  have gone : ((closeSession i k pl).state.setStack i stack).core.keys i k = none := by
    rw [core_setStack, core_closeSession, Core.close_keys, if_pos ⟨rfl, rfl⟩]
  exact Option.map_eq_none_iff.mp gone

theorem reactorStep_authFrame (top : (pl.reactor i).stack = .popLoop k :: rest)
    (found : (pl.reactor i).sessions k = some session) (own : session.sid = k)
    (buffered : session.fb = ⟨encodeAuthFrame gid user passwd nid ++ later⟩) :
    ∃ post events, reactorStep cfg i .run pl = some (post, events) ∧
      (credentialsMatch cfg (makeAuthPayload gid user passwd nid) = true →
        ∃ s, (post.reactor i).sessions k = some s ∧ s.authed = true ∧ s.gid = gid ∧ s.nid = nid) ∧
      (credentialsMatch cfg (makeAuthPayload gid user passwd nid) = false →
        (post.reactor i).sessions k = none) := by
  have popped := tryPopFrame_authFrame buffered
  obtain ⟨type, _, flag, _⟩ := (authFrame gid user passwd nid).view_shows
  have isAuth : SysCmd.ofCode (headerFieldHost (authFrame gid user passwd nid).view.header
      WireHeader.type) = some .kAuthReq := by
    rw [type]
    exact SysCmd.ofCode_code .kAuthReq
  have isSys : headerFieldHost (authFrame gid user passwd nid).view.header WireHeader.flag = kFlagSys :=
    flag
  simp only [reactorStep, top, stepPop, found, popped, isSys, if_true, handleSystem, isAuth,
    decodeAuthPayload_authFrame]
  cases matching : credentialsMatch cfg (makeAuthPayload gid user passwd nid) with
  | true =>
      refine ⟨_, _, rfl, ?_, ?_⟩
      · intro _
        obtain ⟨s, here, authed, gids, nids⟩ := sendBytes_ident .kAuthAck _
        refine ⟨s, here, authed, gids.trans ?_, nids.trans ?_⟩
        · exact beToHost32_hostToBe32 gid
        · exact beToHost32_hostToBe32 nid
      · intro refused
        cases refused
  | false =>
      refine ⟨_, _, rfl, ?_, ?_⟩
      · intro accepted
        cases accepted
      · intro _
        rw [own]
        exact closeSession_absent _

variable (cfg gid user passwd nid)

theorem authenticatesExactly_iff_kept :
    AuthenticatesExactly cfg gid user passwd nid ↔
      (kept kAuthUserLen user = cfg.authUser ∧ kept kAuthPassLen passwd = cfg.authPass ↔
        user = cfg.authUser ∧ passwd = cfg.authPass) := by
  rw [← @credentialsMatch_make cfg gid nid user passwd]
  constructor
  · intro exactly
    -- A session that has received just this request.
    let session : Session := { Session.fresh with fb := ⟨encodeAuthFrame gid user passwd nid ++ []⟩ }
    have buffered : session.fb = ⟨encodeAuthFrame gid user passwd nid ++ []⟩ := rfl
    obtain ⟨frame, auth, _, _, popped, decoded, _, same, _⟩ :=
      exactly (popping session) 0 0 session [] [] rfl rfl rfl buffered
    rw [tryPopFrame_authFrame buffered, Prod.mk.injEq, Option.some.injEq] at popped
    rw [← popped.1, decodeAuthPayload_authFrame, Option.some.injEq] at decoded
    rwa [← decoded] at same
  · intro same pl i k session later rest top found own buffered
    obtain ⟨post, events, step, accepted, refused⟩ := reactorStep_authFrame top found own buffered
    exact ⟨_, _, post, events, tryPopFrame_authFrame buffered, decodeAuthPayload_authFrame, step, same,
      accepted, refused⟩

/-- `CredentialsMatch` sees what the fixed fields have kept of the strings, so it accepts exactly
the configured credentials if and only if those it accepts and those it should accept fit their
fields: 32 and 16 bytes, with no NUL. -/
theorem authenticates_exactly_iff :
    AuthenticatesExactly cfg gid user passwd nid ↔
      ((kept kAuthUserLen user = cfg.authUser ∧ kept kAuthPassLen passwd = cfg.authPass) ∨
          (user = cfg.authUser ∧ passwd = cfg.authPass) →
        FitsField kAuthUserLen user ∧ FitsField kAuthPassLen passwd) := by
  rw [authenticatesExactly_iff_kept, ← kept_eq_self_iff, ← kept_eq_self_iff]
  constructor
  · intro same either
    have both : (kept kAuthUserLen user = cfg.authUser ∧ kept kAuthPassLen passwd = cfg.authPass) ∧
        user = cfg.authUser ∧ passwd = cfg.authPass := by
      rcases either with seen | sent
      · exact ⟨seen, same.mp seen⟩
      · exact ⟨same.mpr sent, sent⟩
    obtain ⟨⟨seenUser, seenPass⟩, sentUser, sentPass⟩ := both
    exact ⟨seenUser.trans sentUser.symm, seenPass.trans sentPass.symm⟩
  · intro fits
    constructor
    · intro seen
      obtain ⟨wholeUser, wholePass⟩ := fits (.inl seen)
      exact ⟨wholeUser.symm.trans seen.1, wholePass.symm.trans seen.2⟩
    · intro sent
      obtain ⟨wholeUser, wholePass⟩ := fits (.inr sent)
      exact ⟨wholeUser.trans sent.1, wholePass.trans sent.2⟩

def userConfig (user : Bytes) : HubConfig := { smallConfig 4 with authUser := user }

/-- A configured user of 33 bytes is refused. A longer user is accepted for the configured one of 32
bytes that it begins with, and `"a\0b"` is accepted for `"a"`. -/
theorem fields_cut_credentials :
    ¬ AuthenticatesExactly (userConfig (List.replicate 33 97)) 0 (List.replicate 33 97) [] 1 ∧
      ¬ AuthenticatesExactly (userConfig (List.replicate 32 97)) 0 (List.replicate 33 97) [] 1 ∧
      ¬ AuthenticatesExactly (userConfig [97]) 0 [97, 0, 98] [] 1 := by
  simp only [authenticatesExactly_iff_kept]
  decide

end Requests

end HiImCore.Hub
