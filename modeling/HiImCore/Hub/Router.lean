import HiImCore.Lib.LastWriter
import Mathlib.Logic.Function.Basic

/-! The routing tables of one plane (`src/hub/router.cpp`). Every method runs under
the router's lock, so a call is one atomic step. Session ids are natural numbers:
the 64-bit counter does not wrap within a run. -/

namespace HiImCore.Hub

inductive StatusCode where
  | kOk
  | kInvalidArgument
  | kNotFound
  | kAlreadyExists
  | kUnauthenticated
  | kPermissionDenied
  | kQueueFull
  | kIoError
  | kInternal
  deriving DecidableEq, Repr

structure Status where
  code : StatusCode
  message : String
  deriving DecidableEq, Repr

def Status.ok : Status := ⟨.kOk, ""⟩

def Status.error (code : StatusCode) (message : String) : Status := ⟨code, message⟩

structure Subscriber where
  gid : UInt32
  sid : Nat
  nid : UInt32
  reactorIdx : Int
  deriving DecidableEq, Repr

structure NidRoute where
  sid : Nat
  reactorIdx : Int
  deriving DecidableEq, Repr

structure Router where
  subTable : UInt32 → Option (List Subscriber)
  nidMap : UInt32 → Option NidRoute

namespace Router

def empty : Router := ⟨fun _ => none, fun _ => none⟩

/-- The vector after `Subscribe`: the first entry of the session is overwritten
where it stands, or the new one goes to the back. -/
def upsert (vec : List Subscriber) (sub : Subscriber) : List Subscriber :=
  match vec.findIdx? (fun s => s.sid == sub.sid) with
  | some place => vec.set place sub
  | none => vec ++ [sub]

def subscribe (r : Router) (cmd : UInt32) (sub : Subscriber) : Status × Router :=
  let vec := (r.subTable cmd).getD []
  (.ok, { r with subTable := Function.update r.subTable cmd (some (upsert vec sub)) })

def without (sid : Nat) (vec : List Subscriber) : List Subscriber :=
  vec.filter (fun s => s.sid != sid)

def unsubscribe (r : Router) (cmd : UInt32) (sid : Nat) : Status × Router :=
  match r.subTable cmd with
  | none => (.error .kNotFound "", r)
  | some vec =>
      let left := without sid vec
      if left.length = vec.length then (.error .kNotFound "", r)
      else if left.isEmpty then
        (.ok, { r with subTable := Function.update r.subTable cmd none })
      else (.ok, { r with subTable := Function.update r.subTable cmd (some left) })

def unbindNid (r : Router) (nid : UInt32) (sid : Nat) : Router :=
  match r.nidMap nid with
  | none => r
  | some route =>
      if route.sid = sid then { r with nidMap := Function.update r.nidMap nid none } else r

/-- The vectors are emptied of the session but stay in the table. -/
def removeSession (r : Router) (sid : Nat) (nid : UInt32) : Router :=
  let swept := { r with subTable := fun cmd => (r.subTable cmd).map (without sid) }
  unbindNid swept nid sid

def findSubscribers (r : Router) (cmd : UInt32) : List Subscriber := (r.subTable cmd).getD []

def findNidRoute (r : Router) (nid : UInt32) : Option NidRoute := r.nidMap nid

def bindNid (r : Router) (nid : UInt32) (sid : Nat) (reactorIdx : Int) : Router :=
  { r with nidMap := Function.update r.nidMap nid (some ⟨sid, reactorIdx⟩) }

def subscriptionCount (r : Router) (cmd : UInt32) : Nat :=
  match r.subTable cmd with
  | none => 0
  | some vec => vec.length

@[simp] theorem subscribe_nidMap (r : Router) (cmd : UInt32) (sub : Subscriber) :
    (r.subscribe cmd sub).2.nidMap = r.nidMap := rfl

@[simp] theorem bindNid_subTable (r : Router) (nid : UInt32) (sid : Nat) (i : Int) :
    (r.bindNid nid sid i).subTable = r.subTable := rfl

theorem unsubscribe_cases (r : Router) (c : UInt32) (sid : Nat) :
    (r.subTable c = none ∧ r.unsubscribe c sid = (.error .kNotFound "", r)) ∨
      ∃ vec, r.subTable c = some vec ∧
        ((without sid vec = vec ∧ r.unsubscribe c sid = (.error .kNotFound "", r)) ∨
          (without sid vec ≠ vec ∧ without sid vec = [] ∧
            r.unsubscribe c sid =
              (.ok, { r with subTable := Function.update r.subTable c none })) ∨
          (without sid vec ≠ vec ∧ without sid vec ≠ [] ∧
            r.unsubscribe c sid =
              (.ok, { r with
                subTable := Function.update r.subTable c (some (without sid vec)) }))) := by
  cases found : r.subTable c with
  | none => exact .inl ⟨rfl, by simp only [unsubscribe, found]⟩
  | some vec =>
      have same : (without sid vec).length = vec.length ↔ without sid vec = vec :=
        List.length_filter_eq_length_iff.trans List.filter_eq_self.symm
      refine .inr ⟨vec, rfl, ?_⟩
      simp only [unsubscribe, found, same, List.isEmpty_iff]
      by_cases all : without sid vec = vec
      · exact .inl ⟨all, if_pos all⟩
      · by_cases nothing : without sid vec = []
        · exact .inr (.inl ⟨all, nothing, by rw [if_neg all, if_pos nothing]⟩)
        · exact .inr (.inr ⟨all, nothing, by rw [if_neg all, if_neg nothing]⟩)

theorem unsubscribe_other {cmd c : UInt32} (other : cmd ≠ c) (r : Router) (sid : Nat) :
    (r.unsubscribe c sid).2.subTable cmd = r.subTable cmd := by
  rcases unsubscribe_cases r c sid with ⟨_, result⟩ | ⟨vec, _, ways⟩
  · rw [result]
  · rcases ways with ⟨_, result⟩ | ⟨_, _, result⟩ | ⟨_, _, result⟩
    · rw [result]
    · simp [result, other]
    · simp [result, other]

@[simp] theorem unsubscribe_nidMap (r : Router) (cmd : UInt32) (sid : Nat) :
    (r.unsubscribe cmd sid).2.nidMap = r.nidMap := by
  rcases unsubscribe_cases r cmd sid with ⟨_, result⟩ | ⟨vec, _, ways⟩
  · rw [result]
  · rcases ways with ⟨_, result⟩ | ⟨_, _, result⟩ | ⟨_, _, result⟩ <;> rw [result]

@[simp] theorem unbindNid_subTable (r : Router) (nid : UInt32) (sid : Nat) :
    (r.unbindNid nid sid).subTable = r.subTable := by
  unfold unbindNid
  split
  · rfl
  · split <;> rfl

theorem bindNid_nidMap (r : Router) (nid : UInt32) (sid : Nat) (i : Int) (n : UInt32) :
    (r.bindNid nid sid i).nidMap n = if n = nid then some ⟨sid, i⟩ else r.nidMap n := by
  simp only [bindNid, Function.update_apply]

theorem unbindNid_nidMap (r : Router) (nid : UInt32) (sid : Nat) (n : UInt32) :
    (r.unbindNid nid sid).nidMap n =
      if n = nid ∧ ∃ route, r.nidMap nid = some route ∧ route.sid = sid then none
      else r.nidMap n := by
  unfold unbindNid
  cases found : r.nidMap nid with
  | none => simp
  | some route =>
      by_cases same : route.sid = sid
      · simp [same, Function.update_apply]
      · simp [same]

theorem removeSession_nidMap (r : Router) (sid : Nat) (nid n : UInt32) :
    (r.removeSession sid nid).nidMap n =
      if n = nid ∧ ∃ route, r.nidMap nid = some route ∧ route.sid = sid then none
      else r.nidMap n :=
  unbindNid_nidMap _ nid sid n

theorem removeSession_subTable (r : Router) (sid : Nat) (nid cmd : UInt32) :
    (r.removeSession sid nid).subTable cmd = (r.subTable cmd).map (without sid) := by
  simp only [removeSession, unbindNid_subTable]

theorem removeSession_route {r : Router} {sid : Nat} {nid n : UInt32} {route : NidRoute}
    (found : (r.removeSession sid nid).nidMap n = some route) :
    r.nidMap n = some route ∧ (n = nid → route.sid ≠ sid) := by
  rw [removeSession_nidMap] at found
  split at found
  · cases found
  · rename_i kept
    refine ⟨found, ?_⟩
    rintro rfl same
    exact kept ⟨rfl, route, found, same⟩

theorem upsert_eq_put (vec : List Subscriber) (sub : Subscriber) :
    upsert vec sub = LastWriter.put Subscriber.sid vec sub := rfl

theorem mem_without {sid : Nat} {vec : List Subscriber} {sub : Subscriber} :
    sub ∈ without sid vec ↔ sub ∈ vec ∧ sub.sid ≠ sid := LastWriter.mem_without

theorem mem_upsert {vec : List Subscriber} {sub x : Subscriber} (member : x ∈ upsert vec sub) :
    x = sub ∨ x ∈ vec := by
  rw [upsert_eq_put] at member
  rcases LastWriter.put_cases Subscriber.sid vec sub with ⟨_, new⟩ | ⟨front, old, back, rfl, _, new⟩
  · rw [new] at member
    simpa [or_comm] using member
  · rw [new] at member
    simp only [List.mem_append, List.mem_cons] at member ⊢
    tauto

theorem mem_findSubscribers {r : Router} {cmd : UInt32} {sub : Subscriber} :
    sub ∈ r.findSubscribers cmd ↔ ∃ vec, r.subTable cmd = some vec ∧ sub ∈ vec := by
  unfold findSubscribers
  cases r.subTable cmd with
  | none => simp
  | some vec => simp

theorem mem_subscribe {r : Router} {cmd c : UInt32} {new sub : Subscriber}
    (member : sub ∈ (r.subscribe cmd new).2.findSubscribers c) :
    c = cmd ∧ sub = new ∨ sub ∈ r.findSubscribers c := by
  simp only [subscribe, findSubscribers, Function.update_apply] at member
  split at member
  · rename_i here
    rcases mem_upsert member with same | old
    · exact Or.inl ⟨here, same⟩
    · exact Or.inr (here ▸ old)
  · exact Or.inr member

theorem mem_removeSession {r : Router} {sid : Nat} {nid c : UInt32} {sub : Subscriber}
    (member : sub ∈ (r.removeSession sid nid).findSubscribers c) :
    sub ∈ r.findSubscribers c ∧ sub.sid ≠ sid := by
  obtain ⟨vec, found, inside⟩ := mem_findSubscribers.mp member
  rw [removeSession_subTable, Option.map_eq_some_iff] at found
  obtain ⟨old, present, rfl⟩ := found
  obtain ⟨before, other⟩ := mem_without.mp inside
  exact ⟨mem_findSubscribers.mpr ⟨old, present, before⟩, other⟩

def Unique (r : Router) : Prop :=
  ∀ cmd vec, r.subTable cmd = some vec → (vec.map Subscriber.sid).Nodup

theorem unique_empty : Unique empty := by
  intro cmd vec found
  cases found

theorem Unique.findSubscribers {r : Router} (unique : Unique r) (cmd : UInt32) :
    ((r.findSubscribers cmd).map Subscriber.sid).Nodup := by
  unfold Router.findSubscribers
  cases found : r.subTable cmd with
  | none => simp
  | some vec => exact unique cmd vec found

theorem Unique.subscribe {r : Router} (unique : Unique r) (cmd : UInt32) (sub : Subscriber) :
    Unique (r.subscribe cmd sub).2 := by
  intro c vec found
  simp only [Router.subscribe, Function.update_apply] at found
  split at found
  · obtain rfl := Option.some.inj found
    exact LastWriter.put_nodup (unique.findSubscribers cmd) sub
  · exact unique c vec found

theorem without_nodup {vec : List Subscriber} (sid : Nat)
    (nodup : (vec.map Subscriber.sid).Nodup) : ((without sid vec).map Subscriber.sid).Nodup :=
  nodup.sublist LastWriter.without_keys

theorem unsubscribe_subTable {r : Router} {cmd c : UInt32} {sid : Nat} {vec : List Subscriber}
    (found : (r.unsubscribe cmd sid).2.subTable c = some vec) :
    (r.subTable c = some vec ∧ (c = cmd → without sid vec = vec)) ∨
      c = cmd ∧ ∃ old, r.subTable cmd = some old ∧ vec = without sid old := by
  by_cases here : c = cmd
  · subst here
    rcases unsubscribe_cases r c sid with ⟨absent, result⟩ | ⟨old, present, ways⟩
    · rw [result] at found
      cases absent.symm.trans found
    · rcases ways with ⟨all, result⟩ | ⟨_, _, result⟩ | ⟨_, _, result⟩
      · rw [result, present] at found
        cases found
        exact Or.inl ⟨present, fun _ => all⟩
      · simp [result] at found
      · simp only [result, Function.update_self, Option.some.injEq] at found
        exact Or.inr ⟨rfl, old, present, found.symm⟩
  · rw [unsubscribe_other here] at found
    exact Or.inl ⟨found, fun same => absurd same here⟩

theorem mem_unsubscribe {r : Router} {cmd c : UInt32} {sid : Nat} {sub : Subscriber}
    (member : sub ∈ (r.unsubscribe cmd sid).2.findSubscribers c) :
    sub ∈ r.findSubscribers c ∧ (c = cmd → sub.sid ≠ sid) := by
  obtain ⟨vec, found, inside⟩ := mem_findSubscribers.mp member
  rcases unsubscribe_subTable found with ⟨old, untouched⟩ | ⟨rfl, old, present, rfl⟩
  · refine ⟨mem_findSubscribers.mpr ⟨vec, old, inside⟩, ?_⟩
    intro here
    rw [← untouched here] at inside
    exact (mem_without.mp inside).2
  · obtain ⟨before, other⟩ := mem_without.mp inside
    exact ⟨mem_findSubscribers.mpr ⟨old, present, before⟩, fun _ => other⟩

theorem Unique.unsubscribe {r : Router} (unique : Unique r) (cmd : UInt32) (sid : Nat) :
    Unique (r.unsubscribe cmd sid).2 := by
  intro c vec found
  rcases unsubscribe_subTable found with ⟨old, _⟩ | ⟨rfl, old, present, rfl⟩
  · exact unique c vec old
  · exact without_nodup sid (unique c old present)

theorem Unique.removeSession {r : Router} (unique : Unique r) (sid : Nat) (nid : UInt32) :
    Unique (r.removeSession sid nid) := by
  intro c vec found
  rw [removeSession_subTable, Option.map_eq_some_iff] at found
  obtain ⟨old, present, rfl⟩ := found
  exact without_nodup sid (unique c old present)

theorem Unique.bindNid {r : Router} (unique : Unique r) (nid : UInt32) (sid : Nat) (i : Int) :
    Unique (r.bindNid nid sid i) := unique

end Router

end HiImCore.Hub
