import HiImCore.Hub.Router
import Mathlib.Data.Set.Card
import Mathlib.Data.Set.Finite.Lattice

/-! What the routing tables hold after any sequence of calls, told from the calls alone. -/

namespace HiImCore.Hub

open LastWriter Replay

inductive RouterOp where
  | subscribe (cmd : UInt32) (sub : Subscriber)
  | unsubscribe (cmd : UInt32) (sid : Nat)
  | removeSession (sid : Nat) (nid : UInt32)
  | bindNid (nid : UInt32) (sid : Nat) (reactorIdx : Int)
  | unbindNid (nid : UInt32) (sid : Nat)
  deriving DecidableEq, Repr

namespace RouterOp

def sid : RouterOp → Nat
  | .subscribe _ sub => sub.sid
  | .unsubscribe _ sid => sid
  | .removeSession sid _ => sid
  | .bindNid _ sid _ => sid
  | .unbindNid _ sid => sid

def onCommand (cmd : UInt32) : RouterOp → Write Nat Subscriber
  | .subscribe c sub => if c = cmd then .put sub else .keep
  | .unsubscribe c sid => if c = cmd then .erase sid else .keep
  | .removeSession sid _ => .erase sid
  | .bindNid _ _ _ => .keep
  | .unbindNid _ _ => .keep

def onNid (nid : UInt32) : RouterOp → Write Nat NidRoute
  | .subscribe _ _ => .keep
  | .unsubscribe _ _ => .keep
  | .removeSession sid n => if n = nid then .erase sid else .keep
  | .bindNid n sid reactorIdx => if n = nid then .put ⟨sid, reactorIdx⟩ else .keep
  | .unbindNid n sid => if n = nid then .erase sid else .keep

end RouterOp

namespace Router

def apply (r : Router) : RouterOp → Router
  | .subscribe cmd sub => (r.subscribe cmd sub).2
  | .unsubscribe cmd sid => (r.unsubscribe cmd sid).2
  | .removeSession sid nid => r.removeSession sid nid
  | .bindNid nid sid reactorIdx => r.bindNid nid sid reactorIdx
  | .unbindNid nid sid => r.unbindNid nid sid

def perform (ops : List RouterOp) : Router := replay apply empty ops

section Steps

variable (r : Router) (cmd c nid : UInt32) (sub : Subscriber) (sid : Nat)

theorem findSubscribers_subscribe :
    (r.subscribe c sub).2.findSubscribers cmd =
      if c = cmd then upsert (r.findSubscribers cmd) sub else r.findSubscribers cmd := by
  simp only [subscribe, findSubscribers, Function.update_apply, eq_comm (a := cmd)]
  split
  · rename_i here
    rw [here]
    rfl
  · rfl

theorem findSubscribers_unsubscribe :
    (r.unsubscribe c sid).2.findSubscribers cmd =
      if c = cmd then without sid (r.findSubscribers cmd) else r.findSubscribers cmd := by
  by_cases here : c = cmd
  · subst here
    rw [if_pos rfl]
    rcases unsubscribe_cases r c sid with ⟨absent, result⟩ | ⟨vec, found, ways⟩
    · rw [result]
      simp [findSubscribers, absent, without]
    · rcases ways with ⟨all, result⟩ | ⟨_, nothing, result⟩ | ⟨_, _, result⟩
      · rw [result]
        simp [findSubscribers, found, all]
      · rw [result]
        simp [findSubscribers, found, nothing]
      · rw [result]
        simp [findSubscribers, found]
  · rw [if_neg here, findSubscribers, unsubscribe_other (Ne.symm here), findSubscribers]

theorem findSubscribers_removeSession :
    (r.removeSession sid nid).findSubscribers cmd = without sid (r.findSubscribers cmd) := by
  simp only [findSubscribers, removeSession_subTable]
  cases r.subTable cmd <;> rfl

theorem findSubscribers_apply (op : RouterOp) :
    (r.apply op).findSubscribers cmd =
      revise Subscriber.sid (r.findSubscribers cmd) (op.onCommand cmd) := by
  cases op with
  | subscribe c sub =>
      rw [apply, findSubscribers_subscribe, RouterOp.onCommand]
      split <;> rfl
  | unsubscribe c sid =>
      rw [apply, findSubscribers_unsubscribe, RouterOp.onCommand]
      split <;> rfl
  | removeSession sid nid => exact findSubscribers_removeSession r cmd nid sid
  | bindNid n sid i => rfl
  | unbindNid n sid => simp only [apply, findSubscribers, unbindNid_subTable, RouterOp.onCommand, revise]

theorem findNidRoute_unbindNid :
    (r.unbindNid nid sid).findNidRoute nid =
      setCell NidRoute.sid (r.findNidRoute nid) (.erase sid) := by
  simp only [findNidRoute, unbindNid_nidMap, setCell, true_and, Option.map_eq_some_iff]

theorem findNidRoute_apply (op : RouterOp) :
    (r.apply op).findNidRoute nid =
      setCell NidRoute.sid (r.findNidRoute nid) (op.onNid nid) := by
  cases op with
  | subscribe c sub => rfl
  | unsubscribe c sid => simp only [apply, findNidRoute, unsubscribe_nidMap, RouterOp.onNid, setCell]
  | removeSession sid n =>
      simp only [RouterOp.onNid]
      split
      · rename_i here
        subst here
        exact findNidRoute_unbindNid _ n sid
      · rename_i other
        simp only [apply, findNidRoute, removeSession_nidMap, setCell]
        rw [if_neg (fun both => other both.1.symm)]
  | bindNid n sid i =>
      simp only [apply, findNidRoute, bindNid_nidMap, RouterOp.onNid, eq_comm (a := nid)]
      split <;> rfl
  | unbindNid n sid =>
      simp only [RouterOp.onNid]
      split
      · rename_i here
        subst here
        exact findNidRoute_unbindNid r n sid
      · rename_i other
        simp only [apply, findNidRoute, unbindNid_nidMap, setCell]
        rw [if_neg (fun both => other both.1.symm)]

end Steps

theorem findSubscribers_perform (ops : List RouterOp) (cmd : UInt32) :
    (perform ops).findSubscribers cmd =
      replay (revise Subscriber.sid) [] (ops.map (RouterOp.onCommand cmd)) :=
  replay_simulates apply (fun r => r.findSubscribers cmd) (RouterOp.onCommand cmd)
    (fun r op => findSubscribers_apply r cmd op) empty ops

theorem findNidRoute_perform (ops : List RouterOp) (nid : UInt32) :
    (perform ops).findNidRoute nid =
      replay (setCell NidRoute.sid) none (ops.map (RouterOp.onNid nid)) :=
  replay_simulates apply (fun r => r.findNidRoute nid) (RouterOp.onNid nid)
    (fun r op => findNidRoute_apply r nid op) empty ops

/-- The tables are those that the calls describe: every command lists its subscribers as an
insertion-ordered map would, and every nid has the route that was bound last. -/
structure Follows (ops : List RouterOp) (r : Router) : Prop where
  once : ∀ cmd, ((r.findSubscribers cmd).map Subscriber.sid).Nodup
  listed : ∀ cmd sub, sub ∈ r.findSubscribers cmd ↔
    Listed Subscriber.sid (ops.map (RouterOp.onCommand cmd)) sub
  ordered : ∀ cmd, ((r.findSubscribers cmd).map Subscriber.sid).Pairwise
    (EnteredBefore Subscriber.sid (ops.map (RouterOp.onCommand cmd)))
  counted : ∀ cmd, r.subscriptionCount cmd = (r.findSubscribers cmd).length
  ended : ∀ cmd sid, (r.unsubscribe cmd sid).1 = .ok ↔
    sid ∈ (r.findSubscribers cmd).map Subscriber.sid
  refused : ∀ cmd sid, sid ∉ (r.findSubscribers cmd).map Subscriber.sid →
    r.unsubscribe cmd sid = (.error .kNotFound "", r)
  routed : ∀ nid route, r.findNidRoute nid = some route ↔
    Since (· = .put route) (Replaces route.sid) (ops.map (RouterOp.onNid nid))

/-- A call leaves the entries of other sessions alone, and their routes unless it binds
their nid. -/
structure Spares (r : Router) (op : RouterOp) : Prop where
  subscribers : ∀ cmd, without op.sid ((r.apply op).findSubscribers cmd) =
    without op.sid (r.findSubscribers cmd)
  routes : ∀ nid route, route.sid ≠ op.sid → (∀ i, op ≠ .bindNid nid op.sid i) →
    ((r.apply op).findNidRoute nid = some route ↔ r.findNidRoute nid = some route)

theorem subscriptionCount_eq (r : Router) (cmd : UInt32) :
    r.subscriptionCount cmd = (r.findSubscribers cmd).length := by
  unfold subscriptionCount findSubscribers
  cases r.subTable cmd <;> rfl

theorem without_eq_self_iff (sid : Nat) (vec : List Subscriber) :
    without sid vec = vec ↔ sid ∉ vec.map Subscriber.sid := by
  rw [without, List.filter_eq_self]
  constructor
  · intro others present
    obtain ⟨sub, member, rfl⟩ := List.mem_map.mp present
    simpa using others sub member
  · intro absent sub member
    have other : sub.sid ≠ sid := fun same => absent (same ▸ List.mem_map_of_mem member)
    simpa using other

theorem unsubscribe_absent {r : Router} {cmd : UInt32} {sid : Nat}
    (absent : sid ∉ (r.findSubscribers cmd).map Subscriber.sid) :
    r.unsubscribe cmd sid = (.error .kNotFound "", r) := by
  rcases unsubscribe_cases r cmd sid with ⟨_, result⟩ | ⟨vec, found, ways⟩
  · exact result
  · have all : without sid vec = vec := by
      rw [findSubscribers, found] at absent
      exact (without_eq_self_iff sid vec).mpr absent
    rcases ways with ⟨_, result⟩ | ⟨some, _⟩ | ⟨some, _⟩
    · exact result
    · exact absurd all some
    · exact absurd all some

theorem unsubscribe_ok_iff (r : Router) (cmd : UInt32) (sid : Nat) :
    (r.unsubscribe cmd sid).1 = .ok ↔ sid ∈ (r.findSubscribers cmd).map Subscriber.sid := by
  by_cases present : sid ∈ (r.findSubscribers cmd).map Subscriber.sid
  · refine iff_of_true ?_ present
    rcases unsubscribe_cases r cmd sid with ⟨absent, _⟩ | ⟨vec, found, ways⟩
    · simp [findSubscribers, absent] at present
    · rw [findSubscribers, found] at present
      rcases ways with ⟨all, _⟩ | ⟨_, _, result⟩ | ⟨_, _, result⟩
      · exact absurd present ((without_eq_self_iff sid vec).mp all)
      · rw [result]
      · rw [result]
  · refine iff_of_false ?_ present
    rw [unsubscribe_absent present]
    simp [Status.error, Status.ok]

theorem spares (r : Router) (op : RouterOp) : r.Spares op where
  subscribers := by
    intro cmd
    rw [findSubscribers_apply]
    cases op with
    | subscribe c sub =>
        simp only [RouterOp.onCommand]
        split
        · exact without_put Subscriber.sid _ sub
        · rfl
    | unsubscribe c sid =>
        simp only [RouterOp.onCommand]
        split
        · exact without_without
        · rfl
    | removeSession sid nid => exact without_without
    | bindNid n sid i => rfl
    | unbindNid n sid => rfl
  routes := by
    intro nid route other unbound
    rw [findNidRoute_apply]
    cases op with
    | subscribe c sub => rfl
    | unsubscribe c sid => rfl
    | removeSession sid n =>
        simp only [RouterOp.onNid]
        split
        · exact setCell_erase_other other
        · rfl
    | bindNid n sid i =>
        simp only [RouterOp.onNid]
        rw [if_neg]
        · rfl
        · rintro rfl
          exact unbound i rfl
    | unbindNid n sid =>
        simp only [RouterOp.onNid]
        split
        · exact setCell_erase_other other
        · rfl

/-- After any calls the router is the insertion-ordered subscription map and the last-writer
nid map of these calls, and no further call touches what belongs to other sessions. -/
theorem router_refines_ordered_maps (ops : List RouterOp) :
    (perform ops).Follows ops ∧ ∀ op, (perform ops).Spares op := by
  have matched : ∀ cmd, Matches Subscriber.sid (ops.map (RouterOp.onCommand cmd))
      ((perform ops).findSubscribers cmd) := by
    intro cmd
    rw [findSubscribers_perform]
    exact replay_matches _
  refine ⟨?_, spares (perform ops)⟩
  exact {
    once := fun cmd => (matched cmd).once
    listed := fun cmd => (matched cmd).listed
    ordered := fun cmd => (matched cmd).ordered
    counted := subscriptionCount_eq (perform ops)
    ended := unsubscribe_ok_iff (perform ops)
    refused := fun cmd sid absent => unsubscribe_absent absent
    routed := by
      intro nid route
      rw [findNidRoute_perform]
      exact replay_setCell_iff _ route }

def commands (r : Router) : Set UInt32 := {cmd | r.subTable cmd ≠ none}

def subscriptions (r : Router) : Set (UInt32 × Nat) :=
  {x | x.2 ∈ (r.findSubscribers x.1).map Subscriber.sid}

def AllRemoved (ops : List RouterOp) : Prop :=
  ∀ before cmd sub after, ops = before ++ .subscribe cmd sub :: after →
    ∃ nid, .removeSession sub.sid nid ∈ after

/-- The table has no key without subscribers. -/
structure NoDeadCommands (ops : List RouterOp) (r : Router) : Prop where
  live : ∀ cmd vec, r.subTable cmd = some vec → vec ≠ []
  few : r.commands.ncard ≤ r.subscriptions.ncard
  cleared : AllRemoved ops → r.commands = ∅

def Abandons (r : Router) (cmd : UInt32) : RouterOp → Prop
  | .removeSession sid _ =>
      r.findSubscribers cmd ≠ [] ∧ ∀ sub ∈ r.findSubscribers cmd, sub.sid = sid
  | _ => False

/-- A call of `RemoveSession` took the last subscriber of the command, which has got no new
one since. -/
def Abandoned (ops : List RouterOp) (cmd : UInt32) : Prop :=
  ∃ before op after, ops = before ++ op :: after ∧ (perform before).Abandons cmd op ∧
    ∀ sub, .subscribe cmd sub ∉ after

variable {r : Router} {ops past : List RouterOp} {cmd : UInt32} {op : RouterOp}

theorem abandoned_snoc : Abandoned (past ++ [op]) cmd ↔
    (perform past).Abandons cmd op ∨ Abandoned past cmd ∧ ∀ sub, op ≠ .subscribe cmd sub := by
  constructor
  · rintro ⟨before, x, after, split, abandons, quiet⟩
    rcases snoc_eq_append_cons.mp split with ⟨rfl, rfl, rfl⟩ | ⟨later, rfl, rfl⟩
    · exact .inl abandons
    · refine .inr ⟨⟨before, x, later, rfl, abandons, ?_⟩, ?_⟩
      · intro sub member
        exact quiet sub (List.mem_append_left _ member)
      · rintro sub rfl
        exact quiet sub (List.mem_append_right _ (List.mem_singleton.mpr rfl))
  · rintro (now | ⟨⟨before, x, after, rfl, abandons, quiet⟩, still⟩)
    · exact ⟨past, op, [], rfl, now, fun sub member => by cases member⟩
    · refine ⟨before, x, after ++ [op], by simp, abandons, ?_⟩
      intro sub member
      rcases List.mem_append.mp member with old | new
      · exact quiet sub old
      · exact still sub (List.mem_singleton.mp new).symm

theorem upsert_ne_nil (vec : List Subscriber) (sub : Subscriber) : upsert vec sub ≠ [] := by
  rw [upsert_eq_put]
  rcases LastWriter.put_cases Subscriber.sid vec sub with ⟨_, result⟩ | ⟨_, _, _, _, _, result⟩ <;>
    simp [result]

theorem unsubscribe_dead_iff (r : Router) (c cmd : UInt32) (sid : Nat) :
    (r.unsubscribe c sid).2.subTable cmd = some [] ↔ r.subTable cmd = some [] := by
  by_cases here : cmd = c
  · subst here
    rcases unsubscribe_cases r cmd sid with ⟨_, result⟩ | ⟨vec, found, ways⟩
    · rw [result]
    · have nonempty : without sid vec ≠ vec → vec ≠ [] := by
        rintro changed rfl
        exact changed rfl
      rcases ways with ⟨_, result⟩ | ⟨changed, _, result⟩ | ⟨changed, left, result⟩
      · rw [result]
      · simp [result, found, nonempty changed]
      · simp [result, found, nonempty changed, left]
  · rw [unsubscribe_other here]

theorem removeSession_dead_iff (r : Router) (sid : Nat) (nid cmd : UInt32) :
    (r.removeSession sid nid).subTable cmd = some [] ↔
      (r.findSubscribers cmd ≠ [] ∧ ∀ sub ∈ r.findSubscribers cmd, sub.sid = sid) ∨
        r.subTable cmd = some [] := by
  rw [removeSession_subTable]
  cases found : r.subTable cmd with
  | none => simp [findSubscribers, found]
  | some vec =>
      simp only [Option.map_some, Option.some.injEq, findSubscribers, found, Option.getD_some,
        without, List.filter_eq_nil_iff, bne_iff_ne, ne_eq, not_not]
      constructor
      · intro all
        by_cases nothing : vec = []
        · exact .inr nothing
        · exact .inl ⟨nothing, all⟩
      · rintro (⟨_, all⟩ | rfl)
        · exact all
        · intro sub member
          cases member

theorem apply_dead_iff (r : Router) (op : RouterOp) (cmd : UInt32) :
    (r.apply op).subTable cmd = some [] ↔
      r.Abandons cmd op ∨ r.subTable cmd = some [] ∧ ∀ sub, op ≠ .subscribe cmd sub := by
  cases op with
  | subscribe c new =>
      simp only [apply, subscribe, Function.update_apply, Abandons, false_or]
      split
      · rename_i here
        subst here
        refine iff_of_false ?_ (fun both => both.2 new rfl)
        intro same
        exact upsert_ne_nil _ _ (Option.some.inj same)
      · rename_i other
        refine (and_iff_left ?_).symm
        rintro sub same
        exact other (RouterOp.subscribe.inj same).1.symm
  | unsubscribe c sid => simpa [apply, Abandons] using unsubscribe_dead_iff r c cmd sid
  | removeSession sid nid => simpa [apply, Abandons] using removeSession_dead_iff r sid nid cmd
  | bindNid n sid i => simp [apply, Abandons]
  | unbindNid n sid => simp [apply, Abandons]

theorem dead_iff_abandoned (ops : List RouterOp) (cmd : UInt32) :
    (perform ops).subTable cmd = some [] ↔ Abandoned ops cmd := by
  induction ops using List.reverseRecOn with
  | nil =>
      refine iff_of_false (by simp [perform, empty]) ?_
      rintro ⟨before, x, after, split, _⟩
      cases before <;> cases split
  | append_singleton past op ih =>
      rw [abandoned_snoc, ← ih, ← apply_dead_iff, perform, replay_append]
      rfl

theorem subscriptions_finite (r : Router) : r.subscriptions.Finite := by
  have union : r.subscriptions = ⋃ cmd, (fun sid => (cmd, sid)) ''
      {sid | sid ∈ (r.findSubscribers cmd).map Subscriber.sid} := by
    ext ⟨c, s⟩
    simp [subscriptions]
  have : Finite UInt32 := Finite.of_injective UInt32.toFin fun a b same => UInt32.toFin_inj.mp same
  rw [union]
  exact Set.finite_iUnion fun cmd => (List.finite_toSet _).image _

theorem few_commands (live : ∀ cmd vec, r.subTable cmd = some vec → vec ≠ []) :
    r.commands.ncard ≤ r.subscriptions.ncard := by
  have covered : r.commands ⊆ Prod.fst '' r.subscriptions := by
    intro cmd present
    obtain ⟨vec, found⟩ := Option.ne_none_iff_exists'.mp present
    obtain ⟨sub, rest, rfl⟩ := List.exists_cons_of_ne_nil (live cmd vec found)
    refine ⟨(cmd, sub.sid), ?_, rfl⟩
    simp [subscriptions, findSubscribers, found]
  calc
    r.commands.ncard ≤ (Prod.fst '' r.subscriptions).ncard :=
      Set.ncard_le_ncard covered ((subscriptions_finite r).image _)
    _ ≤ r.subscriptions.ncard := Set.ncard_image_le (subscriptions_finite r)

theorem removed_findSubscribers (removed : AllRemoved ops) (cmd : UInt32) :
    (perform ops).findSubscribers cmd = [] := by
  have matched : Matches Subscriber.sid (ops.map (RouterOp.onCommand cmd))
      ((perform ops).findSubscribers cmd) := by
    rw [findSubscribers_perform]
    exact replay_matches _
  refine List.eq_nil_iff_forall_not_mem.mpr fun sub member => ?_
  obtain ⟨front, w, back, split, rfl, kept⟩ := (matched.listed sub).mp member
  obtain ⟨before, rest, rfl, rfl, cut⟩ := List.map_eq_append_iff.mp split
  obtain ⟨op, after, rfl, puts, rfl⟩ := List.map_eq_cons_iff.mp cut
  cases op with
  | subscribe c new =>
      simp only [RouterOp.onCommand] at puts
      split at puts
      · rename_i here
        obtain rfl := Write.put.inj puts
        obtain ⟨nid, later⟩ := removed before c new after rfl
        exact kept (.erase new.sid) (List.mem_map_of_mem later) rfl
      · cases puts
  | unsubscribe c sid =>
      simp only [RouterOp.onCommand] at puts
      split at puts <;> cases puts
  | removeSession sid nid => cases puts
  | bindNid n sid i => cases puts
  | unbindNid n sid => cases puts

/-- No key without subscribers is left by a sequence of calls if and only if no command was
abandoned by the removal of its last subscriber. -/
theorem no_dead_commands_iff (ops : List RouterOp) :
    (perform ops).NoDeadCommands ops ↔ ∀ cmd, ¬ Abandoned ops cmd := by
  constructor
  · intro clean cmd abandoned
    exact clean.live cmd [] ((dead_iff_abandoned ops cmd).mpr abandoned) rfl
  · intro kept
    have live : ∀ cmd vec, (perform ops).subTable cmd = some vec → vec ≠ [] := by
      rintro cmd vec found rfl
      exact kept cmd ((dead_iff_abandoned ops cmd).mp found)
    refine ⟨live, few_commands live, fun removed => ?_⟩
    refine Set.eq_empty_iff_forall_notMem.mpr fun cmd present => ?_
    obtain ⟨vec, found⟩ := Option.ne_none_iff_exists'.mp present
    have nothing := removed_findSubscribers removed cmd
    rw [findSubscribers, found] at nothing
    exact live cmd vec found nothing

/-- A session subscribes to command 9 and is removed: the key stays. -/
theorem removed_session_leaves_dead_command :
    (perform [.subscribe 9 ⟨1, 1, 2, 0⟩, .removeSession 1 2]).subTable 9 = some [] := by
  decide

end Router

end HiImCore.Hub
