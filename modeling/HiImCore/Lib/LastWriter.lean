import HiImCore.Lib.Replay
import Mathlib.Data.List.Nodup

/-! What a history of writes leaves: a list with one entry a key, in the order in which the
keys came in, and a cell whose entry is erased only under its own key. -/

namespace HiImCore.LastWriter

open Replay

inductive Write (κ β : Type) where
  | put (entry : β)
  | erase (key : κ)
  | keep
  deriving DecidableEq

variable {κ β : Type}

theorem put_ne_erase {entry : β} {k : κ} : (Write.put entry : Write κ β) ≠ .erase k := by
  intro same
  cases same

section Histories

variable (key : β → κ)

def Concerns (k : κ) : Write κ β → Prop
  | .put entry => key entry = k
  | .erase j => j = k
  | .keep => False

def Puts (k : κ) : Write κ β → Prop
  | .put entry => key entry = k
  | _ => False

def Listed (history : List (Write κ β)) (entry : β) : Prop :=
  Since (· = .put entry) (Concerns key (key entry)) history

def EnteredAt (history : List (Write κ β)) (k : κ) (n : Nat) : Prop :=
  BegunAt (Puts key k) (· = .erase k) history n

def EnteredBefore (history : List (Write κ β)) (first second : κ) : Prop :=
  ∃ m n, EnteredAt key history first m ∧ EnteredAt key history second n ∧ m < n

structure Matches (history : List (Write κ β)) (entries : List β) : Prop where
  once : (entries.map key).Nodup
  listed : ∀ entry, entry ∈ entries ↔ Listed key history entry
  ordered : (entries.map key).Pairwise (EnteredBefore key history)

variable {key} {past : List (Write κ β)} {w : Write κ β} {entries : List β} {entry : β} {j k : κ}

theorem listed_snoc : Listed key (past ++ [w]) entry ↔
    w = .put entry ∨ Listed key past entry ∧ ¬ Concerns key (key entry) w := since_snoc

theorem EnteredBefore.still (before : EnteredBefore key past j k) (first : w ≠ .erase j)
    (second : w ≠ .erase k) : EnteredBefore key (past ++ [w]) j k := by
  obtain ⟨m, n, entered, later, less⟩ := before
  exact ⟨m, n, BegunAt.still entered first, BegunAt.still later second, less⟩

theorem since_puts_iff (history : List (Write κ β)) (k : κ) :
    Since (Puts key k) (· = .erase k) history ↔ ∃ entry, key entry = k ∧ Listed key history entry := by
  induction history using List.reverseRecOn with
  | nil =>
      constructor
      · intro since
        exact absurd since not_since_nil
      · rintro ⟨_, _, listed⟩
        exact absurd listed not_since_nil
  | append_singleton past w ih =>
      simp only [since_snoc, ih, listed_snoc]
      cases w with
      | put entry =>
          constructor
          · rintro (here | ⟨⟨old, rfl, listed⟩, _⟩)
            · exact ⟨entry, here, Or.inl rfl⟩
            · by_cases same : key entry = key old
              · exact ⟨entry, same, Or.inl rfl⟩
              · exact ⟨old, rfl, Or.inr ⟨listed, same⟩⟩
          · rintro ⟨x, rfl, same | ⟨listed, other⟩⟩
            · obtain rfl := Write.put.inj same
              exact Or.inl rfl
            · exact Or.inr ⟨⟨x, rfl, listed⟩, put_ne_erase⟩
      | erase j =>
          simp only [Puts, false_or, Write.erase.injEq, reduceCtorEq, Concerns]
          constructor
          · rintro ⟨⟨x, rfl, listed⟩, other⟩
            exact ⟨x, rfl, listed, other⟩
          · rintro ⟨x, rfl, listed, other⟩
            exact ⟨⟨x, rfl, listed⟩, other⟩
      | keep => simp [Puts, Concerns]

theorem enteredBefore_new {x : β} (listed : Listed key past x)
    (new : ∀ old, Listed key past old → key old ≠ key entry) :
    EnteredBefore key (past ++ [.put entry]) (key x) (key entry) := by
  have since := (since_puts_iff past (key x)).mpr ⟨x, rfl, listed⟩
  have apart : ∀ w : Write κ β, Puts key (key x) w → w ≠ .erase (key x) := by
    rintro w puts rfl
    exact puts
  obtain ⟨m, entered⟩ := since_begunAt apart since
  have fresh : ¬ Since (Puts key (key entry)) (· = .erase (key entry)) past := by
    rw [since_puts_iff]
    rintro ⟨old, same, present⟩
    exact new old present same
  exact ⟨m, past.length, BegunAt.still entered put_ne_erase, begunAt_now rfl fresh, entered.lt⟩

theorem Matches.keep (before : Matches key past entries) :
    Matches key (past ++ [.keep]) entries where
  once := before.once
  listed := by
    intro x
    rw [before.listed, listed_snoc]
    simp [Concerns]
  ordered := by
    have kept : ∀ j : κ, (.keep : Write κ β) ≠ .erase j := by
      intro j same
      cases same
    exact before.ordered.imp fun ordered => ordered.still (kept _) (kept _)

end Histories

section Entries

variable [DecidableEq κ] (key : β → κ)

def put (entries : List β) (entry : β) : List β :=
  match entries.findIdx? (fun x => key x == key entry) with
  | some place => entries.set place entry
  | none => entries ++ [entry]

def without (k : κ) (entries : List β) : List β := entries.filter (fun x => key x != k)

def revise (entries : List β) : Write κ β → List β
  | .put entry => put key entries entry
  | .erase k => without key k entries
  | .keep => entries

theorem put_cases (entries : List β) (entry : β) :
    (key entry ∉ entries.map key ∧ put key entries entry = entries ++ [entry]) ∨
      ∃ front old back, entries = front ++ old :: back ∧ key old = key entry ∧
        put key entries entry = front ++ entry :: back := by
  unfold put
  split
  · rename_i place found
    obtain ⟨bound, same, _⟩ := List.findIdx?_eq_some_iff_getElem.mp found
    refine Or.inr ⟨entries.take place, entries[place], entries.drop (place + 1), ?_, ?_, ?_⟩
    · rw [List.getElem_cons_drop, List.take_append_drop]
    · simpa using same
    · rw [List.set_eq_take_append_cons_drop, if_pos bound]
  · rename_i missing
    refine Or.inl ⟨?_, rfl⟩
    intro present
    obtain ⟨x, member, same⟩ := List.mem_map.mp present
    have differs := List.findIdx?_eq_none_iff.mp missing x member
    simp [same] at differs

theorem put_keys (entries : List β) (entry : β) :
    (put key entries entry).map key =
      if key entry ∈ entries.map key then entries.map key else entries.map key ++ [key entry] := by
  rcases put_cases key entries entry with ⟨absent, result⟩ | ⟨front, old, back, rfl, same, result⟩
  · rw [result, if_neg absent, List.map_append, List.map_singleton]
  · rw [result, if_pos (by simp [same])]
    simp [same]

theorem without_put (entries : List β) (entry : β) :
    without key (key entry) (put key entries entry) = without key (key entry) entries := by
  rcases put_cases key entries entry with ⟨_, result⟩ | ⟨front, old, back, rfl, same, result⟩
  · rw [result]
    simp [without]
  · rw [result]
    simp [without, same]

variable {key} {past : List (Write κ β)} {entries : List β} {entry x : β} {k : κ}

theorem mem_without : x ∈ without key k entries ↔ x ∈ entries ∧ key x ≠ k := by
  simp [without]

theorem without_without : without key k (without key k entries) = without key k entries := by
  simp [without]

theorem without_keys : ((without key k entries).map key).Sublist (entries.map key) :=
  List.filter_sublist.map key

theorem mem_put_iff (unique : (entries.map key).Nodup) :
    x ∈ put key entries entry ↔ x = entry ∨ x ∈ entries ∧ key x ≠ key entry := by
  rcases put_cases key entries entry with ⟨absent, result⟩ | ⟨front, old, back, rfl, same, result⟩
  · have others : x ∈ entries → key x ≠ key entry := fun member same =>
      absent (same ▸ List.mem_map_of_mem member)
    rw [result, List.mem_append, List.mem_singleton, or_comm, and_iff_left_of_imp others]
  · have others : x ∈ front ++ back → key x ≠ key entry := by
      intro member here
      rw [List.map_append, List.map_cons, List.nodup_middle, List.nodup_cons] at unique
      refine unique.1 ?_
      rw [← List.map_append, same, ← here]
      exact List.mem_map_of_mem member
    have middle : ∀ y, x ∈ front ++ y :: back ↔ x = y ∨ x ∈ front ++ back := by
      intro y
      rw [List.mem_append, List.mem_cons, List.mem_append, or_left_comm]
    rw [result, middle, middle]
    constructor
    · rintro (rfl | member)
      · exact Or.inl rfl
      · exact Or.inr ⟨Or.inr member, others member⟩
    · rintro (rfl | ⟨rfl | member, other⟩)
      · exact Or.inl rfl
      · exact absurd same other
      · exact Or.inr member

theorem put_nodup (unique : (entries.map key).Nodup) (entry : β) :
    ((put key entries entry).map key).Nodup := by
  rw [put_keys]
  split
  · exact unique
  · rename_i absent
    exact List.nodup_append'.mpr ⟨unique, List.nodup_singleton _, by simpa using absent⟩

theorem Matches.put (before : Matches key past entries) (entry : β) :
    Matches key (past ++ [.put entry]) (put key entries entry) where
  once := put_nodup before.once entry
  listed := by
    intro x
    rw [mem_put_iff before.once, listed_snoc, before.listed, Write.put.injEq, Concerns,
      ne_comm, eq_comm (a := x)]
  ordered := by
    have kept : (entries.map key).Pairwise (EnteredBefore key (past ++ [.put entry])) :=
      before.ordered.imp fun ordered => ordered.still put_ne_erase put_ne_erase
    rw [put_keys]
    split
    · exact kept
    · rename_i absent
      refine List.pairwise_append.mpr ⟨kept, List.pairwise_singleton _ _, ?_⟩
      intro j old k new
      obtain rfl := List.mem_singleton.mp new
      obtain ⟨x, member, rfl⟩ := List.mem_map.mp old
      refine enteredBefore_new ((before.listed x).mp member) ?_
      intro y present same
      exact absent (same ▸ List.mem_map_of_mem ((before.listed y).mpr present))

theorem Matches.erase (before : Matches key past entries) (k : κ) :
    Matches key (past ++ [.erase k]) (without key k entries) where
  once := before.once.sublist without_keys
  listed := by
    intro x
    rw [mem_without, listed_snoc, before.listed, Concerns, ne_comm]
    simp
  ordered := by
    refine (before.ordered.sublist without_keys).imp_of_mem ?_
    intro i j first second ordered
    have others : ∀ j ∈ (without key k entries).map key, (.erase k : Write κ β) ≠ .erase j := by
      intro j member same
      obtain ⟨x, inside, rfl⟩ := List.mem_map.mp member
      exact (mem_without.mp inside).2 (Write.erase.inj same).symm
    exact ordered.still (others i first) (others j second)

theorem replay_matches (history : List (Write κ β)) :
    Matches key history (replay (revise key) [] history) := by
  induction history using List.reverseRecOn with
  | nil =>
      refine ⟨List.nodup_nil, fun x => ?_, List.Pairwise.nil⟩
      exact iff_of_false List.not_mem_nil not_since_nil
  | append_singleton past w ih =>
      rw [replay_append]
      cases w with
      | put entry => exact ih.put entry
      | erase k => exact ih.erase k
      | keep => exact ih.keep

end Entries

section Cells

variable [DecidableEq κ] (key : β → κ)

def setCell (cell : Option β) : Write κ β → Option β
  | .put entry => some entry
  | .erase k => if cell.map key = some k then none else cell
  | .keep => cell

def Replaces (k : κ) : Write κ β → Prop
  | .put _ => True
  | .erase j => j = k
  | .keep => False

variable {key}

theorem setCell_erase_own {cell : Option β} {entry : β} {k : κ} (own : key entry = k) :
    setCell key cell (.erase k) ≠ some entry := by
  intro kept
  simp only [setCell] at kept
  split at kept
  · cases kept
  · rename_i other
    rw [kept] at other
    exact other (congrArg some own)

theorem setCell_erase_other {cell : Option β} {entry : β} {k : κ} (other : key entry ≠ k) :
    setCell key cell (.erase k) = some entry ↔ cell = some entry := by
  simp only [setCell]
  by_cases mine : cell.map key = some k
  · rw [if_pos mine]
    refine iff_of_false (by simp) ?_
    rintro rfl
    exact other (Option.some.inj mine)
  · rw [if_neg mine]

theorem replay_setCell_iff (history : List (Write κ β)) (entry : β) :
    replay (setCell key) none history = some entry ↔
      Since (· = .put entry) (Replaces (key entry)) history := by
  induction history using List.reverseRecOn with
  | nil => exact iff_of_false (by simp) not_since_nil
  | append_singleton past w ih =>
      rw [replay_append, since_snoc, ← ih]
      generalize replay (setCell key) none past = cell
      cases w with
      | put new => simp [setCell, Replaces]
      | erase k =>
          simp only [replay_cons, replay_nil, Replaces, reduceCtorEq, false_or]
          by_cases other : key entry = k
          · refine iff_of_false ?_ (fun both => both.2 other.symm)
            exact setCell_erase_own other
          · rw [setCell_erase_other other]
            exact (and_iff_left (Ne.symm other)).symm
      | keep => simp [setCell, Replaces]

end Cells

end HiImCore.LastWriter
