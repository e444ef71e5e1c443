import Mathlib.Data.List.Basic
import Mathlib.Logic.Function.Basic

/-! The places of a ring of slots between two indices, and the values in them. -/

namespace HiImCore.SlotRing

variable {α : Type}

def distance (size head tail : Nat) : Nat := (tail + size - head) % size

def window (size head count : Nat) (slots : Nat → α) : List α :=
  (List.range count).map fun j => slots ((head + j) % size)

variable {size head tail : Nat}

theorem succ_mod (inside : head < size) :
    (head + 1) % size = if head + 1 = size then 0 else head + 1 := by
  split
  · rename_i last
    rw [last, Nat.mod_self]
  · exact Nat.mod_eq_of_lt (by omega)

theorem distance_eq (first : head < size) (second : tail < size) :
    distance size head tail = if head ≤ tail then tail - head else tail + size - head := by
  unfold distance
  split
  · have shifted : tail + size - head = tail - head + size := by omega
    rw [shifted, Nat.add_mod_right, Nat.mod_eq_of_lt (by omega)]
  · exact Nat.mod_eq_of_lt (by omega)

theorem place_eq {j : Nat} (first : head < size) (inside : j < size) :
    (head + j) % size = if head + j < size then head + j else head + j - size := by
  split
  · rename_i low
    exact Nat.mod_eq_of_lt low
  · rw [Nat.mod_eq_sub_mod (by omega)]
    exact Nat.mod_eq_of_lt (by omega)

theorem distance_lt (second : tail < size) : distance size head tail < size :=
  Nat.mod_lt _ (by omega)

theorem place_ne_head {j : Nat} (first : head < size) (later : 0 < j) (before : j < size) :
    (head + j) % size ≠ head := by
  rw [place_eq first before]
  split <;> omega

section Places

variable (first : head < size) (second : tail < size)
include first second

theorem distance_zero_iff : distance size head tail = 0 ↔ head = tail := by
  rw [distance_eq first second]
  split <;> omega

theorem next_eq_head_iff : (tail + 1) % size = head ↔ distance size head tail + 1 = size := by
  rw [distance_eq first second, succ_mod second]
  split <;> split <;> omega

theorem distance_grow (room : distance size head tail + 1 < size) :
    distance size head ((tail + 1) % size) = distance size head tail + 1 := by
  have next : (tail + 1) % size < size := Nat.mod_lt _ (by omega)
  rw [distance_eq first second] at room ⊢
  rw [distance_eq first next, succ_mod second]
  split at room <;> split <;> split <;> omega

theorem distance_shrink (present : 0 < distance size head tail) :
    distance size ((head + 1) % size) tail + 1 = distance size head tail := by
  have next : (head + 1) % size < size := Nat.mod_lt _ (by omega)
  rw [distance_eq first second] at present ⊢
  rw [distance_eq next second, succ_mod first]
  split at present <;> split <;> split <;> omega

theorem place_tail : (head + distance size head tail) % size = tail := by
  rw [place_eq first (distance_lt second), distance_eq first second]
  split <;> split <;> omega

theorem place_ne_tail {j : Nat} (before : j < distance size head tail) :
    (head + j) % size ≠ tail := by
  have inside : j < size := Nat.lt_trans before (distance_lt second)
  rw [place_eq first inside]
  rw [distance_eq first second] at before
  split at before <;> split <;> omega

end Places

@[simp] theorem window_length (size head count : Nat) (slots : Nat → α) :
    (window size head count slots).length = count := by
  simp [window]

theorem window_congr {count : Nat} {slots others : Nat → α}
    (same : ∀ j < count, slots ((head + j) % size) = others ((head + j) % size)) :
    window size head count slots = window size head count others :=
  List.map_congr_left fun j member => same j (List.mem_range.mp member)

theorem window_update {count place : Nat} {slots : Nat → α} (value : α)
    (outside : ∀ j < count, (head + j) % size ≠ place) :
    window size head count (Function.update slots place value) = window size head count slots :=
  window_congr fun j inside => Function.update_of_ne (outside j inside) value slots

theorem window_snoc (size head count : Nat) (slots : Nat → α) :
    window size head (count + 1) slots =
      window size head count slots ++ [slots ((head + count) % size)] := by
  simp [window, List.range_succ]

theorem window_cons (inside : head < size) (count : Nat) (slots : Nat → α) :
    window size head (count + 1) slots =
      slots head :: window size ((head + 1) % size) count slots := by
  unfold window
  rw [List.range_succ_eq_map, List.map_cons, List.map_map, Nat.add_zero, Nat.mod_eq_of_lt inside]
  congr 1
  refine List.map_congr_left fun j _ => ?_
  rw [Nat.mod_add_mod, Nat.add_right_comm]
  rfl

end HiImCore.SlotRing
