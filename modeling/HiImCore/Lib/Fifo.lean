import HiImCore.Lib.Replay

/-! A bounded first-in first-out queue, as the histories of operations it allows. -/

namespace HiImCore.Fifo

open Replay

variable {α : Type}

inductive Op (α : Type) where
  | pushed (value : α)
  | refused (value : α)
  | popped (value : α)
  | missed
  deriving DecidableEq

def apply (items : List α) : Op α → List α
  | .pushed value => items ++ [value]
  | .popped _ => items.tail
  | _ => items

def Allows (capacity : Nat) (items : List α) : Op α → Prop
  | .pushed _ => items.length < capacity
  | .refused _ => items.length = capacity
  | .popped value => items.head? = some value
  | .missed => items = []

def Legal (capacity : Nat) (history : List (Op α)) : Prop :=
  Along apply (Allows capacity) [] history

def pushes : List (Op α) → List α := List.filterMap fun | .pushed value => some value | _ => none

def pops : List (Op α) → List α := List.filterMap fun | .popped value => some value | _ => none

variable {capacity : Nat} {history : List (Op α)}

@[simp] theorem pushes_append (first second : List (Op α)) :
    pushes (first ++ second) = pushes first ++ pushes second := List.filterMap_append

@[simp] theorem pops_append (first second : List (Op α)) :
    pops (first ++ second) = pops first ++ pops second := List.filterMap_append

theorem conserved (legal : Legal capacity history) :
    pushes history = pops history ++ replay apply [] history := by
  refine along_invariant apply (fun past items => pushes past = pops past ++ items) legal rfl ?_
  intro past items op _ _ kept allowed
  rw [pushes_append, pops_append, kept]
  cases op with
  | pushed value => simp [pushes, pops, apply]
  | popped value =>
      cases items with
      | nil => cases allowed
      | cons head tail =>
          obtain rfl := Option.some.inj allowed
          simp [pushes, pops, apply]
  | refused value | missed => simp [pushes, pops, apply]

theorem bounded (legal : Legal capacity history) :
    (replay apply [] history).length ≤ capacity := by
  refine along_invariant apply (fun _ items => items.length ≤ capacity) legal (Nat.zero_le _) ?_
  intro past items op _ _ small allowed
  cases op with
  | pushed value =>
      have room : items.length < capacity := allowed
      rw [apply, List.length_append, List.length_singleton]
      omega
  | popped value =>
      rw [apply, List.length_tail]
      omega
  | refused value | missed => exact small

end HiImCore.Fifo
