/-
  Mnet.Lib.Memory

  A block of memory of no fixed end, and lists of values stored from its start
  on.
-/

import Mathlib.Data.List.Basic
import Mathlib.Logic.Function.Basic

/-- The values at and behind a pointer. -/
abbrev Memory (α : Type) := Nat → α

namespace Memory

variable {α : Type}

/-- The memory with the values stored from its start on. -/
def store (mem : Memory α) (vs : List α) : Memory α := fun i => vs[i]?.getD (mem i)

theorem store_nil (mem : Memory α) : mem.store [] = mem := by
  funext i
  rw [store, List.getElem?_nil, Option.getD_none]

theorem store_getElem {mem : Memory α} {vs : List α} {i : Nat} (h : i < vs.length) :
    mem.store vs i = vs[i] := by
  rw [store, List.getElem?_eq_getElem h, Option.getD_some]

/-- Behind the values the memory is what it was. -/
theorem store_of_le {mem : Memory α} {vs : List α} {i : Nat} (h : vs.length ≤ i) :
    mem.store vs i = mem i := by
  rw [store, List.getElem?_eq_none h, Option.getD_none]

theorem update_store (mem : Memory α) (vs : List α) (v : α) :
    Function.update (mem.store vs) vs.length v = mem.store (vs ++ [v]) := by
  funext i
  have hlen : (vs ++ [v]).length = vs.length + 1 := List.length_append
  rcases Nat.lt_trichotomy i vs.length with h | rfl | h
  · rw [Function.update_of_ne (Nat.ne_of_lt h), store_getElem h, store_getElem (by omega),
      List.getElem_append_left h]
  · rw [Function.update_self, store_getElem (by omega), List.getElem_concat_length rfl]
  · rw [Function.update_of_ne (Nat.ne_of_gt h), store_of_le (Nat.le_of_lt h),
      store_of_le (by omega)]

/-- The memory starts with the values. -/
def Holds (mem : Memory α) (vs : List α) : Prop := ∀ i (h : i < vs.length), mem i = vs[i]

theorem holds_store (mem : Memory α) (vs : List α) : (mem.store vs).Holds vs :=
  fun _ h => store_getElem h

/-- The memory is the same after the values are stored when it held them
    before. -/
theorem forall_store_eq_iff {mem : Memory α} {vs : List α} :
    (∀ i, mem.store vs i = mem i) ↔ mem.Holds vs := by
  constructor
  · intro heq i h
    rw [← heq i, store_getElem h]
  · intro heq i
    rcases Nat.lt_or_ge i vs.length with h | h
    · rw [store_getElem h, heq i h]
    · rw [store_of_le h]

/-- The memory at and behind position `p`. -/
def tail (mem : Memory α) (p : Nat) : Memory α := fun i => mem (p + i)

theorem tail_update (mem : Memory α) (p i : Nat) (v : α) :
    tail (Function.update mem (p + i) v) p = Function.update (mem.tail p) i v := by
  funext j
  show Function.update mem (p + i) v (p + j) = _
  rcases eq_or_ne j i with rfl | hne
  · rw [Function.update_self, Function.update_self]
  · rw [Function.update_of_ne (by omega), Function.update_of_ne hne, tail]

theorem Holds.of_isPrefix {mem : Memory α} {vs front : List α} (h : mem.Holds vs)
    (hfront : front <+: vs) : mem.Holds front := by
  obtain ⟨rest, rfl⟩ := hfront
  intro i hi
  have hlt : i < (front ++ rest).length := by
    rw [List.length_append]
    omega
  rw [h i hlt, List.getElem_append_left hi]

end Memory
