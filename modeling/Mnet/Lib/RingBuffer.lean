/-
  Mnet.Lib.RingBuffer

  Ring buffers: a queue in an array of `capacity` slots, as the slot of its
  first item and the number of items behind it.

  `contents` is the queue a ring stands for.  Putting an item in appends it
  where a slot is free, and taking the first one off removes it in front, so
  that callers argue about lists and never about slots.
-/

import Mathlib.Logic.Function.Basic

/-- A ring of `capacity` slots.  What stands in the slots outside the queue
    does not matter. -/
structure RingBuffer (α : Type _) where
  slots : Nat → α
  capacity : Nat
  head : Nat
  count : Nat

namespace RingBuffer

variable {α : Type _}

/-- The slot of the `i`-th item. -/
def slot (r : RingBuffer α) (i : Nat) : Nat := (r.head + i) % r.capacity

/-- The queue, first item first. -/
def contents (r : RingBuffer α) : List α :=
  (List.range r.count).map fun i => r.slots (r.slot i)

/-- `x` behind the last item. -/
def put (r : RingBuffer α) (x : α) : RingBuffer α :=
  { r with slots := Function.update r.slots ((r.head + r.count) % r.capacity) x
           count := r.count + 1 }

/-- The item in front. -/
def first (r : RingBuffer α) : α := r.slots r.head

/-- The ring without the item in front. -/
def rest (r : RingBuffer α) : RingBuffer α :=
  { r with head := (r.head + 1) % r.capacity, count := r.count - 1 }

/-- Head and count are within the capacity. -/
structure InBounds (r : RingBuffer α) : Prop where
  head_lt : r.head < r.capacity
  count_le : r.count ≤ r.capacity

@[simp] theorem put_capacity (r : RingBuffer α) (x : α) : (r.put x).capacity = r.capacity := rfl
@[simp] theorem put_count (r : RingBuffer α) (x : α) : (r.put x).count = r.count + 1 := rfl
@[simp] theorem rest_capacity (r : RingBuffer α) : r.rest.capacity = r.capacity := rfl
@[simp] theorem rest_count (r : RingBuffer α) : r.rest.count = r.count - 1 := rfl

@[simp] theorem length_contents (r : RingBuffer α) : r.contents.length = r.count := by
  simp [contents]

theorem contents_eq_nil {r : RingBuffer α} (h : r.count = 0) : r.contents = [] := by
  simp [contents, h]

theorem InBounds.put {r : RingBuffer α} (hr : r.InBounds) (h : r.count < r.capacity) (x : α) :
    (r.put x).InBounds :=
  ⟨hr.head_lt, h⟩

theorem InBounds.rest {r : RingBuffer α} (hr : r.InBounds) : r.rest.InBounds where
  head_lt := Nat.mod_lt _ (Nat.zero_lt_of_lt hr.head_lt)
  count_le := by
    show r.count - 1 ≤ r.capacity
    have := hr.count_le
    omega

/-- Two items less than a round apart have slots of their own. -/
theorem slot_ne {r : RingBuffer α} {i j : Nat} (hij : i < j) (hj : j < r.capacity) :
    r.slot i ≠ r.slot j := by
  intro h
  have hdvd : r.capacity ∣ (r.head + j) - (r.head + i) :=
    Nat.dvd_of_mod_eq_zero (Nat.sub_mod_eq_zero_of_mod_eq h.symm)
  have hle := Nat.le_of_dvd (by omega) hdvd
  omega

theorem contents_put {r : RingBuffer α} (h : r.count < r.capacity) (x : α) :
    (r.put x).contents = r.contents ++ [x] := by
  have hold : ∀ i ∈ List.range r.count,
      (r.put x).slots ((r.put x).slot i) = r.slots (r.slot i) := by
    intro i hi
    have hne := slot_ne (List.mem_range.mp hi) h
    show Function.update r.slots (r.slot r.count) x (r.slot i) = _
    rw [Function.update_of_ne hne]
  have hnew : (r.put x).slots ((r.put x).slot r.count) = x := by
    show Function.update r.slots (r.slot r.count) x (r.slot r.count) = x
    rw [Function.update_self]
  show (List.range (r.count + 1)).map _ = _
  rw [List.range_succ, List.map_append, List.map_singleton, hnew, List.map_congr_left hold]
  rfl

theorem contents_eq_cons {r : RingBuffer α} (hr : r.InBounds) (h : 0 < r.count) :
    r.contents = r.first :: r.rest.contents := by
  obtain ⟨n, hn⟩ : ∃ n, r.count = n + 1 := ⟨r.count - 1, by omega⟩
  have hfirst : r.slots (r.slot 0) = r.first := by
    show r.slots (r.head % r.capacity) = r.slots r.head
    rw [Nat.mod_eq_of_lt hr.head_lt]
  have hlater : ∀ i, r.rest.slots (r.rest.slot i) = r.slots (r.slot (i + 1)) := by
    intro i
    show r.slots (((r.head + 1) % r.capacity + i) % r.capacity) =
      r.slots ((r.head + (i + 1)) % r.capacity)
    rw [Nat.mod_add_mod, Nat.add_assoc, Nat.add_comm 1 i]
  simp only [contents, rest_count, hn, Nat.add_sub_cancel, List.range_succ_eq_map,
    List.map_cons, List.map_map, hfirst, hlater]
  rfl

end RingBuffer
