/-
  Mnet.Lib.CondVar

  Condition variables: the threads asleep in one, and what signal and broadcast
  do to them.  Signal wakes one sleeper where there is one, any of them; a
  wakeup that nobody signalled is `wake` as well.

  A thread asleep cannot be running: `length_le_countP` bounds the sleepers by
  the threads that stand where they sleep, and `exists_awake` finds one that
  does not sleep where there are more of those.
-/

import Mathlib.Data.List.Basic
import Mathlib.Data.List.Perm.Subperm

namespace CondVar

variable {ι τ : Type _}

-- ============================================================================
-- Sleepers
-- ============================================================================

/-- One sleeper wakes. -/
inductive Wake : List ι → List ι → Prop
  | one (before : List ι) (i : ι) (after : List ι) : Wake (before ++ i :: after) (before ++ after)

/-- `pthread_cond_signal`: lost where nobody sleeps. -/
inductive Signal : List ι → List ι → Prop
  | lost : Signal [] []
  | woke {ws ws' : List ι} (h : Wake ws ws') : Signal ws ws'

/-- `pthread_cond_broadcast`. -/
def broadcast (_ws : List ι) : List ι := []

theorem Wake.length {ws ws' : List ι} (h : Wake ws ws') : ws.length = ws'.length + 1 := by
  cases h with
  | one before i after =>
      rw [List.length_append, List.length_append, List.length_cons, Nat.add_assoc]

theorem Wake.sublist {ws ws' : List ι} (h : Wake ws ws') : ws'.Sublist ws := by
  cases h with
  | one before i after => exact (List.sublist_cons_self i after).append_left before

theorem Signal.sublist {ws ws' : List ι} (h : Signal ws ws') : ws'.Sublist ws := by
  cases h with
  | lost => exact List.Sublist.refl _
  | woke h => exact h.sublist

/-- Signal never waits. -/
theorem exists_signal (ws : List ι) : ∃ ws', Signal ws ws' := by
  cases ws with
  | nil => exact ⟨[], .lost⟩
  | cons i after => exact ⟨after, .woke (.one [] i after)⟩

/-- Where somebody is left asleep, the signal was not lost. -/
theorem Signal.length {ws ws' : List ι} (h : Signal ws ws') (hne : ws' ≠ []) :
    ws.length = ws'.length + 1 := by
  cases h with
  | lost => exact absurd rfl hne
  | woke h => exact h.length

theorem Signal.length_le {ws ws' : List ι} (h : Signal ws ws') : ws.length ≤ ws'.length + 1 := by
  cases h with
  | lost => exact Nat.zero_le _
  | woke h => exact Nat.le_of_eq h.length

-- ============================================================================
-- Threads that stand where others sleep
-- ============================================================================

/-- The indices of the threads that `p` holds of. -/
def standing (p : τ → Bool) (threads : List τ) : List Nat :=
  (List.range threads.length).filter fun i => threads[i]?.any p

theorem mem_standing {p : τ → Bool} {threads : List τ} {i : Nat} :
    i ∈ standing p threads ↔ ∃ t, threads[i]? = some t ∧ p t = true := by
  rw [standing, List.mem_filter, List.mem_range]
  constructor
  · rintro ⟨-, h⟩
    cases hi : threads[i]? with
    | none =>
        rw [hi] at h
        cases h
    | some t =>
        rw [hi] at h
        exact ⟨t, rfl, h⟩
  · rintro ⟨t, hi, ht⟩
    refine ⟨(List.getElem?_eq_some_iff.mp hi).1, ?_⟩
    rw [hi]
    exact ht

theorem length_standing (p : τ → Bool) (threads : List τ) :
    (standing p threads).length = threads.countP p := by
  induction threads with
  | nil => rfl
  | cons t threads ih =>
      rw [standing, List.length_cons, List.range_succ_eq_map, List.filter_cons, List.filter_map,
        List.countP_cons, ← ih]
      cases ht : p t with
      | false => simp [standing, ht, Function.comp_def]
      | true => simp [standing, ht, Function.comp_def]

theorem nodup_standing (p : τ → Bool) (threads : List τ) : (standing p threads).Nodup :=
  List.nodup_range.filter _

variable {p : τ → Bool} {threads : List τ} {ws : List Nat}

/-- Sleepers are threads that stand where they sleep. -/
theorem length_le_countP (hnodup : ws.Nodup)
    (hws : ∀ i ∈ ws, ∃ t, threads[i]? = some t ∧ p t = true) : ws.length ≤ threads.countP p := by
  rw [← length_standing]
  exact (List.subperm_of_subset hnodup fun i hi => mem_standing.mpr (hws i hi)).length_le

/-- Where more threads stand than sleep, one of them is awake. -/
theorem exists_awake (h : ws.length < threads.countP p) :
    ∃ i t, threads[i]? = some t ∧ p t = true ∧ i ∉ ws := by
  by_contra hnone
  have hsub : standing p threads ⊆ ws := by
    intro i hi
    obtain ⟨t, hget, ht⟩ := mem_standing.mp hi
    by_contra hout
    exact hnone ⟨i, t, hget, ht, hout⟩
  have hle := (List.subperm_of_subset (nodup_standing p threads) hsub).length_le
  rw [length_standing] at hle
  omega

end CondVar
