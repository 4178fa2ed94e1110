/-
  Mnet.Lib.Fitting

  How much of a list fits a block when each of its items takes several units.

  `f a` are the units item `a` is written as.  `Longest f n s p` says that `p`
  is the longest prefix of `s` that fits `n` units, `Next f n s before a` that
  `a` is the first item that does not.
-/

import Mathlib.Data.List.Basic

namespace Fitting

variable {α β : Type*} {f : α → List β} {n : Nat} {s : List α}

/-- The longest prefix that fits. -/
structure Longest (f : α → List β) (n : Nat) (s p : List α) : Prop where
  isPrefix : p <+: s
  fits : (p.flatMap f).length ≤ n
  longest : ∀ q, q <+: s → (q.flatMap f).length ≤ n → q <+: p

/-- The item `a` stands behind `before`, which fits, and does not fit there. -/
structure Next (f : α → List β) (n : Nat) (s before : List α) (a : α) : Prop where
  isPrefix : before ++ [a] <+: s
  fits : (before.flatMap f).length ≤ n
  exceeds : n < ((before ++ [a]).flatMap f).length

theorem flatMap_isPrefix {p q : List α} (h : p <+: q) : p.flatMap f <+: q.flatMap f := by
  obtain ⟨t, rfl⟩ := h
  rw [List.flatMap_append]
  exact List.prefix_append _ _

/-- What does not fit as a whole has a first item that does not. -/
theorem exists_next (h : n < (s.flatMap f).length) : ∃ before a, Next f n s before a := by
  induction s generalizing n with
  | nil => exact absurd h (Nat.not_lt_zero n)
  | cons b s ih =>
      by_cases hb : n < (f b).length
      · refine ⟨[], b, List.prefix_append [b] s, Nat.zero_le n, ?_⟩
        rw [List.nil_append, List.flatMap_singleton]
        exact hb
      · rw [List.flatMap_cons, List.length_append] at h
        obtain ⟨before, a, hpre, hle, hlt⟩ := @ih (n - (f b).length) (by omega)
        refine ⟨b :: before, a, ?_, ?_, ?_⟩
        · rw [List.cons_append]
          exact List.cons_prefix_cons.mpr ⟨rfl, hpre⟩
        · rw [List.flatMap_cons, List.length_append]
          omega
        · rw [List.cons_append, List.flatMap_cons, List.length_append]
          omega

/-- What stands before the first item that does not fit is the longest prefix
    that does. -/
theorem Next.longest {before : List α} {a : α} (h : Next f n s before a) :
    Longest f n s before := by
  obtain ⟨hpre, hle, hlt⟩ := h
  refine ⟨(List.prefix_append _ _).trans hpre, hle, fun q hq hfits => ?_⟩
  rcases List.prefix_or_prefix_of_prefix hq hpre with hshort | hlong
  · rcases List.prefix_concat_iff.mp hshort with rfl | h
    · exact absurd hfits (Nat.not_le_of_lt hlt)
    · exact h
  · have hle' := (flatMap_isPrefix (f := f) hlong).length_le
    omega

theorem longest_self (h : (s.flatMap f).length ≤ n) : Longest f n s s where
  isPrefix := List.prefix_refl s
  fits := h
  longest := fun _ hq _ => hq

/-- There is only one. -/
theorem Longest.unique {p p' : List α} (h : Longest f n s p) (h' : Longest f n s p') : p = p' :=
  List.IsPrefix.eq_of_length_le (h'.longest p h.isPrefix h.fits)
    (h.longest p' h'.isPrefix h'.fits).length_le

theorem Next.unique {before before' : List α} {a a' : α} (h : Next f n s before a)
    (h' : Next f n s before' a') : before = before' ∧ a = a' := by
  obtain rfl := h.longest.unique h'.longest
  have hpre := List.prefix_of_prefix_length_le h.isPrefix h'.isPrefix (by simp)
  have heq := hpre.eq_of_length (by simp)
  exact ⟨rfl, (List.cons.inj (List.append_cancel_left heq)).1⟩

end Fitting
