/-
  Mnet.Lib.Search

  First-match search for a block inside a list, as offsets.

  `find needle l` is the offset of the first occurrence of `needle` in `l`.
  The reasoning interface is positional: `OccursAt needle l i` says that the
  block starts at offset `i`, and `find_eq_some_iff` / `find_eq_none_iff`
  characterise the search by it, so that callers argue about offsets with
  `omega` and never unfold the search.

  Nothing here depends on the element type beyond decidable equality.
-/

import Mathlib.Data.List.Infix

namespace Search

variable {α : Type _} [DecidableEq α]

/-- The block `needle` starts at offset `i` of `l`. -/
def OccursAt (needle l : List α) (i : Nat) : Prop := needle <+: l.drop i

instance (needle l : List α) (i : Nat) : Decidable (OccursAt needle l i) :=
  inferInstanceAs (Decidable (needle <+: l.drop i))

/-- Offset of the first occurrence of `needle` in `l`. -/
def find (needle l : List α) : Option Nat :=
  l.tails.findIdx? (needle.isPrefixOf ·)

/-! ## Occurrences -/

omit [DecidableEq α] in
theorem OccursAt.bound {needle l : List α} {i : Nat} (hi : i ≤ l.length)
    (h : OccursAt needle l i) : i + needle.length ≤ l.length := by
  have hlen := h.length_le
  rw [List.length_drop] at hlen
  omega

omit [DecidableEq α] in
/-- An occurrence is a block of consecutive elements. -/
theorem occursAt_iff_getElem? {needle l : List α} {i : Nat} :
    OccursAt needle l i ↔ ∀ k < needle.length, l[i + k]? = needle[k]? := by
  unfold OccursAt
  rw [List.prefix_iff_getElem?]
  constructor
  · intro h k hk
    rw [← List.getElem?_drop, h k hk, List.getElem?_eq_getElem hk]
  · intro h k hk
    rw [List.getElem?_drop, h k hk, List.getElem?_eq_getElem hk]

omit [DecidableEq α] in
theorem OccursAt.append {needle l : List α} {i : Nat} (hi : i ≤ l.length)
    (h : OccursAt needle l i) (m : List α) : OccursAt needle (l ++ m) i := by
  unfold OccursAt
  rw [List.drop_append_of_le_length hi]
  exact h.trans (List.prefix_append _ _)

omit [DecidableEq α] in
/-- An occurrence that ends inside the left part of an append is one of the
    left part. -/
theorem OccursAt.of_append {needle l m : List α} {i : Nat}
    (hi : i + needle.length ≤ l.length) (h : OccursAt needle (l ++ m) i) :
    OccursAt needle l i := by
  rw [occursAt_iff_getElem?] at h ⊢
  intro k hk
  rw [← h k hk, List.getElem?_append_left (by omega)]

omit [DecidableEq α] in
theorem occursAt_append_right {needle l m : List α} {i : Nat} :
    OccursAt needle (l ++ m) (l.length + i) ↔ OccursAt needle m i := by
  unfold OccursAt
  rw [List.drop_append, List.drop_eq_nil_of_le (by omega)]
  simp

omit [DecidableEq α] in
/-- A block that is no proper suffix of itself's prefix does not overlap
    itself. -/
theorem OccursAt.disjoint {needle l : List α} {i j : Nat} (hi : OccursAt needle l i)
    (hj : OccursAt needle l j) (hij : i < j)
    (hself : ∀ k < needle.length, 0 < k → ¬ needle.drop k <+: needle) :
    i + needle.length ≤ j := by
  rw [occursAt_iff_getElem?] at hi hj
  by_contra hlt
  refine hself (j - i) (by omega) (by omega) ?_
  rw [List.prefix_iff_getElem?]
  intro k hk
  rw [List.length_drop] at hk
  have h1 := hj k (by omega)
  have h2 := hi (j - i + k) (by omega)
  have hidx : i + (j - i + k) = j + k := by omega
  rw [hidx, h1] at h2
  rw [h2, List.getElem_drop, List.getElem?_eq_getElem (by omega)]

/-! ## The search -/

theorem find_eq_some_iff {needle l : List α} {i : Nat} :
    find needle l = some i ↔
      i ≤ l.length ∧ OccursAt needle l i ∧ ∀ j < i, ¬ OccursAt needle l j := by
  unfold find OccursAt
  rw [List.findIdx?_eq_some_iff_getElem]
  simp only [List.length_tails, List.getElem_tails, List.isPrefixOf_iff_prefix]
  constructor
  · rintro ⟨hi, hp, hmin⟩
    exact ⟨by omega, hp, hmin⟩
  · rintro ⟨hi, hp, hmin⟩
    exact ⟨by omega, hp, hmin⟩

theorem find_eq_none_iff {needle l : List α} :
    find needle l = none ↔ ∀ i ≤ l.length, ¬ OccursAt needle l i := by
  unfold find OccursAt
  rw [List.findIdx?_eq_none_iff]
  simp only [List.mem_tails, ← Bool.not_eq_true, List.isPrefixOf_iff_prefix]
  constructor
  · intro h i _
    exact h (l.drop i) (List.drop_suffix i l)
  · intro h s hs
    rw [List.suffix_iff_eq_drop.mp hs]
    exact h _ (Nat.sub_le ..)

theorem find_le_length {needle l : List α} {i : Nat} (h : find needle l = some i) :
    i + needle.length ≤ l.length :=
  have h' := find_eq_some_iff.mp h
  h'.2.1.bound h'.1

/-- Any occurrence bounds the first one. -/
theorem exists_find_of_occursAt {needle l : List α} {i : Nat} (hi : i ≤ l.length)
    (h : OccursAt needle l i) : ∃ j ≤ i, find needle l = some j := by
  cases hf : find needle l with
  | none => exact absurd h (find_eq_none_iff.mp hf i hi)
  | some j =>
      refine ⟨j, ?_, rfl⟩
      by_contra hlt
      exact (find_eq_some_iff.mp hf).2.2 i (by omega) h

/-- Text appended after a first occurrence does not move it. -/
theorem find_append_of_some {needle l : List α} {i : Nat}
    (h : find needle l = some i) (m : List α) : find needle (l ++ m) = some i := by
  obtain ⟨hi, hocc, hmin⟩ := find_eq_some_iff.mp h
  have hbound := hocc.bound hi
  refine find_eq_some_iff.mpr ⟨by rw [List.length_append]; omega, hocc.append hi m, ?_⟩
  intro j hj hj'
  exact hmin j hj (hj'.of_append (by omega))

/-- A first occurrence that ends inside a prefix is the prefix's first
    occurrence. -/
theorem find_of_append {needle l m : List α} {i : Nat}
    (h : find needle (l ++ m) = some i) (hi : i + needle.length ≤ l.length) :
    find needle l = some i := by
  obtain ⟨-, hocc, hmin⟩ := find_eq_some_iff.mp h
  refine find_eq_some_iff.mpr ⟨by omega, hocc.of_append hi, ?_⟩
  intro j hj hj'
  exact hmin j hj (hj'.append (by omega) m)

/-- Skip a left part in which no occurrence starts. -/
theorem find_append_of_forall_not {needle l m : List α}
    (h : ∀ i < l.length, ¬ OccursAt needle (l ++ m) i) :
    find needle (l ++ m) = (find needle m).map (l.length + ·) := by
  cases hf : find needle m with
  | none =>
      rw [Option.map_none]
      refine find_eq_none_iff.mpr fun i hi hocc => ?_
      by_cases hil : i < l.length
      · exact h i hil hocc
      · obtain ⟨k, rfl⟩ : ∃ k, i = l.length + k := ⟨i - l.length, by omega⟩
        rw [occursAt_append_right] at hocc
        rw [List.length_append] at hi
        exact find_eq_none_iff.mp hf k (by omega) hocc
  | some k =>
      obtain ⟨hk, hocc, hmin⟩ := find_eq_some_iff.mp hf
      rw [Option.map_some]
      refine find_eq_some_iff.mpr
        ⟨by rw [List.length_append]; omega, occursAt_append_right.mpr hocc, ?_⟩
      intro j hj hj'
      by_cases hjl : j < l.length
      · exact h j hjl hj'
      · obtain ⟨n, rfl⟩ : ∃ n, j = l.length + n := ⟨j - l.length, by omega⟩
        exact hmin n (by omega) (occursAt_append_right.mp hj')

/-- A block is found somewhere exactly when it is an infix. -/
theorem find_isSome_iff_infix {needle l : List α} :
    (find needle l).isSome ↔ needle <:+: l := by
  constructor
  · intro h
    obtain ⟨i, hi⟩ := Option.isSome_iff_exists.mp h
    obtain ⟨t, ht⟩ := (find_eq_some_iff.mp hi).2.1
    exact ⟨l.take i, t, by rw [List.append_assoc, ht, List.take_append_drop]⟩
  · rintro ⟨s, t, rfl⟩
    have hocc : OccursAt needle (s ++ needle ++ t) s.length := by
      unfold OccursAt
      rw [List.append_assoc, List.drop_left]
      exact List.prefix_append _ _
    obtain ⟨j, -, hj⟩ := exists_find_of_occursAt (by simp) hocc
    exact Option.isSome_iff_exists.mpr ⟨j, hj⟩

end Search
