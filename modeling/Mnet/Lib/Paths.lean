/-
  Mnet.Lib.Paths

  Absolute paths as lists of names, each behind a separator.

  A path is canonical when it is the text of a list of names; then cutting it at
  the separators gives the names back.  One canonical text begins with another,
  cut at a separator or at its end, exactly when the names do.
-/

import Mnet.Lib.Tokens

namespace Paths

variable {α : Type} [DecidableEq α] (sep : α)

/-- A name of a path: not empty, and without separators. -/
structure IsName (c : List α) : Prop where
  ne_nil : c ≠ []
  sep_not_mem : sep ∉ c

/-- The names, each behind a separator. -/
def below (cs : List (List α)) : List α := cs.flatMap (sep :: ·)

/-- The text of a path: the separator alone is the root. -/
def text (cs : List (List α)) : List α := if cs = [] then [sep] else below sep cs

/-- The names of a path. -/
def components (s : List α) : List (List α) := Tokens.tokens (· == sep) s

variable {sep}

omit [DecidableEq α] in
theorem below_cons (c : List α) (cs : List (List α)) :
    below sep (c :: cs) = sep :: (c ++ below sep cs) := rfl

omit [DecidableEq α] in
theorem head?_below (cs : List (List α)) : ∀ d ∈ (below sep cs).head?, d = sep := by
  intro d hd
  cases cs with
  | nil => simp [below] at hd
  | cons c cs =>
      rw [below_cons, List.head?_cons, Option.mem_some_iff] at hd
      exact hd.symm

/-- Cutting at the separators gives the names back. -/
theorem components_below {cs : List (List α)} (h : ∀ c ∈ cs, IsName sep c) :
    components sep (below sep cs) = cs := by
  induction cs with
  | nil => exact Tokens.tokens_nil
  | cons c cs ih =>
      have hc := h c (List.mem_cons_self ..)
      have hrest := ih fun d hd => h d (List.mem_cons_of_mem c hd)
      rw [components, below_cons, Tokens.tokens_cons_delim (by simp),
        Tokens.tokens_run_append hc.ne_nil, ← components, hrest]
      · intro b hb
        simp only [beq_eq_false_iff_ne]
        rintro rfl
        exact hc.sep_not_mem hb
      · intro d hd
        simp [head?_below cs d hd]

theorem components_text {cs : List (List α)} (h : ∀ c ∈ cs, IsName sep c) :
    components sep (text sep cs) = cs := by
  rw [text]
  split
  · next hnil =>
    rw [hnil, components, Tokens.tokens_cons_delim (by simp), Tokens.tokens_nil]
  · exact components_below h

/-- A name ends where the text does or a separator stands. -/
theorem IsName.append_inj {c d s t : List α} (hc : IsName sep c) (hd : IsName sep d)
    (hs : ∀ x ∈ s.head?, x = sep) (ht : ∀ x ∈ t.head?, x = sep) (h : c ++ s = d ++ t) :
    c = d ∧ s = t := by
  have hcut : ∀ {e : List α}, IsName sep e → e.all (· ≠ sep) = true := by
    intro e he
    rw [List.all_eq_true]
    intro x hx
    simp only [ne_eq, decide_not, Bool.not_eq_true', decide_eq_false_iff_not]
    rintro rfl
    exact he.sep_not_mem hx
  have hstop : ∀ {u : List α}, (∀ x ∈ u.head?, x = sep) →
      ∀ x ∈ u.head?, decide (x ≠ sep) = false := by
    intro u hu x hx
    simp [hu x hx]
  obtain ⟨hc₁, hs₁⟩ := Tokens.takeWhile_dropWhile_append (hcut hc) (hstop hs)
  obtain ⟨hd₁, ht₁⟩ := Tokens.takeWhile_dropWhile_append (hcut hd) (hstop ht)
  rw [h] at hc₁ hs₁
  exact ⟨hc₁.symm.trans hd₁, hs₁.symm.trans ht₁⟩

/-- The names of one path begin those of another exactly when its text begins
    the other's up to a separator or the end. -/
theorem isPrefix_iff {bs rs : List (List α)} (hb : ∀ c ∈ bs, IsName sep c)
    (hr : ∀ c ∈ rs, IsName sep c) :
    bs <+: rs ↔ ∃ t, below sep rs = below sep bs ++ t ∧ ∀ d ∈ t.head?, d = sep := by
  induction bs generalizing rs with
  | nil => exact iff_of_true List.nil_prefix ⟨below sep rs, rfl, head?_below rs⟩
  | cons b bs ih =>
      have hb' := hb b (List.mem_cons_self ..)
      have hbs := fun c hc => hb c (List.mem_cons_of_mem b hc)
      cases rs with
      | nil =>
          refine iff_of_false (by simp) ?_
          rintro ⟨t, ht, -⟩
          simp [below] at ht
      | cons r rs =>
          have hr' := hr r (List.mem_cons_self ..)
          have hrs := fun c hc => hr c (List.mem_cons_of_mem r hc)
          rw [List.cons_prefix_cons, ih hbs hrs]
          simp only [below_cons, List.cons_append, List.cons.injEq, true_and, List.append_assoc]
          constructor
          · rintro ⟨rfl, t, ht, hsep⟩
            exact ⟨t, by rw [ht], hsep⟩
          · rintro ⟨t, ht, hsep⟩
            have hhead : ∀ d ∈ (below sep bs ++ t).head?, d = sep := by
              intro d hd
              cases hbelow : below sep bs with
              | nil => exact hsep d (by rwa [hbelow] at hd)
              | cons x xs =>
                  refine head?_below bs d ?_
                  rw [hbelow] at hd ⊢
                  exact hd
            obtain ⟨rfl, hrest⟩ := hr'.append_inj hb' (head?_below rs) hhead ht
            exact ⟨rfl, t, hrest, hsep⟩

omit [DecidableEq α] in
/-- The text of names does not end with a separator. -/
theorem getLast?_below {cs : List (List α)} (h : ∀ c ∈ cs, IsName sep c) :
    ∀ d ∈ (below sep cs).getLast?, d ≠ sep := by
  intro d hd
  rcases List.eq_nil_or_concat cs with rfl | ⟨front, last, rfl⟩
  · simp [below] at hd
  · have hlast := h last (by simp)
    have hend : below sep (front ++ [last]) = (below sep front ++ [sep]) ++ last := by
      simp [below]
    rw [List.concat_eq_append, hend, List.getLast?_append_of_ne_nil _ hlast.ne_nil] at hd
    rintro rfl
    exact hlast.sep_not_mem (List.mem_of_getLast? hd)

end Paths
