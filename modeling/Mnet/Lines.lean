/-
  Mnet.Lines

  Text made of lines that each end in CRLF: where its first blank line is, and
  that the tokenizer of `parse_headers` gives the lines back.

  `endOfHeaders` looks for CRLFCRLF and LFLF.  In rendered lines every LF has a
  CR before it and no line is empty, so neither can appear before the blank
  line that ends the block.
-/

import Mnet.Parse

namespace Mnet

open Search (OccursAt)

/-- A line that holds something and no line end. -/
structure PlainLine (line : Bytes) : Prop where
  nonempty : line ≠ []
  noCR : CR ∉ line
  noLF : LF ∉ line

def renderLines (lines : List Bytes) : Bytes := lines.flatMap (· ++ CRLF)

@[simp] theorem renderLines_nil : renderLines [] = [] := rfl

@[simp] theorem renderLines_cons (line : Bytes) (lines : List Bytes) :
    renderLines (line :: lines) = line ++ CRLF ++ renderLines lines := rfl

theorem length_renderLines_cons (line : Bytes) (lines : List Bytes) :
    (renderLines (line :: lines)).length = line.length + 2 + (renderLines lines).length := by
  simp [CRLF]
  omega

theorem two_le_length_renderLines {lines : List Bytes} (h : lines ≠ []) :
    2 ≤ (renderLines lines).length := by
  cases lines with
  | nil => exact absurd rfl h
  | cons line lines =>
      rw [length_renderLines_cons]
      omega

/-- The first byte behind rendered lines: of the next line, or of the blank
    line. -/
theorem head?_renderLines_ne_cr {line : Bytes} (h : PlainLine line) (lines : List Bytes)
    (rest : Bytes) : (renderLines (line :: lines) ++ rest).head? ≠ some CR := by
  cases line with
  | nil => exact absurd rfl h.nonempty
  | cons b line =>
      intro hb
      have hcr : b = CR := by simpa using hb
      exact h.noCR (hcr ▸ List.mem_cons_self ..)

theorem not_occursAt_of_head {needle s : Bytes} {b : Byte} (hn : needle.head? = some b)
    {i : Nat} (hi : s[i]? ≠ some b) : ¬ OccursAt needle s i := by
  intro h
  rw [Search.occursAt_iff_getElem?] at h
  cases needle with
  | nil => simp at hn
  | cons c needle =>
      obtain rfl : c = b := by simpa using hn
      exact hi (by simpa using h 0 (by simp))

/-- No CRLFCRLF starts in a plain line, nor at its end when the text goes on
    with something other than a CR. -/
theorem not_occursAt_crlfcrlf {line s : Bytes} (hline : PlainLine line) (hs : s.head? ≠ some CR)
    {i : Nat} (hi : i < line.length + 2) : ¬ OccursAt crlfcrlf (line ++ CRLF ++ s) i := by
  intro h
  have h' := Search.occursAt_iff_getElem?.mp h
  have h0 := h' 0 (by decide)
  have h2 := h' 2 (by decide)
  have hcr : crlfcrlf[0]? = some CR := rfl
  have hcr2 : crlfcrlf[2]? = some CR := rfl
  rw [Nat.add_zero, hcr, List.append_assoc] at h0
  rw [hcr2, List.append_assoc] at h2
  by_cases hlt : i < line.length
  · rw [List.getElem?_append_left hlt] at h0
    exact hline.noCR (List.mem_of_getElem? h0)
  · obtain ⟨k, rfl⟩ : ∃ k, i = line.length + k := ⟨i - line.length, by omega⟩
    rw [List.getElem?_append_right (by omega), Nat.add_sub_cancel_left] at h0
    rw [Nat.add_assoc, List.getElem?_append_right (by omega), Nat.add_sub_cancel_left] at h2
    have hk : k = 0 ∨ k = 1 := by omega
    rcases hk with rfl | rfl
    · have hs0 : s[0]? = some CR := by simpa [CRLF] using h2
      exact hs (by rw [List.head?_eq_getElem?, hs0])
    · have hlf : LF = CR := by simpa [CRLF] using h0
      exact cr_ne_lf hlf.symm

/-- The first CRLFCRLF of a rendered block is the one that ends it. -/
theorem find_crlfcrlf_renderLines {lines : List Bytes} (hne : lines ≠ [])
    (hlines : ∀ l ∈ lines, PlainLine l) (rest : Bytes) :
    Search.find crlfcrlf (renderLines lines ++ (CRLF ++ rest)) =
      some ((renderLines lines).length - 2) := by
  induction lines with
  | nil => exact absurd rfl hne
  | cons line lines ih =>
      have hline := hlines line (List.mem_cons_self ..)
      have hrest := fun l hl => hlines l (List.mem_cons_of_mem _ hl)
      cases lines with
      | nil =>
          rw [length_renderLines_cons, Search.find_eq_some_iff]
          have hsplit : renderLines [line] ++ (CRLF ++ rest) = line ++ (crlfcrlf ++ rest) := by
            simp [CRLF, crlfcrlf]
          rw [hsplit]
          refine ⟨by simp, ?_, fun j hj => ?_⟩
          · have h : OccursAt crlfcrlf (line ++ (crlfcrlf ++ rest)) (line.length + 0) :=
              Search.occursAt_append_right.mpr (List.prefix_append _ _)
            simpa using h
          · refine not_occursAt_of_head (b := CR) rfl fun h => hline.noCR ?_
            have hjl : j < line.length := by simpa using hj
            rw [List.getElem?_append_left hjl] at h
            exact List.mem_of_getElem? h
      | cons line' lines =>
          have ih := ih (by simp) hrest
          have hhead := head?_renderLines_ne_cr (hrest line' (by simp)) lines (CRLF ++ rest)
          have hlen := two_le_length_renderLines (List.cons_ne_nil line' lines)
          rw [renderLines_cons, List.append_assoc, Search.find_append_of_forall_not, ih,
            Option.map_some]
          · congr 1
            simp only [List.length_append]
            omega
          · intro i hi
            rw [← List.append_assoc]
            have hi' : i < line.length + 2 := by simpa [CRLF] using hi
            rw [List.append_assoc]
            exact not_occursAt_crlfcrlf hline hhead hi'

/-- In a rendered block and the blank line behind it every LF has a CR before
    it. -/
theorem cr_before_lf {lines : List Bytes} (hlines : ∀ l ∈ lines, PlainLine l) (rest : Bytes)
    {p : Nat} (hp : p < (renderLines lines).length + 2)
    (hlf : (renderLines lines ++ (CRLF ++ rest))[p]? = some LF) :
    1 ≤ p ∧ (renderLines lines ++ (CRLF ++ rest))[p - 1]? = some CR := by
  induction lines generalizing p with
  | nil =>
      have hp' : p = 0 ∨ p = 1 := by simp at hp; omega
      rcases hp' with rfl | rfl
      · have hcr : CR = LF := by simpa [CRLF] using hlf
        exact absurd hcr cr_ne_lf
      · simp [CRLF]
  | cons line lines ih =>
      have hline := hlines line (List.mem_cons_self ..)
      have hrest := fun l hl => hlines l (List.mem_cons_of_mem _ hl)
      rw [renderLines_cons, List.append_assoc, List.append_assoc] at hlf ⊢
      rw [length_renderLines_cons] at hp
      by_cases hlt : p < line.length
      · rw [List.getElem?_append_left hlt] at hlf
        exact absurd (List.mem_of_getElem? hlf) hline.noLF
      · obtain ⟨k, rfl⟩ : ∃ k, p = line.length + k := ⟨p - line.length, by omega⟩
        rw [List.getElem?_append_right (by omega), Nat.add_sub_cancel_left] at hlf
        rcases k with _ | _ | k
        · have hcr : CR = LF := by simpa [CRLF] using hlf
          exact absurd hcr cr_ne_lf
        · refine ⟨by omega, ?_⟩
          rw [List.getElem?_append_right (by omega)]
          simp [CRLF]
        · have hlf' : (renderLines lines ++ (CRLF ++ rest))[k]? = some LF := by
            simpa [CRLF] using hlf
          obtain ⟨hk, hcr⟩ := ih hrest (by omega) hlf'
          refine ⟨by omega, ?_⟩
          rw [List.getElem?_append_right (by omega)]
          have hidx : line.length + (k + 2) - 1 - line.length = (k - 1) + 2 := by omega
          rw [hidx]
          simpa [CRLF] using hcr

/-- No LFLF ends in a rendered block or its blank line. -/
theorem not_occursAt_lflf {lines : List Bytes} (hlines : ∀ l ∈ lines, PlainLine l) (rest : Bytes)
    {i : Nat} (hi : i + 1 < (renderLines lines).length + 2) :
    ¬ OccursAt lflf (renderLines lines ++ (CRLF ++ rest)) i := by
  intro h
  have h' := Search.occursAt_iff_getElem?.mp h
  have h0 := h' 0 (by decide)
  have h1 := h' 1 (by decide)
  obtain ⟨-, hcr⟩ := cr_before_lf hlines rest hi h1
  rw [Nat.add_sub_cancel] at hcr
  rw [Nat.add_zero, hcr] at h0
  exact absurd h0 (by decide)

/-- Up to the blank line every CR has an LF behind it. -/
theorem lf_after_cr {lines : List Bytes} (hlines : ∀ l ∈ lines, PlainLine l) (rest : Bytes)
    {p : Nat} (hp : p < (renderLines lines).length)
    (hcr : (renderLines lines ++ rest)[p]? = some CR) :
    (renderLines lines ++ rest)[p + 1]? = some LF := by
  induction lines generalizing p with
  | nil => simp at hp
  | cons line lines ih =>
      have hline := hlines line (List.mem_cons_self ..)
      have hrest := fun l hl => hlines l (List.mem_cons_of_mem _ hl)
      rw [renderLines_cons, List.append_assoc, List.append_assoc] at hcr ⊢
      rw [length_renderLines_cons] at hp
      by_cases hlt : p < line.length
      · rw [List.getElem?_append_left hlt] at hcr
        exact absurd (List.mem_of_getElem? hcr) hline.noCR
      · obtain ⟨k, rfl⟩ : ∃ k, p = line.length + k := ⟨p - line.length, by omega⟩
        rw [List.getElem?_append_right (by omega), Nat.add_sub_cancel_left] at hcr
        rw [Nat.add_assoc, List.getElem?_append_right (by omega), Nat.add_sub_cancel_left]
        rcases k with _ | _ | k
        · simp [CRLF]
        · have hlf : LF = CR := by simpa [CRLF] using hcr
          exact absurd hlf.symm cr_ne_lf
        · have hcr' : (renderLines lines ++ rest)[k]? = some CR := by simpa [CRLF] using hcr
          simpa [CRLF] using ih hrest (by omega) hcr'

/-- The rendered lines without their last line end. -/
def joinLines (lines : List Bytes) : Bytes :=
  (renderLines lines).take ((renderLines lines).length - 2)

theorem joinLines_singleton (line : Bytes) : joinLines [line] = line := by
  rw [joinLines, length_renderLines_cons]
  simp

theorem joinLines_cons {line : Bytes} {lines : List Bytes} (hne : lines ≠ []) :
    joinLines (line :: lines) = line ++ (CRLF ++ joinLines lines) := by
  have hlen := two_le_length_renderLines hne
  have hcount : line.length + 2 + (renderLines lines).length - 2 =
      (line ++ CRLF).length + ((renderLines lines).length - 2) := by
    simp only [List.length_append, CRLF, List.length_cons, List.length_nil]
    omega
  rw [joinLines, length_renderLines_cons, renderLines_cons, hcount,
    List.take_length_add_append, List.append_assoc]
  rfl

/-- The tokenizer gives the lines back. -/
theorem tokens_joinLines {lines : List Bytes} (hlines : ∀ l ∈ lines, PlainLine l) :
    Tokens.tokens isBreak (joinLines lines) = lines := by
  have hclean : ∀ {line : Bytes}, PlainLine line → ∀ b ∈ line, isBreak b = false := by
    intro line hline b hb
    have hcr : b ≠ CR := fun h => hline.noCR (h ▸ hb)
    have hlf : b ≠ LF := fun h => hline.noLF (h ▸ hb)
    simp [isBreak, CRLF, hcr, hlf]
  induction lines with
  | nil => simp [joinLines]
  | cons line lines ih =>
      have hline := hlines line (List.mem_cons_self ..)
      have ih := ih fun l hl => hlines l (List.mem_cons_of_mem _ hl)
      by_cases hne : lines = []
      · rw [hne, joinLines_singleton]
        have h : Tokens.tokens isBreak (line ++ []) = line :: Tokens.tokens isBreak [] :=
          Tokens.tokens_run_append hline.nonempty (hclean hline) (by simp)
        rwa [List.append_nil, Tokens.tokens_nil] at h
      · have hcr : isBreak CR = true := by decide
        have hlf : isBreak LF = true := by decide
        rw [joinLines_cons hne, Tokens.tokens_run_append hline.nonempty (hclean hline)
          (by simp [CRLF, hcr]), CRLF, List.cons_append, List.cons_append, List.nil_append,
          Tokens.tokens_cons_delim hcr, Tokens.tokens_cons_delim hlf, ih]

end Mnet
