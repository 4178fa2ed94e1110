/-
  Mnet.JsonfWidths

  How much an integer conversion can add to the body of `mnet_jsonfv`.

  The guard against absurd widths reads the digits right behind the `%`, as a
  `long`.  A width behind a flag other than `0`, and any precision, are not
  looked at, so that a directive that asks for more than 4096 bytes can get
  them.
-/

import Mnet.JsonfRendering

namespace Mnet

open Printf (Directive)

-- ============================================================================
-- Conversions that add no more than 4096 bytes
-- ============================================================================

/-- A width or precision above the limit. -/
def TooBig (d : Directive) : Prop := 4096 < d.width.number ∨ 4096 < d.precisionNumber

/-- Cut into pieces, `f` comes to `f'`. -/
inductive CutTo (f : Bytes) : Bytes → Prop where
  | start : CutTo f f
  | step {f' rest : Bytes} {piece : JsonfPiece} (h : CutTo f f') (hat : PieceAt f' piece rest) :
      CutTo f rest

/-- The format holds the integer conversion `d`. -/
def Converts (f : Bytes) (d : Directive) : Prop :=
  IntegerDirective d ∧ ∃ rest, CutTo f (d.text ++ rest)

/-- The loop, begun at `f` with `st`, comes to `f'` with `st'`. -/
inductive Comes {A D : Type} (env : JsonfEnv A D) (f : Bytes) (st : JsonfState A) :
    Bytes → JsonfState A → Prop where
  | start : Comes env f st f st
  | step {f' rest : Bytes} {st' st'' : JsonfState A} {piece : JsonfPiece}
      (h : Comes env f st f' st') (hnext : nextPiece f' = some (piece, rest))
      (hgo : jsonfStep env st' piece = .go st'') : Comes env f st rest st''

/-- An accepted format's integer conversions add at most 4096 bytes each, apart
    from a sign or a prefix; a format with an amount above 4096 is answered
    with the 500 response. -/
structure NoBlowUp {A D : Type} (env : JsonfEnv A D) (f : Bytes) (args : A) : Prop where
  bounded : ∀ r, mnetJsonfv env (some f) args = some r → r.status = 200 →
    ∀ d rest st text, IntegerDirective d → Comes env f { args := args } (d.text ++ rest) st →
      Adds env st (d.text ++ rest) text →
      text.length ≤ 4096 + (d.sign (readInteger env d.text d.conv st.args).1).length
  rejects : (∃ d, Converts f d ∧ TooBig d) → mnetJsonfv env (some f) args = some jsonfNull

/-- A piece that stops the format comes, and before it none that overruns
    `nspec`. -/
def StoppedFirst (f : Bytes) : Prop := ComesToStop (fun _ => True) f

theorem mnetJsonfv_null_iff {A D : Type} (env : JsonfEnv A D) (f : Bytes) (args : A) :
    mnetJsonfv env (some f) args = some jsonfNull ↔ StoppedFirst f := by
  rw [mnetJsonfv_eq_null, StoppedFirst]
  simpa using jsonfLoop_refused_iff (fun _ => True) env f { args := args }

-- ============================================================================
-- Conversions that are formatted
-- ============================================================================

/-- What the loop comes to is a rest of the format. -/
theorem Comes.cutTo {A D : Type} {env : JsonfEnv A D} {f f' : Bytes} {st st' : JsonfState A}
    (h : Comes env f st f' st') : CutTo f f' := by
  induction h with
  | start => exact .start
  | step _ hnext _ ih => exact .step ih (nextPiece_iff.mp hnext)

section Values

variable {D : Type} {x : D} {snprintf : Bytes → FormatValue D → Option Bytes}

/-- An argument is read as a value of its type. -/
theorem wrap_integer (ty : CType) (args : List VaArg) :
    ty.wrap ((vaListEnv x snprintf).integer ty args).1 =
      ((vaListEnv x snprintf).integer ty args).1 := by
  have hwrap : ∀ v, ty.wrap (ty.wrap v) = ty.wrap v := by
    intro v
    cases ty <;> simp only [CType.wrap, Int.bmod_bmod, Int.emod_emod]
  have hzero : ty.wrap 0 = 0 := by cases ty <;> rfl
  simp only [vaListEnv]
  split
  · exact hwrap _
  · exact hzero

/-- What is printed is a `long long`, or an unsigned one. -/
theorem wrap_readInteger (spec : Bytes) (conv : Byte) (args : List VaArg) :
    (if isSignedConv conv then CType.longLong else CType.ulongLong).wrap
        (readInteger (vaListEnv x snprintf) spec conv args).1 =
      (readInteger (vaListEnv x snprintf) spec conv args).1 := by
  have hwrap := fun ty => @wrap_integer D x snprintf ty args
  have hint : ∀ v : Int, CType.int.wrap v = v → v.bmod (2 ^ 64) = v := fun v hv => by
    rw [← hv]
    exact bmod_bmod_of_le (by decide) (by decide) v
  have huint : ∀ v : Int, CType.uint.wrap v = v → v % 2 ^ 64 = v := fun v hv => by
    rw [← hv]
    exact emod_emod_of_le (by decide) (by decide) v
  rw [readInteger]
  dsimp only
  cases isSignedConv conv with
  | true =>
      simp only [if_true]
      split
      · exact hwrap .longLong
      split
      · exact hwrap .long
      split
      · exact bmod_bmod_of_le (by decide) (by decide) _
      split
      · exact bmod_bmod_of_le (by decide) (by decide) _
      split
      · exact hwrap .ssize
      split
      · exact hwrap .longLong
      split
      · exact hwrap .ptrdiff
      · exact hint _ (hwrap .int)
  | false =>
      simp only [Bool.false_eq_true, if_false]
      split
      · exact hwrap .ulongLong
      split
      · exact hwrap .ulong
      split
      · exact emod_emod_of_le (by decide) (by decide) _
      split
      · exact emod_emod_of_le (by decide) (by decide) _
      split
      · exact hwrap .size
      split
      · exact hwrap .ulongLong
      split
      · exact Int.emod_emod _ _
      · exact huint _ (hwrap .uint)

theorem natAbs_readInteger_le (spec : Bytes) (conv : Byte) (args : List VaArg) :
    (readInteger (vaListEnv x snprintf) spec conv args).1.natAbs ≤ 2 ^ 64 := by
  have h := @wrap_readInteger D x snprintf spec conv args
  cases hconv : isSignedConv conv with
  | true =>
      rw [hconv] at h
      have hlo := @Int.le_bmod (readInteger (vaListEnv x snprintf) spec conv args).1 (2 ^ 64)
        (by decide)
      have hhi := @Int.bmod_lt (readInteger (vaListEnv x snprintf) spec conv args).1 (2 ^ 64)
        (by decide)
      rw [show (readInteger (vaListEnv x snprintf) spec conv args).1.bmod (2 ^ 64) = _ from h]
        at hlo hhi
      omega
  | false =>
      rw [hconv] at h
      have hlo := Int.emod_nonneg (readInteger (vaListEnv x snprintf) spec conv args).1
        (by decide : (2 ^ 64 : Int) ≠ 0)
      have hhi := Int.emod_lt_of_pos (readInteger (vaListEnv x snprintf) spec conv args).1
        (by decide : (0 : Int) < 2 ^ 64)
      rw [show (readInteger (vaListEnv x snprintf) spec conv args).1 % 2 ^ 64 = _ from h] at hlo hhi
      omega

/-- A directive within the limit prints at most 4096 bytes and its sign. -/
theorem length_renderInteger_le {d : Directive} (hsmall : ¬ TooBig d) {v : Int}
    (hv : v.natAbs ≤ 2 ^ 64) : (d.renderInteger v).length ≤ 4096 + (d.sign v).length := by
  have hdigits := d.length_digits_le hv
  obtain ⟨hwidth, hprecision⟩ := not_or.mp hsmall
  rw [d.length_renderInteger]
  omega

theorem length_le_of_adds (hprint : PrintsIntegers snprintf) {d : Directive}
    (hd : IntegerDirective d) (hsmall : ¬ TooBig d) {st : JsonfState (List VaArg)}
    {rest text : Bytes} (h : Adds (vaListEnv x snprintf) st (d.text ++ rest) text) :
    text.length ≤
      4096 + (d.sign (readInteger (vaListEnv x snprintf) d.text d.conv st.args).1).length := by
  obtain ⟨piece, rest', st', hnext, hgo, hbytes⟩ := h
  rw [nextPiece_text hd] at hnext
  obtain ⟨rfl, rfl⟩ := Prod.mk.inj (Option.some.inj hnext)
  have hstep : specStep (vaListEnv x snprintf) (directiveMid d) d.conv st = .go st' := hgo
  have hfate := specFate_eq hd (Nat.not_lt.mp (not_or.mp hsmall).1)
  generalize hread : readInteger (vaListEnv x snprintf) d.text d.conv st.args = read at *
  obtain ⟨v, args⟩ := read
  have hv : v.natAbs ≤ 2 ^ 64 := by
    have h := @natAbs_readInteger_le D x snprintf d.text d.conv st.args
    rwa [hread] at h
  have hlen := length_renderInteger_le hsmall hv
  by_cases hfits : d.layout.length ≤ 59
  · rw [if_pos hfits] at hfate
    have hwrap : (argType (normalized d)).wrap v = v := by
      have h := @wrap_readInteger D x snprintf d.text d.conv st.args
      rw [hread] at h
      exact h
    have hsign : (d.sign v).length ≤ 2 := by
      rw [Directive.sign]
      repeat' split
      all_goals simp
    have hmax : (d.renderInteger v).length ≤ INT_MAX := by
      have hint : INT_MAX = 2 ^ 31 - 1 := rfl
      omega
    have hformatted : snprintf (normalized d).text (.int v) = some (d.renderInteger v) :=
      hprint (normalized d) v ⟨hd.conv, hd.width, hd.precision, by simp [normalized]⟩ rfl hwrap hmax
    simp only [specStep, hfate, text_eq_mid, hread] at hstep
    have hsn : (vaListEnv x snprintf).snprintf = snprintf := rfl
    rw [hsn, hformatted] at hstep
    rw [← JsonfStep.go.inj hstep, (addFormatted_some _ _).1] at hbytes
    rw [← List.append_cancel_left hbytes]
    exact hlen
  · rw [if_neg hfits] at hfate
    by_cases hshort : d.text.length < 64
    · rw [if_pos hshort] at hfate
      simp only [specStep, hfate] at hstep
      exact absurd hstep (by simp)
    · rw [if_neg hshort] at hfate
      simp only [specStep, hfate] at hstep
      rw [← JsonfStep.go.inj hstep] at hbytes
      have hnil : text = [] := List.append_cancel_left (hbytes.symm.trans (List.append_nil _).symm)
      rw [hnil]
      exact Nat.zero_le _

end Values

/-- At the front of an integer directive stands the piece it is. -/
theorem pieceAt_text {d : Directive} (hd : IntegerDirective d) :
    PieceAt d.text (.spec (directiveMid d) d.conv) [] := by
  have hnext := nextPiece_text hd []
  rw [List.append_nil] at hnext
  exact nextPiece_iff.mp hnext

/-- `%-5000d`. -/
def leftWide : Directive where
  flags := [45]
  width := .digits (ascii "5000")
  precision := none
  length := .none
  conv := 100
  flagsOk := Directive.flagsOk_minus
  widthOk := by decide
  precisionOk := Directive.precisionOk_none
  convOk := Directive.isConv_d

/-- `%5000d`. -/
def plainWide : Directive := { leftWide with flags := [], flagsOk := Directive.flagsOk_nil }

end Mnet
