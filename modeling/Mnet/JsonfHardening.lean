/-
  Mnet.JsonfHardening

  Which formats `mnet_jsonfv` refuses.

  The directives a format holds are those of the `printf` grammar
  (`Printf.directives`); the pieces the loop cuts it into end at the next
  conversion character, wherever that stands.  A hazardous directive is refused
  only where a piece stops the format (`ComesToStop`).
-/

import Mnet.JsonfFormats

namespace Mnet

open Printf (Directive)

-- ============================================================================
-- What must not reach snprintf
-- ============================================================================

/-- `%n`, `%p` and `%a`, a `*` for width or precision, and `%s` with a flag, a
    width or a length modifier. -/
def hazardous (d : Directive) : Bool :=
  d.conv == 110 || d.conv == 112 || d.conv == 97 || d.width == .star || d.precision == some .star ||
    (d.conv == 115 && (d.flags != [] || d.width != .digits [] || d.length != .none))

/-- A conversion position of the format holds such a directive. -/
def HasHazard (format : Bytes) : Prop := ∃ d ∈ Printf.directives format, hazardous d = true

/-- A format with such a directive gets the 500 response, and none is handed to
    `snprintf`. -/
def RefusesHazards {A D : Type} (env : JsonfEnv A D) (format : Bytes) (args : A) : Prop :=
  HasHazard format →
    mnetJsonfv env (some format) args = some jsonfNull ∧
      ∀ spec ∈ jsonfSpecs env format args, ¬ HasHazard spec

-- ============================================================================
-- Formats that are refused
-- ============================================================================

/-- A piece that stops the format comes, and before it none that overruns
    `nspec` or has a hazardous directive handed on. -/
def RefusedFirst (format : Bytes) : Prop := ComesToStop (fun spec => ¬ HasHazard spec) format

theorem jsonfv_refused_iff {A D : Type} (env : JsonfEnv A D) (format : Bytes) (args : A) :
    (mnetJsonfv env (some format) args = some jsonfNull ∧
      ∀ spec ∈ jsonfSpecs env format args, ¬ HasHazard spec) ↔ RefusedFirst format := by
  rw [mnetJsonfv_eq_null, jsonfSpecs, jsonfLoop_refused_iff _ env format { args := args }]
  simp [RefusedFirst]

/-- A format with a hazardous directive is refused, and none is handed on,
    exactly when a piece that stops it comes before any that does harm. -/
theorem refusesHazards_iff {A D : Type} (env : JsonfEnv A D) (format : Bytes) (args : A) :
    RefusesHazards env format args ↔ (HasHazard format → RefusedFirst format) :=
  imp_congr_right fun _ => jsonfv_refused_iff env format args

/-- `%5s`. -/
def widthString : Directive where
  flags := []
  width := .digits [53]
  precision := none
  length := .none
  conv := 115
  flagsOk := Directive.flagsOk_nil
  widthOk := by decide
  precisionOk := Directive.precisionOk_none
  convOk := by decide

/-- The `d` behind `%5s` is taken for its conversion character, and the whole
    for a directive to format an integer with. -/
theorem not_refusesHazards :
    ¬ ∀ (A D : Type) (env : JsonfEnv A D) (format : Bytes) (args : A),
      RefusesHazards env format args := by
  intro h
  let env : JsonfEnv Unit Unit :=
    { string := fun _ => (none, ()), integer := fun _ _ => (0, ()), real := fun _ _ => ((), ())
      snprintf := fun _ _ => none }
  have hhazard : HasHazard (ascii "%5sd") := by
    have htext : ascii "%5sd" = widthString.text ++ [100] := by decide
    rw [HasHazard, htext, Printf.directives_text_append]
    exact ⟨widthString, List.mem_cons_self .., by decide⟩
  have hfirst := (jsonfv_refused_iff env (ascii "%5sd") ()).mp (h Unit Unit env _ () hhazard)
  have hat : PieceAt (ascii "%5sd") (.spec (ascii "5s") 100) [] :=
    nextPiece_iff.mp (by decide +kernel)
  have hpasses : ¬ (Barred (ascii "5s") 100 ∨ TooWide (ascii "5s")) := by decide +kernel
  rw [RefusedFirst, comesToStop_iff hat] at hfirst
  rcases hfirst with hstops | ⟨-, hrest⟩
  · exact hpasses hstops.2
  · exact not_comesToStop_nil hrest

end Mnet
