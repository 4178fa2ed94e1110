/-
  Mnet.Lib.Transition

  Runs of a labelled transition relation, with everything they have shown so
  far.  A step may show any number of events.

  What holds at the start and is kept by every step holds after every run:
  `Run.invariant`, and `Run.invariant_of` where the step lemma uses an
  invariant proved before.  A measure that pays for every step pays for the
  run: `Run.pays`.
-/

import Mathlib.Algebra.Ring.Int.Defs

namespace Transition

variable {σ ε : Type _}

/-- `es` are the events shown from `s₀` on, the last ones last. -/
inductive Run (step : σ → List ε → σ → Prop) (s₀ : σ) : List ε → σ → Prop
  | start : Run step s₀ [] s₀
  | next {es e : List ε} {s t : σ} : Run step s₀ es s → step s e t → Run step s₀ (es ++ e) t

variable {step : σ → List ε → σ → Prop} {s₀ s t : σ} {es e : List ε}

/-- A step that shows nothing. -/
theorem Run.silent (hrun : Run step s₀ es s) (h : step s [] t) : Run step s₀ es t := by
  have h' := hrun.next h
  rwa [List.append_nil] at h'

theorem Run.invariant (Inv : List ε → σ → Prop) (hrun : Run step s₀ es s)
    (hstart : Inv [] s₀)
    (hstep : ∀ {es e s t}, Inv es s → step s e t → Inv (es ++ e) t) : Inv es s := by
  induction hrun with
  | start => exact hstart
  | next _ h ih => exact hstep ih h

theorem Run.trans {u : σ} {es' : List ε} (hrun : Run step s₀ es s) (hrun' : Run step s es' u) :
    Run step s₀ (es ++ es') u := by
  induction hrun' with
  | start =>
      rw [List.append_nil]
      exact hrun
  | next _ h ih =>
      rw [← List.append_assoc]
      exact ih.next h

theorem Run.invariant_of (Known Inv : List ε → σ → Prop) (hrun : Run step s₀ es s)
    (hknown : ∀ {es s}, Run step s₀ es s → Known es s) (hstart : Inv [] s₀)
    (hstep : ∀ {es e s t}, Known es s → Inv es s → step s e t → Inv (es ++ e) t) :
    Inv es s := by
  induction hrun with
  | start => exact hstart
  | next hrun h ih => exact hstep (hknown hrun) ih h

/-- Where every step pays the price of its events, a run pays the price of all
    of them. -/
theorem Run.pays (Inv : σ → Prop) (μ : σ → Int) (price : ε → Int) (hrun : Run step s₀ es s)
    (hstart : Inv s₀)
    (hstep : ∀ {e s t}, Inv s → step s e t → Inv t ∧ μ t + (e.map price).sum ≤ μ s) :
    Inv s ∧ μ s + (es.map price).sum ≤ μ s₀ := by
  induction hrun with
  | start => exact ⟨hstart, by simp⟩
  | next _ h ih =>
      obtain ⟨hinv, hpaid⟩ := ih
      obtain ⟨hinv', hpaid'⟩ := hstep hinv h
      refine ⟨hinv', ?_⟩
      rw [List.map_append, List.sum_append]
      omega

end Transition
