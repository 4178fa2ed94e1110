/-
  Mnet.Lib.Numerals

  Positional numerals: the number a row of digits stands for, and that the
  digits of a number stand for it.

  Digits are items of any type, read by a partial valuation.
-/

import Mathlib.Data.Nat.Digits.Defs

namespace Numerals

variable {α : Type*} (digit? : α → Option Nat) (base : Nat)

/-- Go on reading digits behind the number `n`; none at an item that is no
    digit. -/
def readFrom (n : Nat) : List α → Option Nat
  | [] => some n
  | c :: cs =>
      match digit? c with
      | some d => readFrom (n * base + d) cs
      | none => none

/-- The number one or more digits stand for. -/
def read : List α → Option Nat
  | [] => none
  | c :: cs => readFrom digit? base 0 (c :: cs)

variable {digit? : α → Option Nat} {base : Nat}

theorem read_eq_readFrom {cs : List α} (hne : cs ≠ []) :
    read digit? base cs = readFrom digit? base 0 cs := by
  obtain ⟨c, cs, rfl⟩ := List.exists_cons_of_ne_nil hne
  rfl

theorem readFrom_append (n : Nat) (cs ds : List α) :
    readFrom digit? base n (cs ++ ds) =
      (readFrom digit? base n cs).bind fun m => readFrom digit? base m ds := by
  induction cs generalizing n with
  | nil => rfl
  | cons c cs ih =>
      simp only [List.cons_append, readFrom]
      cases digit? c with
      | none => rfl
      | some d => exact ih _

/-- Where every item is a digit, reading is a fold over the values. -/
theorem readFrom_eq_foldl {value : α → Nat} {cs : List α}
    (h : ∀ c ∈ cs, digit? c = some (value c)) (n : Nat) :
    readFrom digit? base n cs = some (cs.foldl (fun n c => n * base + value c) n) := by
  induction cs generalizing n with
  | nil => rfl
  | cons c cs ih =>
      obtain ⟨hc, hcs⟩ := List.forall_mem_cons.mp h
      simp only [readFrom, hc, List.foldl_cons]
      exact ih hcs _

/-- More digits make the number no smaller. -/
theorem le_foldl (hbase : 0 < base) (value : α → Nat) (cs : List α) (n : Nat) :
    n ≤ cs.foldl (fun n c => n * base + value c) n := by
  induction cs generalizing n with
  | nil => exact Nat.le_refl n
  | cons c cs ih =>
      have hstep : n ≤ n * base + value c :=
        Nat.le_add_right_of_le (Nat.le_mul_of_pos_right n hbase)
      exact Nat.le_trans hstep (ih _)

/-- The digits of a number are read as it. -/
theorem readFrom_toDigits {f : Char → α}
    (hdigit : ∀ d < base, digit? (f (Nat.digitChar d)) = some d) (hbase : 1 < base) (n : Nat) :
    readFrom digit? base 0 ((Nat.toDigits base n).map f) = some n := by
  induction n using Nat.strongRecOn with
  | ind n ih =>
      by_cases hn : n < base
      · rw [Nat.toDigits_of_lt_base hn]
        simp only [List.map_cons, List.map_nil, readFrom, hdigit n hn, Nat.zero_mul, Nat.zero_add]
      · have hlt : n / base < n := Nat.div_lt_self (by omega) hbase
        have hmod : n % base < base := Nat.mod_lt _ (by omega)
        rw [Nat.toDigits_of_base_le hbase (by omega), List.map_append, readFrom_append, ih _ hlt]
        simp only [Option.bind_some, List.map_cons, List.map_nil, readFrom, hdigit _ hmod]
        rw [Nat.div_add_mod']

theorem read_toDigits {f : Char → α}
    (hdigit : ∀ d < base, digit? (f (Nat.digitChar d)) = some d) (hbase : 1 < base) (n : Nat) :
    read digit? base ((Nat.toDigits base n).map f) = some n := by
  rw [read_eq_readFrom (by simp [Nat.toDigits_ne_nil]), readFrom_toDigits hdigit hbase]

/-- What holds of all digits holds of those of a number. -/
theorem forall_mem_toDigits {p : Char → Prop} (hbase : 1 < base)
    (h : ∀ d < base, p (Nat.digitChar d)) (n : Nat) : ∀ c ∈ Nat.toDigits base n, p c := by
  induction n using Nat.strongRecOn with
  | ind n ih =>
      intro c hc
      by_cases hn : n < base
      · rw [Nat.toDigits_of_lt_base hn, List.mem_singleton] at hc
        rw [hc]
        exact h n hn
      · rw [Nat.toDigits_of_base_le hbase (by omega), List.mem_append, List.mem_singleton] at hc
        rcases hc with hc | rfl
        · exact ih _ (Nat.div_lt_self (by omega) hbase) c hc
        · exact h _ (Nat.mod_lt _ (by omega))

end Numerals
