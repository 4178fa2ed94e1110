/-
  Mnet.Lib.Utf8

  UTF-8 texts as byte lists.

  `encode` is the concatenation of the characters' encodings.  A character's
  first byte tells the number of those behind it, which are all continuation
  bytes (`encodeChar_shape`), so that the character a byte belongs to is found
  by going back.
-/

import Mathlib.Data.List.Basic

namespace Utf8

abbrev Octets := List UInt8

/-- The bytes of a text. -/
def encode (cs : List Char) : Octets := cs.flatMap String.utf8EncodeChar

/-- A byte inside a character, `10xxxxxx`. -/
def IsContinuation (b : UInt8) : Prop := b &&& 0xC0 = 0x80

instance (b : UInt8) : Decidable (IsContinuation b) := inferInstanceAs (Decidable (_ = _))

/-- What the first byte of a character of `n` bytes looks like. -/
def Leads (b : UInt8) (n : Nat) : Prop :=
  (n = 1 ∧ b &&& 0x80 = 0) ∨ (n = 2 ∧ b &&& 0xE0 = 0xC0) ∨ (n = 3 ∧ b &&& 0xF0 = 0xE0) ∨
    (n = 4 ∧ b &&& 0xF8 = 0xF0)

-- ============================================================================
-- Characters
-- ============================================================================

@[simp] theorem encode_nil : encode [] = [] := rfl

@[simp] theorem encode_cons (c : Char) (cs : List Char) :
    encode (c :: cs) = String.utf8EncodeChar c ++ encode cs := List.flatMap_cons

theorem encode_append (cs ds : List Char) : encode (cs ++ ds) = encode cs ++ encode ds :=
  List.flatMap_append

theorem continuation_ofNat (n : Nat) : IsContinuation (UInt8.ofNat (n % 0x40 + 0x80)) := by
  have h : ∀ m < 0x40, IsContinuation (UInt8.ofNat (m + 0x80)) := by decide
  exact h _ (Nat.mod_lt _ (by decide))

/-- A first byte, and continuation bytes behind it. -/
theorem encodeChar_shape (c : Char) :
    ∃ b tail, String.utf8EncodeChar c = b :: tail ∧ Leads b (tail.length + 1) ∧
      ∀ t ∈ tail, IsContinuation t := by
  have h1 : ∀ m < 0x80, UInt8.ofNat m &&& 0x80 = 0 := by decide
  have h2 : ∀ m < 0x20, UInt8.ofNat (m + 0xC0) &&& 0xE0 = 0xC0 := by decide
  have h3 : ∀ m < 0x10, UInt8.ofNat (m + 0xE0) &&& 0xF0 = 0xE0 := by decide
  have h4 : ∀ m < 0x08, UInt8.ofNat (m + 0xF0) &&& 0xF8 = 0xF0 := by decide
  unfold String.utf8EncodeChar
  dsimp only
  split
  · next hle => exact ⟨_, [], rfl, .inl ⟨rfl, h1 _ (Nat.lt_succ_of_le hle)⟩, by simp⟩
  · split
    · refine ⟨_, _, rfl, .inr (.inl ⟨rfl, h2 _ (Nat.mod_lt _ (by decide))⟩), ?_⟩
      simp only [List.mem_cons, List.not_mem_nil, or_false, forall_eq]
      exact continuation_ofNat _
    · split
      · refine ⟨_, _, rfl, .inr (.inr (.inl ⟨rfl, h3 _ (Nat.mod_lt _ (by decide))⟩)), ?_⟩
        simp only [List.mem_cons, List.not_mem_nil, or_false, forall_eq_or_imp, forall_eq]
        exact ⟨continuation_ofNat _, continuation_ofNat _⟩
      · refine ⟨_, _, rfl, .inr (.inr (.inr ⟨rfl, h4 _ (Nat.mod_lt _ (by decide))⟩)), ?_⟩
        simp only [List.mem_cons, List.not_mem_nil, or_false, forall_eq_or_imp, forall_eq]
        exact ⟨continuation_ofNat _, continuation_ofNat _, continuation_ofNat _⟩

theorem Leads.not_continuation {b : UInt8} {n : Nat} (h : Leads b n) : ¬ IsContinuation b := by
  have hall : ∀ m < 256, UInt8.ofNat m &&& 0x80 = 0 ∨ UInt8.ofNat m &&& 0xE0 = 0xC0 ∨
      UInt8.ofNat m &&& 0xF0 = 0xE0 ∨ UInt8.ofNat m &&& 0xF8 = 0xF0 →
      ¬ IsContinuation (UInt8.ofNat m) := by decide +kernel
  have hb := hall b.toNat b.toNat_lt
  rw [UInt8.ofNat_toNat] at hb
  apply hb
  rcases h with ⟨-, h⟩ | ⟨-, h⟩ | ⟨-, h⟩ | ⟨-, h⟩
  · exact .inl h
  · exact .inr (.inl h)
  · exact .inr (.inr (.inl h))
  · exact .inr (.inr (.inr h))

theorem encode_ne_nil {cs : List Char} (h : cs ≠ []) : encode cs ≠ [] := by
  cases cs with
  | nil => exact absurd rfl h
  | cons c cs =>
      obtain ⟨b, tail, hc, -⟩ := encodeChar_shape c
      rw [encode_cons, hc]
      exact List.cons_ne_nil _ _

end Utf8
