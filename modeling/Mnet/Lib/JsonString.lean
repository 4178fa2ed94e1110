/-
  Mnet.Lib.JsonString

  The inside of a JSON string literal, as bytes.

  `readChar` reads one character: a byte that stands for itself, or an escape.
  `read` goes on to the quote that ends the literal, `decode` to the end of a
  text that is all inside.  A text written character by character is read back
  (`read_flatMap`).
-/

import Mnet.Lib.Percent

namespace JsonString

abbrev Text := List UInt8

-- ============================================================================
-- The reader
-- ============================================================================

/-- What the escape of one letter stands for. -/
def simpleEscape? (c : UInt8) : Option UInt8 :=
  if c = 34 then some 34
  else if c = 92 then some 92
  else if c = 47 then some 47
  else if c = 98 then some 8
  else if c = 102 then some 12
  else if c = 110 then some 10
  else if c = 114 then some 13
  else if c = 116 then some 9
  else none

/-- The four hex digits of a `\u` escape. -/
def readHex4 : Text → Option (Nat × Text)
  | a :: b :: c :: d :: s =>
      match Percent.hexDigit? a, Percent.hexDigit? b, Percent.hexDigit? c, Percent.hexDigit? d with
      | some a, some b, some c, some d => some (((a * 16 + b) * 16 + c) * 16 + d, s)
      | _, _, _, _ => none
  | _ => none

/-- The UTF-8 bytes of a code point. -/
def codePoint (n : Nat) : Text := String.utf8EncodeChar (Char.ofNat n)

/-- The character that begins with the UTF-16 unit `u`; half a surrogate pair is
    none. -/
def readUnit (u : Nat) (s : Text) : Option (Text × Text) :=
  if 0xD800 ≤ u ∧ u < 0xDC00 then
    match s with
    | 92 :: 117 :: s =>
        match readHex4 s with
        | some (low, s) =>
            if 0xDC00 ≤ low ∧ low < 0xE000 then
              some (codePoint (0x10000 + (u - 0xD800) * 0x400 + (low - 0xDC00)), s)
            else none
        | none => none
    | _ => none
  else if 0xDC00 ≤ u ∧ u < 0xE000 then none
  else some (codePoint u, s)

/-- The first character of the inside of a literal: its bytes, and what follows
    it.  There is none at the quote that ends the literal, at a control
    character and at a malformed escape. -/
def readChar : Text → Option (Text × Text)
  | [] => none
  | 92 :: 117 :: s => (readHex4 s).bind fun (u, s) => readUnit u s
  | 92 :: c :: s => (simpleEscape? c).map fun b => ([b], s)
  | b :: s => if b = 92 ∨ b = 34 ∨ b < 0x20 then none else some ([b], s)

theorem length_readHex4 {s rest : Text} {n : Nat} (h : readHex4 s = some (n, rest)) :
    rest.length < s.length := by
  unfold readHex4 at h
  split at h
  · split at h
    · obtain ⟨-, rfl⟩ := Prod.mk.inj (Option.some.inj h)
      simp only [List.length_cons]
      omega
    · simp at h
  · simp at h

theorem length_readUnit {s rest c : Text} {u : Nat} (h : readUnit u s = some (c, rest)) :
    rest.length ≤ s.length := by
  unfold readUnit at h
  split at h
  · split at h
    · split at h
      · next hread =>
        have hlt := length_readHex4 hread
        split at h
        · obtain ⟨-, rfl⟩ := Prod.mk.inj (Option.some.inj h)
          simp only [List.length_cons]
          omega
        · simp at h
      · simp at h
    · simp at h
  · split at h
    · simp at h
    · obtain ⟨-, rfl⟩ := Prod.mk.inj (Option.some.inj h)
      exact Nat.le_refl _

theorem length_readChar {s c rest : Text} (h : readChar s = some (c, rest)) :
    rest.length < s.length := by
  unfold readChar at h
  split at h
  · simp at h
  · next s =>
    obtain ⟨⟨u, s'⟩, hhex, hunit⟩ := Option.bind_eq_some_iff.mp h
    have hlt := length_readHex4 hhex
    have hle := length_readUnit hunit
    simp only [List.length_cons]
    omega
  · obtain ⟨b, -, hb⟩ := Option.map_eq_some_iff.mp h
    obtain ⟨-, rfl⟩ := Prod.mk.inj hb
    simp only [List.length_cons]
    omega
  · split at h
    · simp at h
    · obtain ⟨-, rfl⟩ := Prod.mk.inj (Option.some.inj h)
      exact Nat.lt_succ_self _

/-- The literal whose inside begins here: what it stands for, and the text
    behind its closing quote. -/
def read (s : Text) : Option (Text × Text) :=
  if s.head? = some 34 then some ([], s.tail)
  else
    match _h : readChar s with
    | some (c, rest) => (read rest).map fun (t, behind) => (c ++ t, behind)
    | none => none
termination_by s.length
decreasing_by exact length_readChar _h

theorem length_read {s t rest : Text} (h : read s = some (t, rest)) : rest.length < s.length := by
  induction hn : s.length using Nat.strongRecOn generalizing s t with
  | ind n ih =>
      subst hn
      rw [read] at h
      split at h
      · next hquote =>
        obtain ⟨s', rfl⟩ := List.head?_eq_some_iff.mp hquote
        obtain ⟨-, rfl⟩ := Prod.mk.inj (Option.some.inj h)
        exact Nat.lt_succ_self _
      · split at h
        · next c behind hread =>
          have hlt := length_readChar hread
          obtain ⟨⟨t', rest'⟩, hrest, heq⟩ := Option.map_eq_some_iff.mp h
          obtain ⟨-, rfl⟩ := Prod.mk.inj heq
          exact Nat.lt_trans (ih behind.length hlt hrest rfl) hlt
        · exact absurd h (by simp)

/-- What a text stands for that is all inside a literal. -/
def decode (s : Text) : Option Text :=
  if s = [] then some []
  else
    match _h : readChar s with
    | some (c, rest) => (decode rest).map (c ++ ·)
    | none => none
termination_by s.length
decreasing_by exact length_readChar _h

/-- A quote stands outside of all escapes: a backslash takes the byte behind
    it. -/
def hasBareQuote : Text → Bool
  | [] => false
  | [b] => b == 34
  | b :: c :: s =>
      if b = 92 then hasBareQuote s else b == 34 || hasBareQuote (c :: s)

-- ============================================================================
-- Texts written character by character
-- ============================================================================

/-- The text is one character, `c`, whatever follows it. -/
def Spells (piece c : Text) : Prop := ∀ rest, readChar (piece ++ rest) = some (c, rest)

theorem spells_raw {b : UInt8} (hback : b ≠ 92) (hquote : b ≠ 34) (hcontrol : ¬ b < 0x20) :
    Spells [b] [b] := by
  intro rest
  rw [List.singleton_append, readChar, if_neg]
  · rintro (h | h | h)
    · exact hback h
    · exact hquote h
    · exact hcontrol h
  · exact fun s h => absurd h hback
  · exact fun c s h => absurd h hback

theorem spells_simple {c b : UInt8} (h : simpleEscape? c = some b) : Spells [92, c] [b] := by
  intro rest
  have hne : c ≠ 117 := by
    rintro rfl
    have hnone : simpleEscape? 117 = none := by decide
    rw [hnone] at h
    simp at h
  show readChar (92 :: c :: rest) = _
  rw [readChar, h]
  · rfl
  · exact hne

theorem spells_unit {a b c d : UInt8} {ha hb hc hd : Nat} (h1 : Percent.hexDigit? a = some ha)
    (h2 : Percent.hexDigit? b = some hb) (h3 : Percent.hexDigit? c = some hc)
    (h4 : Percent.hexDigit? d = some hd) (hunit : ((ha * 16 + hb) * 16 + hc) * 16 + hd < 0xD800) :
    Spells [92, 117, a, b, c, d] (codePoint (((ha * 16 + hb) * 16 + hc) * 16 + hd)) := by
  intro rest
  show readChar (92 :: 117 :: a :: b :: c :: d :: rest) = _
  rw [readChar, readHex4]
  simp only [h1, h2, h3, h4, Option.bind_some]
  unfold readUnit
  rw [if_neg (by omega), if_neg (by omega)]

theorem Spells.ne_quote {piece c : Text} (h : Spells piece c) (rest : Text) :
    (piece ++ rest).head? ≠ some 34 := by
  intro hq
  obtain ⟨s, hs⟩ := List.head?_eq_some_iff.mp hq
  have hread := h rest
  rw [hs, readChar] at hread
  · simp at hread
  · exact fun s h => absurd h (by decide)
  · exact fun c s h => absurd h (by decide)

theorem Spells.ne_nil {piece c : Text} (h : Spells piece c) : piece ≠ [] := by
  rintro rfl
  have hread := h []
  rw [List.append_nil, readChar] at hread
  simp at hread

theorem read_spelled {piece c : Text} (h : Spells piece c) (rest : Text) :
    read (piece ++ rest) = (read rest).map fun (t, behind) => (c ++ t, behind) := by
  have hread := h rest
  conv_lhs => rw [read]
  rw [if_neg (h.ne_quote rest)]
  split
  · next c' rest' hread' =>
    rw [hread] at hread'
    obtain ⟨rfl, rfl⟩ := Prod.mk.inj (Option.some.inj hread')
    rfl
  · next hnone => rw [hread] at hnone; simp at hnone

theorem decode_spelled {piece c : Text} (h : Spells piece c) (rest : Text) :
    decode (piece ++ rest) = (decode rest).map (c ++ ·) := by
  have hread := h rest
  conv_lhs => rw [decode]
  rw [if_neg fun hnil => h.ne_nil (List.append_eq_nil_iff.mp hnil).1]
  split
  · next c' rest' hread' =>
    rw [hread] at hread'
    obtain ⟨rfl, rfl⟩ := Prod.mk.inj (Option.some.inj hread')
    rfl
  · next hnone => rw [hread] at hnone; simp at hnone

/-- A text written character by character is read, and then what follows it. -/
theorem read_flatMap_append {f : UInt8 → Text} {s : Text} (hf : ∀ b ∈ s, Spells (f b) [b])
    (rest : Text) :
    read (s.flatMap f ++ rest) = (read rest).map fun (t, behind) => (s ++ t, behind) := by
  induction s with
  | nil =>
      rw [List.flatMap_nil, List.nil_append]
      exact Option.map_id'.symm
  | cons b s ih =>
      obtain ⟨hb, hs⟩ := List.forall_mem_cons.mp hf
      rw [List.flatMap_cons, List.append_assoc, read_spelled hb, ih hs, Option.map_map]
      rfl

/-- A literal written character by character is read back, up to the quote
    behind it. -/
theorem read_flatMap {f : UInt8 → Text} (hf : ∀ b, Spells (f b) [b]) (s behind : Text) :
    read (s.flatMap f ++ 34 :: behind) = some (s, behind) := by
  have hquote : read (34 :: behind) = some ([], behind) := by
    rw [read]
    exact if_pos rfl
  rw [read_flatMap_append fun b _ => hf b, hquote]
  show some (s ++ [], behind) = some (s, behind)
  rw [List.append_nil]

theorem decode_flatMap {f : UInt8 → Text} (hf : ∀ b, Spells (f b) [b]) (s : Text) :
    decode (s.flatMap f) = some s := by
  induction s with
  | nil =>
      rw [List.flatMap_nil, decode]
      exact if_pos rfl
  | cons b s ih =>
      rw [List.flatMap_cons, decode_spelled (hf b), ih]
      rfl

end JsonString
