/-
  Mnet.JsonfPrecision

  `%.Ns` of `mnet_jsonfv` on UTF-8 strings.

  The cut is looked for from byte `N` back to the start of a character.  When
  this character has more than one byte and is not the first of the string, the
  whole text is dropped with it.
-/

import Mathlib.Data.List.GetD
import Mnet.JsonfParts
import Mnet.Lib.Fitting
import Mnet.Lib.Utf8

namespace Mnet

open Printf (decimalNumber)
open Utf8 (encode)

-- ============================================================================
-- Strings cut to whole characters
-- ============================================================================

/-- `%.<digits>s` -/
def precisionDirective (digits : Bytes) : Bytes := PERCENT :: 46 :: digits ++ [115]

/-- `front` is the longest prefix of the text, in whole characters, of at most
    `n` bytes. -/
abbrev WholePrefix (n : Nat) (cs front : List Char) : Prop :=
  Fitting.Longest String.utf8EncodeChar n cs front

/-- Byte number `n` of the text, counted from 0, belongs to the character `c`
    behind the characters `before`. -/
abbrev CharAt (n : Nat) (cs before : List Char) (c : Char) : Prop :=
  Fitting.Next String.utf8EncodeChar n cs before c

/-- The directive adds the escape of the longest prefix of the string, in whole
    characters, that its precision allows. -/
def KeepsWholePrefix {A D : Type} (env : JsonfEnv A D) (st : JsonfState A) (digits : Bytes)
    (cs : List Char) : Prop :=
  ∃ front, WholePrefix (decimalNumber digits) cs front ∧ ∀ rest,
    Adds env st (precisionDirective digits ++ rest) ((encode front).flatMap jsonEscapeByte)

/-- The string has at most `n` bytes, or byte `n` belongs to its first character
    or to an ASCII one. -/
def CutFallsWell (n : Nat) (cs : List Char) : Prop :=
  (encode cs).length ≤ n ∨ ∃ before c, CharAt n cs before c ∧ (before = [] ∨ c.toNat < 128)

-- ============================================================================
-- The directive
-- ============================================================================

theorem nextPiece_precisionDirective {digits : Bytes} (h : digits.all isDigit = true)
    (rest : Bytes) :
    nextPiece (precisionDirective digits ++ rest) = some (.cutString digits, rest) := by
  have hf : precisionDirective digits ++ rest = PERCENT :: 46 :: (digits ++ 115 :: rest) := by
    simp only [precisionDirective, List.cons_append, List.append_assoc, List.nil_append]
  rw [hf]
  exact (PieceAt.cutString (List.all_eq_true.mp h)).next

theorem cutPrecision_eq {digits : Bytes} (h : decimalNumber digits < 2 ^ 31) :
    cutPrecision digits = decimalNumber digits := by
  have hfold : digits.foldl (fun (n : Int) b => (n * 10 + digitVal b).bmod (2 ^ 32)) 0 =
      (decimalNumber digits : Int).bmod (2 ^ 32) := foldl_bmod digits 0
  rw [cutPrecision, hfold, Int.bmod_eq_of_le (by omega) (by omega)]
  show ((decimalNumber digits : Int) % (2 ^ 64 : Nat)).toNat = decimalNumber digits
  omega

/-- What the directive adds is the escape of what the cut leaves. -/
theorem adds_precisionDirective {A D : Type} {env : JsonfEnv A D} {st : JsonfState A}
    {digits s : Bytes} (hdigits : digits.all isDigit = true)
    (hint : decimalNumber digits < 2 ^ 31) (harg : (env.string st.args).1 = some s)
    (rest text : Bytes) :
    Adds env st (precisionDirective digits ++ rest) text ↔
      text = (cutString (decimalNumber digits) s).flatMap jsonEscapeByte := by
  have hstep : ∃ st', jsonfStep env st (.cutString digits) = .go st' ∧
      st'.buf.bytes = st.buf.bytes ++
        (cutString (decimalNumber digits) s).flatMap jsonEscapeByte := by
    refine ⟨_, rfl, ?_⟩
    simp only [JsonBuf.append_bytes, harg, Option.getD_some, cutPrecision_eq hint, escapedString_eq]
  obtain ⟨st', hgo, hbytes⟩ := hstep
  constructor
  · rintro ⟨piece, rest', st'', hnext, hgo', hbytes'⟩
    rw [nextPiece_precisionDirective hdigits] at hnext
    obtain ⟨rfl, -⟩ := Prod.mk.inj (Option.some.inj hnext)
    rw [hgo] at hgo'
    obtain rfl := JsonfStep.go.inj hgo'
    rw [hbytes] at hbytes'
    exact (List.append_cancel_left hbytes').symm
  · rintro rfl
    exact ⟨_, _, st', nextPiece_precisionDirective hdigits rest, hgo, hbytes⟩

-- ============================================================================
-- The cut
-- ============================================================================

/-- Going back stops at the first byte that is no continuation byte. -/
theorem backUp_eq {s : Bytes} {k n : Nat} (hle : k ≤ n)
    (hcont : ∀ i, k < i → i ≤ n → s.getD i 0 &&& 0xC0 = 0x80)
    (hstop : k = 0 ∨ s.getD k 0 &&& 0xC0 ≠ 0x80) : backUp s n = k := by
  induction n with
  | zero => exact (Nat.le_zero.mp hle).symm
  | succ n ih =>
      rw [backUp]
      by_cases heq : k = n + 1
      · subst heq
        rw [if_neg (hstop.resolve_left (by omega))]
      · rw [if_pos (hcont _ (by omega) (Nat.le_refl _))]
        exact ih (by omega) fun i hi hin => hcont i hi (by omega)

theorem sequenceLength_of_leads {b : Byte} {n : Nat} (h : Utf8.Leads b n) (hn : 1 < n) :
    sequenceLength b = n ∧ b &&& 0x80 ≠ 0 := by
  have hall : ∀ b : Byte, (b &&& 0xE0 = 0xC0 → sequenceLength b = 2 ∧ b &&& 0x80 ≠ 0) ∧
      (b &&& 0xF0 = 0xE0 → sequenceLength b = 3 ∧ b &&& 0x80 ≠ 0) ∧
      (b &&& 0xF8 = 0xF0 → sequenceLength b = 4 ∧ b &&& 0x80 ≠ 0) := by
    apply forall_byte
    decide +kernel
  obtain ⟨rfl, -⟩ | ⟨rfl, h⟩ | ⟨rfl, h⟩ | ⟨rfl, h⟩ := h
  · exact absurd hn (by decide)
  · exact (hall b).1 h
  · exact (hall b).2.1 h
  · exact (hall b).2.2 h

theorem getD_append_add (front s : Bytes) (i : Nat) :
    (front ++ s).getD (front.length + i) 0 = s.getD i 0 := by
  rw [List.getD_append_right _ _ _ _ (Nat.le_add_right _ _), Nat.add_sub_cancel_left]

/-- From any byte of a character going back stops at its first. -/
theorem backUp_character {front tail rest : Bytes} {b : Byte} {n : Nat}
    (hlead : Utf8.Leads b (tail.length + 1)) (htail : ∀ t ∈ tail, Utf8.IsContinuation t)
    (hle : front.length ≤ n) (hlt : n < front.length + (tail.length + 1)) :
    backUp (front ++ (b :: tail ++ rest)) n = front.length := by
  apply backUp_eq hle
  · intro i hi hin
    obtain ⟨j, rfl⟩ : ∃ j, i = front.length + (j + 1) := ⟨i - front.length - 1, by omega⟩
    have hj : j < tail.length := by omega
    rw [getD_append_add, List.cons_append, List.getD_cons_succ, List.getD_append _ _ _ _ hj,
      List.getD_eq_getElem _ _ hj]
    exact htail _ (List.getElem_mem hj)
  · have h0 : (front ++ (b :: tail ++ rest)).getD front.length 0 = b := getD_append_add front _ 0
    rw [h0]
    exact .inr hlead.not_continuation

/-- A string that is cut keeps what stands before the character of byte `n`, or
    nothing where that character has several bytes. -/
theorem cutString_of_charAt {n : Nat} {cs before : List Char} {c : Char}
    (h : CharAt n cs before c) :
    cutString n (encode cs) = if c.toNat < 128 then encode before else [] := by
  obtain ⟨⟨after, hafter⟩, hle, hlt⟩ := h
  obtain ⟨b, tail, hc, hlead, htail⟩ := Utf8.encodeChar_shape c
  have hs : encode cs = encode before ++ (b :: tail ++ encode after) := by
    rw [← hafter, Utf8.encode_append, Utf8.encode_append, Utf8.encode_cons, Utf8.encode_nil, hc,
      List.append_nil, List.append_assoc]
  have hlen : ((before ++ [c]).flatMap String.utf8EncodeChar).length =
      (encode before).length + (tail.length + 1) := by
    show (encode (before ++ [c])).length = _
    rw [Utf8.encode_append, Utf8.encode_cons, Utf8.encode_nil, hc, List.append_nil,
      List.length_append, List.length_cons]
  rw [hlen] at hlt
  change (encode before).length ≤ n at hle
  have hback : backUp (encode cs) n = (encode before).length := by
    rw [hs]
    exact backUp_character hlead htail hle hlt
  have hlead0 : (encode cs).getD (encode before).length 0 = b := by
    rw [hs]
    exact getD_append_add (encode before) _ 0
  have hcut : n < (encode cs).length := by
    rw [hs, List.length_append, List.length_append, List.length_cons]
    omega
  have hsize : tail.length + 1 = c.utf8Size := by
    rw [← String.length_utf8EncodeChar, hc, List.length_cons]
  have hascii : c.utf8Size = 1 ↔ c.toNat < 128 := by
    rw [Char.utf8Size_eq_one_iff, UInt32.le_iff_toNat_le]
    exact Nat.lt_succ_iff.symm
  have htake : (encode cs).take (encode before).length = encode before := by
    rw [hs, List.take_left]
  rw [cutString, if_pos hcut]
  simp only [hback, hlead0, htake]
  by_cases hone : c.toNat < 128
  · rw [if_pos hone, if_neg]
    rintro ⟨-, hbit, -⟩
    obtain ⟨-, h⟩ | ⟨h, -⟩ | ⟨h, -⟩ | ⟨h, -⟩ := hlead
    · exact hbit h
    all_goals
      have hone' := hascii.mpr hone
      omega
  · have hmany : 1 < tail.length + 1 := by
      have hne : c.utf8Size ≠ 1 := fun h => hone (hascii.mp h)
      omega
    obtain ⟨hseq, hbit⟩ := sequenceLength_of_leads hlead hmany
    rw [if_neg hone]
    split
    · rfl
    · next hnot =>
      -- the character is the first one
      have hzero : (encode before).length = 0 := by
        by_contra hpos
        exact hnot ⟨by omega, hbit, by omega, by omega⟩
      exact List.eq_nil_of_length_eq_zero hzero

theorem flatMap_jsonEscapeByte_ne_nil {s : Bytes} (h : s ≠ []) :
    s.flatMap jsonEscapeByte ≠ [] := by
  obtain ⟨b, s, rfl⟩ := List.exists_cons_of_ne_nil h
  have hpos := jsonEscapeByte_length_pos b
  apply List.ne_nil_of_length_pos
  rw [List.flatMap_cons, List.length_append]
  omega

/-- The directive keeps the longest whole prefix exactly when the string is not
    cut, or the cut falls to its first character or an ASCII one. -/
theorem keepsWholePrefix_iff {A D : Type} (env : JsonfEnv A D) (st : JsonfState A)
    {digits : Bytes} {cs : List Char} (hdigits : digits.all isDigit = true)
    (hint : decimalNumber digits < 2 ^ 31) (harg : (env.string st.args).1 = some (encode cs)) :
    KeepsWholePrefix env st digits cs ↔ CutFallsWell (decimalNumber digits) cs := by
  simp only [KeepsWholePrefix, adds_precisionDirective hdigits hint harg, forall_const]
  by_cases hall : (encode cs).length ≤ decimalNumber digits
  · refine iff_of_true ⟨cs, Fitting.longest_self hall, ?_⟩ (.inl hall)
    rw [cutString, if_neg (Nat.not_lt.mpr hall)]
  · obtain ⟨before, c, hchar⟩ := Fitting.exists_next (f := String.utf8EncodeChar) (Nat.not_le.mp hall)
    have hwhole := hchar.longest
    rw [cutString_of_charAt hchar]
    constructor
    · rintro ⟨front, hfront, heq⟩
      obtain rfl := hfront.unique hwhole
      refine .inr ⟨front, c, hchar, ?_⟩
      by_contra hnot
      obtain ⟨hne, hwide⟩ := not_or.mp hnot
      rw [if_neg hwide, List.flatMap_nil] at heq
      exact flatMap_jsonEscapeByte_ne_nil (Utf8.encode_ne_nil hne) heq
    · rintro (hshort | ⟨before', c', hchar', hwell⟩)
      · exact absurd hshort hall
      · obtain ⟨rfl, rfl⟩ := hchar.unique hchar'
        refine ⟨before, hwhole, ?_⟩
        rcases hwell with rfl | hascii
        · rw [Utf8.encode_nil, ite_self]
        · rw [if_pos hascii]

/-- A call with the string as its one argument. -/
def stringCall (cs : List Char) : JsonfState (List VaArg) := { args := [.string (some (encode cs))] }

/-- No float is printed here. -/
def noFloats : JsonfEnv (List VaArg) Unit := vaListEnv () fun _ _ => none

theorem keepsWholePrefix_before_ascii :
    KeepsWholePrefix noFloats (stringCall ['a', 'b', 'é']) (ascii "1") ['a', 'b', 'é'] := by
  refine (keepsWholePrefix_iff noFloats (stringCall ['a', 'b', 'é']) (by decide) (by decide)
    rfl).mpr (.inr ⟨['a'], 'b', ?_, .inr (by decide)⟩)
  exact ⟨⟨['é'], rfl⟩, by decide, by decide⟩

/-- `%.2s` of `abé`: nothing is left, though the first two characters fit. -/
theorem not_keepsWholePrefix :
    ¬ KeepsWholePrefix noFloats (stringCall ['a', 'b', 'é']) (ascii "2") ['a', 'b', 'é'] := by
  rintro ⟨front, hfront, hadds⟩
  have htext := (adds_precisionDirective (by decide) (by decide) rfl [] _).mp (hadds [])
  have hcut : cutString (decimalNumber (ascii "2")) (encode ['a', 'b', 'é']) = [] := by decide
  rw [hcut, List.flatMap_nil] at htext
  have hnil : front = [] := by
    by_contra hne
    exact flatMap_jsonEscapeByte_ne_nil (Utf8.encode_ne_nil hne) htext
  have hlong := hfront.longest ['a', 'b'] ⟨['é'], rfl⟩ (by decide)
  rw [hnil] at hlong
  exact absurd hlong.length_le (by decide)

end Mnet
