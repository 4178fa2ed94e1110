/-
  Mnet.JsonfRendering

  `mnet_jsonfv` renders every conversion with its own argument, and where it
  does not.

  A `%c` argument that is negative, or one above 255 whose low byte needs
  escaping, is stored otherwise than as the escape of that byte; a directive
  whose flags, width and precision leave no room for `ll` in `nspec` is not
  formatted.  `weight` shows that such deviations never cancel out.
-/

import Mathlib.Algebra.Order.BigOperators.Group.List
import Mnet.JsonfParts

namespace Mnet

open Printf (Directive)

-- ============================================================================
-- Formats and their arguments
-- ============================================================================

/-- A part of a format, with the argument it calls for. -/
inductive JsonPart where
  | byte (b : Byte)
  | percent
  | string (s : Option Bytes)
  | char (c : Int)
  | integer (d : Directive) (v : Int)

namespace JsonPart

/-- The part is of the grammar, and its argument of the type it calls for. -/
def Valid : JsonPart → Prop
  | .byte b => b ≠ PERCENT ∧ b ≠ 0
  | .percent => True
  | .string s => (0 : Byte) ∉ s.getD []
  | .char c => CType.int.wrap c = c ∧ c ≠ 0
  | .integer d v =>
      IntegerDirective d ∧ d.width.number ≤ 4096 ∧ (argType d).wrap v = v ∧
        -- `snprintf` returns the length as an `int`
        (d.renderInteger (printedValue d v)).length ≤ INT_MAX

def text : JsonPart → Bytes
  | .byte b => [b]
  | .percent => ascii "%%"
  | .string _ => ascii "%s"
  | .char _ => ascii "%c"
  | .integer d _ => d.text

def arg : JsonPart → List VaArg
  | .byte _ => []
  | .percent => []
  | .string s => [.string s]
  | .char c => [.integer c]
  | .integer _ v => [.integer v]

/-- What the part stands for in the body. -/
def rendering : JsonPart → Bytes
  | .byte b => [b]
  | .percent => [PERCENT]
  | .string s => (s.getD (ascii "(null)")).flatMap jsonEscapeByte
  | .char c => jsonEscapeByte (UInt8.ofNat (c % 256).toNat)
  | .integer d v => d.renderInteger (printedValue d v)

/-- The condition on a part: a character in the range of `unsigned char`, or
    above it with a low byte that stands for itself; a directive whose flags,
    width and precision have at most 59 bytes. -/
def Rendered : JsonPart → Prop
  | .char c => 0 < c ∧ (c < 256 ∨ jsonEscapeByte (UInt8.ofNat (c % 256).toNat) =
      [UInt8.ofNat (c % 256).toNat])
  | .integer d _ => d.layout.length ≤ 59
  | _ => True

/-- The directive of the part is one that is formatted. -/
def Fits : JsonPart → Prop
  | .integer d _ => d.layout.length ≤ 59
  | _ => True

instance : DecidablePred Fits := fun p =>
  match p with
  | .integer d _ => inferInstanceAs (Decidable (d.layout.length ≤ 59))
  | .byte _ => .isTrue trivial
  | .percent => .isTrue trivial
  | .string _ => .isTrue trivial
  | .char _ => .isTrue trivial

/-- What the loop stores for a part that fits. -/
def written : JsonPart → Bytes
  | .char c => charText c
  | p => p.rendering

/-- The piece of the loop. -/
def piece : JsonPart → JsonfPiece
  | .byte b => .byte b
  | .percent => .byte PERCENT
  | .string _ => .string
  | .char _ => .char
  | .integer d _ => .spec (directiveMid d) d.conv

end JsonPart

def partsText (parts : List JsonPart) : Bytes := parts.flatMap JsonPart.text

def partsArgs (parts : List JsonPart) : List VaArg := parts.flatMap JsonPart.arg

def partsRendering (parts : List JsonPart) : Bytes := parts.flatMap JsonPart.rendering

/-- `snprintf` renders an integer as its directive says. -/
def PrintsIntegers {D : Type} (snprintf : Bytes → FormatValue D → Option Bytes) : Prop :=
  ∀ (d : Directive) (v : Int), IntegerDirective d → d.length = .ll → (argType d).wrap v = v →
    (d.renderInteger v).length ≤ INT_MAX → snprintf d.text (.int v) = some (d.renderInteger v)

-- ============================================================================
-- One part
-- ============================================================================

/-- Every part is one piece of the loop. -/
theorem nextPiece_part {p : JsonPart} (hp : p.Valid) (rest : Bytes) :
    nextPiece (p.text ++ rest) = some (p.piece, rest) := by
  cases p with
  | byte b => exact if_neg hp.1
  | percent => rfl
  | string s => rfl
  | char c => rfl
  | integer d v => exact nextPiece_text hp.1 rest

theorem bmod_bmod_of_le {m : Nat} (hpos : 0 < m) (hle : m ≤ 2 ^ 64) (v : Int) :
    (v.bmod m).bmod (2 ^ 64) = v.bmod m := by
  have hlo := @Int.le_bmod v m hpos
  have hhi := @Int.bmod_lt v m hpos
  exact Int.bmod_eq_of_le (by omega) (by omega)

theorem emod_emod_of_le {m : Int} (hpos : 0 < m) (hle : m ≤ 2 ^ 64) (v : Int) :
    v % m % 2 ^ 64 = v % m := by
  have hlo := Int.emod_nonneg v (by omega : m ≠ 0)
  have hhi := Int.emod_lt_of_pos v hpos
  exact Int.emod_eq_of_lt hlo (by omega)

/-- The printed value is one of a `long long`, or of an unsigned one. -/
theorem wrap_printedValue {d : Directive} {v : Int} (hv : (argType d).wrap v = v) :
    (argType (normalized d)).wrap (printedValue d v) = printedValue d v := by
  cases hsigned : isSignedConv d.conv with
  | true =>
      have htype : argType (normalized d) = .longLong := by
        simp [argType, normalized, hsigned]
      simp only [argType, hsigned, if_true] at hv
      simp only [htype, printedValue, hsigned, if_true, CType.wrap]
      cases hlen : d.length with
      | hh => exact bmod_bmod_of_le (by decide) (by decide) v
      | h => exact bmod_bmod_of_le (by decide) (by decide) v
      | _ =>
          rw [hlen] at hv
          dsimp only [CType.wrap] at hv
          first
            | exact hv
            | rw [← hv]
              exact bmod_bmod_of_le (by decide) (by decide) v
  | false =>
      have htype : argType (normalized d) = .ulongLong := by
        simp [argType, normalized, hsigned]
      simp only [argType, hsigned, Bool.false_eq_true, if_false] at hv
      simp only [htype, printedValue, hsigned, Bool.false_eq_true, if_false, CType.wrap]
      cases hlen : d.length with
      | hh => exact emod_emod_of_le (by decide) (by decide) v
      | h => exact emod_emod_of_le (by decide) (by decide) v
      | _ =>
          rw [hlen] at hv
          dsimp only [CType.wrap] at hv
          first
            | exact hv
            | rw [← hv]
              exact emod_emod_of_le (by decide) (by decide) v

theorem addFormatted_some {A : Type} (st : JsonfState A) (text : Bytes) :
    (st.addFormatted (some text)).buf.bytes = st.buf.bytes ++ text ∧
      (st.addFormatted (some text)).args = st.args := by
  cases text with
  | nil => exact ⟨(List.append_nil _).symm, rfl⟩
  | cons b text => exact ⟨rfl, rfl⟩

theorem addFormatted_args {A : Type} (st : JsonfState A) (text : Option Bytes) :
    (st.addFormatted text).args = st.args := by
  unfold JsonfState.addFormatted
  split
  · rfl
  · rfl

section Parts

variable {D : Type} {x : D} {snprintf : Bytes → FormatValue D → Option Bytes}

/-- A part that fits stores its text and takes its argument. -/
theorem jsonfStep_fits (hprint : PrintsIntegers snprintf) {p : JsonPart} (hp : p.Valid)
    (hfits : p.Fits) {st : JsonfState (List VaArg)} {args : List VaArg}
    (hargs : st.args = p.arg ++ args) :
    ∃ st', jsonfStep (vaListEnv x snprintf) st p.piece = .go st' ∧
      st'.buf.bytes = st.buf.bytes ++ p.written ∧ st'.args = args := by
  cases p with
  | byte b => exact ⟨_, rfl, rfl, hargs⟩
  | percent => exact ⟨_, rfl, rfl, hargs⟩
  | string s =>
      refine ⟨_, rfl, ?_, ?_⟩
      · show st.buf.bytes ++ _ = _
        rw [escapedString_eq, hargs]
        rfl
      · show st.args.tail = args
        rw [hargs]
        rfl
  | char c =>
      have hread : (vaListEnv x snprintf).integer .int st.args = (c, args) := by
        rw [hargs]
        show (CType.int.wrap c, args) = _
        rw [hp.1]
      refine ⟨_, rfl, ?_, ?_⟩
      · show st.buf.bytes ++ charText ((vaListEnv x snprintf).integer .int st.args).1 = _
        rw [hread]
        rfl
      · show ((vaListEnv x snprintf).integer .int st.args).2 = args
        rw [hread]
  | integer d v =>
      obtain ⟨hd, hwidth, hv, hlen⟩ := hp
      have hfate := specFate_eq hd hwidth
      rw [if_pos (show d.layout.length ≤ 59 from hfits)] at hfate
      have htext := text_eq_mid d
      have hnormalized : IntegerDirective (normalized d) :=
        ⟨hd.conv, hd.width, hd.precision, by simp [normalized]⟩
      have hformatted : snprintf (normalized d).text (.int (printedValue d v)) =
          some (d.renderInteger (printedValue d v)) :=
        hprint (normalized d) (printedValue d v) hnormalized rfl (wrap_printedValue hv) hlen
      have hread : readInteger (vaListEnv x snprintf) d.text d.conv st.args =
          (printedValue d v, args) := by
        rw [hargs]
        exact readInteger_eq hd hv args
      refine ⟨({ st with args := args, specs := st.specs ++ [(normalized d).text] }.addFormatted
        (some (d.renderInteger (printedValue d v)))), ?_, ?_, ?_⟩
      · show specStep _ (directiveMid d) d.conv st = _
        simp only [specStep, hfate, htext, hread]
        rw [← hformatted]
        rfl
      · exact (addFormatted_some _ _).1
      · exact (addFormatted_some _ _).2

theorem readInteger_args (spec : Bytes) (conv : Byte) (args : List VaArg) :
    (readInteger (vaListEnv x snprintf) spec conv args).2 = args.tail := by
  unfold readInteger
  dsimp only
  repeat' split
  all_goals rfl

/-- A part takes at most one argument, and none if its directive is not
    formatted. -/
theorem jsonfStep_args {p : JsonPart} (hp : p.Valid) {st st' : JsonfState (List VaArg)}
    (h : jsonfStep (vaListEnv x snprintf) st p.piece = .go st') :
    st.args.length ≤ st'.args.length + (if p.Fits then p.arg.length else 0) := by
  cases p with
  | byte b =>
      obtain rfl := JsonfStep.go.inj h
      exact Nat.le_add_right _ _
  | percent =>
      obtain rfl := JsonfStep.go.inj h
      exact Nat.le_add_right _ _
  | string s =>
      obtain rfl := JsonfStep.go.inj h
      show st.args.length ≤ st.args.tail.length + 1
      rw [List.length_tail]
      omega
  | char c =>
      obtain rfl := JsonfStep.go.inj h
      show st.args.length ≤ st.args.tail.length + 1
      rw [List.length_tail]
      omega
  | integer d v =>
      have hfate := specFate_eq hp.1 hp.2.1
      have hstep : specStep (vaListEnv x snprintf) (directiveMid d) d.conv st = .go st' := h
      by_cases hfits : d.layout.length ≤ 59
      · rw [if_pos hfits] at hfate
        rw [if_pos (show (JsonPart.integer d v).Fits from hfits)]
        simp only [specStep, hfate] at hstep
        rw [← JsonfStep.go.inj hstep, addFormatted_args, readInteger_args]
        show st.args.length ≤ st.args.tail.length + 1
        rw [List.length_tail]
        omega
      · rw [if_neg hfits] at hfate
        rw [if_neg (show ¬ (JsonPart.integer d v).Fits from hfits)]
        by_cases hshort : d.text.length < 64
        · rw [if_pos hshort] at hfate
          simp only [specStep, hfate] at hstep
          exact absurd hstep (by simp)
        · rw [if_neg hshort] at hfate
          simp only [specStep, hfate] at hstep
          rw [← JsonfStep.go.inj hstep]
          exact Nat.le_refl _

-- ============================================================================
-- The whole format
-- ============================================================================

/-- Parts that fit store their texts in order, each with its own argument. -/
theorem jsonfLoop_fits (hprint : PrintsIntegers snprintf) {parts : List JsonPart}
    (hvalid : ∀ p ∈ parts, p.Valid) (hfits : ∀ p ∈ parts, p.Fits) {st : JsonfState (List VaArg)}
    (hargs : st.args = partsArgs parts) :
    ∃ st', jsonfLoop (vaListEnv x snprintf) (partsText parts) st = (.finished, st') ∧
      st'.buf.bytes = st.buf.bytes ++ parts.flatMap JsonPart.written ∧ st'.args = [] := by
  induction parts generalizing st with
  | nil => exact ⟨st, jsonfLoop_nil _ _, (List.append_nil _).symm, hargs⟩
  | cons p parts ih =>
      obtain ⟨hp, hparts⟩ := List.forall_mem_cons.mp hvalid
      obtain ⟨hpFits, hpartsFit⟩ := List.forall_mem_cons.mp hfits
      have hnext : nextPiece (partsText (p :: parts)) = some (p.piece, partsText parts) :=
        nextPiece_part hp (partsText parts)
      obtain ⟨st₁, hstep, hbytes, hargs₁⟩ := jsonfStep_fits (x := x) hprint hp hpFits hargs
      obtain ⟨st', hloop, hbytes', hargs'⟩ := ih hparts hpartsFit hargs₁
      refine ⟨st', ?_, ?_, hargs'⟩
      · rw [jsonfLoop_of_next hnext, hstep]
        exact hloop
      · rw [hbytes', hbytes, List.flatMap_cons, List.append_assoc]

/-- When a run finishes, the arguments of the directives that were not
    formatted are left. -/
theorem jsonfLoop_args {parts : List JsonPart} (hvalid : ∀ p ∈ parts, p.Valid)
    {st st' : JsonfState (List VaArg)}
    (h : jsonfLoop (vaListEnv x snprintf) (partsText parts) st = (.finished, st')) :
    st.args.length ≤
      st'.args.length + (parts.map fun p => if p.Fits then p.arg.length else 0).sum := by
  induction parts generalizing st with
  | nil =>
      have hnil : jsonfLoop (vaListEnv x snprintf) (partsText []) st = (.finished, st) :=
        jsonfLoop_nil _ _
      rw [hnil] at h
      rw [(Prod.mk.inj h).2]
      exact Nat.le_add_right _ _
  | cons p parts ih =>
      obtain ⟨hp, hparts⟩ := List.forall_mem_cons.mp hvalid
      have hnext : nextPiece (partsText (p :: parts)) = some (p.piece, partsText parts) :=
        nextPiece_part hp (partsText parts)
      rw [jsonfLoop_of_next hnext] at h
      cases hstep : jsonfStep (vaListEnv x snprintf) st p.piece with
      | go st₁ =>
          rw [hstep] at h
          have hone := jsonfStep_args hp hstep
          have hrest := ih hparts h
          rw [List.map_cons, List.sum_cons]
          omega
      | refuse =>
          rw [hstep] at h
          simp at h
      | overrun =>
          rw [hstep] at h
          simp at h

/-- A run that finishes with all arguments taken has formatted every
    directive. -/
theorem fits_of_finished {parts : List JsonPart} (hvalid : ∀ p ∈ parts, p.Valid)
    {st st' : JsonfState (List VaArg)} (hargs : st.args = partsArgs parts)
    (h : jsonfLoop (vaListEnv x snprintf) (partsText parts) st = (.finished, st'))
    (htaken : st'.args = []) : ∀ p ∈ parts, p.Fits := by
  have hle := jsonfLoop_args hvalid h
  rw [hargs, htaken, partsArgs, List.length_flatMap, List.length_nil, Nat.zero_add] at hle
  intro p hp
  by_contra hnot
  have hlt : (parts.map fun p => if p.Fits then p.arg.length else 0).sum <
      (parts.map fun p => p.arg.length).sum := by
    apply List.sum_lt_sum
    · intro q hq
      split
      · exact Nat.le_refl _
      · exact Nat.zero_le _
    · refine ⟨p, hp, ?_⟩
      rw [if_neg hnot]
      cases p with
      | integer d v => exact Nat.one_pos
      | _ => exact absurd trivial hnot
  omega

end Parts

-- ============================================================================
-- Deviations do not cancel out
-- ============================================================================

/-- A weight of bytes under which no deviating `%c` is lighter than what it
    stands for: raw control bytes count 5, `u` and the hexadecimal digits from
    8 on count 2, a backslash counts -1. -/
def weight (b : Byte) : Int :=
  if b < 0x20 then 5
  else if b = 117 || (56 ≤ b && b ≤ 57) || (97 ≤ b && b ≤ 102) then 2
  else if b = 92 then -1
  else 0

def textWeight (text : Bytes) : Int := (text.map weight).sum

theorem textWeight_append (a b : Bytes) : textWeight (a ++ b) = textWeight a + textWeight b := by
  rw [textWeight, List.map_append, List.sum_append]
  rfl

theorem textWeight_flatMap (f : JsonPart → Bytes) (parts : List JsonPart) :
    textWeight (parts.flatMap f) = (parts.map fun p => textWeight (f p)).sum := by
  induction parts with
  | nil => rfl
  | cons p parts ih => rw [List.flatMap_cons, textWeight_append, ih, List.map_cons, List.sum_cons]

/-- An escape weighs less than the byte it is for. -/
theorem textWeight_escape_lt {b : Byte} (h : jsonEscapeByte b ≠ [b]) :
    textWeight (jsonEscapeByte b) < textWeight [b] := by
  have hall : ∀ n < 256, jsonEscapeByte (UInt8.ofNat n) ≠ [UInt8.ofNat n] →
      textWeight (jsonEscapeByte (UInt8.ofNat n)) < textWeight [UInt8.ofNat n] := by decide +kernel
  have hb := hall b.toNat b.toNat_lt
  rw [UInt8.ofNat_toNat] at hb
  exact hb h

/-- An escape weighs at most 3, and that only in the form `\u00xx`. -/
theorem textWeight_escape_le (b : Byte) : textWeight (jsonEscapeByte b) ≤ 3 ∧
    (textWeight (jsonEscapeByte b) = 3 →
      (jsonEscapeByte b).length = 6 ∧ (jsonEscapeByte b)[2]? = some 48) := by
  have hall : ∀ n < 256, textWeight (jsonEscapeByte (UInt8.ofNat n)) ≤ 3 ∧
      (textWeight (jsonEscapeByte (UInt8.ofNat n)) = 3 →
        (jsonEscapeByte (UInt8.ofNat n)).length = 6 ∧
          (jsonEscapeByte (UInt8.ofNat n))[2]? = some 48) := by decide +kernel
  have hb := hall b.toNat b.toNat_lt
  rwa [UInt8.ofNat_toNat] at hb

/-- The digits of a number that takes `k + 1` of them, from the first on. -/
theorem toDigits_eq_cons {n m k : Nat} (hn : 1 ≤ n ∧ n < 16) (hm : m < 16 ^ k) :
    ∃ t, Nat.toDigits 16 (n * 16 ^ k + m) = Nat.digitChar n :: t ∧ t.length = k := by
  induction k generalizing m with
  | zero =>
      obtain rfl : m = 0 := by simpa using hm
      exact ⟨[], by simpa using Nat.toDigits_of_lt_base hn.2, rfl⟩
  | succ k ih =>
      have hpow : 16 ^ (k + 1) = 16 * 16 ^ k := Nat.pow_succ'
      have hpos : 0 < 16 ^ k := Nat.pow_pos (by decide)
      have hbase : 16 ≤ n * 16 ^ (k + 1) + m := by
        have hle : 16 * 1 ≤ 16 ^ (k + 1) := by
          rw [hpow]
          exact Nat.mul_le_mul_left 16 hpos
        have hn' : 16 ^ (k + 1) ≤ n * 16 ^ (k + 1) := Nat.le_mul_of_pos_left _ hn.1
        omega
      have hdiv : (n * 16 ^ (k + 1) + m) / 16 = n * 16 ^ k + m / 16 := by
        have hassoc : n * 16 ^ (k + 1) + m = 16 * (n * 16 ^ k) + m := by
          rw [hpow, Nat.mul_left_comm]
        rw [hassoc, Nat.mul_add_div (by decide)]
      obtain ⟨t, ht, hlen⟩ := ih (m := m / 16) (by
        rw [hpow] at hm
        exact Nat.div_lt_of_lt_mul hm)
      refine ⟨t ++ [Nat.digitChar ((n * 16 ^ (k + 1) + m) % 16)], ?_, by
        rw [List.length_append, hlen]
        rfl⟩
      rw [Nat.toDigits_of_base_le (by decide) hbase, hdiv, ht, List.cons_append]

/-- A negative `%c` argument is stored as `\u` and four of its eight digits,
    the first of them from 8 on. -/
theorem charText_of_neg {c : Int} (hc : CType.int.wrap c = c) (hneg : c < 0) :
    3 ≤ textWeight (charText c) ∧ (charText c).length = 6 ∧ (charText c)[2]? ≠ some 48 := by
  have hlo : -2 ^ 31 ≤ c := by
    have h := @Int.le_bmod c (2 ^ 32) (by decide)
    rw [show c.bmod (2 ^ 32) = c from hc] at h
    omega
  obtain ⟨n, m, hsplit, hn, hm⟩ : ∃ n m : Nat, (c % 2 ^ 32).toNat = n * 16 ^ 7 + m ∧
      (8 ≤ n ∧ n < 16) ∧ m < 16 ^ 7 := by
    refine ⟨(c % 2 ^ 32).toNat / 16 ^ 7, (c % 2 ^ 32).toNat % 16 ^ 7, ?_, ?_, ?_⟩
    · exact (Nat.div_add_mod' _ _).symm
    · omega
    · exact Nat.mod_lt _ (by decide)
  obtain ⟨t, ht, htlen⟩ := toDigits_eq_cons (k := 7) ⟨by omega, hn.2⟩ hm
  have hhex : hexadecimal (c % 2 ^ 32).toNat =
      (Nat.digitChar n).toUInt8 :: t.map Char.toUInt8 := by
    rw [hexadecimal, hsplit, ht, List.map_cons]
  have hdigit : weight (Nat.digitChar n).toUInt8 = 2 ∧ (Nat.digitChar n).toUInt8 ≠ 48 := by
    have hall : ∀ k < 16, 8 ≤ k →
        weight (Nat.digitChar k).toUInt8 = 2 ∧ (Nat.digitChar k).toUInt8 ≠ 48 := by decide
    exact hall n hn.2 hn.1
  have htext : charText c =
      92 :: 117 :: (Nat.digitChar n).toUInt8 :: (t.map Char.toUInt8).take 3 := by
    have hlen : (hexadecimal (c % 2 ^ 32).toNat).length = 8 := by
      rw [hhex, List.length_cons, List.length_map, htlen]
    simp only [charText]
    rw [if_neg (by omega), if_neg (by omega), if_neg (by omega), if_neg (by omega),
      if_neg (by omega), if_neg (by omega), if_pos (by omega), unicodeEscape, hlen, hhex]
    rfl
  have hrest : 0 ≤ textWeight ((t.map Char.toUInt8).take 3) := by
    apply List.sum_nonneg
    intro w hw
    obtain ⟨b, hb, rfl⟩ := List.mem_map.mp hw
    have hmem : b ∈ hexadecimal (c % 2 ^ 32).toNat := by
      rw [hhex]
      exact List.mem_cons_of_mem _ (List.mem_of_mem_take hb)
    obtain ⟨d, hd, rfl⟩ := List.mem_map.mp hmem
    exact Numerals.forall_mem_toDigits (p := fun d => 0 ≤ weight d.toUInt8) (by decide) (by decide)
      _ d hd
  refine ⟨?_, ?_, ?_⟩
  · have hsum : textWeight (charText c) =
        -1 + (2 + (weight (Nat.digitChar n).toUInt8 + textWeight ((t.map Char.toUInt8).take 3))) := by
      rw [htext]
      rfl
    rw [hsum, hdigit.1]
    omega
  · rw [htext]
    simp [htlen]
  · rw [htext]
    simpa using hdigit.2

/-- A character in the range of `unsigned char` is stored as its escape. -/
theorem charText_of_byte {c : Int} (hlo : 0 < c) (hhi : c < 256) :
    charText c = jsonEscapeByte (UInt8.ofNat (c % 256).toNat) := by
  obtain ⟨n, rfl⟩ := Int.eq_ofNat_of_zero_le (Int.le_of_lt hlo)
  have hall : ∀ n : Nat, n < 256 → 0 < n →
      charText (n : Int) = jsonEscapeByte (UInt8.ofNat ((n : Int) % 256).toNat) := by decide +kernel
  exact hall n (by omega) (by omega)

/-- One above it is stored as its low byte. -/
theorem charText_of_large {c : Int} (h : 256 ≤ c) :
    charText c = [UInt8.ofNat (c % 256).toNat] := by
  simp only [charText]
  rw [if_neg (by omega), if_neg (by omega), if_neg (by omega), if_neg (by omega),
    if_neg (by omega), if_neg (by omega), if_neg (by omega)]

/-- A part that meets the condition is stored as what it stands for; of the
    others none is lighter, and one that weighs the same is as long and
    differs. -/
theorem written_cases {p : JsonPart} (hp : p.Valid) (hfits : p.Fits) :
    (p.Rendered ∧ p.written = p.rendering) ∨
      (¬ p.Rendered ∧ textWeight p.rendering < textWeight p.written) ∨
      (¬ p.Rendered ∧ textWeight p.rendering = textWeight p.written ∧
        p.written.length = p.rendering.length ∧ p.written ≠ p.rendering) := by
  cases p with
  | char c =>
      show (JsonPart.Rendered (.char c) ∧ charText c = jsonEscapeByte _) ∨
        (_ ∧ textWeight (jsonEscapeByte _) < textWeight (charText c)) ∨
        (_ ∧ textWeight (jsonEscapeByte _) = textWeight (charText c) ∧
          (charText c).length = (jsonEscapeByte _).length ∧ charText c ≠ jsonEscapeByte _)
      by_cases hlo : 0 < c
      · by_cases hhi : c < 256
        · exact .inl ⟨⟨hlo, .inl hhi⟩, charText_of_byte hlo hhi⟩
        · have htext := charText_of_large (Int.not_lt.mp hhi)
          by_cases hplain : jsonEscapeByte (UInt8.ofNat (c % 256).toNat) =
              [UInt8.ofNat (c % 256).toNat]
          · exact .inl ⟨⟨hlo, .inr hplain⟩, by rw [htext, hplain]⟩
          · refine .inr (.inl ⟨?_, ?_⟩)
            · rintro ⟨-, h | h⟩
              · exact hhi h
              · exact hplain h
            · rw [htext]
              exact textWeight_escape_lt hplain
      · have hneg : c < 0 := by
          have hne := hp.2
          omega
        have hnot : ¬ JsonPart.Rendered (.char c) := fun h => hlo h.1
        obtain ⟨hweight, hlen, hthird⟩ := charText_of_neg hp.1 hneg
        obtain ⟨hle, hthree⟩ := textWeight_escape_le (UInt8.ofNat (c % 256).toNat)
        by_cases hlt : textWeight (jsonEscapeByte (UInt8.ofNat (c % 256).toNat)) <
            textWeight (charText c)
        · exact .inr (.inl ⟨hnot, hlt⟩)
        · obtain ⟨hsix, hzero⟩ := hthree (by omega)
          refine .inr (.inr ⟨hnot, by omega, by rw [hlen, hsix], fun h => ?_⟩)
          rw [h] at hthird
          exact hthird hzero
  | integer d v => exact .inl ⟨hfits, rfl⟩
  | _ => exact .inl ⟨trivial, rfl⟩

/-- Texts of equal length that are equal together are equal one by one. -/
theorem eq_of_flatMap_eq {f g : JsonPart → Bytes} {parts : List JsonPart}
    (hlen : ∀ p ∈ parts, (f p).length = (g p).length) (h : parts.flatMap f = parts.flatMap g) :
    ∀ p ∈ parts, f p = g p := by
  induction parts with
  | nil => simp
  | cons p parts ih =>
      obtain ⟨hp, hparts⟩ := List.forall_mem_cons.mp hlen
      rw [List.flatMap_cons, List.flatMap_cons] at h
      obtain ⟨hfirst, hrest⟩ := List.append_inj h hp
      exact List.forall_mem_cons.mpr ⟨hfirst, ih hparts hrest⟩

/-- Parts that are stored as the body they stand for all meet the
    condition. -/
theorem rendered_of_written {parts : List JsonPart} (hvalid : ∀ p ∈ parts, p.Valid)
    (hfits : ∀ p ∈ parts, p.Fits) (h : parts.flatMap JsonPart.written = partsRendering parts) :
    ∀ p ∈ parts, p.Rendered := by
  have hcases : ∀ p ∈ parts, _ := fun p hp => written_cases (hvalid p hp) (hfits p hp)
  have hle : ∀ p ∈ parts, textWeight p.rendering ≤ textWeight p.written := by
    intro p hp
    obtain ⟨-, heq⟩ | ⟨-, hlt⟩ | ⟨-, heq, -⟩ := hcases p hp
    · rw [heq]
    · exact Int.le_of_lt hlt
    · exact Int.le_of_eq heq
  have hsum : (parts.map fun p => textWeight p.rendering).sum =
      (parts.map fun p => textWeight p.written).sum := by
    rw [← textWeight_flatMap, ← textWeight_flatMap, h, partsRendering]
  have hnotLight : ∀ p ∈ parts, ¬ textWeight p.rendering < textWeight p.written := by
    intro p hp hlt
    have hsumLt := List.sum_lt_sum (fun p => textWeight p.rendering)
      (fun p => textWeight p.written) hle ⟨p, hp, hlt⟩
    omega
  have hlen : ∀ p ∈ parts, p.written.length = p.rendering.length := by
    intro p hp
    obtain ⟨-, heq⟩ | ⟨-, hlt⟩ | ⟨-, -, hlen, -⟩ := hcases p hp
    · rw [heq]
    · exact absurd hlt (hnotLight p hp)
    · exact hlen
  have hall := eq_of_flatMap_eq hlen h
  intro p hp
  obtain ⟨hrendered, -⟩ | ⟨-, hlt⟩ | ⟨-, -, -, hne⟩ := hcases p hp
  · exact hrendered
  · exact absurd hlt (hnotLight p hp)
  · exact absurd (hall p hp) hne

-- ============================================================================
-- The response
-- ============================================================================

/-- The response is 200 with the renderings for its body, in order and with a
    NUL behind them, and every argument has been taken. -/
def RendersOwn {D : Type} (env : JsonfEnv (List VaArg) D) (parts : List JsonPart) : Prop :=
  mnetJsonfv env (some (partsText parts)) (partsArgs parts) =
      some { status := 200, contentType := some (ascii "application/json")
             body := some (partsRendering parts ++ [0])
             bodyLength := (partsRendering parts).length } ∧
    (jsonfLoop env (partsText parts) { args := partsArgs parts }).2.args = []

theorem JsonPart.Rendered.fits {p : JsonPart} (h : p.Rendered) : p.Fits := by
  cases p with
  | integer d v => exact h
  | _ => trivial

/-- Where every conversion is rendered with its own argument, every part meets
    the condition. -/
theorem rendered_of_rendersOwn {D : Type} {x : D}
    {snprintf : Bytes → FormatValue D → Option Bytes} (hprint : PrintsIntegers snprintf)
    {parts : List JsonPart} (hvalid : ∀ p ∈ parts, p.Valid)
    (h : RendersOwn (vaListEnv x snprintf) parts) : ∀ p ∈ parts, p.Rendered := by
  obtain ⟨hresponse, htaken⟩ := h
  rcases hloop : jsonfLoop (vaListEnv x snprintf) (partsText parts)
    { args := partsArgs parts } with ⟨verdict, st⟩
  rw [hloop] at htaken
  simp only [mnetJsonfv, hloop] at hresponse
  cases verdict with
  | overrun => exact absurd hresponse (by simp)
  | refused =>
      have hstatus : (500 : Int) = 200 := congrArg MnetResponse.status (Option.some.inj hresponse)
      exact absurd hstatus (by decide)
  | finished =>
      have hfits := fits_of_finished hvalid rfl hloop htaken
      obtain ⟨st', hloop', hbytes, -⟩ :=
        @jsonfLoop_fits D x snprintf hprint parts hvalid hfits { args := partsArgs parts } rfl
      rw [hloop] at hloop'
      obtain rfl := (Prod.mk.inj hloop').2
      have hbody : some (st.buf.bytes ++ [0]) = some (partsRendering parts ++ [0]) :=
        congrArg MnetResponse.body (Option.some.inj hresponse)
      have hbytes' := List.append_cancel_right (Option.some.inj hbody)
      rw [hbytes] at hbytes'
      exact rendered_of_written hvalid hfits hbytes'

/-- Every conversion is rendered with its own argument exactly when every `%c`
    argument is in the range of `unsigned char` or has a plain low byte above
    it, and no directive is too long. -/
theorem rendersOwn_iff {D : Type} (x : D) {snprintf : Bytes → FormatValue D → Option Bytes}
    (hprint : PrintsIntegers snprintf) {parts : List JsonPart} (hvalid : ∀ p ∈ parts, p.Valid) :
    RendersOwn (vaListEnv x snprintf) parts ↔ ∀ p ∈ parts, p.Rendered := by
  constructor
  · exact rendered_of_rendersOwn hprint hvalid
  · intro hrendered
    have hfits : ∀ p ∈ parts, p.Fits := fun p hp => (hrendered p hp).fits
    obtain ⟨st', hloop, hbytes, htaken⟩ :=
      @jsonfLoop_fits D x snprintf hprint parts hvalid hfits { args := partsArgs parts } rfl
    have hwritten : parts.flatMap JsonPart.written = partsRendering parts := by
      apply List.flatMap_congr
      intro p hp
      obtain ⟨-, heq⟩ | ⟨hnot, -⟩ | ⟨hnot, -⟩ := written_cases (hvalid p hp) (hfits p hp)
      · exact heq
      · exact absurd (hrendered p hp) hnot
      · exact absurd (hrendered p hp) hnot
    rw [hwritten] at hbytes
    have hempty : st'.buf.bytes = partsRendering parts := hbytes
    refine ⟨?_, by rw [hloop]; exact htaken⟩
    simp only [mnetJsonfv, hloop, jsonfResponse, hempty]

/-- `snprintf` on a directive that is an integer conversion. -/
def printInteger (spec : Bytes) : FormatValue Unit → Option Bytes
  | .real _ => none
  | .int v =>
      match spec with
      | 37 :: s =>
          match Printf.read s with
          | some (d, []) =>
              if (d.renderInteger v).length ≤ INT_MAX then some (d.renderInteger v) else none
          | _ => none
      | _ => none

theorem printsIntegers_printInteger : PrintsIntegers printInteger := by
  intro d v _ _ _ hlen
  have hread := Printf.read_body d []
  rw [List.append_nil] at hread
  show (match Printf.read d.body with
    | some (d, []) => if (d.renderInteger v).length ≤ INT_MAX then some (d.renderInteger v) else none
    | _ => none) = _
  rw [hread]
  exact if_pos hlen

/-- `%-4hhd`. -/
def leftCharSized : Directive where
  flags := [45]
  width := .digits [52]
  precision := none
  length := .hh
  conv := 100
  flagsOk := Directive.flagsOk_minus
  widthOk := by decide
  precisionOk := Directive.precisionOk_none
  convOk := Directive.isConv_d

/-- A string with a quote, a character and a number too large for a `char`. -/
def mixedParts : List JsonPart :=
  [.byte 91, .string (some (ascii "q\"")), .percent, .char 122, .integer leftCharSized 300]

theorem rendersOwn_mixedParts :
    RendersOwn (vaListEnv () printInteger) mixedParts ↔ ∀ p ∈ mixedParts, p.Rendered := by
  have hnumber : (JsonPart.integer leftCharSized 300).Valid :=
    ⟨⟨by decide, by decide, by decide, by decide⟩, by decide, by decide, by decide +kernel⟩
  have hvalid : ∀ p ∈ mixedParts, p.Valid := by
    simp only [mixedParts, List.forall_mem_cons]
    refine ⟨?_, ?_, trivial, ?_, hnumber, by simp⟩
    · show (91 : Byte) ≠ PERCENT ∧ (91 : Byte) ≠ 0
      decide
    · show (0 : Byte) ∉ ascii "q\""
      decide
    · show CType.int.wrap 122 = 122 ∧ (122 : Int) ≠ 0
      decide
  exact rendersOwn_iff () printsIntegers_printInteger hvalid

/-- A `char` of -1 is not stored as its byte. -/
theorem not_rendersOwn :
    ¬ ∀ (D : Type) (x : D) (snprintf : Bytes → FormatValue D → Option Bytes)
      (parts : List JsonPart), PrintsIntegers snprintf → (∀ p ∈ parts, p.Valid) →
      RendersOwn (vaListEnv x snprintf) parts := by
  intro h
  have hvalid : ∀ p ∈ [JsonPart.char (-1)], p.Valid := by
    simp only [List.forall_mem_singleton]
    show CType.int.wrap (-1) = -1 ∧ (-1 : Int) ≠ 0
    decide
  have howns := h Unit () printInteger _ printsIntegers_printInteger hvalid
  have hrendered := rendered_of_rendersOwn printsIntegers_printInteger hvalid howns _
    (List.mem_singleton_self _)
  exact absurd hrendered.1 (by decide)

end Mnet
