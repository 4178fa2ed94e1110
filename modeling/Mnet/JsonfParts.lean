/-
  Mnet.JsonfParts

  Formats built from literal bytes, `%%`, `%s`, `%c` and integer conversions,
  with the arguments they call for, and how `mnet_jsonfv` goes through them.

  Every part is one piece of the loop (`nextPiece_part`).  A part that fits
  takes its own argument and stores its text; a directive that is too long is
  passed over with its argument left behind, or overruns `nspec`.
-/

import Mnet.JsonfFormats
import Mnet.Lib.Numerals

namespace Mnet

open Printf (Directive)

-- ============================================================================
-- Escaping
-- ============================================================================

theorem jsonEscapeByte_length_le (b : Byte) : (jsonEscapeByte b).length ≤ 6 := by
  apply forall_byte (p := fun b => (jsonEscapeByte b).length ≤ 6)
  decide +kernel

theorem jsonEscapeByte_length_pos (b : Byte) : 0 < (jsonEscapeByte b).length := by
  apply forall_byte (p := fun b => 0 < (jsonEscapeByte b).length)
  decide +kernel

/-- Six bytes for each of the string leave nothing out. -/
theorem jsonEscapeLoop_eq {outSize : Nat} {s out : Bytes} (h : out.length + 6 * s.length < outSize) :
    jsonEscapeLoop outSize s out = out ++ s.flatMap jsonEscapeByte := by
  induction s generalizing out with
  | nil => exact (List.append_nil _).symm
  | cons b s ih =>
      have hlen := jsonEscapeByte_length_le b
      rw [List.length_cons] at h
      rw [jsonEscapeLoop, if_pos (by omega), if_pos (by omega), ih, List.flatMap_cons,
        List.append_assoc]
      rw [List.length_append]
      omega

theorem escapedString_eq (s : Bytes) : escapedString s = s.flatMap jsonEscapeByte := by
  rw [escapedString, mnetJsonEscape, if_neg (by omega), Option.getD_some, jsonEscapeLoop_eq]
  · exact List.nil_append _
  · simp only [List.length_nil]
    omega

-- ============================================================================
-- Collected directives
-- ============================================================================

/-- A byte that stands before the conversion character of an integer
    conversion: a flag, a digit, the dot, or a letter of a length modifier. -/
def isMidByte (b : Byte) : Bool :=
  Printf.isFlag b || isDigit b || b == 46 || (ascii "lhzjt").contains b

theorem isMidByte_cases {p : Byte → Prop} (h : ∀ n < 256, isMidByte (UInt8.ofNat n) = true →
    p (UInt8.ofNat n)) {b : Byte} (hb : isMidByte b = true) : p b :=
  forall_byte (p := fun b => isMidByte b = true → p b) h b hb

theorem isIntegerConv_cases {p : Byte → Prop} (h : ∀ b ∈ ascii "diouxX", p b) {b : Byte}
    (hb : Printf.isIntegerConv b = true) : p b := by
  apply h
  simp only [Printf.isIntegerConv, Bool.or_eq_true, beq_iff_eq] at hb
  rcases hb with ((((rfl | rfl) | rfl) | rfl) | rfl) | rfl <;> decide

/-- No such byte is one the loop treats by itself. -/
theorem plain_of_isMidByte {b : Byte} (hb : isMidByte b = true) :
    b ≠ 42 ∧ b ≠ 115 ∧ b ∉ conversionCharacters :=
  isMidByte_cases (p := fun b => b ≠ 42 ∧ b ≠ 115 ∧ b ∉ conversionCharacters) (by decide +kernel) hb

theorem conversion_of_isIntegerConv {b : Byte} (hb : Printf.isIntegerConv b = true) :
    b ∈ conversionCharacters ∧ b ≠ PERCENT ∧ b ≠ 99 :=
  isIntegerConv_cases (p := fun b => b ∈ conversionCharacters ∧ b ≠ PERCENT ∧ b ≠ 99)
    (by decide +kernel) hb

/-- The piece such a directive makes. -/
theorem nextPiece_spec {mid : Bytes} {conv : Byte} (hmid : ∀ b ∈ mid, isMidByte b = true)
    (hconv : Printf.isIntegerConv conv = true) (rest : Bytes) :
    nextPiece (PERCENT :: (mid ++ conv :: rest)) = some (.spec mid conv, rest) := by
  have hplain := fun b hb => plain_of_isMidByte (hmid b hb)
  obtain ⟨hends, hpercent, hchar⟩ := conversion_of_isIntegerConv hconv
  apply PieceAt.next
  refine .spec (fun b hb => (hplain b hb).2.2) hends ?_ ?_ fun _ => ⟨hpercent, hchar⟩
  · -- no `s` is among them
    have hs : (115 : Byte) ∉ mid := fun h => (hplain 115 h).2.1 rfl
    rintro (hfront | ⟨digits, -, hfront⟩)
    · exact hs (hfront.subset (List.mem_singleton_self 115))
    · exact hs (hfront.subset (by simp))
  · exact fun h => (hplain 42 (List.mem_of_head? h)).1 rfl

-- ============================================================================
-- Integer directives
-- ============================================================================

/-- An integer conversion whose amounts are written out. -/
structure IntegerDirective (d : Directive) : Prop where
  conv : Printf.isIntegerConv d.conv = true
  width : d.width ≠ .star
  precision : d.precision ≠ some .star
  length : d.length ≠ .L

/-- What stands between the `%` and the conversion character. -/
def directiveMid (d : Directive) : Bytes := d.layout ++ d.length.text

theorem body_eq_mid (d : Directive) : d.body = directiveMid d ++ [d.conv] := by
  rw [Directive.body, directiveMid, List.append_assoc]

theorem text_eq_mid (d : Directive) : PERCENT :: directiveMid d ++ [d.conv] = d.text := by
  rw [Directive.text, body_eq_mid, List.cons_append]

/-- The directive for a `long long`. -/
def normalized (d : Directive) : Directive := { d with length := .ll }

/-- A byte of flags, width and precision. -/
def isLayoutByte (b : Byte) : Bool := Printf.isFlag b || isDigit b || b == 46

theorem amount_digits {a : Printf.Amount} (ha : a.wellFormed = true) (hstar : a ≠ .star) :
    ∃ ds, a = .digits ds ∧ ds.all isDigit = true := by
  cases a with
  | star => exact absurd rfl hstar
  | digits ds => exact ⟨ds, rfl, ha⟩

theorem mem_layout {d : Directive} (hd : IntegerDirective d) :
    ∀ b ∈ d.layout, isLayoutByte b = true := by
  obtain ⟨ws, hwidth, hws⟩ := amount_digits d.widthOk.1 hd.width
  intro b hb
  simp only [isLayoutByte, Bool.or_eq_true, beq_iff_eq]
  rcases List.mem_append.mp hb with hb | hb
  · exact .inl (.inl (List.all_eq_true.mp d.flagsOk b hb))
  · rcases List.mem_append.mp hb with hb | hb
    · rw [hwidth] at hb
      exact .inl (.inr (List.all_eq_true.mp hws b hb))
    · cases hp : d.precision with
      | none => simp [hp] at hb
      | some a =>
          have ha : a.wellFormed = true := by
            have h := d.precisionOk
            rwa [hp] at h
          obtain ⟨ds, rfl, hds⟩ := amount_digits ha fun h => hd.precision (by rw [hp, h])
          rw [hp] at hb
          rcases List.mem_cons.mp hb with rfl | hb
          · exact .inr rfl
          · exact .inl (.inr (List.all_eq_true.mp hds b hb))

theorem mem_lengthText {m : Printf.LengthModifier} (hm : m ≠ .L) :
    ∀ b ∈ m.text, (ascii "lhzjt").contains b = true := by
  have hall : (m.text.all fun b => (ascii "lhzjt").contains b) = true := by
    cases m with
    | L => exact absurd rfl hm
    | _ => rfl
  exact List.all_eq_true.mp hall

theorem not_letter_of_isLayoutByte {b : Byte} (hb : isLayoutByte b = true) :
    (ascii "lhzjt").contains b = false ∧ isMidByte b = true := by
  revert b
  apply forall_byte
  decide +kernel

theorem mem_directiveMid {d : Directive} (hd : IntegerDirective d) :
    ∀ b ∈ directiveMid d, isMidByte b = true := by
  intro b hb
  rcases List.mem_append.mp hb with hb | hb
  · exact (not_letter_of_isLayoutByte (mem_layout hd b hb)).2
  · rw [isMidByte, mem_lengthText hd.length b hb, Bool.or_true]

/-- A directive at the front of a format is its first piece. -/
theorem nextPiece_text {d : Directive} (hd : IntegerDirective d) (rest : Bytes) :
    nextPiece (d.text ++ rest) = some (.spec (directiveMid d) d.conv, rest) := by
  have htext : d.text ++ rest = PERCENT :: (directiveMid d ++ d.conv :: rest) := by
    rw [← text_eq_mid, List.cons_append, List.cons_append, List.append_assoc]
    rfl
  rw [htext]
  exact nextPiece_spec (mem_directiveMid hd) hd.conv rest

/-- The normalized directive is the one with `ll`. -/
theorem normalizedSpec_eq {d : Directive} (hd : IntegerDirective d) :
    normalizedSpec (directiveMid d) d.conv = (normalized d).text := by
  have hlayout : d.layout.filter (fun b => !(ascii "lhzjt").contains b) = d.layout := by
    rw [List.filter_eq_self]
    intro b hb
    rw [(not_letter_of_isLayoutByte (mem_layout hd b hb)).1]
    rfl
  have hletters : d.length.text.filter (fun b => !(ascii "lhzjt").contains b) = [] := by
    rw [List.filter_eq_nil_iff]
    intro b hb
    rw [mem_lengthText hd.length b hb]
    exact Bool.false_ne_true
  have hll : ascii "ll" = Printf.LengthModifier.ll.text := by decide
  rw [normalizedSpec, directiveMid, List.filter_append, hlayout, hletters, List.append_nil, hll]
  simp only [Directive.text, Directive.body, normalized, Directive.layout, List.append_assoc,
    List.cons_append]

theorem specRejected_eq {d : Directive} (hd : IntegerDirective d) :
    specRejected (directiveMid d) d.conv = false := by
  have hnumeric : isNumericConv d.conv = true ∧ (ascii "npa").contains d.conv = false :=
    isIntegerConv_cases (p := fun b => isNumericConv b = true ∧ (ascii "npa").contains b = false)
      (by decide +kernel) hd.conv
  have hscan : ∀ b, (ascii "npa").contains b = false → scanRejects d.conv b = false := by
    intro b hb
    simp only [scanRejects, hnumeric.1, hb, Bool.not_true, Bool.and_false, Bool.or_self]
  have hmid : ∀ b ∈ directiveMid d, (ascii "npa").contains b = false :=
    fun b hb => isMidByte_cases (p := fun b => (ascii "npa").contains b = false) (by decide +kernel)
      (mem_directiveMid hd b hb)
  rw [specRejected, hnumeric.2, Bool.or_false, List.any_eq_false]
  intro b hb
  have hmem := (List.takeWhile_prefix _).subset hb
  rw [hscan b]
  · exact Bool.false_ne_true
  · rcases List.mem_append.mp hmem with h | h
    · exact hmid b h
    · rw [List.mem_singleton.mp h]
      exact hnumeric.2

/-- Digits among the flags are zeros. -/
theorem foldl_flags {zs : Bytes} (hzs : ∀ b ∈ zs, Printf.isFlag b = true ∧ isDigit b = true) :
    zs.foldl (fun n b => n * 10 + digitVal b) 0 = 0 := by
  have hzero : ∀ b : Byte, Printf.isFlag b = true ∧ isDigit b = true → digitVal b = 0 := by
    apply forall_byte
    decide +kernel
  induction zs with
  | nil => rfl
  | cons b zs ih =>
      obtain ⟨hb, hzs⟩ := List.forall_mem_cons.mp hzs
      rw [List.foldl_cons, hzero b hb]
      exact ih hzs

/-- Behind the width stands no digit. -/
theorem head?_behindWidth {d : Directive} (hd : IntegerDirective d) :
    ∀ b ∈ ((d.precision.map fun p => 46 :: p.text).getD [] ++ d.length.text).head?,
      isDigit b = false := by
  intro b hb
  cases hp : d.precision with
  | none =>
      rw [hp] at hb
      have hletter := mem_lengthText hd.length b (List.mem_of_head? hb)
      rw [List.contains_iff_mem] at hletter
      have hnodigit : ((ascii "lhzjt").all fun c => !isDigit c) = true := by decide
      exact (Bool.not_eq_true' _).mp (List.all_eq_true.mp hnodigit b hletter)
  | some a =>
      rw [hp] at hb
      obtain rfl : 46 = b := Option.some.inj hb
      decide

/-- The digits right behind the `%` are flags `0` and the width, or flags
    alone. -/
theorem specWidth_le {d : Directive} (hd : IntegerDirective d) (hwidth : d.width.number ≤ 4096) :
    specWidth (directiveMid d) ≤ 4096 := by
  obtain ⟨ws, hws, hdigits⟩ := amount_digits d.widthOk.1 hd.width
  have hmid : directiveMid d = d.flags ++ (ws ++
      ((d.precision.map fun p => 46 :: p.text).getD [] ++ d.length.text)) := by
    rw [directiveMid, Directive.layout, hws]
    simp only [Printf.Amount.text, List.append_assoc]
  have hflags : ∀ b ∈ d.flags.takeWhile isDigit, Printf.isFlag b = true ∧ isDigit b = true :=
    fun b hb => ⟨List.all_eq_true.mp d.flagsOk b ((List.takeWhile_prefix _).subset hb),
      List.mem_takeWhile_imp hb⟩
  have hnumber : Printf.decimalNumber ((directiveMid d).takeWhile isDigit) ≤ 4096 := by
    show ((directiveMid d).takeWhile isDigit).foldl (fun n b => n * 10 + digitVal b) 0 ≤ 4096
    rw [hmid, List.takeWhile_append]
    split
    · next hall =>
      have hself : d.flags.takeWhile isDigit = d.flags :=
        (List.takeWhile_prefix _).eq_of_length hall
      rw [hself] at hflags
      rw [(Tokens.takeWhile_dropWhile_append hdigits (head?_behindWidth hd)).1, List.foldl_append,
        foldl_flags hflags]
      rw [hws] at hwidth
      exact hwidth
    · rw [foldl_flags hflags]
      decide
  rw [specWidth_eq, Int.bmod_eq_of_le (by omega) (by omega)]
  exact Int.ofNat_le.mpr hnumber

/-- An integer directive is formatted where its layout leaves room for `ll`,
    and overruns `nspec` or is passed over where not. -/
theorem specFate_eq {d : Directive} (hd : IntegerDirective d) (hwidth : d.width.number ≤ 4096) :
    specFate (directiveMid d) d.conv =
      if d.layout.length ≤ 59 then .integer (normalized d).text
      else if d.text.length < 64 then .overrun else .passedOver := by
  have htext := text_eq_mid d
  have hfloat : isFloatConv d.conv = false :=
    isIntegerConv_cases (p := fun b => isFloatConv b = false) (by decide +kernel) hd.conv
  have hlength : d.length.text.length ≤ 2 := by
    cases d.length <;> decide
  have htextLen : d.text.length = d.layout.length + d.length.text.length + 2 := by
    rw [Directive.text, body_eq_mid, directiveMid]
    simp only [List.length_cons, List.length_append, List.length_nil]
  have hnormalized : (normalized d).text.length = d.layout.length + 4 := by
    rw [Directive.text, body_eq_mid, directiveMid]
    simp only [List.length_cons, List.length_append, List.length_nil]
    rfl
  have hnotWide : ¬ specWidth (directiveMid d) > 4096 := Int.not_lt.mpr (specWidth_le hd hwidth)
  simp only [specFate, htext, specRejected_eq hd, hfloat, normalizedSpec_eq hd, if_neg hnotWide,
    Bool.false_eq_true, if_false, hnormalized]
  by_cases hfits : d.layout.length ≤ 59
  · rw [if_pos (by omega), if_neg (by omega), if_pos hfits]
  · have hlong : d.layout.length + 4 ≥ 64 := by omega
    rw [if_neg hfits, if_pos hlong]

-- ============================================================================
-- Reading an integer
-- ============================================================================

/-- An argument of a call. -/
inductive VaArg where
  | string (s : Option Bytes)
  | integer (v : Int)
deriving DecidableEq, Repr

/-- A value read as a type. -/
def CType.wrap : CType → Int → Int
  | .int, v => v.bmod (2 ^ 32)
  | .uint, v => v % 2 ^ 32
  | .long, v | .longLong, v | .ssize, v | .ptrdiff, v => v.bmod (2 ^ 64)
  | .ulong, v | .ulongLong, v | .size, v => v % 2 ^ 64

/-- A call with a list of arguments; floats, which no part asks for, are all
    read as `x`. -/
def vaListEnv {D : Type} (x : D) (snprintf : Bytes → FormatValue D → Option Bytes) :
    JsonfEnv (List VaArg) D where
  string args := (match args with | .string s :: _ => s | _ => none, args.tail)
  integer ty args := (match args with | .integer v :: _ => ty.wrap v | _ => 0, args.tail)
  real _ args := (x, args.tail)
  snprintf := snprintf

/-- The type of the argument a directive calls for; `%jd` takes an `intmax_t`,
    `%tu` the unsigned type of `ptrdiff_t`. -/
def argType (d : Directive) : CType :=
  if isSignedConv d.conv then
    match d.length with
    | .l => .long
    | .ll | .j => .longLong
    | .z => .ssize
    | .t => .ptrdiff
    | _ => .int
  else
    match d.length with
    | .l => .ulong
    | .ll | .j => .ulongLong
    | .z | .t => .size
    | _ => .uint

/-- The value a directive prints of its argument: for `h` and `hh` that of a
    `short` or a `char`. -/
def printedValue (d : Directive) (v : Int) : Int :=
  match d.length with
  | .hh => if isSignedConv d.conv then v.bmod (2 ^ 8) else v % 2 ^ 8
  | .h => if isSignedConv d.conv then v.bmod (2 ^ 16) else v % 2 ^ 16
  | _ => v

/-- A directive holds the letters of its length modifier and no others of
    their kind. -/
theorem count_text {d : Directive} (hd : IntegerDirective d) {c : Byte}
    (hc : (ascii "lhzjt").contains c = true) : d.text.count c = d.length.text.count c := by
  have hlayout : d.layout.count c = 0 := by
    apply List.count_eq_zero_of_not_mem
    intro h
    rw [(not_letter_of_isLayoutByte (mem_layout hd c h)).1] at hc
    exact Bool.false_ne_true hc
  have hne : c ≠ 37 ∧ c ≠ d.conv := by
    constructor
    · rintro rfl
      exact absurd hc (by decide)
    · rintro rfl
      have h : (ascii "lhzjt").contains d.conv = false :=
        isIntegerConv_cases (p := fun b => (ascii "lhzjt").contains b = false) (by decide +kernel)
          hd.conv
      rw [h] at hc
      exact Bool.false_ne_true hc
  have hpercent : (37 == c) = false := by simpa using hne.1.symm
  have hconv : (d.conv == c) = false := by simpa using hne.2.symm
  rw [Directive.text, body_eq_mid, directiveMid, List.count_cons, List.count_append,
    List.count_append, List.count_singleton, hlayout, hpercent, hconv]
  simp

theorem noNul_text {d : Directive} (hd : IntegerDirective d) : (0 : Byte) ∉ d.text := by
  intro h
  rw [Directive.text, body_eq_mid] at h
  rcases List.mem_cons.mp h with h | h
  · exact absurd h (by decide)
  · rcases List.mem_append.mp h with h | h
    · exact absurd (mem_directiveMid hd 0 h) (by decide)
    · have hconv := hd.conv
      rw [← List.mem_singleton.mp h] at hconv
      exact absurd hconv (by decide)

/-- One letter is found where the modifier holds it. -/
theorem strstr_letter {d : Directive} (hd : IntegerDirective d) {c : Byte}
    (hc : (ascii "lhzjt").contains c = true) :
    (strstr d.text [c]).isSome = decide (0 < d.length.text.count c) := by
  rw [Bool.eq_iff_iff, strstr_isSome_iff (noNul_text hd), decide_eq_true_eq, ← count_text hd hc,
    List.count_pos_iff]
  constructor
  · exact fun h => h.subset (List.mem_singleton_self c)
  · intro h
    obtain ⟨a, b, hab⟩ := List.append_of_mem h
    exact ⟨a, b, by rw [hab, List.append_assoc, List.singleton_append]⟩

/-- A doubled letter is found where the modifier is that. -/
theorem strstr_doubled {d : Directive} (hd : IntegerDirective d) {c : Byte}
    (hc : (ascii "lhzjt").contains c = true) :
    (strstr d.text [c, c]).isSome = decide (d.length.text = [c, c]) := by
  rw [Bool.eq_iff_iff, strstr_isSome_iff (noNul_text hd), decide_eq_true_eq]
  constructor
  · intro h
    have hcount := h.sublist.count_le c
    rw [count_text hd hc, List.count_cons_self, List.count_cons_self, List.count_nil] at hcount
    have hlen : ∀ m : Printf.LengthModifier, 2 ≤ m.text.count c → m.text = [c, c] := by
      intro m hm
      cases m <;> simp [Printf.LengthModifier.text, List.count_cons] at hm ⊢ <;> grind
    exact hlen _ hcount
  · intro h
    refine ⟨37 :: d.layout, [d.conv], ?_⟩
    rw [Directive.text, body_eq_mid, directiveMid, h]
    simp only [List.cons_append, List.append_assoc]

/-- An integer is read as the type its directive calls for. -/
theorem readInteger_eq {D : Type} {x : D} {snprintf : Bytes → FormatValue D → Option Bytes}
    {d : Directive} (hd : IntegerDirective d) {v : Int} (hv : (argType d).wrap v = v)
    (args : List VaArg) :
    readInteger (vaListEnv x snprintf) d.text d.conv (.integer v :: args) =
      (printedValue d v, args) := by
  have hll : (strstr d.text (ascii "ll")).isSome = decide (d.length.text = [108, 108]) :=
    strstr_doubled hd (by decide)
  have hl : (strstr d.text (ascii "l")).isSome = decide (0 < d.length.text.count 108) :=
    strstr_letter hd (by decide)
  have hhh : (strstr d.text (ascii "hh")).isSome = decide (d.length.text = [104, 104]) :=
    strstr_doubled hd (by decide)
  have hh : (strstr d.text (ascii "h")).isSome = decide (0 < d.length.text.count 104) :=
    strstr_letter hd (by decide)
  have hz : (strstr d.text (ascii "z")).isSome = decide (0 < d.length.text.count 122) :=
    strstr_letter hd (by decide)
  have hj : (strstr d.text (ascii "j")).isSome = decide (0 < d.length.text.count 106) :=
    strstr_letter hd (by decide)
  have ht : (strstr d.text (ascii "t")).isSome = decide (0 < d.length.text.count 116) :=
    strstr_letter hd (by decide)
  have hread : ∀ ty, (vaListEnv x snprintf).integer ty (.integer v :: args) = (ty.wrap v, args) :=
    fun _ => rfl
  simp only [readInteger, hll, hl, hhh, hh, hz, hj, ht, hread, printedValue]
  simp only [argType] at hv
  cases hsigned : isSignedConv d.conv with
  | true =>
      rw [hsigned, if_pos rfl] at hv
      cases hlen : d.length with
      | L => exact absurd hlen hd.length
      | _ =>
          rw [hlen] at hv
          dsimp only at hv
          simp [Printf.LengthModifier.text, hv]
  | false =>
      rw [hsigned, if_neg Bool.false_ne_true] at hv
      cases hlen : d.length with
      | L => exact absurd hlen hd.length
      | t =>
          -- read as a `ptrdiff_t` and made unsigned
          have hwrap : (CType.ptrdiff.wrap v) % 2 ^ 64 = v := by
            rw [hlen] at hv
            have hmod : v % 2 ^ 64 = v := hv
            have hbmod : v.bmod (2 ^ 64) % ((2 ^ 64 : Nat) : Int) = v % ((2 ^ 64 : Nat) : Int) :=
              Int.bmod_emod
            exact hbmod.trans hmod
          simpa [Printf.LengthModifier.text] using hwrap
      | _ =>
          rw [hlen] at hv
          dsimp only at hv
          simp [Printf.LengthModifier.text, hv]

end Mnet
