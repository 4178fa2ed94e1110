/-
  Mnet.Lib.Printf

  The conversion directives of `printf`: their grammar, a reader for it, and
  what an integer conversion prints.

  A `Directive` carries its grammar in its fields, so that its text has one
  reading (`read_body`).  `directives` are the directives a format holds at its
  conversion positions, from left to right.
-/

import Mathlib.Data.Nat.Digits.Defs
import Mnet.Lib.Tokens

namespace Printf

abbrev Text := List UInt8

-- ============================================================================
-- Directives
-- ============================================================================

/-- `-`, `+`, space, `#` or `0`. -/
def isFlag (b : UInt8) : Bool := b == 45 || b == 43 || b == 32 || b == 35 || b == 48

def isDigit (b : UInt8) : Bool := 48 ≤ b && b ≤ 57

/-- One of `d i o u x X`. -/
def isIntegerConv (b : UInt8) : Bool :=
  b == 100 || b == 105 || b == 111 || b == 117 || b == 120 || b == 88

/-- One of `f F e E g G a A c s p n`, or an integer conversion. -/
def isConv (b : UInt8) : Bool :=
  isIntegerConv b || b == 102 || b == 70 || b == 101 || b == 69 || b == 103 || b == 71 ||
    b == 97 || b == 65 || b == 99 || b == 115 || b == 112 || b == 110

/-- A field width or a precision: digits, none for no width, or a `*` for an
    argument. -/
inductive Amount where
  | digits (ds : Text)
  | star
deriving DecidableEq, Repr

def Amount.text : Amount → Text
  | .digits ds => ds
  | .star => [42]

def Amount.wellFormed : Amount → Bool
  | .digits ds => ds.all isDigit
  | .star => true

inductive LengthModifier where
  | none | hh | h | l | ll | j | z | t | L
deriving DecidableEq, Repr

def LengthModifier.text : LengthModifier → Text
  | .none => []
  | .hh => [104, 104]
  | .h => [104]
  | .l => [108]
  | .ll => [108, 108]
  | .j => [106]
  | .z => [122]
  | .t => [116]
  | .L => [76]

/-- A directive of the grammar `%[flags][width][.precision][length]conv`. -/
structure Directive where
  flags : Text
  width : Amount
  precision : Option Amount
  length : LengthModifier
  conv : UInt8
  flagsOk : flags.all isFlag = true
  /-- digits that begin with a 0 would be a flag -/
  widthOk : width.wellFormed = true ∧ width.text.head? ≠ some 48
  precisionOk : precision.all Amount.wellFormed = true
  convOk : isConv conv = true
deriving DecidableEq

namespace Directive

theorem flagsOk_nil : ([] : Text).all isFlag = true := rfl

theorem flagsOk_minus : ([45] : Text).all isFlag = true := by decide

theorem precisionOk_none : (none : Option Amount).all Amount.wellFormed = true := rfl

theorem isConv_d : isConv 100 = true := by decide

/-- Flags, width and precision. -/
def layout (d : Directive) : Text :=
  d.flags ++ (d.width.text ++ (d.precision.map fun p => 46 :: p.text).getD [])

/-- What stands behind the `%`. -/
def body (d : Directive) : Text := d.layout ++ (d.length.text ++ [d.conv])

def text (d : Directive) : Text := 37 :: d.body

end Directive

-- ============================================================================
-- The reader
-- ============================================================================

def readAmount : Text → Amount × Text
  | 42 :: s => (.star, s)
  | s => (.digits (s.takeWhile isDigit), s.dropWhile isDigit)

def readPrecision : Text → Option Amount × Text
  | 46 :: s => (some (readAmount s).1, (readAmount s).2)
  | s => (none, s)

def readLength : Text → LengthModifier × Text
  | 104 :: 104 :: s => (.hh, s)
  | 104 :: s => (.h, s)
  | 108 :: 108 :: s => (.ll, s)
  | 108 :: s => (.l, s)
  | 106 :: s => (.j, s)
  | 122 :: s => (.z, s)
  | 116 :: s => (.t, s)
  | 76 :: s => (.L, s)
  | s => (.none, s)

theorem readAmount_wellFormed (s : Text) : (readAmount s).1.wellFormed = true := by
  unfold readAmount
  split
  · rfl
  · exact List.all_takeWhile

theorem readAmount_head? {s : Text} (h : s.head? ≠ some 48) :
    (readAmount s).1.text.head? ≠ some 48 := by
  unfold readAmount
  split
  · show some (42 : UInt8) ≠ some 48
    decide
  · cases s with
    | nil => exact Option.some_ne_none _ |>.symm
    | cons b s =>
        show (List.takeWhile isDigit (b :: s)).head? ≠ some 48
        rw [List.takeWhile_cons]
        split
        · exact h
        · exact Option.some_ne_none _ |>.symm

theorem readPrecision_wellFormed (s : Text) :
    (readPrecision s).1.all Amount.wellFormed = true := by
  unfold readPrecision
  split
  · exact readAmount_wellFormed _
  · rfl

/-- No flag is left behind the flags. -/
theorem head?_dropWhile_isFlag (s : Text) : (s.dropWhile isFlag).head? ≠ some 48 := by
  intro h
  have hnot := List.head?_dropWhile_not isFlag s
  rw [h] at hnot
  exact absurd hnot (by decide)

/-- The directive that begins behind a `%`, and what follows it. -/
def read (s : Text) : Option (Directive × Text) :=
  let width := readAmount (s.dropWhile isFlag)
  let precision := readPrecision width.2
  let length := readLength precision.2
  match length.2 with
  | [] => none
  | conv :: rest =>
      if h : isConv conv = true then
        some
          ({ flags := s.takeWhile isFlag
             width := width.1
             precision := precision.1
             length := length.1
             conv := conv
             flagsOk := List.all_takeWhile
             widthOk := ⟨readAmount_wellFormed _, readAmount_head? (head?_dropWhile_isFlag s)⟩
             precisionOk := readPrecision_wellFormed _
             convOk := h }, rest)
      else none

theorem length_readAmount_le (s : Text) : (readAmount s).2.length ≤ s.length := by
  unfold readAmount
  split
  · exact Nat.le_succ _
  · exact (List.dropWhile_suffix _).length_le

theorem length_readPrecision_le (s : Text) : (readPrecision s).2.length ≤ s.length := by
  unfold readPrecision
  split
  · exact Nat.le_succ_of_le (length_readAmount_le _)
  · exact Nat.le_refl _

theorem length_readLength_le (s : Text) : (readLength s).2.length ≤ s.length := by
  unfold readLength
  split <;> simp only [List.length_cons] <;> omega

theorem length_read {s rest : Text} {d : Directive} (h : read s = some (d, rest)) :
    rest.length < s.length := by
  have hflags : (s.dropWhile isFlag).length ≤ s.length := (List.dropWhile_suffix _).length_le
  have hwidth := length_readAmount_le (s.dropWhile isFlag)
  have hprecision := length_readPrecision_le (readAmount (s.dropWhile isFlag)).2
  have hlength := length_readLength_le (readPrecision (readAmount (s.dropWhile isFlag)).2).2
  simp only [read] at h
  split at h
  · simp at h
  · next conv behind hbehind =>
    split at h
    · obtain ⟨-, rfl⟩ := Prod.mk.inj (Option.some.inj h)
      rw [hbehind, List.length_cons] at hlength
      omega
    · simp at h

/-- The directives at the conversion positions of a format, up to a `%` that
    begins none. -/
def directives : Text → List Directive
  | [] => []
  | 37 :: s =>
      if s.head? = some 37 then directives s.tail
      else
        match _h : read s with
        | some (d, rest) => d :: directives rest
        | none => []
  | _ :: s => directives s
termination_by s => s.length
decreasing_by
  · simp only [List.length_tail, List.length_cons]
    omega
  · have hlen := length_read _h
    simp only [List.length_cons]
    omega
  · simp

-- ============================================================================
-- Reading a directive back
-- ============================================================================

/-- What may follow the precision: no flag, digit, star or dot. -/
def closes (b : UInt8) : Bool := !isFlag b && !isDigit b && b != 42 && b != 46

theorem closes_of_isConv {b : UInt8} (h : isConv b = true) : closes b = true := by
  simp only [isConv, isIntegerConv, Bool.or_eq_true, beq_iff_eq] at h
  rcases h with (((((((((((((((((rfl | rfl) | rfl) | rfl) | rfl) | rfl) | rfl) | rfl) | rfl) | rfl) |
    rfl) | rfl) | rfl) | rfl) | rfl) | rfl) | rfl) | rfl) <;> rfl

theorem closes_length {m : LengthModifier} {conv : UInt8} (h : isConv conv = true) (rest : Text) :
    ∀ b ∈ (m.text ++ conv :: rest).head?, closes b = true := by
  intro b hb
  cases m with
  | none =>
      obtain rfl : conv = b := Option.some.inj hb
      exact closes_of_isConv h
  | _ =>
      obtain rfl := Option.some.inj hb
      rfl

theorem readAmount_append {a : Amount} (ha : a.wellFormed = true) {t : Text}
    (ht : ∀ b ∈ t.head?, isDigit b = false ∧ b ≠ 42) : readAmount (a.text ++ t) = (a, t) := by
  cases a with
  | star => rfl
  | digits ds =>
      have hstar : ∀ s, ds ++ t ≠ 42 :: s := by
        intro s hs
        cases ds with
        | nil => exact (ht 42 (by rw [← List.nil_append t, hs]; rfl)).2 rfl
        | cons b ds =>
            obtain rfl : b = 42 := (List.cons.inj hs).1
            exact absurd (List.all_eq_true.mp ha 42 (List.mem_cons_self ..)) (by decide)
      obtain ⟨htake, hdrop⟩ := Tokens.takeWhile_dropWhile_append ha fun b hb => (ht b hb).1
      show readAmount (ds ++ t) = _
      rw [readAmount, htake, hdrop]
      exact hstar

theorem readPrecision_append {p : Option Amount} (hp : p.all Amount.wellFormed = true) {t : Text}
    (ht : ∀ b ∈ t.head?, closes b = true) :
    readPrecision ((p.map fun a => 46 :: a.text).getD [] ++ t) = (p, t) := by
  have htail : ∀ b ∈ t.head?, isDigit b = false ∧ b ≠ 42 := by
    intro b hb
    have h := ht b hb
    simp only [closes, Bool.and_eq_true, Bool.not_eq_true', bne_iff_ne] at h
    exact ⟨h.1.1.2, h.1.2⟩
  cases p with
  | none =>
      show readPrecision t = _
      rw [readPrecision]
      rintro s rfl
      exact absurd (ht 46 rfl) (by decide)
  | some a =>
      have h := readAmount_append hp htail
      show readPrecision (46 :: (a.text ++ t)) = _
      rw [readPrecision, h]

theorem readLength_append {m : LengthModifier} {conv : UInt8} (h : isConv conv = true)
    (rest : Text) : readLength (m.text ++ conv :: rest) = (m, conv :: rest) := by
  simp only [isConv, isIntegerConv, Bool.or_eq_true, beq_iff_eq] at h
  rcases h with (((((((((((((((((rfl | rfl) | rfl) | rfl) | rfl) | rfl) | rfl) | rfl) | rfl) | rfl) |
    rfl) | rfl) | rfl) | rfl) | rfl) | rfl) | rfl) | rfl) <;> cases m <;> rfl

/-- A width begins with no flag. -/
theorem isFlag_width {a : Amount} (ha : a.wellFormed = true) (h0 : a.text.head? ≠ some 48) :
    ∀ b ∈ a.text.head?, isFlag b = false := by
  intro b hb
  cases a with
  | star =>
      obtain rfl : 42 = b := Option.some.inj hb
      decide
  | digits ds =>
      have hdigit : isDigit b = true := List.all_eq_true.mp ha b (List.mem_of_head? hb)
      by_contra hflag
      simp only [isFlag, Bool.not_eq_false, Bool.or_eq_true, beq_iff_eq] at hflag
      rcases hflag with (((rfl | rfl) | rfl) | rfl) | rfl
      · exact absurd hdigit (by decide)
      · exact absurd hdigit (by decide)
      · exact absurd hdigit (by decide)
      · exact absurd hdigit (by decide)
      · exact h0 hb

/-- A directive is read back from its text. -/
theorem read_body (d : Directive) (rest : Text) : read (d.body ++ rest) = some (d, rest) := by
  have hclose := closes_length (m := d.length) d.convOk rest
  have hprecision := readPrecision_append d.precisionOk hclose
  have hprecisionHead : ∀ b ∈ ((d.precision.map fun a => 46 :: a.text).getD [] ++
      (d.length.text ++ d.conv :: rest)).head?, isFlag b = false ∧ isDigit b = false ∧ b ≠ 42 := by
    intro b hb
    cases hp : d.precision with
    | none =>
        rw [hp] at hb
        have h := hclose b hb
        simp only [closes, Bool.and_eq_true, Bool.not_eq_true', bne_iff_ne] at h
        exact ⟨h.1.1.1, h.1.1.2, h.1.2⟩
    | some a =>
        rw [hp] at hb
        obtain rfl : 46 = b := Option.some.inj hb
        decide
  have hwidth := readAmount_append d.widthOk.1 fun b hb => (hprecisionHead b hb).2
  have hwidthHead : ∀ b ∈ (d.width.text ++ ((d.precision.map fun a => 46 :: a.text).getD [] ++
      (d.length.text ++ d.conv :: rest))).head?, isFlag b = false := by
    intro b hb
    cases hw : d.width.text with
    | nil =>
        rw [hw] at hb
        exact (hprecisionHead b hb).1
    | cons c ds =>
        rw [hw] at hb
        obtain rfl : c = b := Option.some.inj hb
        exact isFlag_width d.widthOk.1 d.widthOk.2 c (by rw [hw]; rfl)
  obtain ⟨hflags, hbehind⟩ := Tokens.takeWhile_dropWhile_append d.flagsOk hwidthHead
  have hbody : d.body ++ rest = d.flags ++ (d.width.text ++
      ((d.precision.map fun a => 46 :: a.text).getD [] ++ (d.length.text ++ d.conv :: rest))) := by
    simp only [Directive.body, Directive.layout, List.append_assoc, List.cons_append,
      List.nil_append]
  simp only [read, hbody, hflags, hbehind, hwidth, hprecision, readLength_append d.convOk]
  rw [dif_pos d.convOk]

-- ============================================================================
-- Conversion positions
-- ============================================================================

@[simp] theorem directives_nil : directives [] = [] := by rw [directives]

/-- A directive at the front is the first one. -/
theorem directives_text_append (d : Directive) (rest : Text) :
    directives (d.text ++ rest) = d :: directives rest := by
  have hne : (d.body ++ rest).head? ≠ some 37 := by
    intro h
    have hread := read_body d rest
    obtain ⟨s, hs⟩ := List.head?_eq_some_iff.mp h
    rw [hs] at hread
    have hnone : read (37 :: s) = none := rfl
    rw [hnone] at hread
    exact absurd hread (by simp)
  rw [Directive.text, List.cons_append, directives, if_neg hne]
  split
  · next d' rest' hread =>
    rw [read_body] at hread
    obtain ⟨rfl, rfl⟩ := Prod.mk.inj (Option.some.inj hread)
    rfl
  · next hread =>
    rw [read_body] at hread
    simp at hread

-- ============================================================================
-- Integer conversions
-- ============================================================================

/-- The number a row of decimal digits stands for. -/
def decimalNumber (ds : Text) : Nat := ds.foldl (fun n b => n * 10 + (b.toNat - 48)) 0

def Amount.number : Amount → Nat
  | .digits ds => decimalNumber ds
  | .star => 0

/-- The digits of a number in the base of a conversion. -/
def magnitude (conv : UInt8) (n : Nat) : Text :=
  if conv = 111 then (Nat.toDigits 8 n).map Char.toUInt8
  else if conv = 120 then (Nat.toDigits 16 n).map Char.toUInt8
  else if conv = 88 then (Nat.toDigits 16 n).map fun c => c.toUpper.toUInt8
  else (Nat.toDigits 10 n).map Char.toUInt8

/-- The text of a number under an integer conversion with its flags, width and
    precision; a `*` counts as 0. -/
def Directive.renderInteger (d : Directive) (v : Int) : Text :=
  let n := v.natAbs
  let precision := d.precision.map Amount.number
  let shown := if n = 0 ∧ precision = some 0 then [] else magnitude d.conv n
  let padded := List.replicate (precision.getD 1 - shown.length) 48 ++ shown
  let digits :=
    if d.conv = 111 ∧ 35 ∈ d.flags ∧ padded.head? ≠ some 48 then 48 :: padded else padded
  let sign : Text :=
    if d.conv = 100 ∨ d.conv = 105 then
      if v < 0 then [45] else if 43 ∈ d.flags then [43] else if 32 ∈ d.flags then [32] else []
    else if (d.conv = 120 ∨ d.conv = 88) ∧ 35 ∈ d.flags ∧ n ≠ 0 then [48, d.conv]
    else []
  let fill := d.width.number - (sign.length + digits.length)
  if 45 ∈ d.flags then sign ++ digits ++ List.replicate fill 32
  else if 48 ∈ d.flags ∧ d.precision = none then sign ++ List.replicate fill 48 ++ digits
  else List.replicate fill 32 ++ sign ++ digits

namespace Directive

/-- The precision; none counts as 0. -/
def precisionNumber (d : Directive) : Nat := (d.precision.map Amount.number).getD 0

/-- The sign, or the prefix of a hexadecimal number, a text begins with. -/
def sign (d : Directive) (v : Int) : Text :=
  if d.conv = 100 ∨ d.conv = 105 then
    if v < 0 then [45] else if 43 ∈ d.flags then [43] else if 32 ∈ d.flags then [32] else []
  else if (d.conv = 120 ∨ d.conv = 88) ∧ 35 ∈ d.flags ∧ v.natAbs ≠ 0 then [48, d.conv]
  else []

/-- The digits behind it. -/
def digits (d : Directive) (v : Int) : Text :=
  let n := v.natAbs
  let precision := d.precision.map Amount.number
  let shown := if n = 0 ∧ precision = some 0 then [] else magnitude d.conv n
  let padded := List.replicate (precision.getD 1 - shown.length) 48 ++ shown
  if d.conv = 111 ∧ 35 ∈ d.flags ∧ padded.head? ≠ some 48 then 48 :: padded else padded

theorem renderInteger_eq (d : Directive) (v : Int) :
    d.renderInteger v =
      if 45 ∈ d.flags then
        d.sign v ++ d.digits v ++
          List.replicate (d.width.number - ((d.sign v).length + (d.digits v).length)) 32
      else if 48 ∈ d.flags ∧ d.precision = none then
        d.sign v ++
          List.replicate (d.width.number - ((d.sign v).length + (d.digits v).length)) 48 ++ d.digits v
      else
        List.replicate (d.width.number - ((d.sign v).length + (d.digits v).length)) 32 ++
          d.sign v ++ d.digits v := rfl

/-- The field is as wide as what is in it, and at least as wide as it is asked
    to be. -/
theorem length_renderInteger (d : Directive) (v : Int) :
    (d.renderInteger v).length =
      max d.width.number ((d.sign v).length + (d.digits v).length) := by
  rw [renderInteger_eq]
  split
  · simp only [List.length_append, List.length_replicate]
    omega
  · split
    · simp only [List.length_append, List.length_replicate]
      omega
    · simp only [List.length_append, List.length_replicate]
      omega

end Directive

/-- A number of at most 64 bits has at most 22 digits. -/
theorem length_magnitude_le {n : Nat} (h : n ≤ 2 ^ 64) (conv : UInt8) :
    (magnitude conv n).length ≤ 22 := by
  have hbase : ∀ b, 8 ≤ b → (Nat.toDigits b n).length ≤ 22 := by
    intro b hb
    refine (Nat.length_toDigits_le_iff (by omega) (by decide)).mpr ?_
    have hpow : 8 ^ 22 ≤ b ^ 22 := Nat.pow_le_pow_left hb 22
    omega
  rw [magnitude]
  split
  · rw [List.length_map]
    exact hbase 8 (by decide)
  · split
    · rw [List.length_map]
      exact hbase 16 (by decide)
    · split
      · rw [List.length_map]
        exact hbase 16 (by decide)
      · rw [List.length_map]
        exact hbase 10 (by decide)

/-- Beyond the digits of the number there are those its precision asks for, and
    the 0 of an octal one. -/
theorem Directive.length_digits_le (d : Directive) {v : Int} (h : v.natAbs ≤ 2 ^ 64) :
    (d.digits v).length ≤ max d.precisionNumber 23 := by
  have hmag := length_magnitude_le h d.conv
  unfold Directive.digits
  dsimp only
  generalize hshown : (if v.natAbs = 0 ∧ d.precision.map Amount.number = some 0 then []
    else magnitude d.conv v.natAbs) = shown
  have hlen : shown.length ≤ 22 := by
    rw [← hshown]
    split
    · exact Nat.zero_le _
    · exact hmag
  have hprecision : (d.precision.map Amount.number).getD 1 ≤ max d.precisionNumber 1 := by
    rw [Directive.precisionNumber]
    cases d.precision with
    | none => exact Nat.le_refl 1
    | some a => exact Nat.le_max_left ..
  split
  · next hoct =>
    -- a 0 is put in front only of digits that were not filled up
    have hfill : (d.precision.map Amount.number).getD 1 - shown.length = 0 := by
      by_contra hne
      obtain ⟨k, hk⟩ := Nat.exists_eq_succ_of_ne_zero hne
      exact hoct.2.2 (by rw [hk]; rfl)
    rw [hfill]
    simp only [List.replicate_zero, List.nil_append, List.length_cons]
    omega
  · rw [List.length_append, List.length_replicate]
    omega

end Printf
