/-
  Mnet.JsonTemplate

  Formats of `mnet_jsonf` that are JSON documents with holes, and what is read
  in the body.

  In a string stand `%s`, `%c` and integer directives of any flags, width and
  precision between characters of the template; in place of a number stands a
  directive without these.  Whatever the arguments are, the body is read as the
  document of the template with every hole filled by its own argument
  (`read_jsonf`): no argument ends a string, adds a member or breaks the syntax.
-/

import Mnet.JsonEscaping
import Mnet.JsonfRendering
import Mnet.Lib.Json

namespace Mnet

open Printf (Directive)

-- ============================================================================
-- Holes
-- ============================================================================

/-- A byte of the template; `%` is doubled. -/
def literalPart (b : Byte) : JsonPart := if b = PERCENT then .percent else .byte b

/-- A piece of a string in a template, with the argument it calls for. -/
inductive StringPart where
  /-- one character as a literal spells it, and what it stands for -/
  | spelled (piece value : Bytes) (spells : JsonString.Spells piece value)
      (noNul : (0 : Byte) ∉ piece)
  /-- `%s` -/
  | string (s : Option Bytes) (noNul : (0 : Byte) ∉ s.getD [])
  /-- `%c` -/
  | char (c : Int) (range : 0 < c ∧ c < 256)
  | integer (d : Directive) (v : Int) (valid : (JsonPart.integer d v).Valid)
      (fits : d.layout.length ≤ 59)

namespace StringPart

def parts : StringPart → List JsonPart
  | spelled piece _ _ _ => piece.map literalPart
  | string s _ => [.string s]
  | char c _ => [.char c]
  | integer d v _ _ => [.integer d v]

/-- What the piece stands for: the argument's own bytes, a number as it is
    printed. -/
def value : StringPart → Bytes
  | spelled _ value _ _ => value
  | string s _ => s.getD (ascii "(null)")
  | char c _ => [UInt8.ofNat (c % 256).toNat]
  | integer d v _ _ => d.renderInteger (printedValue d v)

end StringPart

/-- A number in a template: written out, or `%d`, `%i`, `%u` with a length
    modifier at most. -/
inductive NumberPart where
  | spelled (text : Bytes) (number : Json.Number) (reads : Json.parseNumber text = some number)
      (bytes : text.all Json.isNumberByte = true)
  | integer (d : Directive) (v : Int) (valid : (JsonPart.integer d v).Valid)
      (plain : d.layout = []) (conv : d.conv ∈ ascii "diu")

namespace NumberPart

def parts : NumberPart → List JsonPart
  | spelled text _ _ _ => text.map literalPart
  | integer d v _ _ _ => [.integer d v]

def value : NumberPart → Json.Number
  | spelled _ number _ _ => number
  | integer d v _ _ _ => { mantissa := printedValue d v }

end NumberPart

/-- The parts of a token. -/
def tokenParts : Json.Token (List StringPart) NumberPart → List JsonPart
  | .openArray => [.byte 91]
  | .closeArray => [.byte 93]
  | .openObject => [.byte 123]
  | .closeObject => [.byte 125]
  | .comma => [.byte 44]
  | .colon => [.byte 58]
  | .null => (ascii "null").map .byte
  | .bool true => (ascii "true").map .byte
  | .bool false => (ascii "false").map .byte
  | .string s => .byte 34 :: (s.flatMap StringPart.parts ++ [.byte 34])
  | .number n => n.parts

/-- The format of a row of tokens, each behind its own spaces. -/
def templateParts (ts : List (Bytes × Json.Token (List StringPart) NumberPart))
    (trailing : Bytes) : List JsonPart :=
  ts.flatMap (fun t => t.1.map .byte ++ tokenParts t.2) ++ trailing.map .byte

-- ============================================================================
-- What is stored
-- ============================================================================

theorem rendering_literalPart (b : Byte) : (literalPart b).rendering = [b] := by
  rw [literalPart]
  split
  · next h => rw [h]; rfl
  · rfl

theorem partsRendering_append (a b : List JsonPart) :
    partsRendering (a ++ b) = partsRendering a ++ partsRendering b := List.flatMap_append

theorem partsRendering_literal (s : Bytes) : partsRendering (s.map literalPart) = s := by
  rw [partsRendering, List.flatMap_map]
  simp only [rendering_literalPart]
  exact List.flatMap_singleton' s

theorem partsRendering_bytes (s : Bytes) : partsRendering (s.map .byte) = s := by
  rw [partsRendering, List.flatMap_map]
  exact List.flatMap_singleton' s

/-- A byte of a printed integer: a space, a sign, a digit, `x`, `X`. -/
def isPrintedByte (b : Byte) : Bool :=
  b == 32 || b == 43 || b == 45 || isDigit b || (ascii "abcdefxABCDEFX").contains b

theorem isPrintedByte_magnitude (conv : Byte) (n : Nat) :
    ∀ b ∈ Printf.magnitude conv n, isPrintedByte b = true := by
  have hdigits : ∀ base, 1 < base → base ≤ 16 → ∀ f : Char → Byte,
      (∀ d < 16, isPrintedByte (f (Nat.digitChar d)) = true) →
      ∀ b ∈ (Nat.toDigits base n).map f, isPrintedByte b = true := by
    intro base hbase hle f hf
    refine List.forall_mem_map.mpr ?_
    exact Numerals.forall_mem_toDigits hbase (fun d hd => hf d (by omega)) n
  rw [Printf.magnitude]
  split
  · exact hdigits 8 (by decide) (by decide) _ (by decide)
  · split
    · exact hdigits 16 (by decide) (by decide) _ (by decide)
    · split
      · exact hdigits 16 (by decide) (by decide) _ (by decide)
      · exact hdigits 10 (by decide) (by decide) _ (by decide)

theorem isPrintedByte_sign (d : Directive) (v : Int) :
    ∀ b ∈ d.sign v, isPrintedByte b = true := by
  intro b hb
  rw [Directive.sign] at hb
  split at hb
  · split at hb
    · rw [List.mem_singleton.mp hb]
      rfl
    · split at hb
      · rw [List.mem_singleton.mp hb]
        rfl
      · split at hb
        · rw [List.mem_singleton.mp hb]
          rfl
        · exact absurd hb List.not_mem_nil
  · split at hb
    · next hhex =>
      rcases List.mem_cons.mp hb with rfl | hb
      · rfl
      · rw [List.mem_singleton.mp hb]
        rcases hhex.1 with h | h
        · rw [h]; decide
        · rw [h]; decide
    · exact absurd hb List.not_mem_nil

theorem isPrintedByte_digits (d : Directive) (v : Int) :
    ∀ b ∈ d.digits v, isPrintedByte b = true := by
  intro b hb
  unfold Directive.digits at hb
  dsimp only at hb
  generalize hshown : (if v.natAbs = 0 ∧ d.precision.map Printf.Amount.number = some 0 then []
    else Printf.magnitude d.conv v.natAbs) = shown at hb
  have hzero : isPrintedByte 48 = true := rfl
  have hall : ∀ b ∈ shown, isPrintedByte b = true := by
    rw [← hshown]
    split
    · exact fun b hb => absurd hb List.not_mem_nil
    · exact isPrintedByte_magnitude _ _
  have hpadded : ∀ n, ∀ b ∈ List.replicate n 48 ++ shown, isPrintedByte b = true := by
    intro n b hb
    rcases List.mem_append.mp hb with hb | hb
    · rw [List.eq_of_mem_replicate hb]
      exact hzero
    · exact hall b hb
  split at hb
  · rcases List.mem_cons.mp hb with rfl | hb
    · exact hzero
    · exact hpadded _ b hb
  · exact hpadded _ b hb

theorem isPrintedByte_renderInteger (d : Directive) (v : Int) :
    ∀ b ∈ d.renderInteger v, isPrintedByte b = true := by
  intro b hb
  have hfill : ∀ n : Nat, ∀ c, isPrintedByte c = true →
      ∀ b ∈ List.replicate n c, isPrintedByte b = true := by
    intro n c hc b hb
    rw [List.eq_of_mem_replicate hb]
    exact hc
  have hcases : b ∈ d.sign v ∨ b ∈ d.digits v ∨ ∃ n, b ∈ List.replicate n 48 ∨
      b ∈ List.replicate n 32 := by
    rw [Directive.renderInteger_eq] at hb
    split at hb
    · rcases List.mem_append.mp hb with hb | hb
      · exact (List.mem_append.mp hb).imp_right .inl
      · exact .inr (.inr ⟨_, .inr hb⟩)
    · split at hb
      · rcases List.mem_append.mp hb with hb | hb
        · exact (List.mem_append.mp hb).imp_right fun hb => .inr ⟨_, .inl hb⟩
        · exact .inr (.inl hb)
      · rcases List.mem_append.mp hb with hb | hb
        · exact (List.mem_append.mp hb).symm.imp_right fun hb => .inr ⟨_, .inr hb⟩
        · exact .inr (.inl hb)
  rcases hcases with hb | hb | ⟨n, hb | hb⟩
  · exact isPrintedByte_sign d v b hb
  · exact isPrintedByte_digits d v b hb
  · exact hfill n 48 rfl b hb
  · exact hfill n 32 rfl b hb

/-- A printed integer stands for itself in a string. -/
theorem spells_of_isPrintedByte {b : Byte} (hb : isPrintedByte b = true) :
    JsonString.Spells [b] [b] := by
  have hall : ∀ b : Byte, isPrintedByte b = true → b ≠ 92 ∧ b ≠ 34 ∧ ¬ b < 0x20 := by
    apply forall_byte
    decide +kernel
  obtain ⟨hback, hquote, hcontrol⟩ := hall b hb
  exact JsonString.spells_raw hback hquote hcontrol

/-- An unsigned conversion prints no negative number. -/
theorem printedValue_nonneg {d : Directive} {v : Int} (hsigned : isSignedConv d.conv = false)
    (hv : (argType d).wrap v = v) : 0 ≤ printedValue d v := by
  have hmod : ∀ m : Int, 0 < m → 0 ≤ v % m := fun m hm => Int.emod_nonneg v (by omega)
  have hnonneg : 0 ≤ (argType d).wrap v := by
    rw [argType, hsigned, if_neg Bool.false_ne_true]
    split
    all_goals exact hmod _ (by decide)
  rw [hv] at hnonneg
  rw [printedValue, hsigned]
  split
  · exact hmod _ (by decide)
  · exact hmod _ (by decide)
  · exact hnonneg

/-- A directive without flags, width and precision prints the number's decimal
    text. -/
theorem renderInteger_plain {d : Directive} {v : Int} (hvalid : (JsonPart.integer d v).Valid)
    (hplain : d.layout = []) (hconv : d.conv ∈ ascii "diu") :
    d.renderInteger (printedValue d v) = Json.integerText (printedValue d v) := by
  obtain ⟨hflags, hbehind⟩ := List.append_eq_nil_iff.mp hplain
  obtain ⟨hwidth, hprecision⟩ := List.append_eq_nil_iff.mp hbehind
  have hwidth0 : d.width.number = 0 := by
    cases hw : d.width with
    | star => rw [hw] at hwidth; exact absurd hwidth (by decide)
    | digits ds =>
        rw [hw] at hwidth
        obtain rfl : ds = [] := hwidth
        rfl
  have hprecision0 : d.precision = none := by
    cases hp : d.precision with
    | none => rfl
    | some a => rw [hp] at hprecision; exact absurd hprecision (List.cons_ne_nil _ _)
  have hbase : ∀ n, Printf.magnitude d.conv n = (Nat.toDigits 10 n).map Char.toUInt8 := by
    have hall : ∀ c ∈ ascii "diu", c ≠ 111 ∧ c ≠ 120 ∧ c ≠ 88 := by decide +kernel
    obtain ⟨hoct, hhex, hupper⟩ := hall _ hconv
    intro n
    rw [Printf.magnitude, if_neg hoct, if_neg hhex, if_neg hupper]
  have hdigits : d.digits (printedValue d v) =
      (Nat.toDigits 10 (printedValue d v).natAbs).map Char.toUInt8 := by
    have hpos : 0 < (Nat.toDigits 10 (printedValue d v).natAbs).length :=
      List.length_pos_iff.mpr Nat.toDigits_ne_nil
    simp only [Directive.digits, hprecision0, hflags, hbase, Option.map_none, reduceCtorEq,
      and_false, if_false, List.not_mem_nil, false_and, Option.getD_none, List.length_map]
    rw [Nat.sub_eq_zero_of_le hpos]
    exact List.nil_append _
  have hsign : d.sign (printedValue d v) = if printedValue d v < 0 then [45] else [] := by
    simp only [Directive.sign, hflags, List.not_mem_nil, false_and, and_false, if_false]
    cases hsigned : isSignedConv d.conv with
    | true =>
        have hall : ∀ c ∈ ascii "diu", isSignedConv c = true → c = 100 ∨ c = 105 := by
          decide +kernel
        rw [if_pos (hall _ hconv hsigned)]
    | false =>
        have hall : ∀ c ∈ ascii "diu", isSignedConv c = false → ¬ (c = 100 ∨ c = 105) := by
          decide +kernel
        have hnonneg := printedValue_nonneg hsigned hvalid.2.2.1
        rw [if_neg (hall _ hconv hsigned), if_neg (Int.not_lt.mpr hnonneg)]
  rw [Directive.renderInteger_eq, hflags, if_neg List.not_mem_nil,
    if_neg fun h => List.not_mem_nil h.1, hwidth0, Nat.zero_sub, List.replicate_zero,
    List.nil_append, hsign, hdigits]
  rfl

-- ============================================================================
-- The template as a spelling
-- ============================================================================

/-- What a piece stores is read as what it stands for. -/
theorem read_stringPart (p : StringPart) (rest : Bytes) :
    JsonString.read (partsRendering p.parts ++ rest) =
      (JsonString.read rest).map fun (t, behind) => (p.value ++ t, behind) := by
  cases p with
  | spelled piece value spells noNul =>
      show JsonString.read (partsRendering (piece.map literalPart) ++ rest) = _
      rw [partsRendering_literal]
      exact JsonString.read_spelled spells rest
  | string s noNul =>
      show JsonString.read (((s.getD (ascii "(null)")).flatMap jsonEscapeByte ++ []) ++ rest) = _
      rw [List.append_nil]
      exact JsonString.read_flatMap_append (fun b _ => jsonEscapeByte_spells b) rest
  | char c range =>
      show JsonString.read ((jsonEscapeByte _ ++ []) ++ rest) = _
      rw [List.append_nil]
      exact JsonString.read_spelled (jsonEscapeByte_spells _) rest
  | integer d v valid fits =>
      have hspells : ∀ b ∈ d.renderInteger (printedValue d v), JsonString.Spells [b] [b] :=
        fun b hb => spells_of_isPrintedByte (isPrintedByte_renderInteger d _ b hb)
      have hread := JsonString.read_flatMap_append hspells rest
      rw [List.flatMap_singleton'] at hread
      show JsonString.read ((d.renderInteger (printedValue d v) ++ []) ++ rest) = _
      rw [List.append_nil]
      exact hread

theorem read_stringParts (s : List StringPart) (rest : Bytes) :
    JsonString.read (partsRendering (s.flatMap StringPart.parts) ++ 34 :: rest) =
      some (s.flatMap StringPart.value, rest) := by
  induction s with
  | nil =>
      show JsonString.read (34 :: rest) = _
      rw [JsonString.read]
      exact if_pos rfl
  | cons p s ih =>
      rw [List.flatMap_cons, partsRendering_append, List.append_assoc, read_stringPart, ih]
      rfl

/-- What a template's strings and numbers are stored and read as. -/
def filled : Json.Spelling (List StringPart) NumberPart where
  string s := partsRendering (s.flatMap StringPart.parts)
  stringValue s := s.flatMap StringPart.value
  number n := partsRendering n.parts
  numberValue := NumberPart.value
  reads_string := read_stringParts
  reads_number n := by
    cases n with
    | spelled text number reads bytes =>
        show Json.parseNumber (partsRendering (text.map literalPart)) = _
        rw [partsRendering_literal]
        exact reads
    | integer d v valid plain conv =>
        show Json.parseNumber (d.renderInteger (printedValue d v) ++ []) = _
        rw [List.append_nil, renderInteger_plain valid plain conv]
        exact Json.parseNumber_integerText _
  number_bytes n := by
    cases n with
    | spelled text number reads bytes =>
        show (partsRendering (text.map literalPart)).all Json.isNumberByte = true
        rw [partsRendering_literal]
        exact bytes
    | integer d v valid plain conv =>
        show (d.renderInteger (printedValue d v) ++ []).all Json.isNumberByte = true
        rw [List.append_nil, renderInteger_plain valid plain conv]
        exact Json.numberBytes_integerText _

theorem partsRendering_token (t : Json.Token (List StringPart) NumberPart) :
    partsRendering (tokenParts t) = filled.token t := by
  cases t with
  | string s =>
      show 34 :: partsRendering (s.flatMap StringPart.parts ++ [.byte 34]) = _
      rw [partsRendering_append]
      rfl
  | bool b => cases b <;> rfl
  | _ => rfl

theorem partsRendering_template
    (ts : List (Bytes × Json.Token (List StringPart) NumberPart)) (trailing : Bytes) :
    partsRendering (templateParts ts trailing) = filled.row ts ++ trailing := by
  rw [templateParts, partsRendering_append, partsRendering_bytes]
  refine congrArg (· ++ trailing) ?_
  rw [partsRendering, List.flatMap_assoc]
  refine List.flatMap_congr fun t _ => ?_
  show partsRendering (t.1.map .byte ++ tokenParts t.2) = _
  rw [partsRendering_append, partsRendering_bytes, partsRendering_token]

-- ============================================================================
-- The call
-- ============================================================================

/-- The part is valid and rendered as it stands for. -/
def JsonPart.Sound (p : JsonPart) : Prop := p.Valid ∧ p.Rendered

theorem sound_literalPart {b : Byte} (hb : b ≠ 0) : (literalPart b).Sound := by
  rw [literalPart]
  split
  · exact ⟨trivial, trivial⟩
  · next h => exact ⟨⟨h, hb⟩, trivial⟩

theorem sound_stringPart (p : StringPart) : ∀ q ∈ p.parts, q.Sound := by
  cases p with
  | spelled piece value spells noNul =>
      exact List.forall_mem_map.mpr fun b hb => sound_literalPart fun h => noNul (h ▸ hb)
  | string s noNul => exact List.forall_mem_singleton.mpr ⟨noNul, trivial⟩
  | char c range =>
      have hwrap : CType.int.wrap c = c := by
        show c.bmod (2 ^ 32) = c
        exact Int.bmod_eq_of_le (by omega) (by omega)
      exact List.forall_mem_singleton.mpr ⟨⟨hwrap, by omega⟩, range.1, .inl range.2⟩
  | integer d v valid fits => exact List.forall_mem_singleton.mpr ⟨valid, fits⟩

theorem sound_numberPart (n : NumberPart) : ∀ q ∈ n.parts, q.Sound := by
  cases n with
  | spelled text number reads bytes =>
      refine List.forall_mem_map.mpr fun b hb => sound_literalPart ?_
      rintro rfl
      exact absurd (List.all_eq_true.mp bytes 0 hb) (by decide)
  | integer d v valid plain conv =>
      refine List.forall_mem_singleton.mpr ⟨valid, ?_⟩
      show d.layout.length ≤ 59
      rw [plain]
      exact Nat.zero_le _

theorem sound_bytes {s : Bytes} (hs : ∀ b ∈ s, b ≠ PERCENT ∧ b ≠ 0) :
    ∀ q ∈ s.map JsonPart.byte, q.Sound :=
  List.forall_mem_map.mpr fun b hb => ⟨hs b hb, trivial⟩

theorem sound_spaces {s : Bytes} (hs : s.all Json.isSpace = true) :
    ∀ q ∈ s.map JsonPart.byte, q.Sound := by
  apply sound_bytes
  intro b hb
  have hspace := List.all_eq_true.mp hs b hb
  constructor
  · rintro rfl
    exact absurd hspace (by decide)
  · rintro rfl
    exact absurd hspace (by decide)

theorem sound_token (t : Json.Token (List StringPart) NumberPart) :
    ∀ q ∈ tokenParts t, q.Sound := by
  have hone : ∀ b : Byte, b ≠ PERCENT ∧ b ≠ 0 → ∀ q ∈ [JsonPart.byte b], q.Sound :=
    fun b hb => List.forall_mem_singleton.mpr ⟨hb, trivial⟩
  cases t with
  | string s =>
      refine List.forall_mem_cons.mpr ⟨hone 34 (by decide) _ (List.mem_singleton_self _), ?_⟩
      intro q hq
      rcases List.mem_append.mp hq with hq | hq
      · obtain ⟨p, -, hq⟩ := List.mem_flatMap.mp hq
        exact sound_stringPart p q hq
      · exact hone 34 (by decide) q hq
  | number n => exact sound_numberPart n
  | null => exact sound_bytes (by decide +kernel)
  | bool b => cases b <;> exact sound_bytes (by decide +kernel)
  | _ => exact hone _ (by decide)

theorem sound_template {ts : List (Bytes × Json.Token (List StringPart) NumberPart)}
    (hspaces : ∀ t ∈ ts, t.1.all Json.isSpace = true) {trailing : Bytes}
    (htrailing : trailing.all Json.isSpace = true) :
    ∀ q ∈ templateParts ts trailing, q.Sound := by
  intro q hq
  rcases List.mem_append.mp hq with hq | hq
  · obtain ⟨t, ht, hq⟩ := List.mem_flatMap.mp hq
    rcases List.mem_append.mp hq with hq | hq
    · exact sound_spaces (hspaces t ht) q hq
    · exact sound_token t.2 q hq
  · exact sound_spaces htrailing q hq

/-- A call whose parts are all rendered responds with what they stand for. -/
theorem mnetJsonfv_sound {D : Type} (x : D) {snprintf : Bytes → FormatValue D → Option Bytes}
    (hprint : PrintsIntegers snprintf) {parts : List JsonPart} (hparts : ∀ p ∈ parts, p.Sound) :
    mnetJsonfv (vaListEnv x snprintf) (some (partsText parts)) (partsArgs parts) =
      some { status := 200, contentType := some (ascii "application/json")
             body := some (partsRendering parts ++ [0])
             bodyLength := (partsRendering parts).length } := by
  have hvalid : ∀ p ∈ parts, p.Valid := fun p hp => (hparts p hp).1
  have hfits : ∀ p ∈ parts, p.Fits := fun p hp => (hparts p hp).2.fits
  obtain ⟨st', hloop, hbytes, -⟩ :=
    @jsonfLoop_fits D x snprintf hprint parts hvalid hfits { args := partsArgs parts } rfl
  have hwritten : parts.flatMap JsonPart.written = partsRendering parts := by
    apply List.flatMap_congr
    intro p hp
    obtain ⟨-, heq⟩ | ⟨hnot, -⟩ | ⟨hnot, -⟩ := written_cases (hvalid p hp) (hfits p hp)
    · exact heq
    · exact absurd (hparts p hp).2 hnot
    · exact absurd (hparts p hp).2 hnot
  rw [hwritten] at hbytes
  have hstored : st'.buf.bytes = partsRendering parts := hbytes
  simp only [mnetJsonfv, hloop, jsonfResponse, hstored]

/-- A template called with any arguments for its holes responds with a body that
    is read as its document, every hole filled by its own argument. -/
theorem read_jsonf {D : Type} (x : D) {snprintf : Bytes → FormatValue D → Option Bytes}
    (hprint : PrintsIntegers snprintf) (d : Json.Doc (List StringPart) NumberPart)
    {ts : List (Bytes × Json.Token (List StringPart) NumberPart)}
    (hts : ts.map Prod.snd = d.tokens) (hspaces : ∀ t ∈ ts, t.1.all Json.isSpace = true)
    {trailing : Bytes} (htrailing : trailing.all Json.isSpace = true) :
    ∃ body,
      mnetJsonfv (vaListEnv x snprintf) (some (partsText (templateParts ts trailing)))
          (partsArgs (templateParts ts trailing)) =
        some { status := 200, contentType := some (ascii "application/json")
               body := some (body ++ [0]), bodyLength := body.length } ∧
      Json.read body =
        some (d.map (fun s => s.flatMap StringPart.value) NumberPart.value) := by
  refine ⟨filled.row ts ++ trailing, ?_, Json.read_row d hts hspaces htrailing⟩
  rw [← partsRendering_template]
  exact mnetJsonfv_sound x hprint (sound_template hspaces htrailing)

/-- `%d`. -/
def plainInt : Directive where
  flags := []
  width := .digits []
  precision := none
  length := .none
  conv := 100
  flagsOk := Directive.flagsOk_nil
  widthOk := by decide
  precisionOk := Directive.precisionOk_none
  convOk := Directive.isConv_d

theorem valid_plainInt : (JsonPart.integer plainInt (-5)).Valid :=
  ⟨⟨by decide, by decide, by decide, by decide⟩, by decide, by decide, by decide +kernel⟩

/-- A character of the template that stands for itself. -/
def StringPart.plain (b : Byte) (h : b ≠ 92 ∧ b ≠ 34 ∧ ¬ b < 0x20) : StringPart :=
  .spelled [b] [b] (JsonString.spells_raw h.1 h.2.1 h.2.2) <| by
    intro hmem
    obtain rfl := List.mem_singleton.mp hmem
    exact h.2.2 (by decide)

/-- `{ "s" : "<%s" , "n" : %d }`, called with a string that holds quotes and
    with -5. -/
def quotingTemplate : Json.Doc (List StringPart) NumberPart :=
  .object
    [([.plain 115 (by decide)],
      .string [.plain 60 (by decide), .string (some (ascii "\",\"n\":\"")) (by decide)]),
     ([.plain 110 (by decide)], .number (.integer plainInt (-5) valid_plainInt rfl (by decide)))]

theorem read_jsonf_quotes :
    ∃ body,
      mnetJsonfv (vaListEnv () printInteger)
          (some (partsText (templateParts (quotingTemplate.tokens.map fun t => ([32], t)) [])))
          (partsArgs (templateParts (quotingTemplate.tokens.map fun t => ([32], t)) [])) =
        some { status := 200, contentType := some (ascii "application/json")
               body := some (body ++ [0]), bodyLength := body.length } ∧
      Json.read body =
        some (.object [(ascii "s", .string (ascii "<\",\"n\":\"")),
          (ascii "n", .number { mantissa := -5 })]) := by
  have hts : (quotingTemplate.tokens.map fun t => (([32] : Bytes), t)).map Prod.snd =
      quotingTemplate.tokens := by
    rw [List.map_map]
    exact List.map_id' _
  have hspaces : ∀ t ∈ quotingTemplate.tokens.map fun t => (([32] : Bytes), t),
      t.1.all Json.isSpace = true := List.forall_mem_map.mpr fun _ _ => rfl
  obtain ⟨body, hcall, hread⟩ :=
    read_jsonf () printsIntegers_printInteger quotingTemplate hts hspaces
      (rfl : ([] : Bytes).all Json.isSpace = true)
  refine ⟨body, hcall, hread.trans ?_⟩
  rw [quotingTemplate, Json.Doc.map_object]
  simp only [List.map_cons, List.map_nil, Json.Doc.map]
  rfl

end Mnet
