/-
  Mnet.Jsonf

  `mnet_json_escape` and `mnet_jsonfv` of `mnet_response.c`.

  What the formatter takes from outside stands in a `JsonfEnv`: how `va_arg`
  takes arguments off a `va_list`, and `snprintf` on one directive.  Formats and
  string arguments are the bytes before their NUL.  Allocation succeeds.
-/

import Mnet.Response

namespace Mnet

-- ============================================================================
-- Escaping
-- ============================================================================

/-- `\u%04x`. -/
def unicodeEscape (n : Nat) : Bytes :=
  ascii "\\u" ++ (List.replicate (4 - (hexadecimal n).length) 48 ++ hexadecimal n)

/-- What `mnet_json_escape` writes for one byte. -/
def jsonEscapeByte (b : Byte) : Bytes :=
  if b = 34 then ascii "\\\""
  else if b = 92 then ascii "\\\\"
  else if b = LF then ascii "\\n"
  else if b = CR then ascii "\\r"
  else if b = HTAB then ascii "\\t"
  else if b < 0x20 then unicodeEscape b.toNat
  else [b]

/-- The loop of `mnet_json_escape`: a byte whose escape does not fit is left
    out. -/
def jsonEscapeLoop (outSize : Nat) : Bytes → Bytes → Bytes
  | [], out => out
  | b :: s, out =>
      if out.length < outSize - 1 then
        if out.length + (jsonEscapeByte b).length ≤ outSize - 1 then
          jsonEscapeLoop outSize s (out ++ jsonEscapeByte b)
        else jsonEscapeLoop outSize s out
      else out

/-- `mnet_json_escape(out, out_size, s)`: what it stores. -/
def mnetJsonEscape (outSize : Nat) (s : Option Bytes) : Bytes :=
  if outSize = 0 then [] else jsonEscapeLoop outSize (s.getD []) []

-- ============================================================================
-- The buffer
-- ============================================================================

/-- The buffer of `mnet_jsonfv`; there is always room for the NUL. -/
structure JsonBuf where
  bytes : Bytes := []
  cap : Nat := 256
  fits : bytes.length < cap := by decide

/-- The buffer a call begins with. -/
def JsonBuf.empty : JsonBuf := {}

/-- The test at the top of the loop: room for one more byte. -/
def JsonBuf.room (buf : JsonBuf) : JsonBuf :=
  { buf with
    cap := if buf.bytes.length + 1 ≥ buf.cap then buf.cap * 2 else buf.cap
    fits := by
      have h := buf.fits
      split <;> omega }

theorem JsonBuf.room_spec (buf : JsonBuf) : buf.room.bytes.length + 1 < buf.room.cap := by
  have h := buf.fits
  unfold JsonBuf.room
  dsimp only
  split <;> omega

/-- Store one byte. -/
def JsonBuf.push (buf : JsonBuf) (b : Byte) : JsonBuf :=
  { bytes := buf.room.bytes ++ [b]
    cap := buf.room.cap
    fits := by
      rw [List.length_append]
      exact buf.room_spec }

/-- Copy a text behind, in a larger block when it does not fit. -/
def JsonBuf.append (buf : JsonBuf) (text : Bytes) : JsonBuf :=
  { bytes := buf.room.bytes ++ text
    cap := growCap buf.room.cap (buf.room.bytes.length + text.length + 2)
    fits := by
      have hpos : 0 < buf.room.cap := Nat.lt_of_le_of_lt (Nat.zero_le _) buf.room.fits
      have hle := le_growCap hpos (buf.room.bytes.length + text.length + 2)
      rw [List.length_append]
      omega }

@[simp] theorem JsonBuf.push_bytes (buf : JsonBuf) (b : Byte) :
    (buf.push b).bytes = buf.bytes ++ [b] := rfl

@[simp] theorem JsonBuf.append_bytes (buf : JsonBuf) (text : Bytes) :
    (buf.append text).bytes = buf.bytes ++ text := rfl

-- ============================================================================
-- Arguments and snprintf
-- ============================================================================

/-- The integer types an argument is read as. -/
inductive CType where
  | int | uint | long | ulong | longLong | ulongLong | ssize | size | ptrdiff
deriving DecidableEq, Repr

inductive FormatValue (D : Type) where
  | int (v : Int)
  | real (x : D)

/-- `va_arg` on a `va_list` of type `A`, and `snprintf` with a directive and
    one value: its text, none for a negative return. -/
structure JsonfEnv (A D : Type) where
  string : A → Option Bytes × A
  integer : CType → A → Int × A
  /-- a `long double` when the flag is set -/
  real : Bool → A → D × A
  snprintf : Bytes → FormatValue D → Option Bytes

-- ============================================================================
-- The pieces of a format
-- ============================================================================

/-- What the loop finds at its place in the format. -/
inductive JsonfPiece where
  /-- a byte to copy, or `%%` -/
  | byte (b : Byte)
  /-- a lone `%`, a `*` behind the `%`, no conversion character up to the end -/
  | malformed
  /-- `%.<digits>s` -/
  | cutString (digits : Bytes)
  | string
  | char
  /-- any other: the text behind the `%` up to the conversion character -/
  | spec (mid : Bytes) (conv : Byte)
deriving DecidableEq, Repr

abbrev PERCENT : Byte := 37

/-- A character the collecting loop stops at. -/
def endsSpec (b : Byte) : Bool := b == PERCENT || (ascii "diouxXfFeEgGaAcCpPn").contains b

/-- The piece that begins behind a `%`, and what follows it. -/
def pieceBehindPercent (f : Bytes) : JsonfPiece × Bytes :=
  let digits := (f.drop 1).takeWhile isDigit
  let behind := (f.drop 1).dropWhile isDigit
  if f.head? = some PERCENT then (.byte PERCENT, f.tail)
  else if f = [] ∨ f.head? = some 42 then (.malformed, [])
  else if f.head? = some 46 ∧ behind.head? = some 115 then (.cutString digits, behind.tail)
  else if f.head? = some 115 then (.string, f.tail)
  else if f.head? = some 99 then (.char, f.tail)
  else
    match f.dropWhile fun b => !endsSpec b with
    | [] => (.malformed, [])
    | conv :: rest => (.spec (f.takeWhile fun b => !endsSpec b) conv, rest)

/-- The next piece of a format. -/
def nextPiece : Bytes → Option (JsonfPiece × Bytes)
  | [] => none
  | b :: f => if b = PERCENT then some (pieceBehindPercent f) else some (.byte b, f)

theorem length_pieceBehindPercent (f : Bytes) : (pieceBehindPercent f).2.length ≤ f.length := by
  unfold pieceBehindPercent
  have hbehind : ((f.drop 1).dropWhile isDigit).length ≤ f.length := by
    have h := (List.dropWhile_suffix isDigit (l := f.drop 1)).length_le
    rw [List.length_drop] at h
    omega
  have hspec := (List.dropWhile_suffix (fun b => !endsSpec b) (l := f)).length_le
  dsimp only
  split
  · simp
  · split
    · simp
    · split
      · simp only [List.length_tail]
        omega
      · split
        · simp
        · split
          · simp
          · split
            · simp
            · next h =>
              rw [h, List.length_cons] at hspec
              exact Nat.le_of_succ_le hspec

theorem eq_nil_of_nextPiece {f : Bytes} (h : nextPiece f = none) : f = [] := by
  cases f with
  | nil => rfl
  | cons b f =>
      rw [nextPiece] at h
      split at h <;> simp at h

theorem length_nextPiece {f rest : Bytes} {piece : JsonfPiece}
    (h : nextPiece f = some (piece, rest)) : rest.length < f.length := by
  cases f with
  | nil => simp [nextPiece] at h
  | cons b f =>
      have hlen := length_pieceBehindPercent f
      rw [nextPiece] at h
      split at h
      · rw [Option.some.inj h] at hlen
        exact Nat.lt_succ_of_le hlen
      · obtain ⟨-, rfl⟩ := Prod.mk.inj (Option.some.inj h)
        exact Nat.lt_succ_self _

-- ============================================================================
-- One conversion
-- ============================================================================

structure JsonfState (A : Type) where
  buf : JsonBuf := .empty
  args : A
  /-- the directives handed to `snprintf`, in order -/
  specs : List Bytes := []

/-- What a piece leads to: on, the 500 response, or a write behind the end of
    `nspec`. -/
inductive JsonfStep (A : Type) where
  | go (st : JsonfState A)
  | refuse
  | overrun

/-- One of the conversions flags, widths, precisions and length modifiers are
    allowed on. -/
def isNumericConv (b : Byte) : Bool := (ascii "diouxXfFeEgGaA").contains b

def isFloatConv (b : Byte) : Bool := (ascii "fFeEgGaA").contains b

def isSignedConv (b : Byte) : Bool := (ascii "di").contains b

/-- Whether the scan over a collected directive stops at this character. -/
def scanRejects (conv b : Byte) : Bool :=
  ((ascii "0123456789+-# *.").contains b && !isNumericConv conv) || (ascii "npa").contains b ||
    ((ascii "lhzjtL").contains b && !isNumericConv conv)

/-- `reject`: the scan up to a `%`, and the test of the conversion
    character. -/
def specRejected (mid : Bytes) (conv : Byte) : Bool :=
  ((mid ++ [conv]).takeWhile (· ≠ PERCENT)).any (scanRejects conv) || (ascii "npa").contains conv

/-- `width`, a `long`: the digits right behind the `%`. -/
def specWidth (mid : Bytes) : Int :=
  (mid.takeWhile isDigit).foldl (fun width b => (width * 10 + digitVal b).bmod (2 ^ 64)) 0

/-- The directive for a `long long`: without its length modifier, with `ll`. -/
def normalizedSpec (mid : Bytes) (conv : Byte) : Bytes :=
  PERCENT :: (mid.filter fun b => !(ascii "lhzjt").contains b) ++ ascii "ll" ++ [conv]

/-- The directive for a `long double`. -/
def longDoubleSpec (mid : Bytes) (conv : Byte) : Bytes :=
  PERCENT :: (mid.filter fun b => b ≠ 76) ++ [76, conv]

/-- What an argument is read as, and what is made of it then. -/
def readInteger {A D : Type} (env : JsonfEnv A D) (spec : Bytes) (conv : Byte) (args : A) :
    Int × A :=
  let has := fun text : Bytes => (strstr spec text).isSome
  if isSignedConv conv then
    if has (ascii "ll") then env.integer .longLong args
    else if has (ascii "l") then env.integer .long args
    else if has (ascii "hh") then ((env.integer .int args).1.bmod (2 ^ 8), (env.integer .int args).2)
    else if has (ascii "h") then ((env.integer .int args).1.bmod (2 ^ 16), (env.integer .int args).2)
    else if has (ascii "z") then env.integer .ssize args
    else if has (ascii "j") then env.integer .longLong args
    else if has (ascii "t") then env.integer .ptrdiff args
    else env.integer .int args
  else
    if has (ascii "ll") then env.integer .ulongLong args
    else if has (ascii "l") then env.integer .ulong args
    else if has (ascii "hh") then ((env.integer .uint args).1 % 2 ^ 8, (env.integer .uint args).2)
    else if has (ascii "h") then ((env.integer .uint args).1 % 2 ^ 16, (env.integer .uint args).2)
    else if has (ascii "z") then env.integer .size args
    else if has (ascii "j") then env.integer .ulongLong args
    else if has (ascii "t") then ((env.integer .ptrdiff args).1 % 2 ^ 64, (env.integer .ptrdiff args).2)
    else env.integer .uint args

/-- Copy what was formatted, if anything; the block it stands in was sized
    for it. -/
def JsonfState.addFormatted {A : Type} (st : JsonfState A) (text : Option Bytes) : JsonfState A :=
  match text with
  | some (b :: text) => { st with buf := st.buf.append (b :: text) }
  | _ => { st with buf := st.buf.room }

/-- NaN and infinity are no JSON. -/
def nullIfNotFinite (text : Bytes) : Bytes :=
  if (strstr text (ascii "nan")).isSome || (strstr text (ascii "inf")).isSome ||
    (strstr text (ascii "NAN")).isSome || (strstr text (ascii "INF")).isSome then ascii "null"
  else text

/-- What becomes of a collected directive. -/
inductive SpecFate where
  /-- 64 bytes or more -/
  | passedOver
  | refused
  /-- a value is read, a `long double` when the flag is set, and formatted -/
  | float (long : Bool) (spec : Bytes)
  | integer (nspec : Bytes)
  /-- the normalized directive and its NUL do not fit the 64 bytes of `nspec` -/
  | overrun
deriving DecidableEq, Repr

def specFate (mid : Bytes) (conv : Byte) : SpecFate :=
  let spec := PERCENT :: mid ++ [conv]
  if spec.length < 64 then
    if specRejected mid conv then .refused
    else if specWidth mid > 4096 then .refused
    else if isFloatConv conv then
      if 76 ∈ mid then .float true (longDoubleSpec mid conv) else .float false spec
    else
      let nspec := normalizedSpec mid conv
      if nspec.length ≥ 64 then .overrun else .integer nspec
  else .passedOver

def specStep {A D : Type} (env : JsonfEnv A D) (mid : Bytes) (conv : Byte) (st : JsonfState A) :
    JsonfStep A :=
  match specFate mid conv with
  | .passedOver => .go { st with buf := st.buf.room }
  | .refused => .refuse
  | .overrun => .overrun
  | .float long spec =>
      let (x, args) := env.real long st.args
      let text := (env.snprintf spec (.real x)).map fun text =>
        if text = [] then [] else nullIfNotFinite text
      .go ({ st with args := args, specs := st.specs ++ [spec] }.addFormatted text)
  | .integer nspec =>
      let (v, args) := readInteger env (PERCENT :: mid ++ [conv]) conv st.args
      .go ({ st with args := args, specs := st.specs ++ [nspec] }.addFormatted
        (env.snprintf nspec (.int v)))

/-- What `%c` writes for its argument. -/
def charText (c : Int) : Bytes :=
  if c = 34 then ascii "\\\""
  else if c = 92 then ascii "\\\\"
  else if c = 10 then ascii "\\n"
  else if c = 13 then ascii "\\r"
  else if c = 9 then ascii "\\t"
  else if c = 0 then ascii "\\u0000"
  -- six bytes are copied, also of the ten a negative one gives
  else if c < 0x20 then (unicodeEscape (c % 2 ^ 32).toNat).take 6
  else [UInt8.ofNat (c % 256).toNat]

/-- `precision`, an `int`, as a `size_t`. -/
def cutPrecision (digits : Bytes) : Nat :=
  (digits.foldl (fun (n : Int) b => (n * 10 + digitVal b).bmod (2 ^ 32)) 0 % SIZE_T).toNat

/-- Step back over UTF-8 continuation bytes. -/
def backUp (s : Bytes) : Nat → Nat
  | 0 => 0
  | trunc + 1 => if (s.getD (trunc + 1) 0 &&& 0xC0) = 0x80 then backUp s trunc else trunc + 1

/-- The length of the sequence a lead byte begins, 0 for another byte. -/
def sequenceLength (b : Byte) : Nat :=
  if b &&& 0xE0 = 0xC0 then 2 else if b &&& 0xF0 = 0xE0 then 3 else if b &&& 0xF8 = 0xF0 then 4 else 0

/-- What is left of a string by a precision. -/
def cutString (precision : Nat) (s : Bytes) : Bytes :=
  if precision < s.length then
    let trunc := backUp s precision
    let lead := s.getD trunc 0
    if 0 < trunc ∧ lead &&& 0x80 ≠ 0 ∧ 0 < sequenceLength lead ∧
      trunc + sequenceLength lead > precision then []
    else s.take trunc
  else s

/-- The escaped text of a string argument. -/
def escapedString (s : Bytes) : Bytes := mnetJsonEscape (s.length * 6 + 1) (some s)

def jsonfStep {A D : Type} (env : JsonfEnv A D) (st : JsonfState A) : JsonfPiece → JsonfStep A
  | .byte b => .go { st with buf := st.buf.push b }
  | .malformed => .refuse
  | .cutString digits =>
      let (s, args) := env.string st.args
      let s := cutString (cutPrecision digits) (s.getD (ascii "(null)"))
      .go { st with buf := st.buf.append (escapedString s), args := args }
  | .string =>
      let (s, args) := env.string st.args
      .go { st with buf := st.buf.append (escapedString (s.getD (ascii "(null)"))), args := args }
  | .char =>
      let (c, args) := env.integer .int st.args
      .go { st with buf := st.buf.append (charText c), args := args }
  | .spec mid conv => specStep env mid conv st

/-- The conversion at the front of a format adds `text` to the body. -/
def Adds {A D : Type} (env : JsonfEnv A D) (st : JsonfState A) (f text : Bytes) : Prop :=
  ∃ piece rest st', nextPiece f = some (piece, rest) ∧ jsonfStep env st piece = .go st' ∧
    st'.buf.bytes = st.buf.bytes ++ text

-- ============================================================================
-- The whole format
-- ============================================================================

inductive JsonfVerdict where
  | finished | refused | overrun
deriving DecidableEq, Repr

/-- The loop of `mnet_jsonfv`: how it ends, and the state it ends in. -/
def jsonfLoop {A D : Type} (env : JsonfEnv A D) (f : Bytes) (st : JsonfState A) :
    JsonfVerdict × JsonfState A :=
  match _h : nextPiece f with
  | none => (.finished, st)
  | some (piece, rest) =>
      match jsonfStep env st piece with
      | .go st' => jsonfLoop env rest st'
      | .refuse => (.refused, st)
      | .overrun => (.overrun, st)
termination_by f.length
decreasing_by exact length_nextPiece _h

theorem jsonfLoop_nil {A D : Type} (env : JsonfEnv A D) (st : JsonfState A) :
    jsonfLoop env [] st = (.finished, st) := by
  rw [jsonfLoop]
  rfl

theorem jsonfLoop_of_next {A D : Type} {env : JsonfEnv A D} {f rest : Bytes} {piece : JsonfPiece}
    (h : nextPiece f = some (piece, rest)) (st : JsonfState A) :
    jsonfLoop env f st =
      match jsonfStep env st piece with
      | .go st' => jsonfLoop env rest st'
      | .refuse => (.refused, st)
      | .overrun => (.overrun, st) := by
  rw [jsonfLoop]
  split
  · next hnone => simp [h] at hnone
  · next piece' rest' hsome =>
    rw [h] at hsome
    obtain ⟨rfl, rfl⟩ := Prod.mk.inj (Option.some.inj hsome)
    rfl

/-- The response of a refused format. -/
def jsonfNull : MnetResponse :=
  { status := 500, contentType := some (ascii "application/json"), body := some (ascii "null" ++ [0])
    bodyLength := 4 }

/-- The response of a finished one; its block ends in a NUL. -/
def jsonfResponse (buf : JsonBuf) : MnetResponse :=
  { status := 200, contentType := some (ascii "application/json"), body := some (buf.bytes ++ [0])
    bodyLength := buf.bytes.length }

/-- `mnet_jsonfv`: none where it writes out of bounds. -/
def mnetJsonfv {A D : Type} (env : JsonfEnv A D) (format : Option Bytes) (args : A) :
    Option MnetResponse :=
  match format with
  | none => some jsonfNull
  | some f =>
      match jsonfLoop env f { args := args } with
      | (.finished, st) => some (jsonfResponse st.buf)
      | (.refused, _) => some jsonfNull
      | (.overrun, _) => none

/-- The directives it hands to `snprintf`. -/
def jsonfSpecs {A D : Type} (env : JsonfEnv A D) (f : Bytes) (args : A) : List Bytes :=
  (jsonfLoop env f { args := args }).2.specs

end Mnet
