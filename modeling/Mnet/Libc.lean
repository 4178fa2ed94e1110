/-
  Mnet.Libc

  The C library functions the server calls, on byte lists.

  A memory block is the list of its bytes; `cstr` reads it as a C string, that
  is up to its first NUL or, where the block holds none, to its end (the
  buffers of the server carry a NUL right behind the bytes they hold, which
  the lists leave out).  Pointers into a string are offsets, so `strstr`,
  `strchr` and `memchr` return `Option Nat`.
-/

import Mnet.Lib.Search
import Mnet.Lib.Tokens

namespace Mnet

abbrev Byte := UInt8
abbrev Bytes := List Byte

/-- The bytes of an ASCII text. -/
def ascii (s : String) : Bytes := s.toList.map Char.toUInt8

abbrev CR : Byte := 13
abbrev LF : Byte := 10
abbrev SP : Byte := 32
abbrev HTAB : Byte := 9

def CRLF : Bytes := [CR, LF]

theorem cr_ne_lf : CR ≠ LF := by decide

/-- The bytes a line ends with. -/
def isBreak (b : Byte) : Bool := CRLF.contains b

/-! ## Character classes -/

def isDigit (b : Byte) : Bool := 48 ≤ b && b ≤ 57

def isUpper (b : Byte) : Bool := 65 ≤ b && b ≤ 90

def isLower (b : Byte) : Bool := 97 ≤ b && b ≤ 122

/-- `isspace` in the C locale: space, and `\t` to `\r`. -/
def isspace (b : Byte) : Bool := b == 32 || (9 ≤ b && b ≤ 13)

def tolower (b : Byte) : Byte := if isUpper b then b + 32 else b

/-- The value of a decimal digit. -/
def digitVal (b : Byte) : Nat := b.toNat - 48

/-- What holds of the 256 bytes holds of each: evaluation shows it by number. -/
theorem forall_byte {p : Byte → Prop} (h : ∀ n < 256, p (UInt8.ofNat n)) (b : Byte) : p b := by
  have hb := h b.toNat b.toNat_lt
  rwa [UInt8.ofNat_toNat] at hb

/-! ## Strings -/

/-- The block read as a C string. -/
def cstr (mem : Bytes) : Bytes := mem.takeWhile (· ≠ 0)

def strstr (mem needle : Bytes) : Option Nat := Search.find needle (cstr mem)

def strcasestr (mem needle : Bytes) : Option Nat :=
  Search.find (needle.map tolower) ((cstr mem).map tolower)

def strchr (mem : Bytes) (c : Byte) : Option Nat := Search.find [c] (cstr mem)

/-- `memchr(mem, c, n)`. -/
def memchr (mem : Bytes) (c : Byte) (n : Nat) : Option Nat := Search.find [c] (mem.take n)

/-- `strcasecmp(a, b) == 0`. -/
def strcaseeq (a b : Bytes) : Bool := a.map tolower == b.map tolower

/-- All tokens a `strtok_r` loop over `mem` yields. -/
def strtok (mem delims : Bytes) : List Bytes :=
  Tokens.tokens (delims.contains ·) (cstr mem)

/-- One `%<width>s` conversion of `sscanf`: skip white space, take at most
    `width` bytes up to the next white space.  Fails at the end of the input. -/
def scanWord (width : Nat) (s : Bytes) : Option (Bytes × Bytes) :=
  let s := s.dropWhile isspace
  let word := (s.takeWhile fun b => !isspace b).take width
  if word = [] then none else some (word, s.drop word.length)

/-! ## Number formatting -/

/-- `%u` / `%zu`. -/
def decimal (n : Nat) : Bytes := (Nat.toDigits 10 n).map Char.toUInt8

/-- `%d`. -/
def decimalInt : Int → Bytes
  | .ofNat n => decimal n
  | .negSucc n => ascii "-" ++ decimal (n + 1)

/-- `%zx`. -/
def hexadecimal (n : Nat) : Bytes := (Nat.toDigits 16 n).map Char.toUInt8

/-- `%<width>s`: right-justified in a field of `width`. -/
def padLeft (width : Nat) (s : Bytes) : Bytes := List.replicate (width - s.length) SP ++ s

/-- What `snprintf(buf, size, ...)` leaves in `buf` for a text: at most
    `size - 1` of its bytes. -/
def clipTo (size : Nat) (s : Bytes) : Bytes := s.take (size - 1)

/-! ## Reading a block as a string -/

theorem cstr_append_of_noNul {a : Bytes} (ha : (0 : Byte) ∉ a) (b : Bytes) :
    cstr (a ++ b) = a ++ cstr b := by
  unfold cstr
  refine List.takeWhile_append_of_pos fun c hc => ?_
  have hne : c ≠ 0 := fun h => ha (h ▸ hc)
  simp [hne]

theorem cstr_of_noNul {a : Bytes} (ha : (0 : Byte) ∉ a) : cstr a = a := by
  have h := cstr_append_of_noNul ha []
  simpa [cstr] using h

theorem strstr_isSome_iff {text needle : Bytes} (h0 : (0 : Byte) ∉ text) :
    (strstr text needle).isSome = true ↔ needle <:+: text := by
  rw [strstr, cstr_of_noNul h0, Search.find_isSome_iff_infix]

theorem noNul_cstr (mem : Bytes) : (0 : Byte) ∉ cstr mem := by
  intro h
  have h' := List.mem_takeWhile_imp h
  simp at h'

theorem cstr_isPrefix (mem : Bytes) : cstr mem <+: mem := List.takeWhile_prefix _

/-- The string of a prefix is a prefix of the string. -/
theorem cstr_isPrefix_cstr {a b : Bytes} (h : a <+: b) : cstr a <+: cstr b := by
  obtain ⟨t, rfl⟩ := h
  have hsplit : cstr (a ++ t) =
      if (cstr a).length = a.length then a ++ cstr t else cstr a := List.takeWhile_append
  rw [hsplit]
  split
  · exact (cstr_isPrefix a).trans (List.prefix_append a _)
  · exact List.prefix_rfl

/-- A needle found in a prefix is found at the same place in the whole. -/
theorem strstr_of_isPrefix {a b needle : Bytes} (hab : a <+: b) {i : Nat}
    (h : strstr a needle = some i) : strstr b needle = some i := by
  obtain ⟨t, ht⟩ := cstr_isPrefix_cstr hab
  rw [strstr, ← ht]
  exact Search.find_append_of_some h t

/-- A needle that ends inside the prefix's string is found in the prefix. -/
theorem strstr_isPrefix_of_le {a b needle : Bytes} (hab : a <+: b) {i : Nat}
    (h : strstr b needle = some i) (hle : i + needle.length ≤ (cstr a).length) :
    strstr a needle = some i := by
  obtain ⟨t, ht⟩ := cstr_isPrefix_cstr hab
  rw [strstr, ← ht] at h
  exact Search.find_of_append h hle

/-- A string's prefix is the block's prefix. -/
theorem take_cstr {mem : Bytes} {n : Nat} (hn : n ≤ (cstr mem).length) :
    (cstr mem).take n = mem.take n := by
  obtain ⟨t, ht⟩ := cstr_isPrefix mem
  conv_rhs => rw [← ht]
  rw [List.take_append_of_le_length hn]

theorem occursAt_singleton {c : Byte} {s : Bytes} {i : Nat} :
    Search.OccursAt [c] s i ↔ s[i]? = some c := by
  rw [Search.occursAt_iff_getElem?]
  constructor
  · intro h
    simpa using h 0 (by simp)
  · intro h k hk
    obtain rfl : k = 0 := by simpa using hk
    simpa using h

end Mnet
