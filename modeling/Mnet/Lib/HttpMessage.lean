/-
  Mnet.Lib.HttpMessage

  A reader of HTTP/1.1 responses: status line, header fields up to the blank
  line, and a body framed by Content-Length or the chunked coding.

  `readMessage` returns the message and the bytes behind it.  The lemmas say
  what it makes of lines, fields, chunks and whole messages written out.
-/

import Mathlib.Data.List.DropRight
import Mnet.Lib.Numerals

namespace HttpMessage

abbrev Text := List UInt8

-- ============================================================================
-- The reader
-- ============================================================================

/-- The line up to the first CRLF, and what follows it. -/
def takeLine : Text → Option (Text × Text)
  | [] => none
  | 13 :: 10 :: rest => some ([], rest)
  | b :: rest => (takeLine rest).map fun r => (b :: r.1, r.2)

def decimalDigit? (b : UInt8) : Option Nat :=
  if 48 ≤ b ∧ b ≤ 57 then some (b.toNat - 48) else none

def hexDigit? (b : UInt8) : Option Nat :=
  if 48 ≤ b ∧ b ≤ 57 then some (b.toNat - 48)
  else if 97 ≤ b ∧ b ≤ 102 then some (b.toNat - 87)
  else if 65 ≤ b ∧ b ≤ 70 then some (b.toNat - 55)
  else none

/-- `HTTP/1.1 `. -/
def version : Text := [72, 84, 84, 80, 47, 49, 46, 49, 32]

/-- The status of a status line: three digits between the version and the
    reason. -/
def readStatus (text : Text) : Option Nat :=
  if version.isPrefixOf text ∧ text[12]? = some 32 then
    Numerals.read decimalDigit? 10 ((text.drop 9).take 3)
  else none

def isBlank (b : UInt8) : Bool := b == 32 || b == 9

/-- A field value without the blanks around it. -/
def trim (value : Text) : Text := (value.dropWhile isBlank).rdropWhile isBlank

/-- A field line: the name up to the first colon, which is not empty and holds
    no blank, and the value behind it. -/
def readField (line : Text) : Option (Text × Text) :=
  let name := line.takeWhile (· ≠ 58)
  if name = [] ∨ name.any isBlank ∨ name.length = line.length then none
  else some (name, trim (line.drop (name.length + 1)))

theorem length_takeLine {s line rest : Text} (h : takeLine s = some (line, rest)) :
    rest.length < s.length := by
  fun_induction takeLine s generalizing line with
  | case1 => simp at h
  | case2 rest' =>
      obtain ⟨-, rfl⟩ := Prod.mk.inj (Option.some.inj h)
      simp only [List.length_cons]
      omega
  | case3 b rest' hne ih =>
      obtain ⟨⟨l, r⟩, hr, heq⟩ := Option.map_eq_some_iff.mp h
      obtain ⟨-, rfl⟩ := Prod.mk.inj heq
      exact Nat.lt_succ_of_lt (ih hr)

/-- The fields up to the blank line. -/
def readFields (s : Text) : Option (List (Text × Text) × Text) :=
  match _h : takeLine s with
  | none => none
  | some ([], rest) => some ([], rest)
  | some (b :: line, rest) =>
      match readField (b :: line) with
      | none => none
      | some field => (readFields rest).map fun r => (field :: r.1, r.2)
termination_by s.length
decreasing_by exact length_takeLine _h

/-- `n` bytes exactly. -/
def takeExactly (n : Nat) (s : Text) : Option (Text × Text) :=
  if n ≤ s.length then some (s.take n, s.drop n) else none

/-- The chunks up to the last one, which is empty and has no trailer. -/
def readChunks (s : Text) : Option (Text × Text) :=
  match _h : takeLine s with
  | none => none
  | some (size, rest) =>
      match Numerals.read hexDigit? 16 size with
      | none => none
      | some 0 =>
          match takeLine rest with
          | some ([], rest) => some ([], rest)
          | _ => none
      | some (n + 1) =>
          match _hrest : rest.drop (n + 1) with
          | 13 :: 10 :: more =>
              (readChunks more).map fun r => (rest.take (n + 1) ++ r.1, r.2)
          | _ => none
termination_by s.length
decreasing_by
  have h1 := length_takeLine _h
  have h2 := congrArg List.length _hrest
  simp only [List.length_drop, List.length_cons] at h2
  omega

def lower (b : UInt8) : UInt8 := if 65 ≤ b ∧ b ≤ 90 then b + 32 else b

/-- The values of the fields of a name, which is in lower case. -/
def valuesOf (name : Text) (fields : List (Text × Text)) : List Text :=
  (fields.filter fun field => field.1.map lower = name).map Prod.snd

/-- `transfer-encoding`. -/
def transferEncoding : Text :=
  [116, 114, 97, 110, 115, 102, 101, 114, 45, 101, 110, 99, 111, 100, 105, 110, 103]

/-- `content-length`. -/
def contentLength : Text := [99, 111, 110, 116, 101, 110, 116, 45, 108, 101, 110, 103, 116, 104]

/-- `chunked`. -/
def chunked : Text := [99, 104, 117, 110, 107, 101, 100]

/-- The body that follows fields: chunks, as many bytes as one Content-Length
    says, or all there is. -/
def readBody (fields : List (Text × Text)) (s : Text) : Option (Text × Text) :=
  match valuesOf transferEncoding fields, valuesOf contentLength fields with
  | [coding], [] => if coding.map lower = chunked then readChunks s else none
  | [], [length] => (Numerals.read decimalDigit? 10 length).bind fun n => takeExactly n s
  | [], [] => some (s, [])
  | _, _ => none

/-- A response without a body whatever its fields say. -/
def isBodiless (headOnly : Bool) (status : Nat) : Bool :=
  headOnly || status < 200 || status = 204 || status = 304

structure Message where
  status : Nat
  fields : List (Text × Text)
  body : Text
deriving DecidableEq, Repr

/-- Read one response; `headOnly` tells that it answers a HEAD request. -/
def readMessage (headOnly : Bool) (s : Text) : Option (Message × Text) :=
  (takeLine s).bind fun first =>
    (readStatus first.1).bind fun status =>
      (readFields first.2).bind fun fields =>
        if isBodiless headOnly status then some (⟨status, fields.1, []⟩, fields.2)
        else (readBody fields.1 fields.2).map fun r => (⟨status, fields.1, r.1⟩, r.2)

-- ============================================================================
-- What it makes of a message written out
-- ============================================================================

theorem takeLine_append {line : Text} (hline : 13 ∉ line) (rest : Text) :
    takeLine (line ++ 13 :: 10 :: rest) = some (line, rest) := by
  induction line with
  | nil => rw [List.nil_append, takeLine]
  | cons b line ih =>
      rw [List.mem_cons, not_or] at hline
      rw [List.cons_append, takeLine, ih hline.2]
      · rfl
      · rintro rest' rfl
        exact absurd rfl hline.1

theorem readFields_blank (rest : Text) : readFields (13 :: 10 :: rest) = some ([], rest) := by
  have hline : takeLine (13 :: 10 :: rest) = some ([], rest) := by rw [takeLine]
  rw [readFields]
  split
  · next h => rw [hline] at h; simp at h
  · next h => rw [hline] at h; simpa using h.symm
  · next h => rw [hline] at h; simp at h

theorem readFields_cons {line : Text} {field : Text × Text} (hline : 13 ∉ line)
    (hfield : readField line = some field) (rest : Text) :
    readFields (line ++ 13 :: 10 :: rest) =
      (readFields rest).map fun r => (field :: r.1, r.2) := by
  have htake := takeLine_append hline rest
  have hne : line ≠ [] := by
    rintro rfl
    simp [readField] at hfield
  obtain ⟨b, line, rfl⟩ := List.exists_cons_of_ne_nil hne
  rw [readFields]
  split
  · next h => rw [htake] at h; simp at h
  · next h => rw [htake] at h; simp at h
  · next h =>
    rw [htake] at h
    obtain ⟨⟨rfl, rfl⟩, rfl⟩ := by simpa using h
    simp only [hfield]

theorem trim_cons_blank {b : UInt8} (hb : isBlank b = true) (value : Text) :
    trim (b :: value) = trim value := by
  rw [trim, trim, List.dropWhile_cons_of_pos hb]

/-- A value without blanks is left as it is. -/
theorem trim_of_forall {value : Text} (h : ∀ b ∈ value, isBlank b = false) :
    trim value = value := by
  have hdrop : value.dropWhile isBlank = value := by
    cases value with
    | nil => rfl
    | cons b value =>
        rw [List.dropWhile_cons_of_neg]
        rw [h b (List.mem_cons_self ..)]
        exact Bool.false_ne_true
  rw [trim, hdrop, List.rdropWhile_eq_self_iff]
  intro hne
  rw [h _ (List.getLast_mem hne)]
  exact Bool.false_ne_true

/-- A line made of a name, a colon and a value. -/
theorem readField_append {name : Text} (hne : name ≠ []) (hcolon : 58 ∉ name)
    (hblank : name.any isBlank = false) (value : Text) :
    readField (name ++ 58 :: value) = some (name, trim value) := by
  have htake : (name ++ 58 :: value).takeWhile (· ≠ 58) = name := by
    rw [List.takeWhile_append_of_pos, List.takeWhile_cons_of_neg (by decide), List.append_nil]
    intro b hb
    rw [decide_eq_true_eq]
    rintro rfl
    exact hcolon hb
  have hdrop : (name ++ 58 :: value).drop (name.length + 1) = value := by
    rw [← List.drop_drop, List.drop_left]
    rfl
  simp only [readField, htake, hdrop]
  rw [if_neg]
  simp [hne, hblank]

/-- A status line made of the version, three digits, and a reason. -/
theorem readStatus_append {digits : Text} {status : Nat} (hlen : digits.length = 3)
    (hdigits : Numerals.read decimalDigit? 10 digits = some status) (reason : Text) :
    readStatus (version ++ (digits ++ 32 :: reason)) = some status := by
  have hversion : version.length = 9 := rfl
  have hpre : version.isPrefixOf (version ++ (digits ++ 32 :: reason)) = true := by
    rw [List.isPrefixOf_iff_prefix]
    exact List.prefix_append _ _
  have hspace : (version ++ (digits ++ 32 :: reason))[12]? = some 32 := by
    rw [List.getElem?_append_right (by omega), List.getElem?_append_right (by omega), hversion,
      hlen]
    rfl
  have hthree : ((version ++ (digits ++ 32 :: reason)).drop 9).take 3 = digits := by
    rw [← hversion, List.drop_left, ← hlen, List.take_left]
  rw [readStatus, if_pos ⟨hpre, hspace⟩, hthree, hdigits]

theorem readChunks_last (rest : Text) : readChunks (48 :: 13 :: 10 :: 13 :: 10 :: rest) =
    some ([], rest) := by
  have hsize : takeLine (48 :: 13 :: 10 :: 13 :: 10 :: rest) =
      some ([48], 13 :: 10 :: rest) := @takeLine_append [48] (by decide) (13 :: 10 :: rest)
  have hend : takeLine (13 :: 10 :: rest) = some ([], rest) := by rw [takeLine]
  have hzero : Numerals.read hexDigit? 16 [48] = some 0 := by decide
  rw [readChunks]
  split
  · next h => rw [hsize] at h; simp at h
  · next h =>
    rw [hsize] at h
    obtain ⟨rfl, rfl⟩ := Prod.mk.inj (Option.some.inj h)
    simp only [hzero, hend]

/-- A chunk that is not empty, written out. -/
theorem readChunks_cons {size chunk : Text} (hsize : 13 ∉ size)
    (hread : Numerals.read hexDigit? 16 size = some chunk.length) (hne : chunk ≠ [])
    (more : Text) :
    readChunks (size ++ 13 :: 10 :: (chunk ++ 13 :: 10 :: more)) =
      (readChunks more).map fun r => (chunk ++ r.1, r.2) := by
  have htake := takeLine_append hsize (chunk ++ 13 :: 10 :: more)
  obtain ⟨n, hn⟩ : ∃ n, chunk.length = n + 1 :=
    Nat.exists_eq_succ_of_ne_zero fun h => hne (List.eq_nil_of_length_eq_zero h)
  have hdrop : (chunk ++ 13 :: 10 :: more).drop (n + 1) = 13 :: 10 :: more := by
    rw [← hn, List.drop_left]
  have hchunk : (chunk ++ 13 :: 10 :: more).take (n + 1) = chunk := by
    rw [← hn, List.take_left]
  rw [readChunks]
  split
  · next h => rw [htake] at h; simp at h
  · next h =>
    rw [htake] at h
    obtain ⟨rfl, rfl⟩ := Prod.mk.inj (Option.some.inj h)
    rw [hn] at hread
    simp only [hread]
    split
    · next more' hmore =>
      rw [hdrop] at hmore
      obtain rfl : more = more' := by simpa using hmore
      rw [hchunk]
    · next hmore =>
      exact absurd hdrop (hmore more)

theorem valuesOf_cons_of_ne {name other : Text} (h : other.map lower ≠ name) (value : Text)
    (fields : List (Text × Text)) : valuesOf name ((other, value) :: fields) = valuesOf name fields := by
  rw [valuesOf, valuesOf, List.filter_cons_of_neg]
  rwa [decide_eq_true_eq]

theorem valuesOf_cons_of_eq {name other : Text} (h : other.map lower = name) (value : Text)
    (fields : List (Text × Text)) :
    valuesOf name ((other, value) :: fields) = value :: valuesOf name fields := by
  rw [valuesOf, valuesOf, List.filter_cons_of_pos, List.map_cons]
  rwa [decide_eq_true_eq]

/-- A body framed by its length. -/
theorem readBody_length {fields : List (Text × Text)} {length body : Text}
    (hcoding : valuesOf transferEncoding fields = []) (hlength : valuesOf contentLength fields = [length])
    (hread : Numerals.read decimalDigit? 10 length = some body.length) (rest : Text) :
    readBody fields (body ++ rest) = some (body, rest) := by
  simp only [readBody, hcoding, hlength, hread, Option.bind_some]
  rw [takeExactly, if_pos (by simp), List.take_left, List.drop_left]

/-- A body in the chunked coding. -/
theorem readBody_chunked {fields : List (Text × Text)} {coding : Text}
    (hcoding : valuesOf transferEncoding fields = [coding])
    (hlength : valuesOf contentLength fields = []) (hchunked : coding.map lower = chunked)
    (s : Text) : readBody fields s = readChunks s := by
  simp only [readBody, hcoding, hlength]
  rw [if_pos hchunked]

/-- A message whose three parts are read one by one. -/
theorem readMessage_append {first : Text} {headOnly : Bool} {status : Nat}
    {fields : List (Text × Text)} {head after body rest : Text} (hfirst : 13 ∉ first)
    (hstatus : readStatus first = some status) (hfields : readFields head = some (fields, after))
    (hbody : if isBodiless headOnly status then body = [] ∧ rest = after
      else readBody fields after = some (body, rest)) :
    readMessage headOnly (first ++ 13 :: 10 :: head) = some (⟨status, fields, body⟩, rest) := by
  rw [readMessage, takeLine_append hfirst, Option.bind_some, hstatus, Option.bind_some, hfields,
    Option.bind_some]
  split at hbody
  · next h => rw [if_pos h, hbody.1, hbody.2]
  · next h => rw [if_neg h, hbody, Option.map_some]

end HttpMessage
