/-
  Mnet.Client

  `mnet_client.c`: splitting a URL, the request `mnet_call` builds, and
  reading the response up to the server's close.

  Resolving and connecting are left out; what the socket yields afterwards is
  a list.  Allocation succeeds.
-/

import Mathlib.Algebra.GroupWithZero.Nat
import Mnet.Internal

namespace Mnet

abbrev QUESTION : Byte := 63
abbrev HASH : Byte := 35
abbrev URL_SLASH : Byte := 47
abbrev URL_COLON : Byte := 58

-- ============================================================================
-- Numbers in strings
-- ============================================================================

def LONG_MAX : Int := 2 ^ 63 - 1

def LONG_MIN : Int := -2 ^ 63

/-- `strtol(s, &end, 10)`: the number, clamped to the range of `long`, and how
    many bytes were used for it; 0 and none when there are no digits. -/
def strtol (s : Bytes) : Int × Nat :=
  let blanks := (s.takeWhile isspace).length
  let rest := s.drop blanks
  let signed := rest.head? == some 45 || rest.head? == some 43
  let digits := (if signed then rest.tail else rest).takeWhile isDigit
  let n : Nat := digits.foldl (fun n b => n * 10 + digitVal b) 0
  let value : Int := if rest.head? == some 45 then -n else n
  if digits = [] then (0, 0)
  else (max LONG_MIN (min LONG_MAX value), blanks + (if signed then 1 else 0) + digits.length)

/-- `atoi`: `strtol` narrowed to `int`. -/
def atoi (s : Bytes) : Int := (strtol s).1.bmod (2 ^ 32)

theorem digit_not_sign (c : Byte) : isDigit c = true → isspace c = false ∧ c ≠ 45 ∧ c ≠ 43 := by
  revert c
  apply forall_byte
  decide +kernel

/-- Digits are read as far as they go. -/
theorem strtol_digits {digits rest : Bytes} (hne : digits ≠ [])
    (hdigits : ∀ b ∈ digits, isDigit b = true) (hrest : ∀ b ∈ rest.head?, isDigit b = false) :
    strtol (digits ++ rest) =
      (min LONG_MAX ((digits.foldl (fun n b => n * 10 + digitVal b) 0 : Nat) : Int),
        digits.length) := by
  obtain ⟨c, tail, hcons⟩ := List.exists_cons_of_ne_nil hne
  have hc : isspace c = false ∧ c ≠ 45 ∧ c ≠ 43 :=
    digit_not_sign c (hdigits c (hcons ▸ List.mem_cons_self ..))
  have htake : (digits ++ rest).takeWhile isDigit = digits := by
    rw [List.takeWhile_append_of_pos hdigits]
    cases rest with
    | nil => exact List.append_nil digits
    | cons b rest =>
        rw [List.takeWhile_cons, hrest b rfl]
        exact List.append_nil digits
  have hblank : (digits ++ rest).takeWhile isspace = [] := by
    rw [hcons, List.cons_append, List.takeWhile_cons, hc.1]
    rfl
  have hhead : (digits ++ rest).head? = some c := by
    rw [hcons]
    rfl
  have hminus : (some c == some (45 : Byte)) = false := by simp [hc.2.1]
  have hplus : (some c == some (43 : Byte)) = false := by simp [hc.2.2]
  have hmax : ∀ n : Nat, max LONG_MIN (min LONG_MAX (n : Int)) = min LONG_MAX n := by
    intro n
    apply Int.max_eq_right
    simp only [LONG_MIN, LONG_MAX]
    omega
  simp only [strtol, hblank, List.length_nil, List.drop_zero, hhead, hminus, hplus, Bool.or_self,
    Bool.false_eq_true, if_false, htake, if_neg hne, hmax, Nat.zero_add]

-- ============================================================================
-- The request
-- ============================================================================

/-- A byte that ends the host. -/
def endsHost (b : Byte) : Bool := b == URL_COLON || b == URL_SLASH || b == QUESTION || b == HASH

/-- A byte that ends the port. -/
def endsPort (b : Byte) : Bool := b == URL_SLASH || b == QUESTION || b == HASH

theorem endsHost_iff (b : Byte) : endsHost b = true ↔ b ∈ ascii ":/?#" := by
  revert b
  apply forall_byte
  decide +kernel

theorem endsPort_iff (b : Byte) : endsPort b = true ↔ b ∈ ascii "/?#" := by
  revert b
  apply forall_byte
  decide +kernel

/-- What ends the host is a colon or ends the port. -/
theorem endsHost_iff_endsPort {b : Byte} :
    endsHost b = true ↔ b = URL_COLON ∨ endsPort b = true := by
  simp only [endsHost, endsPort, Bool.or_eq_true, beq_iff_eq, or_assoc]

/-- A URL behind its scheme. -/
def skipScheme (url : Bytes) : Bytes :=
  if (ascii "https://").isPrefixOf url then url.drop 8
  else if (ascii "http://").isPrefixOf url then url.drop 7
  else url

/-- The port of the text behind the colon, where `text` goes up to the path: 80
    unless it is a number of its range and nothing else. -/
def urlPort (text : Bytes) : Nat :=
  let (port, used) := strtol text
  if 0 < used ∧ used = text.length ∧ 0 < port ∧ port < 65536 then port.toNat else 80

/-- What `mnet_url_parse` stores. -/
structure UrlParts where
  host : Bytes
  port : Nat
  path : Bytes
deriving DecidableEq, Repr

/-- The host text of a URL. -/
def urlHost (url : Bytes) : Bytes := (skipScheme url).takeWhile fun b => !endsHost b

/-- What follows host and port: `path_start`. -/
def urlPathStart (url : Bytes) : Bytes :=
  let rest := (skipScheme url).dropWhile fun b => !endsHost b
  if rest.head? = some URL_COLON then rest.tail.dropWhile fun b => !endsPort b else rest

/-- `mnet_url_parse` with buffers of these sizes: none when the host is
    empty. -/
def mnetUrlParse (url : Bytes) (hostSize pathSize : Nat) : Option UrlParts :=
  let rest := (skipScheme url).dropWhile fun b => !endsHost b
  if urlHost url = [] then none
  else
    some
      { host := clipTo hostSize (urlHost url)
        port :=
          -- an empty port text leaves `port_start` where the path begins
          if rest.head? = some URL_COLON ∧ rest.tail.takeWhile (fun b => !endsPort b) ≠ [] then
            urlPort (rest.tail.takeWhile fun b => !endsPort b)
          else 80
        path := clipTo pathSize (urlPathStart url) }

/-- The request text `mnet_call` formats. -/
def callText (host path : Bytes) : Bytes :=
  ascii "GET " ++ path ++ ascii " HTTP/1.1" ++ CRLF ++
    ascii "Host: " ++ host ++ CRLF ++
    ascii "User-Agent: mnet/0.2.5" ++ CRLF ++
    ascii "Accept: */*" ++ CRLF ++
    ascii "Connection: close" ++ CRLF ++
    CRLF

/-- The request `mnet_call` sends: none for a URL it refuses and a text that
    does not fit its buffer. -/
def callRequest (url : Bytes) : Option Bytes :=
  match mnetUrlParse url 1024 2048 with
  | none => none
  | some parts =>
      let req := callText parts.host parts.path
      if req.length ≥ 4096 then none else some req

-- ============================================================================
-- The response
-- ============================================================================

/-- What the next `recv` of the client meets; behind the last of them the
    server has closed the connection. -/
inductive ClientArrival where
  | bytes (text : Bytes)
  /-- a signal came first (`EINTR`) -/
  | interrupted
  | failed
deriving DecidableEq, Repr

/-- The block the response is gathered in: `raw`, `raw_len` and `raw_cap`. -/
structure RawBuffer where
  bytes : Bytes := []
  cap : Nat := 0
  fits : bytes.length ≤ cap := by simp

/-- Append what was received, in a larger block when it does not fit. -/
def RawBuffer.append (raw : RawBuffer) (got : Bytes) : RawBuffer :=
  if h : raw.bytes.length + got.length > raw.cap then
    { bytes := raw.bytes ++ got
      cap := growCap (if raw.cap = 0 then 16384 else raw.cap * 2) (raw.bytes.length + got.length)
      fits := by
        rw [List.length_append]
        apply le_growCap
        split <;> omega }
  else
    { bytes := raw.bytes ++ got
      cap := raw.cap
      fits := by
        rw [List.length_append]
        omega }

@[simp] theorem RawBuffer.append_bytes (raw : RawBuffer) (got : Bytes) :
    (raw.append got).bytes = raw.bytes ++ got := by
  unfold RawBuffer.append
  split
  · rfl
  · rfl

def CLIENT_BUFFER_SIZE : Nat := 8192

def ClientArrival.size : ClientArrival → Nat
  | .bytes text => text.length + 1
  | _ => 1

/-- The receive loop of `mnet_read_response`: what was gathered, none after a
    failure. -/
def readRaw (cap : Nat) (arrivals : List ClientArrival) (raw : RawBuffer) : Option RawBuffer :=
  if raw.bytes.length < cap then
    match arrivals with
    | [] => some raw
    | .failed :: _ => none
    | .interrupted :: rest => readRaw cap rest raw
    | .bytes text :: rest =>
        let got := text.take CLIENT_BUFFER_SIZE
        let left := text.drop CLIENT_BUFFER_SIZE
        if got = [] then some raw
        else if left = [] then readRaw cap rest (raw.append got)
        else readRaw cap (.bytes left :: rest) (raw.append got)
  else some raw
termination_by (arrivals.map ClientArrival.size).sum
decreasing_by
  · simp [ClientArrival.size]
  · simp [ClientArrival.size]
  · have hsize : 0 < CLIENT_BUFFER_SIZE := by decide
    have hpos : 0 < text.length := by
      rw [List.length_pos_iff]
      rintro rfl
      simp [left] at *
    simp only [List.map_cons, List.sum_cons, ClientArrival.size, List.length_drop]
    omega

/-- The status on the first line, 0 when there is none.  `atoi` reads on behind
    `raw` where that ends before the status does, and `raw` has no NUL: of a
    response cut there this is the status of the bytes that came. -/
def responseStatus (raw : Bytes) : Int :=
  if raw.length ≥ 12 ∧ (ascii "HTTP/").isPrefixOf raw then
    match memchr raw SP raw.length with
    | some sp => atoi (raw.drop (sp + 1))
    | none => 0
  else 0

/-- The loop that looks for the blank line from offset `i` on: where the body
    begins. -/
def findBody : Bytes → Nat → Option Nat
  | 13 :: 10 :: 13 :: 10 :: _, i => some (i + 4)
  | 10 :: 10 :: _, i => some (i + 2)
  | _ :: raw, i => findBody raw (i + 1)
  | [], _ => none

/-- `mnet_read_response`: status and body, none on failure. -/
def mnetReadResponse (arrivals : List ClientArrival) (maxBody : Nat) : Option (Int × Bytes) :=
  match readRaw ((maxBody + CLIENT_BUFFER_SIZE) % SIZE_T) arrivals {} with
  | none => none
  | some raw =>
      if raw.cap = 0 then none
      else
        let bodyOff := (findBody raw.bytes 0).getD raw.bytes.length
        some (responseStatus raw.bytes, (raw.bytes.drop bodyOff).take maxBody)

/-- `mnet_call` on a server whose answer is `arrivals`: the body, NULL on
    failure and for a status from 400 on. -/
def mnetCall (url : Bytes) (arrivals : List ClientArrival) : Option Bytes :=
  match callRequest url with
  | none => none
  | some _ =>
      match mnetReadResponse arrivals MNET_MAX_BODY_SIZE with
      | none => none
      | some (status, body) => if status ≥ 400 then none else some body

end Mnet
