/-
  Mnet.Response

  `mnet_response.c` without `mnet_jsonfv`: the URL decoder, the header
  validators and the response constructors.  Allocation succeeds.
-/

import Mnet.Internal

namespace Mnet

-- ============================================================================
-- URL decoding
-- ============================================================================

def hexValue (c : Byte) : Option Nat :=
  if isDigit c then some (c.toNat - 48)
  else if 97 ≤ c && c ≤ 102 then some (c.toNat - 97 + 10)
  else if 65 ≤ c && c ≤ 70 then some (c.toNat - 65 + 10)
  else none

/-- Store one decoded byte: a NUL and a byte that would not fit are refused. -/
def storeDecoded (dstSize : Nat) (dst : Bytes) (out : Byte) : Option Bytes :=
  if out = 0 then none
  else if dst.length + 1 ≥ dstSize then none
  else some (dst ++ [out])

/-- The loop of `mnet_url_decode_ex`: whether it succeeds, and the bytes it has
    stored in `dst` when it ends. -/
def urlDecodeLoop (dstSize : Nat) : Bytes → Bytes → Bool × Bytes
  | [], dst => (true, dst)
  | 37 :: hi :: lo :: src, dst =>
      match hexValue hi, hexValue lo with
      | some h, some l =>
          match storeDecoded dstSize dst (UInt8.ofNat (h * 16 + l)) with
          | some dst' => urlDecodeLoop dstSize src dst'
          | none => (false, dst)
      | _, _ => (false, dst)
  | c :: src, dst =>
      -- a '%' that reaches this case is a truncated escape
      if c = 37 then (false, dst)
      else
        match storeDecoded dstSize dst (if c = 43 then SP else c) with
        | some dst' => urlDecodeLoop dstSize src dst'
        | none => (false, dst)

/-- `mnet_url_decode_ex(src, src_len, dst, dst_size)` on the `src_len` bytes of
    `src`. -/
def mnetUrlDecodeEx (src : Bytes) (dstSize : Nat) : Bool × Bytes :=
  if dstSize = 0 then (false, []) else urlDecodeLoop dstSize src []

/-- `mnet_url_decode`: the decoded string, empty on failure. -/
def mnetUrlDecode (outSize : Nat) (s : Bytes) : Bytes :=
  if outSize = 0 then []
  else
    let r := mnetUrlDecodeEx s outSize
    if r.1 then r.2 else []

-- ============================================================================
-- Header validation
-- ============================================================================

/-- No byte of the value is a control character. -/
def mnetHeaderValueValid (value : Bytes) : Bool :=
  value.all fun b => !(b == CR || b == LF || b < 0x20 || b == 0x7f)

/-- The characters of an RFC 7230 token. -/
def isTokenChar (b : Byte) : Bool :=
  isLower b || isUpper b || isDigit b || (ascii "!#$%&'*+-.^_`|~").contains b

def mnetHeaderNameValid (name : Bytes) : Bool := name ≠ [] && name.all isTokenChar

-- ============================================================================
-- Response constructors
-- ============================================================================

/-- The constructors of a 200 response that copy a string, NULL giving the zero
    response. -/
def copyResponse (contentType : Bytes) : Option Bytes → MnetResponse
  | none => {}
  | some text =>
      { status := 200, contentType := some contentType, body := some text,
        bodyLength := text.length }

def mnetText (text : Option Bytes) : MnetResponse :=
  copyResponse (ascii "text/plain; charset=utf-8") text

def mnetHtml (html : Option Bytes) : MnetResponse :=
  copyResponse (ascii "text/html; charset=utf-8") html

def mnetJson (json : Option Bytes) : MnetResponse :=
  copyResponse (ascii "application/json") json

/-- `mnet_error` and `mnet_status`: a plain text response of any status. -/
def mnetStatus (status : Int) (body : Bytes) : MnetResponse :=
  { status := status, contentType := some (ascii "text/plain; charset=utf-8"),
    body := some body, bodyLength := body.length }

def mnetError (status : Int) (message : Bytes) : MnetResponse := mnetStatus status message

def mnetChunked (status : Int) (contentType : Option Bytes) (body : Option Bytes)
    (bodyLength : Nat) : MnetResponse :=
  { status := status, contentType := some (contentType.getD (ascii "application/octet-stream")),
    body := body, bodyLength := bodyLength, chunked := true }

end Mnet
