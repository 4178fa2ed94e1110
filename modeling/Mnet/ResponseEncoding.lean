/-
  Mnet.ResponseEncoding

  What `send_response` writes is one HTTP/1.1 response, which a reader takes
  apart into the status, the three fields and the body that were put in.
-/

import Mnet.HeadMirrorsGet
import Mnet.Lib.HttpMessage

namespace Mnet

open HttpMessage (readMessage trim)

/-- The bytes `send_response` gives to `mnet_send`. -/
def responseWire (r : MnetResponse) (headOnly keepAlive : Bool) : Bytes :=
  wire (sendResponse (.opened [] (fun _ => 0) fun _ => {}) r headOnly keepAlive).log

/-- The field that says how the body is framed. -/
def framingField (r : MnetResponse) : Bytes × Bytes :=
  if r.chunked then (ascii "Transfer-Encoding", ascii "chunked")
  else (ascii "Content-Length", decimal r.bodyLength)

def connectionField (keepAlive : Bool) : Bytes × Bytes :=
  (ascii "Connection", if keepAlive then ascii "keep-alive" else ascii "close")

/-- The message a response stands for. -/
def responseMessage (r : MnetResponse) (headOnly keepAlive : Bool) : HttpMessage.Message where
  status := r.status.toNat
  fields := [framingField r, (ascii "Content-Type", trim r.contentTypeOrDefault),
    connectionField keepAlive]
  body := if headOnly then [] else r.bodyBytes

-- ============================================================================
-- Numbers
-- ============================================================================

theorem read_decimal (n : Nat) :
    Numerals.read HttpMessage.decimalDigit? 10 (decimal n) = some n :=
  Numerals.read_toDigits (by decide) (by decide) n

theorem read_hexadecimal (n : Nat) :
    Numerals.read HttpMessage.hexDigit? 16 (hexadecimal n) = some n :=
  Numerals.read_toDigits (by decide) (by decide) n

theorem cr_not_mem_hexadecimal (n : Nat) : CR ∉ hexadecimal n := by
  intro h
  obtain ⟨c, hc, hcr⟩ := List.mem_map.mp h
  have hall := Numerals.forall_mem_toDigits (p := fun c => c.toUInt8 ≠ CR) (by decide : 1 < 16)
    (by decide) n
  exact hall c hc hcr

theorem cr_not_mem_of_noBreak {text : Bytes} (h : noBreak text = true) : CR ∉ text := by
  intro hmem
  have hb := List.all_eq_true.mp h CR hmem
  exact absurd hb (by decide)

/-- A status of three digits. -/
theorem decimal_status {status : Int} (hlo : 200 ≤ status) (hhi : status ≤ 999) :
    decimalInt status = decimal status.toNat ∧ (decimal status.toNat).length = 3 := by
  obtain ⟨n, rfl⟩ := Int.eq_ofNat_of_zero_le (by omega : 0 ≤ status)
  refine ⟨rfl, ?_⟩
  have hle := (Nat.length_toDigits_le_iff (b := 10) (n := n) (k := 3) (by decide) (by decide)).mpr
    (by omega)
  have hgt : ¬ (Nat.toDigits 10 n).length ≤ 2 := fun h => by
    have hlt := (Nat.length_toDigits_le_iff (b := 10) (n := n) (k := 2) (by decide)
      (by decide)).mp h
    omega
  rw [decimal, List.length_map, Int.toNat_natCast]
  omega

-- ============================================================================
-- The head
-- ============================================================================

/-- A formatted head as lines, with what follows it. -/
theorem formatHead_append (status : Int) (text framing contentType payload : Bytes)
    (keepAlive : Bool) :
    formatHead status text framing contentType keepAlive ++ payload =
      (HttpMessage.version ++ (decimalInt status ++ 32 :: text)) ++ 13 :: 10 ::
        (framing ++ 13 :: 10 :: ((ascii "Content-Type" ++ 58 :: 32 :: contentType) ++ 13 :: 10 ::
          ((ascii "Connection" ++ 58 :: 32 :: (connectionField keepAlive).2) ++ 13 :: 10 ::
            13 :: 10 :: payload))) := by
  have hversion : ascii "HTTP/1.1 " = HttpMessage.version := rfl
  have hspace : ascii " " = [32] := rfl
  have htype : ascii "Content-Type: " = ascii "Content-Type" ++ [58, 32] := rfl
  have hconn : ascii "Connection: " = ascii "Connection" ++ [58, 32] := rfl
  simp only [formatHead, hversion, hspace, htype, hconn, CRLF, connectionField, List.append_assoc,
    List.cons_append, List.nil_append]

/-- The framing line as a field. -/
theorem readField_framing (r : MnetResponse) :
    HttpMessage.readField (if r.chunked then chunkedHeader else contentLengthHeader r.bodyLength) =
      some (framingField r) := by
  unfold framingField
  by_cases hchunked : r.chunked = true
  · rw [if_pos hchunked, if_pos hchunked]
    decide
  · have hline : contentLengthHeader r.bodyLength =
        ascii "Content-Length" ++ 58 :: 32 :: decimal r.bodyLength := rfl
    have hblank : ∀ b ∈ decimal r.bodyLength, HttpMessage.isBlank b = false := by
      intro b hb
      obtain ⟨c, hc, rfl⟩ := List.mem_map.mp hb
      exact Numerals.forall_mem_toDigits (p := fun c => HttpMessage.isBlank c.toUInt8 = false)
        (by decide : 1 < 10) (by decide) _ c hc
    rw [if_neg hchunked, if_neg hchunked, hline,
      HttpMessage.readField_append (by decide) (by decide) (by decide),
      HttpMessage.trim_cons_blank rfl, HttpMessage.trim_of_forall hblank]

theorem noBreak_framing (r : MnetResponse) :
    noBreak (if r.chunked then chunkedHeader else contentLengthHeader r.bodyLength) = true := by
  apply noBreak_ite
  · decide
  · rw [contentLengthHeader, noBreak_append, noBreak_decimal]
    decide

/-- The three fields of a head. -/
theorem readFields_head (r : MnetResponse) {keepAlive : Bool}
    (hct : mnetHeaderValueValid r.contentTypeOrDefault = true) (payload : Bytes) :
    HttpMessage.readFields ((if r.chunked then chunkedHeader else contentLengthHeader r.bodyLength) ++
        13 :: 10 :: ((ascii "Content-Type" ++ 58 :: 32 :: r.contentTypeOrDefault) ++ 13 :: 10 ::
          ((ascii "Connection" ++ 58 :: 32 :: (connectionField keepAlive).2) ++ 13 :: 10 ::
            13 :: 10 :: payload))) =
      some ([framingField r, (ascii "Content-Type", trim r.contentTypeOrDefault),
        connectionField keepAlive], payload) := by
  have htype : HttpMessage.readField
      (ascii "Content-Type" ++ 58 :: 32 :: r.contentTypeOrDefault) =
        some (ascii "Content-Type", trim r.contentTypeOrDefault) := by
    rw [HttpMessage.readField_append (by decide) (by decide) (by decide),
      HttpMessage.trim_cons_blank rfl]
  have hconn : HttpMessage.readField
      (ascii "Connection" ++ 58 :: 32 :: (connectionField keepAlive).2) =
        some (connectionField keepAlive) := by
    cases keepAlive <;> decide
  have htypeCR : CR ∉ ascii "Content-Type" ++ 58 :: 32 :: r.contentTypeOrDefault := by
    apply cr_not_mem_of_noBreak
    have hsplit : ascii "Content-Type" ++ 58 :: 32 :: r.contentTypeOrDefault =
        ascii "Content-Type: " ++ r.contentTypeOrDefault := rfl
    rw [hsplit, noBreak_append, noBreak_of_headerValueValid hct]
    decide
  have hconnCR : CR ∉ ascii "Connection" ++ 58 :: 32 :: (connectionField keepAlive).2 := by
    cases keepAlive <;> decide
  rw [HttpMessage.readFields_cons (cr_not_mem_of_noBreak (noBreak_framing r)) (readField_framing r),
    HttpMessage.readFields_cons htypeCR htype, HttpMessage.readFields_cons hconnCR hconn,
    HttpMessage.readFields_blank]
  rfl

-- ============================================================================
-- The body
-- ============================================================================

/-- What follows the head. -/
def responsePayload (r : MnetResponse) (headOnly : Bool) : Bytes :=
  if headOnly then []
  else if r.chunked then (chunkBlocks r).flatten
  else r.bodyBytes

/-- The length of a response is that of its body. -/
theorem length_bodyBytes {r : MnetResponse} (hbody : r.bodyLength ≤ (r.body.getD []).length) :
    r.bodyBytes.length = r.bodyLength := by
  rw [MnetResponse.bodyBytes, List.length_take, Nat.min_eq_left hbody]

/-- What is written is a head and what follows it, or nothing. -/
theorem responseWire_eq (r : MnetResponse) (headOnly keepAlive : Bool) :
    responseWire r headOnly keepAlive =
      if r.writable keepAlive then responseHead r keepAlive ++ responsePayload r headOnly
      else [] := by
  have hlog : (sendResponse (.opened [] (fun _ => 0) fun _ => {}) r headOnly keepAlive).log =
      (responseBlocks r headOnly keepAlive).map .send := by
    rw [sendResponse_eq_sends]
    exact List.nil_append _
  rw [responseWire, hlog, wire_sends]
  cases hw : r.writable keepAlive with
  | false => simp [responseBlocks, hw]
  | true => exact flatten_responseBlocks hw

/-- The chunks are read back. -/
theorem readChunks_chunkBlocks {r : MnetResponse} (hbody : r.bodyLength ≤ (r.body.getD []).length) :
    HttpMessage.readChunks (chunkBlocks r).flatten = some (r.bodyBytes, []) := by
  have hlast : ascii "0" ++ CRLF ++ CRLF = 48 :: 13 :: 10 :: 13 :: 10 :: [] := rfl
  cases hhas : r.hasBody with
  | false =>
      have hblocks : (chunkBlocks r).flatten = 48 :: 13 :: 10 :: 13 :: 10 :: [] := by
        simp [chunkBlocks, hhas, hlast]
      rw [hblocks, HttpMessage.readChunks_last, MnetResponse.bodyBytes_of_not_hasBody hhas]
  | true =>
      have hblocks : (chunkBlocks r).flatten = hexadecimal r.bodyLength ++ 13 :: 10 ::
          (r.bodyBytes ++ 13 :: 10 :: 48 :: 13 :: 10 :: 13 :: 10 :: []) := by
        simp only [chunkBlocks, hhas, if_true, hlast]
        simp [CRLF]
      have hpos : 0 < r.bodyLength := by
        simp only [MnetResponse.hasBody, Bool.and_eq_true, decide_eq_true_eq] at hhas
        exact hhas.2
      have hne : r.bodyBytes ≠ [] := by
        rw [← List.length_pos_iff, length_bodyBytes hbody]
        exact hpos
      have hread : Numerals.read HttpMessage.hexDigit? 16 (hexadecimal r.bodyLength) =
          some r.bodyBytes.length := by
        rw [length_bodyBytes hbody, read_hexadecimal]
      rw [hblocks, HttpMessage.readChunks_cons (cr_not_mem_hexadecimal _) hread hne,
        HttpMessage.readChunks_last]
      simp

/-- The reader frames the body as it was written. -/
theorem readBody_payload {r : MnetResponse} (hbody : r.bodyLength ≤ (r.body.getD []).length)
    (keepAlive : Bool) :
    HttpMessage.readBody [framingField r, (ascii "Content-Type", trim r.contentTypeOrDefault),
      connectionField keepAlive] (responsePayload r false) = some (r.bodyBytes, []) := by
  have htype : (ascii "Content-Type").map HttpMessage.lower ≠ HttpMessage.transferEncoding ∧
      (ascii "Content-Type").map HttpMessage.lower ≠ HttpMessage.contentLength := by decide
  have hconn : (ascii "Connection").map HttpMessage.lower ≠ HttpMessage.transferEncoding ∧
      (ascii "Connection").map HttpMessage.lower ≠ HttpMessage.contentLength := by decide
  have hothers : HttpMessage.valuesOf HttpMessage.transferEncoding
        [(ascii "Content-Type", trim r.contentTypeOrDefault), connectionField keepAlive] = [] ∧
      HttpMessage.valuesOf HttpMessage.contentLength
        [(ascii "Content-Type", trim r.contentTypeOrDefault), connectionField keepAlive] = [] := by
    rw [HttpMessage.valuesOf_cons_of_ne htype.1, HttpMessage.valuesOf_cons_of_ne htype.2,
      connectionField, HttpMessage.valuesOf_cons_of_ne hconn.1,
      HttpMessage.valuesOf_cons_of_ne hconn.2]
    exact ⟨rfl, rfl⟩
  cases hchunked : r.chunked with
  | true =>
      have hpayload : responsePayload r false = (chunkBlocks r).flatten := by
        simp [responsePayload, hchunked]
      have hframing : framingField r = (ascii "Transfer-Encoding", ascii "chunked") := by
        rw [framingField, if_pos hchunked]
      have hcoding : (ascii "chunked").map HttpMessage.lower = HttpMessage.chunked := by decide
      rw [hpayload, hframing, HttpMessage.readBody_chunked ?_ ?_ hcoding,
        readChunks_chunkBlocks hbody]
      · rw [HttpMessage.valuesOf_cons_of_eq (by decide), hothers.1]
      · rw [HttpMessage.valuesOf_cons_of_ne (by decide), hothers.2]
  | false =>
      have hpayload : responsePayload r false = r.bodyBytes ++ [] := by
        simp [responsePayload, hchunked]
      have hframing : framingField r = (ascii "Content-Length", decimal r.bodyLength) := by
        rw [framingField, if_neg (by simp [hchunked])]
      have hread : Numerals.read HttpMessage.decimalDigit? 10 (decimal r.bodyLength) =
          some r.bodyBytes.length := by rw [read_decimal, length_bodyBytes hbody]
      rw [hpayload, hframing]
      refine HttpMessage.readBody_length ?_ ?_ hread _
      · rw [HttpMessage.valuesOf_cons_of_ne (by decide), hothers.1]
      · rw [HttpMessage.valuesOf_cons_of_eq (by decide), hothers.2]

-- ============================================================================
-- The response
-- ============================================================================

/-- A head and what follows it are read as the message they stand for. -/
theorem readMessage_response {r : MnetResponse} {headOnly keepAlive : Bool}
    (hlo : 200 ≤ r.status) (hhi : r.status ≤ 999) (h204 : r.status ≠ 204) (h304 : r.status ≠ 304)
    (hbody : r.bodyLength ≤ (r.body.getD []).length)
    (hct : mnetHeaderValueValid r.contentTypeOrDefault = true) :
    readMessage headOnly (responseHead r keepAlive ++ responsePayload r headOnly) =
      some (responseMessage r headOnly keepAlive, []) := by
  obtain ⟨hdigits, hthree⟩ := decimal_status hlo hhi
  have hstatus : HttpMessage.readStatus (HttpMessage.version ++
      (decimalInt r.status ++ 32 :: statusText r.status)) = some r.status.toNat := by
    rw [hdigits]
    exact HttpMessage.readStatus_append hthree (read_decimal _) _
  have hfirst : CR ∉ HttpMessage.version ++ (decimalInt r.status ++ 32 :: statusText r.status) := by
    apply cr_not_mem_of_noBreak
    have hsplit : HttpMessage.version ++ (decimalInt r.status ++ 32 :: statusText r.status) =
        ascii "HTTP/1.1 " ++ (decimalInt r.status ++ (ascii " " ++ statusText r.status)) := rfl
    rw [hsplit, noBreak_append, noBreak_append, noBreak_append, noBreak_decimalInt,
      noBreak_statusText]
    decide
  rw [responseHead, formatHead_append]
  apply HttpMessage.readMessage_append hfirst hstatus (readFields_head r hct _)
  have hbodiless : HttpMessage.isBodiless headOnly r.status.toNat = headOnly := by
    cases headOnly with
    | true => rfl
    | false =>
        have h1 : ¬ r.status.toNat < 200 := by omega
        have h2 : r.status.toNat ≠ 204 := by omega
        have h3 : r.status.toNat ≠ 304 := by omega
        simp [HttpMessage.isBodiless, h1, h2, h3]
  rw [hbodiless]
  cases headOnly with
  | true => exact ⟨rfl, rfl⟩
  | false => exact readBody_payload hbody keepAlive

theorem responseHead_ne_nil (r : MnetResponse) (keepAlive : Bool) : responseHead r keepAlive ≠ [] := by
  have h := formatHead_append r.status (statusText r.status)
    (if r.chunked then chunkedHeader else contentLengthHeader r.bodyLength) r.contentTypeOrDefault []
    keepAlive
  rw [List.append_nil] at h
  rw [responseHead, h]
  simp

/-- Nothing is written for a content type with a control character or a head
    of 1024 bytes or more; what is written otherwise is read as exactly the
    status, the three fields and the body, or for HEAD as the same head and
    nothing behind it. -/
theorem sendResponse_faithful {r : MnetResponse} {headOnly keepAlive : Bool}
    (hlo : 200 ≤ r.status) (hhi : r.status ≤ 999) (h204 : r.status ≠ 204) (h304 : r.status ≠ 304)
    (hbody : r.bodyLength ≤ (r.body.getD []).length) :
    (responseWire r headOnly keepAlive = [] ↔
      (∃ b ∈ r.contentTypeOrDefault, b < 0x20 ∨ b = 0x7f) ∨
        1024 ≤ (responseHead r keepAlive).length) ∧
    (responseWire r headOnly keepAlive ≠ [] →
      readMessage headOnly (responseWire r headOnly keepAlive) =
          some (responseMessage r headOnly keepAlive, []) ∧
        r.bodyBytes.length = r.bodyLength ∧
        responseWire r true keepAlive = responseHead r keepAlive ∧
        responseHead r keepAlive <+: responseWire r false keepAlive) := by
  have hcontrol : mnetHeaderValueValid r.contentTypeOrDefault = false ↔
      ∃ b ∈ r.contentTypeOrDefault, b < 0x20 ∨ b = 0x7f := by
    rw [mnetHeaderValueValid, List.all_eq_false]
    refine exists_congr fun b => and_congr_right fun _ => ?_
    have hcr : b = CR → b < 0x20 := by rintro rfl; decide
    have hlf : b = LF → b < 0x20 := by rintro rfl; decide
    simp only [Bool.not_eq_true', Bool.not_eq_false, Bool.or_eq_true, beq_iff_eq,
      decide_eq_true_eq]
    constructor
    · rintro (((h | h) | h) | h)
      · exact .inl (hcr h)
      · exact .inl (hlf h)
      · exact .inl h
      · exact .inr h
    · rintro (h | h)
      · exact .inl (.inr h)
      · exact .inr h
  have hwire := responseWire_eq r
  rw [hwire headOnly keepAlive, hwire true keepAlive, hwire false keepAlive, ← hcontrol]
  by_cases hw : r.writable keepAlive = true
  · have hparts := hw
    simp only [MnetResponse.writable, Bool.and_eq_true, decide_eq_true_eq] at hparts
    rw [if_pos hw, if_pos hw, if_pos hw]
    have hne : responseHead r keepAlive ++ responsePayload r headOnly ≠ [] := by
      intro h
      exact responseHead_ne_nil r keepAlive (List.append_eq_nil_iff.mp h).1
    refine ⟨iff_of_false hne ?_, fun _ => ⟨?_, length_bodyBytes hbody, ?_, ?_⟩⟩
    · rintro (h | h)
      · rw [hparts.1] at h
        exact absurd h (by decide)
      · omega
    · exact readMessage_response hlo hhi h204 h304 hbody hparts.1
    · exact List.append_nil _
    · exact List.prefix_append _ _
  · rw [if_neg hw]
    refine ⟨iff_of_true rfl ?_, fun h => absurd rfl h⟩
    simp only [MnetResponse.writable, Bool.and_eq_true, decide_eq_true_eq, not_and_or,
      Bool.not_eq_true, Nat.not_lt] at hw
    exact hw

/-- A response in chunks. -/
def chunkedHello : MnetResponse :=
  mnetChunked 200 (some (ascii "text/plain")) (some (ascii "hello")) 5

theorem sendResponse_faithful_chunkedHello :
    (responseWire chunkedHello false true = [] ↔
      (∃ b ∈ chunkedHello.contentTypeOrDefault, b < 0x20 ∨ b = 0x7f) ∨
        1024 ≤ (responseHead chunkedHello true).length) ∧
    (responseWire chunkedHello false true ≠ [] →
      readMessage false (responseWire chunkedHello false true) =
          some (responseMessage chunkedHello false true, []) ∧
        chunkedHello.bodyBytes.length = chunkedHello.bodyLength ∧
        responseWire chunkedHello true true = responseHead chunkedHello true ∧
        responseHead chunkedHello true <+: responseWire chunkedHello false true) :=
  sendResponse_faithful (by decide) (by decide) (by decide) (by decide) (by decide)

end Mnet
