/-
  Mnet.ClientReads

  What `mnet_read_response` makes of the bytes `send_response` writes.

  All of them are gathered whatever the segments, and the body is what stands
  behind the first blank line: the response's own unless it is chunked, which
  the client does not take apart.
-/

import Mnet.Client
import Mnet.ResponseEncoding

namespace Mnet

-- ============================================================================
-- Gathering the response
-- ============================================================================

def ClientArrival.text : ClientArrival → Bytes
  | .bytes text => text
  | _ => []

/-- Bytes come, or a signal, but no failure and no early end. -/
def ClientArrival.good (a : ClientArrival) : Prop := a ≠ .failed ∧ a ≠ .bytes []

instance : DecidablePred ClientArrival.good := fun a =>
  inferInstanceAs (Decidable (a ≠ .failed ∧ a ≠ .bytes []))

/-- As long as there is room for them, all bytes up to the close are
    gathered. -/
theorem readRaw_all {cap : Nat} {arrivals : List ClientArrival} {raw : RawBuffer}
    (hgood : ∀ a ∈ arrivals, a.good)
    (hroom : raw.bytes.length + (arrivals.flatMap ClientArrival.text).length < cap) :
    ∃ raw', readRaw cap arrivals raw = some raw' ∧
      raw'.bytes = raw.bytes ++ arrivals.flatMap ClientArrival.text := by
  fun_induction readRaw cap arrivals raw with
  | case1 raw hlt => exact ⟨raw, rfl, (List.append_nil _).symm⟩
  | case2 raw hlt rest => exact absurd rfl (hgood _ (List.mem_cons_self ..)).1
  | case3 raw hlt rest ih =>
      obtain ⟨raw', hread, hbytes⟩ := ih (fun a ha => hgood a (List.mem_cons_of_mem _ ha)) hroom
      exact ⟨raw', hread, hbytes⟩
  | case4 raw hlt text rest got hnil =>
      have hempty : text = [] := by
        have h : got = text.take CLIENT_BUFFER_SIZE := rfl
        rw [hnil] at h
        rcases List.take_eq_nil_iff.mp h.symm with h | h
        · exact absurd h (by decide)
        · exact h
      exact absurd (congrArg _ hempty) (hgood _ (List.mem_cons_self ..)).2
  | case5 raw hlt text rest got left hne hleft ih =>
      have hall : got = text := List.take_of_length_le (List.drop_eq_nil_iff.mp hleft)
      rw [List.flatMap_cons, List.length_append] at hroom
      have hroom' : (raw.append got).bytes.length +
          (rest.flatMap ClientArrival.text).length < cap := by
        rw [RawBuffer.append_bytes, List.length_append, hall]
        simp only [ClientArrival.text] at hroom
        omega
      obtain ⟨raw', hread, hbytes⟩ := ih (fun a ha => hgood a (List.mem_cons_of_mem _ ha)) hroom'
      refine ⟨raw', hread, ?_⟩
      rw [hbytes, RawBuffer.append_bytes, hall, List.append_assoc]
      rfl
  | case6 raw hlt text rest got left hne hleft ih =>
      have hsplit : got ++ left = text := List.take_append_drop ..
      have hlen := congrArg List.length hsplit
      rw [List.length_append] at hlen
      rw [List.flatMap_cons, List.length_append] at hroom
      have hgood' : ∀ a ∈ ClientArrival.bytes left :: rest, a.good := by
        refine List.forall_mem_cons.mpr ⟨⟨by simp, fun h => hleft ?_⟩, fun a ha =>
          hgood a (List.mem_cons_of_mem _ ha)⟩
        simpa using h
      have hroom' : (raw.append got).bytes.length +
          ((ClientArrival.bytes left :: rest).flatMap ClientArrival.text).length < cap := by
        rw [RawBuffer.append_bytes, List.length_append, List.flatMap_cons, List.length_append]
        simp only [ClientArrival.text] at hroom ⊢
        omega
      obtain ⟨raw', hread, hbytes⟩ := ih hgood' hroom'
      refine ⟨raw', hread, ?_⟩
      rw [hbytes, RawBuffer.append_bytes, List.flatMap_cons, List.flatMap_cons, List.append_assoc,
        ← List.append_assoc got]
      show raw.bytes ++ ((got ++ left) ++ _) = raw.bytes ++ (text ++ _)
      rw [hsplit]
  | case7 raw hge => omega

-- ============================================================================
-- Where the body begins
-- ============================================================================

/-- No blank line begins at a byte that is neither LF before LF nor CR before
    LFCRLF. -/
theorem findBody_skip {b : Byte} {s : Bytes} (hcr : b = CR → ∀ tail, s ≠ 10 :: 13 :: 10 :: tail)
    (hlf : b = LF → ∀ tail, s ≠ 10 :: tail) (i : Nat) :
    findBody (b :: s) i = findBody s (i + 1) := by
  rw [findBody]
  · intro tail hb hs
    exact hcr hb tail hs
  · intro tail hb hs
    exact hlf hb tail hs

/-- Text without line ends holds no blank line. -/
theorem findBody_append {text : Bytes} (htext : noBreak text = true) (rest : Bytes) (i : Nat) :
    findBody (text ++ rest) i = findBody rest (i + text.length) := by
  induction text generalizing i with
  | nil => rfl
  | cons b text ih =>
      rw [noBreak, List.all_cons, Bool.and_eq_true, Bool.and_eq_true, decide_eq_true_eq,
        decide_eq_true_eq] at htext
      have hskip : findBody (b :: (text ++ rest)) i = findBody (text ++ rest) (i + 1) :=
        findBody_skip (fun h => absurd h htext.1.1) (fun h => absurd h htext.1.2) i
      rw [List.cons_append, hskip, ih htext.2, List.length_cons]
      congr 1
      omega

/-- Neither does a line end with text behind it. -/
theorem findBody_crlf {s : Bytes} (hcr : ∀ tail, s ≠ 13 :: tail) (hlf : ∀ tail, s ≠ 10 :: tail)
    (i : Nat) : findBody (13 :: 10 :: s) i = findBody s (i + 2) := by
  have hfirst : findBody (13 :: 10 :: s) i = findBody (10 :: s) (i + 1) := by
    apply findBody_skip
    · intro _ tail h
      exact hcr _ (List.cons.inj h).2
    · intro h
      exact absurd h (by decide)
  have hsecond : findBody (10 :: s) (i + 1) = findBody s (i + 2) := by
    apply findBody_skip
    · intro h
      exact absurd h (by decide)
    · intro _
      exact hlf
  rw [hfirst, hsecond]

/-- Text that begins with a letter begins no line end. -/
theorem ne_break_cons {c b : Byte} {s text : Bytes} (hs : s = b :: text) (hb : b ≠ c) :
    ∀ tail, s ≠ c :: tail := by
  rintro tail rfl
  exact hb (List.cons.inj hs).1.symm

theorem findBody_blank (payload : Bytes) (i : Nat) :
    findBody (13 :: 10 :: 13 :: 10 :: payload) i = some (i + 4) := by rw [findBody]

/-- A line that begins with a letter and holds no line end is no place for a
    blank line, nor is the line end before it. -/
theorem findBody_line {line : Bytes} {b : Byte} (hline : line.head? = some b)
    (hb : b ≠ CR ∧ b ≠ LF) (hbreak : noBreak line = true) (rest : Bytes) (i : Nat) :
    findBody (13 :: 10 :: (line ++ rest)) i = findBody rest (i + (line.length + 2)) := by
  obtain ⟨text, htext⟩ := List.head?_eq_some_iff.mp hline
  have hcons : line ++ rest = b :: (text ++ rest) := by rw [htext, List.cons_append]
  rw [findBody_crlf (ne_break_cons hcons hb.1) (ne_break_cons hcons hb.2), findBody_append hbreak]
  congr 1
  omega

/-- The framing line begins with a letter. -/
theorem exists_head?_framing (r : MnetResponse) :
    ∃ b, (if r.chunked then chunkedHeader else contentLengthHeader r.bodyLength).head? = some b ∧
      (b ≠ CR ∧ b ≠ LF) := by
  split
  · exact ⟨_, rfl, by decide⟩
  · exact ⟨67, rfl, by decide⟩

/-- The client finds the body right behind the head. -/
theorem findBody_response {r : MnetResponse} (keepAlive : Bool)
    (hct : mnetHeaderValueValid r.contentTypeOrDefault = true) (payload : Bytes) :
    findBody (responseHead r keepAlive ++ payload) 0 = some (responseHead r keepAlive).length := by
  have hstatus : noBreak (HttpMessage.version ++
      (decimalInt r.status ++ 32 :: statusText r.status)) = true := by
    have hsplit : HttpMessage.version ++ (decimalInt r.status ++ 32 :: statusText r.status) =
        ascii "HTTP/1.1 " ++ (decimalInt r.status ++ (ascii " " ++ statusText r.status)) := rfl
    rw [hsplit, noBreak_append, noBreak_append, noBreak_append, noBreak_decimalInt,
      noBreak_statusText]
    decide
  have htype : noBreak (ascii "Content-Type" ++ 58 :: 32 :: r.contentTypeOrDefault) = true := by
    have hsplit : ascii "Content-Type" ++ 58 :: 32 :: r.contentTypeOrDefault =
        ascii "Content-Type: " ++ r.contentTypeOrDefault := rfl
    rw [hsplit, noBreak_append, noBreak_of_headerValueValid hct]
    decide
  have hconn : noBreak (ascii "Connection" ++ 58 :: 32 :: (connectionField keepAlive).2) = true := by
    cases keepAlive <;> decide
  have hframing := noBreak_framing r
  have hlen := congrArg List.length (formatHead_append r.status (statusText r.status)
    (if r.chunked then chunkedHeader else contentLengthHeader r.bodyLength) r.contentTypeOrDefault
    [] keepAlive)
  rw [List.append_nil] at hlen
  obtain ⟨b, hline, hletter⟩ := exists_head?_framing r
  have hC : (67 : Byte) ≠ CR ∧ (67 : Byte) ≠ LF := by decide
  have htypeC : (ascii "Content-Type" ++ 58 :: 32 :: r.contentTypeOrDefault).head? = some 67 := rfl
  have hconnC : (ascii "Connection" ++ 58 :: 32 :: (connectionField keepAlive).2).head? = some 67 :=
    rfl
  rw [responseHead, formatHead_append, findBody_append hstatus,
    findBody_line hline hletter hframing, findBody_line htypeC hC htype,
    findBody_line hconnC hC hconn, findBody_blank, hlen]
  apply congrArg some
  simp only [List.length_append, List.length_cons, List.length_nil]
  omega

-- ============================================================================
-- The status
-- ============================================================================

theorem forall_mem_decimal {p : Byte → Prop} (h : ∀ d < 10, p (Nat.digitChar d).toUInt8) (n : Nat) :
    ∀ b ∈ decimal n, p b := by
  intro b hb
  obtain ⟨c, hc, rfl⟩ := List.mem_map.mp hb
  exact Numerals.forall_mem_toDigits (p := fun c => p c.toUInt8) (by decide) h n c hc

theorem foldl_decimal (n : Nat) :
    (decimal n).foldl (fun n b => n * 10 + digitVal b) 0 = n := by
  have hdigits : ∀ b ∈ decimal n, HttpMessage.decimalDigit? b = some (digitVal b) :=
    forall_mem_decimal (by decide) n
  have hread : Numerals.readFrom HttpMessage.decimalDigit? 10 0 (decimal n) = some n :=
    Numerals.readFrom_toDigits (by decide) (by decide) n
  rw [Numerals.readFrom_eq_foldl hdigits] at hread
  exact Option.some.inj hread

/-- A number is read as far as its digits go. -/
theorem strtol_decimal (n : Nat) {b : Byte} (hb : isDigit b = false) (rest : Bytes) :
    strtol (decimal n ++ b :: rest) = (min LONG_MAX n, (decimal n).length) := by
  have hne : decimal n ≠ [] := by simp [decimal, Nat.toDigits_ne_nil]
  have hstop : ∀ c ∈ (b :: rest).head?, isDigit c = false := by
    intro c hc
    obtain rfl := Option.some.inj hc
    exact hb
  rw [strtol_digits hne (forall_mem_decimal (by decide) n) hstop, foldl_decimal]

theorem atoi_decimal {n : Nat} (hn : n < 2 ^ 31) {b : Byte} (hb : isDigit b = false) (rest : Bytes) :
    atoi (decimal n ++ b :: rest) = n := by
  have hmin : min LONG_MAX (n : Int) = n := by
    apply min_eq_right
    simp only [LONG_MAX]
    omega
  rw [atoi, strtol_decimal n hb, hmin]
  exact Int.bmod_eq_of_le (by omega) (by omega)

/-- The status the client reads is that of the response. -/
theorem responseStatus_response {r : MnetResponse} (keepAlive : Bool) (hlo : 200 ≤ r.status)
    (hhi : r.status ≤ 399) (payload : Bytes) :
    responseStatus (responseHead r keepAlive ++ payload) = r.status := by
  obtain ⟨n, hn⟩ := Int.eq_ofNat_of_zero_le (by omega : 0 ≤ r.status)
  obtain ⟨rest, hrest⟩ : ∃ rest, responseHead r keepAlive ++ payload =
      ascii "HTTP/1.1 " ++ (decimal n ++ 32 :: rest) := by
    rw [responseHead, formatHead_append, hn]
    exact ⟨_, by simp only [List.append_assoc, List.cons_append]; rfl⟩
  have hlen : 12 ≤ (ascii "HTTP/1.1 " ++ (decimal n ++ 32 :: rest)).length := by
    have hthree := (decimal_status hlo (by omega)).2
    rw [hn, Int.toNat_natCast] at hthree
    rw [List.length_append, List.length_append, hthree, List.length_cons]
    have hversion : (ascii "HTTP/1.1 ").length = 9 := by decide
    omega
  have hspace : memchr (ascii "HTTP/1.1 " ++ (decimal n ++ 32 :: rest)) SP
      (ascii "HTTP/1.1 " ++ (decimal n ++ 32 :: rest)).length = some 8 := by
    rw [memchr, List.take_length]
    have hfind : Search.find [SP] (ascii "HTTP/1.1 ") = some 8 := by decide
    exact Search.find_append_of_some hfind _
  have hpre : (ascii "HTTP/").isPrefixOf (ascii "HTTP/1.1 " ++ (decimal n ++ 32 :: rest)) = true :=
    rfl
  rw [hrest, responseStatus, if_pos ⟨hlen, hpre⟩, hspace]
  show atoi (decimal n ++ 32 :: rest) = r.status
  rw [hn]
  exact atoi_decimal (by omega) (by decide) rest

-- ============================================================================
-- The response
-- ============================================================================

/-- A chunk that carries a body begins with its length. -/
theorem responsePayload_chunked {r : MnetResponse} (hchunked : r.chunked = true) :
    responsePayload r false =
      if r.hasBody then hexadecimal r.bodyLength ++ CRLF ++ r.bodyBytes ++ CRLF ++ ascii "0\r\n\r\n"
      else ascii "0\r\n\r\n" := by
  have hlast : ascii "0" ++ CRLF ++ CRLF = ascii "0\r\n\r\n" := by decide
  rw [responsePayload, if_neg Bool.false_ne_true, if_pos hchunked, chunkBlocks, hlast]
  split
  · simp only [List.cons_append, List.nil_append, List.flatten_cons, List.flatten_nil,
      List.append_nil, List.append_assoc]
  · exact List.append_nil _

theorem length_hexadecimal_le {n : Nat} (h : n < SIZE_T) : (hexadecimal n).length ≤ 16 := by
  rw [hexadecimal, List.length_map]
  exact (Nat.length_toDigits_le_iff (by decide) (by decide)).mpr h

/-- The framing adds at most 25 bytes to the body. -/
theorem length_responsePayload_le {r : MnetResponse}
    (hbody : r.bodyLength ≤ (r.body.getD []).length) (hsize : r.bodyLength < SIZE_T) :
    (responsePayload r false).length ≤ r.bodyLength + 25 := by
  have hlen := length_bodyBytes hbody
  have hlast : (ascii "0\r\n\r\n").length = 5 := by decide
  have hcrlf : CRLF.length = 2 := rfl
  cases hchunked : r.chunked with
  | false =>
      rw [responsePayload, if_neg Bool.false_ne_true, hchunked, if_neg Bool.false_ne_true, hlen]
      omega
  | true =>
      rw [responsePayload_chunked hchunked]
      split
      · have hhex := length_hexadecimal_le hsize
        simp only [List.length_append, hlen, hlast, hcrlf]
        omega
      · omega

/-- The body fills `max_body` and begins like the line with its own length and
    the body behind it. -/
def RepeatsSizeLine (r : MnetResponse) (maxBody : Nat) : Prop :=
  r.bodyLength = maxBody ∧ r.bodyBytes <+: hexadecimal r.bodyLength ++ CRLF ++ r.bodyBytes

/-- What is cut off behind the head is the body unless the body is chunked; a
    chunked one only when it looks the same as its chunk. -/
theorem take_responsePayload {r : MnetResponse} {maxBody : Nat}
    (hbody : r.bodyLength ≤ (r.body.getD []).length) (hmax : r.bodyLength ≤ maxBody) :
    (responsePayload r false).take maxBody = r.bodyBytes ↔
      r.chunked = false ∨ RepeatsSizeLine r maxBody := by
  have hlen := length_bodyBytes hbody
  cases hchunked : r.chunked with
  | false =>
      rw [responsePayload, if_neg Bool.false_ne_true, hchunked, if_neg Bool.false_ne_true]
      exact iff_of_true (List.take_of_length_le (by omega)) (.inl rfl)
  | true =>
      rw [responsePayload_chunked hchunked]
      simp only [Bool.true_eq_false, false_or, RepeatsSizeLine]
      cases hhas : r.hasBody with
      | false =>
          have hnil := MnetResponse.bodyBytes_of_not_hasBody hhas
          rw [hnil] at hlen ⊢
          have hlast : ascii "0\r\n\r\n" ≠ [] := by decide
          rw [if_neg Bool.false_ne_true, List.take_eq_nil_iff, ← hlen]
          constructor
          · rintro (h | h)
            · exact ⟨h.symm, List.nil_prefix⟩
            · exact absurd h hlast
          · rintro ⟨h, -⟩
            exact .inl h.symm
      | true =>
          rw [if_pos rfl, ← hlen]
          constructor
          · intro htake
            have hlens := congrArg List.length htake
            have hfull : r.bodyBytes.length = maxBody := by
              simp only [List.length_take, List.length_append] at hlens
              have hlast : (ascii "0\r\n\r\n").length = 5 := by decide
              omega
            have hpre := List.take_prefix maxBody (hexadecimal r.bodyBytes.length ++ CRLF ++
              r.bodyBytes ++ CRLF ++ ascii "0\r\n\r\n")
            rw [htake, List.append_assoc _ CRLF] at hpre
            refine ⟨hfull, List.prefix_of_prefix_length_le hpre (List.prefix_append _ _) ?_⟩
            rw [hfull]
            simp only [List.length_append, hfull]
            omega
          · rintro ⟨hfull, hpre⟩
            rw [← hfull, List.append_assoc]
            have hlong := hpre.trans (List.prefix_append _ (CRLF ++ ascii "0\r\n\r\n"))
            exact (List.prefix_iff_eq_take.mp hlong).symm

/-- The client gets the status, and for the body what follows the head as far
    as `max_body`. -/
theorem mnetReadResponse_response {r : MnetResponse} {keepAlive : Bool}
    {arrivals : List ClientArrival} {maxBody : Nat} (hlo : 200 ≤ r.status) (hhi : r.status ≤ 399)
    (hbody : r.bodyLength ≤ (r.body.getD []).length) (hw : r.writable keepAlive = true)
    (hmax : r.bodyLength ≤ maxBody) (hcap : maxBody + CLIENT_BUFFER_SIZE < SIZE_T)
    (hgood : ∀ a ∈ arrivals, a.good)
    (hwire : arrivals.flatMap ClientArrival.text = responseWire r false keepAlive) :
    mnetReadResponse arrivals maxBody =
      some (r.status, (responsePayload r false).take maxBody) := by
  have hparts := hw
  simp only [MnetResponse.writable, Bool.and_eq_true, decide_eq_true_eq] at hparts
  rw [responseWire_eq, if_pos hw] at hwire
  have hroom : ([] : Bytes).length + (arrivals.flatMap ClientArrival.text).length <
      (maxBody + CLIENT_BUFFER_SIZE) % SIZE_T := by
    have hpayload := length_responsePayload_le hbody (by omega)
    rw [Nat.mod_eq_of_lt hcap, hwire, List.length_append]
    simp only [List.length_nil, CLIENT_BUFFER_SIZE]
    omega
  obtain ⟨raw, hread, hbytes⟩ := @readRaw_all _ _ {} hgood hroom
  rw [List.nil_append, hwire] at hbytes
  have hcapacity : raw.cap ≠ 0 := by
    intro h
    have hfits := raw.fits
    rw [h, hbytes, List.length_append] at hfits
    have hpos := List.length_pos_iff.mpr (responseHead_ne_nil r keepAlive)
    omega
  simp only [mnetReadResponse, hread, if_neg hcapacity, hbytes,
    responseStatus_response keepAlive hlo hhi, findBody_response keepAlive hparts.1,
    Option.getD_some, List.drop_left]

/-- The client gets the response's status and body exactly when the response is
    not chunked or its chunk looks like its body. -/
theorem mnetReadResponse_iff {r : MnetResponse} {keepAlive : Bool} {arrivals : List ClientArrival}
    {maxBody : Nat} (hlo : 200 ≤ r.status) (hhi : r.status ≤ 399)
    (hbody : r.bodyLength ≤ (r.body.getD []).length) (hw : r.writable keepAlive = true)
    (hmax : r.bodyLength ≤ maxBody) (hcap : maxBody + CLIENT_BUFFER_SIZE < SIZE_T)
    (hgood : ∀ a ∈ arrivals, a.good)
    (hwire : arrivals.flatMap ClientArrival.text = responseWire r false keepAlive) :
    mnetReadResponse arrivals maxBody = some (r.status, r.bodyBytes) ↔
      r.chunked = false ∨ RepeatsSizeLine r maxBody := by
  rw [mnetReadResponse_response hlo hhi hbody hw hmax hcap hgood hwire,
    ← take_responsePayload hbody hmax]
  simp only [Option.some.injEq, Prod.mk.injEq, true_and]

/-- A page received in two segments and a signal between them. -/
def plainHi : MnetResponse := mnetText (some (ascii "hi"))

def plainHiArrivals : List ClientArrival :=
  [.bytes ((responseWire plainHi false false).take 3), .interrupted,
    .bytes ((responseWire plainHi false false).drop 3)]

theorem mnetReadResponse_plainHi :
    mnetReadResponse plainHiArrivals 100 = some (plainHi.status, plainHi.bodyBytes) ↔
      plainHi.chunked = false ∨ RepeatsSizeLine plainHi 100 :=
  mnetReadResponse_iff (by decide) (by decide) (by decide) (by decide +kernel) (by decide)
    (by decide) (by decide +kernel)
    (show _ = responseWire plainHi false false by decide +kernel)

/-- The client takes the chunk, size line and all, for the body. -/
theorem not_mnetReadResponse :
    ¬ ∀ (r : MnetResponse) (keepAlive : Bool) (arrivals : List ClientArrival) (maxBody : Nat),
      200 ≤ r.status → r.status ≤ 399 → r.bodyLength ≤ (r.body.getD []).length →
      r.writable keepAlive = true → r.bodyLength ≤ maxBody →
      maxBody + CLIENT_BUFFER_SIZE < SIZE_T → (∀ a ∈ arrivals, a.good) →
      arrivals.flatMap ClientArrival.text = responseWire r false keepAlive →
      mnetReadResponse arrivals maxBody = some (r.status, r.bodyBytes) := by
  intro h
  have hw : chunkedHello.writable false = true := by decide +kernel
  have hgood : ∀ a ∈ [ClientArrival.bytes (responseWire chunkedHello false false)], a.good := by
    decide +kernel
  have hwire : [ClientArrival.bytes (responseWire chunkedHello false false)].flatMap
      ClientArrival.text = responseWire chunkedHello false false := List.append_nil _
  have hgot : mnetReadResponse _ 100 = some _ := mnetReadResponse_response (by decide) (by decide)
    (by decide) hw (by decide) (by decide) hgood hwire
  have hread := h chunkedHello false _ 100 (by decide) (by decide) (by decide) hw (by decide)
    (by decide) hgood hwire
  have hbodies : (responsePayload chunkedHello false).take 100 ≠ chunkedHello.bodyBytes := by
    decide +kernel
  rw [hgot] at hread
  exact hbodies (Prod.mk.inj (Option.some.inj hread)).2

end Mnet
