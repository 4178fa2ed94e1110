/-
  Mnet.RequestRoundTrip

  `parse_request` gives back the request a client rendered.

  The framing scan and the tokenizer read the same fields off a rendered head,
  since no CR stands alone in it; so the length in the request's one
  Content-Length field is the length of the body that is taken, be it from the
  buffer or from the socket.
-/

import Mnet.WireRequest

namespace Mnet

namespace WireRequest

open Search (OccursAt)

-- ============================================================================
-- Framing
-- ============================================================================

/-- No field of a rendered head stands behind a bare CR. -/
theorem bareCR_head (r : WireRequest) (extra : Bytes) {name : Bytes} (hname : FieldName name)
    {i : Nat} (hi : i < r.headEnd) : bareCR (r.head ++ extra) (name ++ [58]) i = false := by
  by_contra hbare
  have hbare : bareCR (r.head ++ extra) (name ++ [58]) i = true := by simpa using hbare
  simp only [bareCR, Bool.and_eq_true, decide_eq_true_eq, bne_iff_ne, beq_iff_eq] at hbare
  obtain ⟨hocc, hpos, hcr⟩ := hbare
  have hlt : i - 1 < (renderLines r.lines).length := by
    unfold headEnd at hi
    omega
  have hprev : (renderLines r.lines ++ (CRLF ++ extra))[i - 1]? = some CR := by
    rw [← List.append_assoc, ← head]
    exact hcr
  have hlf := lf_after_cr r.plainLines (CRLF ++ extra) hlt hprev
  have hstr : (cstr (r.head ++ extra))[i]? = some LF := by
    have hle : i < (renderLines r.lines).length := by
      unfold headEnd at hi
      omega
    have hidx : i - 1 + 1 = i := by omega
    rw [hidx, List.getElem?_append_left hle] at hlf
    rw [cstr_head, List.getElem?_append_left hle, hlf]
  have hget := Search.occursAt_iff_getElem?.mp hocc 0 (by simp)
  rw [Nat.add_zero, lower, List.getElem?_map, hstr, Option.map_some] at hget
  exact needle_ne_tolower_break hname (by decide : isBreak LF = true)
    (List.mem_of_getElem? hget.symm)

/-- The stored fields of a name are the ones the text scan finds. -/
theorem filter_headers_head (r : WireRequest) (extra : Bytes) {name : Bytes}
    (hname : FieldName name) :
    r.headers.filter (fun field => lower field.1 == name) =
      (lineInitialMatches (r.head ++ extra) (name ++ [58]) r.headEnd 0).map fun i =>
        fieldAt name.length (Tokens.runAt isBreak ((r.head ++ extra).take r.headEnd) i) := by
  rw [filter_headers hname (r.endOfHeaders_head extra) (r.parseHeaders_head extra),
    lineInitialMatches_zero hname.scan]
  congr 1
  refine List.filter_congr fun i hi => ?_
  rw [r.bareCR_head extra hname (List.mem_range.mp hi), Bool.or_false]

/-- The framing is the length of the body. -/
theorem contentLength_head (r : WireRequest) (extra : Bytes) {maxBodySize : Nat}
    (hmax : r.body.length ≤ maxBodySize) (hint : r.body.length < 2 ^ 32) :
    contentLength (r.head ++ extra) r.headEnd maxBodySize = .ok r.body.length := by
  have hend := r.endOfHeaders_head extra
  have hteName : lower (ascii "Transfer-Encoding") = ascii "transfer-encoding" := by decide
  have hclName : lower (ascii "Content-Length") = ascii "content-length" := by decide
  have hte : transferEncodingLines (r.head ++ extra) r.headEnd = [] := by
    have h := r.filter_headers_head extra fieldName_transferEncoding
    have hnone : r.headers.filter (fun field => lower field.1 == ascii "transfer-encoding") = [] := by
      rw [List.filter_eq_nil_iff]
      intro field hf
      have hfield := (r.fields field hf).notTransferEncoding
      rw [strcaseeq_eq, hteName] at hfield
      rw [hfield]
      exact Bool.false_ne_true
    rw [hnone] at h
    exact List.map_eq_nil_iff.mp h.symm
  have hcl := r.filter_headers_head extra fieldName_contentLength
  have hframing := r.framing
  simp only [strcaseeq_eq, hclName] at hframing
  rw [hcl] at hframing
  have hscan : lineInitialMatches (r.head ++ extra) (ascii "content-length" ++ [58]) r.headEnd 0 =
      contentLengthLines (r.head ++ extra) r.headEnd := rfl
  rw [hscan] at hframing
  simp only [contentLength, hte]
  rcases hlines : contentLengthLines (r.head ++ extra) r.headEnd with _ | ⟨i, _ | ⟨j, rest⟩⟩
  · rw [hlines] at hframing
    have hzero : r.body.length = 0 := hframing
    rw [hzero]
    rfl
  · rw [hlines] at hframing
    have hrange : contentLengthLines (r.head ++ extra) r.headEnd =
        (List.range r.headEnd).filter (lineInitial (r.head ++ extra) contentLengthNeedle) :=
      lineInitialMatches_zero fieldName_contentLength.scan _
    have hmem : i ∈ (List.range r.headEnd).filter
        (lineInitial (r.head ++ extra) contentLengthNeedle) := by
      rw [← hrange, hlines]
      exact List.mem_singleton_self i
    rw [List.mem_filter, List.mem_range, lineInitial, Bool.and_eq_true, decide_eq_true_eq] at hmem
    obtain ⟨hi, hocc, -⟩ := hmem
    obtain ⟨hvalue, hfield⟩ := contentLengthValue_at hend hi hocc maxBodySize
    have hnumber : lineNumber (r.head ++ extra) i = some r.body.length := by
      rw [← hfield]
      exact hframing
    have hdigits : decimalFrom 0 ((lineFrom (r.head ++ extra) (i + 15)).dropWhile isBlank) =
        r.body.length := by
      have h := hnumber
      simp only [lineNumber, decimalValue] at h
      split at h
      · exact Option.some.inj h
      · simp at h
    have hsize : r.body.length < SIZE_T := Nat.lt_trans hint (by decide)
    have hover : (((lineFrom (r.head ++ extra) (i + 15)).dropWhile isBlank).foldl
        (scanDigit maxBodySize) {}).overflow = false := by
      refine foldl_scanDigit_overflow rfl ?_ ?_
      · exact Nat.le_trans (Nat.le_of_eq hdigits) hmax
      · exact Nat.lt_of_le_of_lt (Nat.le_of_eq hdigits) hsize
    rw [hnumber] at hvalue
    dsimp only at hvalue
    rw [hover] at hvalue
    simp only [List.length_cons, List.length_nil, List.getLast?_singleton]
    rw [if_neg (by omega), if_neg (by simp), hvalue, if_neg (by decide),
      Nat.mod_eq_of_lt hsize]
  · rw [hlines] at hframing
    exact absurd hframing id

-- ============================================================================
-- The target
-- ============================================================================

/-- The split at a byte, of a text without NUL. -/
theorem splitAtByte_cases (sep : Byte) {token : Bytes} (h0 : (0 : Byte) ∉ token) :
    (splitAtByte sep token = (token, none) ∧ sep ∉ token) ∨
      ∃ before after, splitAtByte sep token = (before, some after) ∧ sep ∉ before ∧
        token = before ++ sep :: after := by
  have hcstr := cstr_of_noNul h0
  cases hchr : strchr token sep with
  | none =>
      have hnone := hchr
      rw [strchr, hcstr, Search.find_eq_none_iff] at hnone
      refine .inl ⟨by simp [splitAtByte, hchr], fun hmem => ?_⟩
      obtain ⟨i, hi⟩ := List.mem_iff_getElem?.mp hmem
      have hlt := (List.getElem?_eq_some_iff.mp hi).1
      exact hnone i (Nat.le_of_lt hlt) (occursAt_singleton.mpr hi)
  | some eq =>
      have hsome := hchr
      rw [strchr, hcstr, Search.find_eq_some_iff] at hsome
      obtain ⟨-, hocc, hbefore⟩ := hsome
      have hget := occursAt_singleton.mp hocc
      have hlt := (List.getElem?_eq_some_iff.mp hget).1
      refine .inr ⟨token.take eq, token.drop (eq + 1), by simp [splitAtByte, hchr],
        fun hmem => ?_, ?_⟩
      · obtain ⟨i, hi⟩ := List.mem_iff_getElem?.mp hmem
        have hlen := (List.getElem?_eq_some_iff.mp hi).1
        rw [List.length_take] at hlen
        rw [List.getElem?_take_of_lt (by omega)] at hi
        exact hbefore i (by omega) (occursAt_singleton.mpr hi)
      · rw [List.getElem?_eq_getElem hlt] at hget
        have hbyte := Option.some.inj hget
        rw [← hbyte, List.cons_getElem_drop_succ, List.take_append_drop]

-- ============================================================================
-- The whole request
-- ============================================================================

/-- A request whose body is delivered, partly in the buffer and partly by the
    socket, is read as it was sent; what follows it on the stream stays
    there. -/
theorem parseRequest_render (r : WireRequest) {conn : Conn} {extra rest : Bytes}
    {maxBodySize : Nat} {timeoutMs : Int} (hbytes : extra ++ conn.stream = r.body ++ rest)
    (hmax : r.body.length ≤ maxBodySize) (hint : r.body.length < 2 ^ 32)
    (hdel : conn.Delivers (r.body.length - extra.length))
    (hexp : conn.NoExpiry (parseRequest conn (r.head ++ extra) (r.head ++ extra).length
      maxBodySize timeoutMs).2.2) :
    ∃ req conn', parseRequest conn (r.head ++ extra) (r.head ++ extra).length maxBodySize
        timeoutMs = (.ok, req, conn') ∧
      r.DecodedAs (r.head ++ extra) req ∧ req.body.offset = some r.head.length ∧
      conn.Received (r.body.drop extra.length) conn' := by
  have hend := r.endOfHeaders_head extra
  rw [parseRequest_conn (r.parseRawRequest_head extra) (mnetParseMethod_name _)] at hexp
  have hdrop : (r.head ++ extra).drop (r.headEnd + 4) = extra := by
    rw [← r.length_head, List.drop_left]
  have havail : (r.head ++ extra).length - (r.headEnd + 4) = extra.length := by
    rw [← r.length_head, List.length_append, Nat.add_sub_cancel_left]
  obtain ⟨res, conn', hbody, hcode, hlen, hoff, hmem, hrecv⟩ :=
    readFullBody_delivered hend (r.contentLength_head extra hmax hint) hmax (by omega)
      (by rwa [havail]) hexp
  rw [hdrop, hbytes, List.take_left] at hmem hrecv
  rw [havail] at hrecv
  have hparse := parseRequest_of_steps (r.parseRawRequest_head extra) (mnetParseMethod_name _)
    hend hbody (by rw [hcode]; decide) (r.parseHeaders_head extra)
  refine ⟨_, conn', hparse, ?_, ?_, hrecv⟩
  · have h0 : (0 : Byte) ∉ r.target := (clean_iff.mp r.clean_target).2.2
    refine { method := ?_, path := ?_, split := ?_, headers := ?_, bodyLength := ?_,
             body := ?_, keepAlive := ?_ }
    · exact ⟨splitTarget_method _, splitTarget_methodEnum _⟩
    · exact splitTarget_path _
    · obtain ⟨hsplit, hnot⟩ | ⟨before, after, hsplit, hnot, htarget⟩ :=
        splitAtByte_cases 63 h0
      · exact .inl (by simp [assembled, splitTarget, hsplit, hnot])
      · exact .inr ⟨after, by simp [assembled, splitTarget, hsplit],
          by simpa [assembled, splitTarget, hsplit] using hnot,
          by simpa [assembled, splitTarget, hsplit] using htarget⟩
    · exact splitTarget_headers _
    · rw [← hlen]
      exact splitTarget_bodyLength _
    · simp only [ParsedRequest.bodyBytes, assembled, splitTarget_body, splitTarget_bodyLength, hlen]
      exact hmem
    · exact splitTarget_keepAlive _
  · simp only [assembled, splitTarget_body]
    rw [hoff, r.length_head]

/-- `parse_request` undoes the rendering, whatever part of the body is in the
    buffer already, unless the deadline passes before the rest is there. -/
theorem parseRequest_roundTrip (r : WireRequest) (k : Nat) {conn : Conn} {rest : Bytes}
    {maxBodySize : Nat} {timeoutMs : Int} (hlimit : maxBodySize ≤ INT_MAX)
    (hbody : r.body.length ≤ maxBodySize) (hstream : conn.stream = r.body.drop k ++ rest)
    (hdel : conn.Delivers (r.body.drop k).length)
    (hexp : conn.NoExpiry (parseRequest conn (r.head ++ r.body.take k)
      (r.head ++ r.body.take k).length maxBodySize timeoutMs).2.2) :
    ∃ req conn', parseRequest conn (r.head ++ r.body.take k)
        (r.head ++ r.body.take k).length maxBodySize timeoutMs = (.ok, req, conn') ∧
      r.DecodedAs (r.head ++ r.body.take k) req := by
  have hbytes : r.body.take k ++ conn.stream = r.body ++ rest := by
    rw [hstream, ← List.append_assoc, List.take_append_drop]
  have hint : r.body.length < 2 ^ 32 := by
    unfold INT_MAX at hlimit
    omega
  have hdel' : conn.Delivers (r.body.length - (r.body.take k).length) := by
    have hlen : (r.body.drop k).length = r.body.length - (r.body.take k).length := by
      rw [List.length_drop, List.length_take]
      omega
    rwa [← hlen]
  obtain ⟨req, conn', hparse, hdecoded, -⟩ := r.parseRequest_render hbytes hbody hint hdel' hexp
  exact ⟨req, conn', hparse, hdecoded⟩

/-- A request whose body looks like a head and holds a NUL. -/
def lookalikePost : WireRequest where
  method := .post
  target := ascii "/a?b?c"
  headers := [(ascii "Host", ascii "a"), (ascii "content-length", ascii "9")]
  body := ascii "X: y\r\n\r\n" ++ [0]
  targetLength := by decide
  targetClean := by decide +kernel
  headersCount := by decide
  fields := by decide
  framing := by
    have hfilter : [(ascii "Host", ascii "a"), (ascii "content-length", ascii "9")].filter
        (fun field => strcaseeq field.1 (ascii "Content-Length")) =
          [(ascii "content-length", ascii "9")] := by decide
    rw [hfilter]
    show decimalValue (ascii "9") = some 9
    decide

/-- A connection that has the body from its first LF on, and a byte more; its
    clock runs. -/
def lookalikeConn : Conn :=
  .opened [.segment (ascii "\n\r"), .segment [10, 0, 71]] (fun i => 100 * i) fun _ => {}

theorem parseRequest_roundTrip_lookalikePost :
    ∃ req conn', parseRequest lookalikeConn (lookalikePost.head ++ lookalikePost.body.take 5)
        (lookalikePost.head ++ lookalikePost.body.take 5).length 9 1000 = (.ok, req, conn') ∧
      lookalikePost.DecodedAs (lookalikePost.head ++ lookalikePost.body.take 5) req := by
  have hstream : lookalikeConn.stream = lookalikePost.body.drop 5 ++ [71] := by decide
  have hexp : lookalikeConn.NoExpiry
      (parseRequest lookalikeConn (lookalikePost.head ++ lookalikePost.body.take 5)
        (lookalikePost.head ++ lookalikePost.body.take 5).length 9 1000).2.2 :=
    Conn.noExpiry_of_not_mem (by decide +kernel)
  exact parseRequest_roundTrip lookalikePost 5 (by decide) (by decide) hstream (by decide) hexp

end WireRequest

end Mnet
