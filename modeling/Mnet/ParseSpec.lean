/-
  Mnet.ParseSpec

  What an accepted request went through: one lemma for each function of the
  parser, so that the results about requests never unfold it.

  Offsets into a buffer that lie inside its C string are offsets into both; the
  lemmas about `endOfHeaders` are the place where the two meet.
-/

import Mnet.Parse

namespace Mnet

open Search (OccursAt)

-- ============================================================================
-- The end of the head
-- ============================================================================

/-- The separator found: where it stands, and that none of its kind stands
    before it. -/
theorem endOfHeaders_cases {buffer : Bytes} {e n : Nat} (h : endOfHeaders buffer = some (e, n)) :
    (n = 4 ∧ strstr buffer crlfcrlf = some e) ∨
      (n = 2 ∧ strstr buffer crlfcrlf = none ∧ strstr buffer lflf = some e) := by
  unfold endOfHeaders at h
  cases hcr : strstr buffer crlfcrlf with
  | some sep =>
      rw [hcr] at h
      obtain ⟨rfl, rfl⟩ : sep = e ∧ 4 = n := by simpa using h
      exact .inl ⟨rfl, rfl⟩
  | none =>
      rw [hcr] at h
      cases hlf : strstr buffer lflf with
      | none => simp [hlf] at h
      | some sep2 =>
          obtain ⟨rfl, rfl⟩ : sep2 = e ∧ 2 = n := by simpa [hlf] using h
          exact .inr ⟨rfl, rfl, rfl⟩

/-- The separator lies inside the string, and starts with a line end. -/
theorem endOfHeaders_spec {buffer : Bytes} {e n : Nat} (h : endOfHeaders buffer = some (e, n)) :
    e + n ≤ (cstr buffer).length ∧
      ((cstr buffer)[e]? = some CR ∨ (cstr buffer)[e]? = some LF) := by
  obtain ⟨rfl, hfind⟩ | ⟨rfl, -, hfind⟩ := endOfHeaders_cases h
  · have hocc := Search.occursAt_iff_getElem?.mp (Search.find_eq_some_iff.mp hfind).2.1
    exact ⟨Search.find_le_length hfind, .inl (hocc 0 (by decide))⟩
  · have hocc := Search.occursAt_iff_getElem?.mp (Search.find_eq_some_iff.mp hfind).2.1
    exact ⟨Search.find_le_length hfind, .inr (hocc 0 (by decide))⟩

/-- The separator is followed by the body, not by the end of the string in the
    middle of it. -/
theorem take_headEnd {buffer : Bytes} {e n : Nat} (h : endOfHeaders buffer = some (e, n)) :
    buffer.take e = (cstr buffer).take e :=
  (take_cstr (by have hlen := (endOfHeaders_spec h).1; omega)).symm

theorem cstr_take_headEnd {buffer : Bytes} {e n : Nat}
    (h : endOfHeaders buffer = some (e, n)) : cstr (buffer.take e) = buffer.take e := by
  refine cstr_of_noNul fun h0 => ?_
  rw [take_headEnd h] at h0
  exact noNul_cstr buffer (List.mem_of_mem_take h0)

-- ============================================================================
-- Headers
-- ============================================================================

theorem parseHeaderLines_eq_some {lines : List Bytes} {fields out : List (Bytes × Bytes)}
    (h : parseHeaderLines lines fields = some out) :
    out = fields ++ lines.filterMap headerField := by
  induction lines generalizing fields with
  | nil => simpa [parseHeaderLines, eq_comm] using h
  | cons line lines ih =>
      rw [parseHeaderLines] at h
      split at h
      · simp at h
      · split at h
        · simp at h
        · cases hfield : headerField line with
          | none =>
              rw [hfield] at h
              rw [ih h, List.filterMap_cons_none hfield]
          | some field =>
              rw [hfield] at h
              rw [ih h, List.filterMap_cons_some hfield, List.append_assoc, List.singleton_append]

/-- The limits on number and length of the lines are the only reasons to fail. -/
theorem parseHeaderLines_of_limits {lines : List Bytes} {fields : List (Bytes × Bytes)}
    (hcount : fields.length + lines.length ≤ MNET_MAX_HEADERS)
    (hlen : ∀ line ∈ lines, line.length < MNET_MAX_HEADER_LINE) :
    parseHeaderLines lines fields = some (fields ++ lines.filterMap headerField) := by
  induction lines generalizing fields with
  | nil => simp [parseHeaderLines]
  | cons line lines ih =>
      have hline := hlen line (List.mem_cons_self ..)
      have hrest := fun l hl => hlen l (List.mem_cons_of_mem line hl)
      rw [List.length_cons] at hcount
      rw [parseHeaderLines, if_neg (by omega), if_neg (by omega)]
      cases hfield : headerField line with
      | none =>
          rw [List.filterMap_cons_none hfield]
          exact ih (by omega) hrest
      | some field =>
          rw [List.filterMap_cons_some hfield]
          dsimp only
          rw [ih (by rw [List.length_append, List.length_singleton]; omega) hrest,
            List.append_assoc, List.singleton_append]

/-- The cookies the stored headers leave: those of the last Cookie header. -/
def lastCookies (headers cookies : List (Bytes × Bytes)) : List (Bytes × Bytes) :=
  headers.foldl (fun cookies field =>
    if strcaseeq field.1 (ascii "Cookie") then parseCookies field.2 else cookies) cookies

def isKeepAlive (field : Bytes × Bytes) : Bool :=
  strcaseeq field.1 (ascii "Connection") && strcaseeq field.2 (ascii "keep-alive")

theorem foldl_applyHeader (headers : List (Bytes × Bytes)) (out : ParsedRequest) :
    headers.foldl applyHeader out =
      { out with
        keepAlive := out.keepAlive || headers.any isKeepAlive
        extras := { out.extras with cookies := lastCookies headers out.extras.cookies } } := by
  induction headers generalizing out with
  | nil => simp [lastCookies]
  | cons field headers ih =>
      have hstep : applyHeader out field =
          { out with
            keepAlive := out.keepAlive || isKeepAlive field
            extras := { out.extras with
              cookies := lastCookies [field] out.extras.cookies } } := by
        simp only [applyHeader, isKeepAlive, lastCookies, List.foldl_cons, List.foldl_nil]
        generalize strcaseeq field.1 (ascii "Cookie") = isCookie
        generalize strcaseeq field.1 (ascii "Connection") = isConnection
        generalize strcaseeq field.2 (ascii "keep-alive") = keep
        cases isCookie <;> cases isConnection <;> cases keep <;> simp
      rw [List.foldl_cons, ih, hstep]
      simp [lastCookies, Bool.or_assoc]

theorem mem_lastCookies {headers cookies : List (Bytes × Bytes)} {cookie : Bytes × Bytes}
    (h : cookie ∈ lastCookies headers cookies) :
    cookie ∈ cookies ∨ ∃ field ∈ headers, strcaseeq field.1 (ascii "Cookie") = true ∧
      cookie ∈ parseCookies field.2 := by
  induction headers generalizing cookies with
  | nil => exact .inl h
  | cons field headers ih =>
      obtain h | ⟨f, hf, hname, hmem⟩ := ih h
      · dsimp only at h
        by_cases hname : strcaseeq field.1 (ascii "Cookie") = true
        · rw [if_pos hname] at h
          exact .inr ⟨field, List.mem_cons_self .., hname, h⟩
        · rw [if_neg hname] at h
          exact .inl h
      · exact .inr ⟨f, List.mem_cons_of_mem _ hf, hname, hmem⟩

-- ============================================================================
-- The body
-- ============================================================================

theorem contentLengthValue_error {maxBodySize : Nat} {val : Bytes} {code : Int}
    (h : contentLengthValue maxBodySize val = .error code) : code = -1 ∨ code = -2 := by
  unfold contentLengthValue at h
  dsimp only at h
  split at h
  · exact .inr (Except.error.inj h).symm
  · split at h
    · exact .inl (Except.error.inj h).symm
    · simp at h

theorem contentLength_error {buffer : Bytes} {headerEnd maxBodySize : Nat} {code : Int}
    (h : contentLength buffer headerEnd maxBodySize = .error code) :
    code = -1 ∨ code = -2 ∨ code = -3 ∨ code = -4 := by
  unfold contentLength at h
  dsimp only at h
  split at h
  · exact .inr (.inr (.inl (Except.error.inj h).symm))
  · split at h
    · exact .inr (.inr (.inr (Except.error.inj h).symm))
    · split at h
      · simp at h
      · obtain h | h := contentLengthValue_error h
        · exact .inl h
        · exact .inr (.inl h)

/-- The ways of `read_full_body`: it fails on the head alone, it points into the
    buffer, or it waits for the rest of the body. -/
theorem readFullBody_cases (conn : Conn) {buffer : Bytes} {e n : Nat}
    (hend : endOfHeaders buffer = some (e, n)) (received maxBodySize : Nat) (timeoutMs : Int) :
    (∃ code, readFullBody conn buffer received maxBodySize timeoutMs = ({ code := code }, conn) ∧
      (contentLength buffer e maxBodySize = .error code ∨
        code = -1 ∧ ∃ len, contentLength buffer e maxBodySize = .ok len ∧ maxBodySize < len)) ∨
    ∃ len, contentLength buffer e maxBodySize = .ok len ∧ len ≤ maxBodySize ∧
      (len ≤ received - (e + n) ∧ readFullBody conn buffer received maxBodySize timeoutMs =
          ({ body := .inBuffer (e + n), bodyLen := len }, conn) ∨
        received - (e + n) < len ∧
          readFullBody conn buffer received maxBodySize timeoutMs =
            ((recvBody conn.tick (conn.nowMs + timeoutMs) len
                ((buffer.drop (e + n)).take (received - (e + n)))).1.elim { code := -1 }
              fun block => { body := .heap (e + n) block, bodyLen := len, bodyHeap := true },
            (recvBody conn.tick (conn.nowMs + timeoutMs) len
              ((buffer.drop (e + n)).take (received - (e + n)))).2)) := by
  simp only [readFullBody, hend]
  cases hcl : contentLength buffer e maxBodySize with
  | error code => exact .inl ⟨code, rfl, .inl rfl⟩
  | ok len =>
      cases len with
      | zero => exact .inr ⟨0, rfl, Nat.zero_le _, .inl ⟨Nat.zero_le _, rfl⟩⟩
      | succ k =>
          dsimp only
          by_cases hover : k + 1 > maxBodySize
          · exact .inl ⟨-1, if_pos hover, .inr ⟨rfl, k + 1, rfl, hover⟩⟩
          · rw [if_neg hover]
            by_cases hfast : received - (e + n) ≥ k + 1
            · exact .inr ⟨k + 1, rfl, Nat.not_lt.mp hover, .inl ⟨hfast, if_pos hfast⟩⟩
            · refine .inr ⟨k + 1, rfl, Nat.not_lt.mp hover, .inr ⟨Nat.not_le.mp hfast, ?_⟩⟩
              rw [if_neg hfast]
              rcases recvBody conn.tick (conn.nowMs + timeoutMs) (k + 1)
                ((buffer.drop (e + n)).take (received - (e + n))) with ⟨_ | block, conn'⟩
              · rfl
              · rfl

/-- What `read_full_body` did when it did not fail: it took the framing from
    the head, and the body starts right behind the separator. -/
theorem readFullBody_ok {conn conn' : Conn} {buffer : Bytes} {received maxBodySize : Nat}
    {timeoutMs : Int} {r : BodyResult} {e n : Nat} (hend : endOfHeaders buffer = some (e, n))
    (h : readFullBody conn buffer received maxBodySize timeoutMs = (r, conn'))
    (hcode : r.code ≠ -1 ∧ r.code ≠ -2 ∧ r.code ≠ -3 ∧ r.code ≠ -4) :
    contentLength buffer e maxBodySize = .ok r.bodyLen ∧ r.body.offset = some (e + n) := by
  obtain ⟨code, hbody, hreason⟩ | ⟨len, hcl, -, ⟨-, hbody⟩ | ⟨-, hbody⟩⟩ :=
    readFullBody_cases conn hend received maxBodySize timeoutMs
  · obtain ⟨rfl, -⟩ := Prod.mk.inj (h.symm.trans hbody)
    obtain ⟨h1, h2, h3, h4⟩ := hcode
    obtain hcl | ⟨hone, -⟩ := hreason
    · obtain h | h | h | h := contentLength_error hcl
      · exact absurd h h1
      · exact absurd h h2
      · exact absurd h h3
      · exact absurd h h4
    · exact absurd hone h1
  · obtain ⟨rfl, -⟩ := Prod.mk.inj (h.symm.trans hbody)
    exact ⟨hcl, rfl⟩
  · obtain ⟨rfl, -⟩ := Prod.mk.inj (h.symm.trans hbody)
    cases hrecv : (recvBody conn.tick (conn.nowMs + timeoutMs) len
      ((buffer.drop (e + n)).take (received - (e + n)))).1 with
    | none =>
        rw [hrecv] at hcode
        exact absurd rfl hcode.1
    | some block => exact ⟨hcl, rfl⟩

/-- A body that is delivered in full is returned, and no byte behind it is taken
    off the stream. -/
theorem readFullBody_delivered {conn : Conn} {buffer : Bytes} {maxBodySize len e n : Nat}
    {timeoutMs : Int} (hend : endOfHeaders buffer = some (e, n))
    (hcl : contentLength buffer e maxBodySize = .ok len) (hmax : len ≤ maxBodySize)
    (hint : len - (buffer.length - (e + n)) < 2 ^ 32)
    (hdel : conn.Delivers (len - (buffer.length - (e + n))))
    (hexp : conn.NoExpiry (readFullBody conn buffer buffer.length maxBodySize timeoutMs).2) :
    ∃ r conn', readFullBody conn buffer buffer.length maxBodySize timeoutMs = (r, conn') ∧
      r.code = 0 ∧ r.bodyLen = len ∧ r.body.offset = some (e + n) ∧
      (r.body.mem buffer).take len = (buffer.drop (e + n) ++ conn.stream).take len ∧
      conn.Received (((buffer.drop (e + n) ++ conn.stream).take len).drop
        (buffer.length - (e + n))) conn' := by
  have havail : (buffer.drop (e + n)).length = buffer.length - (e + n) := List.length_drop ..
  have hinit : (buffer.drop (e + n)).take (buffer.length - (e + n)) = buffer.drop (e + n) :=
    List.take_of_length_le (Nat.le_of_eq havail)
  obtain ⟨code, -, hreason⟩ | ⟨len', hcl', -, hways⟩ :=
    readFullBody_cases conn hend buffer.length maxBodySize timeoutMs
  · obtain hcl' | ⟨-, len', hcl', hover⟩ := hreason
    · rw [hcl] at hcl'
      exact absurd hcl' (by simp)
    · obtain rfl := Except.ok.inj (hcl.symm.trans hcl')
      omega
  · obtain rfl := Except.ok.inj (hcl.symm.trans hcl')
    obtain ⟨hfast, hbody⟩ | ⟨hshort, hbody⟩ := hways
    · refine ⟨_, _, hbody, rfl, rfl, rfl, ?_, ?_⟩
      · rw [BodyPtr.mem, List.take_append_of_le_length (by omega)]
      · rw [List.drop_of_length_le (by rw [List.length_take]; omega)]
        exact .refl conn
    · -- the rest of the body comes from the socket
      rw [hinit] at hbody
      obtain ⟨got, hgot, hblock⟩ := recvBody_received conn.tick (conn.nowMs + timeoutMs) len
        (buffer.drop (e + n))
      have hcomplete := @recvBody_complete conn.tick (conn.nowMs + timeoutMs) len
        (buffer.drop (e + n)) (by rwa [havail]) (by rw [havail]; exact hdel)
      rcases hrecv : recvBody conn.tick (conn.nowMs + timeoutMs) len
        (buffer.drop (e + n)) with ⟨out, conn'⟩
      rw [hrecv] at hgot hblock hcomplete hbody
      rw [hbody] at hexp
      obtain ⟨block, rfl⟩ := hcomplete (((Conn.Received.tick conn).noExpiry_trans_iff hgot).mp
        hexp).2
      obtain ⟨hsplit, hlen⟩ := hblock (by omega) block rfl
      have hwhole : buffer.drop (e + n) ++ conn.stream = block ++ conn'.stream := by
        have h : conn.stream = got ++ conn'.stream := hgot.stream
        rw [hsplit, h, List.append_assoc]
      refine ⟨_, conn', hbody, rfl, rfl, rfl, ?_, ?_⟩
      · rw [hwhole, List.take_append_of_le_length (by omega)]
        rfl
      · rw [hwhole, List.take_left' hlen, hsplit, ← havail, List.drop_left]
        exact (Conn.Received.tick conn).trans hgot

/-- The body loop does not give up while the clock stays before its deadline. -/
theorem readFullBody_noExpiry {conn : Conn} {buffer : Bytes} {received maxBodySize : Nat}
    {timeoutMs : Int}
    (hclock : ∀ j, conn.readings < j → conn.clock j < conn.nowMs + timeoutMs) :
    conn.NoExpiry (readFullBody conn buffer received maxBodySize timeoutMs).2 := by
  have hsame : conn.NoExpiry conn := by simp [Conn.NoExpiry]
  simp only [readFullBody]
  split
  · exact hsame
  · next e n _ =>
    split
    · exact hsame
    · exact hsame
    · next k _ =>
      split
      · exact hsame
      · split
        · exact hsame
        · have h : conn.tick.NoExpiry (recvBody conn.tick (conn.nowMs + timeoutMs) (k + 1)
              ((buffer.drop (e + n)).take (received - (e + n)))).2 :=
            recvBody_noExpiry fun j hj => hclock j hj
          split
          · next heq => rw [heq] at h; exact h
          · next heq => rw [heq] at h; exact h

-- ============================================================================
-- The whole request
-- ============================================================================

@[simp] theorem splitTarget_method (out : ParsedRequest) : (splitTarget out).method = out.method := by
  unfold splitTarget; split <;> rfl

@[simp] theorem splitTarget_methodEnum (out : ParsedRequest) :
    (splitTarget out).methodEnum = out.methodEnum := by
  unfold splitTarget; split <;> rfl

@[simp] theorem splitTarget_path (out : ParsedRequest) : (splitTarget out).path = out.path := by
  unfold splitTarget; split <;> rfl

@[simp] theorem splitTarget_body (out : ParsedRequest) : (splitTarget out).body = out.body := by
  unfold splitTarget; split <;> rfl

@[simp] theorem splitTarget_bodyLength (out : ParsedRequest) :
    (splitTarget out).bodyLength = out.bodyLength := by
  unfold splitTarget; split <;> rfl

@[simp] theorem splitTarget_keepAlive (out : ParsedRequest) :
    (splitTarget out).keepAlive = out.keepAlive := by
  unfold splitTarget; split <;> rfl

@[simp] theorem splitTarget_headers (out : ParsedRequest) :
    (splitTarget out).extras.headers = out.extras.headers := by
  unfold splitTarget; split <;> rfl

@[simp] theorem splitTarget_cookies (out : ParsedRequest) :
    (splitTarget out).extras.cookies = out.extras.cookies := by
  unfold splitTarget; split <;> rfl

/-- The request built from the parts the steps of `parse_request` yield. -/
def assembled (method path : Bytes) (m : HttpMethod) (r : BodyResult)
    (headers : List (Bytes × Bytes)) : ParsedRequest :=
  splitTarget
    { method := method, path := path, methodEnum := some m
      body := r.body, bodyLength := r.bodyLen, bodyHeap := r.bodyHeap
      keepAlive := headers.any isKeepAlive
      extras := { headers := headers, cookies := lastCookies headers [] } }

theorem foldl_applyHeader_assembled (method path : Bytes) (m : HttpMethod) (r : BodyResult)
    (headers : List (Bytes × Bytes)) :
    splitTarget (headers.foldl applyHeader
      { method := method, path := path, methodEnum := some m
        body := r.body, bodyLength := r.bodyLen, bodyHeap := r.bodyHeap
        extras := { headers := headers } }) = assembled method path m r headers := by
  rw [foldl_applyHeader]
  simp [assembled]

/-- A buffer whose request line was accepted holds a separator. -/
theorem endOfHeaders_of_parseRawRequest {buffer method path : Bytes}
    (h : parseRawRequest buffer = (true, method, path)) :
    ∃ e n, endOfHeaders buffer = some (e, n) := by
  unfold parseRawRequest at h
  cases hend : endOfHeaders buffer with
  | none => simp [hend] at h
  | some sep => exact ⟨sep.1, sep.2, rfl⟩

/-- Past the request line, the connection is the one the body was read from. -/
theorem parseRequest_conn {conn : Conn} {buffer method path : Bytes} {m : HttpMethod}
    (hraw : parseRawRequest buffer = (true, method, path)) (hm : mnetParseMethod method = some m)
    (received maxBodySize : Nat) (timeoutMs : Int) :
    (parseRequest conn buffer received maxBodySize timeoutMs).2.2 =
      (readFullBody conn buffer received maxBodySize timeoutMs).2 := by
  rcases hbody : readFullBody conn buffer received maxBodySize timeoutMs with ⟨r, conn'⟩
  simp only [parseRequest, hraw, hm, hbody]
  repeat' split
  all_goals rfl

/-- A body that is not read in is reported as too large, and no other is. -/
theorem parseRequest_tooLarge {conn : Conn} {buffer method path : Bytes} {m : HttpMethod}
    (hraw : parseRawRequest buffer = (true, method, path)) (hm : mnetParseMethod method = some m)
    (received maxBodySize : Nat) (t : Int) :
    (parseRequest conn buffer received maxBodySize t).1 = .tooLarge ↔
      (readFullBody conn buffer received maxBodySize t).1.code = -1 := by
  rcases hbody : readFullBody conn buffer received maxBodySize t with ⟨r, conn'⟩
  simp only [parseRequest, hraw, hm, hbody]
  by_cases hcode : r.code = -1
  · simp [hcode]
  · simp only [hcode, if_false, iff_false]
    repeat' split
    all_goals simp

/-- The steps of an accepted request. -/
theorem parseRequest_ok {conn conn' : Conn} {buffer : Bytes} {received maxBodySize : Nat}
    {timeoutMs : Int} {req : ParsedRequest}
    (h : parseRequest conn buffer received maxBodySize timeoutMs = (.ok, req, conn')) :
    ∃ method path m r e n headers,
      parseRawRequest buffer = (true, method, path) ∧
      mnetParseMethod method = some m ∧
      endOfHeaders buffer = some (e, n) ∧
      readFullBody conn buffer received maxBodySize timeoutMs = (r, conn') ∧
      (r.code ≠ -1 ∧ r.code ≠ -2 ∧ r.code ≠ -3 ∧ r.code ≠ -4) ∧
      parseHeaders (buffer.take e) = some headers ∧
      req = assembled method path m r headers := by
  unfold parseRequest at h
  rcases hraw : parseRawRequest buffer with ⟨ok, method, path⟩
  rw [hraw] at h
  cases ok with
  | false => simp at h
  | true =>
      obtain ⟨e, n, hend⟩ := endOfHeaders_of_parseRawRequest hraw
      dsimp only at h
      cases hm : mnetParseMethod method with
      | none => simp [hm] at h
      | some m =>
          rcases hbody : readFullBody conn buffer received maxBodySize timeoutMs with ⟨r, conn''⟩
          rw [hm, hbody, hend] at h
          dsimp only at h
          split at h
          · simp at h
          · split at h
            · simp at h
            · split at h
              · simp at h
              · split at h
                · simp at h
                · next h1 h2 h3 h4 =>
                  cases hheaders : parseHeaders (buffer.take e) with
                  | none => simp [hheaders] at h
                  | some headers =>
                      rw [hheaders] at h
                      dsimp only at h
                      rw [foldl_applyHeader_assembled] at h
                      simp only [Prod.mk.injEq, true_and] at h
                      exact ⟨method, path, m, r, e, n, headers, rfl, hm, hend, by rw [h.2],
                        ⟨h1, h2, h3, h4⟩, hheaders, h.1.symm⟩

/-- The same steps, put together again. -/
theorem parseRequest_of_steps {conn conn' : Conn} {buffer method path : Bytes}
    {received maxBodySize : Nat} {timeoutMs : Int} {m : HttpMethod} {r : BodyResult} {e n : Nat}
    {headers : List (Bytes × Bytes)} (hraw : parseRawRequest buffer = (true, method, path))
    (hm : mnetParseMethod method = some m) (hend : endOfHeaders buffer = some (e, n))
    (hbody : readFullBody conn buffer received maxBodySize timeoutMs = (r, conn'))
    (hcode : r.code ≠ -1 ∧ r.code ≠ -2 ∧ r.code ≠ -3 ∧ r.code ≠ -4)
    (hheaders : parseHeaders (buffer.take e) = some headers) :
    parseRequest conn buffer received maxBodySize timeoutMs =
      (.ok, assembled method path m r headers, conn') := by
  obtain ⟨h1, h2, h3, h4⟩ := hcode
  rw [← foldl_applyHeader_assembled]
  simp only [parseRequest, hraw, hm, hbody, hend, hheaders, if_neg h1, if_neg h2, if_neg h3,
    if_neg h4]

end Mnet
