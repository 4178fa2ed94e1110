/-
  Mnet.Parse

  `mnet_parse.c`: request line, headers, query string, cookies and body.

  `buffer` is the list of the bytes received so far; the NUL the server keeps
  behind them is the end of the list.  Allocation succeeds, so the failures
  that are left are those the source derives from the bytes it reads.
-/

import Mnet.Response
import Mnet.Conn

namespace Mnet

-- ============================================================================
-- The end of the head
-- ============================================================================

def crlfcrlf : Bytes := [CR, LF, CR, LF]

def lflf : Bytes := [LF, LF]

/-- `end_of_headers` and the length of the separator found there: the first
    CRLFCRLF of the buffer, or its first LFLF when there is none. -/
def endOfHeaders (buffer : Bytes) : Option (Nat × Nat) :=
  match strstr buffer crlfcrlf with
  | some sep => some (sep, 4)
  | none =>
      match strstr buffer lflf with
      | some sep2 => some (sep2, 2)
      | none => none

-- ============================================================================
-- Methods, query strings and cookies
-- ============================================================================

/-- The name of a method on the request line. -/
def HttpMethod.name : HttpMethod → Bytes
  | .get => ascii "GET"
  | .post => ascii "POST"
  | .put => ascii "PUT"
  | .patch => ascii "PATCH"
  | .delete => ascii "DELETE"
  | .head => ascii "HEAD"
  | .options => ascii "OPTIONS"

def mnetParseMethod (method : Bytes) : Option HttpMethod :=
  if method = ascii "GET" then some .get
  else if method = ascii "POST" then some .post
  else if method = ascii "PUT" then some .put
  else if method = ascii "PATCH" then some .patch
  else if method = ascii "DELETE" then some .delete
  else if method = ascii "HEAD" then some .head
  else if method = ascii "OPTIONS" then some .options
  else none

/-- The text before the first `sep` and the text behind it; all of it and
    nothing when there is none. -/
def splitAtByte (sep : Byte) (token : Bytes) : Bytes × Option Bytes :=
  match strchr token sep with
  | some eq => (token.take eq, some (token.drop (eq + 1)))
  | none => (token, none)

/-- The loop of `parse_query_string` over the tokens it may store. -/
def queryPairs : List Bytes → List (Bytes × Bytes) → Option (List (Bytes × Bytes))
  | [], pairs => some pairs
  | token :: tokens, pairs =>
      let (name, value) := splitAtByte 61 token
      let value := value.getD []
      if name.length > MNET_MAX_QUERY_NAME || value.length > MNET_MAX_QUERY_VALUE then none
      else
        queryPairs tokens (pairs ++ [(mnetUrlDecode (name.length + 1) name,
          mnetUrlDecode (value.length + 1) value)])

/-- `parse_query_string`: the decoded pairs, or failure with none stored. -/
def parseQueryString (qs : Bytes) : Option (List (Bytes × Bytes)) :=
  if qs = [] then some []
  else
    let count := 1 + qs.count 38
    let count := if count > MNET_MAX_QUERY then MNET_MAX_QUERY else count
    queryPairs ((strtok qs (ascii "&")).take count) []

/-- One token of a Cookie header as a name and a value. -/
def cookiePair (token : Bytes) : Bytes × Bytes :=
  let (name, value) := splitAtByte 61 (token.dropWhile (· == SP))
  (name, (value.getD []).dropWhile (· == SP))

def parseCookies (cookieHeader : Bytes) : List (Bytes × Bytes) :=
  if cookieHeader = [] then []
  else
    let count := 1 + cookieHeader.count 59
    ((strtok cookieHeader (ascii ";")).take count).map cookiePair

-- ============================================================================
-- Headers
-- ============================================================================

def isBlank (b : Byte) : Bool := b == SP || b == HTAB

/-- The field a header line holds: a valid name up to the first colon, and the
    text behind it less its leading blanks. -/
def headerField (line : Bytes) : Option (Bytes × Bytes) :=
  match strchr line 58 with
  | none => none
  | some colon =>
      let name := line.take colon
      if mnetHeaderNameValid name then
        some (name, (line.drop (colon + 1)).dropWhile isBlank)
      else none

/-- The loop of `parse_headers` over the lines of the block. -/
def parseHeaderLines : List Bytes → List (Bytes × Bytes) → Option (List (Bytes × Bytes))
  | [], fields => some fields
  | line :: lines, fields =>
      if fields.length ≥ MNET_MAX_HEADERS then none
      else if line.length ≥ MNET_MAX_HEADER_LINE then none
      else
        match headerField line with
        | some field => parseHeaderLines lines (fields ++ [field])
        | none => parseHeaderLines lines fields

def parseHeaders (headersRaw : Bytes) : Option (List (Bytes × Bytes)) :=
  parseHeaderLines (strtok headersRaw CRLF) []

-- ============================================================================
-- The request line
-- ============================================================================

/-- `parse_raw_request`: whether it succeeds, and what it stored as method and
    target. -/
def parseRawRequest (buffer : Bytes) : Bool × Bytes × Bytes :=
  match endOfHeaders buffer with
  | none => (false, [], [])
  | some (endHead, _) =>
      match memchr buffer LF endHead with
      | none => (false, [], [])
      | some _ =>
          -- sscanf(buffer, "%15s %2047s", ...) reads the whole buffer
          match scanWord 15 (cstr buffer) with
          | none => (false, [], [])
          | some (method, rest) =>
              match scanWord 2047 rest with
              | none => (false, method, [])
              | some (path, _) => (true, method, path)

-- ============================================================================
-- The body
-- ============================================================================

/-- The search loop both header scans of `read_full_body` run: the offsets
    before `headerEnd`, from `search` on, at which `needle` stands at the
    start of a line, found by `strcasestr` restarted behind each match. -/
def lineInitialMatches (buffer needle : Bytes) (headerEnd search : Nat) : List Nat :=
  match _h : strcasestr (buffer.drop search) needle with
  | none => []
  | some k =>
      let found := search + k
      if _hlt : found ≥ headerEnd then []
      else
        let rest := lineInitialMatches buffer needle headerEnd (found + max needle.length 1)
        if found = 0 ∨ buffer[found - 1]? = some LF then found :: rest else rest
termination_by headerEnd - search
decreasing_by omega

def contentLengthNeedle : Bytes := ascii "content-length:"

def transferEncodingNeedle : Bytes := ascii "transfer-encoding:"

/-- The line-initial `content-length:` before `headerEnd`. -/
def contentLengthLines (buffer : Bytes) (headerEnd : Nat) : List Nat :=
  lineInitialMatches buffer contentLengthNeedle headerEnd 0

/-- The line-initial `transfer-encoding:` before `headerEnd`. -/
def transferEncodingLines (buffer : Bytes) (headerEnd : Nat) : List Nat :=
  lineInitialMatches buffer transferEncodingNeedle headerEnd 0

/-- State of the digit loop: the number, in `size_t` arithmetic, and whether
    it was seen to exceed the limit. -/
structure DigitScan where
  parsed : Nat := 0
  overflow : Bool := false
deriving DecidableEq, Repr

def scanDigit (maxBodySize : Nat) (st : DigitScan) (b : Byte) : DigitScan :=
  let overflow := st.overflow || decide (st.parsed > maxBodySize / 10)
  let parsed := (st.parsed * 10 + digitVal b) % SIZE_T
  { parsed := parsed, overflow := overflow || decide (parsed > maxBodySize) }

/-- The value of a Content-Length header that starts at `val`: `-2` when it is
    not a decimal number at the end of a line, `-1` when it is over the
    limit. -/
def contentLengthValue (maxBodySize : Nat) (val : Bytes) : Except Int Nat :=
  let val := val.dropWhile isBlank
  let digits := val.takeWhile isDigit
  let st := digits.foldl (scanDigit maxBodySize) {}
  let stop := (val.dropWhile isDigit).head?
  if digits = [] ∨ (stop ≠ some CR ∧ stop ≠ some LF) then .error (-2)
  else if st.overflow then .error (-1)
  else .ok st.parsed

/-- The framing `read_full_body` derives from the head: the body length, or the
    negative result it returns. -/
def contentLength (buffer : Bytes) (headerEnd maxBodySize : Nat) : Except Int Nat :=
  let clHeaders := contentLengthLines buffer headerEnd
  if clHeaders.length > 1 then .error (-3)
  else if transferEncodingLines buffer headerEnd ≠ [] then .error (-4)
  else
    match clHeaders.getLast? with
    | none => .ok 0
    | some cl => contentLengthValue maxBodySize ((cstr buffer).drop (cl + 15))

/-- The receive loop of `read_full_body`: the full body, or none when the loop
    gives up. -/
def recvBody (conn : Conn) (deadlineMs : Int) (contentLength : Nat) (fullBody : Bytes) :
    Option Bytes × Conn :=
  if fullBody.length < contentLength then
    match recvTurn conn deadlineMs (contentLength - fullBody.length) with
    | ([], conn) => (none, conn)
    | (b :: got, conn) => recvBody conn deadlineMs contentLength (fullBody ++ b :: got)
  else (some fullBody, conn)
termination_by contentLength - fullBody.length
decreasing_by
  rw [List.length_append, List.length_cons]
  omega

/-- What `read_full_body` returns and stores through its out parameters. -/
structure BodyResult where
  code : Int := 0
  body : BodyPtr := .null
  bodyLen : Nat := 0
  bodyHeap : Bool := false
deriving DecidableEq, Repr

def readFullBody (conn : Conn) (buffer : Bytes) (initialReceived maxBodySize : Nat)
    (timeoutMs : Int) : BodyResult × Conn :=
  match endOfHeaders buffer with
  | none => ({ code := -1 }, conn)
  | some (headerEnd, sepLen) =>
      let bodyOffset := headerEnd + sepLen
      let initialBodyLen := initialReceived - bodyOffset
      match contentLength buffer headerEnd maxBodySize with
      | .error code => ({ code := code }, conn)
      | .ok 0 => ({ body := .inBuffer bodyOffset }, conn)
      | .ok (n + 1) =>
          if n + 1 > maxBodySize then ({ code := -1 }, conn)
          else if initialBodyLen ≥ n + 1 then
            ({ body := .inBuffer bodyOffset, bodyLen := n + 1 }, conn)
          else
            let initial := (buffer.drop bodyOffset).take initialBodyLen
            let deadlineMs := conn.nowMs + timeoutMs
            match recvBody conn.tick deadlineMs (n + 1) initial with
            | (none, conn) => ({ code := -1 }, conn)
            | (some block, conn) =>
                ({ body := .heap bodyOffset block, bodyLen := n + 1, bodyHeap := true }, conn)

-- ============================================================================
-- The whole request
-- ============================================================================

/-- The loop of `parse_request` over the stored headers: each Cookie header
    replaces the cookies, and a keep-alive Connection header sets the flag. -/
def applyHeader (out : ParsedRequest) (field : Bytes × Bytes) : ParsedRequest :=
  let out :=
    if strcaseeq field.1 (ascii "Cookie") then
      { out with extras := { out.extras with cookies := parseCookies field.2 } }
    else out
  if strcaseeq field.1 (ascii "Connection") && strcaseeq field.2 (ascii "keep-alive") then
    { out with keepAlive := true }
  else out

/-- The split of the target at its first `?`.  The result of
    `parse_query_string` is not looked at: on failure nothing is stored. -/
def splitTarget (out : ParsedRequest) : ParsedRequest :=
  match splitAtByte 63 out.path with
  | (pathOnly, some qs) =>
      { out with
        pathOnly := pathOnly
        queryString := some qs
        extras := { out.extras with query := (parseQueryString qs).getD [] } }
  | (pathOnly, none) => { out with pathOnly := pathOnly }

def parseRequest (conn : Conn) (buffer : Bytes) (received maxBodySize : Nat)
    (timeoutMs : Int) : ParseCode × ParsedRequest × Conn :=
  match parseRawRequest buffer with
  | (false, method, path) => (.badRequest, { method := method, path := path }, conn)
  | (true, method, path) =>
      let out : ParsedRequest := { method := method, path := path }
      match mnetParseMethod method with
      | none => (.unsupportedMethod, out, conn)
      | some m =>
          let out := { out with methodEnum := some m }
          match readFullBody conn buffer received maxBodySize timeoutMs with
          | (r, conn) =>
              if r.code = -1 then (.tooLarge, out, conn)
              else if r.code = -2 then (.badContentLength, out, conn)
              else if r.code = -3 then (.duplicateContentLength, out, conn)
              else if r.code = -4 then (.unsupportedTransferEncoding, out, conn)
              else
                let out := { out with
                  body := r.body, bodyLength := r.bodyLen, bodyHeap := r.bodyHeap }
                match endOfHeaders buffer with
                | none => (.ok, splitTarget out, conn)
                | some (headEnd, _) =>
                    match parseHeaders (buffer.take headEnd) with
                    | none => (.headersTooLarge, out, conn)
                    | some headers =>
                        let out := { out with extras := { out.extras with headers := headers } }
                        (.ok, splitTarget (headers.foldl applyHeader out), conn)

-- ============================================================================
-- What the parser takes off the stream
-- ============================================================================

theorem recvBody_received (conn : Conn) (deadlineMs : Int) (contentLength : Nat)
    (fullBody : Bytes) :
    ∃ got, conn.Received got (recvBody conn deadlineMs contentLength fullBody).2 ∧
      (fullBody.length ≤ contentLength →
        ∀ block, (recvBody conn deadlineMs contentLength fullBody).1 = some block →
          block = fullBody ++ got ∧ block.length = contentLength) := by
  fun_induction recvBody conn deadlineMs contentLength fullBody with
  | case1 conn fullBody hlt conn' hturn =>
      have hrecv := recvTurn_received conn deadlineMs (contentLength - fullBody.length)
      rw [hturn] at hrecv
      exact ⟨_, hrecv, fun _ block hblock => by simp at hblock⟩
  | case2 conn fullBody hlt b got conn' hturn ih =>
      have hrecv := recvTurn_received conn deadlineMs (contentLength - fullBody.length)
      have hlen := length_recvTurn_le conn deadlineMs (contentLength - fullBody.length)
      rw [hturn] at hrecv hlen
      obtain ⟨rest, hrest, hblock⟩ := ih
      refine ⟨_, hrecv.trans hrest, fun hle block hb => ?_⟩
      have hasked := (recvLength_le (contentLength - fullBody.length)).1
      dsimp only at hlen
      have h := hblock (by rw [List.length_append]; omega) block hb
      rw [List.append_assoc] at h
      exact h
  | case3 conn fullBody hge =>
      refine ⟨[], Conn.Received.refl conn, fun hle block hblock => ?_⟩
      obtain rfl : fullBody = block := by simpa using hblock
      exact ⟨(List.append_nil _).symm, by omega⟩

/-- The body arrives when the rest of it is delivered and no turn comes too
    late. -/
theorem recvBody_complete {conn : Conn} {deadlineMs : Int} {contentLength : Nat}
    {fullBody : Bytes} (hint : contentLength - fullBody.length < 2 ^ 32)
    (hdel : conn.Delivers (contentLength - fullBody.length))
    (hexp : conn.NoExpiry (recvBody conn deadlineMs contentLength fullBody).2) :
    ∃ block, (recvBody conn deadlineMs contentLength fullBody).1 = some block := by
  fun_induction recvBody conn deadlineMs contentLength fullBody with
  | case1 conn fullBody hlt conn' hturn =>
      have hnow : conn.nowMs < deadlineMs := by
        rw [← noExpiry_recvTurn_iff conn deadlineMs (contentLength - fullBody.length), hturn]
        exact hexp
      have hasked : 0 < recvLength (contentLength - fullBody.length) :=
        recvLength_pos (by omega) hint
      have hgot := recvTurn_ne_nil (contentLength - fullBody.length) hdel (by omega) hasked hnow
      rw [hturn] at hgot
      exact absurd rfl hgot
  | case2 conn fullBody hlt b got conn' hturn ih =>
      have hrecv := recvTurn_received conn deadlineMs (contentLength - fullBody.length)
      rw [hturn] at hrecv
      obtain ⟨rest, hrest, -⟩ := recvBody_received conn' deadlineMs contentLength
        (fullBody ++ b :: got)
      refine ih ?_ ?_ ((hrecv.noExpiry_trans_iff hrest).mp hexp).2
      · rw [List.length_append]
        omega
      · rw [List.length_append, Nat.sub_add_eq]
        exact hrecv.delivers _ hdel
  | case3 conn fullBody hge => exact ⟨fullBody, rfl⟩

/-- A body that lacks `2 ^ 32` bytes or more never arrives: a `recv` for none of
    them comes first. -/
theorem recvBody_none {conn : Conn} {deadlineMs : Int} {contentLength : Nat} {fullBody : Bytes}
    (hint : 2 ^ 32 ≤ contentLength - fullBody.length) :
    (recvBody conn deadlineMs contentLength fullBody).1 = none := by
  fun_induction recvBody conn deadlineMs contentLength fullBody with
  | case1 => rfl
  | case2 conn fullBody hlt b got conn' hturn ih =>
      have hlen := length_recvTurn_le conn deadlineMs (contentLength - fullBody.length)
      have hasked := (recvLength_le (contentLength - fullBody.length)).2 hint
      rw [hturn] at hlen
      dsimp only at hlen
      exact ih (by rw [List.length_append]; omega)
  | case3 conn fullBody hge => omega

/-- A body loop whose clock stays before the deadline does not give up. -/
theorem recvBody_noExpiry {conn : Conn} {deadlineMs : Int} {contentLength : Nat}
    {fullBody : Bytes} (hclock : ∀ j, conn.readings ≤ j → conn.clock j < deadlineMs) :
    conn.NoExpiry (recvBody conn deadlineMs contentLength fullBody).2 := by
  fun_induction recvBody conn deadlineMs contentLength fullBody with
  | case1 conn fullBody hlt conn' hturn =>
      have hnow := hclock conn.readings (Nat.le_refl _)
      have h := (noExpiry_recvTurn_iff conn deadlineMs (contentLength - fullBody.length)).mpr hnow
      rw [hturn] at h
      exact h
  | case2 conn fullBody hlt b got conn' hturn ih =>
      have hnow := hclock conn.readings (Nat.le_refl _)
      have h := (noExpiry_recvTurn_iff conn deadlineMs (contentLength - fullBody.length)).mpr hnow
      have hrecv := recvTurn_received conn deadlineMs (contentLength - fullBody.length)
      rw [hturn] at h hrecv
      obtain ⟨rest, hrest, -⟩ := recvBody_received conn' deadlineMs contentLength
        (fullBody ++ b :: got)
      refine (hrecv.noExpiry_trans_iff hrest).mpr ⟨h, ih fun j hj => ?_⟩
      rw [hrecv.clock]
      exact hclock j (Nat.le_trans hrecv.readings hj)
  | case3 conn fullBody hge => simp [Conn.NoExpiry]

theorem readFullBody_received (conn : Conn) (buffer : Bytes)
    (initialReceived maxBodySize : Nat) (timeoutMs : Int) :
    ∃ got, conn.Received got
      (readFullBody conn buffer initialReceived maxBodySize timeoutMs).2 := by
  have hsame : ∃ got, conn.Received got conn := ⟨[], .refl conn⟩
  unfold readFullBody
  split
  · exact hsame
  · next headerEnd sepLen _ =>
    split
    · exact hsame
    · exact hsame
    · next n _ =>
      dsimp only
      split
      · exact hsame
      · split
        · exact hsame
        · obtain ⟨got, hgot, -⟩ := recvBody_received conn.tick (conn.nowMs + timeoutMs) (n + 1)
            ((buffer.drop (headerEnd + sepLen)).take (initialReceived - (headerEnd + sepLen)))
          refine ⟨_, (Conn.Received.tick conn).trans (h := got) ?_⟩
          split
          · next h => rw [h] at hgot; exact hgot
          · next h => rw [h] at hgot; exact hgot

theorem parseRequest_received (conn : Conn) (buffer : Bytes) (received maxBodySize : Nat)
    (timeoutMs : Int) :
    ∃ got, conn.Received got (parseRequest conn buffer received maxBodySize timeoutMs).2.2 := by
  have hsame : ∃ got, conn.Received got conn := ⟨[], .refl conn⟩
  have hbody := readFullBody_received conn buffer received maxBodySize timeoutMs
  unfold parseRequest
  split
  · exact hsame
  · split
    · exact hsame
    · dsimp only
      repeat' split
      all_goals exact hbody

end Mnet
