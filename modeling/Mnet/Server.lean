/-
  Mnet.Server

  `mnet_handle_client` of `mnet_server.c`: the life of one connection.

  `clientStep` is one pass of its do-while loop, from the bytes left over by
  the pass before to those it leaves; `handleLoop` repeats it while the
  connection is kept alive.  `used` is the length of `buffer`.  Log messages
  are left out.
-/

import Mnet.Dispatch

namespace Mnet

-- ============================================================================
-- Reading the head
-- ============================================================================

/-- A blank line has arrived. -/
def hasBlankLine (buffer : Bytes) : Bool :=
  (strstr buffer crlfcrlf).isSome || (strstr buffer lflf).isSome

/-- The loop that reads until the end of the header block arrives, the buffer
    is full, or the deadline passes: whether a request is there, the buffer
    and the connection. -/
def readHead (conn : Conn) (deadlineMs : Int) (buffer : Bytes) : Bool × Bytes × Conn :=
  if buffer.length < MNET_REQUEST_BUFFER_SIZE - 1 then
    match recvTurn conn deadlineMs (MNET_REQUEST_BUFFER_SIZE - 1 - buffer.length) with
    | ([], conn) => (false, buffer, conn)
    | (b :: got, conn) =>
        if hasBlankLine (buffer ++ b :: got) then (true, buffer ++ b :: got, conn)
        else readHead conn deadlineMs (buffer ++ b :: got)
  else (false, buffer, conn)
termination_by MNET_REQUEST_BUFFER_SIZE - 1 - buffer.length
decreasing_by
  simp only [List.length_append, List.length_cons]
  omega

-- ============================================================================
-- One request
-- ============================================================================

/-- The products are taken in `int`. -/
def requestTimeout (app : MnetApp) (keepAlive : Bool) : Int :=
  let timeoutMs :=
    if app.timeoutSeconds > 0 then (app.timeoutSeconds * 1000).bmod (2 ^ 32) else 30000
  if keepAlive && decide (app.keepAliveTimeout > 0) then
    (app.keepAliveTimeout * 1000).bmod (2 ^ 32)
  else timeoutMs

/-- The response to a request `parse_request` refuses. -/
def rejectRequest (conn : Conn) : ParseCode → Conn
  | .ok => conn
  | .unsupportedMethod => sendMethodNotAllowed conn false
  | .tooLarge =>
      sendSimpleError conn 413 (ascii "Payload Too Large")
        (ascii "Request body exceeds the maximum size.")
  | .badContentLength =>
      sendSimpleError conn 400 (ascii "Bad Request")
        (ascii "The Content-Length header is malformed.")
  | .duplicateContentLength =>
      sendSimpleError conn 400 (ascii "Bad Request") (ascii "Duplicate Content-Length headers.")
  | .headersTooLarge =>
      sendSimpleError conn 431 (ascii "Request Header Fields Too Large")
        (ascii "Request headers exceed the maximum size.")
  | .unsupportedTransferEncoding =>
      sendSimpleError conn 501 (ascii "Not Implemented")
        (ascii "Transfer-Encoding is not supported.")
  | .badRequest =>
      sendSimpleError conn 400 (ascii "Bad Request") (ascii "The request could not be parsed.")

/-- The answer to a dispatched request. -/
def respond (app : MnetApp) (conn : Conn) (parsed : ParsedRequest) (response : MnetResponse) :
    Conn :=
  if response.status = 0 ∧ app.notFoundHandler.isNone then sendNotFound conn parsed.keepAlive
  else
    sendResponse conn response (parsed.methodEnum == some .head) parsed.keepAlive

/-- What the loop keeps of the buffer for the next request: all bytes behind
    the head when they hold another CRLFCRLF, nothing otherwise. -/
def nextBuffer (buffer : Bytes) : Bytes :=
  match endOfHeaders buffer with
  | none => []
  | some (headEnd, sepLen) =>
      let headerLen := headEnd + sepLen
      if headerLen < buffer.length ∧ (strstr (buffer.drop headerLen) crlfcrlf).isSome then
        buffer.drop headerLen
      else []

/-- `dispatch` and the answer to it, for a request `parse_request` accepted. -/
def serveParsed (app : MnetApp) (conn : Conn) (buffer : Bytes) (parsed : ParsedRequest) : Conn :=
  let response := (dispatch app conn.worldNow buffer parsed
    (List.replicate MNET_MAX_PARAMS .null) MNET_MAX_PARAMS).1
  respond app (conn.emit (.dispatched parsed response)) parsed response

/-- Parse the request at the front of the buffer and answer it.  The result is
    the buffer of the next pass, none when the connection ends. -/
def serveRequest (app : MnetApp) (conn : Conn) (timeoutMs : Int) (buffer : Bytes) :
    Option Bytes × Conn :=
  match parseRequest conn buffer buffer.length app.bodyLimit timeoutMs with
  | (code, parsed, conn) =>
      let conn := conn.emit (.parsed conn.start buffer code parsed)
      if code ≠ .ok then (none, rejectRequest conn code)
      else
        let next := nextBuffer buffer
        (if parsed.keepAlive then some next else none,
          (serveParsed app conn buffer parsed).advance (buffer.length - next.length))

/-- The part of a pass before the request is parsed: whether a request is
    there, the buffer and the connection. -/
def readRequest (app : MnetApp) (keepAlive : Bool) (buffer : Bytes) (conn : Conn) :
    Bool × Bytes × Conn :=
  let deadlineMs := conn.nowMs + requestTimeout app keepAlive
  let conn := conn.beginPass buffer
  if buffer ≠ [] ∧ hasBlankLine buffer then (true, buffer, conn)
  else readHead conn deadlineMs buffer

/-- One pass of the loop of `mnet_handle_client`. -/
def clientStep (app : MnetApp) (keepAlive : Bool) (buffer : Bytes) (conn : Conn) :
    Option Bytes × Conn :=
  match readRequest app keepAlive buffer conn with
  | (false, buffer, conn) =>
      if buffer.length ≥ MNET_REQUEST_BUFFER_SIZE - 1 then
        (none, sendSimpleError conn 431 (ascii "Request Header Fields Too Large")
          (ascii "Request headers exceed the maximum size."))
      else (none, conn)
  | (true, buffer, conn) => serveRequest app conn (requestTimeout app keepAlive) buffer

-- ============================================================================
-- What one pass does
-- ============================================================================

theorem readHead_received (conn : Conn) (deadlineMs : Int) (buffer : Bytes) :
    ∃ got, conn.Received got (readHead conn deadlineMs buffer).2.2 ∧
      (readHead conn deadlineMs buffer).2.1 = buffer ++ got := by
  fun_induction readHead conn deadlineMs buffer with
  | case1 conn buffer hlt conn' hturn =>
      have hrecv := recvTurn_received conn deadlineMs (MNET_REQUEST_BUFFER_SIZE - 1 - buffer.length)
      rw [hturn] at hrecv
      exact ⟨_, hrecv, (List.append_nil _).symm⟩
  | case2 conn buffer hlt b got conn' hturn hblank =>
      have hrecv := recvTurn_received conn deadlineMs (MNET_REQUEST_BUFFER_SIZE - 1 - buffer.length)
      rw [hturn] at hrecv
      exact ⟨_, hrecv, rfl⟩
  | case3 conn buffer hlt b got conn' hturn hblank ih =>
      have hrecv := recvTurn_received conn deadlineMs (MNET_REQUEST_BUFFER_SIZE - 1 - buffer.length)
      rw [hturn] at hrecv
      obtain ⟨rest, hrest, hbuf⟩ := ih
      exact ⟨_, hrecv.trans hrest, by rw [hbuf, List.append_assoc]⟩
  | case4 conn buffer hge => exact ⟨[], .refl conn, (List.append_nil _).symm⟩

theorem readRequest_received (app : MnetApp) (keepAlive : Bool) (buffer : Bytes) (conn : Conn) :
    ∃ got, (conn.beginPass buffer).Received got
        (readRequest app keepAlive buffer conn).2.2 ∧
      (readRequest app keepAlive buffer conn).2.1 = buffer ++ got := by
  simp only [readRequest]
  split
  · exact ⟨[], .refl _, (List.append_nil _).symm⟩
  · exact readHead_received _ _ _

theorem readHead_blankLine {conn : Conn} {deadlineMs : Int} {buffer : Bytes}
    (h : (readHead conn deadlineMs buffer).1 = true) :
    hasBlankLine (readHead conn deadlineMs buffer).2.1 = true := by
  fun_induction readHead conn deadlineMs buffer with
  | case1 => simp at h
  | case2 conn buffer hlt b got conn' hturn hblank => exact hblank
  | case3 conn buffer hlt b got conn' hturn hblank ih => exact ih h
  | case4 => simp at h

/-- A pass that goes on to the parser has a blank line in the buffer. -/
theorem readRequest_blankLine {app : MnetApp} {keepAlive : Bool} {buffer : Bytes} {conn : Conn}
    (h : (readRequest app keepAlive buffer conn).1 = true) :
    hasBlankLine (readRequest app keepAlive buffer conn).2.1 = true := by
  simp only [readRequest] at h ⊢
  split at h
  · next hblank => rw [if_pos hblank]; exact hblank.2
  · next hblank => rw [if_neg hblank]; exact readHead_blankLine h

/-- The blocks sent in answer to a dispatched request. -/
def answerBlocks (app : MnetApp) (parsed : ParsedRequest) (response : MnetResponse) :
    List Bytes :=
  if response.status = 0 ∧ app.notFoundHandler.isNone then
    pageBlocks 404 (ascii "Not Found") notFoundPage parsed.keepAlive
  else responseBlocks response (parsed.methodEnum == some .head) parsed.keepAlive

theorem respond_eq_sends (app : MnetApp) (conn : Conn) (parsed : ParsedRequest)
    (response : MnetResponse) :
    respond app conn parsed response = conn.sends (answerBlocks app parsed response) := by
  unfold respond answerBlocks
  split
  · exact sendPage_eq_sends ..
  · exact sendResponse_eq_sends ..

/-- Serving a request only writes the log: that it was dispatched, and the
    blocks of its answer. -/
theorem serveParsed_eq (app : MnetApp) (conn : Conn) (buffer : Bytes) (parsed : ParsedRequest) :
    ∃ response, serveParsed app conn buffer parsed =
      { conn with log := conn.log ++ .dispatched parsed response ::
          (answerBlocks app parsed response).map .send } := by
  refine ⟨(dispatch app conn.worldNow buffer parsed
    (List.replicate MNET_MAX_PARAMS .null) MNET_MAX_PARAMS).1, ?_⟩
  rw [serveParsed, respond_eq_sends, Conn.sends, Conn.emit]
  simp only [List.append_assoc, List.cons_append, List.nil_append]

theorem rejectRequest_eq_sends (conn : Conn) (code : ParseCode) :
    ∃ blocks, rejectRequest conn code = conn.sends blocks := by
  cases code with
  | ok => exact ⟨[], (Conn.sends_nil conn).symm⟩
  | _ =>
      simp only [rejectRequest, sendSimpleError_eq_sends, sendMethodNotAllowed, sendPage_eq_sends]
      exact ⟨_, rfl⟩

theorem length_nextBuffer_lt {buffer : Bytes} (h : buffer ≠ []) :
    (nextBuffer buffer).length < buffer.length := by
  have hpos : 0 < buffer.length := List.length_pos_iff.mpr h
  unfold nextBuffer
  split
  · exact hpos
  · next headEnd sepLen hend =>
    have hsep : 0 < sepLen := by
      unfold endOfHeaders at hend
      repeat' split at hend
      all_goals simp at hend
      all_goals omega
    dsimp only
    split
    · rw [List.length_drop]
      omega
    · exact hpos

/-- What a pass that parses a request does: it parses what the buffer holds,
    and goes on with the bytes it keeps only where it answered a request that
    asks for the connection to be kept. -/
theorem serveRequest_cases (app : MnetApp) (conn : Conn) (timeoutMs : Int) (buffer : Bytes) :
    ∃ code parsed conn',
      parseRequest conn buffer buffer.length app.bodyLimit timeoutMs = (code, parsed, conn') ∧
      ((code ≠ .ok ∧ serveRequest app conn timeoutMs buffer =
          (none, rejectRequest (conn'.emit
            (.parsed conn.start buffer code parsed)) code)) ∨
        (code = .ok ∧ serveRequest app conn timeoutMs buffer =
          (if parsed.keepAlive then some (nextBuffer buffer) else none,
            (serveParsed app (conn'.emit (.parsed conn.start buffer code parsed)) buffer
              parsed).advance (buffer.length - (nextBuffer buffer).length)))) := by
  obtain ⟨code, parsed, conn', hparse⟩ :
      ∃ code parsed conn',
        parseRequest conn buffer buffer.length app.bodyLimit timeoutMs = (code, parsed, conn') :=
    ⟨_, _, _, rfl⟩
  refine ⟨code, parsed, conn', hparse, ?_⟩
  have hstart : conn'.start = conn.start := by
    obtain ⟨got, hgot⟩ :=
      parseRequest_received conn buffer buffer.length app.bodyLimit timeoutMs
    rw [hparse] at hgot
    exact hgot.start
  simp only [serveRequest, hparse, hstart]
  by_cases hok : code = .ok
  · refine .inr ⟨hok, ?_⟩
    rw [if_neg (by simp [hok])]
  · exact .inl ⟨hok, if_pos hok⟩

/-- Answering only adds to the log. -/
theorem serveRequest_isPrefix (app : MnetApp) (conn : Conn) (timeoutMs : Int) (buffer : Bytes) :
    (parseRequest conn buffer buffer.length app.bodyLimit timeoutMs).2.2.log <+:
      (serveRequest app conn timeoutMs buffer).2.log := by
  obtain ⟨code, parsed, conn', hparse, ⟨-, hserve⟩ | ⟨-, hserve⟩⟩ :=
    serveRequest_cases app conn timeoutMs buffer
  · obtain ⟨blocks, hblocks⟩ := rejectRequest_eq_sends
      (conn'.emit (.parsed conn.start buffer code parsed)) code
    rw [hparse, hserve, hblocks, Conn.sends, Conn.emit, List.append_assoc]
    exact List.prefix_append _ _
  · obtain ⟨response, heq⟩ := serveParsed_eq app
      (conn'.emit (.parsed conn.start buffer code parsed)) buffer parsed
    rw [hparse, hserve, Conn.advance, heq, Conn.emit, List.append_assoc]
    exact List.prefix_append _ _

theorem clientStep_of_readRequest {app : MnetApp} {keepAlive : Bool} {buffer buffer' : Bytes}
    {conn conn' : Conn} (h : readRequest app keepAlive buffer conn = (true, buffer', conn')) :
    clientStep app keepAlive buffer conn =
      serveRequest app conn' (requestTimeout app keepAlive) buffer' := by
  simp only [clientStep, h]

/-- So does what follows the reading of the head. -/
theorem clientStep_isPrefix (app : MnetApp) (keepAlive : Bool) (buffer : Bytes) (conn : Conn) :
    (readRequest app keepAlive buffer conn).2.2.log <+:
      (clientStep app keepAlive buffer conn).2.log := by
  rcases hread : readRequest app keepAlive buffer conn with ⟨ok, buffer', conn'⟩
  cases ok with
  | false =>
      simp only [clientStep, hread]
      split
      · rw [sendSimpleError_eq_sends]
        exact List.prefix_append _ _
      · exact List.prefix_refl _
  | true =>
      obtain ⟨got, hgot⟩ := parseRequest_received conn' buffer' buffer'.length app.bodyLimit
        (requestTimeout app keepAlive)
      obtain ⟨es, hlog, -⟩ := hgot.log
      rw [clientStep_of_readRequest hread]
      refine List.IsPrefix.trans ?_ (serveRequest_isPrefix ..)
      rw [hlog]
      exact List.prefix_append _ _

/-- A pass that keeps the connection uses up a part of its input. -/
theorem clientStep_some_lt {app : MnetApp} {keepAlive : Bool} {buffer next : Bytes}
    {conn conn' : Conn} (h : clientStep app keepAlive buffer conn = (some next, conn')) :
    conn'.stream.length + next.length < conn.stream.length + buffer.length := by
  obtain ⟨got, hread, hbuf⟩ := readRequest_received app keepAlive buffer conn
  have hblank := @readRequest_blankLine app keepAlive buffer conn
  unfold clientStep at h
  split at h
  · split at h <;> simp at h
  · next buffer' conn₁ heq =>
    rw [heq] at hread hbuf hblank
    have hne : buffer' ≠ [] := fun hnil => by simp [hnil] at hblank; exact absurd hblank (by decide)
    obtain ⟨code, parsed, conn₂, hparse, ⟨-, hserve⟩ | ⟨-, hserve⟩⟩ :=
      serveRequest_cases app conn₁ (requestTimeout app keepAlive) buffer'
    · rw [hserve] at h
      simp at h
    · rw [hserve, Prod.mk.injEq] at h
      obtain ⟨hnext, rfl⟩ := h
      have hlt := length_nextBuffer_lt hne
      obtain ⟨body, hbody⟩ := parseRequest_received conn₁ buffer' buffer'.length app.bodyLimit
        (requestTimeout app keepAlive)
      rw [hparse] at hbody
      have hnext' : next = nextBuffer buffer' := by
        split at hnext <;> simp_all
      have h1 := hread.length_le
      have h2 := hbody.length_le
      have hstream : ((serveParsed app (conn₂.emit (.parsed conn₁.start buffer' code parsed))
          buffer' parsed).advance (buffer'.length - (nextBuffer buffer').length)).stream =
            conn₂.stream := by
        obtain ⟨response, heq⟩ := serveParsed_eq app
          (conn₂.emit (.parsed conn₁.start buffer' code parsed)) buffer' parsed
        rw [heq]
        rfl
      have h3 : (conn.beginPass buffer).stream = conn.stream := rfl
      simp only at hbuf h1 h2
      rw [hstream, hnext']
      rw [hbuf, List.length_append] at hlt
      rw [h3] at h1
      rw [hbuf]
      omega

-- ============================================================================
-- The connection
-- ============================================================================

/-- The loop of `mnet_handle_client`: `keepAlive` tells the first pass from the
    later ones. -/
def handleLoop (app : MnetApp) (keepAlive : Bool) (buffer : Bytes) (conn : Conn) : Conn :=
  match _h : clientStep app keepAlive buffer conn with
  | (none, conn') => conn'
  | (some next, conn') => handleLoop app true next conn'
termination_by conn.stream.length + buffer.length
decreasing_by exact clientStep_some_lt _h

def mnetHandleClient (app : MnetApp) (conn : Conn) : Conn := handleLoop app false [] conn

end Mnet
