/-
  Mnet.RequestBuffer

  `mnet_handle_client` on its array: all bytes of the stack buffer, whatever
  they are, and the count `used`.

  The functions are those of `Mnet.Server` and `Mnet.Parse` with the array in
  place of the list of the bytes received, and every difference of two `size_t`
  taken as C does.  Each also returns what it does with the lengths it
  computes.  A handler is shown the bytes received, not what the array holds
  behind them.
-/

import Mnet.ParseSpec
import Mnet.Server

namespace Mnet

-- ============================================================================
-- The array
-- ============================================================================

/-- `a - b` of two `size_t`, which wraps around below zero. -/
def subSize (a b : Nat) : Nat := if b ≤ a then a - b else SIZE_T - (b - a)

/-- The block with bytes stored from `off` on. -/
def storeAt (mem : Bytes) (off : Nat) (bytes : Bytes) : Bytes :=
  mem.take off ++ bytes ++ mem.drop (off + bytes.length)

/-- `buffer` and `used`. -/
structure RequestBuffer where
  bytes : Bytes
  used : Nat

namespace RequestBuffer

/-- The bytes received. -/
def filled (buf : RequestBuffer) : Bytes := buf.bytes.take buf.used

/-- The array after `recv` stored bytes at `buffer + used` and the loop a NUL
    behind them. -/
def receive (buf : RequestBuffer) (got : Bytes) : RequestBuffer :=
  { bytes := storeAt (storeAt buf.bytes buf.used got) (buf.used + got.length) [0]
    used := buf.used + got.length }

end RequestBuffer

/-- What is done with a length. -/
inductive BufferUse where
  /-- `parse_request` is called on the array -/
  | parse (bytes : Bytes) (used : Nat)
  /-- `read_full_body` copies what has arrived of the body -/
  | copyBody (initialBodyLen contentLength : Nat)
  /-- it asks for more of the body, and gets `got` bytes -/
  | recvBody (contentLength totalReceived asked got : Nat)
  /-- the bytes stored in `path_only`, less the NUL -/
  | storePath (length : Nat)
  /-- the `memmove` of a pipelined request -/
  | shift (remaining used : Nat)

-- ============================================================================
-- The body
-- ============================================================================

/-- The receive loop of `read_full_body`, with its count of the bytes
    received. -/
def recvBodyAt (conn : Conn) (deadlineMs : Int) (contentLength totalReceived : Nat)
    (fullBody : Bytes) : (Option Bytes × Conn) × List BufferUse :=
  if totalReceived < contentLength then
    let asked := subSize contentLength totalReceived
    match recvTurn conn deadlineMs asked with
    | ([], conn) => ((none, conn), [.recvBody contentLength totalReceived asked 0])
    | (b :: got, conn) =>
        let n := (b :: got).length
        let (r, uses) :=
          recvBodyAt conn deadlineMs contentLength (totalReceived + n) (fullBody ++ b :: got)
        (r, .recvBody contentLength totalReceived asked n :: uses)
  else ((some fullBody, conn), [])
termination_by contentLength - totalReceived

def readFullBodyAt (conn : Conn) (buffer : Bytes) (initialReceived maxBodySize : Nat)
    (timeoutMs : Int) : (BodyResult × Conn) × List BufferUse :=
  match endOfHeaders buffer with
  | none => (({ code := -1 }, conn), [])
  | some (headerEnd, sepLen) =>
      let bodyOffset := headerEnd + sepLen
      let initialBodyLen := subSize initialReceived bodyOffset
      match contentLength buffer headerEnd maxBodySize with
      | .error code => (({ code := code }, conn), [])
      | .ok 0 => (({ body := .inBuffer bodyOffset }, conn), [])
      | .ok (n + 1) =>
          if n + 1 > maxBodySize then (({ code := -1 }, conn), [])
          else if initialBodyLen ≥ n + 1 then
            (({ body := .inBuffer bodyOffset, bodyLen := n + 1 }, conn), [])
          else
            let initial := (buffer.drop bodyOffset).take initialBodyLen
            let deadlineMs := conn.nowMs + timeoutMs
            let (r, uses) := recvBodyAt conn.tick deadlineMs (n + 1) initialBodyLen initial
            let uses := .copyBody initialBodyLen (n + 1) :: uses
            match r with
            | (none, conn) => (({ code := -1 }, conn), uses)
            | (some block, conn) =>
                (({ body := .heap bodyOffset block, bodyLen := n + 1, bodyHeap := true }, conn),
                  uses)

-- ============================================================================
-- One request
-- ============================================================================

def parseRequestAt (conn : Conn) (buffer : Bytes) (received maxBodySize : Nat)
    (timeoutMs : Int) : (ParseCode × ParsedRequest × Conn) × List BufferUse :=
  match parseRawRequest buffer with
  | (false, method, path) => ((.badRequest, { method := method, path := path }, conn), [])
  | (true, method, path) =>
      let out : ParsedRequest := { method := method, path := path }
      match mnetParseMethod method with
      | none => ((.unsupportedMethod, out, conn), [])
      | some m =>
          let out := { out with methodEnum := some m }
          match readFullBodyAt conn buffer received maxBodySize timeoutMs with
          | ((r, conn), uses) =>
              if r.code = -1 then ((.tooLarge, out, conn), uses)
              else if r.code = -2 then ((.badContentLength, out, conn), uses)
              else if r.code = -3 then ((.duplicateContentLength, out, conn), uses)
              else if r.code = -4 then ((.unsupportedTransferEncoding, out, conn), uses)
              else
                let out := { out with
                  body := r.body, bodyLength := r.bodyLen, bodyHeap := r.bodyHeap }
                match endOfHeaders buffer with
                | none =>
                    let out := splitTarget out
                    ((.ok, out, conn), uses ++ [.storePath out.pathOnly.length])
                | some (headEnd, _) =>
                    match parseHeaders (buffer.take headEnd) with
                    | none => ((.headersTooLarge, out, conn), uses)
                    | some headers =>
                        let out := { out with extras := { out.extras with headers := headers } }
                        let out := splitTarget (headers.foldl applyHeader out)
                        ((.ok, out, conn), uses ++ [.storePath out.pathOnly.length])

/-- The end of a pass that keeps the connection: a request that is in the array
    already is moved to its front, else the array is taken to be empty. -/
def nextBufferAt (buf : RequestBuffer) : RequestBuffer × List BufferUse :=
  match endOfHeaders buf.bytes with
  | none => ({ buf with used := 0 }, [])
  | some (headEnd, sepLen) =>
      let headerLen := headEnd + sepLen
      if headerLen < buf.used then
        let remaining := subSize buf.used headerLen
        if remaining > 0 ∧ (strstr (buf.bytes.drop headerLen) crlfcrlf).isSome then
          let moved := storeAt buf.bytes 0 ((buf.bytes.drop headerLen).take remaining)
          ({ bytes := storeAt moved remaining [0], used := remaining },
            [.shift remaining buf.used])
        else ({ buf with used := 0 }, [])
      else ({ buf with used := 0 }, [])

def serveRequestAt (app : MnetApp) (conn : Conn) (timeoutMs : Int) (buf : RequestBuffer) :
    (Option RequestBuffer × Conn) × List BufferUse :=
  match parseRequestAt conn buf.bytes buf.used app.bodyLimit timeoutMs with
  | ((code, parsed, conn), uses) =>
      let conn := conn.emit (.parsed conn.start buf.filled code parsed)
      let uses := .parse buf.bytes buf.used :: uses
      if code ≠ .ok then ((none, rejectRequest conn code), uses)
      else
        let (next, shifts) := nextBufferAt buf
        let conn := (serveParsed app conn buf.filled parsed).advance (buf.used - next.used)
        if parsed.keepAlive then ((some next, conn), uses ++ shifts) else ((none, conn), uses)

-- ============================================================================
-- The connection
-- ============================================================================

def readHeadAt (conn : Conn) (deadlineMs : Int) (buf : RequestBuffer) :
    Bool × RequestBuffer × Conn :=
  if buf.used < MNET_REQUEST_BUFFER_SIZE - 1 then
    match recvTurn conn deadlineMs (subSize (MNET_REQUEST_BUFFER_SIZE - 1) buf.used) with
    | ([], conn) => (false, buf, conn)
    | (b :: got, conn) =>
        let buf := buf.receive (b :: got)
        if hasBlankLine buf.bytes then (true, buf, conn) else readHeadAt conn deadlineMs buf
  else (false, buf, conn)
termination_by MNET_REQUEST_BUFFER_SIZE - 1 - buf.used
decreasing_by
  simp only [RequestBuffer.receive, List.length_cons]
  omega

def readRequestAt (app : MnetApp) (keepAlive : Bool) (buf : RequestBuffer) (conn : Conn) :
    Bool × RequestBuffer × Conn :=
  let deadlineMs := conn.nowMs + requestTimeout app keepAlive
  let conn := conn.beginPass buf.filled
  if buf.used > 0 ∧ hasBlankLine buf.bytes then (true, buf, conn)
  else readHeadAt conn deadlineMs buf

/-- One pass of the loop of `mnet_handle_client`. -/
def clientStepAt (app : MnetApp) (keepAlive : Bool) (buf : RequestBuffer) (conn : Conn) :
    (Option RequestBuffer × Conn) × List BufferUse :=
  match readRequestAt app keepAlive buf conn with
  | (false, buf, conn) =>
      if buf.used ≥ MNET_REQUEST_BUFFER_SIZE - 1 then
        ((none, sendSimpleError conn 431 (ascii "Request Header Fields Too Large")
          (ascii "Request headers exceed the maximum size.")), [])
      else ((none, conn), [])
  | (true, buf, conn) => serveRequestAt app conn (requestTimeout app keepAlive) buf

-- ============================================================================
-- Every pass uses up a part of the input
-- ============================================================================

theorem subSize_eq {a b : Nat} (h : b ≤ a) : subSize a b = a - b := if_pos h

theorem recvBodyAt_received (conn : Conn) (deadlineMs : Int) (contentLength totalReceived : Nat)
    (fullBody : Bytes) :
    ∃ got, conn.Received got
      (recvBodyAt conn deadlineMs contentLength totalReceived fullBody).1.2 := by
  fun_induction recvBodyAt conn deadlineMs contentLength totalReceived fullBody with
  | case1 conn total fullBody hlt asked conn' hturn =>
      have hrecv := recvTurn_received conn deadlineMs asked
      rw [hturn] at hrecv
      exact ⟨_, hrecv⟩
  | case2 conn total fullBody hlt asked b got conn' hturn n r uses hrest ih =>
      have hrecv := recvTurn_received conn deadlineMs asked
      rw [hturn] at hrecv
      obtain ⟨rest, hrest'⟩ := ih
      rw [hrest] at hrest'
      exact ⟨_, hrecv.trans hrest'⟩
  | case3 conn total fullBody hge => exact ⟨[], .refl conn⟩

theorem readFullBodyAt_received (conn : Conn) (buffer : Bytes)
    (initialReceived maxBodySize : Nat) (timeoutMs : Int) :
    ∃ got, conn.Received got
      (readFullBodyAt conn buffer initialReceived maxBodySize timeoutMs).1.2 := by
  have hsame : ∃ got, conn.Received got conn := ⟨[], .refl conn⟩
  rw [readFullBodyAt.eq_def]
  split
  · exact hsame
  · next headerEnd sepLen _ =>
    dsimp only
    split
    · exact hsame
    · exact hsame
    · next n _ =>
      split
      · exact hsame
      · split
        · exact hsame
        · obtain ⟨got, hgot⟩ := recvBodyAt_received conn.tick (conn.nowMs + timeoutMs) (n + 1)
            (subSize initialReceived (headerEnd + sepLen))
            ((buffer.drop (headerEnd + sepLen)).take
              (subSize initialReceived (headerEnd + sepLen)))
          refine ⟨_, (Conn.Received.tick conn).trans (h := got) ?_⟩
          split
          · next h => rw [h] at hgot; exact hgot
          · next h => rw [h] at hgot; exact hgot

theorem parseRequestAt_received (conn : Conn) (buffer : Bytes) (received maxBodySize : Nat)
    (timeoutMs : Int) :
    ∃ got, conn.Received got
      (parseRequestAt conn buffer received maxBodySize timeoutMs).1.2.2 := by
  have hsame : ∃ got, conn.Received got conn := ⟨[], .refl conn⟩
  have hbody := readFullBodyAt_received conn buffer received maxBodySize timeoutMs
  rw [parseRequestAt.eq_def]
  split
  · exact hsame
  · split
    · exact hsame
    · dsimp only
      repeat' split
      all_goals exact hbody

theorem readHeadAt_received (conn : Conn) (deadlineMs : Int) (buf : RequestBuffer) :
    ∃ got, conn.Received got (readHeadAt conn deadlineMs buf).2.2 ∧
      (readHeadAt conn deadlineMs buf).2.1.used = buf.used + got.length ∧
      ((readHeadAt conn deadlineMs buf).1 = true → got ≠ []) := by
  fun_induction readHeadAt conn deadlineMs buf with
  | case1 conn buf hlt conn' hturn =>
      have hrecv := recvTurn_received conn deadlineMs
        (subSize (MNET_REQUEST_BUFFER_SIZE - 1) buf.used)
      rw [hturn] at hrecv
      exact ⟨_, hrecv, rfl, fun h => absurd h Bool.false_ne_true⟩
  | case2 conn buf hlt b got conn' hturn buf' hblank =>
      have hrecv := recvTurn_received conn deadlineMs
        (subSize (MNET_REQUEST_BUFFER_SIZE - 1) buf.used)
      rw [hturn] at hrecv
      exact ⟨_, hrecv, rfl, fun _ => List.cons_ne_nil b got⟩
  | case3 conn buf hlt b got conn' hturn buf' hblank ih =>
      have hrecv := recvTurn_received conn deadlineMs
        (subSize (MNET_REQUEST_BUFFER_SIZE - 1) buf.used)
      rw [hturn] at hrecv
      obtain ⟨rest, hrest, hused, -⟩ := ih
      refine ⟨_, hrecv.trans hrest, ?_, fun _ => by simp⟩
      rw [hused, List.length_append, ← Nat.add_assoc]
      rfl
  | case4 conn buf hge => exact ⟨[], .refl conn, rfl, fun h => absurd h Bool.false_ne_true⟩

theorem readRequestAt_received (app : MnetApp) (keepAlive : Bool) (buf : RequestBuffer)
    (conn : Conn) :
    ∃ got, (conn.beginPass buf.filled).Received got (readRequestAt app keepAlive buf conn).2.2 ∧
      (readRequestAt app keepAlive buf conn).2.1.used = buf.used + got.length ∧
      ((readRequestAt app keepAlive buf conn).1 = true → 0 < buf.used + got.length) := by
  rw [readRequestAt.eq_def]
  dsimp only
  split
  · next hblank => exact ⟨[], .refl _, rfl, fun _ => hblank.1⟩
  · obtain ⟨got, hrecv, hused, hgot⟩ := readHeadAt_received (conn.beginPass buf.filled)
      (conn.nowMs + requestTimeout app keepAlive) buf
    refine ⟨got, hrecv, hused, fun h => ?_⟩
    have hpos := List.length_pos_iff.mpr (hgot h)
    omega

theorem sepLen_pos {buffer : Bytes} {headEnd sepLen : Nat}
    (h : endOfHeaders buffer = some (headEnd, sepLen)) : 0 < sepLen := by
  rcases endOfHeaders_cases h with ⟨rfl, -⟩ | ⟨rfl, -⟩
  · decide
  · decide

theorem nextBufferAt_lt {buf : RequestBuffer} (h : 0 < buf.used) :
    (nextBufferAt buf).1.used < buf.used := by
  rw [nextBufferAt.eq_def]
  split
  · exact h
  · next headEnd sepLen hend =>
    have hsep := sepLen_pos hend
    dsimp only
    split
    · next hlt =>
      split
      · show subSize buf.used (headEnd + sepLen) < buf.used
        rw [subSize_eq (Nat.le_of_lt hlt)]
        omega
      · exact h
    · exact h

/-- The buffer a pass goes on with is the one `nextBufferAt` leaves. -/
theorem serveRequestAt_some {app : MnetApp} {conn conn' : Conn} {timeoutMs : Int}
    {buf next : RequestBuffer}
    (h : (serveRequestAt app conn timeoutMs buf).1 = (some next, conn')) :
    next = (nextBufferAt buf).1 ∧ conn'.stream.length ≤ conn.stream.length := by
  obtain ⟨got, hgot⟩ :=
    parseRequestAt_received conn buf.bytes buf.used app.bodyLimit timeoutMs
  have hlen := hgot.length_le
  rw [serveRequestAt.eq_def] at h
  rcases hparse : parseRequestAt conn buf.bytes buf.used app.bodyLimit timeoutMs with
    ⟨⟨code, parsed, conn₁⟩, uses⟩
  rw [hparse] at h hlen
  dsimp only at h hlen
  split at h
  · simp at h
  · split at h
    · obtain ⟨hnext, hconn⟩ := Prod.mk.inj h
      obtain ⟨response, heq⟩ := serveParsed_eq app
        (conn₁.emit (.parsed conn₁.start buf.filled code parsed)) buf.filled parsed
      rw [heq] at hconn
      refine ⟨(Option.some.inj hnext).symm, ?_⟩
      rw [← hconn]
      show conn₁.stream.length ≤ conn.stream.length
      omega
    · simp at h

theorem clientStepAt_some_lt {app : MnetApp} {keepAlive : Bool} {buf next : RequestBuffer}
    {conn conn' : Conn} (h : (clientStepAt app keepAlive buf conn).1 = (some next, conn')) :
    conn'.stream.length + next.used < conn.stream.length + buf.used := by
  obtain ⟨got, hread, hused, hpos⟩ := readRequestAt_received app keepAlive buf conn
  have hlen := hread.length_le
  have hstream : (conn.beginPass buf.filled).stream = conn.stream := rfl
  rw [clientStepAt.eq_def] at h
  rcases hstep : readRequestAt app keepAlive buf conn with ⟨ok, buf₁, conn₁⟩
  rw [hstep] at h hlen hused hpos
  cases ok with
  | false =>
      dsimp only at h
      split at h <;> simp at h
  | true =>
      dsimp only at h hlen hused hpos
      obtain ⟨rfl, hle⟩ := serveRequestAt_some h
      have hlt := @nextBufferAt_lt buf₁ (by rw [hused]; exact hpos rfl)
      rw [hstream] at hlen
      omega

def handleLoopAt (app : MnetApp) (keepAlive : Bool) (buf : RequestBuffer) (conn : Conn) :
    Conn × List BufferUse :=
  match _h : clientStepAt app keepAlive buf conn with
  | ((none, conn'), uses) => (conn', uses)
  | ((some next, conn'), uses) =>
      let (end', uses') := handleLoopAt app true next conn'
      (end', uses ++ uses')
termination_by conn.stream.length + buf.used
decreasing_by exact clientStepAt_some_lt (by rw [_h])

/-- `mnet_handle_client`, with what the stack holds where the array is. -/
def mnetHandleClientAt (app : MnetApp) (stack : Bytes) (conn : Conn) : Conn × List BufferUse :=
  handleLoopAt app false { bytes := stack, used := 0 } conn

end Mnet
