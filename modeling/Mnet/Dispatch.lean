/-
  Mnet.Dispatch

  `mnet_dispatch.c`: route lookup, response writing and dispatch.

  The writers hand their blocks to `mnet_send` one by one.  Allocation
  succeeds; the lines they print to stderr in debug mode are left out.
-/

import Mnet.Router
import Mnet.Handlers
import Mnet.Parse

namespace Mnet

-- ============================================================================
-- Route lookup
-- ============================================================================

/-- The loop of `mnet_find_route`: the first route of the method that matches,
    its captures counted, and the value array the attempts leave. -/
def findRouteLoop (method : HttpMethod) (path : Bytes) (maxParams : Nat) :
    List MnetRoute → List ParamSlot → Option (MnetRoute × Nat) × List ParamSlot
  | [], values => (none, values)
  | r :: routes, values =>
      if r.method ≠ method then findRouteLoop method path maxParams routes values
      else
        let m := mnetRouteMatch r path values maxParams
        match m.count with
        | some n => (some (r, n), m.values)
        | none => findRouteLoop method path maxParams routes m.values

/-- `mnet_find_route`: HEAD falls back to the GET routes. -/
def mnetFindRoute (app : MnetApp) (method : HttpMethod) (path : Bytes)
    (values : List ParamSlot) (maxParams : Nat) :
    Option (MnetRoute × Nat) × List ParamSlot :=
  match findRouteLoop method path maxParams app.routes values with
  | (some found, values) => (some found, values)
  | (none, values) =>
      if method = .head then findRouteLoop .get path maxParams app.routes values
      else (none, values)

-- ============================================================================
-- Writing responses
-- ============================================================================

def statusText (status : Int) : Bytes :=
  if status = 200 then ascii "OK"
  else if status = 201 then ascii "Created"
  else if status = 204 then ascii "No Content"
  else if status = 301 then ascii "Moved Permanently"
  else if status = 302 then ascii "Found"
  else if status = 400 then ascii "Bad Request"
  else if status = 401 then ascii "Unauthorized"
  else if status = 403 then ascii "Forbidden"
  else if status = 404 then ascii "Not Found"
  else if status = 405 then ascii "Method Not Allowed"
  else if status = 413 then ascii "Payload Too Large"
  else if status = 429 then ascii "Too Many Requests"
  else if status = 431 then ascii "Request Header Fields Too Large"
  else if status = 500 then ascii "Internal Server Error"
  else if status = 503 then ascii "Service Unavailable"
  else ascii "Unknown"

/-- The head all writers format: status line, framing header, content type and
    connection header, and the blank line. -/
def formatHead (status : Int) (text framing contentType : Bytes) (keepAlive : Bool) : Bytes :=
  ascii "HTTP/1.1 " ++ decimalInt status ++ ascii " " ++ text ++ CRLF ++
    framing ++ CRLF ++
    ascii "Content-Type: " ++ contentType ++ CRLF ++
    ascii "Connection: " ++ (if keepAlive then ascii "keep-alive" else ascii "close") ++ CRLF ++
    CRLF

def contentLengthHeader (n : Nat) : Bytes := ascii "Content-Length: " ++ decimal n

def chunkedHeader : Bytes := ascii "Transfer-Encoding: chunked"

def MnetResponse.contentTypeOrDefault (r : MnetResponse) : Bytes :=
  r.contentType.getD (ascii "application/octet-stream")

/-- The head `send_response` formats. -/
def responseHead (r : MnetResponse) (keepAlive : Bool) : Bytes :=
  formatHead r.status (statusText r.status)
    (if r.chunked then chunkedHeader else contentLengthHeader r.bodyLength)
    r.contentTypeOrDefault keepAlive

/-- The body bytes a response holds: none behind a NULL pointer. -/
def MnetResponse.bodyBytes (r : MnetResponse) : Bytes := (r.body.getD []).take r.bodyLength

def MnetResponse.hasBody (r : MnetResponse) : Bool := r.body.isSome && decide (r.bodyLength > 0)

def sendResponse (conn : Conn) (r : MnetResponse) (headOnly keepAlive : Bool) : Conn :=
  if !mnetHeaderValueValid r.contentTypeOrDefault then conn
  else
    let header := responseHead r keepAlive
    if header.length ≥ 1024 then conn
    else if !headOnly && !r.chunked && r.hasBody then
      mnetSend conn (header ++ r.bodyBytes)
    else
      let conn := mnetSend conn header
      if headOnly || !r.chunked then conn
      else
        let conn :=
          if r.hasBody then
            let conn := mnetSend conn (hexadecimal r.bodyLength ++ CRLF)
            let conn := mnetSend conn r.bodyBytes
            mnetSend conn CRLF
          else conn
        mnetSend conn (ascii "0" ++ CRLF ++ CRLF)

/-- The error page of `send_simple_error`, clipped by its 256-byte buffer. -/
def simpleErrorBody (status : Int) (text message : Bytes) : Bytes :=
  clipTo 256 (ascii "<!doctype html><html><head><title>" ++ decimalInt status ++ ascii " " ++
    text ++ ascii "</title></head>" ++
    ascii "<body><h1>" ++ decimalInt status ++ ascii " " ++ text ++ ascii "</h1><p>" ++
    message ++ ascii "</p></body></html>")

/-- What the three built-in pages share: a head that must fit 512 bytes, and
    the body in a block of its own. -/
def sendPage (conn : Conn) (status : Int) (text body : Bytes) (keepAlive : Bool) : Conn :=
  let header := formatHead status text (contentLengthHeader body.length)
    (ascii "text/html; charset=utf-8") keepAlive
  if header.length ≥ 512 then conn else mnetSend (mnetSend conn header) body

def sendSimpleError (conn : Conn) (status : Int) (text message : Bytes) : Conn :=
  sendPage conn status text (simpleErrorBody status text message) false

def notFoundPage : Bytes :=
  ascii ("<!doctype html>" ++
    "<html><head><title>404 Not Found</title></head>" ++
    "<body>" ++
    "<h1>404 Not Found</h1>" ++
    "<p>The requested URL was not found on this server.</p>" ++
    "</body></html>")

def sendNotFound (conn : Conn) (keepAlive : Bool) : Conn :=
  sendPage conn 404 (ascii "Not Found") notFoundPage keepAlive

def methodNotAllowedPage : Bytes :=
  ascii ("<!doctype html>" ++
    "<html><head><title>405 Method Not Allowed</title></head>" ++
    "<body>" ++
    "<h1>405 Method Not Allowed</h1>" ++
    "<p>The method is not allowed for this URL.</p>" ++
    "</body></html>")

def sendMethodNotAllowed (conn : Conn) (keepAlive : Bool) : Conn :=
  sendPage conn 405 (ascii "Method Not Allowed") methodNotAllowedPage keepAlive

-- ============================================================================
-- Dispatch
-- ============================================================================

/-- The request a not-found handler is given: no body, and the parsed fields
    through `extras` only. -/
def notFoundRequest (parsed : ParsedRequest) : MnetRequest :=
  { method := parsed.method, path := parsed.pathOnly, extras := parsed.extras }

/-- The request the handler of `route` is given. -/
def routedRequest (buffer : Bytes) (parsed : ParsedRequest) (route : MnetRoute)
    (paramCount : Nat) (values : List ParamSlot) : MnetRequest :=
  { method := parsed.method
    path := parsed.pathOnly
    body := some (parsed.body.mem buffer)
    bodyLength := parsed.bodyLength
    queryString := some (parsed.queryString.getD [])
    pathParamNames := route.paramNames
    pathParamValues := values
    pathParamCount := paramCount
    query := parsed.extras.query
    headers := parsed.extras.headers
    cookies := parsed.extras.cookies
    extras := { parsed.extras with
      paramNames := route.paramNames, paramCount := paramCount, paramValues := values } }

/-- `dispatch`: the response, and the number of path parameters that are live.
    `buffer` is the memory `parsed.body` may point into, and `params` the
    caller's array of path parameter values. -/
def dispatch (app : MnetApp) (world : World) (buffer : Bytes) (parsed : ParsedRequest)
    (params : List ParamSlot) (maxParams : Nat) : MnetResponse × Nat :=
  let (route, values) :=
    match parsed.methodEnum with
    | some m => mnetFindRoute app m parsed.pathOnly params maxParams
    | none => (none, params)
  let paramCount := (route.map Prod.snd).getD 0
  if app.routes = [] then
    if parsed.pathOnly = ascii "/" ∨ parsed.pathOnly = ascii "/index.html" then
      (welcomeResponse app world, paramCount)
    else (mnetError 404 (ascii "not found"), paramCount)
  else
    match route with
    | none =>
        match app.notFoundHandler with
        | some handler => (handler world (notFoundRequest parsed), paramCount)
        | none => ({}, paramCount)
    | some (route, n) =>
        let req := routedRequest buffer parsed route n values
        match app.middleware with
        | some middleware => (middleware world req (route.handler world), paramCount)
        | none => (route.handler world req, paramCount)

-- ============================================================================
-- What the writers put on the wire
-- ============================================================================

/-- The connection after `blocks` were handed to `mnet_send`. -/
def Conn.sends (conn : Conn) (blocks : List Bytes) : Conn :=
  { conn with log := conn.log ++ blocks.map .send }

theorem mnetSend_eq_sends (conn : Conn) (data : Bytes) : mnetSend conn data = conn.sends [data] :=
  rfl

@[simp] theorem Conn.sends_nil (conn : Conn) : conn.sends [] = conn := by
  simp [Conn.sends]

@[simp] theorem Conn.sends_sends (conn : Conn) (xs ys : List Bytes) :
    (conn.sends xs).sends ys = conn.sends (xs ++ ys) := by
  simp [Conn.sends]

/-- A head `send_response` does not refuse. -/
def MnetResponse.writable (r : MnetResponse) (keepAlive : Bool) : Bool :=
  mnetHeaderValueValid r.contentTypeOrDefault && decide ((responseHead r keepAlive).length < 1024)

/-- The blocks of a chunked body: at most one chunk, and the last one. -/
def chunkBlocks (r : MnetResponse) : List Bytes :=
  (if r.hasBody then [hexadecimal r.bodyLength ++ CRLF, r.bodyBytes, CRLF] else []) ++
    [ascii "0" ++ CRLF ++ CRLF]

/-- The blocks `send_response` hands to `mnet_send`. -/
def responseBlocks (r : MnetResponse) (headOnly keepAlive : Bool) : List Bytes :=
  if !r.writable keepAlive then []
  else if headOnly then [responseHead r keepAlive]
  else if r.chunked then responseHead r keepAlive :: chunkBlocks r
  else if r.hasBody then [responseHead r keepAlive ++ r.bodyBytes]
  else [responseHead r keepAlive]

theorem sendResponse_eq_sends (conn : Conn) (r : MnetResponse) (headOnly keepAlive : Bool) :
    sendResponse conn r headOnly keepAlive =
      conn.sends (responseBlocks r headOnly keepAlive) := by
  unfold sendResponse responseBlocks MnetResponse.writable
  by_cases hct : mnetHeaderValueValid r.contentTypeOrDefault
  · by_cases hlen : (responseHead r keepAlive).length < 1024
    · have hge : ¬ (responseHead r keepAlive).length ≥ 1024 := by omega
      cases headOnly <;> cases hchunk : r.chunked <;> cases hbody : r.hasBody <;>
        simp [hct, hlen, hge, hbody, mnetSend_eq_sends, chunkBlocks]
    · have hge : (responseHead r keepAlive).length ≥ 1024 := by omega
      simp [hct, hlen, hge]
  · simp [hct]

/-- The blocks of one of the built-in pages. -/
def pageBlocks (status : Int) (text body : Bytes) (keepAlive : Bool) : List Bytes :=
  let header := formatHead status text (contentLengthHeader body.length)
    (ascii "text/html; charset=utf-8") keepAlive
  if header.length ≥ 512 then [] else [header, body]

theorem sendPage_eq_sends (conn : Conn) (status : Int) (text body : Bytes) (keepAlive : Bool) :
    sendPage conn status text body keepAlive =
      conn.sends (pageBlocks status text body keepAlive) := by
  simp only [sendPage, pageBlocks]
  split
  · exact (Conn.sends_nil conn).symm
  · simp [mnetSend_eq_sends]

theorem sendSimpleError_eq_sends (conn : Conn) (status : Int) (text message : Bytes) :
    sendSimpleError conn status text message =
      conn.sends (pageBlocks status text (simpleErrorBody status text message) false) :=
  sendPage_eq_sends ..

end Mnet
