/-
  Mnet.ConnectionMemory

  `mnet_handle_client` on the heap: the captures of the router, the body of a
  response, the copy a response is sent from, and the request itself.  A pass
  that answers a request has released all of it before the next one begins.

  Handlers are not ours.  What is asked of one is that it owes nothing but the
  body of its response (`Tidy`); the responses of this library do.
-/

import Mnet.RequestLifetime
import Mnet.Server
import Mnet.StaticFiles

namespace Mnet

open Heap (Answer malloc Owns Balanced)

-- ============================================================================
-- The router
-- ============================================================================

/-- `mnet_match_params_free(values, count)`. -/
def mnetMatchParamsFreeMem (heap : Heap Block) (values : List (Option Nat)) (count : Nat) :
    Heap Block :=
  (values.take count).foldl Heap.free heap

/-- A value is stored where it has a slot.  Without memory for it NULL is. -/
def storeCapture (answers : Nat → Answer) (maxValues : Nat) (text value : Bytes) (n : Nat)
    (values : List (Option Nat)) (heap : Heap Block) : Bool × List (Option Nat) × Heap Block :=
  if n < maxValues then
    match malloc answers heap (text.length + 1) (.text value) with
    | (none, heap) => (false, values.set n none, heap)
    | (some p, heap) => (true, values.set n (some p), heap)
  else (true, values, heap)

/-- The loop of `mnet_route_match`: the count, none for `-1`, and the array. -/
def routeMatchLoopMem (answers : Nat → Answer) (maxValues : Nat) (pattern path : Bytes) (n : Nat)
    (values : List (Option Nat)) (heap : Heap Block) :
    Option Nat × List (Option Nat) × Heap Block :=
  match pattern, path with
  | p :: ps, r :: rs =>
      if p = STAR then
        match storeCapture answers maxValues (r :: rs) (r :: rs) n values heap with
        | (false, values, heap) => (none, values, mnetMatchParamsFreeMem heap values (n + 1))
        | (true, values, heap) => routeMatchLoopMem answers maxValues ps [] (n + 1) values heap
      else if p = COLON then
        let seg := (r :: rs).takeWhile (· ≠ SLASH)
        let rest := (r :: rs).dropWhile (· ≠ SLASH)
        match storeCapture answers maxValues seg (decodeSegment seg []) n values heap with
        | (false, values, heap) => (none, values, mnetMatchParamsFreeMem heap values (n + 1))
        | (true, values, heap) =>
            routeMatchLoopMem answers maxValues (skipSlash (ps.dropWhile (· ≠ SLASH)))
              (skipSlash rest) (n + 1) values heap
      else if p ≠ r then (none, values, mnetMatchParamsFreeMem heap values n)
      else routeMatchLoopMem answers maxValues ps rs n values heap
  | [], [] => (some n, values, heap)
  | _, _ => (none, values, mnetMatchParamsFreeMem heap values n)
termination_by pattern.length
decreasing_by
  · simp
  · have h1 := length_skipSlash_le (ps.dropWhile (· ≠ SLASH))
    have h2 := (List.dropWhile_suffix (· ≠ SLASH) (l := ps)).length_le
    simp only [List.length_cons]
    omega
  · simp

/-- `mnet_route_match`. -/
def mnetRouteMatchMem (answers : Nat → Answer) (pattern requestPath : Bytes)
    (values : List (Option Nat)) (maxValues : Nat) (heap : Heap Block) :
    Option Nat × List (Option Nat) × Heap Block :=
  if pattern.head? ≠ some SLASH ∨ requestPath.head? ≠ some SLASH then (none, values, heap)
  else routeMatchLoopMem answers maxValues pattern requestPath 0 values heap

-- ============================================================================
-- Handlers
-- ============================================================================

/-- A response, and the block its body is in. -/
structure MemReply where
  response : MnetResponse := {}
  body : Option Nat := none

abbrev MemHandler := World → MnetRequest → Heap Block → MemReply × Heap Block

abbrev MemMiddleware :=
  World → MnetRequest → (MnetRequest → Heap Block → MemReply × Heap Block) → Heap Block →
    MemReply × Heap Block

structure MemRoute where
  method : HttpMethod
  path : Bytes
  handler : MemHandler
  paramNames : List Bytes := []

/-- An application whose handlers allocate: `settings` is all of it but routes
    and handlers. -/
structure MemApp where
  settings : MnetApp := {}
  routes : List MemRoute := []
  notFoundHandler : Option MemHandler := none
  middleware : Option MemMiddleware := none

/-- `mnet_error` and `mnet_status`. -/
def mnetStatusMem (answers : Nat → Answer) (status : Int) (body : Bytes) (heap : Heap Block) :
    MemReply × Heap Block :=
  match strdup answers heap body with
  | (none, heap) =>
      ({ response := { status, contentType := some (ascii "text/plain; charset=utf-8") } }, heap)
  | (some copy, heap) => ({ response := mnetStatus status body, body := some copy }, heap)

/-- `mnet_text`, `mnet_html` and `mnet_json`. -/
def copyResponseMem (answers : Nat → Answer) (contentType : Bytes) (text : Option Bytes)
    (heap : Heap Block) : MemReply × Heap Block :=
  match text with
  | none => ({}, heap)
  | some text =>
      match strdup answers heap text with
      | (none, heap) => ({}, heap)
      | (some copy, heap) =>
          ({ response := copyResponse contentType (some text), body := some copy }, heap)

/-- `mnet_chunked`, whose body stays the caller's. -/
def mnetChunkedMem (status : Int) (contentType body : Option Bytes) (bodyLength : Nat)
    (heap : Heap Block) : MemReply × Heap Block :=
  ({ response := mnetChunked status contentType body bodyLength }, heap)

/-- A page written to a block of `totalLen` bytes. -/
def pageMem (answers : Nat → Answer) (totalLen : Nat) (page : MnetResponse) (heap : Heap Block) :
    MemReply × Heap Block :=
  match malloc answers heap totalLen (.text (page.body.getD [])) with
  | (none, heap) => mnetStatusMem answers 500 (ascii "internal server error") heap
  | (some body, heap) => ({ response := page, body := some body }, heap)

/-- `welcome_response`. -/
def welcomeResponseMem (answers : Nat → Answer) (app : MnetApp) (world : World) :
    Heap Block → MemReply × Heap Block :=
  pageMem answers (welcomeHtml.length + (boolText app.dev).length +
    (if app.https then ascii "https" else ascii "http").length + 512) (welcomeResponse app world)

/-- `mnet_realpath`: a path in a block of its own, or NULL. -/
def mnetRealpathMem (answers : Nat → Answer) (fs : FileSystem) (path : Bytes)
    (heap : Heap Block) : Option (Bytes × Nat) × Heap Block :=
  match fs.realpath path with
  | none => (none, heap)
  | some real =>
      match strdup answers heap real with
      | (none, heap) => (none, heap)
      | (some p, heap) => (some (real, p), heap)

/-- `static_handler` from `fopen` on.  The open file is a block that `fclose`
    releases. -/
def serveFileMem (answers : Nat → Answer) (fs : FileSystem) (fsPath real : Bytes) (realBlock : Nat)
    (heap : Heap Block) : MemReply × Heap Block :=
  match fs.fopen real with
  | none => mnetStatusMem answers 404 (ascii "not found") (heap.release realBlock)
  | some file =>
      let fp := heap.next
      let heap := heap.alloc (.text file.contents)
      if !file.seekEnd then
        mnetStatusMem answers 404 (ascii "not found") ((heap.release fp).release realBlock)
      else if file.tell < 0 then
        mnetStatusMem answers 404 (ascii "not found") ((heap.release fp).release realBlock)
      else
        let data := file.contents.take file.tell.toNat
        match malloc answers heap (file.tell.toNat + 1) (.text data) with
        | (none, heap) =>
            mnetStatusMem answers 500 (ascii "internal server error")
              ((heap.release fp).release realBlock)
        | (some p, heap) =>
            ({ response :=
                { status := 200, contentType := some (mimeType fsPath), body := some data,
                  bodyLength := data.length }
               body := some p }, (heap.release fp).release realBlock)

/-- `static_handler`. -/
def staticHandlerMem (answers : Nat → Answer) (fs : FileSystem) (cfg : Option StaticConfig)
    (req : MnetRequest) (heap : Heap Block) : MemReply × Heap Block :=
  match cfg with
  | none => mnetStatusMem answers 500 (ascii "internal server error") heap
  | some cfg =>
      match requestedPath cfg req.path with
      | none => mnetStatusMem answers 404 (ascii "not found") heap
      | some fsPath =>
          match mnetRealpathMem answers fs fsPath heap with
          | (none, heap) => mnetStatusMem answers 404 (ascii "not found") heap
          | (some (real, p), heap) =>
              match mnetRealpathMem answers fs cfg.fsPath heap with
              | (none, heap) => mnetStatusMem answers 404 (ascii "not found") (heap.release p)
              | (some (baseReal, q), heap) =>
                  if !inside real baseReal then
                    mnetStatusMem answers 403 (ascii "forbidden") ((heap.release p).release q)
                  else serveFileMem answers fs fsPath real p (heap.release q)

/-- `mnet_response_free`. -/
def mnetResponseFree (heap : Heap Block) (r : MemReply) : Heap Block :=
  if r.response.chunked then heap else heap.free r.body

-- ============================================================================
-- Dispatch
-- ============================================================================

/-- The loop of `mnet_find_route`. -/
def findRouteLoopMem (answers : Nat → Answer) (method : HttpMethod) (path : Bytes)
    (maxParams : Nat) : List MemRoute → List (Option Nat) → Heap Block →
      Option (MemRoute × Nat) × List (Option Nat) × Heap Block
  | [], values, heap => (none, values, heap)
  | r :: routes, values, heap =>
      if r.method ≠ method then findRouteLoopMem answers method path maxParams routes values heap
      else
        match mnetRouteMatchMem answers r.path path values maxParams heap with
        | (some n, values, heap) => (some (r, n), values, heap)
        | (none, values, heap) => findRouteLoopMem answers method path maxParams routes values heap

/-- `mnet_find_route`. -/
def mnetFindRouteMem (answers : Nat → Answer) (app : MemApp) (method : HttpMethod) (path : Bytes)
    (values : List (Option Nat)) (maxParams : Nat) (heap : Heap Block) :
    Option (MemRoute × Nat) × List (Option Nat) × Heap Block :=
  match findRouteLoopMem answers method path maxParams app.routes values heap with
  | (some found, values, heap) => (some found, values, heap)
  | (none, values, heap) =>
      if method = .head then findRouteLoopMem answers .get path maxParams app.routes values heap
      else (none, values, heap)

/-- What a handler reads in the slots. -/
def readSlot (heap : Heap Block) : Option Nat → ParamSlot
  | none => .null
  | some p =>
      match readText heap p with
      | some value => .live value
      | none => .freed

/-- The request the handler of `route` is given. -/
def routedRequestMem (buffer : Bytes) (parsed : ParsedRequest) (route : MemRoute) (paramCount : Nat)
    (slots : List ParamSlot) : MnetRequest :=
  { method := parsed.method
    path := parsed.pathOnly
    body := some (parsed.body.mem buffer)
    bodyLength := parsed.bodyLength
    queryString := some (parsed.queryString.getD [])
    pathParamNames := route.paramNames
    pathParamValues := slots
    pathParamCount := paramCount
    query := parsed.extras.query
    headers := parsed.extras.headers
    cookies := parsed.extras.cookies
    extras := { parsed.extras with
      paramNames := route.paramNames, paramCount := paramCount, paramValues := slots } }

/-- The reply of `dispatch`, with the route it has found. -/
def replyMem (answers : Nat → Answer) (app : MemApp) (world : World) (buffer : Bytes)
    (parsed : ParsedRequest) (route : Option (MemRoute × Nat)) (values : List (Option Nat))
    (heap : Heap Block) : MemReply × Heap Block :=
  if app.routes = [] then
    if parsed.pathOnly = ascii "/" ∨ parsed.pathOnly = ascii "/index.html" then
      welcomeResponseMem answers app.settings world heap
    else mnetStatusMem answers 404 (ascii "not found") heap
  else
    match route with
    | none =>
        match app.notFoundHandler with
        | some handler => handler world (notFoundRequest parsed) heap
        | none => ({}, heap)
    | some (route, n) =>
        let req := routedRequestMem buffer parsed route n (values.map (readSlot heap))
        match app.middleware with
        | some middleware => middleware world req (route.handler world) heap
        | none => route.handler world req heap

/-- `dispatch`: the reply, the array of captures and how many of them count. -/
def dispatchMem (answers : Nat → Answer) (app : MemApp) (world : World) (buffer : Bytes)
    (out : ParsedMem) (heap : Heap Block) :
    MemReply × List (Option Nat) × Nat × Heap Block :=
  let parsed := (readParsed heap out).getD out.request
  let params := List.replicate MNET_MAX_PARAMS none
  let (route, values, heap) :=
    match parsed.methodEnum with
    | some m => mnetFindRouteMem answers app m parsed.pathOnly params MNET_MAX_PARAMS heap
    | none => (none, params, heap)
  let (reply, heap) := replyMem answers app world buffer parsed route values heap
  (reply, values, (route.map Prod.snd).getD 0, heap)

-- ============================================================================
-- A pass
-- ============================================================================

/-- `send_response`: head and body go out from a block of their own. -/
def sendResponseMem (answers : Nat → Answer) (conn : Conn) (r : MnetResponse)
    (headOnly keepAlive : Bool) (heap : Heap Block) : Conn × Heap Block :=
  if !r.writable keepAlive then (conn, heap)
  else if !headOnly && !r.chunked && r.hasBody then
    let header := responseHead r keepAlive
    match malloc answers heap (header.length + r.bodyLength) (.text (header ++ r.bodyBytes)) with
    | (none, heap) => (conn, heap)
    | (some combined, heap) =>
        (mnetSend conn (header ++ r.bodyBytes), heap.release combined)
  else (sendResponse conn r headOnly keepAlive, heap)

/-- What follows `parse_request`. -/
def serveParsedMem (answers : Nat → Answer) (app : MemApp) (conn : Conn) (buffer : Bytes)
    (out : ParsedMem) (heap : Heap Block) : Conn × Heap Block :=
  match dispatchMem answers app conn.worldNow buffer out heap with
  | (reply, values, paramCount, heap) =>
      let conn := conn.emit (.dispatched out.request reply.response)
      let (conn, heap) :=
        if reply.response.status = 0 ∧ app.notFoundHandler.isNone then
          (sendNotFound conn out.request.keepAlive, heap)
        else
          let (conn, heap) := sendResponseMem answers conn reply.response
            (out.request.methodEnum == some .head) out.request.keepAlive heap
          (conn, mnetResponseFree heap reply)
      (conn, freeParsed (mnetMatchParamsFreeMem heap values paramCount) out)

def serveRequestMem (answers : Nat → Answer) (app : MemApp) (conn : Conn) (timeoutMs : Int)
    (buffer : Bytes) (heap : Heap Block) : Option Bytes × Conn × Heap Block :=
  match parseRequestMem answers heap conn buffer buffer.length app.settings.bodyLimit timeoutMs with
  | (code, out, conn, heap) =>
      let conn := conn.emit (.parsed conn.start buffer code out.request)
      if code ≠ .ok then (none, rejectRequest conn code, freeParsed heap out)
      else
        let next := nextBuffer buffer
        let (conn, heap) := serveParsedMem answers app conn buffer out heap
        (if out.request.keepAlive then some next else none,
          conn.advance (buffer.length - next.length), heap)

/-- A connection between two passes: the bytes left over, none at its end. -/
structure Pass where
  keepAlive : Bool := false
  buffer : Option Bytes := some []
  conn : Conn
  heap : Heap Block

/-- One pass of the loop of `mnet_handle_client`. -/
def clientStepMem (answers : Nat → Answer) (app : MemApp) (s : Pass) : Pass :=
  match s.buffer with
  | none => s
  | some buffer =>
      match readRequest app.settings s.keepAlive buffer s.conn with
      | (false, buffer, conn) =>
          let conn :=
            if buffer.length ≥ MNET_REQUEST_BUFFER_SIZE - 1 then
              sendSimpleError conn 431 (ascii "Request Header Fields Too Large")
                (ascii "Request headers exceed the maximum size.")
            else conn
          { s with buffer := none, conn := conn }
      | (true, buffer, conn) =>
          match serveRequestMem answers app conn (requestTimeout app.settings s.keepAlive) buffer
              s.heap with
          | (next, conn, heap) => { keepAlive := true, buffer := next, conn := conn, heap := heap }

def clientStepsMem (answers : Nat → Answer) (app : MemApp) (s : Pass) : Nat → Pass
  | 0 => s
  | n + 1 => clientStepMem answers app (clientStepsMem answers app s n)

-- ============================================================================
-- Captures
-- ============================================================================

/-- The elements of a pattern that can capture. -/
def captureCount (pattern : Bytes) : Nat := pattern.countP fun c => c == STAR || c == COLON

/-- The first `n` slots are blocks of this attempt. -/
structure Captured (h heap : Heap Block) (values : List (Option Nat)) (n maxValues : Nat)
    (ps own : List Nat) : Prop where
  owns : Owns h heap (ps ++ own)
  slots : values.take n = ps.map some
  length_eq : values.length = maxValues
  le : n ≤ maxValues

/-- What an attempt can come to. -/
inductive Attempt (h : Heap Block) (maxValues : Nat) (own : List Nat) :
    Option Nat × List (Option Nat) × Heap Block → Prop
  | failed {heap : Heap Block} {values : List (Option Nat)} (ho : Owns h heap own)
      (hlen : values.length = maxValues) : Attempt h maxValues own (none, values, heap)
  | found {heap : Heap Block} {values : List (Option Nat)} {n : Nat} {ps : List Nat}
      (hc : Captured h heap values n maxValues ps own) :
      Attempt h maxValues own (some n, values, heap)

section Captures

variable {answers : Nat → Answer} {h heap : Heap Block} {values : List (Option Nat)}
  {n maxValues : Nat} {ps own : List Nat}

theorem foldl_free_map_some (heap : Heap Block) (ps : List Nat) :
    (ps.map some).foldl Heap.free heap = heap.releaseAll ps := by
  induction ps generalizing heap with
  | nil => rfl
  | cons p ps ih => exact ih (heap.release p)

theorem Captured.freed (hc : Captured h heap values n maxValues ps own) :
    Owns h (mnetMatchParamsFreeMem heap values n) own := by
  rw [mnetMatchParamsFreeMem, hc.slots, foldl_free_map_some]
  exact hc.owns.releaseAll

theorem Captured.failed (hc : Captured h heap values n maxValues ps own) :
    Attempt h maxValues own (none, values, mnetMatchParamsFreeMem heap values n) :=
  .failed hc.freed hc.length_eq

/-- A value more, or the end of the attempt. -/
theorem Captured.store (answers : Nat → Answer)
    (hc : Captured h heap values n maxValues ps own) (hroom : n < maxValues)
    (text value : Bytes) :
    (∃ values' heap', storeCapture answers maxValues text value n values heap =
        (false, values', heap') ∧
        Attempt h maxValues own (none, values', mnetMatchParamsFreeMem heap' values' (n + 1))) ∨
      ∃ values' heap' ps', storeCapture answers maxValues text value n values heap =
        (true, values', heap') ∧ Captured h heap' values' (n + 1) maxValues ps' own := by
  have htake : ∀ v : Option Nat, (values.set n v).take (n + 1) = ps.map some ++ [v] := by
    intro v
    have hlt : n < values.length := by rw [hc.length_eq]; exact hroom
    rw [List.take_add_one, List.take_set_of_le (Nat.le_refl n), hc.slots]
    simp [hlt]
  obtain ⟨q, heap', heq, ho, -, -⟩ := hc.owns.malloc answers (text.length + 1) (.text value)
  rw [storeCapture, if_pos hroom]
  simp only [heq]
  cases q with
  | none =>
      refine .inl ⟨_, _, rfl, .failed ?_ (by rw [List.length_set, hc.length_eq])⟩
      rw [mnetMatchParamsFreeMem, htake, List.foldl_append, foldl_free_map_some]
      exact Owns.releaseAll ho
  | some q =>
      refine .inr ⟨_, _, ps ++ [q], rfl, ?_, ?_, ?_, hroom⟩
      · refine ho.perm ?_
        rw [List.append_assoc]
        show (q :: (ps ++ own)).Perm (ps ++ q :: own)
        exact List.perm_middle.symm
      · rw [htake, List.map_append]
        rfl
      · rw [List.length_set, hc.length_eq]

theorem captureCount_cons (p : Byte) (pattern : Bytes) :
    captureCount (p :: pattern) =
      captureCount pattern + if p = STAR ∨ p = COLON then 1 else 0 := by
  rw [captureCount, captureCount, List.countP_cons]
  simp

theorem captureCount_skip (pattern : Bytes) :
    captureCount (skipSlash (pattern.dropWhile (· ≠ SLASH))) ≤ captureCount pattern := by
  have hdrop : captureCount (pattern.dropWhile (· ≠ SLASH)) ≤ captureCount pattern :=
    (List.dropWhile_sublist _).countP_le
  cases hrest : pattern.dropWhile (· ≠ SLASH) with
  | nil =>
      rw [hrest] at hdrop
      exact hdrop
  | cons b rest =>
      rw [hrest, captureCount_cons] at hdrop
      rw [skipSlash]
      split
      · omega
      · rw [captureCount_cons]
        exact hdrop

/-- An attempt leaves its captures, or nothing. -/
theorem routeMatchLoopMem_attempt {pattern path : Bytes}
    (hc : Captured h heap values n maxValues ps own)
    (hroom : n + captureCount pattern ≤ maxValues) :
    Attempt h maxValues own (routeMatchLoopMem answers maxValues pattern path n values heap) := by
  fun_induction routeMatchLoopMem answers maxValues pattern path n values heap generalizing ps with
  | case1 n values heap pattern r path values' heap' hstore =>
      rw [captureCount_cons, if_pos (.inl rfl)] at hroom
      obtain ⟨_, _, heq, hfailed⟩ | ⟨_, _, _, heq, -⟩ :=
        hc.store answers (by omega) (r :: path) (r :: path)
      · cases hstore.symm.trans heq
        exact hfailed
      · cases hstore.symm.trans heq
  | case2 n values heap pattern r path values' heap' hstore ih =>
      rw [captureCount_cons, if_pos (.inl rfl)] at hroom
      obtain ⟨_, _, heq, -⟩ | ⟨_, _, _, heq, hc'⟩ :=
        hc.store answers (by omega) (r :: path) (r :: path)
      · cases hstore.symm.trans heq
      · cases hstore.symm.trans heq
        exact ih hc' (by omega)
  | case3 n values heap pattern r path seg values' heap' hstore =>
      rw [captureCount_cons, if_pos (.inr rfl)] at hroom
      obtain ⟨_, _, heq, hfailed⟩ | ⟨_, _, _, heq, -⟩ :=
        hc.store answers (by omega) seg (decodeSegment seg [])
      · cases hstore.symm.trans heq
        exact hfailed
      · cases hstore.symm.trans heq
  | case4 n values heap pattern r path seg rest values' heap' hstore =>
      rename_i ih
      rw [captureCount_cons, if_pos (.inr rfl)] at hroom
      have hskip := captureCount_skip pattern
      obtain ⟨_, _, heq, -⟩ | ⟨_, _, _, heq, hc'⟩ :=
        hc.store answers (by omega) seg (decodeSegment seg [])
      · cases hstore.symm.trans heq
      · cases hstore.symm.trans heq
        exact ih hc' (by omega)
  | case5 => exact hc.failed
  | case6 n values heap p pattern r path hstar hcolon _ ih =>
      rw [captureCount_cons] at hroom
      exact ih hc (by omega)
  | case7 => exact .found hc
  | case8 => exact hc.failed

theorem mnetRouteMatchMem_attempt (answers : Nat → Answer) {pattern : Bytes} (requestPath : Bytes)
    (ho : Owns h heap own)
    (hlen : values.length = maxValues) (hroom : captureCount pattern ≤ maxValues) :
    Attempt h maxValues own
      (mnetRouteMatchMem answers pattern requestPath values maxValues heap) := by
  rw [mnetRouteMatchMem]
  split
  · exact .failed ho hlen
  · have hc : Captured h heap values 0 maxValues [] own := by
      refine ⟨ho, ?_, hlen, Nat.zero_le _⟩
      rw [List.take_zero]
      rfl
    exact routeMatchLoopMem_attempt hc (by omega)

/-- What a search among the routes leaves. -/
inductive RouteSearch (h : Heap Block) (own : List Nat) (routes : List MemRoute) :
    Option (MemRoute × Nat) × List (Option Nat) × Heap Block → Prop
  | failed {heap : Heap Block} {values : List (Option Nat)} (ho : Owns h heap own)
      (hlen : values.length = MNET_MAX_PARAMS) : RouteSearch h own routes (none, values, heap)
  | found {heap : Heap Block} {values : List (Option Nat)} {n : Nat} {ps : List Nat} {r : MemRoute}
      (hr : r ∈ routes) (hc : Captured h heap values n MNET_MAX_PARAMS ps own) :
      RouteSearch h own routes (some (r, n), values, heap)

theorem RouteSearch.cons {routes : List MemRoute}
    {result : Option (MemRoute × Nat) × List (Option Nat) × Heap Block}
    (hs : RouteSearch h own routes result) (r : MemRoute) :
    RouteSearch h own (r :: routes) result := by
  cases hs with
  | failed ho hlen => exact .failed ho hlen
  | found hr hc => exact .found (List.mem_cons_of_mem r hr) hc

theorem findRouteLoopMem_search (answers : Nat → Answer) (method : HttpMethod) (path : Bytes)
    {routes : List MemRoute}
    (hroom : ∀ r ∈ routes, captureCount r.path ≤ MNET_MAX_PARAMS) (ho : Owns h heap own)
    (hlen : values.length = MNET_MAX_PARAMS) :
    RouteSearch h own routes
      (findRouteLoopMem answers method path MNET_MAX_PARAMS routes values heap) := by
  induction routes generalizing values heap with
  | nil => exact .failed ho hlen
  | cons r routes ih =>
      obtain ⟨hr, hroom⟩ := List.forall_mem_cons.mp hroom
      rw [findRouteLoopMem]
      split
      · exact (ih hroom ho hlen).cons r
      · have hattempt := mnetRouteMatchMem_attempt answers path ho hlen hr
        generalize mnetRouteMatchMem answers r.path path values MNET_MAX_PARAMS heap = result
          at hattempt ⊢
        cases hattempt with
        | failed ho hlen => exact (ih hroom ho hlen).cons r
        | found hc => exact .found (List.mem_cons_self ..) hc

theorem mnetFindRouteMem_search {app : MemApp} {method : HttpMethod} {path : Bytes}
    (hroom : ∀ r ∈ app.routes, captureCount r.path ≤ MNET_MAX_PARAMS) (ho : Owns h heap own)
    (hlen : values.length = MNET_MAX_PARAMS) :
    RouteSearch h own app.routes
      (mnetFindRouteMem answers app method path values MNET_MAX_PARAMS heap) := by
  have hsearch := findRouteLoopMem_search answers method path hroom ho hlen
  rw [mnetFindRouteMem]
  generalize findRouteLoopMem answers method path MNET_MAX_PARAMS app.routes values heap = result
    at hsearch ⊢
  cases hsearch with
  | found hr hc => exact .found hr hc
  | failed ho hlen =>
      dsimp only
      split
      · exact findRouteLoopMem_search answers .get path hroom ho hlen
      · exact .failed ho hlen

end Captures

-- ============================================================================
-- Replies
-- ============================================================================

/-- What a handler that was given `heap` may come back with: it owes nothing but
    the body, which is not its own where it comes in chunks; and where a response
    of status 0 is not sent, that has none. -/
structure Settled (unsent : Bool) (heap : Heap Block) (result : MemReply × Heap Block) : Prop where
  owns : Owns heap result.2 result.1.body.toList
  chunked : result.1.response.chunked = true → result.1.body = none
  zero : unsent = true → result.1.response.status = 0 → result.1.body = none

def Tidy (unsent : Bool) (handler : MemHandler) : Prop :=
  ∀ world req heap, Settled unsent heap (handler world req heap)

/-- Every handler of the application is tidy, and middleware is if what it calls
    is. -/
structure TidyApp (app : MemApp) : Prop where
  routes : ∀ r ∈ app.routes, Tidy app.notFoundHandler.isNone r.handler
  notFound : ∀ handler, app.notFoundHandler = some handler → Tidy false handler
  middleware : ∀ middleware, app.middleware = some middleware → ∀ world req next,
    (∀ req heap, Settled app.notFoundHandler.isNone heap (next req heap)) →
      ∀ heap, Settled app.notFoundHandler.isNone heap (middleware world req next heap)

section Replies

variable {answers : Nat → Answer} {unsent : Bool} {h heap : Heap Block} {own : List Nat}

theorem Settled.nothing (response : MnetResponse) (ho : Owns h heap []) :
    Settled unsent h ({ response }, heap) :=
  ⟨ho, fun _ => rfl, fun _ _ => rfl⟩

theorem mnetStatusMem_settled {status : Int} {body : Bytes} (hstatus : status ≠ 0)
    (ho : Owns h heap []) : Settled unsent h (mnetStatusMem answers status body heap) := by
  obtain ⟨copy, heap', heq, ho', -, -⟩ := ho.malloc answers (body.length + 1) (.text body)
  simp only [mnetStatusMem, strdup, heq]
  cases copy with
  | none => exact .nothing _ ho'
  | some copy =>
      exact ⟨ho', fun hchunked => absurd hchunked Bool.false_ne_true,
        fun _ hzero => absurd hzero hstatus⟩

theorem copyResponseMem_settled (contentType : Bytes) (text : Option Bytes) (heap : Heap Block) :
    Settled unsent heap (copyResponseMem answers contentType text heap) := by
  cases text with
  | none => exact .nothing _ (.refl heap)
  | some text =>
      obtain ⟨copy, heap', heq, ho, -, -⟩ :=
        (Owns.refl heap).malloc answers (text.length + 1) (.text text)
      simp only [copyResponseMem, strdup, heq]
      cases copy with
      | none => exact .nothing _ ho
      | some copy =>
          refine ⟨ho, fun hchunked => absurd hchunked Bool.false_ne_true,
            fun _ hzero => absurd hzero ?_⟩
          show (200 : Int) ≠ 0
          decide

theorem mnetChunkedMem_settled (status : Int) (contentType body : Option Bytes) (bodyLength : Nat)
    (heap : Heap Block) :
    Settled unsent heap (mnetChunkedMem status contentType body bodyLength heap) :=
  .nothing _ (.refl heap)

theorem pageMem_settled {page : MnetResponse} (hstatus : page.status ≠ 0)
    (hchunked : page.chunked = false) (totalLen : Nat) (heap : Heap Block) :
    Settled unsent heap (pageMem answers totalLen page heap) := by
  obtain ⟨body, heap', heq, ho, -, -⟩ :=
    (Owns.refl heap).malloc answers totalLen (.text (page.body.getD []))
  simp only [pageMem, heq]
  cases body with
  | none => exact mnetStatusMem_settled (by decide) ho
  | some body =>
      refine ⟨ho, fun htrue => absurd htrue ?_, fun _ hzero => absurd hzero hstatus⟩
      rw [hchunked]
      exact Bool.false_ne_true

theorem welcomeResponseMem_settled (app : MnetApp) (world : World) (heap : Heap Block) :
    Settled unsent heap (welcomeResponseMem answers app world heap) :=
  pageMem_settled (by simp [welcomeResponse]) rfl _ heap

theorem mnetRealpathMem_cases (answers : Nat → Answer) (fs : FileSystem) (path : Bytes)
    (ho : Owns h heap own) :
    (∃ heap', mnetRealpathMem answers fs path heap = (none, heap') ∧ Owns h heap' own) ∨
      ∃ real p heap', mnetRealpathMem answers fs path heap = (some (real, p), heap') ∧
        Owns h heap' (p :: own) := by
  rw [mnetRealpathMem]
  cases fs.realpath path with
  | none => exact .inl ⟨heap, rfl, ho⟩
  | some real =>
      obtain ⟨copy, heap', heq, ho', -, -⟩ := ho.malloc answers (real.length + 1) (.text real)
      simp only [strdup, heq]
      cases copy with
      | none => exact .inl ⟨heap', rfl, ho'⟩
      | some p => exact .inr ⟨real, p, heap', rfl, ho'⟩

theorem serveFileMem_settled (fs : FileSystem) (fsPath real : Bytes) {p : Nat}
    (ho : Owns h heap [p]) : Settled unsent h (serveFileMem answers fs fsPath real p heap) := by
  rw [serveFileMem]
  cases fs.fopen real with
  | none => exact mnetStatusMem_settled (by decide) ho.release
  | some file =>
      have hopen := ho.alloc (.text file.contents)
      dsimp only
      split
      · exact mnetStatusMem_settled (by decide) hopen.release.release
      · split
        · exact mnetStatusMem_settled (by decide) hopen.release.release
        · obtain ⟨data, heap', heq, ho', -, -⟩ := hopen.malloc answers (file.tell.toNat + 1)
            (.text (file.contents.take file.tell.toNat))
          simp only [heq]
          cases data with
          | none => exact mnetStatusMem_settled (by decide) ho'.release.release
          | some q =>
              have hlast : Owns h heap' (heap.next :: p :: [q]) :=
                ho'.perm (List.perm_append_singleton q [heap.next, p]).symm
              exact ⟨hlast.release.release, nofun, fun _ hzero => absurd hzero (by simp)⟩

/-- Files and paths are closed and released however the handler ends. -/
theorem staticHandlerMem_settled (fs : FileSystem) (cfg : Option StaticConfig) (req : MnetRequest)
    (heap : Heap Block) : Settled unsent heap (staticHandlerMem answers fs cfg req heap) := by
  have hrefl := Owns.refl heap
  unfold staticHandlerMem
  cases cfg with
  | none => exact mnetStatusMem_settled (by decide) hrefl
  | some cfg =>
  dsimp only
  cases requestedPath cfg req.path with
  | none => exact mnetStatusMem_settled (by decide) hrefl
  | some fsPath =>
  dsimp only
  obtain ⟨heap₁, heq, ho₁⟩ | ⟨real, p, heap₁, heq, ho₁⟩ :=
    mnetRealpathMem_cases answers fs fsPath hrefl
  · rw [heq]
    exact mnetStatusMem_settled (by decide) ho₁
  rw [heq]
  dsimp only
  obtain ⟨heap₂, heq', ho₂⟩ | ⟨baseReal, q, heap₂, heq', ho₂⟩ :=
    mnetRealpathMem_cases answers fs cfg.fsPath ho₁
  · rw [heq']
    exact mnetStatusMem_settled (by decide) ho₂.release
  rw [heq']
  dsimp only
  split
  · have hboth : Owns heap heap₂ (p :: [q]) := ho₂.perm (List.Perm.swap p q [])
    exact mnetStatusMem_settled (by decide) hboth.release.release
  · exact serveFileMem_settled fs fsPath real ho₂.release

/-- What is left of the reply once it was sent, or passed over. -/
theorem Settled.freed {result : MemReply × Heap Block} (hs : Settled unsent h result) :
    Owns h (mnetResponseFree result.2 result.1) [] := by
  have ho := hs.owns
  rw [mnetResponseFree]
  split
  · next hchunked =>
    rw [hs.chunked hchunked] at ho
    exact ho
  · rw [← List.append_nil result.1.body.toList] at ho
    exact ho.free

end Replies

-- ============================================================================
-- A pass
-- ============================================================================

section Passes

variable {answers : Nat → Answer} {app : MemApp} {heap : Heap Block}

theorem replyMem_settled (answers : Nat → Answer) (htidy : TidyApp app) (world : World)
    (buffer : Bytes)
    (parsed : ParsedRequest) {route : Option (MemRoute × Nat)}
    (hroute : ∀ r n, route = some (r, n) → r ∈ app.routes) (values : List (Option Nat))
    (heap : Heap Block) :
    Settled app.notFoundHandler.isNone heap
      (replyMem answers app world buffer parsed route values heap) := by
  unfold replyMem
  split
  · split
    · exact welcomeResponseMem_settled app.settings world heap
    · exact mnetStatusMem_settled (by decide) (.refl heap)
  · cases route with
    | none =>
        cases hnotFound : app.notFoundHandler with
        | none => exact .nothing _ (.refl heap)
        | some handler => exact htidy.notFound handler hnotFound world _ heap
    | some found =>
        obtain ⟨route, n⟩ := found
        have htidyRoute := htidy.routes route (hroute route n rfl) world
        cases hmiddleware : app.middleware with
        | none => exact htidyRoute _ heap
        | some middleware =>
            exact htidy.middleware middleware hmiddleware world _ _ htidyRoute heap

/-- What `dispatch` leaves: the captures that count, and the reply. -/
theorem dispatchMem_settled (answers : Nat → Answer)
    (hroom : ∀ r ∈ app.routes, captureCount r.path ≤ MNET_MAX_PARAMS)
    (htidy : TidyApp app) (world : World) (buffer : Bytes) (out : ParsedMem) (heap : Heap Block) :
    ∃ reply values n heap₁ heap₂ ps,
      dispatchMem answers app world buffer out heap = (reply, values, n, heap₂) ∧
      Captured heap heap₁ values n MNET_MAX_PARAMS ps [] ∧
      Settled app.notFoundHandler.isNone heap₁ (reply, heap₂) := by
  unfold dispatchMem
  generalize (readParsed heap out).getD out.request = parsed
  have hsearch : RouteSearch heap [] app.routes (match parsed.methodEnum with
      | some m => mnetFindRouteMem answers app m parsed.pathOnly
          (List.replicate MNET_MAX_PARAMS none) MNET_MAX_PARAMS heap
      | none => (none, List.replicate MNET_MAX_PARAMS none, heap)) := by
    have hlen : (List.replicate MNET_MAX_PARAMS (none : Option Nat)).length = MNET_MAX_PARAMS :=
      List.length_replicate
    cases parsed.methodEnum with
    | none => exact .failed (.refl heap) hlen
    | some m => exact mnetFindRouteMem_search hroom (.refl heap) hlen
  dsimp only
  generalize (match parsed.methodEnum with
      | some m => mnetFindRouteMem answers app m parsed.pathOnly
          (List.replicate MNET_MAX_PARAMS none) MNET_MAX_PARAMS heap
      | none => (none, List.replicate MNET_MAX_PARAMS none, heap)) = result at hsearch ⊢
  obtain ⟨route, values, heap₁⟩ := result
  obtain ⟨ps, hcaptured, hroute⟩ : ∃ ps,
      Captured heap heap₁ values ((route.map Prod.snd).getD 0) MNET_MAX_PARAMS ps [] ∧
        ∀ r n, route = some (r, n) → r ∈ app.routes := by
    cases hsearch with
    | failed ho hlen => exact ⟨[], ⟨ho, by simp, hlen, Nat.zero_le _⟩, nofun⟩
    | found hr hc =>
        refine ⟨_, hc, ?_⟩
        rintro _ _ ⟨⟩
        exact hr
  have hsettled := replyMem_settled answers htidy world buffer parsed hroute values heap₁
  exact ⟨_, values, _, heap₁, _, ps, rfl, hcaptured, hsettled⟩

theorem sendResponseMem_owns (answers : Nat → Answer) (conn : Conn) (r : MnetResponse)
    (headOnly keepAlive : Bool)
    {h : Heap Block} {own : List Nat} (ho : Owns h heap own) :
    ∃ conn' heap', sendResponseMem answers conn r headOnly keepAlive heap = (conn', heap') ∧
      Owns h heap' own := by
  rw [sendResponseMem]
  split
  · exact ⟨_, _, rfl, ho⟩
  · split
    · obtain ⟨combined, heap', heq, ho', -, -⟩ := ho.malloc answers
        ((responseHead r keepAlive).length + r.bodyLength)
        (.text (responseHead r keepAlive ++ r.bodyBytes))
      simp only [heq]
      cases combined with
      | none => exact ⟨_, _, rfl, ho'⟩
      | some combined => exact ⟨_, _, rfl, ho'.release⟩
    · exact ⟨_, _, rfl, ho⟩

/-- What was there of a request when it was dispatched is there behind it. -/
theorem Leaves.later {h heap' : Heap Block} {out : ParsedMem} {extras : RequestExtras}
    {query headers cookies : List Nat} (hl : Leaves h heap out extras query headers cookies)
    (ho : Owns heap heap' []) : Leaves h heap' out extras query headers cookies := by
  have hold : ∀ p ∈ query ++ (headers ++ (cookies ++ out.body.toList)),
      heap'.blocks p = heap.blocks p := fun p hp => ho.frame p (hl.owns.lt_next hp)
  constructor
  · exact hl.owns.trans ho
  · exact hl.query.congr fun p hp => hold p (by simp [hp])
  · exact hl.headers.congr fun p hp => hold p (by simp [hp])
  · exact hl.cookies.congr fun p hp => hold p (by simp [hp])
  · exact hl.bodyHeap
  · intro p hp
    obtain ⟨offset, block, hbody, hblock⟩ := hl.body p hp
    exact ⟨offset, block, hbody, (hold p (by simp [Option.mem_toList.mpr hp])).trans hblock⟩

/-- Behind a request that was answered all of it is gone: the reply, the
    captures, and the request. -/
theorem serveParsedMem_owns (hroom : ∀ r ∈ app.routes, captureCount r.path ≤ MNET_MAX_PARAMS)
    (htidy : TidyApp app) {conn : Conn} {buffer : Bytes} {h : Heap Block} {out : ParsedMem}
    {extras : RequestExtras} {query headers cookies : List Nat}
    (hl : Leaves h heap out extras query headers cookies) :
    Owns h (serveParsedMem answers app conn buffer out heap).2 [] := by
  obtain ⟨reply, values, n, heap₁, heap₂, ps, heq, hcaptured, hsettled⟩ :=
    dispatchMem_settled answers hroom htidy conn.worldNow buffer out heap
  simp only [serveParsedMem, heq]
  -- the reply goes first, sent or not
  obtain ⟨conn', heap₃, hreply, ho₃⟩ : ∃ conn' heap₃,
      (if reply.response.status = 0 ∧ app.notFoundHandler.isNone then
          (sendNotFound (conn.emit (.dispatched out.request reply.response)) out.request.keepAlive,
            heap₂)
        else
          ((sendResponseMem answers (conn.emit (.dispatched out.request reply.response))
              reply.response (out.request.methodEnum == some .head) out.request.keepAlive heap₂).1,
            mnetResponseFree (sendResponseMem answers
              (conn.emit (.dispatched out.request reply.response)) reply.response
              (out.request.methodEnum == some .head) out.request.keepAlive heap₂).2 reply)) =
        (conn', heap₃) ∧ Owns heap₁ heap₃ [] := by
    split
    · next hzero =>
      have ho := hsettled.owns
      rw [hsettled.zero hzero.2 hzero.1] at ho
      exact ⟨_, _, rfl, ho⟩
    · obtain ⟨conn', heap', hsend, ho⟩ := sendResponseMem_owns answers
        (conn.emit (.dispatched out.request reply.response)) reply.response
        (out.request.methodEnum == some .head) out.request.keepAlive hsettled.owns
      have hsent : Settled app.notFoundHandler.isNone heap₁ (reply, heap') :=
        ⟨ho, hsettled.chunked, hsettled.zero⟩
      rw [hsend]
      exact ⟨_, _, rfl, hsent.freed⟩
  rw [hreply]
  have hcaptured₃ : Captured heap heap₃ values n MNET_MAX_PARAMS ps [] :=
    ⟨hcaptured.owns.trans ho₃, hcaptured.slots, hcaptured.length_eq, hcaptured.le⟩
  exact (hl.later hcaptured₃.freed).freed

theorem serveRequestMem_owns (hroom : ∀ r ∈ app.routes, captureCount r.path ≤ MNET_MAX_PARAMS)
    (htidy : TidyApp app) (conn : Conn) (timeoutMs : Int) (buffer : Bytes) (heap : Heap Block) :
    Owns heap (serveRequestMem answers app conn timeoutMs buffer heap).2.2 [] := by
  obtain ⟨limit, henough⟩ := exists_enough buffer app.settings.bodyLimit
  have hparsed := parseRequestMem_parsed answers heap conn buffer.length timeoutMs henough
  rw [serveRequestMem]
  generalize parseRequestMem answers heap conn buffer buffer.length app.settings.bodyLimit
    timeoutMs = result at hparsed ⊢
  obtain ⟨code, out, conn', heap'⟩ := result
  obtain ⟨extras, query, headers, cookies, hleaves, -⟩ := hparsed
  dsimp only at hleaves ⊢
  split
  · exact hleaves.freed
  · exact serveParsedMem_owns hroom htidy hleaves

theorem clientStepMem_owns (hroom : ∀ r ∈ app.routes, captureCount r.path ≤ MNET_MAX_PARAMS)
    (htidy : TidyApp app) (s : Pass) : Owns s.heap (clientStepMem answers app s).heap [] := by
  rw [clientStepMem]
  split
  · exact .refl s.heap
  · next buffer _ =>
    generalize readRequest app.settings s.keepAlive buffer s.conn = result
    obtain ⟨ok, buffer', conn'⟩ := result
    cases ok with
    | false => exact .refl s.heap
    | true => exact serveRequestMem_owns hroom htidy conn' _ buffer' s.heap

end Passes

/-- On a connection of any number of requests, whatever arrives on it and
    whichever requests for memory are refused, nothing is left of a pass when the
    next one begins, nor at the end: every block given meanwhile was released,
    exactly once. -/
theorem clientStepsMem_balanced (answers : Nat → Answer) {app : MemApp}
    (hroom : ∀ r ∈ app.routes, captureCount r.path ≤ MNET_MAX_PARAMS) (htidy : TidyApp app)
    (s : Pass) (n : Nat) : Balanced s.heap (clientStepsMem answers app s n).heap := by
  have ho : Owns s.heap (clientStepsMem answers app s n).heap [] := by
    induction n with
    | zero => exact .refl s.heap
    | succ n ih => exact ih.trans (clientStepMem_owns hroom htidy _)
  exact ho.balanced

/-- An application that repeats the path of a request. -/
def echoApp (answers : Nat → Answer) : MemApp where
  routes := [{ method := .get, path := ascii "/:name",
               handler := fun _ req =>
                 copyResponseMem answers (ascii "text/plain") (some req.path) }]

theorem echoApp_tidy (answers : Nat → Answer) : TidyApp (echoApp answers) where
  routes r hr := by
    obtain rfl := List.mem_singleton.mp hr
    exact fun _ req heap => copyResponseMem_settled (ascii "text/plain") (some req.path) heap
  notFound := nofun
  middleware := nofun

theorem echoApp_room (answers : Nat → Answer) :
    ∀ r ∈ (echoApp answers).routes, captureCount r.path ≤ MNET_MAX_PARAMS := by
  intro r hr
  obtain rfl := List.mem_singleton.mp hr
  show captureCount (ascii "/:name") ≤ MNET_MAX_PARAMS
  decide

/-- One request for memory is refused, among those for the query. -/
def echoAnswers (n : Nat) : Answer := if n = 12 then .refused else .moved

def echoPass : Pass where
  conn :=
    .opened [.segment (ascii "GET /a?b=c HTTP/1.1\r\nCookie: d=e\r\n\r\n")] (fun _ => 0) fun _ => {}
  heap := Heap.empty

theorem clientStepsMem_balanced_echo :
    Balanced echoPass.heap (clientStepsMem echoAnswers (echoApp echoAnswers) echoPass 2).heap :=
  clientStepsMem_balanced echoAnswers (echoApp_room echoAnswers) (echoApp_tidy echoAnswers)
    echoPass 2

end Mnet
