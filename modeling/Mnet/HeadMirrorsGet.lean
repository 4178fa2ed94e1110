/-
  Mnet.HeadMirrorsGet

  The answer to a HEAD request against the answer to the same request as GET,
  for applications without HEAD routes whose code does not look at the method.

  Route lookup falls back to the GET routes, so both methods dispatch to one
  response, and `send_response` leaves the body out for HEAD.  The writer of
  the 404 page does not know about HEAD: where it is used, the page follows.
-/

import Mnet.OneResponse
import Mnet.Lines

namespace Mnet

-- ============================================================================
-- The two answers
-- ============================================================================

def Event.sentBytes : Event → Bytes
  | .send bytes => bytes
  | _ => []

/-- The bytes a log puts on the wire. -/
def wire (log : List Event) : Bytes := log.flatMap Event.sentBytes

/-- The response head at the start of what was sent: up to the first blank
    line. -/
def headOf (sent : Bytes) : Bytes :=
  match Search.find crlfcrlf sent with
  | some sep => sent.take (sep + 4)
  | none => sent

/-- The same request under another method. -/
def ParsedRequest.asMethod (parsed : ParsedRequest) (m : HttpMethod) : ParsedRequest :=
  { parsed with method := m.name, methodEnum := some m }

/-- The bytes sent in answer to a request `parse_request` accepted. -/
def answerBytes (app : MnetApp) (conn : Conn) (buffer : Bytes) (parsed : ParsedRequest) : Bytes :=
  wire ((serveParsed app conn buffer parsed).log.drop conn.log.length)

/-- A handler whose result does not depend on the method. -/
def MethodFree (handler : MnetRequest → MnetResponse) : Prop :=
  ∀ (req : MnetRequest) (method : Bytes), handler { req with method := method } = handler req

/-- No HEAD route is registered, and no code of the application looks at the
    method. -/
structure MnetApp.IgnoresMethod (app : MnetApp) : Prop where
  noHeadRoute : ∀ r ∈ app.routes, r.method ≠ .head
  handlers : ∀ r ∈ app.routes, ∀ world, MethodFree (r.handler world)
  notFound : ∀ handler ∈ app.notFoundHandler, ∀ world, MethodFree (handler world)
  middleware : ∀ middleware ∈ app.middleware, ∀ world next, MethodFree next →
    MethodFree fun req => middleware world req next

/-- The call of a route's handler, through the middleware if there is one. -/
def callRoute (app : MnetApp) (world : World) (route : MnetRoute) (req : MnetRequest) :
    MnetResponse :=
  match app.middleware with
  | some middleware => middleware world req (route.handler world)
  | none => route.handler world req

/-- The 404 page is not needed for the request as GET: there is a handler for
    not-found requests, or there are no routes, or a GET route matches and its
    response has a status. -/
def HandledAsGet (app : MnetApp) (world : World) (buffer : Bytes) (parsed : ParsedRequest) :
    Prop :=
  app.notFoundHandler.isSome ∨ app.routes = [] ∨
    ∃ route n values,
      findRouteLoop .get parsed.pathOnly MNET_MAX_PARAMS app.routes
        (List.replicate MNET_MAX_PARAMS .null) = (some (route, n), values) ∧
      (callRoute app world route
        (routedRequest buffer (parsed.asMethod .get) route n values)).status ≠ 0

-- ============================================================================
-- One response for both methods
-- ============================================================================

theorem findRouteLoop_of_no_method {method : HttpMethod} {path : Bytes} {maxParams : Nat}
    {routes : List MnetRoute} (h : ∀ r ∈ routes, r.method ≠ method) (values : List ParamSlot) :
    findRouteLoop method path maxParams routes values = (none, values) := by
  induction routes with
  | nil => rfl
  | cons r routes ih =>
      rw [findRouteLoop, if_pos (h r (List.mem_cons_self ..))]
      exact ih fun r hr => h r (List.mem_cons_of_mem _ hr)

theorem findRouteLoop_mem {method : HttpMethod} {path : Bytes} {maxParams : Nat}
    {routes : List MnetRoute} {values values' : List ParamSlot} {route : MnetRoute} {n : Nat}
    (h : findRouteLoop method path maxParams routes values = (some (route, n), values')) :
    route ∈ routes := by
  induction routes generalizing values with
  | nil => simp [findRouteLoop] at h
  | cons r routes ih =>
      rw [findRouteLoop] at h
      split at h
      · exact List.mem_cons_of_mem _ (ih h)
      · dsimp only at h
        split at h
        · have hr : r = route := by simp at h; exact h.1.1
          exact hr ▸ List.mem_cons_self ..
        · exact List.mem_cons_of_mem _ (ih h)

/-- HEAD finds what GET finds. -/
theorem mnetFindRoute_head {app : MnetApp} (h : ∀ r ∈ app.routes, r.method ≠ .head)
    (path : Bytes) (values : List ParamSlot) (maxParams : Nat) :
    mnetFindRoute app .head path values maxParams =
      findRouteLoop .get path maxParams app.routes values := by
  rw [mnetFindRoute, findRouteLoop_of_no_method h]
  rfl

theorem mnetFindRoute_get (app : MnetApp) (path : Bytes) (values : List ParamSlot)
    (maxParams : Nat) :
    mnetFindRoute app .get path values maxParams =
      findRouteLoop .get path maxParams app.routes values := by
  rw [mnetFindRoute]
  split
  · next h => exact h.symm
  · next h => exact h.symm

theorem callRoute_methodFree {app : MnetApp} (h : app.IgnoresMethod) {route : MnetRoute}
    (hr : route ∈ app.routes) (world : World) : MethodFree (callRoute app world route) := by
  intro req method
  have hroute := h.handlers route hr world
  unfold callRoute
  cases hmw : app.middleware with
  | none => exact hroute req method
  | some middleware => exact h.middleware middleware hmw world _ hroute req method

/-- The response of an application that has routes, given what the lookup
    found. -/
def respondTo (app : MnetApp) (world : World) (buffer : Bytes) (parsed : ParsedRequest)
    (values : List ParamSlot) : Option (MnetRoute × Nat) → MnetResponse
  | none => (app.notFoundHandler.map (· world (notFoundRequest parsed))).getD {}
  | some (route, n) => callRoute app world route (routedRequest buffer parsed route n values)

/-- What `dispatch` answers, given what the lookup found. -/
theorem dispatch_eq {app : MnetApp} {world : World} {buffer : Bytes} (parsed : ParsedRequest)
    {m : HttpMethod} {params values : List ParamSlot} {maxParams : Nat}
    {found : Option (MnetRoute × Nat)} (hm : parsed.methodEnum = some m)
    (hfound : mnetFindRoute app m parsed.pathOnly params maxParams = (found, values)) :
    (dispatch app world buffer parsed params maxParams).1 =
      if app.routes = [] then
        if parsed.pathOnly = ascii "/" ∨ parsed.pathOnly = ascii "/index.html" then
          welcomeResponse app world
        else mnetError 404 (ascii "not found")
      else respondTo app world buffer parsed values found := by
  simp only [dispatch, hm, hfound]
  by_cases hnone : app.routes = []
  · rw [if_pos hnone, if_pos hnone]
    split <;> rfl
  · rw [if_neg hnone, if_neg hnone]
    cases found with
    | none =>
        simp only [respondTo]
        cases app.notFoundHandler <;> rfl
    | some found =>
        simp only [respondTo, callRoute]
        cases app.middleware <;> rfl

/-- Both methods dispatch to one response. -/
theorem dispatch_head_eq_get {app : MnetApp} (h : app.IgnoresMethod) (world : World)
    (buffer : Bytes) (parsed : ParsedRequest) (params : List ParamSlot) (maxParams : Nat) :
    (dispatch app world buffer (parsed.asMethod .head) params maxParams).1 =
      (dispatch app world buffer (parsed.asMethod .get) params maxParams).1 := by
  obtain ⟨found, values, hfound⟩ :
      ∃ found values, findRouteLoop .get parsed.pathOnly maxParams app.routes params =
        (found, values) := ⟨_, _, rfl⟩
  have hhead := (mnetFindRoute_head h.noHeadRoute parsed.pathOnly params maxParams).trans hfound
  have hget := (mnetFindRoute_get app parsed.pathOnly params maxParams).trans hfound
  rw [dispatch_eq (parsed.asMethod .head) rfl hhead,
    dispatch_eq (parsed.asMethod .get) rfl hget]
  have hpath : ∀ m, (parsed.asMethod m).pathOnly = parsed.pathOnly := fun _ => rfl
  rw [hpath, hpath]
  cases found with
  | none =>
      cases hnf : app.notFoundHandler with
      | none => simp only [respondTo, hnf, Option.map_none]
      | some handler =>
          have hfree := h.notFound handler hnf world
            (notFoundRequest (parsed.asMethod .get)) HttpMethod.head.name
          simp only [respondTo, hnf, Option.map_some, Option.getD_some]
          rw [← hfree]
          rfl
  | some found =>
      obtain ⟨route, n⟩ := found
      have hfree := callRoute_methodFree h (findRouteLoop_mem hfound) world
        (routedRequest buffer (parsed.asMethod .get) route n values) HttpMethod.head.name
      simp only [respondTo]
      rw [← hfree]
      rfl

/-- The 404 page is sent for a request as GET exactly when it is not handled. -/
theorem sendsNotFound_dispatch_iff (app : MnetApp) (world : World) (buffer : Bytes)
    (parsed : ParsedRequest) :
    sendsNotFound app (dispatch app world buffer (parsed.asMethod .get)
        (List.replicate MNET_MAX_PARAMS .null) MNET_MAX_PARAMS).1 = true ↔
      ¬ HandledAsGet app world buffer parsed := by
  obtain ⟨found, values, hfound⟩ :
      ∃ found values, findRouteLoop .get parsed.pathOnly MNET_MAX_PARAMS app.routes
        (List.replicate MNET_MAX_PARAMS .null) = (found, values) := ⟨_, _, rfl⟩
  have hget := (mnetFindRoute_get app parsed.pathOnly _ MNET_MAX_PARAMS).trans hfound
  rw [dispatch_eq (parsed.asMethod .get) rfl hget, HandledAsGet, hfound, sendsNotFound]
  cases hnf : app.notFoundHandler with
  | some handler => simp
  | none =>
      by_cases hroutes : app.routes = []
      · rw [if_pos hroutes]
        have hstatus : (if (parsed.asMethod .get).pathOnly = ascii "/" ∨
            (parsed.asMethod .get).pathOnly = ascii "/index.html" then welcomeResponse app world
            else mnetError 404 (ascii "not found")).status ≠ 0 := by
          split <;> simp [welcomeResponse, mnetError, mnetStatus]
        simp [hstatus, hroutes]
      · rw [if_neg hroutes]
        cases found with
        | none => simp [hroutes, respondTo, hnf]
        | some found =>
            obtain ⟨route, n⟩ := found
            simp [hroutes, respondTo]

-- ============================================================================
-- The head of what was sent
-- ============================================================================

/-- Text without line ends. -/
def noBreak (text : Bytes) : Bool := text.all fun b => b ≠ CR && b ≠ LF

theorem noBreak_append (a b : Bytes) : noBreak (a ++ b) = (noBreak a && noBreak b) :=
  List.all_append

theorem plainLine_of_noBreak {line : Bytes} (hne : line ≠ []) (h : noBreak line = true) :
    PlainLine line := by
  have hall : ∀ b ∈ line, b ≠ CR ∧ b ≠ LF := by simpa [noBreak] using h
  exact ⟨hne, fun hcr => (hall _ hcr).1 rfl, fun hlf => (hall _ hlf).2 rfl⟩

theorem noBreak_decimal (n : Nat) : noBreak (decimal n) = true := by
  simp only [noBreak, decimal, List.all_map, List.all_eq_true]
  intro c hc
  have hdigit := Nat.isDigit_of_mem_toDigits (by decide) (by decide) hc
  have hlo : 48 ≤ c.toNat := by
    have h := hdigit
    simp only [Char.isDigit, Bool.and_eq_true, decide_eq_true_eq] at h
    exact h.1
  have hhi : c.toNat ≤ 57 := by
    have h := hdigit
    simp only [Char.isDigit, Bool.and_eq_true, decide_eq_true_eq] at h
    exact h.2
  have hval : c.toUInt8.toNat = c.toNat := by
    have h : c.toUInt8.toNat = c.toNat % 2 ^ 8 := UInt32.toNat_toUInt8 c.val
    omega
  have hcr : c.toUInt8 ≠ CR := fun h => by
    have h13 : c.toUInt8.toNat = 13 := by rw [h]; rfl
    omega
  have hlf : c.toUInt8 ≠ LF := fun h => by
    have h10 : c.toUInt8.toNat = 10 := by rw [h]; rfl
    omega
  simp [hcr, hlf]

theorem noBreak_decimalInt (n : Int) : noBreak (decimalInt n) = true := by
  cases n with
  | ofNat n => exact noBreak_decimal n
  | negSucc n =>
      rw [decimalInt, noBreak_append, noBreak_decimal]
      decide

theorem noBreak_ite {c : Prop} [Decidable c] {a b : Bytes} (ha : noBreak a = true)
    (hb : noBreak b = true) : noBreak (if c then a else b) = true := by
  by_cases h : c
  · rwa [if_pos h]
  · rwa [if_neg h]

theorem noBreak_statusText (status : Int) : noBreak (statusText status) = true := by
  unfold statusText
  repeat' apply noBreak_ite
  all_goals decide

theorem noBreak_of_headerValueValid {value : Bytes} (h : mnetHeaderValueValid value = true) :
    noBreak value = true := by
  simp only [mnetHeaderValueValid, noBreak, List.all_eq_true] at h ⊢
  intro b hb
  have hv := h b hb
  simp only [Bool.not_eq_true', Bool.or_eq_false_iff, beq_eq_false_iff_ne] at hv
  simp [hv.1.1.1, hv.1.1.2]

/-- A formatted head ends at the first blank line of whatever starts with it. -/
theorem headOf_formatHead {status : Int} {text framing contentType : Bytes} {keepAlive : Bool}
    (htext : noBreak text = true) (hne : framing ≠ []) (hframing : noBreak framing = true)
    (hct : noBreak contentType = true) (payload : Bytes) :
    headOf (formatHead status text framing contentType keepAlive ++ payload) =
      formatHead status text framing contentType keepAlive := by
  obtain ⟨lines, hlines, hplain, hhead⟩ : ∃ lines, lines ≠ [] ∧ (∀ l ∈ lines, PlainLine l) ∧
      formatHead status text framing contentType keepAlive = renderLines lines ++ CRLF := by
    refine ⟨[ascii "HTTP/1.1 " ++ decimalInt status ++ ascii " " ++ text, framing,
      ascii "Content-Type: " ++ contentType,
      ascii "Connection: " ++ (if keepAlive then ascii "keep-alive" else ascii "close")],
      by simp, ?_, ?_⟩
    · intro l hl
      simp only [List.mem_cons, List.not_mem_nil, or_false] at hl
      rcases hl with rfl | rfl | rfl | rfl
      · refine plainLine_of_noBreak (by simp [ascii]) ?_
        simp only [noBreak_append, noBreak_decimalInt, htext]
        decide
      · exact plainLine_of_noBreak hne hframing
      · refine plainLine_of_noBreak (by simp [ascii]) ?_
        simp only [noBreak_append, hct]
        decide
      · cases keepAlive <;> exact plainLine_of_noBreak (by simp [ascii]) (by decide)
    · simp [formatHead, renderLines]
  have hlen := two_le_length_renderLines hlines
  rw [hhead, List.append_assoc, headOf, find_crlfcrlf_renderLines hlines hplain]
  dsimp only
  rw [← List.append_assoc, List.take_append_of_le_length (by simp [CRLF]; omega),
    List.take_of_length_le (by simp [CRLF]; omega)]

theorem headOf_answerHead {app : MnetApp} {req : ParsedRequest} {response : MnetResponse}
    (h : Answerable app req response) (payload : Bytes) :
    headOf (answerHead app req response ++ payload) = answerHead app req response := by
  unfold answerHead
  by_cases hnf : sendsNotFound app response = true
  · rw [if_pos hnf]
    exact headOf_formatHead (by decide) (by simp [contentLengthHeader, ascii])
      (by rw [contentLengthHeader, noBreak_append, noBreak_decimal]; decide) (by decide) _
  · rw [if_neg hnf]
    have hw : response.writable req.keepAlive = true := h.resolve_left hnf
    have hct : mnetHeaderValueValid response.contentTypeOrDefault = true := by
      simp only [MnetResponse.writable, Bool.and_eq_true] at hw
      exact hw.1
    refine headOf_formatHead (noBreak_statusText _) ?_ ?_ (noBreak_of_headerValueValid hct) _
    · split
      · decide
      · simp [contentLengthHeader, ascii]
    · split
      · decide
      · rw [contentLengthHeader, noBreak_append, noBreak_decimal]
        decide

-- ============================================================================
-- HEAD mirrors GET
-- ============================================================================

theorem wire_sends (blocks : List Bytes) : wire (blocks.map .send) = blocks.flatten := by
  simp [wire, Event.sentBytes, List.flatMap_map]

theorem answerBytes_eq (app : MnetApp) (conn : Conn) (buffer : Bytes) (parsed : ParsedRequest) :
    answerBytes app conn buffer parsed =
      (answerBlocks app parsed (dispatch app conn.worldNow buffer parsed
        (List.replicate MNET_MAX_PARAMS .null) MNET_MAX_PARAMS).1).flatten := by
  rw [answerBytes, serveParsed, respond_eq_sends, Conn.sends, Conn.emit, List.append_assoc,
    List.drop_left, List.singleton_append, wire, List.flatMap_cons]
  exact wire_sends _

/-- For an application without HEAD routes whose code ignores the method, the
    answer to a request as HEAD is exactly the response head of the answer to
    it as GET when and only when the 404 page is not needed. -/
theorem head_mirrors_get_iff {app : MnetApp} (happ : app.IgnoresMethod) (conn : Conn)
    (buffer : Bytes) (parsed : ParsedRequest) :
    answerBytes app conn buffer (parsed.asMethod .head) =
        headOf (answerBytes app conn buffer (parsed.asMethod .get)) ↔
      HandledAsGet app conn.worldNow buffer parsed := by
  have hnf := sendsNotFound_dispatch_iff app conn.worldNow buffer parsed
  rw [answerBytes_eq, answerBytes_eq, dispatch_head_eq_get happ]
  generalize (dispatch app conn.worldNow buffer (parsed.asMethod .get)
    (List.replicate MNET_MAX_PARAMS .null) MNET_MAX_PARAMS).1 = response at hnf ⊢
  have hhead : answerHead app (parsed.asMethod .head) response =
      answerHead app (parsed.asMethod .get) response := rfl
  have hans : Answerable app (parsed.asMethod .head) response ↔
      Answerable app (parsed.asMethod .get) response := Iff.rfl
  by_cases hget : Answerable app (parsed.asMethod .get) response
  · have hm : (parsed.asMethod .head).methodEnum = some .head := rfl
    rw [flatten_answerBlocks (hans.mpr hget), flatten_answerBlocks hget, headOf_answerHead hget,
      hhead, List.append_right_eq_self]
    unfold answerPayload
    by_cases hpage : sendsNotFound app response = true
    · rw [if_pos hpage]
      have hne : notFoundPage ≠ [] := by simp [notFoundPage, ascii]
      simp only [hne, false_iff]
      exact hnf.mp hpage
    · rw [if_neg hpage, if_pos hm]
      simp only [true_iff]
      exact not_not.mp (mt hnf.mpr hpage)
  · rw [answerBlocks_eq_nil hget, answerBlocks_eq_nil (mt hans.mp hget)]
    have hpage : ¬ sendsNotFound app response = true := fun h => hget (.inl h)
    have hempty : headOf ([] : List Bytes).flatten = ([] : List Bytes).flatten := by decide
    simp only [hempty, true_iff]
    exact not_not.mp (mt hnf.mpr hpage)

/-- A route whose handler ignores its request. -/
def helloRoute : MnetRoute :=
  { method := .get, path := ascii "/", handler := fun _ _ => mnetText (ascii "hello") }

def helloApp : MnetApp := { routes := [helloRoute] }

theorem helloApp_ignoresMethod : helloApp.IgnoresMethod where
  noHeadRoute := by simp [helloApp, helloRoute]
  handlers := by
    intro r hr world req method
    obtain rfl : r = helloRoute := by simpa [helloApp] using hr
    rfl
  notFound := by simp [helloApp]
  middleware := by simp [helloApp]

/-- HEAD mirrors GET where the route matches. -/
theorem head_mirrors_get_of_route :
    answerBytes helloApp (.opened [] (fun _ => 0) fun _ => {}) []
        ({ pathOnly := ascii "/" : ParsedRequest }.asMethod .head) =
      headOf (answerBytes helloApp (.opened [] (fun _ => 0) fun _ => {}) []
        ({ pathOnly := ascii "/" : ParsedRequest }.asMethod .get)) := by
  refine (head_mirrors_get_iff helloApp_ignoresMethod _ _ _).mpr (.inr (.inr ?_))
  have hmatch : mnetRouteMatch helloRoute (ascii "/") (List.replicate MNET_MAX_PARAMS .null)
      MNET_MAX_PARAMS = { count := some 0, values := List.replicate MNET_MAX_PARAMS .null } := by
    decide +kernel
  refine ⟨helloRoute, 0, List.replicate MNET_MAX_PARAMS .null, ?_, by decide⟩
  rw [helloApp, findRouteLoop, if_neg (by simp [helloRoute]), hmatch]

/-- Where no route matches, the 404 page follows the head of the answer to
    HEAD. -/
theorem not_head_mirrors_get :
    ¬ ∀ (app : MnetApp), app.IgnoresMethod →
      ∀ (conn conn' : Conn) (buffer : Bytes) (timeoutMs : Int) (parsed : ParsedRequest),
        parseRequest conn buffer buffer.length app.bodyLimit timeoutMs = (.ok, parsed, conn') →
        answerBytes app conn' buffer (parsed.asMethod .head) =
          headOf (answerBytes app conn' buffer (parsed.asMethod .get)) := by
  intro h
  have hrun := h helloApp helloApp_ignoresMethod (.opened [] (fun _ => 0) fun _ => {}) _
    (ascii "HEAD /missing HTTP/1.1\r\nHost: a\r\n\r\n") 0 _ (Prod.ext (by decide +kernel) rfl)
  revert hrun
  decide +kernel

end Mnet
