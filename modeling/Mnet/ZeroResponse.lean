/-
  Mnet.ZeroResponse

  What the client is sent when a handler fails, which the response helpers
  report by a response of status 0.

  `dispatch` returns the same zero response when no route matches, and
  `mnet_handle_client` answers it with the default 404 page, or, where a
  not-found handler is set, writes it out with its status 0.
-/

import Mnet.NotFoundRequest

namespace Mnet

-- ============================================================================
-- The answer to a request
-- ============================================================================

def Event.sentBlock? : Event → Option Bytes
  | .send bytes => some bytes
  | _ => none

/-- The blocks sent in answer to a request `parse_request` accepted. -/
def answerSent (app : MnetApp) (conn : Conn) (buffer : Bytes) (parsed : ParsedRequest) :
    List Bytes :=
  ((serveParsed app conn buffer parsed).log.drop conn.log.length).filterMap Event.sentBlock?

/-- What the application's own code returned for a request: the handler of the
    matched route, behind the middleware if there is one, or the not-found
    handler.  None where neither is called. -/
def handlerResult (app : MnetApp) (world : World) (buffer : Bytes) (parsed : ParsedRequest) :
    Option MnetResponse :=
  if app.routes = [] then none
  else
    match dispatchParams app parsed (List.replicate MNET_MAX_PARAMS .null) MNET_MAX_PARAMS with
    | (some (route, n), values) =>
        some (callRoute app world route (routedRequest buffer parsed route n values))
    | (none, _) => app.notFoundHandler.map (· world (notFoundRequest parsed))

/-- The two blocks of the default 404 page. -/
def defaultPage (keepAlive : Bool) : List Bytes :=
  pageBlocks 404 (ascii "Not Found") notFoundPage keepAlive

/-- What was sent begins with a status line of this code. -/
def StatusSent (blocks : List Bytes) (code : Int) : Prop :=
  ascii "HTTP/1.1 " ++ decimalInt code ++ ascii " " <+: blocks.flatten

/-- A failed handler is told from a missing route by what is sent for its
    result. -/
structure FailureShown (app : MnetApp) (parsed : ParsedRequest) (result : Option MnetResponse)
    (sent : List Bytes) : Prop where
  page : sent = defaultPage parsed.keepAlive → matchedRoute app parsed = none
  zero : (matchedRoute app parsed).isSome = true → result = some {} → StatusSent sent 500
  code : ∀ r ∈ result, r.status = 0 → ∀ code, StatusSent sent code → 100 ≤ code ∧ code ≤ 599

theorem filterMap_sends (blocks : List Bytes) :
    (blocks.map Event.send).filterMap Event.sentBlock? = blocks := by
  induction blocks with
  | nil => rfl
  | cons b blocks ih =>
      show b :: (blocks.map Event.send).filterMap Event.sentBlock? = b :: blocks
      rw [ih]

theorem answerSent_eq (app : MnetApp) (conn : Conn) (buffer : Bytes) (parsed : ParsedRequest) :
    answerSent app conn buffer parsed =
      answerBlocks app parsed (dispatch app conn.worldNow buffer parsed
        (List.replicate MNET_MAX_PARAMS .null) MNET_MAX_PARAMS).1 := by
  rw [answerSent, serveParsed, respond_eq_sends, Conn.sends, Conn.emit, List.append_assoc,
    List.drop_left, List.singleton_append]
  exact filterMap_sends _

-- ============================================================================
-- Results and responses
-- ============================================================================

theorem dispatchParams_eq_none_iff (app : MnetApp) (parsed : ParsedRequest)
    (params : List ParamSlot) (maxParams : Nat) :
    (dispatchParams app parsed params maxParams).1 = none ↔ matchedRoute app parsed = none := by
  obtain ⟨before, -, heq⟩ := dispatchParams_eq app parsed params maxParams
  rw [heq]
  cases matchedRoute app parsed with
  | none => simp
  | some r => simp

/-- `dispatch` returns what the application returned. -/
theorem dispatch_of_handlerResult {app : MnetApp} {world : World} {buffer : Bytes}
    {parsed : ParsedRequest} {r : MnetResponse}
    (h : handlerResult app world buffer parsed = some r) :
    (dispatch app world buffer parsed (List.replicate MNET_MAX_PARAMS .null)
      MNET_MAX_PARAMS).1 = r := by
  unfold handlerResult at h
  by_cases hroutes : app.routes = []
  · rw [if_pos hroutes] at h
    exact absurd h (by simp)
  · rw [if_neg hroutes] at h
    rw [dispatch_fst, if_neg hroutes]
    rcases hparams : dispatchParams app parsed (List.replicate MNET_MAX_PARAMS .null)
      MNET_MAX_PARAMS with ⟨_ | ⟨route, n⟩, values⟩
    · rw [hparams] at h
      obtain ⟨handler, hnf, hr⟩ := Option.map_eq_some_iff.mp h
      show (app.notFoundHandler.map (· world (notFoundRequest parsed))).getD {} = r
      rw [hnf]
      exact hr
    · rw [hparams] at h
      exact Option.some.inj h

/-- A matched route's handler is called. -/
theorem handlerResult_of_matchedRoute {app : MnetApp} {parsed : ParsedRequest} {route : MnetRoute}
    (h : matchedRoute app parsed = some route) (world : World) (buffer : Bytes) :
    (handlerResult app world buffer parsed).isSome = true := by
  have hroutes : app.routes ≠ [] := by
    intro hnil
    have hfound := dispatchParams_eq_none_iff app parsed [] 0
    rw [h] at hfound
    have hnone : (dispatchParams app parsed [] 0).1 = none := by
      unfold dispatchParams
      cases parsed.methodEnum with
      | none => rfl
      | some m => simp [mnetFindRoute, hnil, findRouteLoop]
    exact absurd (hfound.mp hnone) (by simp)
  obtain ⟨before, -, heq⟩ := dispatchParams_eq app parsed
    (List.replicate MNET_MAX_PARAMS .null) MNET_MAX_PARAMS
  rw [handlerResult, if_neg hroutes, heq, h]
  rfl

/-- Without a not-found handler the code that was called is that of a route. -/
theorem matchedRoute_of_handlerResult {app : MnetApp} {world : World} {buffer : Bytes}
    {parsed : ParsedRequest} {r : MnetResponse}
    (h : handlerResult app world buffer parsed = some r) (hnf : app.notFoundHandler = none) :
    matchedRoute app parsed ≠ none := by
  intro hnone
  unfold handlerResult at h
  obtain ⟨before, -, heq⟩ := dispatchParams_eq app parsed
    (List.replicate MNET_MAX_PARAMS .null) MNET_MAX_PARAMS
  rw [heq, hnone, hnf] at h
  by_cases hroutes : app.routes = []
  · rw [if_pos hroutes] at h
    exact absurd h (by simp)
  · rw [if_neg hroutes] at h
    exact absurd h (by simp)

-- ============================================================================
-- What is sent
-- ============================================================================

theorem defaultPage_eq (keepAlive : Bool) :
    defaultPage keepAlive =
      [formatHead 404 (ascii "Not Found") (contentLengthHeader notFoundPage.length)
        (ascii "text/html; charset=utf-8") keepAlive, notFoundPage] :=
  pageBlocks_notFound keepAlive

/-- `send_response` never hands over the blocks of the default page. -/
theorem responseBlocks_ne_defaultPage (r : MnetResponse) (headOnly keepAlive keepAlive' : Bool) :
    responseBlocks r headOnly keepAlive ≠ defaultPage keepAlive' := by
  intro h
  rw [defaultPage_eq] at h
  have hlen := congrArg List.length h
  unfold responseBlocks at h hlen
  by_cases hw : r.writable keepAlive = true
  · by_cases hhead : headOnly = true
    · simp [hw, hhead] at hlen
    · by_cases hchunk : r.chunked = true
      · by_cases hbody : r.hasBody = true
        · simp [hw, hhead, hchunk, hbody, chunkBlocks] at hlen
        · -- head and last chunk: two blocks, the second of which is no page
          simp only [hw, hhead, hchunk, hbody, chunkBlocks, Bool.not_true, Bool.false_eq_true,
            if_true, if_false, List.nil_append, List.cons.injEq, and_true] at h
          have hpage : ascii "0" ++ CRLF ++ CRLF = notFoundPage := h.2
          exact absurd (congrArg List.length hpage) (by decide +kernel)
      · by_cases hbody : r.hasBody = true
        · simp [hw, hhead, hchunk, hbody] at hlen
        · simp [hw, hhead, hchunk, hbody] at hlen
  · simp [hw] at hlen

theorem statusSent_responseBlocks {r : MnetResponse} {headOnly keepAlive : Bool}
    (hw : r.writable keepAlive = true) :
    StatusSent (responseBlocks r headOnly keepAlive) r.status := by
  rw [StatusSent, flatten_responseBlocks hw, responseHead, formatHead]
  simp only [List.append_assoc]
  exact List.prefix_append_right_inj _ |>.mpr (List.prefix_append_right_inj _ |>.mpr
    (List.prefix_append ..))

theorem not_statusSent_nil (code : Int) : ¬ StatusSent [] code := by
  intro h
  have hnil := List.prefix_nil.mp h
  exact absurd (List.append_eq_nil_iff.mp (List.append_eq_nil_iff.mp hnil).1).1 (by decide)

/-- The zero response can be written out. -/
theorem writable_zero (keepAlive : Bool) : ({} : MnetResponse).writable keepAlive = true := by
  cases keepAlive
  · decide +kernel
  · decide +kernel

/-- A failed handler is told from a missing route exactly when no result of
    status 0 is there to be sent: the application's code returned another
    status, or a not-found handler is set and the result cannot be written. -/
theorem failureShown_iff (app : MnetApp) (conn : Conn) (buffer : Bytes) (parsed : ParsedRequest) :
    FailureShown app parsed (handlerResult app conn.worldNow buffer parsed)
        (answerSent app conn buffer parsed) ↔
      ∀ r ∈ handlerResult app conn.worldNow buffer parsed, r.status = 0 →
        app.notFoundHandler.isSome = true ∧ r.writable parsed.keepAlive = false := by
  rw [answerSent_eq, answerBlocks_eq]
  cases hresult : handlerResult app conn.worldNow buffer parsed with
  | none =>
      have hmissing : matchedRoute app parsed = none := by
        cases hmatched : matchedRoute app parsed with
        | none => rfl
        | some route =>
            have hcalled := handlerResult_of_matchedRoute hmatched conn.worldNow buffer
            rw [hresult] at hcalled
            exact absurd hcalled (by simp)
      refine iff_of_true ⟨fun _ => hmissing, ?_, by simp⟩ (by simp)
      intro hmatched
      rw [hmissing] at hmatched
      exact absurd hmatched (by simp)
  | some r =>
      rw [dispatch_of_handlerResult hresult]
      by_cases hstatus : r.status = 0
      · cases hnf : app.notFoundHandler with
        | none =>
            have hpage : sendsNotFound app r = true := by
              simp [sendsNotFound, hstatus, hnf]
            rw [if_pos hpage]
            refine iff_of_false (fun h => ?_) (fun h => ?_)
            · exact matchedRoute_of_handlerResult hresult hnf (h.page rfl)
            · exact absurd (h r rfl hstatus).1 (by simp)
        | some handler =>
            have hpage : ¬ sendsNotFound app r = true := by simp [sendsNotFound, hnf]
            rw [if_neg hpage]
            cases hw : r.writable parsed.keepAlive with
            | true =>
                refine iff_of_false (fun h => ?_) (fun h => ?_)
                · have hcode := h.code r rfl hstatus 0 (hstatus ▸ statusSent_responseBlocks hw)
                  omega
                · exact absurd ((h r rfl hstatus).2.symm.trans hw) (by simp)
            | false =>
                have hnone : responseBlocks r (parsed.methodEnum == some .head)
                    parsed.keepAlive = [] := by
                  simp [responseBlocks, hw]
                rw [hnone]
                refine iff_of_true ⟨?_, ?_, ?_⟩ ?_
                · rw [defaultPage_eq]
                  exact fun h => absurd h (by simp)
                · rintro - ⟨⟩
                  rw [writable_zero] at hw
                  exact absurd hw (by simp)
                · exact fun _ _ _ code hsent => absurd hsent (not_statusSent_nil code)
                · rintro r' ⟨⟩ -
                  exact ⟨rfl, hw⟩
      · have hpage : ¬ sendsNotFound app r = true := by simp [sendsNotFound, hstatus]
        rw [if_neg hpage]
        refine iff_of_true ⟨?_, ?_, ?_⟩ ?_
        · intro h
          exact absurd h (responseBlocks_ne_defaultPage r _ _ _)
        · rintro - ⟨⟩
          exact absurd rfl hstatus
        · rintro r' ⟨⟩ hzero
          exact absurd hzero hstatus
        · rintro r' ⟨⟩ hzero
          exact absurd hzero hstatus

/-- An application whose handler fails as `mnet_text` does on NULL. -/
def failingApp : MnetApp :=
  { routes := [registeredRoute .get (ascii "/") fun _ _ => mnetText none] }

/-- The route is there, and its failure is answered with the default page. -/
theorem not_failureShown :
    ¬ ∀ (app : MnetApp) (conn conn' : Conn) (buffer : Bytes) (timeoutMs : Int)
        (parsed : ParsedRequest),
      parseRequest conn buffer buffer.length app.bodyLimit timeoutMs = (.ok, parsed, conn') →
        FailureShown app parsed (handlerResult app conn'.worldNow buffer parsed)
          (answerSent app conn' buffer parsed) := by
  intro h
  have hshown := h failingApp .quiet _
    (ascii "GET / HTTP/1.1\r\nHost: a\r\n\r\n") 0 _ (Prod.ext (by decide +kernel) rfl)
  have hmissing := congrArg Option.isNone (hshown.page ?_)
  · revert hmissing
    decide +kernel
  · rw [answerSent_eq, answerBlocks_eq, if_pos (by decide +kernel)]
    rfl

end Mnet
