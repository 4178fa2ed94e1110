/-
  Mnet.NotFoundRequest

  The request a not-found handler is given, against the one a route's handler
  would have been given for the same bytes.

  `dispatch` builds them in two places.  The not-found request has no body and
  none of the flat arrays the accessors read; and where no route is registered
  at all the handler is not called.
-/

import Mnet.HeadMirrorsGet
import Mnet.ParamNames
import Mnet.ParseSpec
import Mnet.RequestAccess

namespace Mnet

-- ============================================================================
-- What dispatch returns
-- ============================================================================

/-- The response of `dispatch`, from the route it found. -/
theorem dispatch_fst (app : MnetApp) (world : World) (buffer : Bytes) (parsed : ParsedRequest)
    (params : List ParamSlot) (maxParams : Nat) :
    (dispatch app world buffer parsed params maxParams).1 =
      if app.routes = [] then
        if parsed.pathOnly = ascii "/" ∨ parsed.pathOnly = ascii "/index.html" then
          welcomeResponse app world
        else mnetError 404 (ascii "not found")
      else
        respondTo app world buffer parsed (dispatchParams app parsed params maxParams).2
          (dispatchParams app parsed params maxParams).1 := by
  cases hm : parsed.methodEnum with
  | some m =>
      have hparams : dispatchParams app parsed params maxParams =
          mnetFindRoute app m parsed.pathOnly params maxParams := by
        simp only [dispatchParams, hm]
      rw [hparams]
      exact dispatch_eq parsed hm rfl
  | none =>
      simp only [dispatch, dispatchParams, hm]
      by_cases hroutes : app.routes = []
      · rw [if_pos hroutes, if_pos hroutes]
        split
        · rfl
        · rfl
      · rw [if_neg hroutes, if_neg hroutes, respondTo]
        cases app.notFoundHandler with
        | none => rfl
        | some handler => rfl

-- ============================================================================
-- What the handler sees
-- ============================================================================

section

variable (app : MnetApp) (world : World) (buffer : Bytes) (parsed : ParsedRequest)
  (params : List ParamSlot) (maxParams : Nat)

/-- A not-found handler is called on the request: `dispatch` returns what the
    handler makes of it, whichever is set. -/
def CallsNotFound (req : MnetRequest) : Prop :=
  ∀ handler : MnetHandler,
    (dispatch { app with notFoundHandler := some handler } world buffer parsed params
      maxParams).1 = handler world req

/-- The accessors return the same on two requests. -/
structure SameAccess (a b : MnetRequest) : Prop where
  header : ∀ name, mnetRequestHeader a name = mnetRequestHeader b name
  query : ∀ name, mnetRequestQuery a name = mnetRequestQuery b name
  cookie : ∀ name, mnetRequestCookie a name = mnetRequestCookie b name
  body : mnetRequestBody a = mnetRequestBody b
  bodyLength : mnetRequestBodyLength a = mnetRequestBodyLength b

/-- The not-found handler is called, and sees through the accessors what the
    handler of a route would have seen. -/
def NotFoundSees (route : MnetRoute) (n : Nat) (values : List ParamSlot) : Prop :=
  ∃ req, CallsNotFound app world buffer parsed params maxParams req ∧
    SameAccess req (routedRequest buffer parsed route n values)

/-- Without a route in the application no not-found handler is called. -/
theorem not_callsNotFound_of_no_routes (hroutes : app.routes = []) (req : MnetRequest) :
    ¬ CallsNotFound app world buffer parsed params maxParams req := by
  intro hcalls
  have hzero := hcalls fun _ _ => {}
  have hother := hcalls fun _ _ => { chunked := true }
  rw [dispatch_fst, if_pos hroutes] at hzero hother
  have hsame : welcomeResponse { app with notFoundHandler := some fun _ _ => {} } world =
      welcomeResponse { app with notFoundHandler := some fun _ _ => { chunked := true } } world :=
    rfl
  rw [hsame, hother] at hzero
  exact absurd hzero (by simp)

/-- With one it is called on a request without body, headers, query and
    cookies. -/
theorem callsNotFound_notFoundRequest (hroutes : app.routes ≠ [])
    (hmissing : (dispatchParams app parsed params maxParams).1 = none) :
    CallsNotFound app world buffer parsed params maxParams (notFoundRequest parsed) := by
  intro handler
  have hfound : dispatchParams { app with notFoundHandler := some handler } parsed params
      maxParams = dispatchParams app parsed params maxParams := rfl
  rw [dispatch_fst, if_neg hroutes, hfound, hmissing]
  rfl

/-- It is called on no other request. -/
theorem eq_of_callsNotFound (hmissing : (dispatchParams app parsed params maxParams).1 = none)
    {req : MnetRequest} (hcalls : CallsNotFound app world buffer parsed params maxParams req) :
    req = notFoundRequest parsed := by
  by_cases hroutes : app.routes = []
  · exact absurd hcalls (not_callsNotFound_of_no_routes _ _ _ _ _ _ hroutes req)
  · have hgiven := callsNotFound_notFoundRequest app world buffer parsed params maxParams hroutes
      hmissing
    -- a handler that tells the two requests apart
    let handler : MnetHandler := fun _ r => { chunked := decide (r = notFoundRequest parsed) }
    have hsame : handler world req = handler world (notFoundRequest parsed) :=
      (hcalls handler).symm.trans (hgiven handler)
    have hdec := congrArg MnetResponse.chunked hsame
    simpa [handler] using hdec

end

/-- The body of an accepted request has a place, which the accessor returns. -/
theorem body_ne_null_of_parseRequest {conn conn' : Conn} {buffer : Bytes}
    {received maxBodySize : Nat} {timeoutMs : Int} {parsed : ParsedRequest}
    (hparse : parseRequest conn buffer received maxBodySize timeoutMs = (.ok, parsed, conn')) :
    parsed.body ≠ .null := by
  obtain ⟨method, path, m, r, e, n, headers, -, -, hend, hbody, hcode, -, rfl⟩ :=
    parseRequest_ok hparse
  obtain ⟨-, hoffset⟩ := readFullBody_ok hend hbody hcode
  rw [assembled, splitTarget_body]
  rintro hnull
  rw [show r.body = .null from hnull] at hoffset
  exact absurd hoffset (by simp [BodyPtr.offset])

/-- On no accepted request that no route matches does the not-found handler see
    what a route's handler would have seen: the body it is given is NULL. -/
theorem not_notFoundSees {conn conn' : Conn} {buffer : Bytes} {received maxBodySize : Nat}
    {timeoutMs : Int} {app : MnetApp} {parsed : ParsedRequest} {params : List ParamSlot}
    {maxParams : Nat}
    (hparse : parseRequest conn buffer received maxBodySize timeoutMs = (.ok, parsed, conn'))
    (hmissing : (dispatchParams app parsed params maxParams).1 = none) (world : World)
    (route : MnetRoute) (n : Nat) (values : List ParamSlot) :
    ¬ NotFoundSees app world buffer parsed params maxParams route n values ∧
      parsed.body ≠ .null := by
  refine ⟨?_, body_ne_null_of_parseRequest hparse⟩
  rintro ⟨req, hcalls, hsame⟩
  obtain rfl := eq_of_callsNotFound app world buffer parsed params maxParams hmissing hcalls
  have hbody : (none : Option Bytes) = some (parsed.body.mem buffer) := hsame.body
  exact absurd hbody (by simp)

/-- A request with a header, to an application that has no route for it. -/
def strayGet : Bytes := ascii "GET /stray HTTP/1.1\r\nHost: x\r\n\r\n"

def strayRequest : ParsedRequest := (parseRequest .quiet strayGet strayGet.length 100 1000).2.1

def homeApp : MnetApp :=
  { routes := [registeredRoute .get (ascii "/") fun _ _ => {}]
    notFoundHandler := some fun _ _ => mnetText (some (ascii "gone")) }

theorem parseRequest_strayGet :
    parseRequest .quiet strayGet strayGet.length 100 1000 =
      (.ok, strayRequest, (parseRequest .quiet strayGet strayGet.length 100 1000).2.2) :=
  Prod.ext (by decide +kernel) rfl

theorem not_notFoundSees_strayGet :
    ¬ NotFoundSees homeApp {} strayGet strayRequest (List.replicate 16 .null) 16
        (registeredRoute .get (ascii "/stray") fun _ _ => {}) 0 [] ∧ strayRequest.body ≠ .null :=
  not_notFoundSees parseRequest_strayGet (by decide +kernel) _ _ _ _

/-- The handler for the stray request finds no `Host`, which the handler of a
    route for it would have found. -/
theorem not_notFoundSees_host :
    ¬ ∀ (conn conn' : Conn) (buffer : Bytes) (received maxBodySize : Nat) (timeoutMs : Int)
        (app : MnetApp) (parsed : ParsedRequest) (params : List ParamSlot) (maxParams : Nat)
        (world : World) (route : MnetRoute) (n : Nat) (values : List ParamSlot),
      parseRequest conn buffer received maxBodySize timeoutMs = (.ok, parsed, conn') →
      app.notFoundHandler.isSome = true →
      (dispatchParams app parsed params maxParams).1 = none →
      NotFoundSees app world buffer parsed params maxParams route n values := by
  intro h
  have hmissing : (dispatchParams homeApp strayRequest (List.replicate 16 .null) 16).1 = none := by
    decide +kernel
  obtain ⟨req, hcalls, hsame⟩ := h .quiet _ strayGet strayGet.length 100 1000 homeApp
    strayRequest (List.replicate 16 .null) 16 {}
    (registeredRoute .get (ascii "/stray") fun _ _ => {}) 0 [] parseRequest_strayGet rfl hmissing
  obtain rfl := eq_of_callsNotFound _ _ _ _ _ _ hmissing hcalls
  have hhost : (none : Option Bytes) =
      lookupName strcaseeq (ascii "host") strayRequest.extras.headers :=
    hsame.header (ascii "host")
  revert hhost
  decide +kernel

end Mnet
