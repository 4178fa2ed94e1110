/-
  Mnet.OneResponse

  One response per request: what is sent between a request passed to
  `dispatch` and the next wait on the connection.

  `send_response` returns without a word when the content type holds a control
  character or the head does not fit its buffer, and the caller goes on as if
  it had answered.  `Answerable` is the condition under which neither happens.
-/

import Mnet.Trace

namespace Mnet

/-- The 404 page takes the place of a zero response. -/
def sendsNotFound (app : MnetApp) (response : MnetResponse) : Bool :=
  response.status == 0 && app.notFoundHandler.isNone

/-- The head of the answer to a request. -/
def answerHead (app : MnetApp) (req : ParsedRequest) (response : MnetResponse) : Bytes :=
  if sendsNotFound app response then
    formatHead 404 (ascii "Not Found") (contentLengthHeader notFoundPage.length)
      (ascii "text/html; charset=utf-8") req.keepAlive
  else responseHead response req.keepAlive

/-- The bytes that follow the head of the answer. -/
def answerPayload (app : MnetApp) (req : ParsedRequest) (response : MnetResponse) : Bytes :=
  if sendsNotFound app response then notFoundPage
  else if req.methodEnum = some .head then []
  else if response.chunked then (chunkBlocks response).flatten
  else response.bodyBytes

/-- The response can be written: it is replaced by the 404 page, or its content
    type is a legal header value and its head fits the buffer. -/
def Answerable (app : MnetApp) (req : ParsedRequest) (response : MnetResponse) : Prop :=
  sendsNotFound app response = true ∨ response.writable req.keepAlive = true

instance (app : MnetApp) (req : ParsedRequest) (response : MnetResponse) :
    Decidable (Answerable app req response) :=
  inferInstanceAs (Decidable (_ ∨ _))

/-- Exactly one response was sent, its head first, or the connection was closed
    without an answer.  The body of a 204 counts with its response, and so does
    the head of a NULL body that states a length, wherever a client takes them to
    end. -/
def Exchange.AnsweredOnce (app : MnetApp) (x : Exchange) : Prop :=
  x.sent.flatten = answerHead app x.request x.response ++ answerPayload app x.request x.response ∨
    (x.sent = [] ∧ x.reused = false)

instance (app : MnetApp) (x : Exchange) : Decidable (x.AnsweredOnce app) :=
  inferInstanceAs (Decidable (_ ∨ _))

/-! ## The blocks of an answer -/

theorem answerBlocks_eq (app : MnetApp) (req : ParsedRequest) (response : MnetResponse) :
    answerBlocks app req response =
      if sendsNotFound app response then
        pageBlocks 404 (ascii "Not Found") notFoundPage req.keepAlive
      else responseBlocks response (req.methodEnum == some .head) req.keepAlive := by
  simp [answerBlocks, sendsNotFound]

/-- The head of the 404 page fits its buffer. -/
theorem pageBlocks_notFound (keepAlive : Bool) :
    pageBlocks 404 (ascii "Not Found") notFoundPage keepAlive =
      [formatHead 404 (ascii "Not Found") (contentLengthHeader notFoundPage.length)
        (ascii "text/html; charset=utf-8") keepAlive, notFoundPage] := by
  cases keepAlive <;> decide +kernel

theorem MnetResponse.bodyBytes_of_not_hasBody {r : MnetResponse} (h : r.hasBody = false) :
    r.bodyBytes = [] := by
  unfold MnetResponse.hasBody at h
  unfold MnetResponse.bodyBytes
  cases hb : r.body with
  | none => simp
  | some body => simp_all

theorem flatten_responseBlocks {r : MnetResponse} {headOnly keepAlive : Bool}
    (h : r.writable keepAlive = true) :
    (responseBlocks r headOnly keepAlive).flatten = responseHead r keepAlive ++
      if headOnly then [] else if r.chunked then (chunkBlocks r).flatten else r.bodyBytes := by
  cases headOnly with
  | true => simp [responseBlocks, h]
  | false =>
      cases hchunk : r.chunked with
      | true => simp [responseBlocks, h, hchunk]
      | false =>
          cases hbody : r.hasBody with
          | true => simp [responseBlocks, h, hchunk, hbody]
          | false =>
              simp [responseBlocks, h, hchunk, hbody, MnetResponse.bodyBytes_of_not_hasBody hbody]

theorem flatten_answerBlocks {app : MnetApp} {req : ParsedRequest} {response : MnetResponse}
    (h : Answerable app req response) :
    (answerBlocks app req response).flatten =
      answerHead app req response ++ answerPayload app req response := by
  rw [answerBlocks_eq, answerHead, answerPayload]
  by_cases hnf : sendsNotFound app response = true
  · simp [hnf, pageBlocks_notFound]
  · have hw : response.writable req.keepAlive = true := h.resolve_left hnf
    rw [if_neg hnf, if_neg hnf, if_neg hnf, flatten_responseBlocks hw]
    by_cases hhead : req.methodEnum = some .head
    · simp [hhead]
    · have hbeq : (req.methodEnum == some HttpMethod.head) = false := by simpa using hhead
      rw [hbeq, if_neg hhead]
      simp

theorem answerBlocks_eq_nil {app : MnetApp} {req : ParsedRequest} {response : MnetResponse}
    (h : ¬ Answerable app req response) : answerBlocks app req response = [] := by
  obtain ⟨hnf, hw⟩ := not_or.mp h
  rw [answerBlocks_eq, if_neg hnf]
  simp [responseBlocks, hw]

theorem answerHead_ne_nil (app : MnetApp) (req : ParsedRequest) (response : MnetResponse) :
    answerHead app req response ≠ [] := by
  have hline : ascii "HTTP/1.1 " ≠ [] := by decide
  unfold answerHead responseHead formatHead
  split <;> simp [hline]

/-- A settled exchange is answered once exactly when it did not have to be, or
    could be. -/
theorem Exchange.Settled.answeredOnce_iff {app : MnetApp} {x : Exchange} (h : x.Settled app) :
    x.AnsweredOnce app ↔
      (x.request.keepAlive = true → Answerable app x.request x.response) := by
  obtain ⟨hsent, hreused⟩ := h
  unfold Exchange.AnsweredOnce
  rw [hsent, hreused]
  by_cases hans : Answerable app x.request x.response
  · simp only [hans, implies_true, iff_true]
    exact .inl (flatten_answerBlocks hans)
  · rw [answerBlocks_eq_nil hans]
    have hhead := answerHead_ne_nil app x.request x.response
    cases hka : x.request.keepAlive <;> simp [hans, hhead]

/-! ## Whole connections -/

/-- On every connection, each request passed to `dispatch` gets exactly one
    response before the next is read, or the connection is closed, exactly when
    every response to a keep-alive request can be written. -/
theorem answeredOnce_iff_answerable (app : MnetApp) (arrivals : List Arrival)
    (clock : Nat → Int) (world : Nat → World) :
    (∀ x ∈ exchanges (mnetHandleClient app (.opened arrivals clock world)).log,
        x.AnsweredOnce app) ↔
      ∀ x ∈ exchanges (mnetHandleClient app (.opened arrivals clock world)).log,
        x.request.keepAlive = true → Answerable app x.request x.response := by
  obtain ⟨log, hlog, -, hsettled⟩ := handleLoop_exchanges app false [] (.opened arrivals clock world)
  have hlog' : (mnetHandleClient app (.opened arrivals clock world)).log = log := hlog
  rw [hlog']
  exact forall₂_congr fun x hx => (hsettled x hx).answeredOnce_iff

/-- An application whose only handler gives a content type that ends in a line
    feed. -/
def brokenTypeApp : MnetApp :=
  { routes := [{ method := .get, path := ascii "/",
                 handler := fun _ _ => { status := 200, contentType := some (ascii "text/plain\n"),
                                         body := some (ascii "hello"), bodyLength := 5 } }] }

/-- Two keep-alive requests to that application, one segment each. -/
def twoRequests : List Arrival :=
  [.segment (ascii "GET / HTTP/1.1\r\nConnection: keep-alive\r\n\r\n"),
   .segment (ascii "GET / HTTP/1.1\r\nConnection: keep-alive\r\n\r\n")]

/-- The first of two keep-alive requests gets no response, and the second is
    read all the same. -/
theorem not_answeredOnce_of_broken_type :
    ¬ ∀ (app : MnetApp) (arrivals : List Arrival) (clock : Nat → Int) (world : Nat → World),
      ∀ x ∈ exchanges (mnetHandleClient app (.opened arrivals clock world)).log,
        x.AnsweredOnce app := by
  intro h
  have hrun := h brokenTypeApp twoRequests (fun _ => 0) (fun _ => {})
  revert hrun
  decide +kernel

end Mnet
