/-
  Mnet.ConnectionWire

  A whole connection as its peer reads it.

  The bytes sent on a connection are the answers to the dispatched requests, in
  their order, and after the last at most one error page (`handleLoop_written`).
  Each of them says where it ends, so a reader that knows which requests were
  HEAD takes the connection apart again (`readAll_connection`).  The 404 page is
  sent with its body for HEAD too, where such a reader loses its place.
-/

import Mnet.Lib.HttpStream
import Mnet.ResponseEncoding

namespace Mnet

open HttpMessage (readMessage readAll)

-- ============================================================================
-- What is sent
-- ============================================================================

/-- A request passed to `dispatch` and its response. -/
def Event.served : Event → List (ParsedRequest × MnetResponse)
  | .dispatched req response => [(req, response)]
  | _ => []

/-- The requests a log shows as dispatched, with their responses. -/
def served (log : List Event) : List (ParsedRequest × MnetResponse) := log.flatMap Event.served

/-- A built-in page: status, reason and body. -/
structure ErrorPage where
  status : Int
  text : Bytes
  body : Bytes
deriving DecidableEq

/-- The page of `send_simple_error`. -/
def simpleErrorPage (status : Int) (text message : Bytes) : ErrorPage :=
  ⟨status, text, simpleErrorBody status text message⟩

/-- The page for a request `parse_request` refuses. -/
def rejectPage : ParseCode → Option ErrorPage
  | .ok => none
  | .unsupportedMethod => some ⟨405, ascii "Method Not Allowed", methodNotAllowedPage⟩
  | .tooLarge =>
      some (simpleErrorPage 413 (ascii "Payload Too Large")
        (ascii "Request body exceeds the maximum size."))
  | .badContentLength =>
      some (simpleErrorPage 400 (ascii "Bad Request")
        (ascii "The Content-Length header is malformed."))
  | .duplicateContentLength =>
      some (simpleErrorPage 400 (ascii "Bad Request")
        (ascii "Duplicate Content-Length headers."))
  | .headersTooLarge =>
      some (simpleErrorPage 431 (ascii "Request Header Fields Too Large")
        (ascii "Request headers exceed the maximum size."))
  | .unsupportedTransferEncoding =>
      some (simpleErrorPage 501 (ascii "Not Implemented")
        (ascii "Transfer-Encoding is not supported."))
  | .badRequest =>
      some (simpleErrorPage 400 (ascii "Bad Request") (ascii "The request could not be parsed."))

def ErrorPage.blocks (page : ErrorPage) (keepAlive : Bool) : List Bytes :=
  pageBlocks page.status page.text page.body keepAlive

/-- What is sent behind the last answer: nothing, or the page for a request that
    is refused; that for a head that does not fit the buffer is among them. -/
def ClosesWith (closing : Bytes) : Prop :=
  closing = [] ∨ ∃ code page, rejectPage code = some page ∧ closing = (page.blocks false).flatten

/-- The answer to a request. -/
def answerWire (app : MnetApp) (x : ParsedRequest × MnetResponse) : Bytes :=
  (answerBlocks app x.1 x.2).flatten

-- ============================================================================
-- One pass
-- ============================================================================

theorem served_append (log log' : List Event) : served (log ++ log') = served log ++ served log' :=
  List.flatMap_append

theorem wire_append (log log' : List Event) : wire (log ++ log') = wire log ++ wire log' :=
  List.flatMap_append

theorem served_sends (blocks : List Bytes) : served (blocks.map .send) = [] := by
  induction blocks with
  | nil => rfl
  | cons b blocks ih => exact ih

/-- Receiving neither serves nor sends. -/
theorem silent_of_inputs {ins : List Event} (h : ∀ e ∈ ins, e.isInput) :
    served ins = [] ∧ wire ins = [] := by
  constructor
  · refine List.flatMap_eq_nil_iff.mpr fun e he => ?_
    have hin := h e he
    cases e with
    | recv | expired => rfl
    | _ => exact absurd hin (by simp [Event.isInput])
  · refine List.flatMap_eq_nil_iff.mpr fun e he => ?_
    have hin := h e he
    cases e with
    | recv | expired => rfl
    | _ => exact absurd hin (by simp [Event.isInput])

/-- A request that is dispatched, and the answer behind it. -/
theorem written_reply (app : MnetApp) (req : ParsedRequest) (response : MnetResponse) :
    served (.dispatched req response :: (answerBlocks app req response).map .send) =
        [(req, response)] ∧
      wire (.dispatched req response :: (answerBlocks app req response).map .send) =
        answerWire app (req, response) := by
  constructor
  · show (req, response) :: served ((answerBlocks app req response).map .send) = _
    rw [served_sends]
  · show wire ((answerBlocks app req response).map .send) = _
    rw [wire_sends]
    rfl

theorem simpleErrorPage_sends (conn : Conn) (status : Int) (text message : Bytes) :
    sendSimpleError conn status text message =
      conn.sends ((simpleErrorPage status text message).blocks false) :=
  sendSimpleError_eq_sends ..

/-- A refused request is answered with its page. -/
theorem rejectRequest_eq_page (conn : Conn) {code : ParseCode} (hcode : code ≠ .ok) :
    ∃ page, rejectPage code = some page ∧ rejectRequest conn code = conn.sends (page.blocks false) := by
  cases code with
  | ok => exact absurd rfl hcode
  | unsupportedMethod =>
      refine ⟨_, rfl, ?_⟩
      rw [rejectRequest, sendMethodNotAllowed, sendPage_eq_sends, ErrorPage.blocks]
  | _ =>
      refine ⟨_, rfl, ?_⟩
      rw [rejectRequest, simpleErrorPage_sends]

/-- What a pass adds: nothing or an error page where the connection ends, or the
    answer to one request, which says whether it goes on. -/
inductive PassWritten (app : MnetApp) : List (ParsedRequest × MnetResponse) → Bytes → Bool → Prop
  | closing {bytes : Bytes} (h : ClosesWith bytes) : PassWritten app [] bytes false
  | answer (req : ParsedRequest) (response : MnetResponse) :
      PassWritten app [(req, response)] (answerWire app (req, response)) req.keepAlive

theorem clientStep_written (app : MnetApp) (keepAlive : Bool) (buffer : Bytes) (conn : Conn) :
    ∃ es, (clientStep app keepAlive buffer conn).2.log = conn.log ++ es ∧
      PassWritten app (served es) (wire es) (clientStep app keepAlive buffer conn).1.isSome := by
  obtain ⟨got, hread, -⟩ := readRequest_received app keepAlive buffer conn
  obtain ⟨ins, hlog, hins⟩ := hread.log
  have hstart : (conn.beginPass buffer).log = conn.log ++ [.waiting conn.nowMs] := rfl
  rw [hstart] at hlog
  unfold clientStep
  split
  · next buffer' conn₁ heq =>
    rw [heq] at hlog
    dsimp only at hlog
    obtain ⟨hserved, hwire⟩ := silent_of_inputs hins
    have hwaiting : served (.waiting conn.nowMs :: ins) = [] ∧
        wire (.waiting conn.nowMs :: ins) = [] := ⟨hserved, hwire⟩
    split
    · rw [simpleErrorPage_sends]
      have hpage : rejectPage .headersTooLarge = some (simpleErrorPage 431
          (ascii "Request Header Fields Too Large")
          (ascii "Request headers exceed the maximum size.")) := rfl
      generalize simpleErrorPage 431 _ _ = page at hpage
      refine ⟨(.waiting conn.nowMs :: ins) ++ (page.blocks false).map .send, ?_, ?_⟩
      · rw [Conn.sends, hlog]
        simp only [List.append_assoc, List.cons_append, List.nil_append]
      · rw [served_append, wire_append, hwaiting.1, hwaiting.2, served_sends, wire_sends]
        exact .closing (.inr ⟨_, page, hpage, List.nil_append _⟩)
    · refine ⟨.waiting conn.nowMs :: ins, ?_, ?_⟩
      · rw [hlog, List.append_assoc, List.singleton_append]
      · rw [hwaiting.1, hwaiting.2]
        exact .closing (.inl rfl)
  · next buffer' conn₁ heq =>
    rw [heq] at hlog
    dsimp only at hlog
    obtain ⟨code, parsed, conn₂, hparse, hcases⟩ :=
      serveRequest_cases app conn₁ (requestTimeout app keepAlive) buffer'
    obtain ⟨body, hbody⟩ := parseRequest_received conn₁ buffer' buffer'.length app.bodyLimit
      (requestTimeout app keepAlive)
    rw [hparse] at hbody
    obtain ⟨ins', hlog', hins'⟩ := hbody.log
    dsimp only at hlog'
    -- what the pass shows before it answers
    have hinputs : ∀ e ∈ ins ++ ins', e.isInput = true :=
      fun e he => (List.mem_append.mp he).elim (hins e) (hins' e)
    obtain ⟨hserved, hwire⟩ := silent_of_inputs hinputs
    have hquiet : served (.waiting conn.nowMs :: (ins ++ ins') ++
          [.parsed conn₁.start buffer' code parsed]) = [] ∧
        wire (.waiting conn.nowMs :: (ins ++ ins') ++
          [.parsed conn₁.start buffer' code parsed]) = [] := by
      rw [served_append, wire_append]
      refine ⟨?_, ?_⟩
      · show served (ins ++ ins') ++ [] = []
        rw [hserved, List.append_nil]
      · show wire (ins ++ ins') ++ [] = []
        rw [hwire, List.append_nil]
    obtain ⟨hcode, hserve⟩ | ⟨hcode, hserve⟩ := hcases
    · obtain ⟨page, hpage, heq'⟩ := rejectRequest_eq_page
        (conn₂.emit (.parsed conn₁.start buffer' code parsed)) hcode
      rw [hserve, heq']
      refine ⟨(.waiting conn.nowMs :: (ins ++ ins') ++
        [.parsed conn₁.start buffer' code parsed]) ++
          (page.blocks false).map .send, ?_, ?_⟩
      · rw [Conn.sends, Conn.emit, hlog', hlog]
        simp only [List.append_assoc, List.cons_append, List.nil_append]
      · rw [served_append, wire_append, hquiet.1, hquiet.2, served_sends, wire_sends]
        exact .closing (.inr ⟨code, page, hpage, List.nil_append _⟩)
    · obtain ⟨response, hanswer⟩ := serveParsed_eq app
        (conn₂.emit (.parsed conn₁.start buffer' code parsed)) buffer' parsed
      rw [hserve]
      refine ⟨(.waiting conn.nowMs :: (ins ++ ins') ++
        [.parsed conn₁.start buffer' code parsed]) ++
          (.dispatched parsed response :: (answerBlocks app parsed response).map .send), ?_, ?_⟩
      · rw [Conn.advance, hanswer, Conn.emit, hlog', hlog]
        simp only [List.append_assoc, List.cons_append, List.nil_append]
      · have hreply := written_reply app parsed response
        rw [served_append, wire_append, hquiet.1, hquiet.2, List.nil_append, List.nil_append,
          hreply.1, hreply.2]
        have hanswered : PassWritten app _ _ parsed.keepAlive := .answer parsed response
        cases hkeep : parsed.keepAlive <;> rw [hkeep] at hanswered <;> exact hanswered

-- ============================================================================
-- The connection
-- ============================================================================

/-- Every answer but the last keeps the connection, and the last does too where
    something follows it. -/
def KeptOpen (items : List (ParsedRequest × MnetResponse)) (closing : Bytes) : Prop :=
  (∀ x ∈ items.dropLast, x.1.keepAlive = true) ∧
    (closing ≠ [] → ∀ x ∈ items, x.1.keepAlive = true)

theorem KeptOpen.cons {items : List (ParsedRequest × MnetResponse)} {closing : Bytes}
    (h : KeptOpen items closing) {x : ParsedRequest × MnetResponse} (hx : x.1.keepAlive = true) :
    KeptOpen (x :: items) closing := by
  obtain ⟨hinit, hlast⟩ := h
  refine ⟨fun y hy => ?_, fun hne => List.forall_mem_cons.mpr ⟨hx, hlast hne⟩⟩
  cases items with
  | nil => exact absurd hy List.not_mem_nil
  | cons z items =>
      rcases List.mem_cons.mp hy with rfl | hy
      · exact hx
      · exact hinit y hy

/-- A connection sends the answers to its requests in their order, and behind
    them at most one error page. -/
theorem handleLoop_written (app : MnetApp) (keepAlive : Bool) (buffer : Bytes) (conn : Conn) :
    ∃ es closing, (handleLoop app keepAlive buffer conn).log = conn.log ++ es ∧
      wire es = (served es).flatMap (answerWire app) ++ closing ∧ ClosesWith closing ∧
      KeptOpen (served es) closing := by
  fun_induction handleLoop app keepAlive buffer conn with
  | case1 keepAlive buffer conn conn' hstep =>
      obtain ⟨es, hlog, hpass⟩ := clientStep_written app keepAlive buffer conn
      rw [hstep] at hlog hpass
      generalize hserved : served es = items at hpass
      generalize hwire : wire es = bytes at hpass
      generalize hmore : (none : Option Bytes).isSome = more at hpass
      cases hpass with
      | closing hclose =>
          refine ⟨es, bytes, hlog, ?_, hclose, ?_⟩
          · rw [hserved, hwire]
            rfl
          · rw [hserved]
            exact ⟨fun x hx => absurd hx List.not_mem_nil, fun _ x hx => absurd hx List.not_mem_nil⟩
      | answer req response =>
          refine ⟨es, [], hlog, ?_, .inl rfl, ?_⟩
          · rw [hserved, hwire, List.append_nil]
            exact (List.flatMap_singleton ..).symm
          · rw [hserved]
            exact ⟨fun x hx => absurd hx List.not_mem_nil, fun hne => absurd rfl hne⟩
  | case2 keepAlive buffer conn next conn' hstep ih =>
      obtain ⟨es, hlog, hpass⟩ := clientStep_written app keepAlive buffer conn
      rw [hstep] at hlog hpass
      obtain ⟨rest, closing, hrest, hwireRest, hclose, hopen⟩ := ih
      generalize hserved : served es = items at hpass
      generalize hwire : wire es = bytes at hpass
      generalize hmore : (some next).isSome = more at hpass
      cases hpass with
      | closing => exact absurd hmore (by simp)
      | answer req response =>
          refine ⟨es ++ rest, closing, ?_, ?_, hclose, ?_⟩
          · rw [hrest, hlog, List.append_assoc]
          · rw [wire_append, served_append, hserved, hwire, hwireRest, List.flatMap_append,
              List.flatMap_singleton, List.append_assoc]
          · rw [served_append, hserved]
            exact hopen.cons hmore.symm

-- ============================================================================
-- What is read
-- ============================================================================

/-- A page as a response. -/
def ErrorPage.response (page : ErrorPage) : MnetResponse :=
  { status := page.status, contentType := some (ascii "text/html; charset=utf-8"),
    body := some page.body, bodyLength := page.body.length }

theorem ErrorPage.bodyBytes_response (page : ErrorPage) : page.response.bodyBytes = page.body :=
  List.take_length

/-- The message a page stands for. -/
def ErrorPage.message (page : ErrorPage) (keepAlive : Bool) : HttpMessage.Message :=
  responseMessage page.response false keepAlive

def notFoundErrorPage : ErrorPage := ⟨404, ascii "Not Found", notFoundPage⟩

/-- The message that answers a request. -/
def answerMessage (app : MnetApp) (x : ParsedRequest × MnetResponse) : HttpMessage.Message :=
  if sendsNotFound app x.2 then notFoundErrorPage.message x.1.keepAlive
  else responseMessage x.2 (x.1.methodEnum == some .head) x.1.keepAlive

/-- The answer is one message to its reader: the 404 page for a request that is
    not HEAD, or a response with a body of its length that can be written. -/
def Readable (app : MnetApp) (x : ParsedRequest × MnetResponse) : Prop :=
  if sendsNotFound app x.2 then x.1.methodEnum ≠ some .head
  else (200 ≤ x.2.status ∧ x.2.status ≤ 999 ∧ x.2.status ≠ 204 ∧ x.2.status ≠ 304) ∧
    x.2.bodyLength ≤ (x.2.body.getD []).length ∧ x.2.writable x.1.keepAlive = true

instance (app : MnetApp) (x : ParsedRequest × MnetResponse) : Decidable (Readable app x) :=
  inferInstanceAs (Decidable (ite _ _ _))

/-- Every message of the server says where it ends. -/
theorem framed_responseMessage (r : MnetResponse) (headOnly keepAlive : Bool) :
    (responseMessage r headOnly keepAlive).framed headOnly = true := by
  cases hchunked : r.chunked with
  | true =>
      have hframing : framingField r = (ascii "Transfer-Encoding", ascii "chunked") := by
        rw [framingField, if_pos hchunked]
      rw [HttpMessage.Message.framed, responseMessage, hframing,
        HttpMessage.valuesOf_cons_of_eq (by decide), List.isEmpty_cons, Bool.not_false,
        Bool.or_true, Bool.true_or]
  | false =>
      have hframing : framingField r = (ascii "Content-Length", decimal r.bodyLength) := by
        rw [framingField, hchunked, if_neg Bool.false_ne_true]
      rw [HttpMessage.Message.framed, responseMessage, hframing,
        @HttpMessage.valuesOf_cons_of_eq HttpMessage.contentLength _ (by decide),
        List.isEmpty_cons, Bool.not_false, Bool.or_true]

/-- The reason of a status line is passed over. -/
theorem readStatus_line {status : Int} (hlo : 200 ≤ status) (hhi : status ≤ 999) (text : Bytes) :
    HttpMessage.readStatus (HttpMessage.version ++ (decimalInt status ++ 32 :: text)) =
      some status.toNat := by
  obtain ⟨hdigits, hthree⟩ := decimal_status hlo hhi
  rw [hdigits]
  exact HttpMessage.readStatus_append hthree (read_decimal _) _

theorem noBreak_statusLine (status : Int) {text : Bytes} (htext : noBreak text = true) :
    CR ∉ HttpMessage.version ++ (decimalInt status ++ 32 :: text) := by
  apply cr_not_mem_of_noBreak
  show noBreak (ascii "HTTP/1.1 " ++ (decimalInt status ++ (ascii " " ++ text))) = true
  rw [noBreak_append, noBreak_append, noBreak_append, noBreak_decimalInt, htext]
  decide

/-- What is asked of a page. -/
structure ErrorPage.Sound (page : ErrorPage) (keepAlive : Bool) : Prop where
  status : 400 ≤ page.status ∧ page.status ≤ 599
  text : noBreak page.text = true
  fits : (formatHead page.status page.text (contentLengthHeader page.body.length)
    (ascii "text/html; charset=utf-8") keepAlive).length < 512

/-- A page is read as the message it stands for, whatever its reason. -/
theorem readMessage_page {page : ErrorPage} {keepAlive : Bool} (h : page.Sound keepAlive) :
    readMessage false (page.blocks keepAlive).flatten = some (page.message keepAlive, []) := by
  obtain ⟨hlo, hhi⟩ := h.status
  have hstatus : page.response.status = page.status := rfl
  have htype : mnetHeaderValueValid page.response.contentTypeOrDefault = true := by
    show mnetHeaderValueValid (ascii "text/html; charset=utf-8") = true
    decide
  have hread := @readMessage_response page.response false keepAlive (by omega) (by omega)
    (by omega) (by omega) (Nat.le_refl _) htype
  have hpayload : responsePayload page.response false = page.body := page.bodyBytes_response
  rw [hpayload, responseHead, formatHead_append, hstatus] at hread
  rw [ErrorPage.blocks, pageBlocks, if_neg (Nat.not_le.mpr h.fits), List.flatten_cons,
    List.flatten_singleton, formatHead_append, HttpMessage.readMessage_congr_line
      (noBreak_statusLine _ h.text) (noBreak_statusLine _ (noBreak_statusText page.status))]
  · exact hread
  · rw [readStatus_line (by omega) (by omega), readStatus_line (by omega) (by omega)]

theorem sound_rejectPage {code : ParseCode} {page : ErrorPage} (h : rejectPage code = some page) :
    page.Sound false := by
  cases code with
  | ok => exact absurd h (by simp [rejectPage])
  | _ =>
      obtain rfl := Option.some.inj h
      exact ⟨by decide, by decide +kernel, by decide +kernel⟩

theorem sound_notFound (keepAlive : Bool) : notFoundErrorPage.Sound keepAlive := by
  cases keepAlive with
  | true => exact ⟨by decide, by decide, by decide +kernel⟩
  | false => exact ⟨by decide, by decide, by decide +kernel⟩

/-- A readable answer is read as its message. -/
theorem readMessage_answer {app : MnetApp} {x : ParsedRequest × MnetResponse}
    (h : Readable app x) :
    readMessage (x.1.methodEnum == some .head) (answerWire app x) =
        some (answerMessage app x, []) ∧
      (answerMessage app x).framed (x.1.methodEnum == some .head) = true := by
  rw [Readable] at h
  rw [answerWire, answerBlocks_eq, answerMessage]
  split at h
  · next hnone =>
    have hget : (x.1.methodEnum == some HttpMethod.head) = false := by simpa using h
    have hblocks : pageBlocks 404 (ascii "Not Found") notFoundPage x.1.keepAlive =
        notFoundErrorPage.blocks x.1.keepAlive := by
      rw [ErrorPage.blocks, notFoundErrorPage]
    rw [if_pos hnone, if_pos hnone, hget, hblocks]
    exact ⟨readMessage_page (sound_notFound _), framed_responseMessage _ _ _⟩
  · next hnone =>
    obtain ⟨⟨hlo, hhi, h204, h304⟩, hbody, hw⟩ := h
    have hparts := hw
    simp only [MnetResponse.writable, Bool.and_eq_true, decide_eq_true_eq] at hparts
    rw [if_neg hnone, if_neg hnone, flatten_responseBlocks hw]
    refine ⟨?_, framed_responseMessage _ _ _⟩
    show readMessage _ (responseHead x.2 _ ++ responsePayload x.2 _) = _
    exact readMessage_response hlo hhi h204 h304 hbody hparts.1

/-- A peer that knows which of the requests were HEAD reads, for each of them,
    the answer to it, and behind the last at most one error page, which says that
    the connection is closed. -/
def ReadsBack (app : MnetApp) (log : List Event) : Prop :=
  ∃ closing,
    readAll ((served log).map fun x => x.1.methodEnum == some .head) (wire log) =
      some ((served log).map (answerMessage app), closing) ∧
    (closing = [] ∨ ∃ code page, rejectPage code = some page ∧
      readMessage false closing = some (page.message false, [])) ∧
    KeptOpen (served log) closing

/-- On every connection whose answers are readable, the peer reads them back in
    the order of the requests. -/
theorem readsBack_connection (app : MnetApp) (arrivals : List Arrival) (clock : Nat → Int)
    (world : Nat → World)
    (hreadable : ∀ x ∈ served (mnetHandleClient app (.opened arrivals clock world)).log,
      Readable app x) :
    ReadsBack app (mnetHandleClient app (.opened arrivals clock world)).log := by
  obtain ⟨log, closing, hlog, hwire, hclose, hopen⟩ :=
    handleLoop_written app false [] (.opened arrivals clock world)
  have hlog' : (mnetHandleClient app (.opened arrivals clock world)).log = log := hlog
  rw [hlog'] at hreadable ⊢
  refine ⟨closing, ?_, ?_, hopen⟩
  · have hread := fun x hx => readMessage_answer (hreadable x hx)
    rw [hwire]
    exact HttpMessage.readAll_flatMap (served log) hread closing
  · obtain hnil | ⟨code, page, hpage, hclosing⟩ := hclose
    · exact .inl hnil
    · rw [hclosing]
      exact .inr ⟨code, page, hpage, readMessage_page (sound_rejectPage hpage)⟩

/-- One page, for GET and so for HEAD. -/
def onePageApp : MnetApp :=
  { routes := [{ method := .get, path := ascii "/",
                 handler := fun _ _ => mnetText (some (ascii "hello")) }] }

/-- A GET and a HEAD request that keep the connection, and one that is refused. -/
def refusedAtLast : List Arrival :=
  [.segment (ascii "GET / HTTP/1.1\r\nConnection: keep-alive\r\n\r\n"),
   .segment (ascii "HEAD / HTTP/1.1\r\nConnection: keep-alive\r\n\r\n"),
   .segment (ascii "TRACE / HTTP/1.1\r\n\r\n")]

theorem readsBack_refusedAtLast :
    ReadsBack onePageApp
      (mnetHandleClient onePageApp (.opened refusedAtLast (fun _ => 0) fun _ => {})).log :=
  readsBack_connection onePageApp refusedAtLast (fun _ => 0) (fun _ => {}) (by decide +kernel)

end Mnet
