/-
  Mnet.CallRoundTrip

  `mnet_call` against `mnet_handle_client`: what a client of the library gets
  from a server of the library.

  The request for a plain URL comes in whole and is dispatched as what the URL
  says (`clientStep_call`); the bytes of the answer are taken apart by
  `mnet_read_response` (`mnetReadResponse_raw`).  Neither side depends on how
  the bytes are cut on their way.
-/

import Mnet.ClientReads
import Mnet.ClientRequest
import Mnet.ConnectionWire
import Mnet.HeadLimit
import Mnet.KeepAliveFraming

namespace Mnet

-- ============================================================================
-- The request
-- ============================================================================

theorem length_callText (host path : Bytes) :
    (callText host path).length = host.length + path.length + 81 := by
  have hfixed : (ascii "GET ").length = 4 ∧ (ascii " HTTP/1.1").length = 9 ∧
      (ascii "Host: ").length = 6 ∧ (ascii "User-Agent: mnet/0.2.5").length = 22 ∧
      (ascii "Accept: */*").length = 11 ∧ (ascii "Connection: close").length = 17 ∧
      CRLF.length = 2 := by decide
  simp only [callText, List.length_append, hfixed]
  omega

/-- A plain URL with a host is called, with its own host and target. -/
theorem callRequest_plainUrl {url : Bytes} (hplain : PlainUrl url) (hhost : urlHost url ≠ []) :
    callRequest url = some (callText (urlHost url) (urlTarget url)) := by
  have hclip : clipTo 1024 (urlHost url) = urlHost url :=
    List.take_of_length_le hplain.host.length
  have hfits : ¬ (callText (urlHost url) (urlTarget url)).length ≥ 4096 := by
    have hhostLen := hplain.host.length
    have htargetLen := hplain.length
    rw [length_callText]
    omega
  rw [callRequest, mnetUrlParse]
  dsimp only
  rw [if_neg hhost, hclip, urlPathStart_eq, clipTo_urlRest hplain.length hplain.fragment]
  exact if_neg hfits

/-- What the server makes of the request for a URL: a GET request for its path
    and query, with the client's header fields, that does not keep the
    connection. -/
structure AsksFor (url : Bytes) (req : ParsedRequest) : Prop where
  method : req.method = ascii "GET" ∧ req.methodEnum = some .get
  path : req.path = urlTarget url
  headers : req.extras.headers = callFields (urlHost url)
  noBody : req.bodyLength = 0
  closes : req.keepAlive = false

theorem parseRequest_call {url : Bytes} (h0 : (0 : Byte) ∉ url) (hplain : PlainUrl url) :
    ∃ r : WireRequest, r.head = callText (urlHost url) (urlTarget url) ∧
      r.head.length ≤ bufferRoom ∧
      ∀ (conn : Conn) (maxBodySize : Nat) (timeoutMs : Int), ∃ req conn',
        parseRequest conn r.head r.head.length maxBodySize timeoutMs = (.ok, req, conn') ∧
          AsksFor url req := by
  have htarget0 : (0 : Byte) ∉ urlTarget url :=
    fun h => noNul_urlRest h0 ((List.takeWhile_prefix _).subset h)
  have hpos : 1 ≤ (urlTarget url).length := by
    cases hcons : urlTarget url with
    | nil => exact absurd hplain.slash (by simp [hcons])
    | cons b target => exact Nat.succ_le_succ (Nat.zero_le _)
  have hclean : ∀ b ∈ urlTarget url, isspace b = false ∧ b ≠ 0 :=
    fun b hb => ⟨hplain.noSpace b hb, fun h => htarget0 (h ▸ hb)⟩
  let r := wireCall (urlTarget url) (urlHost url) ⟨hpos, hplain.length⟩ hclean hplain.host
    (noNul_urlHost h0)
  have hhead : callText (urlHost url) (urlTarget url) = r.head := callText_eq_head ..
  refine ⟨r, hhead.symm, ?_, fun conn maxBodySize timeoutMs => ?_⟩
  · have hhostLen := hplain.host.length
    have htargetLen := hplain.length
    have hroom : bufferRoom = 8191 := rfl
    rw [← hhead, length_callText]
    omega
  · obtain ⟨req, conn', hparse, hdecoded⟩ :=
      r.parseRequest_of_no_body rfl conn maxBodySize timeoutMs
    refine ⟨req, conn', hparse, hdecoded.method, hdecoded.path, hdecoded.headers,
      hdecoded.bodyLength, ?_⟩
    rw [hdecoded.keepAlive]
    show (callFields (urlHost url)).any isKeepAlive = false
    have hothers : ([(ascii "User-Agent", ascii "mnet/0.2.5"), (ascii "Accept", ascii "*/*"),
      (ascii "Connection", ascii "close")] : List (Bytes × Bytes)).any isKeepAlive = false := by
      decide
    have hfirst : isKeepAlive (ascii "Host", urlHost url) = false := by
      have hname : strcaseeq (ascii "Host") (ascii "Connection") = false := by decide
      rw [isKeepAlive, hname, Bool.false_and]
    rw [callFields, List.any_cons, hothers, hfirst]
    rfl

-- ============================================================================
-- The server
-- ============================================================================

/-- A request without a body that comes in time is read whole, however it is
    cut. -/
theorem readRequest_head {app : MnetApp} {conn : Conn} {r : WireRequest}
    (hstream : conn.stream = r.head) (hfits : r.head.length ≤ bufferRoom)
    (htime : ComesInTime conn.clock (conn.nowMs + requestTimeout app false) conn.arrivals
      (conn.readings + 1) r.head.length) :
    ∃ conn', readRequest app false [] conn = (true, r.head, conn') ∧
      (conn.beginPass []).Received r.head conn' := by
  obtain ⟨got, conn', hrecv, hout⟩ := readHead_takes htime (conn.beginPass []) [] rfl rfl rfl
    (by rw [List.length_nil, Nat.zero_add]; exact hfits) rfl
  have hpre : got <+: r.head := ⟨_, hstream ▸ hrecv.stream.symm⟩
  have hblank : hasBlankLine got = true ↔ r.head.length ≤ got.length :=
    r.blankLineAt_head [] got (by rw [List.append_nil]; exact hpre)
  rw [List.nil_append] at hout
  rcases hout with hread | ⟨-, hle, hnone⟩
  · have hdone := readHead_blankLine (congrArg Prod.fst hread)
    rw [hread] at hdone
    obtain rfl := hpre.eq_of_length_le (hblank.mp hdone)
    exact ⟨conn', by rw [readRequest_first, hread], hrecv⟩
  · rw [hblank.mpr hle] at hnone
    exact absurd hnone (by simp)

/-- One pass serves the request for a URL: what `dispatch` returns for it is
    answered, and the connection ends. -/
theorem mnetHandleClient_call {url : Bytes} (h0 : (0 : Byte) ∉ url) (hplain : PlainUrl url)
    (app : MnetApp) {arrivals : List Arrival} {clock : Nat → Int} (world : Nat → World)
    (hstream : streamOf arrivals = callText (urlHost url) (urlTarget url))
    (htime : ComesInTime clock (clock 0 + requestTimeout app false) arrivals 1
      (streamOf arrivals).length) :
    ∃ req i, AsksFor url req ∧
      let response := (dispatch app (world i) (streamOf arrivals) req
        (List.replicate MNET_MAX_PARAMS .null) MNET_MAX_PARAMS).1
      served (mnetHandleClient app (.opened arrivals clock world)).log = [(req, response)] ∧
        wire (mnetHandleClient app (.opened arrivals clock world)).log =
          answerWire app (req, response) := by
  obtain ⟨r, hhead, hfits, hparses⟩ := parseRequest_call h0 hplain
  rw [← hhead] at hstream
  rw [hstream] at htime ⊢
  obtain ⟨conn₁, hread, hrecv⟩ :=
    @readRequest_head app (.opened arrivals clock world) r hstream hfits htime
  obtain ⟨req, conn₂, hparse, hasks⟩ := hparses conn₁ app.bodyLimit (requestTimeout app false)
  obtain ⟨body, hbody⟩ := parseRequest_received conn₁ r.head r.head.length app.bodyLimit
    (requestTimeout app false)
  rw [hparse] at hbody
  obtain ⟨ins, hins, hinput⟩ := hrecv.log
  obtain ⟨ins', hins', hinput'⟩ := hbody.log
  dsimp only at hins'
  have hworld : conn₂.world = world := hbody.world.trans hrecv.world
  have hinputs : ∀ e ∈ ins ++ ins', e.isInput = true :=
    fun e he => (List.mem_append.mp he).elim (hinput e) (hinput' e)
  obtain ⟨hserved, hwire⟩ := silent_of_inputs hinputs
  have hstep : clientStep app false [] (.opened arrivals clock world) =
      (none, (serveParsed app (conn₂.emit (.parsed conn₂.start r.head .ok req)) r.head
        req).advance (r.head.length - (nextBuffer r.head).length)) := by
    rw [clientStep_of_readRequest hread, serveRequest, hparse]
    dsimp only
    rw [if_neg (by simp), hasks.closes]
    rfl
  have hlog : (Conn.opened arrivals clock world).beginPass [] =
    { Conn.opened arrivals clock world with
      readings := 1, start := 0, log := [.waiting (clock 0)] } := rfl
  refine ⟨req, (conn₂.emit (.parsed conn₂.start r.head .ok req)).log.length, hasks, ?_⟩
  intro response
  have hresponse : response = (dispatch app
      (conn₂.emit (.parsed conn₂.start r.head .ok req)).worldNow r.head req
      (List.replicate MNET_MAX_PARAMS .null) MNET_MAX_PARAMS).1 := by
    rw [Conn.worldNow]
    show _ = (dispatch app (conn₂.world _) _ _ _ _).1
    rw [hworld]
  have hall : (mnetHandleClient app (.opened arrivals clock world)).log =
      .waiting (clock 0) :: (ins ++ ins') ++ [.parsed conn₂.start r.head .ok req] ++
        (.dispatched req response :: (answerBlocks app req response).map .send) := by
    rw [mnetHandleClient, handleLoop_none hstep, Conn.advance, serveParsed]
    dsimp only
    rw [← hresponse, respond_eq_sends, Conn.sends, Conn.emit, Conn.emit, hins', hins, hlog]
    simp only [List.append_assoc, List.cons_append, List.nil_append]
  obtain ⟨hreplyServed, hreplyWire⟩ := written_reply app req response
  rw [hall]
  constructor
  · rw [served_append, served_append, hreplyServed]
    show served (ins ++ ins') ++ [] ++ [(req, response)] = _
    rw [hserved]
    rfl
  · rw [wire_append, wire_append, hreplyWire]
    show wire (ins ++ ins') ++ [] ++ answerWire app (req, response) = _
    rw [hwire]
    rfl

-- ============================================================================
-- The client
-- ============================================================================

/-- Where the whole answer fits, the client takes the status off its first line
    and the body from behind the first blank line. -/
theorem mnetReadResponse_raw {arrivals : List ClientArrival} {off : Nat} {raw : Bytes}
    (maxBody : Nat) (hcap : maxBody + CLIENT_BUFFER_SIZE < SIZE_T) (hgood : ∀ a ∈ arrivals, a.good)
    (hraw : arrivals.flatMap ClientArrival.text = raw)
    (hroom : raw.length < maxBody + CLIENT_BUFFER_SIZE) (hne : raw ≠ [])
    (hoff : findBody raw 0 = some off) :
    mnetReadResponse arrivals maxBody =
      some (responseStatus raw, (raw.drop off).take maxBody) := by
  have hfits : ([] : Bytes).length + (arrivals.flatMap ClientArrival.text).length <
      (maxBody + CLIENT_BUFFER_SIZE) % SIZE_T := by
    rw [Nat.mod_eq_of_lt hcap, hraw, List.length_nil, Nat.zero_add]
    exact hroom
  obtain ⟨block, hread, hbytes⟩ := @readRaw_all _ _ {} hgood hfits
  rw [List.nil_append, hraw] at hbytes
  have hcapacity : block.cap ≠ 0 := by
    intro h
    have hle := block.fits
    rw [h, hbytes] at hle
    exact hne (List.eq_nil_of_length_eq_zero (Nat.le_zero.mp hle))
  simp only [mnetReadResponse, hread, if_neg hcapacity, hbytes, hoff, Option.getD_some]

/-- The status of a status line. -/
theorem responseStatus_line {n : Nat} (hlo : 200 ≤ n) (hhi : n ≤ 999) (rest : Bytes) :
    responseStatus (ascii "HTTP/1.1 " ++ (decimal n ++ 32 :: rest)) = n := by
  have hthree : (decimal n).length = 3 :=
    (@decimal_status (n : Int) (by omega) (by omega)).2
  have hlen : 12 ≤ (ascii "HTTP/1.1 " ++ (decimal n ++ 32 :: rest)).length := by
    have hversion : (ascii "HTTP/1.1 ").length = 9 := by decide
    rw [List.length_append, List.length_append, hthree, hversion]
    omega
  have hspace : memchr (ascii "HTTP/1.1 " ++ (decimal n ++ 32 :: rest)) SP
      (ascii "HTTP/1.1 " ++ (decimal n ++ 32 :: rest)).length = some 8 := by
    have hfind : Search.find [SP] (ascii "HTTP/1.1 ") = some 8 := by decide
    rw [memchr, List.take_length]
    exact Search.find_append_of_some hfind _
  rw [responseStatus, if_pos ⟨hlen, rfl⟩, hspace]
  show atoi (decimal n ++ 32 :: rest) = n
  exact atoi_decimal (by omega) (by decide) rest

/-- A response the client gets whole: not chunked, its head fits, and its body
    is no longer than the client allows. -/
structure Callable (r : MnetResponse) : Prop where
  status : 200 ≤ r.status ∧ r.status ≤ 999
  body : r.bodyLength ≤ (r.body.getD []).length
  fits : r.bodyLength ≤ MNET_MAX_BODY_SIZE
  plain : r.chunked = false
  writable : r.writable false = true

/-- What `mnet_call` returns for a response: its body, NULL for an error
    status. -/
def callResult (r : MnetResponse) : Option Bytes :=
  if r.status ≥ 400 then none else some r.bodyBytes

/-- The client gets the body of a response with a status below 400. -/
theorem mnetCall_response {url : Bytes} (hplain : PlainUrl url) (hhost : urlHost url ≠ [])
    {r : MnetResponse} (hr : Callable r) {arrivals : List ClientArrival}
    (hgood : ∀ a ∈ arrivals, a.good)
    (hwire : arrivals.flatMap ClientArrival.text = responseHead r false ++ r.bodyBytes) :
    mnetCall url arrivals = callResult r := by
  obtain ⟨hlo, hhi⟩ := hr.status
  obtain ⟨n, hn⟩ := Int.eq_ofNat_of_zero_le (by omega : 0 ≤ r.status)
  have hparts := hr.writable
  simp only [MnetResponse.writable, Bool.and_eq_true, decide_eq_true_eq] at hparts
  have hlen := length_bodyBytes hr.body
  have hmax : r.bodyBytes.length ≤ MNET_MAX_BODY_SIZE := hlen.symm ▸ hr.fits
  obtain ⟨rest, hrest⟩ : ∃ rest, responseHead r false ++ r.bodyBytes =
      ascii "HTTP/1.1 " ++ (decimal n ++ 32 :: rest) := by
    rw [responseHead, formatHead_append, hn]
    exact ⟨_, by simp only [List.append_assoc, List.cons_append]; rfl⟩
  have hread := mnetReadResponse_raw MNET_MAX_BODY_SIZE (by decide) hgood hwire
    (by rw [List.length_append, CLIENT_BUFFER_SIZE]; omega)
    (fun h => responseHead_ne_nil r false (List.append_eq_nil_iff.mp h).1)
    (findBody_response false hparts.1 r.bodyBytes)
  rw [List.drop_left, List.take_of_length_le hmax, hrest, responseStatus_line (by omega) (by omega),
    ← hn] at hread
  simp only [mnetCall, callRequest_plainUrl hplain hhost, hread, callResult]

-- ============================================================================
-- Both
-- ============================================================================

/-- The response that is sent for what `dispatch` returns. -/
def answerResponse (app : MnetApp) (response : MnetResponse) : MnetResponse :=
  if sendsNotFound app response then notFoundErrorPage.response else response

/-- The answer to a GET request that does not keep the connection. -/
theorem answerWire_get {app : MnetApp} {req : ParsedRequest} {response : MnetResponse}
    (hget : req.methodEnum = some .get) (hclose : req.keepAlive = false)
    (hr : Callable (answerResponse app response)) :
    answerWire app (req, response) =
      responseHead (answerResponse app response) false ++
        (answerResponse app response).bodyBytes := by
  rw [answerResponse] at hr ⊢
  rw [answerWire, answerBlocks_eq, hclose]
  split at hr
  · next hnone =>
    have htext : statusText 404 = ascii "Not Found" := by decide
    rw [if_pos hnone, if_pos hnone, pageBlocks_notFound, List.flatten_cons,
      List.flatten_singleton, ErrorPage.bodyBytes_response, responseHead]
    simp only [notFoundErrorPage, ErrorPage.response, MnetResponse.contentTypeOrDefault,
      Option.getD_some, Bool.false_eq_true, if_false, htext]
  · next hnone =>
    have hhead : (req.methodEnum == some HttpMethod.head) = false := by rw [hget]; rfl
    rw [if_neg hnone, if_neg hnone, flatten_responseBlocks hr.writable, hhead, hr.plain,
      if_neg Bool.false_ne_true, if_neg Bool.false_ne_true]

/-- A call of a URL on a connection to the server: one request is dispatched,
    which asks for what the URL says, and whatever `dispatch` returns for it, if
    it can be sent whole the caller gets it, however the bytes are cut. -/
def CallServed (app : MnetApp) (url : Bytes) (arrivals : List Arrival) (clock : Nat → Int)
    (world : Nat → World) : Prop :=
  ∃ req response, AsksFor url req ∧
    (∃ i, response = (dispatch app (world i) (streamOf arrivals) req
      (List.replicate MNET_MAX_PARAMS .null) MNET_MAX_PARAMS).1) ∧
    served (mnetHandleClient app (.opened arrivals clock world)).log = [(req, response)] ∧
    (Callable (answerResponse app response) → ∀ back : List ClientArrival, (∀ a ∈ back, a.good) →
      back.flatMap ClientArrival.text =
        wire (mnetHandleClient app (.opened arrivals clock world)).log →
      mnetCall url back = callResult (answerResponse app response))

/-- Every plain URL is called as it says: the request reaches the handler, and
    the handler's response the caller. -/
theorem callServed_of_plainUrl {url : Bytes} (h0 : (0 : Byte) ∉ url) (hplain : PlainUrl url)
    (hhost : urlHost url ≠ []) (app : MnetApp) {arrivals : List Arrival} {clock : Nat → Int}
    (world : Nat → World) (hstream : callRequest url = some (streamOf arrivals))
    (htime : ComesInTime clock (clock 0 + requestTimeout app false) arrivals 1
      (streamOf arrivals).length) :
    CallServed app url arrivals clock world := by
  rw [callRequest_plainUrl hplain hhost] at hstream
  obtain ⟨req, i, hasks, hserved, hwire⟩ :=
    mnetHandleClient_call h0 hplain app world (Option.some.inj hstream).symm htime
  refine ⟨req, _, hasks, ⟨i, rfl⟩, hserved, fun hr back hgood hback => ?_⟩
  rw [hwire, answerWire_get hasks.method.2 hasks.closes hr] at hback
  exact mnetCall_response hplain hhost hr hgood hback

/-- The page of `onePageApp`. -/
def onePageUrl : Bytes := ascii "http://h/"

/-- The request for it in two segments. -/
def onePageCall : List Arrival :=
  [.segment (ascii "GET / HTTP/1.1\r\nHost: h\r\nUser-A"),
   .segment (ascii "gent: mnet/0.2.5\r\nAccept: */*\r\nConnection: close\r\n\r\n")]

theorem callServed_onePage : CallServed onePageApp onePageUrl onePageCall (fun _ => 0) fun _ => {} := by
  apply callServed_of_plainUrl
  · decide
  · exact ⟨by decide, by decide +kernel, by decide, by decide, by decide, by decide,
      by decide +kernel⟩
  · decide
  · decide
  · show ComesInTime _ _ onePageCall 1 83
    exact .segment (by decide) (by decide) (.segment (by decide) (by decide) (.complete _ _))

end Mnet
