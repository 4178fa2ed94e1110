/-
  Mnet.HandlerView

  What a handler reads of a request, against what its client meant.

  An `Errand` is a request to a route together with its meaning: a value for
  each parameter of the pattern, query pairs, cookies, headers and a body, and
  the bytes they are written as.  `Errand.Sees` says that every accessor of
  `mnet_request.c` returns that meaning.  On a connection that brings errands
  one behind the other, each handler sees its own (`errands_served`).
-/

import Mnet.CookieRoundTrip
import Mnet.KeepAliveFraming
import Mnet.NotFoundRequest
import Mnet.QueryLimits
import Mnet.RouteMeaning
import Mnet.ServedRequests
import Mnet.UrlDecoding

namespace Mnet

-- ============================================================================
-- The values in a path
-- ============================================================================

/-- How a byte of a value is written in a path: as itself, or escaped. -/
def segmentUnit (b : Byte) (piece : Bytes) : Prop :=
  Percent.IsEscape b piece ∨ (b ≠ 37 ∧ piece = [b])

/-- The path that brings values to the parameters of a pattern, in the place of
    their segments, and to its wildcard, which is not decoded. -/
inductive PathFor : List Segment → Bool → List Bytes → Bytes → Prop where
  | done : PathFor [] false [] []
  | wildcard {text : Bytes} (hne : text ≠ []) : PathFor [] true [text] (SLASH :: text)
  | literal {segments : List Segment} {wild : Bool} {values : List Bytes} {path : Bytes}
      (text : Bytes) (hrest : PathFor segments wild values path) :
      PathFor (.literal text :: segments) wild values (SLASH :: (text ++ path))
  | param {segments : List Segment} {wild : Bool} {values : List Bytes} {path value text : Bytes}
      (name : Bytes) (hne : text ≠ []) (hslash : SLASH ∉ text) (hnul : (0 : Byte) ∉ value)
      (hwrites : Percent.Writes segmentUnit value text)
      (hrest : PathFor segments wild values path) :
      PathFor (.param name :: segments) wild (value :: values) (SLASH :: (text ++ path))

/-- The names the values go by: those of the parameters, and `*`. -/
def valueNames : List Segment → Bool → List Bytes
  | [], wildcard => if wildcard then [[STAR]] else []
  | .literal _ :: segments, wildcard => valueNames segments wildcard
  | .param name :: segments, wildcard => name :: valueNames segments wildcard

theorem PathFor.length_eq {segments : List Segment} {wild : Bool} {values : List Bytes}
    {path : Bytes} (h : PathFor segments wild values path) :
    values.length = (valueNames segments wild).length := by
  induction h with
  | done | wildcard => rfl
  | literal text hrest ih => exact ih
  | param name hne hslash hnul hwrites hrest ih => exact congrArg (· + 1) ih

theorem PathFor.endsOrSlash {segments : List Segment} {wild : Bool} {values : List Bytes}
    {path : Bytes} (h : PathFor segments wild values path) :
    EndsOrSlash path ∧ (renderSegments segments wild = [] ↔ path = []) := by
  cases h with
  | done => exact ⟨.inl rfl, iff_of_true rfl rfl⟩
  | wildcard hne =>
      exact ⟨.inr ⟨_, rfl⟩, iff_of_false (List.cons_ne_nil _ _) (List.cons_ne_nil _ _)⟩
  | literal text hrest =>
      exact ⟨.inr ⟨_, rfl⟩, iff_of_false (List.cons_ne_nil _ _) (List.cons_ne_nil _ _)⟩
  | param name hne hslash hnul hwrites hrest =>
      exact ⟨.inr ⟨_, rfl⟩, iff_of_false (List.cons_ne_nil _ _) (List.cons_ne_nil _ _)⟩

/-- The capture by an element with a name, which brought the value. -/
structure CaptureOf (c : Capture) (entry : Bytes × Bytes) : Prop where
  value : c.value = entry.2
  site : (c.site = [STAR] ∧ entry.1 = [STAR]) ∨
    ∃ rest, c.site = COLON :: (entry.1 ++ rest) ∧ EndsOrSlash rest ∧ entry.1 ≠ [] ∧ SLASH ∉ entry.1

/-- A segment is decoded to the value it writes. -/
theorem decodeSegment_writes {value text : Bytes} (h0 : (0 : Byte) ∉ value)
    (h : Percent.Writes segmentUnit value text) (hlen : text.length ≤ 4095) :
    decodeSegment text [] = value := by
  have hunit : ∀ b piece, segmentUnit b piece →
      Percent.IsEscape b piece ∨ ∃ c, c ≠ 37 ∧ piece = [c] ∧ id c = b := by
    rintro b piece (hescape | ⟨hne, rfl⟩)
    · exact .inl hescape
    · exact .inr ⟨b, hne, rfl, rfl⟩
  rw [decodeSegment_of_decode (h.decode_eq hunit h0) (by rwa [List.length_nil, Nat.zero_add])]
  rfl

/-- A path that brings values is matched, and captured by the names. -/
theorem PathFor.captures {segments : List Segment} {wild : Bool} {values : List Bytes}
    {path : Bytes} (h : PathFor segments wild values path) (hvalid : ∀ s ∈ segments, s.Valid)
    (hlen : path.length ≤ 4095) :
    ∃ cs, Mnet.captures (renderSegments segments wild) path = (cs, true) ∧
      List.Forall₂ CaptureOf cs ((valueNames segments wild).zip values) := by
  induction h with
  | done => exact ⟨[], captures_nil_nil, .nil⟩
  | @wildcard text hne =>
      refine ⟨[⟨[STAR], text⟩], ?_, .cons ⟨rfl, .inl ⟨rfl, rfl⟩⟩ .nil⟩
      show Mnet.captures (SLASH :: [STAR]) (SLASH :: text) = _
      rw [captures_slash, captures_star _ hne, captures_nil_nil]
  | @literal segments wild values path text hrest ih =>
      rw [List.length_cons, List.length_append] at hlen
      obtain ⟨cs, heq, hcs⟩ := ih (fun s hs => hvalid s (List.mem_cons_of_mem _ hs)) (by omega)
      refine ⟨cs, ?_, hcs⟩
      rw [renderSegments, captures_slash, Segment.render,
        captures_literal (hvalid _ (List.mem_cons_self ..)), heq]
  | @param segments wild values path value text name hne hslash hnul hwrites hrest ih =>
      rw [List.length_cons, List.length_append] at hlen
      obtain ⟨cs, heq, hcs⟩ := ih (fun s hs => hvalid s (List.mem_cons_of_mem _ hs)) (by omega)
      have hname : (Segment.param name).Valid := hvalid _ (List.mem_cons_self ..)
      obtain ⟨hpath, hsame⟩ := hrest.endsOrSlash
      have hpattern := endsOrSlash_renderSegments segments wild
      have hsome : text ++ path ≠ [] := fun hnil => hne (List.append_eq_nil_iff.mp hnil).1
      have hvalue : decodeSegment text [] = value :=
        decodeSegment_writes hnul hwrites (by omega)
      refine ⟨⟨COLON :: (name ++ renderSegments segments wild), text⟩ :: cs, ?_,
        .cons ⟨hvalue, .inr ⟨_, rfl, hpattern, hname⟩⟩ hcs⟩
      rw [renderSegments, captures_slash, Segment.render, List.cons_append,
        captures_param hname.2 hpattern hslash hpath hsome, captures_skipSlash hpattern hpath hsame,
        heq]

-- ============================================================================
-- The values by their names
-- ============================================================================

/-- Up to the slash behind it there is nothing but the name. -/
theorem takeWhile_name {p : Byte → Bool} {name rest : Bytes} (hname : ∀ b ∈ name, p b = true)
    (hslash : p SLASH = false) (hrest : EndsOrSlash rest) :
    (name ++ rest).takeWhile p = name := by
  apply (Tokens.takeWhile_dropWhile_append (List.all_eq_true.mpr hname) ?_).1
  obtain rfl | ⟨more, rfl⟩ := hrest
  · exact nofun
  · rintro b ⟨⟩
    exact hslash

/-- Registration reads the same name off. -/
theorem CaptureOf.siteName_eq {c : Capture} {entry : Bytes × Bytes} (h : CaptureOf c entry)
    (hdot : DOT ∉ entry.1) (k : Nat) : siteName k c.site = entry.1 := by
  obtain ⟨hsite, hname⟩ | ⟨rest, hsite, hrest, hne, hslash⟩ := h.site
  · rw [hsite, hname]
    exact if_pos rfl
  · have hbytes : ∀ b ∈ entry.1, isNameByte b = true := by
      intro b hb
      have h1 : b ≠ SLASH := fun heq => hslash (heq ▸ hb)
      have h2 : b ≠ DOT := fun heq => hdot (heq ▸ hb)
      rw [isNameByte, Bool.and_eq_true, decide_eq_true_eq, decide_eq_true_eq]
      exact ⟨h1, h2⟩
    rw [hsite]
    show paramName k ((entry.1 ++ rest).takeWhile isNameByte) = _
    rw [takeWhile_name hbytes (by decide) hrest, paramName, if_neg hne]

/-- What `mnet_request_param` comes to, as a value or none. -/
def ParamIs (req : MnetRequest) (name : Bytes) : Option Bytes → Prop
  | some value => ∃ i, mnetRequestParam req name = .value i ∧
      req.pathParamValues[i]? = some (.live value)
  | none => mnetRequestParam req name = .null

section Names

variable {pattern : RoutePattern} {values : List Bytes} {path : Bytes}

/-- The captures of a path for the pattern, and the places they were made at. -/
theorem routeCaptures_pathFor (h : PathFor pattern.segments pattern.wildcard values path)
    (hlen : path.length ≤ 4095)
    (hdotless : ∀ name ∈ valueNames pattern.segments pattern.wildcard, DOT ∉ name) :
    (routeCaptures pattern.render path).2 = true ∧
      nameSites pattern.render = (routeCaptures pattern.render path).1.map Capture.site ∧
      List.Forall₂ CaptureOf (routeCaptures pattern.render path).1
        ((valueNames pattern.segments pattern.wildcard).zip values) := by
  obtain ⟨cs, heq, hcs⟩ := h.captures pattern.valid hlen
  have hwalk : captures pattern.render path = (cs, true) := heq
  rw [routeCaptures_render, hwalk]
  have hok : (captures pattern.render path).2 = true := by rw [hwalk]
  have hsites := captures_sites hok
  rw [hwalk] at hsites
  refine ⟨rfl, ?_, hcs⟩
  rw [hsites]
  -- no name has a dot, so nothing behind a dot is taken for a further name
  refine nameSites_of_dotsPlain (fun site hsite hcolon b hb => ?_) (captures_starLast hok)
  rw [← hsites] at hsite
  obtain ⟨c, hc, rfl⟩ := List.mem_map.mp hsite
  obtain ⟨i, hi, rfl⟩ := List.mem_iff_getElem.mp hc
  have hlt : i < ((valueNames pattern.segments pattern.wildcard).zip values).length := by
    rwa [← hcs.length_eq]
  have hcapture : CaptureOf cs[i] _ := hcs.get hi hlt
  have hname := (List.of_mem_zip (List.getElem_mem hlt)).1
  obtain ⟨hstar, -⟩ | ⟨rest, hcolon', hrest, hne, hslash⟩ := hcapture.site
  · rw [hstar] at hcolon
    exact absurd hcolon (by decide)
  · rw [dottedPart, hcolon', List.tail_cons, takeWhile_name (fun b hb => ?_) (by decide) hrest,
      List.dropWhile_eq_nil_iff.mpr (fun b hb => ?_)] at hb
    · exact absurd hb List.not_mem_nil
    · exact decide_eq_true fun heq : b = DOT => hdotless _ hname (heq ▸ hb)
    · exact decide_eq_true fun heq : b = SLASH => hslash (heq ▸ hb)

/-- A name asked for is given the value of the first parameter of that name. -/
theorem paramIs_of_lineUp {route : MnetRoute} {slots : List ParamSlot} {n : Nat}
    {entries : List (Bytes × Bytes)} (hline : ParamsLineUp route path slots n)
    (hentries : List.Forall₂ CaptureOf (routeCaptures route.path path).1 entries)
    (hdotless : ∀ entry ∈ entries, DOT ∉ entry.1) (buffer : Bytes) (parsed : ParsedRequest)
    (name : Bytes) :
    ParamIs (routedRequest buffer parsed route n slots) name
      (lookupName (· == ·) name entries) := by
  have hcapture : ∀ i c, (routeCaptures route.path path).1[i]? = some c →
      ∃ h : i < entries.length, CaptureOf c entries[i] := by
    intro i c hc
    obtain ⟨hi, rfl⟩ := List.getElem?_eq_some_iff.mp hc
    have hlt : i < entries.length := by rwa [← hentries.length_eq]
    exact ⟨hlt, hentries.get hi hlt⟩
  have hnamed : ∀ i c, (routeCaptures route.path path).1[i]? = some c →
      ∃ h : i < entries.length, CaptureOf c entries[i] ∧ siteName i c.site = entries[i].1 := by
    intro i c hc
    obtain ⟨hlt, hof⟩ := hcapture i c hc
    exact ⟨hlt, hof, hof.siteName_eq (hdotless _ (List.getElem_mem hlt)) i⟩
  have hcaptured : ∀ i (h : i < entries.length), ∃ c,
      (routeCaptures route.path path).1[i]? = some c ∧ siteName i c.site = entries[i].1 := by
    intro i h
    have hi : i < (routeCaptures route.path path).1.length := by rwa [hentries.length_eq]
    obtain ⟨hlt, -, hname⟩ := hnamed i _ (List.getElem?_eq_getElem hi)
    exact ⟨_, List.getElem?_eq_getElem hi, hname⟩
  rw [lookupName_eq_find?]
  obtain ⟨i, c, hc, hname, hfirst, hparam⟩ | ⟨hnone, hparam⟩ := hline.lookup buffer parsed name
  · obtain ⟨hlt, hof, hsite⟩ := hnamed i c hc
    have hfind : entries.find? (fun entry => entry.1 == name) = some entries[i] := by
      apply List.find?_eq_some_iff_getElem.mpr
      refine ⟨by rw [beq_iff_eq, ← hsite, hname], i, hlt, rfl, fun j hj => ?_⟩
      obtain ⟨d, hd, hother⟩ := hcaptured j (hj.trans hlt)
      rw [Bool.not_eq_true', beq_eq_false_iff_ne, ← hother]
      exact hfirst j d hj hd
    rw [hfind]
    exact ⟨i, hparam, (hline.entries i c hc).2.trans (by rw [hof.value])⟩
  · have hfind : entries.find? (fun entry => entry.1 == name) = none := by
      apply List.find?_eq_none.mpr
      intro entry hentry
      obtain ⟨i, hi, rfl⟩ := List.mem_iff_getElem.mp hentry
      obtain ⟨c, hc, hname⟩ := hcaptured i hi
      rw [beq_iff_eq, ← hname]
      exact hnone i c hc
    rw [hfind]
    exact hparam

end Names

-- ============================================================================
-- Query and cookies
-- ============================================================================

/-- The target is the path, with the pairs behind it as a form writes them. -/
def CarriesQuery (path target : Bytes) (query : List (Bytes × Bytes)) : Prop :=
  (query = [] ∧ target = path) ∨
    ∃ text, RendersQuery query text ∧ target = path ++ QUERY_MARK :: text

def isCookieField (field : Bytes × Bytes) : Bool := strcaseeq field.1 (ascii "Cookie")

/-- The last Cookie header has the cookies; without one there are none. -/
def CarriesCookies (headers : List (Bytes × Bytes)) (cookies : List Cookie) : Prop :=
  (cookies = [] ∧ ∀ field ∈ headers, isCookieField field = false) ∨
    ∃ before name after, headers = before ++ (name, cookieHeader cookies) :: after ∧
      isCookieField (name, cookieHeader cookies) = true ∧
      ∀ field ∈ after, isCookieField field = false

theorem lastCookies_of_none {headers : List (Bytes × Bytes)}
    (h : ∀ field ∈ headers, isCookieField field = false) (cookies : List (Bytes × Bytes)) :
    lastCookies headers cookies = cookies := by
  induction headers with
  | nil => rfl
  | cons field headers ih =>
      have hfield : strcaseeq field.1 (ascii "Cookie") = false := h field (List.mem_cons_self ..)
      rw [lastCookies, List.foldl_cons, hfield, if_neg Bool.false_ne_true]
      exact ih fun f hf => h f (List.mem_cons_of_mem field hf)

theorem parseCookies_written (cookies : List Cookie) :
    parseCookies (cookieHeader cookies) = cookies.map Cookie.pair := by
  rw [parseCookies]
  split
  · next hnil =>
    cases cookies with
    | nil => rfl
    | cons cookie cookies =>
        rw [cookieHeader_eq] at hnil
        have hfirst : cookie.text = [] := by
          cases cookies with
          | nil => rwa [cookieTokens, List.map_nil, List.intercalate_singleton] at hnil
          | cons c cookies =>
              rw [cookieTokens, List.map_cons,
                List.intercalate_cons_of_ne_nil (List.cons_ne_nil _ _)] at hnil
              exact (List.append_eq_nil_iff.mp (List.append_eq_nil_iff.mp hnil).1).1
        exact absurd hfirst cookie.text_ne_nil
  · show ((strtok (cookieHeader cookies) (ascii ";")).take _).map cookiePair = _
    rw [strtok_cookieHeader, map_cookiePair_cookieTokens]

theorem CarriesCookies.lastCookies {headers : List (Bytes × Bytes)} {cookies : List Cookie}
    (h : CarriesCookies headers cookies) :
    Mnet.lastCookies headers [] = cookies.map Cookie.pair := by
  obtain ⟨rfl, hnone⟩ | ⟨before, name, after, rfl, hname, hnone⟩ := h
  · exact lastCookies_of_none hnone []
  · rw [Mnet.lastCookies, List.foldl_append, List.foldl_cons]
    dsimp only
    rw [if_pos (show strcaseeq name (ascii "Cookie") = true from hname), parseCookies_written]
    exact lastCookies_of_none hnone _

/-- At most sixteen pairs are stored as they are. -/
theorem storedParams_render {pairs : List (Bytes × Bytes)} {text : Bytes}
    (hcount : pairs.length ≤ 16)
    (h0 : ∀ pair ∈ pairs, (0 : Byte) ∉ pair.1 ∧ (0 : Byte) ∉ pair.2)
    (h : RendersQuery pairs text) : storedParams text = pairs := by
  obtain ⟨-, hcaps, hpairs⟩ := queryParams_render h0 h
  have hlen : (queryParams text).length ≤ 16 := by
    have hsame := congrArg List.length hpairs
    rw [List.length_map] at hsame
    omega
  rw [storedParams, List.take_of_length_le hlen, if_neg, hpairs]
  rintro ⟨param, hparam, hover⟩
  exact hcaps param hparam hover

-- ============================================================================
-- Errands
-- ============================================================================

/-- A request to a route and what it means: the values of the pattern's
    parameters, the query, the cookies; and what is sent for it. -/
structure Errand where
  registered : HttpMethod
  pattern : RoutePattern
  handler : MnetHandler
  values : List Bytes
  query : List (Bytes × Bytes)
  cookies : List Cookie
  path : Bytes
  wire : WireRequest
  slots : values.length ≤ MNET_MAX_PARAMS
  dotless : ∀ name ∈ valueNames pattern.segments pattern.wildcard, DOT ∉ name
  queryCount : query.length ≤ 16
  queryNoNul : ∀ pair ∈ query, (0 : Byte) ∉ pair.1 ∧ (0 : Byte) ∉ pair.2
  pathNoMark : QUERY_MARK ∉ path
  pathFor : PathFor pattern.segments pattern.wildcard values path
  carriesQuery : CarriesQuery path wire.target query
  carriesCookies : CarriesCookies wire.headers cookies

namespace Errand

/-- The route as `mnet_route` registers it. -/
def route (e : Errand) : MnetRoute := registeredRoute e.registered e.pattern.render e.handler

/-- The lookup gives the errand its route. -/
def RoutedIn (e : Errand) (app : MnetApp) : Prop :=
  foundRoute app.routes e.wire.method e.path = some e.route

/-- The accessors return what was meant. -/
structure Sees (e : Errand) (req : MnetRequest) : Prop where
  method : req.method = e.wire.method.name
  path : req.path = e.path
  param : ∀ name, ParamIs req name (lookupName (· == ·) name
    ((valueNames e.pattern.segments e.pattern.wildcard).zip e.values))
  query : ∀ name, mnetRequestQuery req name = lookupName (· == ·) name e.query
  header : ∀ name, mnetRequestHeader req name = lookupName strcaseeq name e.wire.headers
  cookie : ∀ name, mnetRequestCookie req name =
    lookupName (· == ·) name (e.cookies.map Cookie.pair)
  bodyLength : mnetRequestBodyLength req = e.wire.body.length
  body : ∃ mem, mnetRequestBody req = some mem ∧ mem.take e.wire.body.length = e.wire.body

/-- The response is what the handler of the errand's route, or the middleware in
    front of it, returns for a request that says what was meant. -/
def Answered (app : MnetApp) (world : Nat → World) (e : Errand) (x : ParsedRequest × MnetResponse) :
    Prop :=
  ∃ i req, e.Sees req ∧ x.2 = callRoute app (world i) e.route req

variable {e : Errand} {buffer : Bytes} {req : ParsedRequest}

theorem length_path (e : Errand) : e.path.length ≤ 2047 := by
  have hlen := e.wire.targetLength
  obtain ⟨-, htarget⟩ | ⟨text, -, htarget⟩ := e.carriesQuery
  · rw [← htarget]
    exact hlen.2
  · rw [htarget, List.length_append] at hlen
    omega

/-- What `parse_request` makes of the target and the cookie header. -/
theorem meaning_of_parsed (hparsed : ∃ conn conn' received maxBodySize timeoutMs,
      parseRequest conn buffer received maxBodySize timeoutMs = (.ok, req, conn'))
    (hdecoded : e.wire.DecodedAs buffer req) :
    req.pathOnly = e.path ∧ req.extras.query = e.query ∧
      req.extras.cookies = e.cookies.map Cookie.pair := by
  obtain ⟨conn, conn', received, maxBodySize, timeoutMs, hparse⟩ := hparsed
  obtain ⟨method, path, m, r, -, -, headers, -, -, -, -, -, -, hreq⟩ := parseRequest_ok hparse
  have hpath : path = e.wire.target := by
    rw [← hdecoded.path, hreq, assembled, splitTarget_path]
  have hheaders : headers = e.wire.headers := by
    rw [← hdecoded.headers, hreq, assembled, splitTarget_headers]
  have h0 : (0 : Byte) ∉ e.wire.target := fun h => (e.wire.targetClean 0 h).2 rfl
  have hquery : req.extras.query = if QUERY_MARK ∈ e.wire.target then
      storedParams (splitFirst QUERY_MARK e.wire.target).2 else [] := by
    rw [hreq, hpath, assembled_query _ _ _ _ _ h0]
  have hcookies : req.extras.cookies = e.cookies.map Cookie.pair := by
    rw [hreq, assembled, splitTarget_cookies, hheaders]
    exact e.carriesCookies.lastCookies
  have hsplit := hdecoded.split
  obtain ⟨hnil, htarget⟩ | ⟨text, hrenders, htarget⟩ := e.carriesQuery
  · rw [htarget] at hquery hsplit
    rw [if_neg e.pathNoMark] at hquery
    refine ⟨?_, hquery.trans hnil.symm, hcookies⟩
    obtain ⟨-, -, hsame⟩ | ⟨qs, -, -, hmark⟩ := hsplit
    · exact hsame
    · refine absurd ?_ e.pathNoMark
      rw [hmark]
      exact List.mem_append_right _ (List.mem_cons_self ..)
  · have hmem : QUERY_MARK ∈ e.path ++ QUERY_MARK :: text :=
      List.mem_append_right _ (List.mem_cons_self ..)
    rw [htarget] at hquery hsplit
    rw [if_pos hmem, splitFirst_append e.pathNoMark,
      storedParams_render e.queryCount e.queryNoNul hrenders] at hquery
    refine ⟨?_, hquery, hcookies⟩
    obtain ⟨-, hnone, -⟩ | ⟨qs, -, hnone, hmark⟩ := hsplit
    · exact absurd hmem hnone
    · have h := splitFirst_append e.pathNoMark text
      rw [hmark, splitFirst_append hnone] at h
      exact (Prod.mk.inj h).1

/-- The handler of the errand's route is given a request that says what was
    meant. -/
theorem sees_of_parsed {app : MnetApp} (hroute : e.RoutedIn app)
    (hparsed : ∃ conn conn' received maxBodySize timeoutMs,
      parseRequest conn buffer received maxBodySize timeoutMs = (.ok, req, conn'))
    (hdecoded : e.wire.DecodedAs buffer req) (world : World) :
    ∃ r, e.Sees r ∧ (dispatch app world buffer req (List.replicate MNET_MAX_PARAMS .null)
      MNET_MAX_PARAMS).1 = callRoute app world e.route r := by
  obtain ⟨hpath, hquery, hcookies⟩ := meaning_of_parsed hparsed hdecoded
  have hmatched : matchedRoute app req = some e.route := by
    rw [matchedRoute_eq_foundRoute hdecoded.method.2, hpath]
    exact hroute
  have hne : app.routes ≠ [] := by
    intro hnil
    rw [RoutedIn, hnil] at hroute
    unfold foundRoute firstMatch at hroute
    simp only [List.find?_nil, ite_self] at hroute
    exact Option.some_ne_none _ hroute.symm
  obtain ⟨before, hlen, hparams⟩ :=
    dispatchParams_eq app req (List.replicate MNET_MAX_PARAMS .null) MNET_MAX_PARAMS
  rw [List.length_replicate] at hlen
  rw [hmatched, hpath] at hparams
  have hlong : e.path.length ≤ 4095 := Nat.le_trans e.length_path (by decide)
  obtain ⟨-, hsites, hcaptures⟩ := routeCaptures_pathFor e.pathFor hlong e.dotless
  have hcount : (routeCaptures e.route.path e.path).1.length ≤ MNET_MAX_PARAMS := by
    rw [show e.route.path = e.pattern.render from rfl, hcaptures.length_eq, List.length_zip,
      ← e.pathFor.length_eq, Nat.min_self]
    exact e.slots
  have hnames : e.route.paramNames =
      (routeCaptures e.route.path e.path).1.mapIdx fun i c => siteName i c.site := by
    rw [mapIdx_captures]
    exact (paramNames_eq_namesAt rfl).trans (congrArg namesAt hsites)
  have hline := @paramsLineUp_of_names e.route e.path before _ hlen hcount rfl hnames
  refine ⟨routedRequest buffer req e.route (routeCaptures e.route.path e.path).1.length
    (storeCaptures MNET_MAX_PARAMS 0 before (routeCaptures e.route.path e.path).1), ?_, ?_⟩
  · exact {
      method := hdecoded.method.1
      path := hpath
      param := paramIs_of_lineUp hline hcaptures
        (fun entry hentry => e.dotless _ (List.of_mem_zip hentry).1) buffer req
      query := fun name => by rw [mnetRequestQuery, ← hquery]; rfl
      header := fun name => by rw [mnetRequestHeader, ← hdecoded.headers]; rfl
      cookie := fun name => by rw [mnetRequestCookie, ← hcookies]; rfl
      bodyLength := hdecoded.bodyLength
      body := ⟨_, rfl, by
        have hbody := hdecoded.body
        rwa [ParsedRequest.bodyBytes, hdecoded.bodyLength] at hbody⟩ }
  · rw [dispatch_fst, if_neg hne, hparams]
    rfl

end Errand

-- ============================================================================
-- A connection of errands
-- ============================================================================

/-- Whatever arrives in whatever pieces the buffer handling provides for: every
    errand is given to the handler of its route, and the response is what the
    handler returns for what was meant. -/
theorem errands_served {app : MnetApp} {es : List Errand} (hroutes : ∀ e ∈ es, e.RoutedIn app)
    (hkeep : ∀ e ∈ es, e.wire.KeepsAlive app) (arrivals : List Arrival) (clock : Nat → Int)
    (world : Nat → World)
    (hstream : streamOf arrivals = (es.map Errand.wire).flatMap WireRequest.render)
    (hdel : delivers arrivals (streamOf arrivals).length = true)
    (hexp : .expired ∉ (mnetHandleClient app (.opened arrivals clock world)).log)
    (hsafe : framingSafe arrivals (es.map Errand.wire) 0 0 = true) :
    List.Forall₂ (Errand.Answered app world) es
      (served (mnetHandleClient app (.opened arrivals clock world)).log) := by
  have hwires : ∀ r ∈ es.map Errand.wire, r.KeepsAlive app := by
    intro r hr
    obtain ⟨e, he, rfl⟩ := List.mem_map.mp hr
    exact hkeep e he
  obtain ⟨xs, hxs, hiff⟩ :=
    (atRequest_opened hstream hdel clock world).handleLoop_framed hwires hexp
  have hall : intakes (mnetHandleClient app (.opened arrivals clock world)).log = xs := hxs
  have hframed := hiff.mpr hsafe
  have hanswered := answered_connection app arrivals clock world
  rw [accepted, hall, List.filter_eq_self.mpr fun x hx => decide_eq_true (hframed.codes x hx)]
    at hanswered
  -- errands, accepted requests and responses go side by side
  have hzip : ∀ (es : List Errand) (start : Nat) (xs : List Intake)
      (ys : List (ParsedRequest × MnetResponse)), (∀ e ∈ es, e.RoutedIn app) →
      FramedFrom (es.map Errand.wire) start xs → List.Forall₂ (AnsweredIn app world) xs ys →
      List.Forall₂ (Errand.Answered app world) es ys := by
    intro es
    induction es with
    | nil =>
        intro start xs ys _ hframed hanswered
        obtain rfl : xs = [] := hframed.head.1.mp rfl
        cases hanswered
        exact .nil
    | cons e es ih =>
        intro start xs ys hroutes hframed hanswered
        cases hanswered with
        | nil => exact absurd hframed id
        | @cons x y xs ys hxy hrest =>
            obtain ⟨-, -, hdecoded, hframed⟩ := hframed
            obtain ⟨conn, conn', timeoutMs, hparse⟩ := hxy.parsed
            obtain ⟨i, hresponse⟩ := hxy.response
            obtain ⟨r, hsees, heq⟩ := Errand.sees_of_parsed (hroutes e (List.mem_cons_self ..))
              ⟨conn, conn', _, _, timeoutMs, hparse⟩ hdecoded (world i)
            exact .cons ⟨i, r, hsees, hresponse.trans heq⟩
              (ih _ xs ys (fun e he => hroutes e (List.mem_cons_of_mem _ he)) hframed hrest)
  exact hzip es 0 xs _ hroutes hframed hanswered

-- ============================================================================
-- A user with a slash in the name
-- ============================================================================

/-- The pattern `/users/:id`. -/
def userPattern : RoutePattern where
  segments := [.literal (ascii "users"), .param (ascii "id")]
  wildcard := false
  valid := by decide +kernel
  ne_nil := .inl (List.cons_ne_nil _ _)

/-- A POST request about the user `a/b`. -/
def userPost : WireRequest where
  method := .post
  target := ascii "/users/a%2Fb?q=+%26&="
  headers := [keepAliveHeader, (ascii "cookie", ascii "c=1"), (ascii "Content-Length", ascii "2")]
  body := ascii "hi"
  targetLength := by decide +kernel
  targetClean := by decide +kernel
  headersCount := by decide
  fields := by decide +kernel
  framing := by
    have hfilter : [keepAliveHeader, (ascii "cookie", ascii "c=1"),
        (ascii "Content-Length", ascii "2")].filter
        (fun field => strcaseeq field.1 (ascii "Content-Length")) =
          [(ascii "Content-Length", ascii "2")] := by decide +kernel
    rw [hfilter]
    show decimalValue (ascii "2") = some 2
    decide

def flavour : Cookie where
  name := ascii "c"
  value := ascii "1"
  noNul := by decide +kernel
  plainName := by decide +kernel
  plainValue := by decide +kernel
  nameStart := by decide +kernel
  valueStart := by decide +kernel

theorem pathFor_userPost :
    PathFor userPattern.segments userPattern.wildcard [ascii "a/b"] (ascii "/users/a%2Fb") := by
  have hraw : ∀ b : Byte, b ≠ 37 → segmentUnit b [b] := fun b hb => .inr ⟨hb, rfl⟩
  have hslash : segmentUnit SLASH (ascii "%2F") := .inl ⟨50, 70, by decide, by decide, by decide⟩
  have hwrites : Percent.Writes segmentUnit (ascii "a/b") (ascii "a%2Fb") :=
    .cons (hraw 97 (by decide)) (.cons hslash (.cons (hraw 98 (by decide)) .nil))
  exact .literal (ascii "users")
    (.param (ascii "id") (by decide) (by decide) (by decide) hwrites .done)

def userErrand : Errand where
  registered := .post
  pattern := userPattern
  handler := fun _ _ => mnetText (some (ascii "hello"))
  values := [ascii "a/b"]
  query := [(ascii "q", ascii " &"), ([], [])]
  cookies := [flavour]
  path := ascii "/users/a%2Fb"
  wire := userPost
  slots := by decide +kernel
  dotless := by decide +kernel
  queryCount := by decide
  queryNoNul := by decide +kernel
  pathNoMark := by decide +kernel
  pathFor := pathFor_userPost
  carriesQuery := .inr ⟨ascii "q=+%26&=", rendersQuery_search, by decide +kernel⟩
  carriesCookies := by
    refine .inr
      ⟨[keepAliveHeader], ascii "cookie", [(ascii "Content-Length", ascii "2")], ?_, ?_, ?_⟩
    · decide +kernel
    · decide +kernel
    · decide +kernel

def userApp : MnetApp := { routes := [userErrand.route] }

/-- The request twice, the first time in two pieces. -/
def userArrivals : List Arrival :=
  [.segment (userPost.head ++ ascii "h"), .segment (ascii "i"), .segment userPost.render]

theorem errands_served_userApp :
    List.Forall₂ (Errand.Answered userApp fun _ => {}) [userErrand, userErrand]
      (served (mnetHandleClient userApp (.opened userArrivals stillClock fun _ => {})).log) := by
  have hroute : userErrand.RoutedIn userApp := by
    have hmatch : (routeCaptures userErrand.route.path userErrand.path).2 = true := by
      decide +kernel
    have hfirst : firstMatch .post userErrand.path [userErrand.route] = some userErrand.route := by
      rw [firstMatch, List.find?_cons_of_pos (by rw [hmatch]; rfl)]
    show foundRoute [userErrand.route] .post userErrand.path = _
    rw [foundRoute, hfirst]
  have hkeep : userErrand.wire.KeepsAlive userApp :=
    { keepAlive := by decide +kernel, noNul := by decide +kernel
      fits := by decide +kernel, bodyLimit := by decide }
  apply errands_served
  · exact List.forall_mem_cons.mpr ⟨hroute, List.forall_mem_singleton.mpr hroute⟩
  · exact List.forall_mem_cons.mpr ⟨hkeep, List.forall_mem_singleton.mpr hkeep⟩
  · decide +kernel
  · decide +kernel
  · exact mnetHandleClient_noExpiry (prompt_stillClock ⟨by decide, by decide⟩) userArrivals _
  · decide +kernel

end Mnet
