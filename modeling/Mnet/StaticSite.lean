/-
  Mnet.StaticSite

  A server of static files, from the bytes that come in to the messages its peer
  reads.

  All routes are those of `mnet_static`.  Every answer is then one its reader can
  take from the wire (`readable_siteAnswer`), and a message with status 200 is
  the file that the first route to match looks up and that lies beneath that
  route's root (`siteMessage`): nothing a client sends makes the server show
  anything else.
-/

import Mnet.NotFoundRequest
import Mnet.ServedRequests
import Mnet.StaticRoute

namespace Mnet

-- ============================================================================
-- The site and its files
-- ============================================================================

/-- Only `mnet_static` has registered routes, and nothing else answers. -/
structure StaticSite (fs : FileSystem) (app : MnetApp) : Prop where
  routes : ∀ r ∈ app.routes, ∃ cfg : StaticConfig, r = staticRoute fs cfg.urlPrefix cfg.fsPath
  nonempty : app.routes ≠ []
  notFound : app.notFoundHandler = none
  middleware : app.middleware = none

/-- Any calls of `mnet_static` make one. -/
theorem staticSite_mnetStatic (fs : FileSystem) {settings : MnetApp}
    (hroutes : settings.routes = []) (hnotFound : settings.notFoundHandler = none)
    (hmiddleware : settings.middleware = none) {sites : List StaticConfig} (hne : sites ≠ []) :
    StaticSite fs
      (sites.foldl (fun app cfg => mnetStatic fs app cfg.urlPrefix cfg.fsPath) settings) := by
  have hfold : ∀ (sites : List StaticConfig) (app : MnetApp),
      sites.foldl (fun app cfg => mnetStatic fs app cfg.urlPrefix cfg.fsPath) app =
        { app with routes :=
            app.routes ++ sites.map fun cfg => staticRoute fs cfg.urlPrefix cfg.fsPath } := by
    intro sites
    induction sites with
    | nil =>
        intro app
        rw [List.map_nil, List.append_nil]
        rfl
    | cons cfg sites ih =>
        intro app
        rw [List.foldl_cons, ih, mnetStatic, List.map_cons, List.append_assoc]
        rfl
  rw [hfold, hroutes, List.nil_append]
  refine ⟨fun r hr => ?_, ?_, hnotFound, hmiddleware⟩
  · obtain ⟨cfg, -, rfl⟩ := List.mem_map.mp hr
    exact ⟨cfg, rfl⟩
  · exact fun hnil => hne (List.map_eq_nil_iff.mp hnil)

/-- The path the handler looks up, and the file that is, the root of the route
    or beneath it. -/
structure LooksUp (fs : FileSystem) (cfg : StaticConfig) (path fsPath f : Bytes) : Prop where
  requested : requestedPath cfg path = some fsPath
  resolved : fs.realpath fsPath = some f
  beneath : ∃ baseReal, fs.realpath cfg.fsPath = some baseReal ∧
    components baseReal <+: components f

/-- The file can be opened and read into memory. -/
structure CanServe (fs : FileSystem) (f : Bytes) (file : OpenFile) : Prop where
  opens : fs.fopen f = some file
  seeks : file.seekEnd = true
  tells : 0 ≤ file.tell
  fits : fs.malloc (file.tell.toNat + 1) = true

/-- The route of `mnet_static` a request is dispatched to. -/
def RoutedTo (fs : FileSystem) (app : MnetApp) (req : ParsedRequest) (cfg : StaticConfig) : Prop :=
  matchedRoute app req = some (staticRoute fs cfg.urlPrefix cfg.fsPath)

/-- What the reader of a site gets for a request: the file that is asked for
    where there is one, and otherwise an error. -/
structure SiteMessage (fs : FileSystem) (app : MnetApp) (req : ParsedRequest)
    (m : HttpMessage.Message) : Prop where
  serves : ∀ cfg fsPath f file, RoutedTo fs app req cfg → LooksUp fs cfg req.pathOnly fsPath f →
    CanServe fs f file → m.status = 200 ∧ (ascii "Content-Type", mimeType fsPath) ∈ m.fields ∧
      m.body = if req.methodEnum = some .head then [] else file.contents.take file.tell.toNat
  only : m.status = 200 → ∃ cfg fsPath f file, RoutedTo fs app req cfg ∧
    LooksUp fs cfg req.pathOnly fsPath f ∧ CanServe fs f file
  status : m.status ∈ [200, 403, 404, 500]

-- ============================================================================
-- The handler
-- ============================================================================

/-- The response with a file. -/
def fileResponse (fsPath : Bytes) (file : OpenFile) : MnetResponse :=
  { status := 200, contentType := some (mimeType fsPath),
    body := some (file.contents.take file.tell.toNat),
    bodyLength := (file.contents.take file.tell.toNat).length }

theorem serveFile_of_canServe {fs : FileSystem} {f : Bytes} {file : OpenFile}
    (h : CanServe fs f file) (fsPath : Bytes) :
    (serveFile fs fsPath f).response = fileResponse fsPath file := by
  simp only [serveFile, h.opens, h.seeks, h.fits, Bool.not_true, Bool.false_eq_true, if_false,
    if_neg (Int.not_lt.mpr h.tells)]
  rfl

/-- An error the handler answers with. -/
def siteErrors : List MnetResponse :=
  [mnetError 403 (ascii "forbidden"), mnetError 404 (ascii "not found"),
   mnetError 500 (ascii "internal server error")]

theorem serveFile_cases (fs : FileSystem) (fsPath f : Bytes) :
    (∃ file, CanServe fs f file) ∨ (serveFile fs fsPath f).response ∈ siteErrors := by
  have h404 : mnetError 404 (ascii "not found") ∈ siteErrors := .tail _ (.head _)
  have h500 : mnetError 500 (ascii "internal server error") ∈ siteErrors :=
    .tail _ (.tail _ (.head _))
  rw [serveFile.eq_def]
  cases hopens : fs.fopen f with
  | none => exact .inr h404
  | some file =>
      dsimp only
      cases hseeks : file.seekEnd with
      | false => exact .inr h404
      | true =>
          by_cases htells : file.tell < 0
          · rw [Bool.not_true, if_neg Bool.false_ne_true, if_pos htells]
            exact .inr h404
          · rw [Bool.not_true, if_neg Bool.false_ne_true, if_neg htells]
            cases hfits : fs.malloc (file.tell.toNat + 1) with
            | false => exact .inr h500
            | true => exact .inl ⟨file, hopens, hseeks, Int.not_lt.mp htells, hfits⟩

/-- A configured handler opens what it looks up, or answers with an error where
    there is nothing to look up. -/
theorem staticHandler_looksUp {fs : FileSystem} (hfs : fs.Posix) (cfg : StaticConfig)
    (req : MnetRequest) :
    (∃ fsPath f, LooksUp fs cfg req.path fsPath f ∧
        staticHandler fs (some cfg) req = serveFile fs fsPath f) ∨
      (∀ fsPath f, ¬ LooksUp fs cfg req.path fsPath f) ∧
        (staticHandler fs (some cfg) req).response ∈ siteErrors := by
  have h403 : mnetError 403 (ascii "forbidden") ∈ siteErrors := .head _
  have h404 : mnetError 404 (ascii "not found") ∈ siteErrors := .tail _ (.head _)
  simp only [staticHandler]
  cases hpath : requestedPath cfg req.path with
  | none =>
      refine .inr ⟨fun fsPath f h => ?_, h404⟩
      exact absurd (hpath.symm.trans h.requested) (by simp)
  | some fsPath =>
      have hsame : ∀ fsPath' f, LooksUp fs cfg req.path fsPath' f → fsPath' = fsPath :=
        fun fsPath' f h => Option.some.inj (h.requested.symm.trans hpath)
      simp only
      cases hreal : fs.realpath fsPath with
      | none =>
          refine .inr ⟨fun fsPath' f h => ?_, h404⟩
          obtain rfl := hsame fsPath' f h
          exact absurd (hreal.symm.trans h.resolved) (by simp)
      | some real =>
          simp only
          cases hbase : fs.realpath cfg.fsPath with
          | none =>
              refine .inr ⟨fun fsPath' f h => ?_, h404⟩
              obtain ⟨baseReal, hbase', -⟩ := h.beneath
              exact absurd (hbase.symm.trans hbase') (by simp)
          | some baseReal =>
              simp only
              have hinside := inside_iff (hfs _ _ hreal) (hfs _ _ hbase)
              by_cases h : inside real baseReal = true
              · rw [h]
                exact .inl ⟨fsPath, real, ⟨hpath, hreal, baseReal, hbase, hinside.mp h⟩, rfl⟩
              · rw [Bool.eq_false_iff.mpr h]
                refine .inr ⟨fun fsPath' f hup => h (hinside.mpr ?_), h403⟩
                obtain rfl := hsame fsPath' f hup
                obtain rfl := Option.some.inj (hreal.symm.trans hup.resolved)
                obtain ⟨baseReal', hbase', hprefix⟩ := hup.beneath
                obtain rfl := Option.some.inj (hbase.symm.trans hbase')
                exact hprefix

theorem LooksUp.unique {fs : FileSystem} {cfg : StaticConfig} {path fsPath f fsPath' f' : Bytes}
    (h : LooksUp fs cfg path fsPath f) (h' : LooksUp fs cfg path fsPath' f') :
    fsPath = fsPath' ∧ f = f' := by
  obtain rfl := Option.some.inj (h.requested.symm.trans h'.requested)
  exact ⟨rfl, Option.some.inj (h.resolved.symm.trans h'.resolved)⟩

/-- A configured handler answers with the file, or with an error where there is
    no file to be read. -/
theorem staticHandler_answer {fs : FileSystem} (hfs : fs.Posix) (cfg : StaticConfig)
    (req : MnetRequest) :
    (∃ fsPath f file, LooksUp fs cfg req.path fsPath f ∧ CanServe fs f file ∧
        (staticHandler fs (some cfg) req).response = fileResponse fsPath file) ∨
      (∀ fsPath f file, LooksUp fs cfg req.path fsPath f → ¬ CanServe fs f file) ∧
        (staticHandler fs (some cfg) req).response ∈ siteErrors := by
  obtain ⟨fsPath, f, hup, heq⟩ | ⟨hnone, herror⟩ := staticHandler_looksUp hfs cfg req
  · rw [heq]
    by_cases hfile : ∃ file, CanServe fs f file
    · obtain ⟨file, hfile⟩ := hfile
      exact .inl ⟨fsPath, f, file, hup, hfile, serveFile_of_canServe hfile fsPath⟩
    · refine .inr ⟨fun fsPath' f' file hup' hfile' => hfile ⟨file, ?_⟩,
        (serveFile_cases fs fsPath f).resolve_left hfile⟩
      rw [(hup.unique hup').2]
      exact hfile'
  · exact .inr ⟨fun fsPath f file hup => absurd hup (hnone fsPath f), herror⟩

-- ============================================================================
-- What is answered
-- ============================================================================

theorem mem_of_matchedRoute {app : MnetApp} {req : ParsedRequest} {route : MnetRoute}
    (h : matchedRoute app req = some route) : route ∈ app.routes := by
  unfold matchedRoute at h
  split at h
  · exact absurd h (by simp)
  · split at h
    · next r hfirst => exact Option.some.inj h ▸ List.mem_of_find?_eq_some hfirst
    · split at h
      · exact List.mem_of_find?_eq_some h
      · exact absurd h (by simp)

/-- What a request to a site is answered with: the file where there is one, and
    otherwise an error or, without a route, nothing. -/
structure SiteAnswer (fs : FileSystem) (app : MnetApp) (req : ParsedRequest) (r : MnetResponse) :
    Prop where
  serves : ∀ cfg fsPath f file, RoutedTo fs app req cfg → LooksUp fs cfg req.pathOnly fsPath f →
    CanServe fs f file → r = fileResponse fsPath file
  others : (∃ cfg fsPath f file, RoutedTo fs app req cfg ∧ LooksUp fs cfg req.pathOnly fsPath f ∧
    CanServe fs f file ∧ r = fileResponse fsPath file) ∨ r ∈ siteErrors ∨
    matchedRoute app req = none ∧ r = {}

/-- Every request to a site is answered so. -/
theorem siteAnswer_dispatch {fs : FileSystem} (hfs : fs.Posix) {app : MnetApp}
    (hsite : StaticSite fs app) (world : World) (buffer : Bytes) (req : ParsedRequest)
    (params : List ParamSlot) (maxParams : Nat) :
    SiteAnswer fs app req (dispatch app world buffer req params maxParams).1 := by
  obtain ⟨before, -, hparams⟩ := dispatchParams_eq app req params maxParams
  rw [dispatch_fst, if_neg hsite.nonempty, hparams]
  cases hroute : matchedRoute app req with
  | none =>
      have hnone : ∀ cfg, ¬ RoutedTo fs app req cfg :=
        fun cfg h => absurd (hroute.symm.trans h) (by simp)
      have hzero : respondTo app world buffer req before none = {} := by
        rw [respondTo, hsite.notFound]
        rfl
      rw [hzero]
      exact ⟨fun cfg _ _ _ hcfg => absurd hcfg (hnone cfg), .inr (.inr ⟨hroute, rfl⟩)⟩
  | some route =>
      obtain ⟨cfg, rfl⟩ := hsite.routes route (mem_of_matchedRoute hroute)
      dsimp only
      generalize hr : routedRequest buffer req (staticRoute fs cfg.urlPrefix cfg.fsPath) _ _ = r
      have hpath : r.path = req.pathOnly := hr ▸ rfl
      have hcall : ∀ cfg', RoutedTo fs app req cfg' →
          callRoute app world (staticRoute fs cfg.urlPrefix cfg.fsPath) r =
            (staticHandler fs (some cfg') r).response := by
        intro cfg' hcfg'
        obtain heq := Option.some.inj (hroute.symm.trans hcfg')
        rw [callRoute, hsite.middleware, heq]
        rfl
      rw [respondTo, hr]
      constructor
      · intro cfg' fsPath f file hcfg' hup hfile
        rw [hcall cfg' hcfg']
        obtain ⟨fsPath', f', file', hup', hfile', heq⟩ | ⟨hnone, -⟩ :=
          staticHandler_answer hfs cfg' r
        · obtain ⟨rfl, rfl⟩ := hup.unique (hpath ▸ hup')
          obtain rfl := Option.some.inj (hfile.opens.symm.trans hfile'.opens)
          exact heq
        · exact absurd hfile (hnone fsPath f file (hpath ▸ hup))
      · rw [hcall cfg hroute]
        obtain ⟨fsPath, f, file, hup, hfile, heq⟩ | ⟨-, herror⟩ := staticHandler_answer hfs cfg r
        · exact .inl ⟨cfg, fsPath, f, file, hroute, hpath ▸ hup, hfile, heq⟩
        · exact .inr (.inl herror)

-- ============================================================================
-- What is read
-- ============================================================================

/-- The types the handler states. -/
def siteTypes : List Bytes := ascii "application/octet-stream" :: mimeTypes.map Prod.snd

theorem mimeType_mem (path : Bytes) : mimeType path ∈ siteTypes := by
  rw [mimeType]
  split
  · dsimp only
    split
    · next ext entry hfind =>
      exact List.mem_cons_of_mem _ (List.mem_map.mpr ⟨_, List.mem_of_find?_eq_some hfind, rfl⟩)
    · exact List.mem_cons_self ..
  · exact List.mem_cons_self ..

theorem plain_siteTypes : ∀ type ∈ siteTypes,
    mnetHeaderValueValid type = true ∧ HttpMessage.trim type = type ∧ type.length ≤ 24 := by
  decide +kernel

/-- The head is as long as its fixed text and what is put in. -/
theorem length_formatHead (status : Int) (text framing contentType : Bytes) (keepAlive : Bool) :
    (formatHead status text framing contentType keepAlive).length =
      (formatHead status text [] [] keepAlive).length + framing.length + contentType.length := by
  simp only [formatHead, List.length_append, List.length_nil]
  omega

theorem length_decimal_le {n : Nat} (h : n < 2 ^ 63) : (decimal n).length ≤ 19 := by
  rw [decimal, List.length_map]
  exact (Nat.length_toDigits_le_iff (by decide) (by decide)).mpr (by omega)

theorem writable_fileResponse (fsPath : Bytes) {file : OpenFile} (hsize : file.tell < 2 ^ 63)
    (keepAlive : Bool) : (fileResponse fsPath file).writable keepAlive = true := by
  obtain ⟨hvalid, -, htype⟩ := plain_siteTypes _ (mimeType_mem fsPath)
  have hlen : (file.contents.take file.tell.toNat).length < 2 ^ 63 := by
    have htake := List.length_take_le file.tell.toNat file.contents
    omega
  have hdecimal := length_decimal_le hlen
  have hfixed : (formatHead 200 (statusText 200) [] [] keepAlive).length ≤ 100 := by
    cases keepAlive <;> decide +kernel
  have hframing :
      (contentLengthHeader (file.contents.take file.tell.toNat).length).length ≤ 40 := by
    have hname : (ascii "Content-Length: ").length = 16 := by decide
    rw [contentLengthHeader, List.length_append, hname]
    omega
  have hhead : (responseHead (fileResponse fsPath file) keepAlive).length < 1024 := by
    show (formatHead 200 (statusText 200) (contentLengthHeader _) (mimeType fsPath)
      keepAlive).length < 1024
    rw [length_formatHead]
    show _ + (contentLengthHeader (file.contents.take file.tell.toNat).length).length + _ < 1024
    omega
  rw [MnetResponse.writable, Bool.and_eq_true, decide_eq_true_eq]
  exact ⟨hvalid, hhead⟩

theorem readable_siteErrors {app : MnetApp} (req : ParsedRequest) {r : MnetResponse}
    (hr : r ∈ siteErrors) : Readable app (req, r) := by
  have hall : ∀ r ∈ siteErrors, (r.status ≠ 0 ∧ 200 ≤ r.status ∧ r.status ≤ 999 ∧ r.status ≠ 204 ∧
      r.status ≠ 304) ∧ r.bodyLength ≤ (r.body.getD []).length ∧ r.writable true = true ∧
        r.writable false = true := by decide +kernel
  obtain ⟨⟨hzero, hstatus⟩, hbody, htrue, hfalse⟩ := hall r hr
  have hsends : sendsNotFound app r = false := by
    rw [sendsNotFound, beq_false_of_ne hzero]
    rfl
  rw [Readable, hsends, if_neg Bool.false_ne_true]
  refine ⟨hstatus, hbody, ?_⟩
  cases req.keepAlive with
  | true => exact htrue
  | false => exact hfalse

theorem readable_fileResponse {app : MnetApp} (req : ParsedRequest) (fsPath : Bytes)
    {file : OpenFile} (hsize : file.tell < 2 ^ 63) :
    Readable app (req, fileResponse fsPath file) := by
  have hstatus : (200 : Int) ≤ 200 ∧ (200 : Int) ≤ 999 ∧ (200 : Int) ≠ 204 ∧ (200 : Int) ≠ 304 := by
    decide
  rw [Readable, if_neg (show ¬ sendsNotFound app (fileResponse _ _) = true from
    Bool.false_ne_true)]
  exact ⟨hstatus, Nat.le_refl _, writable_fileResponse fsPath hsize _⟩

theorem sendsNotFound_zero {app : MnetApp} (hnotFound : app.notFoundHandler = none) :
    sendsNotFound app {} = true := by
  rw [sendsNotFound, hnotFound]
  rfl

/-- Every answer of a site can be read. -/
theorem readable_siteAnswer {fs : FileSystem}
    (hsize : ∀ path file, fs.fopen path = some file → file.tell < 2 ^ 63) {app : MnetApp}
    (hsite : StaticSite fs app) {req : ParsedRequest} {r : MnetResponse}
    (h : SiteAnswer fs app req r)
    (hhead : matchedRoute app req = none → req.methodEnum ≠ some .head) :
    Readable app (req, r) := by
  obtain ⟨cfg, fsPath, f, file, -, -, hfile, rfl⟩ | herror | ⟨hroute, rfl⟩ := h.others
  · exact readable_fileResponse req fsPath (hsize _ _ hfile.opens)
  · exact readable_siteErrors req herror
  · rw [Readable, if_pos (sendsNotFound_zero hsite.notFound)]
    exact hhead hroute

/-- An error, or the 404 page, is not read as a file. -/
theorem status_answerMessage {app : MnetApp} (hnotFound : app.notFoundHandler = none)
    (req : ParsedRequest) {r : MnetResponse} (h : r ∈ siteErrors ∨ r = {}) :
    (answerMessage app (req, r)).status ∈ [403, 404, 500] := by
  rw [answerMessage]
  obtain herror | rfl := h
  · have hall : ∀ r ∈ siteErrors, r.status ≠ 0 ∧ r.status.toNat ∈ [403, 404, 500] := by
      decide +kernel
    obtain ⟨hzero, hstatus⟩ := hall r herror
    rw [sendsNotFound, beq_false_of_ne hzero]
    exact hstatus
  · rw [if_pos (sendsNotFound_zero hnotFound)]
    exact .tail _ (.head _)

/-- What the reader of a message makes of the answer. -/
theorem siteMessage_of_siteAnswer {fs : FileSystem} {app : MnetApp} (hsite : StaticSite fs app)
    {req : ParsedRequest} {r : MnetResponse} (h : SiteAnswer fs app req r) :
    SiteMessage fs app req (answerMessage app (req, r)) := by
  have hfile : ∀ fsPath file, answerMessage app (req, fileResponse fsPath file) =
      responseMessage (fileResponse fsPath file) (req.methodEnum == some .head) req.keepAlive :=
    fun fsPath file => if_neg Bool.false_ne_true
  constructor
  · intro cfg fsPath f file hroute hup hcan
    rw [h.serves cfg fsPath f file hroute hup hcan, hfile]
    refine ⟨rfl, ?_, ?_⟩
    · obtain ⟨-, htrim, -⟩ := plain_siteTypes _ (mimeType_mem fsPath)
      have hfield : (ascii "Content-Type", HttpMessage.trim (mimeType fsPath)) ∈
          (responseMessage (fileResponse fsPath file) (req.methodEnum == some .head)
            req.keepAlive).fields := .tail _ (.head _)
      rwa [htrim] at hfield
    · have hbody : (fileResponse fsPath file).bodyBytes = file.contents.take file.tell.toNat :=
        List.take_length
      show (if (req.methodEnum == some HttpMethod.head) = true then [] else
        (fileResponse fsPath file).bodyBytes) = _
      simp only [hbody, beq_iff_eq]
  · intro hstatus
    obtain ⟨cfg, fsPath, f, file, hroute, hup, hcan, -⟩ | herror | ⟨-, rfl⟩ := h.others
    · exact ⟨cfg, fsPath, f, file, hroute, hup, hcan⟩
    · have hmem := status_answerMessage hsite.notFound req (.inl herror)
      rw [hstatus] at hmem
      exact absurd hmem (by decide)
    · have hmem := status_answerMessage hsite.notFound req (.inr rfl)
      rw [hstatus] at hmem
      exact absurd hmem (by decide)
  · obtain ⟨cfg, fsPath, f, file, -, -, -, rfl⟩ | hother := h.others
    · rw [hfile]
      exact .head _
    · exact .tail _ (status_answerMessage hsite.notFound req (hother.imp_right And.right))

/-- The peer of a static site reads its requests' files, and nothing else. -/
theorem staticSite_reads {fs : FileSystem} (hfs : fs.Posix)
    (hsize : ∀ path file, fs.fopen path = some file → file.tell < 2 ^ 63) {app : MnetApp}
    (hsite : StaticSite fs app) (arrivals : List Arrival) (clock : Nat → Int)
    (world : Nat → World)
    (hhead : ∀ x ∈ served (mnetHandleClient app (.opened arrivals clock world)).log,
      matchedRoute app x.1 = none → x.1.methodEnum ≠ some .head) :
    ReadsBack app (mnetHandleClient app (.opened arrivals clock world)).log ∧
      ∀ x ∈ served (mnetHandleClient app (.opened arrivals clock world)).log,
        SiteMessage fs app x.1 (answerMessage app x) := by
  have hanswer : ∀ x ∈ served (mnetHandleClient app (.opened arrivals clock world)).log,
      SiteAnswer fs app x.1 x.2 := by
    intro x hx
    obtain ⟨i, buffer, hdispatch⟩ := dispatchedIn_served app arrivals clock world x hx
    rw [hdispatch]
    exact siteAnswer_dispatch hfs hsite (world i) buffer x.1 _ _
  constructor
  · apply readsBack_connection
    intro x hx
    exact readable_siteAnswer hsize hsite (hanswer x hx) (hhead x hx)
  · intro x hx
    exact siteMessage_of_siteAnswer hsite (hanswer x hx)

/-- The root `/srv/www` under `/static`. -/
def siteApp : MnetApp := mnetStatic siteFiles {} (ascii "/static") (ascii "/srv/www")

/-- A file, one that is not there, and a path no route has. -/
def siteRequests : List Arrival :=
  [.segment (ascii "GET /static/a.txt HTTP/1.1\r\nConnection: keep-alive\r\n\r\n"),
   .segment (ascii "HEAD /static/b.txt HTTP/1.1\r\nConnection: keep-alive\r\n\r\n"),
   .segment (ascii "GET /a.txt HTTP/1.1\r\n\r\n")]

theorem staticSite_reads_siteFiles :
    ReadsBack siteApp
        (mnetHandleClient siteApp (.opened siteRequests (fun _ => 0) fun _ => {})).log ∧
      ∀ x ∈ served (mnetHandleClient siteApp (.opened siteRequests (fun _ => 0) fun _ => {})).log,
        SiteMessage siteFiles siteApp x.1 (answerMessage siteApp x) := by
  apply staticSite_reads siteFiles_posix ?_ ?_ siteRequests (fun _ => 0) (fun _ => {})
  · decide +kernel
  · intro path file h
    rw [← Option.some.inj h]
    show (2 : Int) < 2 ^ 63
    decide
  · have hsites : [(⟨ascii "/static", ascii "/srv/www"⟩ : StaticConfig)] ≠ [] :=
      List.cons_ne_nil _ _
    exact @staticSite_mnetStatic siteFiles {} rfl rfl rfl _ hsites

end Mnet
