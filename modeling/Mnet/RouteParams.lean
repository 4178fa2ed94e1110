/-
  Mnet.RouteParams

  Route parameters from registration to lookup: the names `mnet_add_route`
  finds in a pattern, the slots `mnet_route_match` fills, and what
  `mnet_request_param` and the final `mnet_match_params_free` make of both.

  Slots stay in bounds as long as no more elements capture than there are
  slots.  Names and captures line up as long as no element has a `:` or `*`
  behind a dot: registration ends a name at a dot and looks for further ones
  behind it, matching goes on to the next slash.
-/

import Mnet.Captures

namespace Mnet

abbrev DOT : Byte := 46

-- ============================================================================
-- Registration and lookup
-- ============================================================================

/-- A byte of a parameter name. -/
def isNameByte (b : Byte) : Bool := b ≠ SLASH && b ≠ DOT

/-- The name of the parameter number `paramCount`: one is generated for an
    unnamed parameter. -/
def paramName (paramCount : Nat) (name : Bytes) : Bytes :=
  if name = [] then clipTo 16 (ascii "_" ++ decimal paramCount) else name

/-- The loop of `mnet_add_route` over the pattern. -/
def paramNamesLoop : Bytes → Nat → List Bytes
  | [], _ => []
  | c :: p, paramCount =>
      if c = COLON then
        paramName paramCount (p.takeWhile isNameByte) ::
          paramNamesLoop (p.dropWhile isNameByte) (paramCount + 1)
      -- nothing after the wildcard is matched, so scanning stops
      else if c = STAR then [[STAR]]
      else paramNamesLoop p paramCount
termination_by p => p.length
decreasing_by
  · have h := (List.dropWhile_suffix isNameByte (l := p)).length_le
    simp only [List.length_cons]
    omega
  · simp

/-- The route `mnet_add_route` registers for a path and a handler. -/
def registeredRoute (method : HttpMethod) (path : Bytes) (handler : MnetHandler) : MnetRoute where
  method := method
  path := path
  handler := handler
  paramNames := paramNamesLoop path 0

def mnetAddRoute (app : MnetApp) (method : HttpMethod) (path : Bytes) (handler : MnetHandler) :
    MnetApp :=
  { app with routes := app.routes ++ [registeredRoute method path handler] }

/-- What `mnet_request_param` comes to: NULL, the value at an index, or a
    comparison with a name that is not there. -/
inductive ParamLookup where
  | null
  | value (i : Nat)
  | missingName (i : Nat)
deriving DecidableEq, Repr

/-- The loop of `mnet_request_param`, `left` turns before its end. -/
def requestParamLoop (names : List Bytes) (name : Bytes) : Nat → Nat → ParamLookup
  | 0, _ => .null
  | left + 1, i =>
      match names[i]? with
      | none => .missingName i
      | some registered =>
          if registered = name then .value i else requestParamLoop names name left (i + 1)

/-- `mnet_request_param`; a route without parameters has no array of names. -/
def mnetRequestParam (request : MnetRequest) (name : Bytes) : ParamLookup :=
  if request.pathParamNames = [] then .null
  else requestParamLoop request.pathParamNames name request.pathParamCount 0

/-- The route `dispatch` finds with its number of captures, and the slots. -/
def dispatchParams (app : MnetApp) (parsed : ParsedRequest) (params : List ParamSlot)
    (maxParams : Nat) : Option (MnetRoute × Nat) × List ParamSlot :=
  match parsed.methodEnum with
  | some m => mnetFindRoute app m parsed.pathOnly params maxParams
  | none => (none, params)

/-- The count `mnet_handle_client` frees by is the number of captures. -/
theorem dispatch_paramCount (app : MnetApp) (world : World) (buffer : Bytes)
    (parsed : ParsedRequest) (params : List ParamSlot) (maxParams : Nat) :
    (dispatch app world buffer parsed params maxParams).2 =
      ((dispatchParams app parsed params maxParams).1.map Prod.snd).getD 0 := by
  simp only [dispatch, dispatchParams]
  cases hm : parsed.methodEnum with
  | none =>
      dsimp only
      repeat' split
      all_goals rfl
  | some m =>
      rcases hfind : mnetFindRoute app m parsed.pathOnly params maxParams with
        ⟨_ | ⟨route, n⟩, values⟩
      all_goals
        simp only [hfind]
        repeat' split
        all_goals rfl

-- ============================================================================
-- Which routes are tried
-- ============================================================================

/-- The routes `mnet_find_route` tries: those of the method, up to the first
    that matches. -/
def triedRoutes (method : HttpMethod) (path : Bytes) : List MnetRoute → List MnetRoute
  | [] => []
  | r :: routes =>
      if r.method ≠ method then triedRoutes method path routes
      else if (routeCaptures r.path path).2 then [r]
      else r :: triedRoutes method path routes

/-- The first route of the method that matches. -/
def firstMatch (method : HttpMethod) (path : Bytes) (routes : List MnetRoute) :
    Option MnetRoute :=
  routes.find? fun r => r.method = method && (routeCaptures r.path path).2

/-- The routes a request tries: HEAD goes on to those of GET. -/
def requestRoutes (app : MnetApp) (parsed : ParsedRequest) : List MnetRoute :=
  match parsed.methodEnum with
  | none => []
  | some m =>
      triedRoutes m parsed.pathOnly app.routes ++
        if (firstMatch m parsed.pathOnly app.routes).isNone && m = .head then
          triedRoutes .get parsed.pathOnly app.routes
        else []

/-- The loop of `mnet_find_route` returns the first match, with its captures in
    the slots. -/
theorem findRouteLoop_eq (method : HttpMethod) (path : Bytes) (maxParams : Nat)
    (routes : List MnetRoute) (values : List ParamSlot) :
    ∃ before, before.length = values.length ∧
      findRouteLoop method path maxParams routes values =
        match firstMatch method path routes with
        | none => (none, before)
        | some r => (some (r, (routeCaptures r.path path).1.length),
            storeCaptures maxParams 0 before (routeCaptures r.path path).1) := by
  induction routes generalizing values with
  | nil => exact ⟨values, rfl, rfl⟩
  | cons r routes ih =>
      by_cases hmethod : r.method = method
      · by_cases hmatch : (routeCaptures r.path path).2 = true
        · refine ⟨values, rfl, ?_⟩
          have hfirst : firstMatch method path (r :: routes) = some r := by
            rw [firstMatch, List.find?_cons_of_pos (by simp [hmethod, hmatch])]
          rw [hfirst, findRouteLoop, if_neg (not_not.mpr hmethod), mnetRouteMatch_eq,
            if_pos hmatch]
        · have hfirst : firstMatch method path (r :: routes) = firstMatch method path routes := by
            rw [firstMatch, List.find?_cons_of_neg (by simp [hmatch])]
            rfl
          obtain ⟨before, hlen, heq⟩ := ih (mnetRouteMatch r path values maxParams).values
          refine ⟨before, ?_, ?_⟩
          · rw [hlen, mnetRouteMatch_eq, if_neg hmatch, routeMismatch, mnetMatchParamsFree,
              List.length_append, List.length_map, List.length_take, List.length_drop,
              length_storeCaptures]
            omega
          · rw [hfirst, findRouteLoop, if_neg (not_not.mpr hmethod)]
            simp only [mnetRouteMatch_count, if_neg hmatch]
            exact heq
      · have hfirst : firstMatch method path (r :: routes) = firstMatch method path routes := by
          rw [firstMatch, List.find?_cons_of_neg (by simp [hmethod])]
          rfl
        rw [hfirst, findRouteLoop, if_pos hmethod]
        exact ih values

/-- The first match is the last route tried, if there is one. -/
theorem mem_triedRoutes_of_firstMatch {method : HttpMethod} {path : Bytes}
    {routes : List MnetRoute} {r : MnetRoute} (h : firstMatch method path routes = some r) :
    r ∈ triedRoutes method path routes ∧ (routeCaptures r.path path).2 = true := by
  induction routes with
  | nil => simp [firstMatch] at h
  | cons r' routes ih =>
      by_cases hmethod : r'.method = method
      · by_cases hmatch : (routeCaptures r'.path path).2 = true
        · rw [firstMatch, List.find?_cons_of_pos (by simp [hmethod, hmatch])] at h
          obtain rfl : r' = r := Option.some.inj h
          rw [triedRoutes, if_neg (not_not.mpr hmethod), if_pos hmatch]
          exact ⟨List.mem_singleton_self _, hmatch⟩
        · rw [firstMatch, List.find?_cons_of_neg (by simp [hmatch])] at h
          rw [triedRoutes, if_neg (not_not.mpr hmethod), if_neg hmatch]
          exact ⟨List.mem_cons_of_mem _ (ih h).1, (ih h).2⟩
      · rw [firstMatch, List.find?_cons_of_neg (by simp [hmethod])] at h
        rw [triedRoutes, if_pos hmethod]
        exact ih h

/-- A matching route that is tried is the first match. -/
theorem firstMatch_of_mem_triedRoutes {method : HttpMethod} {path : Bytes}
    {routes : List MnetRoute} {r : MnetRoute} (h : r ∈ triedRoutes method path routes)
    (hmatch : (routeCaptures r.path path).2 = true) : firstMatch method path routes = some r := by
  induction routes with
  | nil => simp [triedRoutes] at h
  | cons r' routes ih =>
      by_cases hmethod : r'.method = method
      · rw [triedRoutes, if_neg (not_not.mpr hmethod)] at h
        by_cases hmatch' : (routeCaptures r'.path path).2 = true
        · rw [if_pos hmatch', List.mem_singleton] at h
          rw [firstMatch, List.find?_cons_of_pos (by simp [hmethod, hmatch']), h]
        · rw [if_neg hmatch', List.mem_cons] at h
          rw [firstMatch, List.find?_cons_of_neg (by simp [hmatch'])]
          obtain rfl | h := h
          · exact absurd hmatch hmatch'
          · exact ih h
      · rw [triedRoutes, if_pos hmethod] at h
        rw [firstMatch, List.find?_cons_of_neg (by simp [hmethod])]
        exact ih h

/-- The route `mnet_find_route` returns. -/
def foundRoute (routes : List MnetRoute) (method : HttpMethod) (path : Bytes) : Option MnetRoute :=
  match firstMatch method path routes with
  | some r => some r
  | none => if method = .head then firstMatch .get path routes else none

/-- `mnet_find_route` leaves the captures of the route it returns in the slots,
    over what earlier attempts left there. -/
theorem mnetFindRoute_eq (app : MnetApp) (method : HttpMethod) (path : Bytes)
    (values : List ParamSlot) (maxParams : Nat) :
    ∃ before, before.length = values.length ∧
      mnetFindRoute app method path values maxParams =
        match foundRoute app.routes method path with
        | none => (none, before)
        | some r => (some (r, (routeCaptures r.path path).1.length),
            storeCaptures maxParams 0 before (routeCaptures r.path path).1) := by
  obtain ⟨before, hlen, heq⟩ := findRouteLoop_eq method path maxParams app.routes values
  simp only [mnetFindRoute, heq, foundRoute]
  cases firstMatch method path app.routes with
  | some r => exact ⟨before, hlen, rfl⟩
  | none =>
      by_cases hhead : method = .head
      · obtain ⟨before', hlen', heq'⟩ := findRouteLoop_eq .get path maxParams app.routes before
        simp only [hhead, if_true, heq']
        exact ⟨before', hlen'.trans hlen, rfl⟩
      · simp only [hhead, if_false]
        exact ⟨before, hlen, rfl⟩

/-- The route a request is given. -/
def matchedRoute (app : MnetApp) (parsed : ParsedRequest) : Option MnetRoute :=
  match parsed.methodEnum with
  | none => none
  | some m =>
      match firstMatch m parsed.pathOnly app.routes with
      | some r => some r
      | none => if m = .head then firstMatch .get parsed.pathOnly app.routes else none

theorem matchedRoute_eq_foundRoute {app : MnetApp} {parsed : ParsedRequest} {m : HttpMethod}
    (hm : parsed.methodEnum = some m) :
    matchedRoute app parsed = foundRoute app.routes m parsed.pathOnly := by
  unfold matchedRoute
  rw [hm]
  rfl

/-- `dispatch` works on the matched route, with its captures in the slots. -/
theorem dispatchParams_eq (app : MnetApp) (parsed : ParsedRequest) (params : List ParamSlot)
    (maxParams : Nat) :
    ∃ before, before.length = params.length ∧
      dispatchParams app parsed params maxParams =
        match matchedRoute app parsed with
        | none => (none, before)
        | some r => (some (r, (routeCaptures r.path parsed.pathOnly).1.length),
            storeCaptures maxParams 0 before (routeCaptures r.path parsed.pathOnly).1) := by
  unfold dispatchParams
  cases hm : parsed.methodEnum with
  | none =>
      refine ⟨params, rfl, ?_⟩
      unfold matchedRoute
      rw [hm]
  | some m =>
      rw [matchedRoute_eq_foundRoute hm]
      exact mnetFindRoute_eq app m parsed.pathOnly params maxParams

theorem matchedRoute_mem {app : MnetApp} {parsed : ParsedRequest} {r : MnetRoute}
    (h : matchedRoute app parsed = some r) :
    r ∈ requestRoutes app parsed ∧ (routeCaptures r.path parsed.pathOnly).2 = true := by
  unfold matchedRoute at h
  unfold requestRoutes
  cases hm : parsed.methodEnum with
  | none => simp [hm] at h
  | some m =>
      simp only [hm] at h ⊢
      cases hfirst : firstMatch m parsed.pathOnly app.routes with
      | some r' =>
          simp only [hfirst, Option.some.injEq] at h
          obtain rfl := h
          obtain ⟨hmem, hmatch⟩ := mem_triedRoutes_of_firstMatch hfirst
          exact ⟨List.mem_append_left _ hmem, hmatch⟩
      | none =>
          simp only [hfirst] at h
          split at h
          · next hhead =>
            obtain ⟨hmem, hmatch⟩ := mem_triedRoutes_of_firstMatch h
            refine ⟨List.mem_append_right _ ?_, hmatch⟩
            simpa [hhead] using hmem
          · simp at h

theorem matchedRoute_of_mem {app : MnetApp} {parsed : ParsedRequest} {r : MnetRoute}
    (h : r ∈ requestRoutes app parsed)
    (hmatch : (routeCaptures r.path parsed.pathOnly).2 = true) :
    matchedRoute app parsed = some r := by
  unfold requestRoutes at h
  unfold matchedRoute
  cases hm : parsed.methodEnum with
  | none => simp [hm] at h
  | some m =>
      simp only [hm, List.mem_append] at h ⊢
      rcases h with h | h
      · rw [firstMatch_of_mem_triedRoutes h hmatch]
      · split at h
        · next hnone =>
          rw [Bool.and_eq_true, Option.isNone_iff_eq_none, decide_eq_true_eq] at hnone
          obtain ⟨hnone, rfl⟩ := hnone
          simp only [hnone, if_true]
          exact firstMatch_of_mem_triedRoutes h hmatch
        · simp at h

-- ============================================================================
-- Slots in bounds
-- ============================================================================

/-- `mnet_route_match` frees and writes no slot at or past `maxValues`. -/
def MatchInBounds (route : MnetRoute) (path : Bytes) (values : List ParamSlot)
    (maxValues : Nat) : Prop :=
  (mnetRouteMatch route path values maxValues).freed ≤ maxValues ∧
    ∀ i, maxValues ≤ i → (mnetRouteMatch route path values maxValues).values[i]? = values[i]?

/-- The indices of the slot array that are read or freed once `dispatch` has
    found a route. -/
inductive SlotUse (app : MnetApp) (buffer : Bytes) (parsed : ParsedRequest) : Nat → Prop where
  /-- `mnet_request_param` reads the value of a name -/
  | param {route : MnetRoute} {n i : Nat} {values : List ParamSlot} (name : Bytes)
      (hfound : dispatchParams app parsed (List.replicate MNET_MAX_PARAMS .null)
        MNET_MAX_PARAMS = (some (route, n), values))
      (hparam : mnetRequestParam (routedRequest buffer parsed route n values) name = .value i) :
      SlotUse app buffer parsed i
  /-- the last `mnet_match_params_free` of the request -/
  | free {route : MnetRoute} {n i : Nat} {values : List ParamSlot}
      (hfound : dispatchParams app parsed (List.replicate MNET_MAX_PARAMS .null)
        MNET_MAX_PARAMS = (some (route, n), values))
      (hi : i < n) : SlotUse app buffer parsed i

/-- No slot past the last is freed by an attempt to match, and those used
    afterwards hold what the matched route captured. -/
def DispatchInBounds (app : MnetApp) (buffer : Bytes) (parsed : ParsedRequest) : Prop :=
  (∀ r ∈ requestRoutes app parsed, ∀ values,
    (mnetRouteMatch r parsed.pathOnly values MNET_MAX_PARAMS).freed ≤ MNET_MAX_PARAMS) ∧
  ∀ i, SlotUse app buffer parsed i → i < MNET_MAX_PARAMS ∧
    ∃ r c, matchedRoute app parsed = some r ∧
      (routeCaptures r.path parsed.pathOnly).1[i]? = some c ∧
      (dispatchParams app parsed (List.replicate MNET_MAX_PARAMS .null)
        MNET_MAX_PARAMS).2[i]? = some (.live c.value)

/-- The value read belongs to one of the counted names. -/
theorem requestParamLoop_value {names : List Bytes} {name : Bytes} {left i k : Nat}
    (h : requestParamLoop names name left i = .value k) : i ≤ k ∧ k < i + left := by
  induction left generalizing i with
  | zero => simp [requestParamLoop] at h
  | succ left ih =>
      rw [requestParamLoop] at h
      split at h
      · simp at h
      · next registered hget =>
        split at h
        · obtain rfl : i = k := by simpa using h
          omega
        · have hk := ih h
          omega

theorem SlotUse.lt {app : MnetApp} {buffer : Bytes} {parsed : ParsedRequest} {i : Nat}
    (h : SlotUse app buffer parsed i) :
    ∃ r, matchedRoute app parsed = some r ∧
      i < (routeCaptures r.path parsed.pathOnly).1.length := by
  obtain ⟨before, -, heq⟩ := dispatchParams_eq app parsed
    (List.replicate MNET_MAX_PARAMS .null) MNET_MAX_PARAMS
  have hroute : ∀ {route : MnetRoute} {n : Nat} {values : List ParamSlot},
      dispatchParams app parsed (List.replicate MNET_MAX_PARAMS .null) MNET_MAX_PARAMS =
        (some (route, n), values) →
      matchedRoute app parsed = some route ∧
        n = (routeCaptures route.path parsed.pathOnly).1.length := by
    intro route n values hfound
    rw [heq] at hfound
    cases hmatched : matchedRoute app parsed with
    | none => simp [hmatched] at hfound
    | some r =>
        simp only [hmatched, Prod.mk.injEq, Option.some.injEq] at hfound
        obtain ⟨⟨rfl, rfl⟩, -⟩ := hfound
        exact ⟨rfl, rfl⟩
  cases h with
  | param name hfound hparam =>
      obtain ⟨hmatched, rfl⟩ := hroute hfound
      refine ⟨_, hmatched, ?_⟩
      rw [mnetRequestParam] at hparam
      split at hparam
      · simp at hparam
      · have h := (requestParamLoop_value hparam).2
        rw [Nat.zero_add] at h
        exact h
  | free hfound hi =>
      obtain ⟨hmatched, rfl⟩ := hroute hfound
      exact ⟨_, hmatched, hi⟩

/-- Freeing `count` slots leaves the others as they are. -/
theorem mnetMatchParamsFree_frame {values : List ParamSlot} {count i : Nat} (hi : count ≤ i) :
    (mnetMatchParamsFree values count)[i]? = values[i]? := by
  have hlen : (values.take count).length ≤ i := by
    rw [List.length_take]
    omega
  rw [mnetMatchParamsFree, List.getElem?_append_right (by rwa [List.length_map]),
    List.length_map, List.length_take, List.getElem?_drop]
  by_cases hcount : count ≤ values.length
  · rw [Nat.min_eq_left hcount, Nat.add_sub_cancel' hi]
  · rw [List.getElem?_eq_none (by omega), List.getElem?_eq_none (by omega)]

/-- One match stays in bounds exactly when it succeeds or has captured no more
    than there is room for. -/
theorem matchInBounds_iff (route : MnetRoute) (path : Bytes) (values : List ParamSlot)
    (maxValues : Nat) :
    MatchInBounds route path values maxValues ↔
      ((routeCaptures route.path path).2 = false →
        (routeCaptures route.path path).1.length ≤ maxValues) := by
  rw [MatchInBounds, mnetRouteMatch_freed]
  cases hok : (routeCaptures route.path path).2 with
  | true =>
      simp only [if_true, Nat.zero_le, true_and, Bool.true_eq_false, false_implies, iff_true]
      intro i hi
      rw [mnetRouteMatch_eq, if_pos hok]
      exact storeCaptures_frame values _ (.inr hi)
  | false =>
      simp only [Bool.false_eq_true, if_false, true_implies, and_iff_left_iff_imp]
      intro hlen i hi
      rw [mnetRouteMatch_eq, if_neg (by simp [hok]), routeMismatch]
      show (mnetMatchParamsFree _ _)[i]? = values[i]?
      rw [mnetMatchParamsFree_frame (by omega)]
      exact storeCaptures_frame values _ (.inr hi)

/-- A request stays in bounds exactly when none of the routes it tries has
    captured more than there are slots. -/
theorem dispatchInBounds_iff (app : MnetApp) (buffer : Bytes) (parsed : ParsedRequest) :
    DispatchInBounds app buffer parsed ↔ ∀ r ∈ requestRoutes app parsed,
      (routeCaptures r.path parsed.pathOnly).1.length ≤ MNET_MAX_PARAMS := by
  obtain ⟨before, hlen, heq⟩ := dispatchParams_eq app parsed
    (List.replicate MNET_MAX_PARAMS .null) MNET_MAX_PARAMS
  constructor
  · rintro ⟨hattempts, huses⟩ r hr
    cases hok : (routeCaptures r.path parsed.pathOnly).2 with
    | false =>
        have h := hattempts r hr []
        rw [mnetRouteMatch_freed, hok] at h
        exact h
    | true =>
        -- the last free of the request goes through all captures
        have hmatched := matchedRoute_of_mem hr hok
        rw [hmatched] at heq
        by_contra hmany
        have huse : SlotUse app buffer parsed MNET_MAX_PARAMS := .free heq (by omega)
        exact absurd (huses _ huse).1 (Nat.lt_irrefl _)
  · intro hfits
    refine ⟨fun r hr values => ?_, fun i hi => ?_⟩
    · rw [mnetRouteMatch_freed]
      split
      · exact Nat.zero_le _
      · exact hfits r hr
    · obtain ⟨r, hmatched, hlt⟩ := hi.lt
      have hroom := hfits r (matchedRoute_mem hmatched).1
      refine ⟨by omega, r, _, hmatched, List.getElem?_eq_getElem hlt, ?_⟩
      rw [List.length_replicate] at hlen
      rw [heq, hmatched]
      have h : (storeCaptures MNET_MAX_PARAMS 0 before
          (routeCaptures r.path parsed.pathOnly).1)[0 + i]? = _ :=
        storeCaptures_getElem? (List.getElem?_eq_getElem hlt) (by omega) (by omega)
      rwa [Nat.zero_add] at h

/-- Slots stay in bounds exactly when no walk captures more than there are
    slots: one match may do so where it succeeds, a request not even then. -/
theorem paramSlots_inBounds_iff (route : MnetRoute) (path : Bytes) (values : List ParamSlot)
    (maxValues : Nat) (app : MnetApp) (buffer : Bytes) (parsed : ParsedRequest) :
    (MatchInBounds route path values maxValues ↔
      ((routeCaptures route.path path).2 = false →
        (routeCaptures route.path path).1.length ≤ maxValues)) ∧
    (DispatchInBounds app buffer parsed ↔ ∀ r ∈ requestRoutes app parsed,
      (routeCaptures r.path parsed.pathOnly).1.length ≤ MNET_MAX_PARAMS) :=
  ⟨matchInBounds_iff route path values maxValues, dispatchInBounds_iff app buffer parsed⟩

/-- A pattern of seventeen parameters and a literal. -/
def seventeenParams : Bytes :=
  ascii "/:a/:b/:c/:d/:e/:f/:g/:h/:i/:j/:k/:l/:m/:n/:o/:p/:q/x"

/-- The literal at the end mismatches after seventeen captures, and seventeen
    entries of an array of sixteen are freed. -/
theorem not_matchInBounds :
    ¬ ∀ (route : MnetRoute) (path : Bytes) (values : List ParamSlot) (maxValues : Nat),
      MatchInBounds route path values maxValues := by
  intro h
  have hroute := (h (registeredRoute .get seventeenParams fun _ _ => {})
    (ascii "/1/2/3/4/5/6/7/8/9/10/11/12/13/14/15/16/17/y")
    (List.replicate MNET_MAX_PARAMS .null) MNET_MAX_PARAMS).1
  rw [mnetRouteMatch_freed] at hroute
  revert hroute
  decide +kernel

end Mnet
