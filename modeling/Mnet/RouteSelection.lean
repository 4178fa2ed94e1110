/-
  Mnet.RouteSelection

  Which route `mnet_find_route` returns, and what it leaves in the slots.

  The attempts before the one that succeeds fill and free the same slots, and
  for HEAD a second pass goes over them again.  What the last attempt captures
  overwrites whatever they left, from the first slot on, so the slots up to the
  count hold the captures of the returned route and nothing else.
-/

import Mnet.ParamNames

namespace Mnet

-- ============================================================================
-- The route
-- ============================================================================

/-- The route is registered for the method and its pattern matches the path. -/
def Suits (method : HttpMethod) (path : Bytes) (route : MnetRoute) : Prop :=
  route.method = method ∧
    (mnetRouteMatch route path (List.replicate MNET_MAX_PARAMS .null) MNET_MAX_PARAMS).count.isSome

/-- The first of the routes that suits. -/
def FirstSuiting (method : HttpMethod) (path : Bytes) (routes : List MnetRoute)
    (route : MnetRoute) : Prop :=
  ∃ before after, routes = before ++ route :: after ∧ Suits method path route ∧
    ∀ r ∈ before, ¬ Suits method path r

/-- The route a request is to be given: the first that suits its method, for
    HEAD without one the first that suits GET, or none. -/
inductive Selected (routes : List MnetRoute) (method : HttpMethod) (path : Bytes) :
    Option MnetRoute → Prop where
  | own {route : MnetRoute} (hfirst : FirstSuiting method path routes route) :
      Selected routes method path (some route)
  | getForHead {route : MnetRoute} (hhead : method = .head)
      (hnone : ∀ r ∈ routes, ¬ Suits method path r)
      (hfirst : FirstSuiting .get path routes route) : Selected routes method path (some route)
  | missing (hnone : ∀ r ∈ routes, ¬ Suits method path r)
      (hget : method = .head → ∀ r ∈ routes, ¬ Suits .get path r) :
      Selected routes method path none

theorem suits_iff {method : HttpMethod} {path : Bytes} {route : MnetRoute} :
    Suits method path route ↔
      (route.method = method && (routeCaptures route.path path).2) = true := by
  rw [Suits, mnetRouteMatch_count, Bool.and_eq_true, decide_eq_true_eq]
  apply and_congr_right
  intro hmethod
  split
  · next hok => simp [hok]
  · next hok => simp [hok]

theorem firstSuiting_of_firstMatch {method : HttpMethod} {path : Bytes} {routes : List MnetRoute}
    {route : MnetRoute} (h : firstMatch method path routes = some route) :
    FirstSuiting method path routes route := by
  rw [firstMatch, List.find?_eq_some_iff_append] at h
  obtain ⟨hsuits, before, after, hsplit, hbefore⟩ := h
  refine ⟨before, after, hsplit, suits_iff.mpr hsuits, fun r hr hsuits => ?_⟩
  have hnot := hbefore r hr
  rw [suits_iff.mp hsuits] at hnot
  exact absurd hnot (by decide)

theorem not_suits_of_firstMatch {method : HttpMethod} {path : Bytes} {routes : List MnetRoute}
    (h : firstMatch method path routes = none) : ∀ r ∈ routes, ¬ Suits method path r := by
  rw [firstMatch, List.find?_eq_none] at h
  exact fun r hr hsuits => h r hr (suits_iff.mp hsuits)

-- ============================================================================
-- The slots
-- ============================================================================

/-- Stored captures fill the slots from the first on, whatever they held. -/
theorem take_storeCaptures {maxValues : Nat} {values : List ParamSlot} {cs : List Capture}
    (hroom : maxValues ≤ values.length) (hcs : cs.length ≤ maxValues) :
    (storeCaptures maxValues 0 values cs).take cs.length =
      cs.map fun c => .live c.value := by
  have hlen : (storeCaptures maxValues 0 values cs).length = values.length :=
    length_storeCaptures ..
  apply List.ext_getElem?
  intro i
  by_cases hi : i < cs.length
  · have hslot : (storeCaptures maxValues 0 values cs)[0 + i]? = some (.live cs[i].value) :=
      storeCaptures_getElem? (List.getElem?_eq_getElem hi) (by omega) (by omega)
    rw [Nat.zero_add] at hslot
    rw [List.getElem?_take_of_lt hi, hslot, List.getElem?_map, List.getElem?_eq_getElem hi]
    rfl
  · rw [List.getElem?_eq_none (by rw [List.length_take]; omega),
      List.getElem?_eq_none (by rw [List.length_map]; omega)]

/-- A match has a capture for each element of the pattern. -/
theorem length_routeCaptures {pattern path : Bytes} (h : (routeCaptures pattern path).2 = true) :
    (routeCaptures pattern path).1.length = (elementSites pattern).length := by
  unfold routeCaptures at h ⊢
  split at h
  · exact absurd h Bool.false_ne_true
  · next hslash =>
    rw [if_neg hslash, ← captures_sites h, List.length_map]

-- ============================================================================
-- Selection
-- ============================================================================

theorem selected_foundRoute (routes : List MnetRoute) (method : HttpMethod) (path : Bytes) :
    Selected routes method path (foundRoute routes method path) := by
  unfold foundRoute
  cases hown : firstMatch method path routes with
  | some r => exact .own (firstSuiting_of_firstMatch hown)
  | none =>
      have hnone := not_suits_of_firstMatch hown
      by_cases hhead : method = .head
      · rw [if_pos hhead]
        cases hget : firstMatch .get path routes with
        | some r => exact .getForHead hhead hnone (firstSuiting_of_firstMatch hget)
        | none => exact .missing hnone fun _ => not_suits_of_firstMatch hget
      · rw [if_neg hhead]
        exact .missing hnone fun h => absurd h hhead

/-- `*out_count`: 0 until a route is found, then the number of its captures. -/
def outCount (found : Option (MnetRoute × Nat)) : Nat := (found.map Prod.snd).getD 0

/-- The outcome of `mnet_find_route`: the selected route, and as many slots as
    are counted with its captures in them, the same as if it had been matched
    on slots of its own. -/
structure SelectsRoute (routes : List MnetRoute) (method : HttpMethod) (path : Bytes)
    (found : Option (MnetRoute × Nat)) (slots : List ParamSlot) : Prop where
  route : Selected routes method path (found.map Prod.fst)
  missing : found = none → outCount found = 0
  count : ∀ r ∈ found.map Prod.fst,
    (mnetRouteMatch r path (List.replicate MNET_MAX_PARAMS .null) MNET_MAX_PARAMS).count =
      some (outCount found)
  captured : ∀ r ∈ found.map Prod.fst,
    slots.take (outCount found) = (routeCaptures r.path path).1.map fun c => .live c.value
  alone : ∀ r ∈ found.map Prod.fst,
    slots.take (outCount found) = (mnetRouteMatch r path (List.replicate MNET_MAX_PARAMS .null)
      MNET_MAX_PARAMS).values.take (outCount found)

theorem Selected.mem {routes : List MnetRoute} {method : HttpMethod} {path : Bytes}
    {route : MnetRoute} (h : Selected routes method path (some route)) :
    route ∈ routes ∧ (routeCaptures route.path path).2 = true := by
  have hfirst : ∀ {m}, FirstSuiting m path routes route →
      route ∈ routes ∧ (routeCaptures route.path path).2 = true := by
    rintro m ⟨before, after, rfl, hsuits, -⟩
    exact ⟨by simp, (Bool.and_eq_true_iff.mp (suits_iff.mp hsuits)).2⟩
  cases h with
  | own h => exact hfirst h
  | getForHead hhead hnone h => exact hfirst h

/-- `mnet_find_route` returns the selected route, and counts and stores its
    captures: nothing that an earlier attempt left in the slots is among the
    counted ones. -/
theorem mnetFindRoute_selects {app : MnetApp} {values : List ParamSlot}
    (hparams : ∀ r ∈ app.routes, (elementSites r.path).length ≤ MNET_MAX_PARAMS)
    (hroom : values.length = MNET_MAX_PARAMS) (method : HttpMethod) (path : Bytes) :
    SelectsRoute app.routes method path
      (mnetFindRoute app method path values MNET_MAX_PARAMS).1
      (mnetFindRoute app method path values MNET_MAX_PARAMS).2 := by
  obtain ⟨before, hlen, heq⟩ := mnetFindRoute_eq app method path values MNET_MAX_PARAMS
  have hselected := selected_foundRoute app.routes method path
  rw [heq]
  cases hfound : foundRoute app.routes method path with
  | none =>
      rw [hfound] at hselected
      exact ⟨hselected, fun _ => rfl, by simp, by simp, by simp⟩
  | some r =>
      rw [hfound] at hselected
      obtain ⟨hmem, hok⟩ := hselected.mem
      have hcs : (routeCaptures r.path path).1.length ≤ MNET_MAX_PARAMS := by
        rw [length_routeCaptures hok]
        exact hparams r hmem
      have hslots := @take_storeCaptures _ before _ (by omega) hcs
      have halone := @take_storeCaptures _ (List.replicate MNET_MAX_PARAMS .null) _
        (by rw [List.length_replicate]) hcs
      refine ⟨hselected, by simp, ?_, ?_, ?_⟩
      all_goals
        intro r' hr'
        obtain rfl : r = r' := Option.some.inj hr'
      · rw [mnetRouteMatch_count, if_pos hok]
        rfl
      · exact hslots
      · rw [mnetRouteMatch_eq, if_pos hok]
        exact hslots.trans halone.symm

/-- Routes that capture before they fail: the second one is a route for HEAD,
    and only the last matches `/a/b`. -/
def overlappingRoutes : MnetApp :=
  { routes := [registeredRoute .get (ascii "/:x/:y/c") fun _ _ => {},
      registeredRoute .head (ascii "/:x/c") fun _ _ => {},
      registeredRoute .get (ascii "/a/:y") fun _ _ => {}] }

theorem mnetFindRoute_overlappingRoutes :
    SelectsRoute overlappingRoutes.routes .head (ascii "/a/b")
      (mnetFindRoute overlappingRoutes .head (ascii "/a/b")
        (List.replicate MNET_MAX_PARAMS .freed) MNET_MAX_PARAMS).1
      (mnetFindRoute overlappingRoutes .head (ascii "/a/b")
        (List.replicate MNET_MAX_PARAMS .freed) MNET_MAX_PARAMS).2 :=
  mnetFindRoute_selects (by decide +kernel) (List.length_replicate ..) _ _

end Mnet
