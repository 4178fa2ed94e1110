/-
  Mnet.ParamNames

  Whether the names registered for a pattern are those of its elements.

  Both scans of a pattern are followed by the places they stop at: the suffixes
  of the pattern that begin with the `:` or `*` at hand.  Registration takes
  every `:` outside a name for a further parameter; for matching an element
  reaches to the next slash.
-/

import Mnet.RouteParams

namespace Mnet

-- ============================================================================
-- Two scans of a pattern
-- ============================================================================

/-- Where `mnet_add_route` reads the names off. -/
def nameSites : Bytes → List Bytes
  | [] => []
  | c :: p =>
      if c = COLON then (c :: p) :: nameSites (p.dropWhile isNameByte)
      else if c = STAR then [c :: p]
      else nameSites p
termination_by p => p.length
decreasing_by
  · have h := (List.dropWhile_suffix isNameByte (l := p)).length_le
    simp only [List.length_cons]
    omega
  · simp

/-- Where the elements of the pattern begin that `mnet_route_match` captures
    by. -/
def elementSites : Bytes → List Bytes
  | [] => []
  | c :: p =>
      if c = STAR then (c :: p) :: elementSites p
      else if c = COLON then (c :: p) :: elementSites (skipSlash (p.dropWhile (· ≠ SLASH)))
      else elementSites p
termination_by p => p.length
decreasing_by
  · simp
  · have h1 := length_skipSlash_le (p.dropWhile (· ≠ SLASH))
    have h2 := (List.dropWhile_suffix (· ≠ SLASH) (l := p)).length_le
    simp only [List.length_cons]
    omega
  · simp

/-- The name of the element at a place, the parameter number `k`. -/
def siteName (k : Nat) (site : Bytes) : Bytes :=
  if site.head? = some STAR then [STAR] else paramName k (site.tail.takeWhile isNameByte)

/-- The names at some places of a pattern, in order. -/
def namesAt (sites : List Bytes) : List Bytes := sites.mapIdx siteName

/-- The registered names are the names at the places they are read off. -/
theorem paramNamesLoop_eq (p : Bytes) (k : Nat) :
    paramNamesLoop p k = (nameSites p).mapIdx fun i site => siteName (k + i) site := by
  fun_induction nameSites p generalizing k with
  | case1 => rw [paramNamesLoop]; rfl
  | case2 p ih =>
      rw [paramNamesLoop, if_pos rfl, ih, List.mapIdx_cons]
      congr 1
      apply List.mapIdx_eq_mapIdx_iff.mpr
      intro i hi
      rw [Nat.add_assoc, Nat.add_comm 1]
  | case3 p hcolon => rw [paramNamesLoop, if_neg hcolon, if_pos rfl]; rfl
  | case4 c p hcolon hstar ih => rw [paramNamesLoop, if_neg hcolon, if_neg hstar, ih]

/-- A match captures by every element of the pattern. -/
theorem captures_sites {pattern path : Bytes} (h : (captures pattern path).2 = true) :
    (captures pattern path).1.map Capture.site = elementSites pattern := by
  fun_induction captures pattern path with
  | case1 ps r rs rest ih =>
      rw [elementSites, if_pos rfl, List.map_cons, ih h]
  | case2 ps r rs rest hstar ih =>
      rw [elementSites, if_neg hstar, if_pos rfl, List.map_cons, ih h]
  | case3 => simp at h
  | case4 p ps r rs hstar hcolon heq ih =>
      rw [elementSites, if_neg hstar, if_neg hcolon, ih h]
  | case5 => rw [elementSites]; rfl
  | case6 => simp at h

/-- In a match nothing stands behind the wildcard. -/
theorem captures_starLast {pattern path : Bytes} (h : (captures pattern path).2 = true) :
    ∀ site ∈ elementSites pattern, site.head? = some STAR → site = [STAR] := by
  fun_induction captures pattern path with
  | case1 ps r rs rest ih =>
      have hnil : ps = [] := by
        cases ps with
        | nil => rfl
        | cons p ps =>
            simp only [rest, captures_cons_nil] at h
            exact absurd h Bool.false_ne_true
      subst hnil
      rw [elementSites, if_pos rfl, elementSites]
      simp
  | case2 ps r rs rest hstar ih =>
      rw [elementSites, if_neg hstar, if_pos rfl]
      intro site hsite hhead
      obtain rfl | hsite := List.mem_cons.mp hsite
      · exact absurd (Option.some.inj hhead) hstar
      · exact ih h site hsite hhead
  | case3 => simp at h
  | case4 p ps r rs hstar hcolon heq ih =>
      rw [elementSites, if_neg hstar, if_neg hcolon]
      exact ih h
  | case5 => rw [elementSites]; simp
  | case6 => simp at h

-- ============================================================================
-- Elements with a dot
-- ============================================================================

/-- The element that begins at a place, from its first dot on. -/
def dottedPart (site : Bytes) : Bytes :=
  (site.tail.takeWhile (· ≠ SLASH)).dropWhile (· ≠ DOT)

/-- No element of the pattern has a `:` or `*` behind a dot. -/
def DotsPlain (pattern : Bytes) : Prop :=
  ∀ site ∈ elementSites pattern, site.head? = some COLON →
    ∀ b ∈ dottedPart site, b ≠ COLON ∧ b ≠ STAR

instance (pattern : Bytes) : Decidable (DotsPlain pattern) :=
  inferInstanceAs (Decidable (∀ site ∈ _, _ → ∀ b ∈ _, _ ∧ _))

/-- Some element has a `*` behind a dot, where registration stops reading
    names. -/
def StarBehindDot (pattern : Bytes) : Prop :=
  ∃ site ∈ elementSites pattern, site.head? = some COLON ∧ STAR ∈ dottedPart site

instance (pattern : Bytes) : Decidable (StarBehindDot pattern) :=
  inferInstanceAs (Decidable (∃ site ∈ _, _ ∧ _))

/-- Behind the name stands the rest of the element from its first dot on. -/
theorem dropWhile_isNameByte (p : Bytes) :
    p.dropWhile isNameByte =
      (p.takeWhile (· ≠ SLASH)).dropWhile (· ≠ DOT) ++ p.dropWhile (· ≠ SLASH) := by
  induction p with
  | nil => rfl
  | cons b p ih =>
      by_cases hslash : b = SLASH
      · simp [isNameByte, hslash]
      · by_cases hdot : b = DOT
        · subst hdot
          rw [List.dropWhile_cons_of_neg (by decide), List.takeWhile_cons_of_pos (by decide),
            List.dropWhile_cons_of_neg (by decide), List.dropWhile_cons_of_pos (by decide),
            List.cons_append, List.takeWhile_append_dropWhile]
        · simpa [isNameByte, List.dropWhile_cons, List.takeWhile_cons, hslash, hdot] using ih

theorem nameSites_skipSlash {s : Bytes} (h : ∀ b ∈ s.head?, b = SLASH) :
    nameSites s = nameSites (skipSlash s) := by
  cases s with
  | nil => rfl
  | cons b s =>
      obtain rfl : b = SLASH := h b rfl
      rw [nameSites, if_neg (by decide), if_neg (by decide), skipSlash, if_pos rfl]

/-- Bytes other than `:` and `*` are passed over. -/
theorem nameSites_append {x : Bytes} (hx : ∀ b ∈ x, b ≠ COLON ∧ b ≠ STAR) (rest : Bytes) :
    nameSites (x ++ rest) = nameSites rest := by
  induction x with
  | nil => rfl
  | cons b x ih =>
      have hb := hx b (List.mem_cons_self ..)
      rw [List.cons_append, nameSites, if_neg hb.1, if_neg hb.2,
        ih fun b' hb' => hx b' (List.mem_cons_of_mem _ hb')]

theorem dropWhile_isNameByte_append (x : Bytes) {rest : Bytes}
    (hrest : ∀ b ∈ rest.head?, b = SLASH) :
    (x ++ rest).dropWhile isNameByte = x.dropWhile isNameByte ++ rest := by
  induction x with
  | nil =>
      cases rest with
      | nil => rfl
      | cons b rest =>
          obtain rfl : b = SLASH := hrest b rfl
          rfl
  | cons b x ih =>
      rw [List.cons_append, List.dropWhile_cons, List.dropWhile_cons, ih]
      split <;> rfl

/-- Without a `*` each `:` outside a name makes a name of its own. -/
theorem length_nameSites_append {x rest : Bytes} (hstar : STAR ∉ x)
    (hrest : ∀ b ∈ rest.head?, b = SLASH) :
    (nameSites rest).length ≤ (nameSites (x ++ rest)).length ∧
      (COLON ∈ x → (nameSites rest).length < (nameSites (x ++ rest)).length) := by
  induction hn : x.length using Nat.strong_induction_on generalizing x with
  | _ n ih =>
      cases x with
      | nil => exact ⟨Nat.le_refl _, nofun⟩
      | cons b x =>
          rw [List.mem_cons, not_or] at hstar
          rw [List.length_cons] at hn
          rw [List.cons_append, nameSites, if_neg (Ne.symm hstar.1)]
          by_cases hcolon : b = COLON
          · have hsuffix := List.dropWhile_suffix isNameByte (l := x)
            have hshort := hsuffix.length_le
            obtain ⟨hle, -⟩ := ih (x.dropWhile isNameByte).length (by omega)
              (fun hmem => hstar.2 (hsuffix.subset hmem)) rfl
            rw [if_pos hcolon, dropWhile_isNameByte_append x hrest, List.length_cons]
            exact ⟨by omega, fun _ => by omega⟩
          · obtain ⟨hle, hlt⟩ := ih x.length (by omega) hstar.2 rfl
            rw [if_neg hcolon]
            exact ⟨hle, fun hmem => hlt ((List.mem_cons.mp hmem).resolve_left (Ne.symm hcolon))⟩

/-- The element at the front of a pattern, and those behind it. -/
theorem forall_elementSites_colon {P : Bytes → Prop} (p : Bytes) :
    (∀ site ∈ elementSites (COLON :: p), P site) ↔
      P (COLON :: p) ∧ ∀ site ∈ elementSites (skipSlash (p.dropWhile (· ≠ SLASH))), P site := by
  rw [elementSites, if_neg (by decide), if_pos rfl, List.forall_mem_cons]

theorem head_dropWhile_slash (p : Bytes) : ∀ b ∈ (p.dropWhile (· ≠ SLASH)).head?, b = SLASH := by
  intro b hb
  have h := List.head?_dropWhile_not (· ≠ SLASH) p
  rw [hb] at h
  simpa using h

/-- The names behind an element are read off its dotted part and what
    follows. -/
theorem nameSites_colon (p : Bytes) :
    nameSites (COLON :: p) =
      (COLON :: p) :: nameSites (dottedPart (COLON :: p) ++ p.dropWhile (· ≠ SLASH)) := by
  rw [nameSites, if_pos rfl, dropWhile_isNameByte]
  rfl

/-- Where no element has a `:` or `*` behind a dot, the two scans stop at the
    same places. -/
theorem nameSites_of_dotsPlain {pattern : Bytes} (hplain : DotsPlain pattern)
    (hlast : ∀ site ∈ elementSites pattern, site.head? = some STAR → site = [STAR]) :
    nameSites pattern = elementSites pattern := by
  fun_induction elementSites pattern with
  | case1 => rw [nameSites]
  | case2 p ih =>
      have hnil : STAR :: p = [STAR] := hlast _ (List.mem_cons_self ..) rfl
      obtain rfl : p = [] := by simpa using hnil
      rw [nameSites, if_neg (by decide), if_pos rfl, elementSites]
  | case3 p hstar ih =>
      obtain ⟨hhere, hrest⟩ := (forall_elementSites_colon p).mp hplain
      have hnames := ih hrest fun site hsite => hlast site (List.mem_cons_of_mem _ hsite)
      rw [nameSites_colon, nameSites_append (hhere rfl),
        nameSites_skipSlash (head_dropWhile_slash p), hnames]
  | case4 c p hstar hcolon ih =>
      have hsame : elementSites (c :: p) = elementSites p := by
        rw [elementSites, if_neg hstar, if_neg hcolon]
      rw [DotsPlain, hsame] at hplain
      rw [nameSites, if_neg hcolon, if_neg hstar, ih hplain hlast]

/-- Where no element has a `*` behind a dot there are no fewer names than
    elements, and more when there is a `:` behind a dot. -/
theorem length_nameSites {pattern : Bytes} (hnone : ¬ StarBehindDot pattern)
    (hlast : ∀ site ∈ elementSites pattern, site.head? = some STAR → site = [STAR]) :
    (elementSites pattern).length ≤ (nameSites pattern).length ∧
      ((nameSites pattern).length ≤ (elementSites pattern).length → DotsPlain pattern) := by
  fun_induction elementSites pattern with
  | case1 => exact ⟨Nat.zero_le _, fun _ => by rw [DotsPlain, elementSites]; exact nofun⟩
  | case2 p ih =>
      have hnil : STAR :: p = [STAR] := hlast _ (List.mem_cons_self ..) rfl
      obtain rfl : p = [] := by simpa using hnil
      have hsites : elementSites [STAR] = [[STAR]] := by rw [elementSites, if_pos rfl, elementSites]
      refine ⟨?_, fun _ => ?_⟩
      · rw [nameSites, if_neg (by decide), if_pos rfl, elementSites]
      · rw [DotsPlain, hsites]
        exact List.forall_mem_singleton.mpr fun h => absurd h (by decide)
  | case3 p hstar ih =>
      have hsplit : ¬ StarBehindDot (COLON :: p) ↔ STAR ∉ dottedPart (COLON :: p) ∧
          ¬ StarBehindDot (skipSlash (p.dropWhile (· ≠ SLASH))) := by
        simp only [StarBehindDot, not_exists, not_and]
        exact (forall_elementSites_colon p).trans (and_congr_left' ⟨fun h => h rfl, fun h _ => h⟩)
      obtain ⟨hhere, hrest⟩ := hsplit.mp hnone
      obtain ⟨hle, hplain⟩ := ih hrest fun site hsite => hlast site (List.mem_cons_of_mem _ hsite)
      have hslash := head_dropWhile_slash p
      obtain ⟨hmore, hextra⟩ := length_nameSites_append hhere hslash
      rw [nameSites_skipSlash hslash] at hmore hextra
      rw [nameSites_colon, List.length_cons, List.length_cons]
      refine ⟨by omega, fun hcount => ?_⟩
      refine (forall_elementSites_colon p).mpr ⟨fun _ b hb => ⟨?_, ?_⟩, hplain (by omega)⟩
      · rintro rfl
        have hlt := hextra hb
        omega
      · rintro rfl
        exact hhere hb
  | case4 c p hstar hcolon ih =>
      have hsame : elementSites (c :: p) = elementSites p := by
        rw [elementSites, if_neg hstar, if_neg hcolon]
      rw [StarBehindDot, hsame] at hnone
      rw [nameSites, if_neg hcolon, if_neg hstar, DotsPlain, hsame]
      exact ih hnone hlast

/-- The names read off a pattern are those of its elements just when no element
    has a `:` or `*` behind a dot, but for those that a `*` there makes the
    same by chance. -/
theorem namesAt_eq_iff {pattern : Bytes}
    (hlast : ∀ site ∈ elementSites pattern, site.head? = some STAR → site = [STAR]) :
    namesAt (nameSites pattern) = namesAt (elementSites pattern) ↔
      DotsPlain pattern ∨ StarBehindDot pattern ∧
        namesAt (nameSites pattern) = namesAt (elementSites pattern) := by
  constructor
  · intro heq
    by_cases hstar : StarBehindDot pattern
    · exact .inr ⟨hstar, heq⟩
    · have hlen := congrArg List.length heq
      rw [namesAt, namesAt, List.length_mapIdx, List.length_mapIdx] at hlen
      exact .inl ((length_nameSites hstar hlast).2 (Nat.le_of_eq hlen))
  · rintro (hplain | ⟨-, heq⟩)
    · rw [nameSites_of_dotsPlain hplain hlast]
    · exact heq

-- ============================================================================
-- Names and values
-- ============================================================================

/-- What `mnet_request_param` finds when there is a name for every turn: the
    first entry of that name, NULL when there is none. -/
theorem requestParamLoop_spec {names : List Bytes} (name : Bytes) {left i : Nat}
    (h : i + left ≤ names.length) :
    (∃ k, i ≤ k ∧ k < i + left ∧ names[k]? = some name ∧
      (∀ j, i ≤ j → j < k → names[j]? ≠ some name) ∧
      requestParamLoop names name left i = .value k) ∨
    ((∀ j, i ≤ j → j < i + left → names[j]? ≠ some name) ∧
      requestParamLoop names name left i = .null) := by
  induction left generalizing i with
  | zero => exact .inr ⟨fun j hij hj => by omega, rfl⟩
  | succ left ih =>
      have hget : names[i]? = some (names.get ⟨i, by omega⟩) := List.getElem?_eq_getElem _
      rw [requestParamLoop, hget]
      by_cases hname : names.get ⟨i, by omega⟩ = name
      · refine .inl ⟨i, Nat.le_refl _, by omega, by rw [hget, hname], ?_, if_pos hname⟩
        intro j hij hji
        omega
      · have hfirst : names[i]? ≠ some name := by
          rw [hget]
          exact fun h => hname (Option.some.inj h)
        simp only [if_neg hname]
        obtain ⟨k, hik, hk, hkname, hbefore, hloop⟩ | ⟨hnone, hloop⟩ := ih (i := i + 1) (by omega)
        · refine .inl ⟨k, by omega, by omega, hkname, fun j hij hjk => ?_, hloop⟩
          obtain rfl | hlt := Nat.eq_or_lt_of_le hij
          · exact hfirst
          · exact hbefore j hlt hjk
        · refine .inr ⟨fun j hij hj => ?_, hloop⟩
          obtain rfl | hlt := Nat.eq_or_lt_of_le hij
          · exact hfirst
          · exact hnone j hlt (by omega)

/-- The registered names are those of the elements of the pattern, each at the
    index of the value captured by its element, and `mnet_request_param` goes
    by them. -/
structure ParamsLineUp (route : MnetRoute) (path : Bytes) (values : List ParamSlot) (n : Nat) :
    Prop where
  count : route.paramNames.length = n
  entries : ∀ i c, (routeCaptures route.path path).1[i]? = some c →
    route.paramNames[i]? = some (siteName i c.site) ∧ values[i]? = some (.live c.value)
  lookup : ∀ buffer parsed name,
    (∃ i c, (routeCaptures route.path path).1[i]? = some c ∧ siteName i c.site = name ∧
      (∀ j d, j < i → (routeCaptures route.path path).1[j]? = some d →
        siteName j d.site ≠ name) ∧
      mnetRequestParam (routedRequest buffer parsed route n values) name = .value i) ∨
    ((∀ i c, (routeCaptures route.path path).1[i]? = some c → siteName i c.site ≠ name) ∧
      mnetRequestParam (routedRequest buffer parsed route n values) name = .null)

/-- The names of captures are those at the places they were made. -/
theorem mapIdx_captures (cs : List Capture) :
    (cs.mapIdx fun i c => siteName i c.site) = namesAt (cs.map Capture.site) := by
  rw [namesAt, List.mapIdx_eq_iff]
  intro i
  simp only [List.getElem?_mapIdx, List.getElem?_map, Option.map_map]
  rfl

theorem paramNames_eq_namesAt {route : MnetRoute}
    (hnames : route.paramNames = paramNamesLoop route.path 0) :
    route.paramNames = namesAt (nameSites route.path) := by
  rw [hnames, paramNamesLoop_eq, namesAt]
  simp only [Nat.zero_add]

/-- The matched route's captures, from the count it returns. -/
theorem routeCaptures_of_count {route : MnetRoute} {path : Bytes} {values : List ParamSlot}
    {maxValues n : Nat} (h : (mnetRouteMatch route path values maxValues).count = some n) :
    (routeCaptures route.path path).1.length = n ∧
      (captures route.path path).2 = true ∧
      routeCaptures route.path path = captures route.path path ∧
      (mnetRouteMatch route path values maxValues).values =
        storeCaptures maxValues 0 values (routeCaptures route.path path).1 := by
  have hok : (routeCaptures route.path path).2 = true := by
    by_contra hnot
    rw [mnetRouteMatch_count, if_neg hnot] at h
    simp at h
  have hwalk : routeCaptures route.path path = captures route.path path := by
    rw [routeCaptures] at hok ⊢
    split at hok
    · simp at hok
    · next hslash => rw [if_neg hslash]
  rw [mnetRouteMatch_count, if_pos hok, Option.some.injEq] at h
  refine ⟨h, hwalk ▸ hok, hwalk, ?_⟩
  rw [mnetRouteMatch_eq, if_pos hok]

/-- Names that are those of the captures line up with the values. -/
theorem paramsLineUp_of_names {route : MnetRoute} {path : Bytes} {values : List ParamSlot}
    {n : Nat} (hlen : values.length = MNET_MAX_PARAMS) (hn : n ≤ MNET_MAX_PARAMS)
    (hcount : (routeCaptures route.path path).1.length = n)
    (heq : route.paramNames =
      (routeCaptures route.path path).1.mapIdx fun i c => siteName i c.site) :
    ParamsLineUp route path
      (storeCaptures MNET_MAX_PARAMS 0 values (routeCaptures route.path path).1) n := by
  have hlength : route.paramNames.length = n := by rw [heq, List.length_mapIdx, hcount]
  have hentry : ∀ i name, route.paramNames[i]? = some name ↔
      ∃ c, (routeCaptures route.path path).1[i]? = some c ∧ siteName i c.site = name := by
    intro i name
    rw [heq, List.getElem?_mapIdx, Option.map_eq_some_iff]
  refine ⟨hlength, fun i c hc => ⟨(hentry i _).mpr ⟨c, hc, rfl⟩, ?_⟩, ?_⟩
  · have hi : i < (routeCaptures route.path path).1.length :=
      (List.getElem?_eq_some_iff.mp hc).1
    have h : (storeCaptures MNET_MAX_PARAMS 0 values
        (routeCaptures route.path path).1)[0 + i]? = _ :=
      storeCaptures_getElem? hc (by omega) (by omega)
    rwa [Nat.zero_add] at h
  · intro buffer parsed name
    have hparam : mnetRequestParam (routedRequest buffer parsed route n
        (storeCaptures MNET_MAX_PARAMS 0 values (routeCaptures route.path path).1)) name =
        requestParamLoop route.paramNames name n 0 := by
      show (if route.paramNames = [] then ParamLookup.null
        else requestParamLoop route.paramNames name n 0) = _
      split
      · next hnil =>
        rw [hnil, List.length_nil] at hlength
        rw [← hlength]
        rfl
      · rfl
    rw [hparam]
    obtain ⟨k, -, -, hk, hbefore, hloop⟩ | ⟨hnone, hloop⟩ :=
      @requestParamLoop_spec route.paramNames name n 0 (by omega)
    · obtain ⟨c, hc, hname⟩ := (hentry k name).mp hk
      refine .inl ⟨k, c, hc, hname, fun j d hj hd hsame => ?_, hloop⟩
      exact hbefore j (Nat.zero_le _) hj ((hentry j name).mpr ⟨d, hd, hsame⟩)
    · refine .inr ⟨fun i c hc hname => ?_, hloop⟩
      have hi : i < (routeCaptures route.path path).1.length :=
        (List.getElem?_eq_some_iff.mp hc).1
      exact hnone i (Nat.zero_le _) (by omega) ((hentry i name).mpr ⟨c, hc, hname⟩)

/-- A route with a named parameter, an unnamed one and a wildcard. -/
def threeElements : Bytes := ascii "/files/:name.txt/:/*"

/-- An element that holds what registration takes for two parameters. -/
def dottedParams : Bytes := ascii "/:base.:ext"

end Mnet
