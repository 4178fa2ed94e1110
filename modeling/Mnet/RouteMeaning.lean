/-
  Mnet.RouteMeaning

  What a route pattern made of whole segments means, and that
  `mnet_route_match` goes by it.

  The loop skips the slash behind a parameter on both sides by themselves.  So
  a slash at the very end may be there on one side only, and a parameter may
  be empty where its slash follows in the path.
-/

import Mnet.RouteParams

namespace Mnet

-- ============================================================================
-- Patterns
-- ============================================================================

/-- A segment of a pattern: literal text, or the name of a parameter. -/
inductive Segment where
  | literal (text : Bytes)
  | param (name : Bytes)
deriving DecidableEq, Repr

def Segment.render : Segment → Bytes
  | .literal text => text
  | .param name => COLON :: name

def Segment.Valid : Segment → Prop
  | .literal text => ∀ b ∈ text, b ≠ SLASH ∧ b ≠ COLON ∧ b ≠ STAR
  | .param name => name ≠ [] ∧ SLASH ∉ name

instance (s : Segment) : Decidable s.Valid :=
  match s with
  | .literal text => inferInstanceAs (Decidable (∀ b ∈ text, b ≠ SLASH ∧ b ≠ COLON ∧ b ≠ STAR))
  | .param name => inferInstanceAs (Decidable (name ≠ [] ∧ SLASH ∉ name))

/-- The text of segments, and of the wildcard behind them. -/
def renderSegments (segments : List Segment) (wildcard : Bool) : Bytes :=
  match segments with
  | [] => if wildcard then [SLASH, STAR] else []
  | s :: segments => SLASH :: (s.render ++ renderSegments segments wildcard)

/-- A pattern of one or more segments, the last of which may be a wildcard. -/
structure RoutePattern where
  segments : List Segment
  wildcard : Bool
  valid : ∀ s ∈ segments, s.Valid
  ne_nil : segments ≠ [] ∨ wildcard = true

def RoutePattern.render (p : RoutePattern) : Bytes := renderSegments p.segments p.wildcard

/-- The path with the texts in the place of the parameters and the wildcard,
    none of them empty, and everything else as it is. -/
inductive Instance : List Segment → Bool → List Bytes → Bytes → Prop where
  | done : Instance [] false [] []
  | wildcard {text : Bytes} (hne : text ≠ []) : Instance [] true [text] (SLASH :: text)
  | literal {segments : List Segment} {wild : Bool} {texts : List Bytes} {path : Bytes}
      (text : Bytes) (hrest : Instance segments wild texts path) :
      Instance (.literal text :: segments) wild texts (SLASH :: (text ++ path))
  | param {segments : List Segment} {wild : Bool} {texts : List Bytes} {path text : Bytes}
      (name : Bytes) (hne : text ≠ []) (hslash : SLASH ∉ text)
      (hrest : Instance segments wild texts path) :
      Instance (.param name :: segments) wild (text :: texts) (SLASH :: (text ++ path))

/-- The same, but that a parameter may be empty where a slash follows, and
    that a slash behind a parameter at the end may be on one side only. -/
inductive Fits : List Segment → Bool → List Bytes → Bytes → Prop where
  | done : Fits [] false [] []
  | wildcard {text : Bytes} (hne : text ≠ []) : Fits [] true [text] (SLASH :: text)
  | literal {segments : List Segment} {wild : Bool} {texts : List Bytes} {path : Bytes}
      (text : Bytes) (hrest : Fits segments wild texts path) :
      Fits (.literal text :: segments) wild texts (SLASH :: (text ++ path))
  | param {segments : List Segment} {wild : Bool} {texts : List Bytes} {path text : Bytes}
      (name : Bytes) (hne : text ≠ [] ∨ path ≠ []) (hslash : SLASH ∉ text)
      (hrest : Fits segments wild texts path) :
      Fits (.param name :: segments) wild (text :: texts) (SLASH :: (text ++ path))
  /-- the path has a slash more -/
  | extraSlash {text : Bytes} (name : Bytes) (hslash : SLASH ∉ text) :
      Fits [.param name] false [text] (SLASH :: (text ++ [SLASH]))
  /-- the pattern has a slash more -/
  | missingSlash {text : Bytes} (name : Bytes) (hne : text ≠ []) (hslash : SLASH ∉ text) :
      Fits [.param name, .literal []] false [text] (SLASH :: text)

-- ============================================================================
-- One segment
-- ============================================================================

theorem Segment.Valid.plain {text : Bytes} (h : (Segment.literal text).Valid) :
    ∀ b ∈ text, Plain b := fun b hb => (h b hb).2

/-- Literal text is matched by itself. -/
theorem captures_literal {text : Bytes} (h : (Segment.literal text).Valid) (pattern path : Bytes) :
    captures (text ++ pattern) (text ++ path) = captures pattern path := by
  rw [captures_plain h.plain, if_pos (List.prefix_append ..), List.drop_left]

/-- And by nothing else. -/
theorem isPrefix_of_captures_literal {text : Bytes} (h : (Segment.literal text).Valid)
    {pattern path : Bytes} (hok : (captures (text ++ pattern) path).2 = true) : text <+: path := by
  by_contra hpre
  rw [captures_plain h.plain, if_neg hpre] at hok
  exact Bool.false_ne_true hok

theorem captures_slash (pattern path : Bytes) :
    captures (SLASH :: pattern) (SLASH :: path) = captures pattern path :=
  captures_same _ _ (by decide) (by decide)

/-- A list that ends or goes on with a slash. -/
def EndsOrSlash (s : Bytes) : Prop := s = [] ∨ ∃ rest, s = SLASH :: rest

theorem endsOrSlash_renderSegments (segments : List Segment) (wildcard : Bool) :
    EndsOrSlash (renderSegments segments wildcard) := by
  cases segments with
  | nil =>
      cases wildcard with
      | false => exact .inl rfl
      | true => exact .inr ⟨_, rfl⟩
  | cons s segments => exact .inr ⟨_, rfl⟩

/-- A text up to the slash behind it. -/
theorem takeWhile_dropWhile_slash {text rest : Bytes} (hslash : SLASH ∉ text)
    (hrest : EndsOrSlash rest) :
    (text ++ rest).takeWhile (· ≠ SLASH) = text ∧ (text ++ rest).dropWhile (· ≠ SLASH) = rest := by
  apply Tokens.takeWhile_dropWhile_append
  · rw [List.all_eq_true]
    intro b hb
    rw [decide_eq_true_eq]
    rintro rfl
    exact hslash hb
  · obtain rfl | ⟨more, rfl⟩ := hrest
    · exact nofun
    · rintro b ⟨⟩
      decide

/-- A parameter captures the path up to the next slash, and the slash behind it
    is skipped on both sides by itself. -/
theorem captures_param {name pattern text path : Bytes} (hname : SLASH ∉ name)
    (hpattern : EndsOrSlash pattern) (hslash : SLASH ∉ text) (hpath : EndsOrSlash path)
    (hne : text ++ path ≠ []) :
    captures (COLON :: (name ++ pattern)) (text ++ path) =
      (⟨COLON :: (name ++ pattern), text⟩ :: (captures (skipSlash pattern) (skipSlash path)).1,
        (captures (skipSlash pattern) (skipSlash path)).2) := by
  rw [captures_colon _ hne, (takeWhile_dropWhile_slash hname hpattern).2,
    (takeWhile_dropWhile_slash hslash hpath).1, (takeWhile_dropWhile_slash hslash hpath).2]

theorem captures_skipSlash {pattern path : Bytes} (hpattern : EndsOrSlash pattern)
    (hpath : EndsOrSlash path) (hsame : pattern = [] ↔ path = []) :
    captures (skipSlash pattern) (skipSlash path) = captures pattern path := by
  obtain rfl | ⟨p, rfl⟩ := hpattern
  · rw [hsame.mp rfl]
    rfl
  · obtain rfl | ⟨r, rfl⟩ := hpath
    · exact absurd (hsame.mpr rfl) (List.cons_ne_nil _ _)
    · rw [captures_slash]
      rfl

-- ============================================================================
-- The whole pattern
-- ============================================================================

theorem Fits.endsOrSlash {segments : List Segment} {wildcard : Bool} {texts : List Bytes}
    {path : Bytes} (h : Fits segments wildcard texts path) :
    EndsOrSlash path ∧ (renderSegments segments wildcard = [] ↔ path = []) := by
  cases h with
  | done => exact ⟨.inl rfl, iff_of_true rfl rfl⟩
  | wildcard hne => exact ⟨.inr ⟨_, rfl⟩, by simp [renderSegments]⟩
  | literal text hrest => exact ⟨.inr ⟨_, rfl⟩, by simp [renderSegments]⟩
  | param name hne hslash hrest => exact ⟨.inr ⟨_, rfl⟩, by simp [renderSegments]⟩
  | extraSlash name hslash => exact ⟨.inr ⟨_, rfl⟩, by simp [renderSegments]⟩
  | missingSlash name hne hslash => exact ⟨.inr ⟨_, rfl⟩, by simp [renderSegments]⟩

/-- A path that fits is matched, and the texts are what is captured. -/
theorem Fits.captures {segments : List Segment} {wildcard : Bool} {texts : List Bytes}
    {path : Bytes} (h : Fits segments wildcard texts path) (hvalid : ∀ s ∈ segments, s.Valid) :
    ∃ cs, Mnet.captures (renderSegments segments wildcard) path = (cs, true) ∧
      cs.map Capture.text = texts := by
  induction h with
  | done => exact ⟨[], captures_nil_nil, rfl⟩
  | wildcard hne =>
      refine ⟨[⟨[STAR], _⟩], ?_, rfl⟩
      show Mnet.captures (SLASH :: [STAR]) (SLASH :: _) = _
      rw [captures_slash, captures_star _ hne, captures_nil_nil]
  | literal text hrest ih =>
      obtain ⟨cs, heq, htexts⟩ := ih fun s hs => hvalid s (List.mem_cons_of_mem _ hs)
      refine ⟨cs, ?_, htexts⟩
      rw [renderSegments, captures_slash, Segment.render,
        captures_literal (hvalid _ (List.mem_cons_self ..)), heq]
  | @param segments wild texts path text name hne hslash hrest ih =>
      obtain ⟨cs, heq, htexts⟩ := ih fun s hs => hvalid s (List.mem_cons_of_mem _ hs)
      have hname : (Segment.param name).Valid := hvalid _ (List.mem_cons_self ..)
      obtain ⟨hpath, hsame⟩ := hrest.endsOrSlash
      have hpattern := endsOrSlash_renderSegments segments wild
      have hsome : text ++ path ≠ [] := by
        rw [ne_eq, List.append_eq_nil_iff, not_and_or]
        exact hne
      refine ⟨⟨COLON :: (name ++ renderSegments segments wild), text⟩ :: cs, ?_,
        by rw [List.map_cons, htexts]⟩
      rw [renderSegments, captures_slash, Segment.render, List.cons_append,
        captures_param hname.2 hpattern hslash hpath hsome, captures_skipSlash hpattern hpath hsame,
        heq]
  | @extraSlash text name hslash =>
      have hname : (Segment.param name).Valid := hvalid _ (List.mem_cons_self ..)
      refine ⟨[⟨COLON :: (name ++ []), text⟩], ?_, rfl⟩
      rw [renderSegments, captures_slash, Segment.render, List.cons_append]
      show Mnet.captures (COLON :: (name ++ [])) (text ++ [SLASH]) = _
      rw [captures_param hname.2 (.inl rfl) hslash (.inr ⟨[], rfl⟩) (by simp)]
      show (⟨_, text⟩ :: (Mnet.captures [] []).1, (Mnet.captures [] []).2) = _
      rw [captures_nil_nil]
  | @missingSlash text name hne hslash =>
      have hname : (Segment.param name).Valid := hvalid _ (List.mem_cons_self ..)
      have hends : EndsOrSlash [SLASH] := .inr ⟨[], rfl⟩
      have hparam := captures_param hname.2 hends hslash (.inl rfl) (by rwa [List.append_nil])
      refine ⟨[⟨COLON :: (name ++ [SLASH]), text⟩], ?_, rfl⟩
      rw [List.append_nil] at hparam
      rw [renderSegments, captures_slash, Segment.render, List.cons_append]
      show Mnet.captures (COLON :: (name ++ [SLASH])) text = _
      rw [hparam]
      show (⟨_, text⟩ :: (Mnet.captures [] []).1, (Mnet.captures [] []).2) = _
      rw [captures_nil_nil]

/-- A pattern that is a lone slash is that of an empty literal. -/
theorem renderSegments_eq_slash {segments : List Segment} {wildcard : Bool}
    (h : renderSegments segments wildcard = [SLASH]) :
    segments = [.literal []] ∧ wildcard = false := by
  cases segments with
  | nil => cases wildcard <;> simp [renderSegments] at h
  | cons s segments =>
      rw [renderSegments, List.cons.injEq, List.append_eq_nil_iff] at h
      obtain ⟨-, hs, hrest⟩ := h
      have hnil : segments = [] ∧ wildcard = false := by
        cases segments with
        | nil =>
            refine ⟨rfl, ?_⟩
            cases wildcard with
            | false => rfl
            | true => simp [renderSegments] at hrest
        | cons s' segments => simp [renderSegments] at hrest
      cases s with
      | literal text =>
          obtain rfl : text = [] := hs
          obtain ⟨rfl, rfl⟩ := hnil
          exact ⟨rfl, rfl⟩
      | param name => simp [Segment.render] at hs

theorem renderSegments_eq_nil {segments : List Segment} {wildcard : Bool}
    (h : renderSegments segments wildcard = []) : segments = [] ∧ wildcard = false := by
  cases segments with
  | nil =>
      cases wildcard with
      | false => exact ⟨rfl, rfl⟩
      | true => simp [renderSegments] at h
  | cons s segments => simp [renderSegments] at h

/-- Any path is a segment and what is left behind it. -/
theorem exists_segment_append (path : Bytes) :
    ∃ text rest, path = text ++ rest ∧ SLASH ∉ text ∧ EndsOrSlash rest := by
  refine ⟨path.takeWhile (· ≠ SLASH), path.dropWhile (· ≠ SLASH),
    List.takeWhile_append_dropWhile.symm, fun h => ?_, ?_⟩
  · have hb := List.mem_takeWhile_imp h
    simp at hb
  · cases hrest : path.dropWhile (· ≠ SLASH) with
    | nil => exact .inl rfl
    | cons b rest =>
        have hb := List.head?_dropWhile_not (· ≠ SLASH) path
        rw [hrest] at hb
        obtain rfl : b = SLASH := by simpa using hb
        exact .inr ⟨rest, rfl⟩

/-- A pattern that begins with a slash matches no path that does not. -/
theorem exists_slash_of_captures {pattern path : Bytes}
    (h : (captures (SLASH :: pattern) path).2 = true) : ∃ rs, path = SLASH :: rs := by
  cases path with
  | nil =>
      rw [captures_cons_nil] at h
      exact absurd h Bool.false_ne_true
  | cons r rs =>
      by_cases hr : SLASH = r
      · exact ⟨rs, by rw [hr]⟩
      · rw [captures_ne _ _ (by decide) (by decide) hr] at h
        exact absurd h Bool.false_ne_true

/-- What is matched behind the last segment. -/
theorem fits_nil_of_captures {wildcard : Bool} {path : Bytes}
    (h : (captures (renderSegments [] wildcard) path).2 = true) :
    Fits [] wildcard ((captures (renderSegments [] wildcard) path).1.map Capture.text) path := by
  cases wildcard with
  | false =>
      cases path with
      | nil =>
          show Fits [] false ((captures [] []).1.map _) []
          rw [captures_nil_nil]
          exact .done
      | cons r rs =>
          change (captures [] (r :: rs)).2 = true at h
          rw [captures_nil_cons] at h
          exact absurd h Bool.false_ne_true
  | true =>
      change (captures (SLASH :: [STAR]) path).2 = true at h
      show Fits [] true ((captures (SLASH :: [STAR]) path).1.map _) path
      obtain ⟨rs, rfl⟩ := exists_slash_of_captures h
      rw [captures_slash] at h ⊢
      cases rs with
      | nil =>
          rw [captures_cons_nil] at h
          exact absurd h Bool.false_ne_true
      | cons b rs =>
          rw [captures_star _ (List.cons_ne_nil _ _), captures_nil_nil]
          exact .wildcard (List.cons_ne_nil _ _)

/-- Where a slash stands behind a parameter on one side only, what is matched
    ends there. -/
theorem fits_param_of_oneSided {segments : List Segment} {wildcard : Bool} {text tail : Bytes}
    (name : Bytes) (hslash : SLASH ∉ text) (htail : EndsOrSlash tail) (hne : text ++ tail ≠ [])
    (hone : ¬ (renderSegments segments wildcard = [] ↔ tail = []))
    (h : (captures (skipSlash (renderSegments segments wildcard)) (skipSlash tail)).2 = true) :
    Fits (.param name :: segments) wildcard
      (text :: (captures (skipSlash (renderSegments segments wildcard))
        (skipSlash tail)).1.map Capture.text) (SLASH :: (text ++ tail)) := by
  obtain hnil | ⟨p, hp⟩ := endsOrSlash_renderSegments segments wildcard
  · obtain rfl | ⟨r, rfl⟩ := htail
    · exact absurd (iff_of_true hnil rfl) hone
    · obtain ⟨rfl, rfl⟩ := renderSegments_eq_nil hnil
      change (captures [] r).2 = true at h
      cases r with
      | nil =>
          show Fits _ _ (text :: ((captures [] []).1.map _)) _
          rw [captures_nil_nil]
          exact .extraSlash name hslash
      | cons b r =>
          rw [captures_nil_cons] at h
          exact absurd h Bool.false_ne_true
  · obtain rfl | ⟨r, rfl⟩ := htail
    · rw [hp] at h ⊢
      change (captures p []).2 = true at h
      cases p with
      | nil =>
          obtain ⟨rfl, rfl⟩ := renderSegments_eq_slash hp
          show Fits _ _ (text :: ((captures [] []).1.map _)) _
          rw [captures_nil_nil]
          rw [List.append_nil] at hne ⊢
          exact .missingSlash name hne hslash
      | cons b p =>
          rw [captures_cons_nil] at h
          exact absurd h Bool.false_ne_true
    · exact absurd (iff_of_false (by rw [hp]; exact List.cons_ne_nil _ _)
        (List.cons_ne_nil _ _)) hone

/-- A path that is matched fits. -/
theorem fits_of_captures {segments : List Segment} {wildcard : Bool} {path : Bytes}
    (hvalid : ∀ s ∈ segments, s.Valid)
    (h : (captures (renderSegments segments wildcard) path).2 = true) :
    Fits segments wildcard
      ((captures (renderSegments segments wildcard) path).1.map Capture.text) path := by
  induction segments generalizing path with
  | nil => exact fits_nil_of_captures h
  | cons s segments ih =>
      have hs : s.Valid := hvalid _ (List.mem_cons_self ..)
      have ih' := fun {path} => @ih path fun s hs => hvalid s (List.mem_cons_of_mem _ hs)
      rw [renderSegments] at h ⊢
      obtain ⟨rs, rfl⟩ := exists_slash_of_captures h
      rw [captures_slash] at h ⊢
      cases s with
      | literal text =>
          obtain ⟨rest, rfl⟩ := isPrefix_of_captures_literal hs h
          rw [Segment.render, captures_literal hs] at h ⊢
          exact .literal text (ih' h)
      | param name =>
          obtain ⟨text, tail, rfl, hslash, htail⟩ := exists_segment_append rs
          have hpattern := endsOrSlash_renderSegments segments wildcard
          have hne : text ++ tail ≠ [] := by
            intro hnil
            rw [hnil, Segment.render, List.cons_append, captures_cons_nil] at h
            exact absurd h Bool.false_ne_true
          rw [Segment.render, List.cons_append, captures_param hs.2 hpattern hslash htail hne] at h ⊢
          rw [List.map_cons]
          by_cases hsame : renderSegments segments wildcard = [] ↔ tail = []
          · rw [captures_skipSlash hpattern htail hsame] at h ⊢
            refine .param name ?_ hslash (ih' h)
            rwa [ne_eq, List.append_eq_nil_iff, not_and_or] at hne
          · exact fits_param_of_oneSided name hslash htail hne hsame h

/-- A path as the pattern has it fits. -/
theorem Instance.fits {segments : List Segment} {wildcard : Bool} {texts : List Bytes}
    {path : Bytes} (h : Instance segments wildcard texts path) :
    Fits segments wildcard texts path := by
  induction h with
  | done => exact .done
  | wildcard hne => exact .wildcard hne
  | literal text hrest ih => exact .literal text ih
  | param name hne hslash hrest ih => exact .param name (.inl hne) hslash ih

theorem RoutePattern.render_eq_cons (p : RoutePattern) : ∃ rest, p.render = SLASH :: rest := by
  obtain ⟨segments, wildcard, hvalid, hne⟩ := p
  cases segments with
  | nil =>
      obtain rfl : wildcard = true := hne.resolve_left (not_not.mpr rfl)
      exact ⟨_, rfl⟩
  | cons s segments => exact ⟨_, rfl⟩

/-- The check for the first slashes refuses no path that the walk would
    match. -/
theorem routeCaptures_render (p : RoutePattern) (path : Bytes) :
    routeCaptures p.render path = captures p.render path := by
  obtain ⟨rest, hrender⟩ := p.render_eq_cons
  rw [routeCaptures, hrender]
  cases path with
  | nil => rw [captures_cons_nil, if_pos (.inr (by simp))]
  | cons r rs =>
      by_cases hr : SLASH = r
      · subst hr
        rw [if_neg (by simp)]
      · rw [captures_ne _ _ (by decide) (by decide) hr, if_pos]
        refine .inr fun h => hr ?_
        exact (Option.some.inj h).symm

/-- `mnet_route_match` matches the paths that fit the pattern, with the texts
    of their parameters as its captures. -/
theorem routeMatch_iff_fits (pattern : RoutePattern) (method : HttpMethod)
    (handler : MnetHandler) (path : Bytes) (values : List ParamSlot) (maxValues : Nat) :
    (∀ n, (mnetRouteMatch (registeredRoute method pattern.render handler) path values
        maxValues).count = some n ↔
      ∃ texts, Fits pattern.segments pattern.wildcard texts path ∧ texts.length = n) ∧
    ∀ texts, Fits pattern.segments pattern.wildcard texts path →
      (routeCaptures pattern.render path).1.map Capture.text = texts ∧
      (mnetRouteMatch (registeredRoute method pattern.render handler) path values
          maxValues).values =
        storeCaptures maxValues 0 values (routeCaptures pattern.render path).1 := by
  have hcount := mnetRouteMatch_count (registeredRoute method pattern.render handler) path values
    maxValues
  have heq := mnetRouteMatch_eq (registeredRoute method pattern.render handler) path values
    maxValues
  change _ = if (routeCaptures pattern.render path).2 = true then
    some (routeCaptures pattern.render path).1.length else none at hcount
  rw [show (registeredRoute method pattern.render handler).path = pattern.render from rfl] at heq
  rw [routeCaptures_render] at hcount heq ⊢
  have hfits : ∀ texts, Fits pattern.segments pattern.wildcard texts path →
      (captures pattern.render path).2 = true ∧
        (captures pattern.render path).1.map Capture.text = texts := by
    intro texts h
    obtain ⟨cs, hcs, htexts⟩ := h.captures pattern.valid
    rw [RoutePattern.render, hcs]
    exact ⟨rfl, htexts⟩
  refine ⟨fun n => ⟨fun h => ?_, ?_⟩, fun texts h => ⟨(hfits texts h).2, ?_⟩⟩
  · rw [hcount] at h
    split at h
    · next hok =>
      refine ⟨_, fits_of_captures pattern.valid hok, ?_⟩
      rw [List.length_map]
      exact Option.some.inj h
    · simp at h
  · rintro ⟨texts, h, rfl⟩
    obtain ⟨hok, htexts⟩ := hfits texts h
    rw [hcount, if_pos hok, ← htexts, List.length_map]
  · rw [heq, if_pos (hfits texts h).1]

/-- The pattern `/:id`. -/
def idPattern : RoutePattern where
  segments := [.param (ascii "id")]
  wildcard := false
  valid := by decide
  ne_nil := .inl (List.cons_ne_nil _ _)

/-- `/42/` is matched, though no text without a slash makes it of `/:id`. -/
theorem not_routeMatch_iff_instance :
    ¬ ∀ (pattern : RoutePattern) (method : HttpMethod) (handler : MnetHandler) (path : Bytes)
      (values : List ParamSlot) (maxValues n : Nat),
      (mnetRouteMatch (registeredRoute method pattern.render handler) path values
          maxValues).count = some n ↔
        ∃ texts, Instance pattern.segments pattern.wildcard texts path ∧ texts.length = n := by
  intro h
  have hcount : (mnetRouteMatch (registeredRoute .get idPattern.render fun _ _ => {})
      (ascii "/42/") [] 0).count = some 1 := by decide +kernel
  obtain ⟨texts, hinst, -⟩ := (h idPattern .get (fun _ _ => {}) (ascii "/42/") [] 0 1).mp hcount
  have hpath : ∀ path, Instance idPattern.segments idPattern.wildcard texts path →
      SLASH ∉ path.tail := by
    intro path h
    cases h with
    | param name hne hslash hrest =>
        cases hrest
        rwa [List.append_nil]
  exact hpath _ hinst (by decide)

end Mnet
