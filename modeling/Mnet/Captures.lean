/-
  Mnet.Captures

  What `mnet_route_match` captures, apart from the slots it stores it in.

  `captures` walks pattern and path as the loop of `mnet_route_match` does and
  lists the captures in order, each with the place in the pattern it was made
  at.  `routeMatchLoop_eq` says what the loop makes of them: the captures that
  have a slot are stored, all of them are counted, and on a mismatch as many
  slots as were counted are freed.
-/

import Mnet.Dispatch

namespace Mnet

-- ============================================================================
-- The walk
-- ============================================================================

/-- A captured text, and the pattern from the element on that captured it. -/
structure Capture where
  site : Bytes
  text : Bytes
deriving DecidableEq, Repr

/-- The text as it is stored: that of a wildcard as it is, others decoded. -/
def Capture.value (c : Capture) : Bytes :=
  if c.site.head? = some STAR then c.text else decodeSegment c.text []

/-- The captures made before the walk ends, and whether it ends with both
    pattern and path read. -/
def captures (pattern path : Bytes) : List Capture × Bool :=
  match pattern, path with
  | p :: ps, r :: rs =>
      if p = STAR then
        let rest := captures ps []
        (⟨p :: ps, r :: rs⟩ :: rest.1, rest.2)
      else if p = COLON then
        let rest := captures (skipSlash (ps.dropWhile (· ≠ SLASH)))
          (skipSlash ((r :: rs).dropWhile (· ≠ SLASH)))
        (⟨p :: ps, (r :: rs).takeWhile (· ≠ SLASH)⟩ :: rest.1, rest.2)
      else if p ≠ r then ([], false)
      else captures ps rs
  | [], [] => ([], true)
  | _, _ => ([], false)
termination_by pattern.length
decreasing_by
  · simp
  · have h1 := length_skipSlash_le (ps.dropWhile (· ≠ SLASH))
    have h2 := (List.dropWhile_suffix (· ≠ SLASH) (l := ps)).length_le
    simp only [List.length_cons]
    omega
  · simp

theorem captures_nil_nil : captures [] [] = ([], true) := by rw [captures]

theorem captures_nil_cons (r : Byte) (rs : Bytes) : captures [] (r :: rs) = ([], false) := by
  rw [captures]
  · simp
  · simp

theorem captures_cons_nil (p : Byte) (ps : Bytes) : captures (p :: ps) [] = ([], false) := by
  rw [captures]
  · simp
  · simp

theorem captures_star (ps : Bytes) {path : Bytes} (hne : path ≠ []) :
    captures (STAR :: ps) path =
      (⟨STAR :: ps, path⟩ :: (captures ps []).1, (captures ps []).2) := by
  obtain ⟨r, rs, rfl⟩ := List.exists_cons_of_ne_nil hne
  rw [captures, if_pos rfl]

theorem captures_colon (ps : Bytes) {path : Bytes} (hne : path ≠ []) :
    captures (COLON :: ps) path =
      (⟨COLON :: ps, path.takeWhile (· ≠ SLASH)⟩ ::
          (captures (skipSlash (ps.dropWhile (· ≠ SLASH)))
            (skipSlash (path.dropWhile (· ≠ SLASH)))).1,
        (captures (skipSlash (ps.dropWhile (· ≠ SLASH)))
          (skipSlash (path.dropWhile (· ≠ SLASH)))).2) := by
  obtain ⟨r, rs, rfl⟩ := List.exists_cons_of_ne_nil hne
  rw [captures, if_neg (by decide), if_pos rfl]

theorem captures_ne {p : Byte} (ps : Bytes) {r : Byte} (rs : Bytes) (hstar : p ≠ STAR)
    (hcolon : p ≠ COLON) (h : p ≠ r) : captures (p :: ps) (r :: rs) = ([], false) := by
  rw [captures, if_neg hstar, if_neg hcolon, if_pos h]

theorem captures_same {p : Byte} (ps rs : Bytes) (hstar : p ≠ STAR) (hcolon : p ≠ COLON) :
    captures (p :: ps) (p :: rs) = captures ps rs := by
  rw [captures, if_neg hstar, if_neg hcolon, if_neg (not_not.mpr rfl)]

/-- Behind the end of the path nothing is captured. -/
theorem captures_nil_path (pattern : Bytes) : (captures pattern []).1 = [] := by
  cases pattern with
  | nil => rw [captures_nil_nil]
  | cons p ps => rw [captures_cons_nil]

/-- The matcher takes the byte by itself. -/
def Plain (b : Byte) : Prop := b ≠ COLON ∧ b ≠ STAR

instance (b : Byte) : Decidable (Plain b) := inferInstanceAs (Decidable (_ ∧ _))

/-- Plain text is matched by itself, and by nothing else. -/
theorem captures_plain {text : Bytes} (h : ∀ b ∈ text, Plain b) (pattern path : Bytes) :
    captures (text ++ pattern) path =
      if text <+: path then captures pattern (path.drop text.length) else ([], false) := by
  induction text generalizing path with
  | nil => rw [if_pos List.nil_prefix]; rfl
  | cons b text ih =>
      have hb := h b (List.mem_cons_self ..)
      have htext := fun c hc => h c (List.mem_cons_of_mem b hc)
      cases path with
      | nil => rw [List.cons_append, captures_cons_nil, if_neg (by simp)]
      | cons r rs =>
          by_cases hbr : b = r
          · subst hbr
            rw [List.cons_append, captures_same _ _ hb.2 hb.1, ih htext]
            simp only [List.cons_prefix_cons, true_and, List.length_cons, List.drop_succ_cons]
          · rw [List.cons_append, captures_ne _ _ hb.2 hb.1 hbr,
              if_neg (fun hpre => hbr (List.cons_prefix_cons.mp hpre).1)]

theorem skipSlash_sublist (s : Bytes) : (skipSlash s).Sublist s := by
  cases s with
  | nil => exact List.Sublist.refl _
  | cons b s =>
      rw [skipSlash]
      split
      · exact List.sublist_cons_self _ _
      · exact List.Sublist.refl _

/-- A captured text is made of bytes of the path. -/
theorem captures_text_subset {pattern path : Bytes} {c : Capture}
    (hc : c ∈ (captures pattern path).1) : c.text ⊆ path := by
  fun_induction captures pattern path with
  | case1 ps r rs rest ih =>
      rcases List.mem_cons.mp hc with rfl | hc
      · exact List.Subset.refl _
      · rw [captures_nil_path] at hc
        exact absurd hc List.not_mem_nil
  | case2 ps r rs rest hstar ih =>
      rcases List.mem_cons.mp hc with rfl | hc
      · exact (List.takeWhile_sublist _).subset
      · exact List.Subset.trans (ih hc)
          ((skipSlash_sublist _).trans (List.dropWhile_sublist _)).subset
  | case3 => exact absurd hc List.not_mem_nil
  | case4 p ps r rs hstar hcolon heq ih =>
      exact List.Subset.trans (ih hc) (List.subset_cons_self _ _)
  | case5 => exact absurd hc List.not_mem_nil
  | case6 => exact absurd hc List.not_mem_nil

-- ============================================================================
-- The slots
-- ============================================================================

/-- Store the captures from slot `n` on, those that have a slot. -/
def storeCaptures (maxValues : Nat) : Nat → List ParamSlot → List Capture → List ParamSlot
  | _, values, [] => values
  | n, values, c :: cs =>
      storeCaptures maxValues (n + 1)
        (if n < maxValues then values.set n (.live c.value) else values) cs

/-- The loop of `mnet_route_match` stores what the walk captures and counts
    it. -/
theorem routeMatchLoop_eq (maxValues : Nat) (pattern path : Bytes) (n : Nat)
    (values : List ParamSlot) :
    routeMatchLoop maxValues pattern path n values =
      if (captures pattern path).2 then
        { count := some (n + (captures pattern path).1.length)
          values := storeCaptures maxValues n values (captures pattern path).1 }
      else
        routeMismatch (storeCaptures maxValues n values (captures pattern path).1)
          (n + (captures pattern path).1.length) := by
  fun_induction routeMatchLoop maxValues pattern path n values with
  | case1 n values ps r rs values' ih =>
      rw [captures_star ps (List.cons_ne_nil r rs), ih]
      simp only [storeCaptures, List.length_cons, Nat.add_assoc, Nat.add_comm 1]
      rfl
  | case2 n values ps r rs seg rest values' hstar ih =>
      rw [captures_colon ps (List.cons_ne_nil r rs), ih]
      simp only [storeCaptures, List.length_cons, Nat.add_assoc, Nat.add_comm 1]
      rfl
  | case3 n values p ps r rs hstar hcolon hne =>
      rw [captures_ne ps rs hstar hcolon hne]
      rfl
  | case4 n values p ps r rs hstar hcolon heq ih =>
      obtain rfl : p = r := not_not.mp heq
      rw [captures_same ps rs hstar hcolon, ih]
  | case5 => rw [captures_nil_nil]; rfl
  | case6 pattern path n values hcons hnil =>
      have hend : captures pattern path = ([], false) := by
        rw [captures]
        · exact fun p ps r rs hp hr => hcons p ps r rs hp hr
        · exact hnil
      rw [hend]
      rfl

/-- What `mnet_route_match` captures of a path, and whether it matches. -/
def routeCaptures (pattern path : Bytes) : List Capture × Bool :=
  if pattern.head? ≠ some SLASH ∨ path.head? ≠ some SLASH then ([], false)
  else captures pattern path

/-- `mnet_route_match` in terms of its captures. -/
theorem mnetRouteMatch_eq (route : MnetRoute) (path : Bytes) (values : List ParamSlot)
    (maxValues : Nat) :
    mnetRouteMatch route path values maxValues =
      if (routeCaptures route.path path).2 then
        { count := some (routeCaptures route.path path).1.length
          values := storeCaptures maxValues 0 values (routeCaptures route.path path).1 }
      else
        routeMismatch (storeCaptures maxValues 0 values (routeCaptures route.path path).1)
          (routeCaptures route.path path).1.length := by
  unfold mnetRouteMatch routeCaptures
  split
  · rfl
  · rw [routeMatchLoop_eq, Nat.zero_add]

theorem mnetRouteMatch_count (route : MnetRoute) (path : Bytes) (values : List ParamSlot)
    (maxValues : Nat) :
    (mnetRouteMatch route path values maxValues).count =
      if (routeCaptures route.path path).2 then some (routeCaptures route.path path).1.length
      else none := by
  rw [mnetRouteMatch_eq]
  split
  · rfl
  · rfl

/-- On a mismatch all captures are freed, whether they have a slot or not. -/
theorem mnetRouteMatch_freed (route : MnetRoute) (path : Bytes) (values : List ParamSlot)
    (maxValues : Nat) :
    (mnetRouteMatch route path values maxValues).freed =
      if (routeCaptures route.path path).2 then 0
      else (routeCaptures route.path path).1.length := by
  rw [mnetRouteMatch_eq]
  split
  · rfl
  · rfl

theorem length_storeCaptures (maxValues n : Nat) (values : List ParamSlot) (cs : List Capture) :
    (storeCaptures maxValues n values cs).length = values.length := by
  induction cs generalizing n values with
  | nil => rfl
  | cons c cs ih =>
      rw [storeCaptures, ih]
      split
      · exact List.length_set
      · rfl

/-- Storing leaves the slots before `n` and those past the last as they are. -/
theorem storeCaptures_frame {maxValues n i : Nat} (values : List ParamSlot) (cs : List Capture)
    (hi : i < n ∨ maxValues ≤ i) : (storeCaptures maxValues n values cs)[i]? = values[i]? := by
  induction cs generalizing n values with
  | nil => rfl
  | cons c cs ih =>
      rw [storeCaptures, ih _ (by omega)]
      split
      · rw [List.getElem?_set_ne (by omega)]
      · rfl

/-- Each capture that has a slot is found in it. -/
theorem storeCaptures_getElem? {maxValues n k : Nat} {values : List ParamSlot}
    {cs : List Capture} {c : Capture} (hc : cs[k]? = some c) (hmax : n + k < maxValues)
    (hlen : n + k < values.length) :
    (storeCaptures maxValues n values cs)[n + k]? = some (.live c.value) := by
  induction cs generalizing n k values with
  | nil => simp at hc
  | cons d cs ih =>
      rw [storeCaptures]
      cases k with
      | zero =>
          obtain rfl : d = c := by simpa using hc
          show (storeCaptures maxValues (n + 1) _ cs)[n]? = _
          rw [storeCaptures_frame _ _ (.inl (Nat.lt_succ_self n)), if_pos (by omega),
            List.getElem?_set_self (by omega)]
      | succ k =>
          rw [List.getElem?_cons_succ] at hc
          have hset : (if n < maxValues then values.set n (.live d.value) else values).length =
              values.length := by
            split
            · exact List.length_set
            · rfl
          have h := ih (n := n + 1) hc (by omega) (by rw [hset]; omega)
          rwa [Nat.add_right_comm, Nat.add_assoc] at h

end Mnet
