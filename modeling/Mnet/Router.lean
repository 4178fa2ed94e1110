/-
  Mnet.Router

  `mnet_router.c`: matching a request path against a route pattern.

  The cursors `ppos` and `rpos` are the suffixes of pattern and path that are
  still to be read.
-/

import Mnet.Response

namespace Mnet

abbrev SLASH : Byte := 47
abbrev STAR : Byte := 42
abbrev COLON : Byte := 58

/-- The decoding of a captured segment: two hex digits behind a `%` are a byte,
    anything else stands for itself, and the 4096-byte buffer clips. -/
def decodeSegment : Bytes → Bytes → Bytes
  | [], decoded => decoded
  | 37 :: hi :: lo :: seg, decoded =>
      if decoded.length < 4095 then
        match hexValue hi, hexValue lo with
        | some h, some l => decodeSegment seg (decoded ++ [UInt8.ofNat (h * 16 + l)])
        | _, _ => decodeSegment (hi :: lo :: seg) (decoded ++ [37])
      else decoded
  | c :: seg, decoded =>
      if decoded.length < 4095 then decodeSegment seg (decoded ++ [c]) else decoded

/-- `mnet_match_params_free(values, count)`. -/
def mnetMatchParamsFree (values : List ParamSlot) (count : Nat) : List ParamSlot :=
  (values.take count).map (fun slot => match slot with
    | .null => .null
    | _ => .freed) ++ values.drop count

/-- The outcome of `mnet_route_match`: the returned count, none for `-1`, the
    value array, and how many of its entries were passed to `free`. -/
structure RouteMatch where
  count : Option Nat
  values : List ParamSlot
  freed : Nat := 0
deriving DecidableEq, Repr

/-- A mismatch: release what this attempt has captured. -/
def routeMismatch (values : List ParamSlot) (n : Nat) : RouteMatch :=
  { count := none, values := mnetMatchParamsFree values n, freed := n }

def skipSlash : Bytes → Bytes
  | b :: s => if b = SLASH then s else b :: s
  | [] => []

theorem length_skipSlash_le (s : Bytes) : (skipSlash s).length ≤ s.length := by
  cases s with
  | nil => exact Nat.le_refl _
  | cons b s =>
      simp only [skipSlash]
      split
      · exact Nat.le_succ _
      · exact Nat.le_refl _

/-- The loop of `mnet_route_match`. -/
def routeMatchLoop (maxValues : Nat) (pattern path : Bytes) (n : Nat)
    (values : List ParamSlot) : RouteMatch :=
  match pattern, path with
  | p :: ps, r :: rs =>
      if p = STAR then
        -- the wildcard takes everything that remains, undecoded
        let values := if n < maxValues then values.set n (.live (r :: rs)) else values
        routeMatchLoop maxValues ps [] (n + 1) values
      else if p = COLON then
        let seg := (r :: rs).takeWhile (· ≠ SLASH)
        let rest := (r :: rs).dropWhile (· ≠ SLASH)
        let values := if n < maxValues then values.set n (.live (decodeSegment seg [])) else values
        routeMatchLoop maxValues (skipSlash (ps.dropWhile (· ≠ SLASH))) (skipSlash rest)
          (n + 1) values
      else if p ≠ r then routeMismatch values n
      else routeMatchLoop maxValues ps rs n values
  | [], [] => { count := some n, values := values }
  | _, _ => routeMismatch values n
termination_by pattern.length
decreasing_by
  · simp
  · have h1 := length_skipSlash_le (ps.dropWhile (· ≠ SLASH))
    have h2 := (List.dropWhile_suffix (· ≠ SLASH) (l := ps)).length_le
    simp only [List.length_cons]
    omega
  · simp

def mnetRouteMatch (route : MnetRoute) (requestPath : Bytes) (values : List ParamSlot)
    (maxValues : Nat) : RouteMatch :=
  if route.path.head? ≠ some SLASH ∨ requestPath.head? ≠ some SLASH then
    { count := none, values := values }
  else routeMatchLoop maxValues route.path requestPath 0 values

end Mnet
