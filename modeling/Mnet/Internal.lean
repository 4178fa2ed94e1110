/-
  Mnet.Internal

  The shared data of `mnet_internal.h`, `mnet_request.h`, `mnet_response.h`
  and `mnet_router.h`: limits, methods, parsed requests, the request a handler
  sees, responses, routes and the application.

  Parallel name/value arrays with a count are lists of pairs.  A handler is a
  function of the request and of the `World` it runs in, which stands for all
  it may read besides the request: its own state, the clock, files.
-/

import Mathlib.Algebra.Group.Int.Defs
import Mathlib.Algebra.Group.Nat.Defs
import Mnet.Libc

namespace Mnet

-- ============================================================================
-- Limits
-- ============================================================================

def MNET_REQUEST_BUFFER_SIZE : Nat := 8192
def MNET_MAX_HEADERS : Nat := 100
def MNET_MAX_HEADER_LINE : Nat := 4096
def MNET_MAX_QUERY_NAME : Nat := 1024
def MNET_MAX_QUERY_VALUE : Nat := 1024
def MNET_MAX_BODY_SIZE : Nat := 16 * 1024 * 1024
def MNET_MAX_PARAMS : Nat := 16
def MNET_MAX_QUERY : Nat := 16

/-- `INT_MAX`. -/
def INT_MAX : Nat := 2 ^ 31 - 1

/-- `SIZE_MAX + 1`, for a `size_t` of 64 bits. -/
def SIZE_T : Nat := 2 ^ 64

-- ============================================================================
-- Growing blocks
-- ============================================================================

/-- Double the capacity until it is enough. -/
def growCap (ncap need : Nat) : Nat :=
  if 0 < ncap ∧ ncap < need then growCap (ncap * 2) need else ncap
termination_by need - ncap
decreasing_by omega

theorem le_growCap {ncap : Nat} (h : 0 < ncap) (need : Nat) : need ≤ growCap ncap need := by
  fun_induction growCap ncap need with
  | case1 ncap hlt ih => exact ih (by omega)
  | case2 ncap hge => omega

-- ============================================================================
-- Requests
-- ============================================================================

/-- `mnet_http_method_t`. -/
inductive HttpMethod where
  | get | post | put | patch | delete | head | options
deriving DecidableEq, Repr

/-- Parse outcomes (`MNET_PARSE_*`). -/
inductive ParseCode where
  | ok
  | badRequest
  | tooLarge
  | headersTooLarge
  | unsupportedMethod
  | badContentLength
  | duplicateContentLength
  | unsupportedTransferEncoding
deriving DecidableEq, Repr

/-- A slot of the array of path parameter values: `NULL`, an allocation that
    holds a value, or a pointer to an allocation that was freed. -/
inductive ParamSlot where
  | null
  | live (value : Bytes)
  | freed
deriving DecidableEq, Repr

/-- `request_extras_t`. -/
structure RequestExtras where
  paramNames : List Bytes := []
  paramValues : List ParamSlot := []
  paramCount : Nat := 0
  query : List (Bytes × Bytes) := []
  headers : List (Bytes × Bytes) := []
  cookies : List (Bytes × Bytes) := []
deriving DecidableEq, Repr

/-- Where `parsed_request_t.body` points: into the connection's buffer, or at
    a fresh block whose first byte stands `offset` bytes behind the start of
    the buffer in the request's byte stream. -/
inductive BodyPtr where
  | null
  | inBuffer (offset : Nat)
  | heap (offset : Nat) (block : Bytes)
deriving DecidableEq, Repr

/-- The memory from the pointer on, given the buffer it may point into.  The
    byte behind the end of the list is NUL. -/
def BodyPtr.mem (buffer : Bytes) : BodyPtr → Bytes
  | .null => []
  | .inBuffer offset => buffer.drop offset
  | .heap _ block => block

/-- Offset of the first body byte in the request's byte stream. -/
def BodyPtr.offset : BodyPtr → Option Nat
  | .null => none
  | .inBuffer offset => some offset
  | .heap offset _ => some offset

/-- `parsed_request_t`; the initial value is what `parse_request` sets up
    before it reads anything. -/
structure ParsedRequest where
  method : Bytes := []
  path : Bytes := []
  pathOnly : Bytes := []
  queryString : Option Bytes := none
  body : BodyPtr := .null
  bodyLength : Nat := 0
  bodyHeap : Bool := false
  methodEnum : Option HttpMethod := none
  extras : RequestExtras := {}
  keepAlive : Bool := false
deriving DecidableEq, Repr

/-- The `bodyLength` bytes at the body pointer. -/
def ParsedRequest.bodyBytes (r : ParsedRequest) (buffer : Bytes) : Bytes :=
  (r.body.mem buffer).take r.bodyLength

/-- `mnet_request_t`: what a handler is given.  `body` is the memory the body
    pointer leads to. -/
structure MnetRequest where
  method : Bytes
  path : Bytes
  queryString : Option Bytes := none
  body : Option Bytes := none
  bodyLength : Nat := 0
  pathParamNames : List Bytes := []
  pathParamValues : List ParamSlot := []
  pathParamCount : Nat := 0
  query : List (Bytes × Bytes) := []
  headers : List (Bytes × Bytes) := []
  cookies : List (Bytes × Bytes) := []
  extras : RequestExtras := {}
deriving DecidableEq, Repr

-- ============================================================================
-- Responses
-- ============================================================================

/-- `mnet_response_t`; `{}` is the zero response. -/
structure MnetResponse where
  status : Int := 0
  contentType : Option Bytes := none
  body : Option Bytes := none
  bodyLength : Nat := 0
  chunked : Bool := false
deriving DecidableEq, Repr

-- ============================================================================
-- The application
-- ============================================================================

/-- What a handler may read besides its request. -/
structure World where
  tick : Nat := 0
  timeStr : Bytes := []
  commitHash : Bytes := []
deriving DecidableEq, Repr

abbrev MnetHandler := World → MnetRequest → MnetResponse

abbrev MnetMiddleware := World → MnetRequest → (MnetRequest → MnetResponse) → MnetResponse

/-- `mnet_route_t`: `path` is the pattern, `paramNames` the names found in it. -/
structure MnetRoute where
  method : HttpMethod
  path : Bytes
  handler : MnetHandler
  paramNames : List Bytes := []

/-- `struct mnet_app`, as it stands while the server runs. -/
structure MnetApp where
  routes : List MnetRoute := []
  debug : Bool := false
  dev : Bool := false
  https : Bool := false
  port : Nat := 0
  notFoundHandler : Option MnetHandler := none
  middleware : Option MnetMiddleware := none
  timeoutSeconds : Int := 30
  maxConnections : Int := 0
  keepAliveTimeout : Int := 5
  maxBodySize : Nat := 0
  workers : Int := 4

/-- The body limit in force: 0 stands for the default. -/
def MnetApp.bodyLimit (app : MnetApp) : Nat :=
  if app.maxBodySize > 0 then app.maxBodySize else MNET_MAX_BODY_SIZE

end Mnet
