/-
  Mnet.Registration

  `mnet_route` and `mnet_static` on the heap: the table of routes, the array of
  parameter names of each, and what is left of a call some allocation fails in.

  A route is written to the slot behind the last one and counts from the end of
  the call on.  So a call that fails can leave that slot as it is; it has to
  release what it allocated, save the table.
-/

import Mnet.Lib.Heap
import Mnet.StaticRoute

namespace Mnet

open Heap (Answer malloc realloc PTRDIFF_MAX)

-- ============================================================================
-- The table on the heap
-- ============================================================================

/-- `path` of a route: the caller's string, or a copy of `mnet_static`. -/
inductive PathRef where
  | caller (text : Bytes)
  | copy (p : Nat)

/-- `handler` of a route. -/
inductive HandlerRef where
  | user (handler : MnetHandler)
  | staticHandler

/-- `mnet_route_t`. -/
structure RouteEntry where
  method : HttpMethod
  path : PathRef
  handler : HandlerRef
  paramNames : Option Nat := none
  userData : Option Nat := none
  pathAllocated : Bool := false

/-- A `char *` in an array. -/
inductive NameCell where
  | unset
  | null
  | name (p : Nat)
deriving DecidableEq, Repr

/-- What the blocks of an application hold.  A slot of the table may not have
    been written yet. -/
inductive Block where
  | table (slots : List (Option RouteEntry))
  | names (cells : List NameCell)
  | text (s : Bytes)
  | config (urlPrefix fsPath : Option Nat)

/-- `sizeof(mnet_route_t)`. -/
def ROUTE_SIZE : Nat := 48

/-- `sizeof(static_config_t)`. -/
def CONFIG_SIZE : Nat := 24

/-- `sizeof(const char *)`. -/
def POINTER_SIZE : Nat := 8

/-- A `size_t` product. -/
def sizeMul (a b : Nat) : Nat := a * b % 2 ^ 64

/-- The routes of an application, with the memory they are in. -/
structure Registry where
  routes : Option Nat := none
  routeCount : Nat := 0
  routeCapacity : Nat := 0
  heap : Heap Block := Heap.empty

namespace Registry

/-- The slots of the table. -/
def slots (s : Registry) : List (Option RouteEntry) :=
  match s.routes with
  | none => []
  | some t =>
      match s.heap.blocks t with
      | some (.table slots) => slots
      | _ => []

/-- `app->routes[i]`, where it has been written. -/
def entry (s : Registry) (i : Nat) : Option RouteEntry := s.slots[i]?.join

def writeSlot (i : Nat) (r : RouteEntry) : Block → Block
  | .table slots => .table (slots.set i (some r))
  | b => b

/-- `*r = ...`, where `r` is `&app->routes[app->route_count]`. -/
def write (s : Registry) (r : RouteEntry) : Registry :=
  match s.routes with
  | none => s
  | some t => { s with heap := s.heap.modify t (writeSlot s.routeCount r) }

/-- What a table of `size` bytes has of the slots of the one before. -/
def resizeSlots (slots : List (Option RouteEntry)) (size : Nat) : List (Option RouteEntry) :=
  slots.take (size / ROUTE_SIZE) ++ List.replicate (size / ROUTE_SIZE - slots.length) none

/-- Room for one more route, unless there is no memory for it. -/
def grow (answers : Nat → Answer) (s : Registry) : Bool × Registry :=
  if s.routeCount = s.routeCapacity then
    let nc := if s.routeCapacity = 0 then 8 else sizeMul s.routeCapacity 2
    let size := sizeMul nc ROUTE_SIZE
    match realloc answers s.heap s.routes size (.table (resizeSlots s.slots size)) with
    | (none, heap) => (false, { s with heap := heap })
    | (some t, heap) => (true, { s with routes := some t, routeCapacity := nc, heap := heap })
  else (true, s)

end Registry

-- ============================================================================
-- mnet_route
-- ============================================================================

inductive RouteError where
  | EINVAL
  | ENOMEM
deriving DecidableEq, Repr

/-- The cells of an array of names. -/
def nameCells (heap : Heap Block) : Option Nat → List NameCell
  | none => []
  | some q =>
      match heap.blocks q with
      | some (.names cells) => cells
      | _ => []

/-- What an array of `size` bytes has of the cells of the one before. -/
def resizeCells (cells : List NameCell) (size : Nat) : List NameCell :=
  cells.take (size / POINTER_SIZE) ++
    List.replicate (size / POINTER_SIZE - cells.length) .unset

def setCell (i : Nat) (c : NameCell) : Block → Block
  | .names cells => .names (cells.set i c)
  | b => b

/-- One parameter: its name, the array with room for it, and the NULL behind
    it. -/
def addName (answers : Nat → Answer) (s : Registry) (r : RouteEntry) (paramCount size : Nat)
    (name : Bytes) : Bool × Registry × RouteEntry :=
  match malloc answers s.heap size (.text name) with
  | (none, heap) => (false, { s with heap := heap }, r)
  | (some p, heap) =>
      let arraySize := sizeMul (paramCount + 2) POINTER_SIZE
      let cells := resizeCells (nameCells heap r.paramNames) arraySize
      match realloc answers heap r.paramNames arraySize (.names cells) with
      | (none, heap) => (false, { s with heap := heap.release p }, r)
      | (some tmp, heap) =>
          let r := { r with paramNames := some tmp }
          let heap := heap.modify tmp (setCell paramCount (.name p))
          let heap := heap.modify tmp (setCell (paramCount + 1) .null)
          (true, Registry.write { s with heap := heap } r, r)

/-- The loop of `mnet_add_route`: whether it comes to the end of the pattern,
    `param_count`, and `*r`. -/
def addNames (answers : Nat → Answer) (s : Registry) (r : RouteEntry) :
    Bytes → Nat → Bool × Nat × Registry × RouteEntry
  | [], paramCount => (true, paramCount, s, r)
  | c :: p, paramCount =>
      if c = COLON then
        let name := p.takeWhile isNameByte
        let size := if name = [] then 16 else name.length + 1
        match addName answers s r paramCount size (paramName paramCount name) with
        | (false, s, r) => (false, paramCount, s, r)
        | (true, s, r) => addNames answers s r (p.dropWhile isNameByte) (paramCount + 1)
      -- nothing after the wildcard is matched, so scanning stops
      else if c = STAR then
        match addName answers s r paramCount 2 [STAR] with
        | (false, s, r) => (false, paramCount, s, r)
        | (true, s, r) => (true, paramCount + 1, s, r)
      else addNames answers s r p paramCount
termination_by p => p.length
decreasing_by
  · have h := (List.dropWhile_suffix isNameByte (l := p)).length_le
    simp only [List.length_cons]
    omega
  · simp

/-- `free` of every name in the cells. -/
def freeNames (heap : Heap Block) : List NameCell → Heap Block
  | .name p :: cells => freeNames (heap.release p) cells
  | _ :: cells => freeNames heap cells
  | [] => heap

/-- The label `fail`. -/
def undoNames (s : Registry) (r : RouteEntry) (paramCount : Nat) : Registry :=
  match r.paramNames with
  | none => s
  | some q =>
      let heap := freeNames s.heap ((nameCells s.heap (some q)).take paramCount)
      Registry.write { s with heap := heap.release q } { r with paramNames := none }

/-- `mnet_add_route`, which `mnet_route` calls. -/
def mnetAddRouteAt (answers : Nat → Answer) (s : Registry) (method : HttpMethod)
    (path : Option Bytes) (handler : Option MnetHandler) : Except RouteError Unit × Registry :=
  match path, handler with
  | some path, some handler =>
      match s.grow answers with
      | (false, s) => (.error .ENOMEM, s)
      | (true, s) =>
          let r : RouteEntry := { method := method, path := .caller path, handler := .user handler }
          match addNames answers (s.write r) r path 0 with
          | (true, _, s, _) => (.ok (), { s with routeCount := s.routeCount + 1 })
          | (false, paramCount, s, r) => (.error .ENOMEM, undoNames s r paramCount)
  | _, _ => (.error .EINVAL, s)

-- ============================================================================
-- mnet_static
-- ============================================================================

/-- `strdup`. -/
def strdup (answers : Nat → Answer) (heap : Heap Block) (s : Bytes) : Option Nat × Heap Block :=
  malloc answers heap (s.length + 1) (.text s)

/-- `mnet_static`, with whether it has registered the route, which it does not
    tell the caller. -/
def mnetStaticAt (answers : Nat → Answer) (s : Registry) (urlPrefix fsPath : Option Bytes) :
    Bool × Registry :=
  match urlPrefix, fsPath with
  | some urlPrefix, some fsPath =>
      match s.grow answers with
      | (false, s) => (false, s)
      | (true, s) =>
          match malloc answers s.heap CONFIG_SIZE (.config none none) with
          | (none, heap) => (false, { s with heap := heap })
          | (some cfg, heap) =>
              let (prefixCopy, heap) := strdup answers heap urlPrefix
              let (fsCopy, heap) := strdup answers heap fsPath
              let heap := heap.modify cfg fun _ => .config prefixCopy fsCopy
              if prefixCopy = none ∨ fsCopy = none then
                (false, { s with heap := ((heap.free prefixCopy).free fsCopy).release cfg })
              else
                match strdup answers heap (staticPattern urlPrefix) with
                | (none, heap) =>
                    (false, { s with heap := ((heap.free prefixCopy).free fsCopy).release cfg })
                | (some pathCopy, heap) =>
                    let s := Registry.write { s with heap := heap }
                      { method := .get, path := .copy pathCopy, handler := .staticHandler,
                        userData := some cfg, pathAllocated := true }
                    (true, { s with routeCount := s.routeCount + 1 })
  | _, _ => (false, s)

-- ============================================================================
-- Reading the table
-- ============================================================================

def readText (heap : Heap Block) (p : Nat) : Option Bytes :=
  match heap.blocks p with
  | some (.text s) => some s
  | _ => none

/-- The names in an array, up to its NULL. -/
def readCells (heap : Heap Block) : List NameCell → Option (List Bytes)
  | .null :: _ => some []
  | .name p :: cells =>
      match readText heap p, readCells heap cells with
      | some name, some names => some (name :: names)
      | _, _ => none
  | _ => none

/-- `param_names`: NULL, or an array with NULL behind the names. -/
def readNames (heap : Heap Block) : Option Nat → Option (List Bytes)
  | none => some []
  | some q =>
      match heap.blocks q with
      | some (.names cells) => readCells heap cells
      | _ => none

def readPath (heap : Heap Block) : PathRef → Option Bytes
  | .caller text => some text
  | .copy p => readText heap p

/-- The configuration of a static route. -/
def readConfig (heap : Heap Block) (userData : Option Nat) : Option StaticConfig :=
  match userData.bind heap.blocks with
  | some (.config (some u) (some f)) =>
      match readText heap u, readText heap f with
      | some urlPrefix, some fsPath => some ⟨urlPrefix, fsPath⟩
      | _, _ => none
  | _ => none

/-- The handler and its `user_data`. -/
def readHandler (fs : FileSystem) (heap : Heap Block) (r : RouteEntry) : Option MnetHandler :=
  match r.handler with
  | .user handler => some handler
  | .staticHandler =>
      (readConfig heap r.userData).map fun cfg _ req => (staticHandler fs (some cfg) req).response

/-- A route as requests find it, where everything it points at can be read. -/
def readRoute (fs : FileSystem) (heap : Heap Block) (r : RouteEntry) : Option MnetRoute :=
  match readPath heap r.path, readHandler fs heap r, readNames heap r.paramNames with
  | some path, some handler, some names =>
      some { method := r.method, path := path, handler := handler, paramNames := names }
  | _, _, _ => none

/-- The first `route_count` entries of the table. -/
def Registry.read (fs : FileSystem) (s : Registry) : Option (List MnetRoute) :=
  (List.range s.routeCount).mapM fun i => (s.entry i).bind (readRoute fs s.heap)

-- ============================================================================
-- Sequences of calls
-- ============================================================================

/-- A call, with NULL among its arguments where there is none. -/
inductive RouteCall where
  | route (method : HttpMethod) (path : Option Bytes) (handler : Option MnetHandler)
  | static (urlPrefix fsPath : Option Bytes)

/-- The call, and whether it has registered a route. -/
def RouteCall.perform (answers : Nat → Answer) (s : Registry) : RouteCall → Bool × Registry
  | .route method path handler =>
      match mnetAddRouteAt answers s method path handler with
      | (.ok _, s) => (true, s)
      | (.error _, s) => (false, s)
  | .static urlPrefix fsPath => mnetStaticAt answers s urlPrefix fsPath

/-- The call where nothing fails. -/
def RouteCall.register (fs : FileSystem) (app : MnetApp) : RouteCall → MnetApp
  | .route method (some path) (some handler) => mnetAddRoute app method path handler
  | .static (some urlPrefix) (some fsPath) => mnetStatic fs app urlPrefix fsPath
  | _ => app

/-- The calls in order, beside an application that takes part in those only that
    have registered a route. -/
def registerAll (answers : Nat → Answer) (fs : FileSystem) :
    List RouteCall → Registry × MnetApp → Registry × MnetApp
  | [], st => st
  | call :: calls, (s, app) =>
      match call.perform answers s with
      | (true, s) => registerAll answers fs calls (s, call.register fs app)
      | (false, s) => registerAll answers fs calls (s, app)

/-- The table has room for what it counts, and the routes in order. -/
structure HoldsRoutes (fs : FileSystem) (s : Registry) (app : MnetApp) : Prop where
  count_le : s.routeCount ≤ s.routeCapacity
  routes : s.read fs = some app.routes

/-- The entries before the call are there behind it. -/
def KeepsEntries (s s' : Registry) : Prop := ∀ i < s.routeCount, s'.entry i = s.entry i

/-- A call that has registered nothing: of the blocks it has allocated there is
    none left but the table, and each of them was released once. -/
structure Undone (s s' : Registry) : Prop where
  count : s'.routeCount = s.routeCount
  released : ∀ p, s.heap.next ≤ p → p < s'.heap.next → s'.routes ≠ some p →
    s'.heap.blocks p = none ∧ s'.heap.releases p = 1

end Mnet
