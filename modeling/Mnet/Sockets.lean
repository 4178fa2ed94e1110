/-
  Mnet.Sockets

  The loops over the addresses of `getaddrinfo`: `mnet_tcp_listen` of `mnet.c`
  and `mnet_socket_connect` of `mnet_client.c`.

  Sockets and address lists are the blocks of two heaps, so that opening and
  closing them is counted as `malloc` and `free` are.  A socket's block holds the
  address it was opened for.  Both functions settle for the first address that
  lets them through, and close every other socket (`settled_overAddresses`).
-/

import Mnet.Internal
import Mnet.Lib.Ownership

namespace Mnet

open Heap (Owns)

/-- Open sockets, and the lists `getaddrinfo` has given out. -/
structure SocketTable (α : Type) where
  sockets : Heap α
  lists : Heap Unit

/-- The loop over the addresses: `opens` says whether `socket` succeeds for one,
    `passes` whether the calls on the socket do. -/
def tryAddresses {α : Type} (opens passes : α → Bool) (sockets : Heap α) :
    List α → Option Nat × Heap α
  | [] => (none, sockets)
  | a :: as =>
      if !opens a then tryAddresses opens passes sockets as
      else if passes a then (some sockets.next, sockets.alloc a)
      else tryAddresses opens passes ((sockets.alloc a).release sockets.next) as

/-- From `getaddrinfo` to `freeaddrinfo`; none for its error. -/
def overAddresses {α : Type} (opens passes : α → Bool) (t : SocketTable α)
    (addresses : Option (List α)) : Option Nat × SocketTable α :=
  match addresses with
  | none => (none, t)
  | some as =>
      let list := t.lists.next
      let lists := t.lists.alloc ()
      let (sock, sockets) := tryAddresses opens passes t.sockets as
      (sock, { sockets := sockets, lists := lists.release list })

/-- An address of `mnet_tcp_listen`: whether each call succeeds on it. -/
structure ListenAddress where
  socket : Bool
  reuseAddr : Bool
  bind : Bool
  listen : Bool
deriving DecidableEq

/-- `mnet_tcp_listen` where `getaddrinfo` gives these addresses for the port. -/
def mnetTcpListen (backlog : Int) (addresses : Option (List ListenAddress))
    (t : SocketTable ListenAddress) : Option Nat × SocketTable ListenAddress :=
  if backlog ≤ 0 then (none, t)
  else
    overAddresses ListenAddress.socket (fun a => a.reuseAddr && a.bind && a.listen) t addresses

/-- An address of `mnet_socket_connect`. -/
structure ConnectAddress where
  socket : Bool
  connect : Bool
deriving DecidableEq

/-- `mnet_socket_connect`. -/
def mnetSocketConnect (getaddrinfo : Bytes → Nat → Option (List ConnectAddress))
    (host : Option Bytes) (port : Nat) (t : SocketTable ConnectAddress) :
    Option Nat × SocketTable ConnectAddress :=
  match host with
  | none => (none, t)
  | some host =>
      overAddresses ConnectAddress.socket ConnectAddress.connect t (getaddrinfo host port)

-- ============================================================================
-- What is left open
-- ============================================================================

/-- One socket is open more than before, that of the first address that lets the
    loop through, or none if there is no such address; every other was closed
    once, and so was the list. -/
structure SocketsSettled {α : Type} (lets : α → Bool) (addresses : Option (List α))
    (t t' : SocketTable α) (result : Option Nat) : Prop where
  sockets : Owns t.sockets t'.sockets result.toList
  lists : Owns t.lists t'.lists []
  first : result.bind t'.sockets.blocks = (addresses.getD []).find? lets

theorem tryAddresses_spec {α : Type} (opens passes : α → Bool) {h₀ h : Heap α} (as : List α)
    (ho : Owns h₀ h []) :
    Owns h₀ (tryAddresses opens passes h as).2 (tryAddresses opens passes h as).1.toList ∧
      (tryAddresses opens passes h as).1.bind (tryAddresses opens passes h as).2.blocks =
        as.find? fun a => opens a && passes a := by
  induction as generalizing h with
  | nil => exact ⟨ho, rfl⟩
  | cons a as ih =>
      rw [tryAddresses, List.find?_cons]
      cases hopens : opens a with
      | false => exact ih ho
      | true =>
          cases hpasses : passes a with
          | false => exact ih (ho.alloc a).release
          | true => exact ⟨ho.alloc a, h.alloc_next a⟩

theorem settled_overAddresses {α : Type} (opens passes : α → Bool) (t : SocketTable α)
    (addresses : Option (List α)) :
    SocketsSettled (fun a => opens a && passes a) addresses t
      (overAddresses opens passes t addresses).2
      (overAddresses opens passes t addresses).1 := by
  cases addresses with
  | none => exact ⟨Owns.refl _, Owns.refl _, rfl⟩
  | some as =>
      obtain ⟨howns, hfirst⟩ := tryAddresses_spec opens passes as (Owns.refl t.sockets)
      exact ⟨howns, ((Owns.refl t.lists).alloc ()).release, hfirst⟩

/-- The calls on a listening socket all succeed. -/
def ListenAddress.lets (a : ListenAddress) : Bool :=
  a.socket && (a.reuseAddr && a.bind && a.listen)

def ConnectAddress.lets (a : ConnectAddress) : Bool := a.socket && a.connect

/-- Whatever fails on which address, `mnet_tcp_listen` leaves one socket open
    at most, that of the first address on which nothing fails. -/
theorem settled_mnetTcpListen (backlog : Int) (addresses : Option (List ListenAddress))
    (t : SocketTable ListenAddress) :
    SocketsSettled ListenAddress.lets (if backlog ≤ 0 then none else addresses) t
      (mnetTcpListen backlog addresses t).2 (mnetTcpListen backlog addresses t).1 := by
  rw [mnetTcpListen]
  by_cases hbacklog : backlog ≤ 0
  · rw [if_pos hbacklog, if_pos hbacklog]
    exact ⟨Owns.refl _, Owns.refl _, rfl⟩
  · rw [if_neg hbacklog, if_neg hbacklog]
    exact settled_overAddresses _ _ t addresses

theorem settled_mnetSocketConnect (getaddrinfo : Bytes → Nat → Option (List ConnectAddress))
    (host : Bytes) (port : Nat) (t : SocketTable ConnectAddress) :
    SocketsSettled ConnectAddress.lets (getaddrinfo host port) t
      (mnetSocketConnect getaddrinfo (some host) port t).2
      (mnetSocketConnect getaddrinfo (some host) port t).1 :=
  settled_overAddresses _ _ t _

end Mnet
