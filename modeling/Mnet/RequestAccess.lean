/-
  Mnet.RequestAccess

  `mnet_request.c`: what a handler reads of its request through the accessors.

  They go over the flat name and value arrays of the request and return the
  first entry whose name compares equal, or NULL.  A request without an array
  has no entries.
-/

import Mnet.Internal

namespace Mnet

/-- The loop the accessors share. -/
def lookupName (nameEq : Bytes → Bytes → Bool) (name : Bytes) :
    List (Bytes × Bytes) → Option Bytes
  | [] => none
  | entry :: entries =>
      if nameEq entry.1 name then some entry.2 else lookupName nameEq name entries

def mnetRequestBody (request : MnetRequest) : Option Bytes := request.body

def mnetRequestBodyLength (request : MnetRequest) : Nat := request.bodyLength

def mnetRequestQuery (request : MnetRequest) (name : Bytes) : Option Bytes :=
  lookupName (· == ·) name request.query

def mnetRequestHeader (request : MnetRequest) (name : Bytes) : Option Bytes :=
  lookupName strcaseeq name request.headers

def mnetRequestCookie (request : MnetRequest) (name : Bytes) : Option Bytes :=
  lookupName (· == ·) name request.cookies

/-- The value found is that of the first entry of the name. -/
theorem lookupName_eq_find? (nameEq : Bytes → Bytes → Bool) (name : Bytes)
    (entries : List (Bytes × Bytes)) :
    lookupName nameEq name entries =
      (entries.find? fun entry => nameEq entry.1 name).map Prod.snd := by
  induction entries with
  | nil => rfl
  | cons entry entries ih =>
      rw [lookupName, List.find?_cons]
      split
      · next heq => rw [heq]; rfl
      · next hne =>
        rw [Bool.not_eq_true] at hne
        rw [hne]
        exact ih

end Mnet
