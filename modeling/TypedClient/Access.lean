import TypedClient.Json.Decoding

namespace TypedClient

open Json (Mismatch)

structure Access where
  loginRequired : Bool := false
  requiresLogin : Bool := false
  /-- Any one of these roles will do; none at all asks for any user. -/
  rolesAllowed : List String := []
deriving DecidableEq, Repr, Inhabited

structure User where
  name : String
  roles : List String := []
deriving DecidableEq, Repr

inductive AuthState
  | initializing
  | loading
  | anonymous
  | signedIn (user : User)
  | failed (reason : String)
deriving DecidableEq, Repr

def User.hasRole (u : User) (role : String) : Bool :=
  u.roles.contains role

def AuthState.isPending : AuthState → Bool
  | initializing => true
  | loading => true
  | _ => false

namespace Access

def isRestricted (a : Access) : Bool :=
  a.loginRequired || a.requiresLogin || !a.rolesAllowed.isEmpty

def admits (a : Access) (state : AuthState) : Bool :=
  !a.isRestricted || match state with
    | .signedIn user => a.rolesAllowed.isEmpty || a.rolesAllowed.any user.hasRole
    | _ => false

/-- Takes one member of an object, if it is one of the demands. -/
def setMember? (a : Access) (key : String) (j : Json) : Option (Except Mismatch Access) :=
  match key with
  | "loginRequired" => some (j.decodeBool.map fun b => { a with loginRequired := b })
  | "requiresLogin" => some (j.decodeBool.map fun b => { a with requiresLogin := b })
  | "rolesAllowed" => some (j.decodeStrings.map fun rs => { a with rolesAllowed := rs })
  | _ => none

def setMembers (a : Access) : List (String × Json) → Except Mismatch Access
  | [] => .ok a
  | (k, j) :: ms => match a.setMember? k j with
    | some r => r.bind fun a => setMembers a ms
    | none => setMembers a ms

/-- The demands that a value lists: by name, or all in their order. -/
def decode : Json → Except Mismatch Access
  | .object ms => setMembers {} ms
  | .array js => do
    let a ← setMembers {} (["loginRequired", "requiresLogin", "rolesAllowed"].zip js)
    if js.length ≤ 3 then .ok a else .error (.count js.length "fewer elements in array")
  | j => Json.mismatch "struct AccessProps" j

end Access

namespace User

def ofMembers (name : Option String) (roles : List String) :
    List (String × Json) → Except Mismatch User
  | [] => match name with
    | some name => .ok ⟨name, roles⟩
    | none => .error (.missing "name")
  | (k, j) :: ms =>
    if k = "name" then j.decodeString.bind fun n => ofMembers (some n) roles ms
    else if k = "roles" then j.decodeStrings.bind fun rs => ofMembers name rs ms
    else ofMembers name roles ms

def decode : Json → Except Mismatch User
  | .object ms => ofMembers none [] ms
  | .array [] => .error (.count 0 "struct User with 2 elements")
  | .array js => do
    let u ← ofMembers none [] (["name", "roles"].zip js)
    if js.length ≤ 2 then .ok u else .error (.count js.length "fewer elements in array")
  | j => Json.mismatch "struct User" j

end User

end TypedClient
