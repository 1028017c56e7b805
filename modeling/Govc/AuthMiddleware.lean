import Govc.ApiKeys
import Govc.GuardedRuns

/-!
# Authenticated requests

A request with an API key is authenticated as the key's owner.  Its global
permissions are those of the key that the owner has too; its repository
permissions are those of the key.  Requests with a bearer token go another way,
which is left open here.
-/

namespace Govc

open Go

structure AuthenticatedUser where
  id : GoString
  username : GoString
  email : GoString
  permissions : List Permission
  repoPerms : GoMap GoString (List Permission)
  authMethod : GoString

/-- The parts of a request that are read: two headers, a query parameter and
the id of the repository in the path. -/
structure Request where
  authorization : GoString
  apiKeyHeader : GoString
  apiKeyQuery : GoString
  repoID : GoString

inductive ContextUser where
  | absent
  | authenticated (user : AuthenticatedUser)
  | other

inductive Reply where
  | next
  | abort (status : ℕ) (error code : GoString)
  deriving DecidableEq

def intersectPermissions (userPerms keyPerms : List Permission) : List Permission :=
  keyPerms.filter fun perm => decide (perm ∈ userPerms)

namespace AuthenticatedUser

def hasPermission (user : AuthenticatedUser) (permission : Permission) : Bool :=
  permits user.permissions permission

def hasRepositoryPermission (user : AuthenticatedUser) (repoID : GoString)
    (permission : Permission) : Bool :=
  user.hasPermission permission || repoPermits (user.repoPerms.lookup repoID) permission

end AuthenticatedUser

namespace Access

/-- An owner without permissions, or one that is not active, is no error. -/
def authenticateAPIKey (host : Host) (now : ℤ) (order : RangeOrder)
    (keyString : GoString) (a : Access) :
    Except GoString AuthenticatedUser := do
  let key ← a.validateAPIKey host now keyString
  let user ← a.rbac.getUser order key.userID
  let userPermissions :=
    match a.rbac.getUserPermissions order key.userID with
    | .ok permissions => permissions
    | .error _ => []
  pure
    { id := key.userID
      username := user.username
      email := user.email
      permissions := intersectPermissions userPermissions key.permissions
      repoPerms := key.repoPerms
      authMethod := str "apikey" }

def errNoAuthProvided : GoString := str "no authentication provided"

/-- `authenticateJWT` is what is done with a bearer token. -/
def authenticateRequest (host : Host) (now : ℤ) (order : RangeOrder)
    (authenticateJWT : GoString → Except GoString AuthenticatedUser)
    (request : Request) (a : Access) : Except GoString AuthenticatedUser :=
  if hasPrefix request.authorization (str "Bearer ") then
    authenticateJWT (trimPrefix request.authorization (str "Bearer "))
  else if request.apiKeyHeader ≠ [] then
    a.authenticateAPIKey host now order request.apiKeyHeader
  else if request.apiKeyQuery ≠ [] then
    a.authenticateAPIKey host now order request.apiKeyQuery
  else .error errNoAuthProvided

def unauthorized : Reply := .abort 401 (str "Authentication required") (str "UNAUTHORIZED")

def authRequired (host : Host) (now : ℤ) (order : RangeOrder)
    (authenticateJWT : GoString → Except GoString AuthenticatedUser)
    (request : Request) (a : Access) : Reply × ContextUser :=
  match a.authenticateRequest host now order authenticateJWT request with
  | .ok user => (.next, .authenticated user)
  | .error _ => (unauthorized, .absent)

def requireRepositoryPermission (permission : Permission)
    (context : ContextUser) (request : Request) : Reply :=
  match context with
  | .absent => unauthorized
  | .other => .abort 500 (str "Invalid user context") (str "INTERNAL_ERROR")
  | .authenticated user =>
    if request.repoID = [] then
      .abort 400 (str "Repository ID required") (str "MISSING_REPO_ID")
    else if user.hasRepositoryPermission request.repoID permission then .next
    else
      .abort 403 (str "Insufficient repository permissions") (str "FORBIDDEN")

def serve (host : Host) (now : ℤ) (order : RangeOrder)
    (authenticateJWT : GoString → Except GoString AuthenticatedUser)
    (permission : Permission) (request : Request) (a : Access) : Reply :=
  match a.authRequired host now order authenticateJWT request with
  | (.next, context) => requireRepositoryPermission permission context request
  | (reply, _) => reply

end Access

/-! ## Runs -/

inductive AccessCall where
  | makeNames (values : List GoString) (room : ℕ)
  | createRole (name : GoString) (permissions : List Permission)
  | createUser (id username email : GoString) (roles : Slice)
  | grant (room : ℕ) (userID repoID : GoString) (permission : Permission)
  | revoke (userID repoID : GoString) (permission : Permission)
  | assignRole (room : ℕ) (userID roleName : GoString)
  | removeRole (userID roleName : GoString)
  | deactivateUser (userID : GoString)
  | activateUser (userID : GoString)
  | generateAPIKey (userID : GoString) (permissions : List Permission)
      (repoPerms : GoMap GoString (List Permission)) (expiresAt : Option ℤ)
      (keyBytes : Except GoString Bytes) (idBytes : Bytes)
  | revokeAPIKey (order : RangeOrder) (keyID : GoString)
  | deleteAPIKey (order : RangeOrder) (keyID : GoString)
  | updateAPIKeyPermissions (order : RangeOrder) (keyID : GoString)
      (permissions : List Permission)
      (repoPerms : GoMap GoString (List Permission))
  | cleanupExpiredKeys (order : RangeOrder) (now : ℤ)
  | request (now : ℤ) (order : RangeOrder)
      (authenticateJWT : GoString → Except GoString AuthenticatedUser)
      (permission : Permission) (request : Request)

namespace Access

def onRbac {α : Type} (m : GoM RBAC α) : GoM Access α :=
  GoM.zoom (fun a => a.rbac) (fun a rbac => { a with rbac := rbac }) m

/-- What a call leaves.  A caller may make slices of role names; a request
changes nothing. -/
def perform (host : Host) (a : Access) : AccessCall → Access
  | .makeNames values room =>
    { a with
      rbac := { a.rbac with
        names := (Slice.alloc values room a.rbac.names).2 } }
  | .createRole name permissions =>
    (onRbac (RBAC.createRole name permissions) a).2
  | .createUser id username email roles =>
    (onRbac (RBAC.createUser id username email roles) a).2
  | .grant room userID repoID permission =>
    (onRbac (RBAC.grantRepositoryPermission room userID repoID permission) a).2
  | .revoke userID repoID permission =>
    (onRbac (RBAC.revokeRepositoryPermission userID repoID permission) a).2
  | .assignRole room userID roleName =>
    (onRbac (RBAC.assignRole room userID roleName) a).2
  | .removeRole userID roleName =>
    (onRbac (RBAC.removeRole userID roleName) a).2
  | .deactivateUser userID => (onRbac (RBAC.deactivateUser userID) a).2
  | .activateUser userID => (onRbac (RBAC.activateUser userID) a).2
  | .generateAPIKey userID permissions repoPerms expiresAt keyBytes idBytes =>
    (generateAPIKey host userID permissions repoPerms expiresAt keyBytes idBytes a).2
  | .revokeAPIKey order keyID => (revokeAPIKey order keyID a).2
  | .deleteAPIKey order keyID => (deleteAPIKey order keyID a).2
  | .updateAPIKeyPermissions order keyID permissions repoPerms =>
    (updateAPIKeyPermissions order keyID permissions repoPerms a).2
  | .cleanupExpiredKeys order now => (cleanupExpiredKeys order now a).2
  | .request .. => a

end Access

end Govc
