import Govc.AuthMiddleware
import Govc.JwtAuth

/-!
# What a request with a token may do

A request with a bearer token is authenticated as the user that the token
names.  The permissions are read from the manager of roles at that moment, not
from the token, so the check of the middleware on them decides what the manager
itself decides.  A user who is not active is not authenticated at all.
-/

namespace Govc

open Go RBAC

/-- The global permissions and the user are read in two calls, each with its
own order of the maps. -/
def authenticateJWT (lib : JwtLibrary) (readings : Readings)
    (cacheOrder permissionOrder copyOrder : RangeOrder) (token : GoString)
    (r : RBAC) : GoM JWTAuth AuthenticatedUser := do
  let claims ← JWTAuth.validateToken lib readings cacheOrder token
  let permissions ← GoM.ofExcept
    (r.getUserPermissions permissionOrder claims.userID)
  let user ← GoM.ofExcept (r.getUser copyOrder claims.userID)
  pure
    { id := claims.userID
      username := claims.username
      email := claims.email
      permissions := permissions
      repoPerms := user.repoPerms
      authMethod := str "jwt" }

section

variable {r : RBAC} {order other : RangeOrder} {userID repoID : GoString}
  {permission : Permission}

theorem permits_order (hok : r.getUserPermissions order userID = .ok permissions) :
    permits permissions permission = true ↔ r.hasPermission other userID permission = true := by
  obtain ⟨listed, hlisted, hsub⟩ := getUserPermissions_order hok other
  obtain ⟨back, hback, hsup⟩ := getUserPermissions_order hlisted order
  have hsame : back = permissions := (Except.ok.inj (hok.symm.trans hback)).symm
  rw [hsame] at hsup
  unfold hasPermission
  rw [hlisted]
  exact ⟨permits_mono hsub, permits_mono hsup⟩

theorem permits_copy (hpermissions : r.getUserPermissions order userID = .ok permissions)
    (hcopy : r.getUser copyOrder userID = .ok copy) :
    (permits permissions permission ||
        repoPermits (copy.repoPerms.lookup repoID) permission) = true ↔
      r.hasRepositoryPermission other userID repoID permission = true := by
  unfold getUser at hcopy
  unfold hasRepositoryPermission
  cases huser : r.users.lookup userID with
  | none =>
    rw [huser] at hcopy
    cases hcopy
  | some user =>
    have hactive : user.active = true := by
      unfold getUserPermissions at hpermissions
      rw [huser] at hpermissions
      dsimp only at hpermissions
      split_ifs at hpermissions with hactive
      exact hactive
    rw [huser, Except.ok.injEq] at hcopy
    subst hcopy
    dsimp only
    rw [if_pos hactive, GoMap.lookup_copy,
      Bool.or_eq_true, Bool.or_eq_true, permits_order hpermissions]

theorem getUserPermissions_of_has
    (hhas : r.hasRepositoryPermission other userID repoID permission = true)
    :
    ∃ permissions copy, r.getUserPermissions order userID = .ok permissions ∧
      r.getUser copyOrder userID = .ok copy := by
  obtain ⟨user, huser, hactive⟩ := active_of_hasRepositoryPermission hhas
  unfold getUserPermissions getUser
  rw [huser]
  exact ⟨_, _, if_pos hactive, rfl⟩

end

/-- A request with a valid token passes exactly if the manager of roles gives
the user of the token the permission, in every state. -/
theorem token_request_passes_iff (lib : JwtLibrary) (readings : Readings)
    (cacheOrder permissionOrder copyOrder order : RangeOrder)
    (token : GoString) (r : RBAC) (j : JWTAuth) (repoID : GoString)
    (permission : Permission) {claims : Claims}
    (hvalid : (JWTAuth.validateToken lib readings cacheOrder token j).1 = .ok claims) :
    (∃ user, (authenticateJWT lib readings cacheOrder permissionOrder copyOrder
        token r j).1 = .ok user ∧
      user.hasRepositoryPermission repoID permission = true) ↔
      r.hasRepositoryPermission order claims.userID repoID permission = true := by
  rcases hrun : JWTAuth.validateToken lib readings cacheOrder token j with
    ⟨outcome, after⟩
  rw [hrun] at hvalid
  subst hvalid
  unfold authenticateJWT
  rw [GoM.bind_of_ok hrun]
  constructor
  · rintro ⟨user, hauth, hhas⟩
    cases hpermissions : r.getUserPermissions permissionOrder claims.userID with
    | error e =>
      rw [hpermissions] at hauth
      cases hauth
    | ok permissions =>
      cases hcopy : r.getUser copyOrder claims.userID with
      | error e =>
        rw [hpermissions, hcopy] at hauth
        cases hauth
      | ok copy =>
        rw [hpermissions, hcopy] at hauth
        cases hauth
        exact (permits_copy hpermissions hcopy).mp hhas
  · intro hhas
    obtain ⟨permissions, copy, hpermissions, hcopy⟩ := getUserPermissions_of_has hhas
    rw [hpermissions, hcopy]
    exact ⟨_, rfl, (permits_copy hpermissions hcopy).mpr hhas⟩

def staffed : RBAC where
  roles := RBAC.new.roles
  users := AList.insert (str "u")
    { username := str "u"
      email := []
      roles := ⟨0, 0, 1, 1⟩
      permissions := []
      repoPerms := AList.insert (str "r") ⟨0, 0, 1, 1⟩ ∅
      active := true } ∅
  names := [[str "developer"]]
  grants := [[.repoAdmin]]

theorem token_request_passes_iff_developer :
    (∃ user, (authenticateJWT .plain (.at 0) .inserted .inserted .inserted
        shortToken staffed shortAuth).1 = .ok user ∧
      user.hasRepositoryPermission (str "r") .repoRead = true) ↔
      staffed.hasRepositoryPermission .inserted shortClaims.userID (str "r") .repoRead = true := by
  have hvalid : (JWTAuth.validateToken .plain (.at 0) .inserted shortToken
      shortAuth).1 = .ok shortClaims := by
    decide +kernel
  exact token_request_passes_iff .plain (.at 0) .inserted .inserted .inserted
    .inserted shortToken staffed shortAuth (str "r") .repoRead hvalid

end Govc
