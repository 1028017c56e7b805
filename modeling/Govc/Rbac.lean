import Govc.GoEffects
import Govc.GoMaps
import Govc.GoSlices

/-!
# Roles, users and permissions

The slice of role names that `CreateUser` is called with is shared with the
caller; the slices of repository permissions are the manager's own.  Other slices
are never written to and are lists here.  Every call is one step.

Permissions are strings.  `repo:admin` stands for every permission that starts
with `repo:`, and `system:admin` for all.
-/

namespace Govc

open Go

abbrev Permission := GoString

namespace Permission

def repoRead : Permission := str "repo:read"
def repoWrite : Permission := str "repo:write"
def repoAdmin : Permission := str "repo:admin"
def systemRead : Permission := str "system:read"
def systemAdmin : Permission := str "system:admin"
def userRead : Permission := str "user:read"
def userWrite : Permission := str "user:write"
def userDelete : Permission := str "user:delete"
def webhookRead : Permission := str "webhook:read"
def webhookWrite : Permission := str "webhook:write"
def webhookDelete : Permission := str "webhook:delete"

end Permission

def permits (permissions : List Permission) (permission : Permission) : Bool :=
  permissions.any fun perm =>
    decide (perm = permission) || decide (perm = .systemAdmin) ||
      (hasPrefix permission (str "repo:") && decide (perm = .repoAdmin))

/-- The loop of every check of the permissions for a repository. -/
def repoPermits (repoPerms : Option (List Permission)) (permission : Permission) : Bool :=
  match repoPerms with
  | some perms =>
    perms.any fun perm =>
      decide (perm = permission) || decide (perm = .repoAdmin)
  | none => false

structure Role where
  name : GoString
  permissions : List Permission

structure User where
  username : GoString
  email : GoString
  roles : Slice
  permissions : List Permission
  repoPerms : GoMap GoString Slice
  active : Bool

/-- What `GetUser` gives: a user with slices and maps of its own. -/
structure UserCopy where
  username : GoString
  email : GoString
  roles : List GoString
  permissions : List Permission
  repoPerms : GoMap GoString (List Permission)
  active : Bool

/-- `names` has the arrays of role names, `grants` those of repository
permissions. -/
structure RBAC where
  roles : GoMap GoString Role
  users : GoMap GoString User
  names : Arrays GoString
  grants : Arrays Permission

namespace RBAC

def defaultRoles : List Role :=
  [{ name := str "admin"
     permissions := [.systemAdmin, .repoAdmin, .userRead, .userWrite,
       .userDelete, .webhookRead, .webhookWrite, .webhookDelete] },
    { name := str "developer"
      permissions := [.repoRead, .repoWrite, .webhookRead, .webhookWrite] },
    { name := str "reader", permissions := [.repoRead] },
    { name := str "guest", permissions := [.systemRead] }]

def new : RBAC where
  roles := defaultRoles.foldl (fun roles role => roles.insert role.name role) ∅
  users := ∅
  names := []
  grants := []

def quoted (kind name rest : GoString) : GoString := kind ++ str " '" ++ name ++ str "' " ++ rest

def userNotFound (userID : GoString) : GoString := quoted (str "user") userID (str "not found")

/-! ## Queries -/

def getUser (order : RangeOrder) (userID : GoString) (r : RBAC) : Except GoString UserCopy :=
  match r.users.lookup userID with
  | none => .error (userNotFound userID)
  | some user =>
    .ok
      { username := user.username
        email := user.email
        roles := user.roles.read r.names
        permissions := user.permissions
        repoPerms := (user.repoPerms.range order).foldl
          (fun copied entry =>
            copied.insert entry.1 (entry.2.read r.grants)) ∅
        active := user.active }

/-- The permissions of the roles that exist, and the user's own. -/
def heldPermissions (r : RBAC) (user : User) : List Permission :=
  ((user.roles.read r.names).flatMap fun roleName =>
    match r.roles.lookup roleName with
    | some role => role.permissions
    | none => []) ++ user.permissions

/-- The permissions are collected in a map and listed in its order. -/
def getUserPermissions (order : RangeOrder) (userID : GoString) (r : RBAC) :
    Except GoString (List Permission) :=
  match r.users.lookup userID with
  | none => .error (userNotFound userID)
  | some user =>
    if user.active then
      let permissionSet : GoMap Permission Unit :=
        (r.heldPermissions user).foldl (fun set perm => set.insert perm ()) ∅
      .ok (order.visit permissionSet.keys)
    else .error (quoted (str "user") userID (str "is inactive"))

def hasPermission (order : RangeOrder) (userID : GoString)
    (permission : Permission) (r : RBAC) : Bool :=
  match r.getUserPermissions order userID with
  | .ok permissions => permits permissions permission
  | .error _ => false

def hasRepositoryPermission (order : RangeOrder) (userID repoID : GoString)
    (permission : Permission) (r : RBAC) : Bool :=
  match r.users.lookup userID with
  | none => false
  | some user =>
    if user.active then
      r.hasPermission order userID permission ||
        repoPermits
          ((user.repoPerms.lookup repoID).map fun perms =>
            perms.read r.grants)
          permission
    else false

/-! ## Changes -/

def createRole (name : GoString) (permissions : List Permission) : GoM RBAC Unit := fun r =>
  if r.roles.contains name then
    (.error (quoted (str "role") name (str "already exists")), r)
  else
    (.ok (), { r with roles := r.roles.insert name ⟨name, permissions⟩ })

def createUser (id username email : GoString) (roles : Slice) : GoM RBAC Unit := fun r =>
  if r.users.contains id then
    (.error (quoted (str "user") id (str "already exists")), r)
  else
    match (roles.read r.names).find? fun name => !r.roles.contains name with
    | some roleName =>
      (.error (quoted (str "role") roleName (str "does not exist")), r)
    | none =>
      (.ok (),
        { r with
          users := r.users.insert id
            { username := username
              email := email
              roles := roles
              permissions := []
              repoPerms := ∅
              active := true } })

def onUser (userID : GoString) (change : User → GoM RBAC Unit) : GoM RBAC Unit := fun r =>
  match r.users.lookup userID with
  | none => (.error (userNotFound userID), r)
  | some user => change user r

/-- `room` is the room that a new array has. -/
def grantRepositoryPermission (room : ℕ) (userID repoID : GoString)
    (permission : Permission) : GoM RBAC Unit :=
  onUser userID fun user r =>
    let perms := (user.repoPerms.lookup repoID).getD .empty
    if permission ∈ perms.read r.grants then (.ok (), r)
    else
      let (perms, grants) := perms.append permission room r.grants
      (.ok (),
        { r with
          users := r.users.insert userID
            { user with repoPerms := user.repoPerms.insert repoID perms }
          grants := grants })

/-- The first occurrence is removed, and then an empty slice. -/
def revokeRepositoryPermission (userID repoID : GoString)
    (permission : Permission) : GoM RBAC Unit :=
  onUser userID fun user r =>
    let perms := (user.repoPerms.lookup repoID).getD .empty
    let (repoPerms, grants) :=
      match (perms.read r.grants).idxOf? permission with
      | some i =>
        let (perms, grants) := perms.removeAt i r.grants
        (user.repoPerms.insert repoID perms, grants)
      | none => (user.repoPerms, r.grants)
    let left := (repoPerms.lookup repoID).getD .empty
    (.ok (),
      { r with
        users := r.users.insert userID
          { user with
            repoPerms := if left.length = 0 then repoPerms.erase repoID else repoPerms }
        grants := grants })

def assignRole (room : ℕ) (userID roleName : GoString) : GoM RBAC Unit :=
  onUser userID fun user r =>
    if r.roles.contains roleName then
      if roleName ∈ user.roles.read r.names then (.ok (), r)
      else
        let (roles, names) := user.roles.append roleName room r.names
        (.ok (),
          { r with
            users := r.users.insert userID { user with roles := roles }
            names := names })
    else (.error (quoted (str "role") roleName (str "not found")), r)

def removeRole (userID roleName : GoString) : GoM RBAC Unit := onUser userID fun user r =>
    match (user.roles.read r.names).idxOf? roleName with
    | some i =>
      let (roles, names) := user.roles.removeAt i r.names
      (.ok (),
        { r with
          users := r.users.insert userID { user with roles := roles }
          names := names })
    | none => (.ok (), r)

def setActive (active : Bool) (userID : GoString) : GoM RBAC Unit := onUser userID fun user r =>
    (.ok (), { r with users := r.users.insert userID { user with active := active } })

def deactivateUser : GoString → GoM RBAC Unit := setActive false

def activateUser : GoString → GoM RBAC Unit := setActive true

end RBAC

/-! ## What the queries say -/

theorem permits_mono (hsub : ∀ perm ∈ fewer, perm ∈ more)
    (hpermits : permits fewer permission = true) :
    permits more permission = true := by
  unfold permits at *
  rw [List.any_eq_true] at *
  obtain ⟨perm, hmem, hstands⟩ := hpermits
  exact ⟨perm, hsub perm hmem, hstands⟩

namespace RBAC

variable {r : RBAC} {userID : GoString}

theorem getUserPermissions_order (hok : r.getUserPermissions order userID = .ok permissions)
    (other : RangeOrder) :
    ∃ listed, r.getUserPermissions other userID = .ok listed ∧
      ∀ perm ∈ permissions, perm ∈ listed := by
  unfold getUserPermissions at *
  cases huser : r.users.lookup userID with
  | none =>
    rw [huser] at hok
    cases hok
  | some user =>
    rw [huser] at hok
    dsimp only at hok ⊢
    cases hactive : user.active with
    | false =>
      rw [hactive] at hok
      cases hok
    | true =>
      rw [hactive, if_pos rfl, Except.ok.injEq] at hok
      refine ⟨_, if_pos rfl, ?_⟩
      intro perm hmem
      rw [← hok] at hmem
      exact (other.perm _).mem_iff.mpr ((order.perm _).mem_iff.mp hmem)

theorem hasRepositoryPermission_of_global
    (hok : r.getUserPermissions order userID = .ok permissions)
    (hpermits : permits permissions permission = true) (repoID : GoString) :
    r.hasRepositoryPermission other userID repoID permission = true := by
  obtain ⟨listed, hlisted, hsub⟩ := getUserPermissions_order hok other
  have hglobal : r.hasPermission other userID permission = true := by
    unfold hasPermission
    rw [hlisted]
    exact permits_mono hsub hpermits
  unfold hasRepositoryPermission
  unfold getUserPermissions at hok
  cases huser : r.users.lookup userID with
  | none =>
    rw [huser] at hok
    cases hok
  | some user =>
    rw [huser] at hok
    dsimp only at hok ⊢
    split_ifs at hok with hactive
    rw [if_pos hactive, hglobal, Bool.true_or]

theorem active_of_hasRepositoryPermission
    (hhas : r.hasRepositoryPermission order userID repoID permission = true) :
    ∃ user, r.users.lookup userID = some user ∧ user.active = true := by
  unfold hasRepositoryPermission at hhas
  cases huser : r.users.lookup userID with
  | none =>
    rw [huser] at hhas
    cases hhas
  | some user =>
    rw [huser] at hhas
    dsimp only at hhas
    split_ifs at hhas with hactive
    exact ⟨user, rfl, hactive⟩

end RBAC

end Govc
