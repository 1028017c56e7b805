import Govc.AuthMiddleware

/-!
# What a request with an API key may do

The global permissions of a request are among the owner's.  The repository
permissions of the key are compared with nothing, so requests keep to what the
owner may do exactly if the key's repository permissions do.
-/

namespace Govc

open Go

namespace Request

def usesKey (request : Request) : Prop := hasPrefix request.authorization (str "Bearer ") = false

instance (request : Request) : Decidable request.usesKey :=
  inferInstanceAs (Decidable (_ = _))

def presentedKey (request : Request) : GoString :=
  if request.apiKeyHeader ≠ [] then request.apiKeyHeader
  else request.apiKeyQuery

end Request

namespace Access

variable {host : Host} {now : ℤ} {order : RangeOrder}
  {authenticateJWT : GoString → Except GoString AuthenticatedUser}
  {permission : Permission} {request : Request} {a : Access}

def ownerOf (order : RangeOrder) (key : APIKey) (owner : UserCopy)
    (a : Access) : AuthenticatedUser where
  id := key.userID
  username := owner.username
  email := owner.email
  permissions := intersectPermissions (match a.rbac.getUserPermissions order key.userID with
    | .ok permissions => permissions
    | .error _ => []) key.permissions
  repoPerms := key.repoPerms
  authMethod := str "apikey"

theorem authenticateAPIKey_eq_ok :
    a.authenticateAPIKey host now order keyString = .ok user ↔
      ∃ key owner, a.validateAPIKey host now keyString = .ok key ∧
        a.rbac.getUser order key.userID = .ok owner ∧
        user = ownerOf order key owner a := by
  unfold authenticateAPIKey
  cases hvalid : a.validateAPIKey host now keyString with
  | error e =>
    constructor
    · intro hok
      cases hok
    · rintro ⟨key, owner, hkey, -⟩
      cases hkey
  | ok key =>
    cases howner : a.rbac.getUser order key.userID with
    | error e =>
      constructor
      · intro hok
        simp only [Except.bind, bind, howner] at hok
        cases hok
      · rintro ⟨other, owner, hkey, hget, -⟩
        cases hkey
        rw [howner] at hget
        cases hget
    | ok owner =>
      simp only [Except.bind, bind, howner, pure, Except.pure, Except.ok.injEq]
      constructor
      · intro hok
        exact ⟨key, owner, rfl, howner, hok.symm⟩
      · rintro ⟨other, copy, hkey, hget, huser⟩
        subst hkey
        rw [howner, Except.ok.injEq] at hget
        rw [huser, ← hget]
        rfl

theorem authenticateRequest_eq_ok (hkey : request.usesKey) :
    a.authenticateRequest host now order authenticateJWT request = .ok user ↔
      a.authenticateAPIKey host now order request.presentedKey = .ok user := by
  unfold authenticateRequest Request.presentedKey
  rw [hkey, if_neg Bool.false_ne_true]
  split
  · rfl
  · split_ifs with hquery
    · rfl
    · rw [not_not] at hquery
      rw [hquery]
      constructor
      · intro hok
        cases hok
      · intro hok
        cases hok

theorem serve_eq_next :
    a.serve host now order authenticateJWT permission request = .next ↔
      ∃ user, a.authenticateRequest host now order authenticateJWT request = .ok user ∧
        request.repoID ≠ [] ∧
        user.hasRepositoryPermission request.repoID permission = true := by
  unfold serve authRequired
  cases hauth : a.authenticateRequest host now order authenticateJWT request with
  | error e => simp [unauthorized]
  | ok user =>
    unfold requireRepositoryPermission
    by_cases hrepo : request.repoID = []
    · simp [hrepo]
    · by_cases hhas : user.hasRepositoryPermission request.repoID permission = true
      · simp [hrepo, hhas]
      · simp [hrepo, hhas]

theorem getUser_eq_ok (hok : a.rbac.getUser order userID = .ok owner) :
    ∃ user, a.rbac.users.lookup userID = some user := by
  unfold RBAC.getUser at hok
  cases huser : a.rbac.users.lookup userID with
  | none =>
    rw [huser] at hok
    cases hok
  | some user => exact ⟨user, rfl⟩

theorem exists_getUser (huser : a.rbac.users.lookup userID = some user) :
    ∃ owner, a.rbac.getUser order userID = .ok owner := by
  unfold RBAC.getUser
  rw [huser]
  exact ⟨_, rfl⟩

theorem permits_ownerOf (hpermits : (ownerOf order key owner a).hasPermission permission = true) :
    a.rbac.hasRepositoryPermission other key.userID repoID permission = true := by
  unfold AuthenticatedUser.hasPermission ownerOf at hpermits
  cases hheld : a.rbac.getUserPermissions order key.userID with
  | error e =>
    rw [hheld] at hpermits
    simp [intersectPermissions, permits] at hpermits
  | ok permissions =>
    rw [hheld] at hpermits
    apply RBAC.hasRepositoryPermission_of_global hheld
    apply permits_mono _ hpermits
    intro perm hmem
    unfold intersectPermissions at hmem
    rw [List.mem_filter, decide_eq_true_eq] at hmem
    exact hmem.2

/-- The key is valid, its owner is active, and the owner has the permission. -/
def Entitled (host : Host) (now : ℤ) (permission : Permission)
    (request : Request) (a : Access) : Prop :=
  ∃ key user, a.validateAPIKey host now request.presentedKey = .ok key ∧
    a.rbac.users.lookup key.userID = some user ∧ user.active = true ∧
    ∀ order, a.rbac.hasRepositoryPermission order key.userID request.repoID permission = true

/-- A request with a key is allowed only what the owner may do. -/
def keepsToOwner (host : Host) (a : Access) : AccessCall → Prop
  | .request now order authenticateJWT permission request =>
    request.usesKey → a.serve host now order authenticateJWT permission request = .next →
      a.Entitled host now permission request
  | _ => True

/-- What the repository permissions of a valid key say, its owner may do. -/
def grantsCovered (host : Host) (a : Access) : AccessCall → Prop
  | .request now _ _ permission request =>
    request.usesKey → request.repoID ≠ [] →
      ∀ key user, a.validateAPIKey host now request.presentedKey = .ok key →
        a.rbac.users.lookup key.userID = some user →
        key.grants request.repoID permission = true →
        ∀ order, a.rbac.hasRepositoryPermission order key.userID request.repoID permission = true
  | _ => True

theorem entitled_of_covered (hcovered : a.grantsCovered host call) : a.keepsToOwner host call := by
  cases call with
  | request now order authenticateJWT permission request =>
    intro hkey hserved
    obtain ⟨user, hauth, hrepo, hhas⟩ := serve_eq_next.mp hserved
    rw [authenticateRequest_eq_ok hkey, authenticateAPIKey_eq_ok] at hauth
    obtain ⟨key, owner, hvalid, hget, rfl⟩ := hauth
    obtain ⟨user, huser⟩ := getUser_eq_ok hget
    have hgranted : ∀ other, a.rbac.hasRepositoryPermission other key.userID
        request.repoID permission = true := by
      intro other
      rcases Bool.or_eq_true_iff.mp hhas with hglobal | hrepoPerms
      · exact permits_ownerOf hglobal
      · exact hcovered hkey hrepo key user hvalid huser hrepoPerms other
    obtain ⟨found, hfound, hactive⟩ := RBAC.active_of_hasRepositoryPermission (hgranted order)
    exact ⟨key, found, hvalid, hfound, hactive, hgranted⟩
  | _ => exact trivial

theorem covered_of_entitled (hkeeps : a.keepsToOwner host call) : a.grantsCovered host call := by
  cases call with
  | request now order authenticateJWT permission request =>
    intro hkey hrepo key user hvalid huser hgrants
    obtain ⟨owner, hget⟩ := exists_getUser huser
    have hserved : a.serve host now order authenticateJWT permission request = .next := by
      rw [serve_eq_next]
      refine ⟨ownerOf order key owner a, ?_, hrepo, ?_⟩
      · rw [authenticateRequest_eq_ok hkey, authenticateAPIKey_eq_ok]
        exact ⟨key, owner, hvalid, hget, rfl⟩
      · exact Bool.or_eq_true_iff.mpr (.inr hgrants)
    obtain ⟨found, -, hfound, -, -, hgranted⟩ := hkeeps hkey hserved
    rw [hvalid, Except.ok.injEq] at hfound
    rw [hfound]
    exact hgranted
  | _ => exact trivial

end Access

/-- In every run, from every state, the requests with keys keep to what the
owners may do exactly if the keys' repository permissions do. -/
theorem key_requests_keep_to_owner_iff (host : Host) (start : Access) (calls : List AccessCall) :
    Runs.Admits (Access.perform host) (Access.keepsToOwner host) start calls ↔
      Runs.Admits (Access.perform host) (Access.grantsCovered host) start calls :=
  Runs.admits_congr (fun _ _ => ⟨Access.covered_of_entitled, Access.entitled_of_covered⟩)
    start calls

/-- A user without roles makes a key that may write to a repository, and uses
it. -/
def unearnedKey : List AccessCall :=
  [.createUser (str "u") (str "u") [] .empty,
    .generateAPIKey (str "u") [] (AList.insert (str "r") [.repoWrite] ∅) none (.ok [0]) [1],
    .request 0 .inserted (fun _ => .error []) .repoWrite ⟨[], str "govc_AA==", [], str "r"⟩]

/-- The request is allowed, and the user has no permission. -/
theorem key_widens_access :
    ¬ Runs.Admits (Access.perform .checksums) (Access.keepsToOwner .checksums)
      ⟨.new, ∅⟩ unearnedKey := by
  rintro ⟨-, -, hkeeps, -⟩
  obtain ⟨key, user, hvalid, -, -, hgranted⟩ := hkeeps (by decide) (by decide)
  cases hvalid
  have hallowed := hgranted .inserted
  revert hallowed
  decide

end Govc
