import Govc.RbacRuns

/-!
# Accounts and revocation

What a call does to an account is said on the lists that the user's slices show,
and the manager does that as long as no other user's slice shows a cell that the
call writes.  A role that a user was created with twice is still held after it
was removed once.
-/

namespace Govc

open Go

structure Account where
  roles : List GoString
  permissions : List Permission
  grants : GoString → List Permission
  active : Bool

def addOnce {α : Type} [DecidableEq α] (value : α) (values : List α) : List α :=
  if value ∈ values then values else values ++ [value]

namespace Account

def assign (roleName : GoString) (account : Account) : Account :=
  { account with roles := addOnce roleName account.roles }

def remove (roleName : GoString) (account : Account) : Account :=
  { account with roles := account.roles.erase roleName }

def grant (repoID : GoString) (permission : Permission) (account : Account) : Account :=
  { account with
    grants := Function.update account.grants repoID (addOnce permission (account.grants repoID)) }

def revoke (repoID : GoString) (permission : Permission) (account : Account) : Account :=
  { account with
    grants := Function.update account.grants repoID ((account.grants repoID).erase permission) }

end Account

def RBAC.created (r : RBAC) (roles : Slice) (account : Option Account) : Option Account :=
  account.or
    (if ∀ name ∈ roles.read r.names, r.roles.contains name = true then
      some ⟨roles.read r.names, [], fun _ => [], true⟩
    else none)

def RBAC.assigned (r : RBAC) (roleName : GoString) (account : Option Account) : Option Account :=
  if r.roles.contains roleName then account.map (.assign roleName) else account

def RbacCall.change (r : RBAC) : RbacCall → Option Account → Option Account
  | .makeNames .. => id
  | .createRole .. => id
  | .createUser _ _ _ roles => r.created roles
  | .grant _ _ repoID permission => Option.map (.grant repoID permission)
  | .revoke _ repoID permission => Option.map (.revoke repoID permission)
  | .assignRole _ _ roleName => r.assigned roleName
  | .removeRole _ roleName => Option.map (.remove roleName)
  | .deactivateUser _ => Option.map fun account =>
    { account with active := false }
  | .activateUser _ => Option.map fun account =>
    { account with active := true }

namespace RBAC

def accountOf (r : RBAC) (user : User) : Account where
  roles := user.roles.read r.names
  permissions := user.permissions
  grants := fun repoID =>
    ((user.repoPerms.lookup repoID).getD .empty).read r.grants
  active := user.active

def account (r : RBAC) (id : GoString) : Option Account := (r.users.lookup id).map r.accountOf

variable {r : RBAC} {id : GoString} {user : User}

theorem account_of_lookup (huser : r.users.lookup id = some user) :
    r.account id = some (r.accountOf user) := by
  rw [account, huser, Option.map_some]

theorem account_put {names : Arrays GoString} {grants : Arrays Permission} :
    (r.put id user names grants).account id =
      some ((r.put id user names grants).accountOf user) := by
  apply account_of_lookup
  rw [lookup_put, if_pos rfl]

theorem SameUser.account {after : RBAC} (h : SameUser r after id) :
    after.account id = r.account id := by
  unfold RBAC.account
  rw [h.record]
  cases huser : r.users.lookup id with
  | none => rfl
  | some user =>
    rw [Option.map_some, Option.map_some]
    unfold accountOf
    rw [h.roles user huser]
    congr 2
    funext repoID
    have hslice := grantSlice_of_lookup huser repoID
    cases hlookup : user.repoPerms.lookup repoID with
    | none => rfl
    | some s =>
      rw [hlookup] at hslice
      exact h.grants repoID s hslice

theorem eq_of_created {roles : Slice} {account : Option Account}
    {held : Account} (hheld : r.created roles account = some held) :
    account = some held ∨ held = ⟨roles.read r.names, [], fun _ => [], true⟩ := by
  unfold created at hheld
  cases account with
  | some before => exact .inl hheld
  | none =>
    rw [Option.none_or] at hheld
    split_ifs at hheld with hroles
    exact .inr (Option.some.inj hheld).symm

theorem account_createUser {r : RBAC} {id username email : GoString} {roles : Slice} :
    (createUser id username email roles r).2.account id = r.created roles (r.account id) := by
  unfold created
  rcases createUser_cases with
    ⟨hsame, hrefused⟩ | ⟨hnew, hroles, hput⟩
  · rw [hsame]
    cases huser : r.users.lookup id with
    | none =>
      rw [account, huser, Option.map_none, Option.none_or,
        if_neg (hrefused.resolve_left (absurd huser))]
    | some user =>
      rw [account_of_lookup huser]
      rfl
  · rw [hput, account_put, account, hnew, Option.map_none, Option.none_or, if_pos hroles]
    rfl

theorem account_assignRole (hsound : r.Sound) {room : ℕ} {id roleName : GoString} :
    (assignRole room id roleName r).2.account id = r.assigned roleName (r.account id) := by
  unfold assigned
  rcases assignRole_cases with
    ⟨hsame, hheld⟩ | ⟨user, huser, hrole, hnew, hput⟩
  · rw [hsame]
    cases huser : r.users.lookup id with
    | none =>
      rw [account, huser]
      split_ifs with hrole
      · rfl
      · rfl
    | some user =>
      rw [account_of_lookup huser]
      split_ifs with hrole
      · have hmem : roleName ∈ (r.accountOf user).roles := hheld user huser hrole
        rw [Option.map_some, Account.assign, addOnce, if_pos hmem]
      · rfl
  · have hmem : roleName ∉ (r.accountOf user).roles := hnew
    rw [hput, account_put, account_of_lookup huser, if_pos hrole,
      Option.map_some, Account.assign, addOnce, if_neg hmem]
    unfold accountOf
    dsimp only [put]
    rw [Slice.read_append_self (hsound.roles_valid id user huser)]

theorem account_removeRole (hsound : r.Sound) {id roleName : GoString} :
    (removeRole id roleName r).2.account id = (r.account id).map (.remove roleName) := by
  rcases removeRole_cases with
    ⟨hsame, hnew⟩ | ⟨user, i, huser, hidx, hput⟩
  · rw [hsame]
    cases huser : r.users.lookup id with
    | none =>
      rw [account, huser]
      rfl
    | some user =>
      have hmem : roleName ∉ (r.accountOf user).roles := hnew user huser
      rw [account_of_lookup huser, Option.map_some, Account.remove, List.erase_of_not_mem hmem]
  · have hvalid := hsound.roles_valid id user huser
    rw [hput, account_put, account_of_lookup huser, Option.map_some,
      Account.remove, List.erase_eq_eraseIdx]
    unfold accountOf
    dsimp only [put]
    rw [Slice.read_removeAt_self hvalid (hvalid.lt_of_idxOf hidx), hidx]

theorem account_grant (hsound : r.Sound) {room : ℕ} {id repoID : GoString}
    {permission : Permission} :
    (grantRepositoryPermission room id repoID permission r).2.account id =
      (r.account id).map (.grant repoID permission) := by
  rcases grant_cases with
    ⟨hsame, hheld⟩ | ⟨user, huser, hnew, hput⟩
  · rw [hsame]
    cases huser : r.users.lookup id with
    | none =>
      rw [account, huser]
      rfl
    | some user =>
      have hmem : permission ∈ (r.accountOf user).grants repoID := hheld user huser
      rw [account_of_lookup huser, Option.map_some, Account.grant, addOnce,
        if_pos hmem, Function.update_eq_self]
  · have hmem : permission ∉ (r.accountOf user).grants repoID := hnew
    have hslice := grantSlice_of_lookup huser
    rw [hput, account_put, account_of_lookup huser, Option.map_some,
      Account.grant, addOnce, if_neg hmem]
    unfold accountOf
    dsimp only [put]
    congr 2
    funext repo
    rw [GoMap.lookup_insert_eq]
    split_ifs with hrepo
    · rw [hrepo, Function.update_self, Option.getD_some, ← hslice repoID]
      exact Slice.read_append_self (hsound.grants_owned.valid_getD)
    · rw [Function.update_of_ne hrepo, ← hslice repoID]
      cases hlookup : user.repoPerms.lookup repo with
      | none => rfl
      | some s =>
        have hother := hslice repo
        rw [hlookup] at hother
        exact hsound.grants_owned.read_append
          (fun hsame => hrepo (congrArg Prod.snd hsame))
          hother

theorem read_filter {α : Type} {entry : Option Slice} {arrays : Arrays α} :
    ((entry.filter fun s => decide (s.length ≠ 0)).getD .empty).read arrays =
      (entry.getD .empty).read arrays := by
  cases entry with
  | none => rfl
  | some s =>
    rw [Option.filter_some]
    split_ifs with hfull
    · rfl
    · have hempty : s.length = 0 := by simpa using hfull
      simp [Slice.read, Slice.empty, hempty]

theorem account_revoke (hsound : r.Sound) {id repoID : GoString} {permission : Permission} :
    (revokeRepositoryPermission id repoID permission r).2.account id =
      (r.account id).map (.revoke repoID permission) := by
  rcases revoke_cases with
    ⟨hnone, hsame⟩ | ⟨user, huser, hnew, hput⟩ | ⟨user, s, i, huser, hs, hidx, hput⟩
  · rw [hsame, account, hnone]
    rfl
  · have hmem : permission ∉ (r.accountOf user).grants repoID := hnew
    rw [hput, account_put, account_of_lookup huser, Option.map_some,
      Account.revoke, List.erase_of_not_mem hmem, Function.update_eq_self]
    unfold accountOf
    dsimp only [put]
    congr 2
    funext repo
    rw [lookup_kept]
    split_ifs with hrepo
    · rw [read_filter, hrepo]
    · rfl
  · have hslice := grantSlice_of_lookup huser
    have hgrant : r.grantSlice (id, repoID) = some s := by
      rw [hslice, hs]
    have hvalid := hsound.grants_owned.valid _ s hgrant
    have hi := hvalid.lt_of_idxOf hidx
    rw [hput, account_put, account_of_lookup huser, Option.map_some, Account.revoke]
    unfold accountOf
    dsimp only [put]
    congr 2
    funext repo
    rw [lookup_kept_insert]
    split_ifs with hrepo
    · rw [hrepo, Function.update_self, read_filter, Option.getD_some, hs, Option.getD_some, List.erase_eq_eraseIdx, hidx, Slice.read_removeAt_self hvalid hi]
    · rw [Function.update_of_ne hrepo]
      cases hlookup : user.repoPerms.lookup repo with
      | none => rfl
      | some t =>
        have hother := hslice repo
        rw [hlookup] at hother
        exact hsound.grants_owned.read_removeAt
          (fun hsame => hrepo (congrArg Prod.snd hsame)) hgrant hother hi

theorem account_setActive {active : Bool} {id : GoString} :
    (setActive active id r).2.account id =
      (r.account id).map fun account => { account with active := active } := by
  rcases setActive_cases with ⟨hnone, hsame⟩ | ⟨user, huser, hput⟩
  · rw [hsame, account, hnone]
    rfl
  · rw [hput, account_put, account_of_lookup huser]
    rfl

theorem account_perform (hsound : r.Sound) {call : RbacCall} (hreal : call.Real r)
    (hunseen : call.Unseen r) {id : GoString} :
    (r.perform call).account id =
      if call.target = some id then call.change r (r.account id)
      else r.account id := by
  split_ifs with htarget
  · cases call with
    | createUser target username email roles =>
      cases htarget
      exact account_createUser
    | grant room target repoID permission =>
      cases htarget
      exact account_grant hsound
    | revoke target repoID permission =>
      cases htarget
      exact account_revoke hsound
    | assignRole room target roleName =>
      cases htarget
      exact account_assignRole hsound
    | removeRole target roleName =>
      cases htarget
      exact account_removeRole hsound
    | deactivateUser target =>
      cases htarget
      exact account_setActive
    | activateUser target =>
      cases htarget
      exact account_setActive
    | _ => cases htarget
  · exact (sameUser_perform hsound hreal hunseen htarget).account

end RBAC

/-! ## Lists without repetitions -/

structure Account.Distinct (account : Account) : Prop where
  roles : account.roles.Nodup
  grants : ∀ repoID, (account.grants repoID).Nodup

def RbacCall.Distinct (r : RBAC) : RbacCall → Prop
  | .createUser _ _ _ roles => (roles.read r.names).Nodup
  | _ => True

theorem nodup_addOnce {α : Type} [DecidableEq α] {values : List α}
    (hdistinct : values.Nodup) {value : α} : (addOnce value values).Nodup := by
  unfold addOnce
  split_ifs with hmem
  · exact hdistinct
  · rw [List.nodup_append]
    refine ⟨hdistinct, List.nodup_singleton value, ?_⟩
    rintro other hother _ hlast rfl
    rw [List.mem_singleton] at hlast
    exact hmem (hlast ▸ hother)

theorem Account.Distinct.update {account : Account} (h : account.Distinct)
    {repoID : GoString} {permissions : List Permission}
    (hdistinct : permissions.Nodup) :
    Account.Distinct
      { account with
        grants := Function.update account.grants repoID permissions } := by
  refine ⟨h.roles, ?_⟩
  intro repo
  dsimp only
  by_cases hrepo : repo = repoID
  · rw [hrepo, Function.update_self]
    exact hdistinct
  · rw [Function.update_of_ne hrepo]
    exact h.grants repo

def AllDistinct (account : Option Account) : Prop := ∀ held, account = some held → held.Distinct

theorem AllDistinct.map {account : Option Account} (h : AllDistinct account)
    {f : Account → Account}
    (hf : ∀ held : Account, held.Distinct → (f held).Distinct) :
    AllDistinct (account.map f) := by
  intro held hheld
  obtain ⟨before, hbefore, rfl⟩ := Option.map_eq_some_iff.mp hheld
  exact hf before (h before hbefore)

theorem AllDistinct.change {r : RBAC} {call : RbacCall}
    (hlist : call.Distinct r) {account : Option Account}
    (h : AllDistinct account) : AllDistinct (call.change r account) := by
  cases call with
  | makeNames values room => exact h
  | createRole name permissions => exact h
  | createUser id username email roles =>
    intro held hheld
    rcases RBAC.eq_of_created hheld with hold | rfl
    · exact h held hold
    · exact ⟨hlist, fun _ => List.nodup_nil⟩
  | grant room id repoID permission =>
    exact h.map fun held hdistinct =>
      hdistinct.update (nodup_addOnce (hdistinct.grants repoID))
  | revoke id repoID permission =>
    exact h.map fun held hdistinct =>
      hdistinct.update ((hdistinct.grants repoID).erase permission)
  | assignRole room id roleName =>
    change AllDistinct (r.assigned roleName account)
    unfold RBAC.assigned
    split_ifs with hrole
    · exact h.map fun held hdistinct =>
        ⟨nodup_addOnce hdistinct.roles, hdistinct.grants⟩
    · exact h
  | removeRole id roleName =>
    exact h.map fun held hdistinct =>
      ⟨hdistinct.roles.erase roleName, hdistinct.grants⟩
  | _ =>
    exact h.map fun held hdistinct => ⟨hdistinct.roles, hdistinct.grants⟩

/-! ## Revocation -/

/-- A role, or a permission for a repository, is taken from a user. -/
inductive Revocation where
  | role (userID roleName : GoString)
  | grant (userID repoID : GoString) (permission : Permission)

namespace Revocation

def userID : Revocation → GoString
  | role userID _ => userID
  | grant userID _ _ => userID

def call : Revocation → RbacCall
  | role userID roleName => .removeRole userID roleName
  | grant userID repoID permission => .revoke userID repoID permission

/-- The user has what is revoked, as `GetUser` shows it. -/
def Held (r : RBAC) : Revocation → Prop
  | role userID roleName =>
    ∃ order copy, r.getUser order userID = .ok copy ∧ roleName ∈ copy.roles
  | grant userID repoID permission =>
    ∃ order copy permissions, r.getUser order userID = .ok copy ∧
      copy.repoPerms.lookup repoID = some permissions ∧
      permission ∈ permissions

def GivenBy (r : RBAC) : Revocation → RbacCall → Prop
  | role userID roleName, .assignRole _ target name =>
    target = userID ∧ name = roleName
  | role userID roleName, .createUser target _ _ roles =>
    target = userID ∧ roleName ∈ roles.read r.names
  | grant userID repoID permission, .grant _ target repo given =>
    target = userID ∧ repo = repoID ∧ given = permission
  | _, _ => False

def HeldIn : Revocation → Account → Prop
  | role _ roleName, account => roleName ∈ account.roles
  | grant _ repoID permission, account => permission ∈ account.grants repoID

def Gone (revocation : Revocation) (account : Option Account) : Prop :=
  ∀ held, account = some held → ¬ revocation.HeldIn held

theorem target_call (revocation : Revocation) :
    revocation.call.target = some revocation.userID := by
  cases revocation <;> rfl

variable {r : RBAC}

theorem getUser_account {id : GoString}
    (hcopy : r.getUser order id = .ok copy) :
    ∃ account, r.account id = some account ∧ account.roles = copy.roles ∧
      ∀ repoID, account.grants repoID = (copy.repoPerms.lookup repoID).getD [] := by
  unfold RBAC.getUser at hcopy
  cases huser : r.users.lookup id with
  | none =>
    rw [huser] at hcopy
    cases hcopy
  | some user =>
    rw [huser] at hcopy
    cases hcopy
    refine ⟨r.accountOf user, RBAC.account_of_lookup huser, rfl, ?_⟩
    intro repoID
    rw [GoMap.lookup_copy]
    unfold RBAC.accountOf
    dsimp only
    cases user.repoPerms.lookup repoID <;> rfl

variable {revocation : Revocation}

theorem not_held_of_gone (hgone : revocation.Gone (r.account revocation.userID)) :
    ¬ revocation.Held r := by
  cases revocation with
  | role userID roleName =>
    rintro ⟨order, copy, hcopy, hmem⟩
    obtain ⟨account, haccount, hroles, -⟩ := getUser_account hcopy
    apply hgone account haccount
    change roleName ∈ account.roles
    rw [hroles]
    exact hmem
  | grant userID repoID permission =>
    rintro ⟨order, copy, permissions, hcopy, hlookup, hmem⟩
    obtain ⟨account, haccount, -, hgrants⟩ := getUser_account hcopy
    apply hgone account haccount
    change permission ∈ account.grants repoID
    rw [hgrants, hlookup]
    exact hmem

variable {account : Option Account}

theorem gone_change {r : RBAC} {revocation : Revocation} (hdistinct : AllDistinct account) :
    revocation.Gone (revocation.call.change r account) := by
  intro held hheld
  cases revocation with
  | role userID roleName =>
    obtain ⟨before, hbefore, rfl⟩ := Option.map_eq_some_iff.mp hheld
    exact (hdistinct before hbefore).roles.not_mem_erase
  | grant userID repoID permission =>
    obtain ⟨before, hbefore, rfl⟩ := Option.map_eq_some_iff.mp hheld
    change permission ∉ Function.update before.grants repoID
      ((before.grants repoID).erase permission) repoID
    rw [Function.update_self]
    exact ((hdistinct before hbefore).grants repoID).not_mem_erase

theorem Gone.map (h : revocation.Gone account) {f : Account → Account}
    (hf : ∀ held, revocation.HeldIn (f held) → revocation.HeldIn held) :
    revocation.Gone (account.map f) := by
  intro held hheld
  obtain ⟨before, hbefore, rfl⟩ := Option.map_eq_some_iff.mp hheld
  exact fun hafter => h before hbefore (hf before hafter)

theorem mem_addOnce {α : Type} [DecidableEq α] {value added : α}
    {values : List α} :
    value ∈ addOnce added values ↔ value ∈ values ∨ value = added := by
  unfold addOnce
  split_ifs with hmem
  · constructor
    · exact .inl
    · rintro (hold | rfl)
      · exact hold
      · exact hmem
  · rw [List.mem_append, List.mem_singleton]

theorem Gone.change {call : RbacCall}
    (htarget : call.target = some revocation.userID)
    (hkept : ¬ revocation.GivenBy r call) (h : revocation.Gone account) :
    revocation.Gone (call.change r account) := by
  cases call with
  | makeNames values room => exact h
  | createRole name permissions => exact h
  | createUser id username email roles =>
    intro held hheld
    rcases RBAC.eq_of_created hheld with hold | rfl
    · exact h held hold
    · cases revocation with
      | role userID roleName =>
        exact fun hmem => hkept ⟨Option.some.inj htarget, hmem⟩
      | grant userID repoID permission => exact List.not_mem_nil
  | grant room id repo given =>
    apply h.map
    intro held hafter
    cases revocation with
    | role userID roleName => exact hafter
    | grant userID repoID permission =>
      change permission ∈ Function.update held.grants repo
        (addOnce given (held.grants repo)) repoID at hafter
      by_cases hrepo : repoID = repo
      · rw [hrepo, Function.update_self, mem_addOnce] at hafter
        rw [hrepo]
        apply hafter.resolve_right
        exact fun hgiven =>
          hkept ⟨Option.some.inj htarget, hrepo.symm, hgiven.symm⟩
      · rw [Function.update_of_ne hrepo] at hafter
        exact hafter
  | revoke id repo taken =>
    apply h.map
    intro held hafter
    cases revocation with
    | role userID roleName => exact hafter
    | grant userID repoID permission =>
      change permission ∈ Function.update held.grants repo
        ((held.grants repo).erase taken) repoID at hafter
      by_cases hrepo : repoID = repo
      · rw [hrepo, Function.update_self] at hafter
        rw [hrepo]
        exact List.mem_of_mem_erase hafter
      · rw [Function.update_of_ne hrepo] at hafter
        exact hafter
  | assignRole room id name =>
    change revocation.Gone (r.assigned name account)
    unfold RBAC.assigned
    split_ifs with hrole
    · apply h.map
      intro held hafter
      cases revocation with
      | role userID roleName =>
        apply (mem_addOnce.mp hafter).resolve_right
        exact fun hname => hkept ⟨Option.some.inj htarget, hname.symm⟩
      | grant userID repoID permission => exact hafter
    · exact h
  | removeRole id name =>
    apply h.map
    intro held hafter
    cases revocation with
    | role userID roleName => exact List.mem_of_mem_erase hafter
    | grant userID repoID permission => exact hafter
  | _ =>
    apply h.map
    intro held hafter
    cases revocation <;> exact hafter

end Revocation

/-- What a run keeps: the slices lie in their arrays, the grants have arrays of
their own, and every list is without repetitions. -/
structure RBAC.Orderly (r : RBAC) : Prop where
  sound : r.Sound
  distinct : ∀ id, AllDistinct (r.account id)

/-- The condition on a call: the slice is a slice, it has every role once, and
no other user's slice shows what the call writes. -/
structure RbacCall.Careful (r : RBAC) (call : RbacCall) : Prop where
  real : call.Real r
  distinct : call.Distinct r
  unseen : call.Unseen r

theorem RBAC.orderly_new : RBAC.new.Orderly := by
  refine ⟨RBAC.sound_new, ?_⟩
  intro id held hheld
  cases hheld

theorem RBAC.Orderly.perform {r : RBAC} (h : r.Orderly) {call : RbacCall}
    (hcareful : call.Careful r) : (r.perform call).Orderly := by
  refine ⟨h.sound.perform call hcareful.real, ?_⟩
  intro id
  rw [RBAC.account_perform h.sound hcareful.real hcareful.unseen]
  split_ifs with htarget
  · exact (h.distinct id).change hcareful.distinct
  · exact h.distinct id

namespace Revocation

variable {r : RBAC} {revocation : Revocation}

theorem gone_after_call (h : r.Orderly) (hcareful : revocation.call.Careful r) :
    revocation.Gone ((r.perform revocation.call).account revocation.userID) := by
  rw [RBAC.account_perform h.sound hcareful.real hcareful.unseen, if_pos revocation.target_call]
  exact gone_change (h.distinct revocation.userID)

theorem Gone.perform (h : r.Orderly) {call : RbacCall}
    (hcareful : call.Careful r) (hkept : ¬ revocation.GivenBy r call)
    (hgone : revocation.Gone (r.account revocation.userID)) :
    revocation.Gone ((r.perform call).account revocation.userID) := by
  rw [RBAC.account_perform h.sound hcareful.real hcareful.unseen]
  split_ifs with htarget
  · exact hgone.change htarget hkept
  · exact hgone

end Revocation

/-- In a run of careful calls, what was revoked is not held again before it is
given again. -/
theorem revocation_takes_effect (revocation : Revocation) {before after : List RbacCall}
    (hcareful : Runs.Admits RBAC.perform (fun r call => call.Careful r) .new
      (before ++ revocation.call :: after))
    (hkept : Runs.Admits RBAC.perform (fun r call => ¬ revocation.GivenBy r call)
      ((before.foldl RBAC.perform .new).perform revocation.call) after) :
    ¬ revocation.Held ((before ++ revocation.call :: after).foldl RBAC.perform .new) := by
  obtain ⟨hbefore, hcall, hafter⟩ := (Runs.admits_append _ _ _).mp hcareful
  have horderly : (before.foldl RBAC.perform .new).Orderly :=
    hbefore.invariant (fun _ _ h hmet => h.perform hmet) RBAC.orderly_new
  have hend := Runs.Admits.invariant
    (I := fun r => r.Orderly ∧
      revocation.Gone (r.account revocation.userID))
    (fun _ _ h hmet => ⟨h.1.perform hmet.1, h.2.perform h.1 hmet.1 hmet.2⟩)
    (hafter.and hkept)
    ⟨horderly.perform hcall, Revocation.gone_after_call horderly hcall⟩
  rw [List.foldl_append, List.foldl_cons]
  exact Revocation.not_held_of_gone hend.2

def hired : List RbacCall :=
  [.makeNames [str "developer", str "reader"] 0, .createUser (str "u") [] [] ⟨0, 0, 2, 2⟩]

/-- A developer and reader stops being a developer and becomes a guest. -/
theorem revocation_takes_effect_developer :
    ¬ (Revocation.role (str "u") (str "developer")).Held
      ((hired ++ (Revocation.role (str "u") (str "developer")).call ::
        [.assignRole 1 (str "u") (str "guest")]).foldl RBAC.perform .new) := by
  apply revocation_takes_effect
  · refine ⟨⟨trivial, trivial, ?_⟩, ⟨?_, ?distinct, ?_⟩,
      ⟨trivial, trivial, ?_⟩, ⟨trivial, trivial, ?_⟩, trivial⟩
    case distinct =>
      change (Slice.read _ _).Nodup
      decide +kernel
    all_goals decide +kernel
  · refine ⟨?_, trivial⟩
    rintro ⟨-, hname⟩
    revert hname
    decide

def hiredTwice : List RbacCall :=
  [.makeNames [str "reader", str "reader"] 0, .createUser (str "u") [] [] ⟨0, 0, 2, 2⟩]

/-- A user that was created with a role twice still has it. -/
theorem removed_role_still_held :
    (Revocation.role (str "u") (str "reader")).Held
      ((hiredTwice ++ [(Revocation.role (str "u") (str "reader")).call]).foldl
        RBAC.perform .new) := by
  refine ⟨.inserted, _, rfl, ?_⟩
  decide +kernel

end Govc
