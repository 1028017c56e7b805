import Govc.GuardedRuns
import Govc.Rbac

/-!
# Runs of the role manager

A user's slice of roles may view an array that another user's slice views too,
and `AssignRole` and `RemoveRole` write into the array.  Where no other user's
slice shows a cell that a call writes, the call changes no other account.

An account is a user without slices: the lists that its slices show.
-/

namespace Govc

open Go Slice

inductive RbacCall where
  | makeNames (values : List GoString) (room : ℕ)
  | createRole (name : GoString) (permissions : List Permission)
  | createUser (id username email : GoString) (roles : Slice)
  | grant (room : ℕ) (userID repoID : GoString) (permission : Permission)
  | revoke (userID repoID : GoString) (permission : Permission)
  | assignRole (room : ℕ) (userID roleName : GoString)
  | removeRole (userID roleName : GoString)
  | deactivateUser (userID : GoString)
  | activateUser (userID : GoString)

def RbacCall.target : RbacCall → Option GoString
  | .makeNames .. => none
  | .createRole .. => none
  | .createUser id .. => some id
  | .grant _ userID .. => some userID
  | .revoke userID .. => some userID
  | .assignRole _ userID _ => some userID
  | .removeRole userID _ => some userID
  | .deactivateUser userID => some userID
  | .activateUser userID => some userID

namespace RBAC

def perform (r : RBAC) : RbacCall → RBAC
  | .makeNames values room =>
    { r with names := (alloc values room r.names).2 }
  | .createRole name permissions => (createRole name permissions r).2
  | .createUser id username email roles =>
    (createUser id username email roles r).2
  | .grant room userID repoID permission =>
    (grantRepositoryPermission room userID repoID permission r).2
  | .revoke userID repoID permission =>
    (revokeRepositoryPermission userID repoID permission r).2
  | .assignRole room userID roleName => (assignRole room userID roleName r).2
  | .removeRole userID roleName => (removeRole userID roleName r).2
  | .deactivateUser userID => (deactivateUser userID r).2
  | .activateUser userID => (activateUser userID r).2

/-! ## What the calls do -/

def put (r : RBAC) (id : GoString) (user : User) (names : Arrays GoString)
    (grants : Arrays Permission) : RBAC :=
  { r with users := r.users.insert id user, names := names, grants := grants }

def grantSlice (r : RBAC) (key : GoString × GoString) : Option Slice :=
  (r.users.lookup key.1).bind fun user => user.repoPerms.lookup key.2

theorem createUser_cases {r : RBAC} {id username email : GoString} {roles : Slice} :
    (createUser id username email roles r).2 = r ∧
        (r.users.lookup id ≠ none ∨ ¬ ∀ name ∈ roles.read r.names, r.roles.contains name = true) ∨
      r.users.lookup id = none ∧ (∀ name ∈ roles.read r.names, r.roles.contains name = true) ∧
        (createUser id username email roles r).2 =
          r.put id ⟨username, email, roles, [], ∅, true⟩ r.names r.grants := by
  unfold createUser
  split_ifs with hexists
  · refine .inl ⟨rfl, .inl ?_⟩
    intro hnone
    rw [GoMap.contains, hnone] at hexists
    cases hexists
  · cases hfind : (roles.read r.names).find? fun name =>
        !r.roles.contains name with
    | some roleName =>
      refine .inl ⟨rfl, .inr fun hall => ?_⟩
      have hmissing := List.find?_some hfind
      rw [hall roleName (List.mem_of_find?_eq_some hfind)] at hmissing
      cases hmissing
    | none =>
      refine .inr ⟨?_, ?_, rfl⟩
      · simpa [GoMap.contains] using hexists
      · intro name hname
        simpa using List.find?_eq_none.mp hfind name hname

theorem assignRole_cases {r : RBAC} {id roleName : GoString} :
    (assignRole room id roleName r).2 = r ∧
        (∀ user, r.users.lookup id = some user → r.roles.contains roleName = true →
          roleName ∈ user.roles.read r.names) ∨
      ∃ user, r.users.lookup id = some user ∧ r.roles.contains roleName = true ∧
        roleName ∉ user.roles.read r.names ∧
        (assignRole room id roleName r).2 =
          r.put id { user with roles := (user.roles.append roleName room r.names).1 }
            (user.roles.append roleName room r.names).2 r.grants := by
  unfold assignRole onUser
  cases huser : r.users.lookup id with
  | none => exact .inl ⟨rfl, fun _ hnone => by cases hnone⟩
  | some user =>
    dsimp only
    split_ifs with hrole hheld
    · refine .inl ⟨rfl, ?_⟩
      rintro _ ⟨⟩ -
      exact hheld
    · exact .inr ⟨user, rfl, hrole, hheld, rfl⟩
    · exact .inl ⟨rfl, fun _ _ hexists => absurd hexists hrole⟩

theorem removeRole_cases {r : RBAC} {id roleName : GoString} :
    (removeRole id roleName r).2 = r ∧
        (∀ user, r.users.lookup id = some user → roleName ∉ user.roles.read r.names) ∨
      ∃ user i, r.users.lookup id = some user ∧ (user.roles.read r.names).idxOf? roleName = some i ∧
        (removeRole id roleName r).2 =
          r.put id { user with roles := (user.roles.removeAt i r.names).1 }
            (user.roles.removeAt i r.names).2 r.grants := by
  unfold removeRole onUser
  cases huser : r.users.lookup id with
  | none => exact .inl ⟨rfl, fun _ hnone => by cases hnone⟩
  | some user =>
    dsimp only
    cases hidx : (user.roles.read r.names).idxOf? roleName with
    | none =>
      refine .inl ⟨rfl, ?_⟩
      rintro _ ⟨⟩
      exact List.idxOf?_eq_none_iff.mp hidx
    | some i => exact .inr ⟨user, i, rfl, hidx, rfl⟩

theorem grant_cases {r : RBAC} {id repoID : GoString} :
    (grantRepositoryPermission room id repoID permission r).2 = r ∧
        (∀ user, r.users.lookup id = some user →
          permission ∈ ((user.repoPerms.lookup repoID).getD .empty).read r.grants) ∨
      ∃ user, r.users.lookup id = some user ∧
        permission ∉ ((user.repoPerms.lookup repoID).getD .empty).read r.grants ∧
        (grantRepositoryPermission room id repoID permission r).2 =
          r.put id
            { user with
              repoPerms := user.repoPerms.insert repoID
                (((user.repoPerms.lookup repoID).getD .empty).append permission room r.grants).1 }
            r.names
            (((user.repoPerms.lookup repoID).getD .empty).append permission room r.grants).2 := by
  unfold grantRepositoryPermission onUser
  cases huser : r.users.lookup id with
  | none => exact .inl ⟨rfl, fun _ hnone => by cases hnone⟩
  | some user =>
    dsimp only
    split_ifs with hheld
    · refine .inl ⟨rfl, ?_⟩
      rintro _ ⟨⟩
      exact hheld
    · exact .inr ⟨user, rfl, hheld, rfl⟩

def kept (repoPerms : GoMap GoString Slice) (repoID : GoString) : GoMap GoString Slice :=
  if ((repoPerms.lookup repoID).getD .empty).length = 0 then
    repoPerms.erase repoID
  else repoPerms

theorem revoke_cases {r : RBAC} {id repoID : GoString} :
    r.users.lookup id = none ∧ (revokeRepositoryPermission id repoID permission r).2 = r ∨
      (∃ user, r.users.lookup id = some user ∧
        permission ∉ ((user.repoPerms.lookup repoID).getD .empty).read r.grants ∧
        (revokeRepositoryPermission id repoID permission r).2 =
          r.put id { user with repoPerms := kept user.repoPerms repoID }
            r.names r.grants) ∨
      ∃ user s i, r.users.lookup id = some user ∧ user.repoPerms.lookup repoID = some s ∧
        (s.read r.grants).idxOf? permission = some i ∧
        (revokeRepositoryPermission id repoID permission r).2 =
          r.put id
            { user with
              repoPerms := kept (user.repoPerms.insert repoID (s.removeAt i r.grants).1) repoID }
            r.names (s.removeAt i r.grants).2 := by
  unfold revokeRepositoryPermission onUser
  cases huser : r.users.lookup id with
  | none => exact .inl ⟨rfl, rfl⟩
  | some user =>
    right
    dsimp only
    cases hidx : (((user.repoPerms.lookup repoID).getD .empty).read r.grants).idxOf? permission with
    | none =>
      exact .inl ⟨user, rfl, List.idxOf?_eq_none_iff.mp hidx, rfl⟩
    | some i =>
      cases hslice : user.repoPerms.lookup repoID with
      | none =>
        rw [hslice] at hidx
        cases hidx
      | some s =>
        rw [hslice] at hidx
        exact .inr ⟨user, s, i, rfl, hslice, hidx, rfl⟩

theorem setActive_cases {r : RBAC} {id : GoString} :
    r.users.lookup id = none ∧ (setActive active id r).2 = r ∨
      ∃ user, r.users.lookup id = some user ∧
        (setActive active id r).2 = r.put id { user with active := active } r.names r.grants := by
  unfold setActive onUser
  cases huser : r.users.lookup id with
  | none => exact .inl ⟨rfl, rfl⟩
  | some user => exact .inr ⟨user, rfl, rfl⟩

section

variable {r : RBAC} {id : GoString} {user : User} {names : Arrays GoString}
  {grants : Arrays Permission}

theorem lookup_put (other : GoString) :
    (r.put id user names grants).users.lookup other =
      if other = id then some user else r.users.lookup other :=
  GoMap.lookup_insert_eq _ _ _ _

theorem grantSlice_put {key : GoString × GoString} :
    (r.put id user names grants).grantSlice key =
      if key.1 = id then user.repoPerms.lookup key.2
      else r.grantSlice key := by
  unfold grantSlice
  rw [lookup_put]
  split_ifs <;> rfl

theorem grantSlice_of_lookup (huser : r.users.lookup id = some user) (repoID : GoString) :
    r.grantSlice (id, repoID) = user.repoPerms.lookup repoID := by
  unfold grantSlice
  rw [huser, Option.bind_some]

theorem grantSlice_put_entry (hbefore : r.users.lookup id = some before)
    (hentry : ∀ other, user.repoPerms.lookup other =
      if other = repoID then entry else before.repoPerms.lookup other) :
    (r.put id user names grants).grantSlice = Function.update r.grantSlice (id, repoID) entry := by
  funext key
  obtain ⟨owner, repo⟩ := key
  rw [grantSlice_put, Function.update_apply]
  by_cases howner : owner = id
  · rw [if_pos howner, hentry, howner, grantSlice_of_lookup hbefore]
    simp only [Prod.mk.injEq, true_and]
  · simp only [Prod.mk.injEq, howner, if_false, false_and]

theorem lookup_kept {repoPerms : GoMap GoString Slice} (other : GoString) :
    (kept repoPerms repoID).lookup other =
      if other = repoID then
        (repoPerms.lookup repoID).filter fun s => decide (s.length ≠ 0)
      else repoPerms.lookup other := by
  unfold kept
  by_cases hsame : other = repoID
  · rw [if_pos hsame, hsame]
    cases hslice : repoPerms.lookup repoID with
    | none =>
      rw [Option.getD_none, if_pos (show empty.length = 0 from rfl), AList.lookup_erase]
      rfl
    | some s =>
      rw [Option.getD_some, Option.filter_some]
      split_ifs with hempty hfull hfull
      · simp [hempty] at hfull
      · exact AList.lookup_erase _ _
      · exact hslice
      · simp [hempty] at hfull
  · split_ifs with hempty
    · exact AList.lookup_erase_ne hsame
    · rfl

theorem lookup_kept_insert {repoPerms : GoMap GoString Slice}
    {s : Slice} :
    (kept (repoPerms.insert repoID s) repoID).lookup other =
      if other = repoID then
        (some s).filter fun s => decide (s.length ≠ 0)
      else repoPerms.lookup other := by
  rw [lookup_kept, AList.lookup_insert]
  split_ifs with hsame
  · rfl
  · exact AList.lookup_insert_ne hsame

end

/-! ## Arrays of its own for every grant -/

/-- Every user's slices lie in their arrays, and no two slices of permissions
view the same array. -/
structure Sound (r : RBAC) : Prop where
  roles_valid : ∀ id user, r.users.lookup id = some user → user.roles.Valid r.names
  grants_owned : Slice.Owned r.grants r.grantSlice

theorem sound_new : new.Sound := by
  refine ⟨?_, ?_, ?_, ?_⟩
  · rintro id user ⟨⟩
  · rintro key s ⟨⟩
  · rintro key s ⟨⟩
  · rintro key other s t ⟨⟩

end RBAC

/-- The slice that a user is created with is one of the caller's. -/
def RbacCall.Real (r : RBAC) : RbacCall → Prop
  | .createUser _ _ _ roles => roles.Valid r.names
  | _ => True

instance decidableReal (r : RBAC) : (call : RbacCall) → Decidable (call.Real r)
  | .createUser _ _ _ roles => inferInstanceAs (Decidable (roles.Valid r.names))
  | .makeNames .. => isTrue trivial
  | .createRole .. => isTrue trivial
  | .grant .. => isTrue trivial
  | .revoke .. => isTrue trivial
  | .assignRole .. => isTrue trivial
  | .removeRole .. => isTrue trivial
  | .deactivateUser _ => isTrue trivial
  | .activateUser _ => isTrue trivial

/-! ## What another user sees -/

def User.cellsAppended (user : User) : List (ℕ × ℕ) :=
  if user.roles.length < user.roles.capacity then
    [(user.roles.array, user.roles.offset + user.roles.length)]
  else []

def User.cellsMoved (user : User) (i : ℕ) : List (ℕ × ℕ) :=
  (List.range' (user.roles.offset + i) (user.roles.length - 1 - i)).map
    fun index => (user.roles.array, index)

def RbacCall.writes (r : RBAC) : RbacCall → List (ℕ × ℕ)
  | .assignRole _ userID roleName =>
    ((r.users.lookup userID).filter fun user =>
      r.roles.contains roleName && decide (roleName ∉ user.roles.read r.names)).elim []
      User.cellsAppended
  | .removeRole userID roleName =>
    ((r.users.lookup userID).bind fun user =>
      ((user.roles.read r.names).idxOf? roleName).map user.cellsMoved).getD []
  | _ => []

/-- No other user's slice of roles shows a cell that the call writes. -/
def RbacCall.Unseen (r : RBAC) (call : RbacCall) : Prop :=
  ∀ cell ∈ call.writes r, ∀ entry ∈ r.users.entries,
    call.target ≠ some entry.1 → ¬ entry.2.roles.Shows cell.1 cell.2

instance decidableUnseen (r : RBAC) (call : RbacCall) :
    Decidable (call.Unseen r) :=
  inferInstanceAs (Decidable (∀ cell ∈ call.writes r, ∀ entry ∈ _, _ → ¬ _))

namespace RBAC

variable {r : RBAC} {id : GoString} {user : User} {unseen : Prop}

structure SameUser (r after : RBAC) (id : GoString) : Prop where
  record : after.users.lookup id = r.users.lookup id
  roles : ∀ user, r.users.lookup id = some user →
    user.roles.read after.names = user.roles.read r.names
  grants : ∀ repoID s, r.grantSlice (id, repoID) = some s → s.read after.grants = s.read r.grants

/-- A new record for one user, with arrays in which every slice is still there
and, if the written cells are unseen, all other users read the same. -/
structure Updates (r : RBAC) (unseen : Prop) (id : GoString) (user : User)
    (names : Arrays GoString) (grants : Arrays Permission) : Prop where
  keeps : Slice.Keeps r.names names
  valid : user.roles.Valid names
  owned : Slice.Owned grants (r.put id user names grants).grantSlice
  roles : unseen → ∀ other found, other ≠ id → r.users.lookup other = some found →
    found.roles.read names = found.roles.read r.names
  grants : ∀ other repoID s, other ≠ id → r.grantSlice (other, repoID) = some s →
    s.read grants = s.read r.grants

/-- What a call about a user leaves. -/
def Leaves (r : RBAC) (unseen : Prop) (id : GoString) (after : RBAC) : Prop :=
  after = r ∨ ∃ user names grants,
    after = r.put id user names grants ∧ Updates r unseen id user names grants

theorem Leaves.sound {after : RBAC} (hleaves : r.Leaves unseen id after)
    (h : r.Sound) : after.Sound := by
  rcases hleaves with rfl | ⟨user, names, grants, rfl, hupdates⟩
  · exact h
  · refine ⟨fun other found hfound => ?_, hupdates.owned⟩
    rw [lookup_put] at hfound
    split_ifs at hfound with hsame
    · cases hfound
      exact hupdates.valid
    · exact (h.roles_valid other found hfound).keeps hupdates.keeps

theorem Leaves.sameUser (hleaves : r.Leaves unseen id after)
    (hunseen : unseen) (hother : other ≠ id) : SameUser r after other := by
  rcases hleaves with rfl | ⟨user, names, grants, rfl, hupdates⟩
  · exact ⟨rfl, fun _ _ => rfl, fun _ _ _ => rfl⟩
  · refine ⟨?_, fun found => hupdates.roles hunseen other found hother,
      fun repoID s => hupdates.grants other repoID s hother⟩
    rw [lookup_put, if_neg hother]

theorem Updates.of_roles (h : r.Sound) {names : Arrays GoString}
    (hperms : ∀ repoID, user.repoPerms.lookup repoID = r.grantSlice (id, repoID))
    (hkeeps : Slice.Keeps r.names names) (hvalid : user.roles.Valid names)
    (hroles : unseen → ∀ other found, other ≠ id → r.users.lookup other = some found →
      found.roles.read names = found.roles.read r.names) :
    Updates r unseen id user names r.grants := by
  refine ⟨hkeeps, hvalid, ?_, hroles, fun _ _ _ _ _ => rfl⟩
  have htable : (r.put id user names r.grants).grantSlice = r.grantSlice := by
    funext key
    rw [grantSlice_put]
    split_ifs with howner
    · rw [hperms, ← howner]
    · rfl
  rw [htable]
  exact h.grants_owned

theorem Updates.of_grants (h : r.Sound) (huser : r.users.lookup id = some user)
    {after : User} {grants : Arrays Permission} {repoID : GoString} {entry : Option Slice}
    (hroles : after.roles = user.roles)
    (hentry : ∀ other, after.repoPerms.lookup other =
      if other = repoID then entry else user.repoPerms.lookup other)
    (howned : Slice.Owned grants (Function.update r.grantSlice (id, repoID) entry))
    (hread : ∀ key s, key ≠ (id, repoID) → r.grantSlice key = some s →
      s.read grants = s.read r.grants) :
    Updates r unseen id after r.names grants := by
  refine ⟨keeps_refl _, ?_, ?_, fun _ _ _ _ _ => rfl, fun other repo s hother => ?_⟩
  · rw [hroles]
    exact h.roles_valid id user huser
  · rw [grantSlice_put_entry huser hentry]
    exact howned
  · exact hread (other, repo) s fun hsame => hother (congrArg Prod.fst hsame)

theorem leaves_createUser (h : r.Sound) {roles : Slice} (hreal : roles.Valid r.names)
    {id username email : GoString} : r.Leaves unseen id (createUser id username email roles r).2 := by
  rcases createUser_cases with ⟨hsame, -⟩ | ⟨hnew, -, hput⟩
  · exact .inl hsame
  · refine .inr ⟨_, _, _, hput, .of_roles h (fun repoID => ?_) (keeps_refl _) hreal
      fun _ _ _ _ _ => rfl⟩
    rw [grantSlice, hnew]
    rfl

theorem unseen_of_writes {call : RbacCall} (htarget : call.target = some id)
    (hunseen : call.Unseen r) {cell : ℕ × ℕ} (hcell : cell ∈ call.writes r)
    (hother : other ≠ id) (hfound : r.users.lookup other = some found) :
    ¬ found.roles.Shows cell.1 cell.2 := by
  apply hunseen cell hcell ⟨other, found⟩ (AList.mem_lookup_iff.mp hfound)
  rw [htarget]
  exact fun hsame => hother (Option.some.inj hsame).symm

theorem leaves_assignRole (h : r.Sound) {id roleName : GoString} :
    r.Leaves ((RbacCall.assignRole room id roleName).Unseen r) id
      (assignRole room id roleName r).2 := by
  rcases assignRole_cases with
    ⟨hsame, -⟩ | ⟨user, huser, hrole, hnew, hput⟩
  · exact .inl hsame
  · refine .inr ⟨_, _, _, hput, .of_roles h (fun repoID => (grantSlice_of_lookup huser repoID).symm)
      (keeps_append _ _ _) ((h.roles_valid id user huser).append roleName room) ?_⟩
    intro hunseen other found hother hfound
    apply read_append_of_unseen (h.roles_valid other found hfound)
    intro hspare
    have hwrites : (user.roles.array, user.roles.offset + user.roles.length) ∈
        (RbacCall.assignRole room id roleName).writes r := by
      simp [RbacCall.writes, User.cellsAppended, Option.filter_some, huser, hrole, hnew, hspare]
    exact unseen_of_writes rfl hunseen hwrites hother hfound

theorem leaves_removeRole (h : r.Sound) {id roleName : GoString} :
    r.Leaves ((RbacCall.removeRole id roleName).Unseen r) id (removeRole id roleName r).2 := by
  rcases removeRole_cases with ⟨hsame, -⟩ | ⟨user, i, huser, hidx, hput⟩
  · exact .inl hsame
  · have hvalid := h.roles_valid id user huser
    have hi := hvalid.lt_of_idxOf hidx
    refine .inr ⟨_, _, _, hput, .of_roles h (fun repoID => (grantSlice_of_lookup huser repoID).symm)
      (hvalid.keeps_removeAt hi) (hvalid.removeAt hi) ?_⟩
    intro hunseen other found hother hfound
    apply read_removeAt_of_unseen hvalid hi
    intro index hlow hhigh
    have hwrites : (user.roles.array, index) ∈ (RbacCall.removeRole id roleName).writes r := by
      simp only [RbacCall.writes, User.cellsMoved, huser, hidx,
        Option.bind_some, Option.map_some, Option.getD_some]
      exact List.mem_map.mpr ⟨index, List.mem_range'_1.mpr (by omega), rfl⟩
    exact unseen_of_writes rfl hunseen hwrites hother hfound

theorem leaves_grant (h : r.Sound) {room : ℕ} {id repoID : GoString} {permission : Permission} :
    r.Leaves unseen id (grantRepositoryPermission room id repoID permission r).2 := by
  rcases grant_cases with ⟨hsame, -⟩ | ⟨user, huser, -, hput⟩
  · exact .inl hsame
  · rw [← grantSlice_of_lookup huser] at hput
    refine .inr ⟨_, _, _, hput, .of_grants h huser rfl
      (fun other => GoMap.lookup_insert_eq _ _ other _)
      (h.grants_owned.append (id, repoID) permission room) ?_⟩
    intro key s hkey hs
    exact h.grants_owned.read_append hkey hs

theorem leaves_revoke (h : r.Sound) {id repoID : GoString} {permission : Permission} :
    r.Leaves unseen id (revokeRepositoryPermission id repoID permission r).2 := by
  rcases revoke_cases with
    ⟨-, hsame⟩ | ⟨user, huser, -, hput⟩ | ⟨user, s, i, huser, hs, hidx, hput⟩
  · exact .inl hsame
  · have howned := h.grants_owned.filter (id, repoID) fun s => decide (s.length ≠ 0)
    rw [grantSlice_of_lookup huser] at howned
    exact .inr ⟨_, _, _, hput, .of_grants h huser rfl (lookup_kept) howned
      fun _ _ _ _ => rfl⟩
  · rw [← grantSlice_of_lookup huser] at hs
    have hi := (h.grants_owned.valid _ s hs).lt_of_idxOf hidx
    have howned := (h.grants_owned.removeAt hs hi).filter (id, repoID)
      fun s => decide (s.length ≠ 0)
    rw [Function.update_self, Function.update_idem] at howned
    refine .inr ⟨_, _, _, hput, .of_grants h huser rfl
      (fun other => lookup_kept_insert) howned ?_⟩
    intro key t hkey ht
    exact h.grants_owned.read_removeAt hkey hs ht hi

theorem leaves_setActive (h : r.Sound) {id : GoString} :
    r.Leaves unseen id (setActive active id r).2 := by
  rcases setActive_cases with ⟨-, hsame⟩ | ⟨user, huser, hput⟩
  · exact .inl hsame
  · exact .inr ⟨_, _, _, hput, .of_roles h (fun repoID => (grantSlice_of_lookup huser repoID).symm)
      (keeps_refl _) (h.roles_valid id user huser) fun _ _ _ _ _ => rfl⟩

theorem leaves_perform (h : r.Sound) {call : RbacCall} (hreal : call.Real r)
    (htarget : call.target = some id) : r.Leaves (call.Unseen r) id (r.perform call) := by
  cases call with
  | makeNames values room => cases htarget
  | createRole name permissions => cases htarget
  | createUser id username email roles =>
    cases htarget
    exact leaves_createUser h hreal
  | grant room id repoID permission =>
    cases htarget
    exact leaves_grant h
  | revoke id repoID permission =>
    cases htarget
    exact leaves_revoke h
  | assignRole room id roleName =>
    cases htarget
    exact leaves_assignRole h
  | removeRole id roleName =>
    cases htarget
    exact leaves_removeRole h
  | deactivateUser id =>
    cases htarget
    exact leaves_setActive h
  | activateUser id =>
    cases htarget
    exact leaves_setActive h

theorem createRole_cases :
    ∃ roles, (createRole name permissions r).2 = { r with roles := roles } := by
  unfold createRole
  split_ifs with hexists
  · exact ⟨r.roles, rfl⟩
  · exact ⟨_, rfl⟩

theorem Sound.perform (h : r.Sound) (call : RbacCall) (hreal : call.Real r) :
    (r.perform call).Sound := by
  cases htarget : call.target with
  | some id => exact (leaves_perform h hreal htarget).sound h
  | none =>
    cases call with
    | makeNames values room =>
      refine ⟨?_, h.grants_owned⟩
      intro id user huser
      exact (h.roles_valid id user huser).keeps (keeps_alloc)
    | createRole name permissions =>
      obtain ⟨roles, hroles⟩ := createRole_cases
      rw [RBAC.perform, hroles]
      exact ⟨h.roles_valid, h.grants_owned⟩
    | _ => cases htarget

theorem sameUser_perform (h : r.Sound) {call : RbacCall} (hreal : call.Real r)
    (hunseen : call.Unseen r) (hother : call.target ≠ some other) :
    SameUser r (r.perform call) other := by
  cases htarget : call.target with
  | some id =>
    refine (leaves_perform h hreal htarget).sameUser hunseen ?_
    rintro rfl
    exact hother htarget
  | none =>
    cases call with
    | makeNames values room =>
      refine ⟨rfl, ?_, fun _ _ _ => rfl⟩
      intro user huser
      exact read_alloc_of_valid (h.roles_valid other user huser)
    | createRole name permissions =>
      obtain ⟨roles, hroles⟩ := createRole_cases
      rw [perform, hroles]
      exact ⟨rfl, fun _ _ => rfl, fun _ _ _ => rfl⟩
    | _ => cases htarget

theorem SameUser.getUser (h : SameUser r after id)
    (order : RangeOrder) : after.getUser order id = r.getUser order id := by
  unfold RBAC.getUser
  rw [h.record]
  cases huser : r.users.lookup id with
  | none => rfl
  | some user =>
    dsimp only
    rw [h.roles user huser]
    congr 2
    apply List.foldl_ext
    intro copied entry hentry
    have hslice : r.grantSlice (id, entry.1) = some entry.2 := by
      rw [grantSlice_of_lookup huser]
      exact (GoMap.mem_range order user.repoPerms _).mp hentry
    rw [h.grants entry.1 entry.2 hslice]

theorem SameUser.getUserPermissions (h : SameUser r after id)
    (hroles : after.roles = r.roles) (order : RangeOrder) :
    after.getUserPermissions order id = r.getUserPermissions order id := by
  unfold RBAC.getUserPermissions
  rw [h.record]
  cases huser : r.users.lookup id with
  | none => rfl
  | some user =>
    dsimp only
    unfold heldPermissions
    rw [h.roles user huser, hroles]

theorem SameUser.hasRepositoryPermission (h : SameUser r after id) (hroles : after.roles = r.roles)
    (order : RangeOrder) (repoID : GoString) (permission : Permission) :
    after.hasRepositoryPermission order id repoID permission =
      r.hasRepositoryPermission order id repoID permission := by
  unfold RBAC.hasRepositoryPermission hasPermission
  rw [h.record, h.getUserPermissions hroles]
  cases huser : r.users.lookup id with
  | none => rfl
  | some user =>
    dsimp only
    have hslice := grantSlice_of_lookup huser repoID
    cases hlookup : user.repoPerms.lookup repoID with
    | none => rfl
    | some s =>
      rw [hlookup] at hslice
      rw [Option.map_some, Option.map_some, h.grants repoID s hslice]

theorem roles_perform (htarget : call.target = some id) : (r.perform call).roles = r.roles := by
  cases call with
  | makeNames values room => cases htarget
  | createRole name permissions => cases htarget
  | _ =>
    simp only [perform, createUser, grantRepositoryPermission,
      revokeRepositoryPermission, assignRole, removeRole, deactivateUser,
      activateUser, setActive, onUser]
    repeat' split
    all_goals rfl

end RBAC

/-! ## Users do not interfere -/

def RbacCall.LeavesOthers (r : RBAC) (call : RbacCall) : Prop :=
  ∀ id other, call.target = some id → other ≠ id →
    ∀ (order : RangeOrder) (repoID : GoString) (permission : Permission),
      (r.perform call).getUser order other = r.getUser order other ∧
      (r.perform call).getUserPermissions order other = r.getUserPermissions order other ∧
      (r.perform call).hasRepositoryPermission order other repoID permission =
        r.hasRepositoryPermission order other repoID permission

theorem RBAC.Sound.leavesOthers {r : RBAC} (hsound : r.Sound) {call : RbacCall}
    (hreal : call.Real r) (hunseen : call.Unseen r) : call.LeavesOthers r := by
  intro id other htarget hother order repoID permission
  have hsame : RBAC.SameUser r (r.perform call) other := by
    apply RBAC.sameUser_perform hsound hreal hunseen
    rw [htarget]
    exact fun heq => hother (Option.some.inj heq).symm
  have hroles := RBAC.roles_perform (r := r) htarget
  exact ⟨hsame.getUser order, hsame.getUserPermissions hroles order,
    hsame.hasRepositoryPermission hroles order repoID permission⟩

/-- In a run in which no call writes a cell that another user's slice of roles
shows, no call for one user changes another. -/
theorem users_do_not_interfere {calls : List RbacCall}
    (hguard : Runs.Admits RBAC.perform (fun r call => call.Real r ∧ call.Unseen r) .new calls) :
    Runs.Admits RBAC.perform (fun r call => call.LeavesOthers r) .new calls :=
  hguard.steps (I := RBAC.Sound) (fun _ call hsound hmet => hsound.perform call hmet.1)
    (fun _ _ hsound hmet => hsound.leavesOthers hmet.1 hmet.2) RBAC.sound_new

def separateUsers : List RbacCall :=
  [.makeNames [str "developer", str "reader"] 0, .createUser (str "a") [] [] ⟨0, 0, 2, 2⟩,
    .makeNames [str "developer", str "reader"] 0,
    .createUser (str "b") [] [] ⟨1, 0, 2, 2⟩,
    .removeRole (str "a") (str "developer")]

theorem users_do_not_interfere_separate :
    Runs.Admits RBAC.perform (fun r call => call.LeavesOthers r) .new separateUsers := by
  apply users_do_not_interfere
  refine ⟨⟨trivial, ?_⟩, ⟨?_, ?_⟩, ⟨trivial, ?_⟩, ⟨?_, ?_⟩, ⟨trivial, ?_⟩, trivial⟩
  all_goals decide +kernel

def sharedSlice : List RbacCall :=
  [.makeNames [str "developer", str "reader"] 0, .createUser (str "a") [] [] ⟨0, 0, 2, 2⟩,
    .createUser (str "b") [] [] ⟨0, 0, 2, 2⟩]

/-- A role that is removed from one user is replaced in the other. -/
theorem removed_role_lost_by_other :
    ¬ Runs.Admits RBAC.perform (fun r call => call.LeavesOthers r) .new
      (sharedSlice ++ [.removeRole (str "a") (str "developer")]) := by
  rw [Runs.admits_append]
  rintro ⟨-, hleaves, -⟩
  have hsame := (hleaves (str "a") (str "b") rfl (by decide) .inserted [] []).2.1
  revert hsame
  decide +kernel

end Govc
