import Govc.ObjectModel
import Govc.Rbac

/-!
# API keys

A key is kept under the digest of its text, with the permissions it was
generated with; neither these nor its repository permissions are compared with
what the owner may do.  Times are in nanoseconds.  When a key was last used is
written but never read, and names and creation times are only shown.
-/

namespace Govc

open Go

structure APIKey where
  id : GoString
  userID : GoString
  permissions : List Permission
  repoPerms : GoMap GoString (List Permission)
  active : Bool
  expiresAt : Option ℤ

structure Access where
  rbac : RBAC
  keys : GoMap GoString APIKey

def APIKey.expired (now : ℤ) (key : APIKey) : Bool :=
  match key.expiresAt with
  | some expiresAt => decide (now > expiresAt)
  | none => false

def APIKey.grants (key : APIKey) (repoID : GoString) (permission : Permission) : Bool :=
  repoPermits (key.repoPerms.lookup repoID) permission

namespace Access

def hashedKey (host : Host) (keyString : GoString) : GoString := hexEncode (host.sha256 keyString)

/-- `keyBytes` is what reading random bytes gives, `idBytes` the random bytes
of the id. -/
def generateAPIKey (host : Host) (userID : GoString) (permissions : List Permission)
    (repoPerms : GoMap GoString (List Permission)) (expiresAt : Option ℤ)
    (keyBytes : Except GoString Bytes) (idBytes : Bytes) :
    GoM Access (GoString × APIKey) := do
  let _ ← GoM.mapError (fun e => str "user not found: " ++ e)
    (GoM.query fun a => a.rbac.getUser .inserted userID)
  let keyBytes ← GoM.mapError
    (fun e => str "failed to generate random key: " ++ e)
    (GoM.ofExcept keyBytes)
  let keyString := str "govc_" ++ base64URLEncode keyBytes
  let key : APIKey :=
    { id := hexEncode idBytes
      userID := userID
      permissions := permissions
      repoPerms := repoPerms
      active := true
      expiresAt := expiresAt }
  GoM.update fun a =>
    { a with keys := a.keys.insert (hashedKey host keyString) key }
  pure (keyString, key)

def validateAPIKey (host : Host) (now : ℤ) (keyString : GoString)
    (a : Access) : Except GoString APIKey :=
  if hasPrefix keyString (str "govc_") then
    match a.keys.lookup (hashedKey host keyString) with
    | none => .error (str "API key not found")
    | some key =>
      if key.active then
        if key.expired now then .error (str "API key has expired")
        else .ok key
      else .error (str "API key is deactivated")
  else .error (str "invalid API key format")

def onKey (order : RangeOrder) (keyID : GoString)
    (change : GoString → APIKey → GoMap GoString APIKey →
      GoMap GoString APIKey) : GoM Access Unit := fun a =>
  match (a.keys.range order).find? fun entry => decide (entry.2.id = keyID) with
  | some (hashed, key) => (.ok (), { a with keys := change hashed key a.keys })
  | none => (.error (str "API key not found"), a)

def revokeAPIKey (order : RangeOrder) (keyID : GoString) : GoM Access Unit :=
  onKey order keyID fun hashed key keys =>
    keys.insert hashed { key with active := false }

def deleteAPIKey (order : RangeOrder) (keyID : GoString) : GoM Access Unit :=
  onKey order keyID fun hashed _ keys => keys.erase hashed

def updateAPIKeyPermissions (order : RangeOrder) (keyID : GoString) (permissions : List Permission)
    (repoPerms : GoMap GoString (List Permission)) : GoM Access Unit :=
  onKey order keyID fun hashed key keys =>
    keys.insert hashed { key with permissions := permissions, repoPerms := repoPerms }

def cleanupExpiredKeys (order : RangeOrder) (now : ℤ) : GoM Access ℕ := fun a =>
    let expired := (a.keys.range order).filter fun entry =>
      entry.2.expired now
    (.ok expired.length,
      { a with
        keys := expired.foldl (fun keys entry => keys.erase entry.1) a.keys })

end Access

end Govc
