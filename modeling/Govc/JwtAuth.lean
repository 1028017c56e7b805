import Govc.GoEffects
import Govc.GoMaps
import Govc.GuardedRuns

/-!
# Tokens and the cache of validated tokens

A token that the library accepts is accepted from a cache for five minutes, even
if it expires meanwhile.  One call reads the clock several times, in
nanoseconds.  The library is only assumed to accept the correctly signed tokens
that have not expired.
-/

namespace Govc

open Go

structure Claims where
  userID : GoString
  username : GoString
  email : GoString
  permissions : List GoString
  issuer : GoString
  subject : GoString
  issuedAt : Option ℤ
  expiresAt : Option ℤ
  notBefore : Option ℤ
  deriving DecidableEq

def Claims.Unexpired (claims : Claims) (now : ℤ) : Prop :=
  ∀ expiresAt ∈ claims.expiresAt, now < expiresAt

instance (claims : Claims) (now : ℤ) : Decidable (claims.Unexpired now) :=
  inferInstanceAs (Decidable (∀ expiresAt ∈ claims.expiresAt, now < expiresAt))

/-- `sign` makes the text of a token; `verify` gives the claims of a correctly
signed one. -/
structure JwtLibrary where
  sign : GoString → Claims → Except GoString GoString
  verify : GoString → GoString → Except GoString Claims

def JwtLibrary.parse (lib : JwtLibrary) (secret : GoString) (now : ℤ)
    (token : GoString) : Except GoString Claims :=
  match lib.verify secret token with
  | .error e => .error e
  | .ok claims =>
    if claims.Unexpired now then .ok claims
    else .error (str "token has invalid claims: token is expired")

structure CachedToken where
  claims : Claims
  expiresAt : ℤ

structure JWTAuth where
  secret : GoString
  issuer : GoString
  ttl : ℤ
  tokenCache : GoMap GoString CachedToken
  cacheTTL : ℤ

structure Readings where
  lookup : ℤ
  parse : ℤ
  cached : ℤ
  cleanup : ℤ
  issue : ℤ
  parse_later : lookup ≤ parse

namespace JWTAuth

def second : ℤ := 1000000000

def minute : ℤ := 60 * second

def hour : ℤ := 60 * minute

/-- `randomSecret` is what is generated when there is no secret. -/
def new (secret issuer : GoString) (ttl : ℤ) (randomSecret : GoString) : JWTAuth where
  secret := if secret = [] then randomSecret else secret
  issuer := issuer
  ttl := if ttl = 0 then 24 * hour else ttl
  tokenCache := ∅
  cacheTTL := 5 * minute

def numericDate (time : ℤ) : ℤ := time - time % second

def generateToken (lib : JwtLibrary) (now : ℤ)
    (userID username email : GoString) (permissions : List GoString)
    (j : JWTAuth) : Except GoString GoString :=
  lib.sign j.secret
    { userID := userID
      username := username
      email := email
      permissions := permissions
      issuer := j.issuer
      subject := userID
      issuedAt := some (numericDate now)
      expiresAt := some (numericDate (now + j.ttl))
      notBefore := some (numericDate now) }

def cachedClaims (now : ℤ) (token : GoString) (j : JWTAuth) : Option Claims :=
  match j.tokenCache.lookup token with
  | some cached => if now < cached.expiresAt then some cached.claims else none
  | none => none

def cleanupExpiredTokens (now : ℤ) (order : RangeOrder)
    (cache : GoMap GoString CachedToken) : GoMap GoString CachedToken :=
  (cache.range order).foldl
    (fun cache entry =>
      if now > entry.2.expiresAt then cache.erase entry.1 else cache)
    cache

def remember (readings : Readings) (order : RangeOrder) (token : GoString)
    (claims : Claims) (j : JWTAuth) : JWTAuth :=
  let cache := j.tokenCache.insert token
    ⟨claims, readings.cached + j.cacheTTL⟩
  { j with
    tokenCache :=
      if cache.keys.length > 100 then
        cleanupExpiredTokens readings.cleanup order cache
      else cache }

def validateToken (lib : JwtLibrary) (readings : Readings)
    (order : RangeOrder) (token : GoString) : GoM JWTAuth Claims := fun j =>
  match j.cachedClaims readings.lookup token with
  | some claims => (.ok claims, j)
  | none =>
    match lib.parse j.secret readings.parse token with
    | .error e => (.error (str "failed to parse token: " ++ e), j)
    | .ok claims => (.ok claims, j.remember readings order token claims)

def refreshToken (lib : JwtLibrary) (readings : Readings)
    (order : RangeOrder) (token : GoString) : GoM JWTAuth GoString := do
  let claims ← GoM.mapError (fun e => str "cannot refresh invalid token: " ++ e)
    (validateToken lib readings order token)
  GoM.query (generateToken lib readings.issue claims.userID claims.username
    claims.email claims.permissions)

/-! ## What is in the cache -/

section

variable {lib : JwtLibrary} {j : JWTAuth}

def Faithful (lib : JwtLibrary) (j : JWTAuth) : Prop :=
  ∀ token cached, j.tokenCache.lookup token = some cached →
    lib.verify j.secret token = .ok cached.claims

variable {now : ℤ} {token : GoString} {claims : Claims}

theorem cachedClaims_eq_some :
    j.cachedClaims now token = some claims ↔
      ∃ cached, j.tokenCache.lookup token = some cached ∧
        now < cached.expiresAt ∧ cached.claims = claims := by
  unfold cachedClaims
  cases hcached : j.tokenCache.lookup token with
  | none => simp
  | some cached =>
    by_cases hlive : now < cached.expiresAt
    · simp [hlive]
    · simp [hlive]

theorem lookup_cleanupExpiredTokens
    (hkept : (cleanupExpiredTokens now order cache).lookup token =
      some cached) : cache.lookup token = some cached := by
  unfold cleanupExpiredTokens at hkept
  generalize cache.range order = entries at hkept
  induction entries generalizing cache with
  | nil => exact hkept
  | cons entry entries ih =>
    rw [List.foldl_cons] at hkept
    have hstep := ih hkept
    split_ifs at hstep with hexpired
    · exact GoMap.lookup_of_erase hstep
    · exact hstep

theorem Faithful.remember (h : j.Faithful lib) (readings : Readings)
    (order : RangeOrder) (hclaims : lib.verify j.secret token = .ok claims) :
    (j.remember readings order token claims).Faithful lib := by
  intro other cached hcached
  have hinserted : (j.tokenCache.insert token
      ⟨claims, readings.cached + j.cacheTTL⟩).lookup other = some cached := by
    unfold JWTAuth.remember at hcached
    dsimp only at hcached
    split_ifs at hcached
    · exact lookup_cleanupExpiredTokens hcached
    · exact hcached
  exact GoMap.forall_insert h hclaims other cached hinserted

theorem parse_eq_ok {secret : GoString} :
    lib.parse secret now token = .ok claims ↔
      lib.verify secret token = .ok claims ∧ claims.Unexpired now := by
  unfold JwtLibrary.parse
  cases lib.verify secret token with
  | error e => simp
  | ok found =>
    dsimp only
    split_ifs with hfresh
    · rw [Except.ok.injEq]
      constructor
      · rintro rfl
        exact ⟨rfl, hfresh⟩
      · rintro ⟨hsame, -⟩
        exact hsame
    · rw [Except.ok.injEq]
      constructor
      · intro hok
        cases hok
      · rintro ⟨rfl, hfresh'⟩
        exact absurd hfresh' hfresh

theorem validateToken_cases {lib : JwtLibrary} {readings : Readings}
    {j : JWTAuth} :
    (∃ claims, j.cachedClaims readings.lookup token = some claims ∧
        validateToken lib readings order token j = (.ok claims, j)) ∨
      j.cachedClaims readings.lookup token = none ∧
        ((∃ claims, lib.parse j.secret readings.parse token = .ok claims ∧
            validateToken lib readings order token j =
              (.ok claims, j.remember readings order token claims)) ∨
          ∃ e, validateToken lib readings order token j = (.error e, j)) := by
  unfold validateToken
  cases hcached : j.cachedClaims readings.lookup token with
  | some claims => exact .inl ⟨claims, rfl, rfl⟩
  | none =>
    refine .inr ⟨rfl, ?_⟩
    cases hparse : lib.parse j.secret readings.parse token with
    | error e => exact .inr ⟨_, rfl⟩
    | ok claims => exact .inl ⟨claims, rfl, rfl⟩

theorem Faithful.validateToken (h : j.Faithful lib) (readings : Readings)
    (order : RangeOrder) (token : GoString) :
    (validateToken lib readings order token j).2.Faithful lib := by
  rcases validateToken_cases with
    ⟨claims, -, hrun⟩ | ⟨-, ⟨claims, hparse, hrun⟩ | ⟨e, hrun⟩⟩
  · rw [hrun]
    exact h
  · rw [hrun]
    exact h.remember readings order (parse_eq_ok.mp hparse).1
  · rw [hrun]
    exact h

/-- A successful validation gives the claims of the token, and they have not
expired unless they come from the cache. -/
theorem claims_of_validateToken (h : j.Faithful lib)
    (hok : (validateToken lib readings order token j).1 = .ok claims) :
    lib.verify j.secret token = .ok claims ∧
      (j.cachedClaims readings.lookup token = some claims ∨ claims.Unexpired readings.lookup) := by
  rcases validateToken_cases with
    ⟨found, hcached, hrun⟩ | ⟨-, ⟨found, hparse, hrun⟩ | ⟨e, hrun⟩⟩
  · rw [hrun, Outcome.ok.injEq] at hok
    subst hok
    obtain ⟨cached, hlookup, -, hclaims⟩ := cachedClaims_eq_some.mp hcached
    rw [← hclaims]
    exact ⟨h token cached hlookup, .inl (by rw [hclaims]; exact hcached)⟩
  · rw [hrun, Outcome.ok.injEq] at hok
    subst hok
    obtain ⟨hverify, hfresh⟩ := parse_eq_ok.mp hparse
    refine ⟨hverify, .inr ?_⟩
    intro expiresAt hexpires
    exact lt_of_le_of_lt readings.parse_later (hfresh expiresAt hexpires)
  · rw [hrun] at hok
    cases hok

end

end JWTAuth

/-! ## Runs -/

inductive TokenCall where
  | validate (readings : Readings) (order : RangeOrder) (token : GoString)
  | refresh (readings : Readings) (order : RangeOrder) (token : GoString)

namespace JWTAuth

def perform (lib : JwtLibrary) (j : JWTAuth) : TokenCall → JWTAuth
  | .validate readings order token =>
    (validateToken lib readings order token j).2
  | .refresh readings order token =>
    (refreshToken lib readings order token j).2

def Current (lib : JwtLibrary) (j : JWTAuth) (now : ℤ) (token : GoString) : Prop :=
  ∃ claims, lib.verify j.secret token = .ok claims ∧ claims.Unexpired now

def rejectsExpired (lib : JwtLibrary) (j : JWTAuth) : TokenCall → Prop
  | .validate readings order token =>
    ∀ claims, (validateToken lib readings order token j).1 = .ok claims →
      j.Current lib readings.lookup token
  | .refresh readings order token =>
    ∀ fresh, (refreshToken lib readings order token j).1 = .ok fresh →
      j.Current lib readings.lookup token

/-- A live entry of the cache has not expired.  A refresh may also fail to sign
the new token. -/
def cacheCurrent (lib : JwtLibrary) (j : JWTAuth) : TokenCall → Prop
  | .validate readings _ token =>
    ∀ claims, j.cachedClaims readings.lookup token = some claims → claims.Unexpired readings.lookup
  | .refresh readings _ token =>
    ∀ claims fresh, j.cachedClaims readings.lookup token = some claims →
      j.generateToken lib readings.issue claims.userID claims.username
        claims.email claims.permissions = .ok fresh →
      claims.Unexpired readings.lookup

section

variable {lib : JwtLibrary} {j : JWTAuth}

theorem snd_refreshToken :
    (refreshToken lib readings order token j).2 = (validateToken lib readings order token j).2 := by
  unfold refreshToken
  rw [GoM.bind_apply, GoM.mapError]
  rcases validateToken lib readings order token j with ⟨outcome, after⟩
  cases outcome with
  | ok claims =>
    dsimp only
    rw [GoM.query_apply]
    cases after.generateToken lib readings.issue claims.userID
        claims.username claims.email claims.permissions with
    | ok fresh => rfl
    | error e => rfl
  | _ => rfl

variable {readings : Readings} {token : GoString}

theorem refreshToken_eq_ok :
    (refreshToken lib readings order token j).1 = .ok fresh ↔
      ∃ claims, (validateToken lib readings order token j).1 = .ok claims ∧
        (validateToken lib readings order token j).2.generateToken lib
          readings.issue claims.userID claims.username claims.email
          claims.permissions = .ok fresh := by
  unfold refreshToken
  rw [GoM.bind_apply, GoM.mapError]
  rcases validateToken lib readings order token j with ⟨outcome, after⟩
  cases outcome with
  | ok claims =>
    dsimp only
    rw [GoM.query_apply]
    cases hsigned : after.generateToken lib readings.issue claims.userID
        claims.username claims.email claims.permissions with
    | ok signed => simp [hsigned]
    | error e => simp [hsigned]
  | _ => simp

theorem Faithful.perform (h : j.Faithful lib) (call : TokenCall) :
    (j.perform lib call).Faithful lib := by
  cases call with
  | validate readings order token =>
    exact h.validateToken readings order token
  | refresh readings order token =>
    change (refreshToken lib readings order token j).2.Faithful lib
    rw [snd_refreshToken]
    exact h.validateToken readings order token

variable {claims : Claims}

theorem current_of_validateToken (h : j.Faithful lib)
    (hok : (validateToken lib readings order token j).1 = .ok claims)
    (hcache : j.cachedClaims readings.lookup token = some claims →
      claims.Unexpired readings.lookup) :
    j.Current lib readings.lookup token := by
  obtain ⟨hverify, hcached | hfresh⟩ := claims_of_validateToken h hok
  · exact ⟨claims, hverify, hcache hcached⟩
  · exact ⟨claims, hverify, hfresh⟩

theorem unexpired_of_current (h : j.Faithful lib) (hcached : j.cachedClaims now token = some claims)
    (hcurrent : j.Current lib now token) : claims.Unexpired now := by
  obtain ⟨cached, hlookup, -, rfl⟩ := cachedClaims_eq_some.mp hcached
  obtain ⟨found, hverify, hfresh⟩ := hcurrent
  rw [h token cached hlookup, Except.ok.injEq] at hverify
  rw [hverify]
  exact hfresh

theorem validateToken_of_cached (hcached : j.cachedClaims readings.lookup token = some claims) :
    validateToken lib readings order token j = (.ok claims, j) := by
  unfold validateToken
  rw [hcached]

theorem rejectsExpired_iff (h : j.Faithful lib) :
    j.rejectsExpired lib call ↔ j.cacheCurrent lib call := by
  cases call with
  | validate readings order token =>
    constructor
    · intro hrejects claims hcached
      apply unexpired_of_current h hcached
      apply hrejects claims
      rw [validateToken_of_cached hcached]
    · intro hcurrent claims hok
      exact current_of_validateToken h hok (hcurrent claims)
  | refresh readings order token =>
    constructor
    · intro hrejects claims fresh hcached hsigned
      apply unexpired_of_current h hcached
      apply hrejects fresh
      rw [refreshToken_eq_ok, validateToken_of_cached hcached]
      exact ⟨claims, rfl, hsigned⟩
    · intro hcurrent fresh hok
      obtain ⟨claims, hvalid, hsigned⟩ := refreshToken_eq_ok.mp hok
      apply current_of_validateToken h hvalid
      intro hcached
      rw [validateToken_of_cached hcached] at hsigned
      exact hcurrent claims fresh hcached hsigned

end

end JWTAuth

/-- In every run from a new handler, expired tokens are rejected exactly if no
call meets a live entry of the cache for an expired token. -/
theorem expired_tokens_rejected_iff (lib : JwtLibrary)
    (secret issuer : GoString) (ttl : ℤ) (randomSecret : GoString)
    (calls : List TokenCall) :
    Runs.Admits (JWTAuth.perform lib) (JWTAuth.rejectsExpired lib)
        (JWTAuth.new secret issuer ttl randomSecret) calls ↔
      Runs.Admits (JWTAuth.perform lib) (JWTAuth.cacheCurrent lib)
        (JWTAuth.new secret issuer ttl randomSecret) calls := by
  have hnew : (JWTAuth.new secret issuer ttl randomSecret).Faithful lib := by
    intro token cached hcached
    cases hcached
  exact Runs.admits_congr_of_invariant (I := JWTAuth.Faithful lib) (fun _ call h => h.perform call)
    (fun _ call h => JWTAuth.rejectsExpired_iff h) hnew calls

/-! ## A token that outlives its expiry -/

namespace JwtLibrary

def timeField (time : Option ℤ) : GoString :=
  match time with
  | some time => formatInt time
  | none => []

def timeOf (field : GoString) : Option ℤ := (parseInt field).toOption

def frame (fields : List GoString) : GoString :=
  fields.flatMap fun field => field.flatMap (fun b => [1, b]) ++ [0]

def unframe (field : GoString) : GoString → List GoString
  | 0 :: rest => field.reverse :: unframe [] rest
  | _ :: b :: rest => unframe (b :: field) rest
  | _ => []

/-- A library whose tokens are the secret and the claims one after the
other. -/
def plain : JwtLibrary where
  sign := fun secret claims =>
    .ok (frame ([secret, claims.userID, claims.username, claims.email,
      claims.issuer, claims.subject, timeField claims.issuedAt,
      timeField claims.expiresAt, timeField claims.notBefore] ++ claims.permissions))
  verify := fun secret token =>
    match unframe [] token with
    | signed :: userID :: username :: email :: issuer :: subject ::
        issuedAt :: expiresAt :: notBefore :: permissions =>
        if signed = secret then
          .ok
            { userID := userID
              username := username
              email := email
              permissions := permissions
              issuer := issuer
              subject := subject
              issuedAt := timeOf issuedAt
              expiresAt := timeOf expiresAt
              notBefore := timeOf notBefore }
        else .error (str "token signature is invalid")
    | _ => .error (str "token is malformed")

end JwtLibrary

def shortClaims : Claims where
  userID := str "u"
  username := str "u"
  email := []
  permissions := []
  issuer := str "govc"
  subject := str "u"
  issuedAt := some 0
  expiresAt := some JWTAuth.minute
  notBefore := some 0

def shortToken : GoString :=
  JwtLibrary.frame [str "k", str "u", str "u", [], str "govc", str "u",
    str "0", str "60000000000", str "0"]

def shortAuth : JWTAuth := JWTAuth.new (str "k") (str "govc") JWTAuth.minute []

def Readings.at (now : ℤ) : Readings := ⟨now, now, now, now, now, le_rfl⟩

/-- The handler made the token itself.  It validates it at once, and accepts
it still a minute later, when it has expired. -/
theorem expired_token_accepted :
    shortAuth.generateToken .plain 0 (str "u") (str "u") [] [] = .ok shortToken ∧
      ¬ Runs.Admits (JWTAuth.perform .plain) (JWTAuth.rejectsExpired .plain) shortAuth
        [.validate (.at 0) .inserted shortToken,
          .validate (.at JWTAuth.minute) .inserted shortToken] := by
  refine ⟨by decide +kernel, ?_⟩
  rintro ⟨-, hrejects, -⟩
  obtain ⟨claims, hverify, hfresh⟩ := hrejects shortClaims (by decide +kernel)
  have hclaims : JwtLibrary.plain.verify (str "k") shortToken = .ok shortClaims := by
    decide +kernel
  have hsame : claims = shortClaims := (Except.ok.inj (hclaims.symm.trans hverify)).symm
  rw [hsame] at hfresh
  exact absurd hfresh (by decide)

end Govc
