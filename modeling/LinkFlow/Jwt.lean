/-
The token manager (`pkg/auth/jwt/manager.go`) over the JWT library it calls
(`golang-jwt/jwt/v5`).

The library is a parameter. `Library` says what it makes of a string (`read`, as far as
decoding gets), which strings a key verifies and which string a key signs, with the laws
the manager relies on: a signed string reads back as what was signed, and verifies under
the key that belongs to the signing key. `parseWithClaims` is the library's
`ParseWithClaims` over these: it returns a token together with an error whenever decoding
got as far as a token.

Clock readings are in nanoseconds and are arguments, as are fresh UUIDs; a numeric date
is in whole seconds, to which the library truncates. Signing with a key of the right type
does not fail.
-/
import Mathlib

set_option autoImplicit false

namespace LinkFlow.Jwt

/-! ## Claims -/

/-- Nanoseconds in a second, the library's `TimePrecision`. -/
def second : ℤ := 1000000000

/-- `jwt.NewNumericDate`, in seconds -/
def newNumericDate (t : ℤ) : ℤ := t / second

/-- The manager neither sets nor asks for an audience. -/
structure RegisteredClaims where
  (issuer subject : String)
  (issuedAt expiresAt : Option ℤ)
  notBefore : Option ℤ := none
  id : String
deriving DecidableEq, Repr

structure Claims extends RegisteredClaims where
  (userID email : String)
  (roles permissions : List String)
deriving DecidableEq, Repr

structure RefreshClaims extends RegisteredClaims where
  userID : String
deriving DecidableEq, Repr

/-- The claims segment. Without `omitempty` on its own fields, the last three keys are always there
in an access token and never in a refresh token. -/
structure Payload extends RegisteredClaims where
  userID : String
  email : Option String
  (roles permissions : Option (List String))
deriving DecidableEq, Repr

/-- `json.Marshal` of an access token's claims -/
def Claims.payload (c : Claims) : Payload where
  toRegisteredClaims := c.toRegisteredClaims
  userID := c.userID
  email := some c.email
  roles := some c.roles
  permissions := some c.permissions

/-- `json.Marshal` of a refresh token's claims -/
def RefreshClaims.payload (c : RefreshClaims) : Payload where
  toRegisteredClaims := c.toRegisteredClaims
  userID := c.userID
  email := none
  roles := none
  permissions := none

/-- Decoding into a `Claims`: an absent key leaves the zero value. -/
def Payload.claims (p : Payload) : Claims where
  toRegisteredClaims := p.toRegisteredClaims
  userID := p.userID
  email := p.email.getD ""
  roles := p.roles.getD []
  permissions := p.permissions.getD []

/-- Decoding into a `RefreshClaims`: other keys are ignored. -/
def Payload.refreshClaims (p : Payload) : RefreshClaims where
  toRegisteredClaims := p.toRegisteredClaims
  userID := p.userID

def Payload.IsAccess (p : Payload) : Prop := p.email.isSome ∧ p.roles.isSome ∧ p.permissions.isSome

instance (p : Payload) : Decidable p.IsAccess := by
  unfold Payload.IsAccess
  infer_instance

/-! ## The library -/

inductive HashSize
  | sha256 | sha384 | sha512
deriving DecidableEq, Repr

/-- The hash's bits, as the names of the methods end. -/
def HashSize.text : HashSize → String
  | .sha256 => "256"
  | .sha384 => "384"
  | .sha512 => "512"

/-- The methods that `GetSigningMethod` knows. -/
inductive SigningMethod
  | hmac (size : HashSize)
  | rsa (size : HashSize)
  | rsaPSS (size : HashSize)
  | ecdsa (size : HashSize)
  | ed25519
  | none
deriving DecidableEq, Repr

def SigningMethod.alg : SigningMethod → String
  | .hmac size => "HS" ++ size.text
  | .rsa size => "RS" ++ size.text
  | .rsaPSS size => "PS" ++ size.text
  | .ecdsa size => "ES" ++ size.text
  | .ed25519 => "EdDSA"
  | .none => "none"

/-- What the manager hands to `SignedString`: an RSA key, possibly nil, or a secret. -/
inductive SignKey (Priv : Type)
  | rsa (key : Option Priv)
  | secret (bytes : String)
deriving DecidableEq, Repr

/-- What a key function returns. -/
inductive VerifyKey (Pub : Type)
  | rsa (key : Option Pub)
  | secret (bytes : String)
deriving DecidableEq, Repr

/-- The struct that the claims segment is decoded into. -/
inductive Target
  | claims
  | refreshClaims
deriving DecidableEq, Repr

/-- How far `ParseUnverified`, and the decoding of the signature after it, get with a
string. -/
inductive Reading
  | segments
  | header
  /-- the claims do not decode; `read` holds the fields read before the error -/
  | claims (read : Payload)
  /-- `alg` is missing or names no known method -/
  | method (read : Payload)
  | signature (read : Payload) (method : SigningMethod)
  | token (read : Payload) (method : SigningMethod)
deriving DecidableEq, Repr

/-- The JWT library, over the strings `Tok` and the RSA keys `Priv` and `Pub`. -/
structure Library (Tok Priv Pub : Type) where
  isEmpty : Tok → Bool
  read : Target → Tok → Reading
  verify : SigningMethod → VerifyKey Pub → Tok → Bool
  signRSA : HashSize → Priv → Payload → Tok
  signHMAC : HashSize → String → Payload → Tok
  pairs : Priv → Pub → Bool
  read_isEmpty : ∀ target s, isEmpty s = true → read target s = .segments
  read_signRSA : ∀ target size key p, read target (signRSA size key p) = .token p (.rsa size)
  read_signHMAC : ∀ target size key p, read target (signHMAC size key p) = .token p (.hmac size)
  verify_signRSA : ∀ size priv pub p,
    verify (.rsa size) (.rsa (some pub)) (signRSA size priv p) = pairs priv pub
  verify_signHMAC : ∀ size key p, verify (.hmac size) (.secret key) (signHMAC size key p) = true

inductive ClaimsError
  | expired
  | notValidYet
deriving DecidableEq, Repr

/-- The errors of the library that reach the manager. -/
inductive ParseError
  | malformed
  | unverifiable
  | signatureInvalid
  | invalidClaims (errs : List ClaimsError)
  | invalidKeyType
deriving DecidableEq, Repr

/-- `Validator.Validate` without options: neither date is required. -/
def validate (now : ℤ) (c : RegisteredClaims) : List ClaimsError :=
  (if c.expiresAt.all (fun exp => now < exp * second) then [] else [.expired]) ++
    (if c.notBefore.all (fun nbf => nbf * second ≤ now) then [] else [.notValidYet])

structure Token (C : Type) where
  claims : Option C
  method : Option SigningMethod
  valid : Bool := false

section Library

variable {Tok Priv Pub C : Type} (lib : Library Tok Priv Pub)

def parseWithClaims (target : Target) (decode : Payload → C)
    (keyFunc : SigningMethod → Except String (VerifyKey Pub)) (now : ℤ) (s : Tok) :
    Option (Token C) × Option ParseError :=
  match lib.read target s with
  | .segments => (none, some .malformed)
  -- `token.Claims` is set once the header has been decoded
  | .header => (some ⟨none, none, false⟩, some .malformed)
  | .claims p => (some ⟨some (decode p), none, false⟩, some .malformed)
  | .method p => (some ⟨some (decode p), none, false⟩, some .unverifiable)
  | .signature p method => (some ⟨some (decode p), some method, false⟩, some .malformed)
  | .token p method =>
    let token : Token C := ⟨some (decode p), some method, false⟩
    match keyFunc method with
    | .error _ => (some token, some .unverifiable)
    | .ok key =>
      -- dates are looked at only under a good signature
      if lib.verify method key s then
        match validate now p.toRegisteredClaims with
        | [] => (some { token with valid := true }, none)
        | errs => (some token, some (.invalidClaims errs))
      else (some token, some .signatureInvalid)

/-- `Token.SignedString` of a token made by `NewWithClaims` -/
def signedString (method : SigningMethod) (key : SignKey Priv) (p : Payload) :
    Except ParseError Tok :=
  match method, key with
  -- each method asserts the type of its key
  | .rsa size, .rsa (some k) => .ok (lib.signRSA size k p)
  | .hmac size, .secret bytes => .ok (lib.signHMAC size bytes p)
  | _, _ => .error .invalidKeyType

end Library

/-! ## The manager -/

/-- `JWTConfig` and the two paths of `AuthConfig`. -/
structure Config where
  secretKey : String
  (expiryHours refreshDays : ℤ)
  (issuer algorithm privateKeyPath publicKeyPath : String)

/-- `NewManager` refuses a configuration without the keys of its algorithm. -/
structure Manager (Priv Pub : Type) where
  privateKey : Option Priv
  publicKey : Option Pub
  (secretKey issuer : String)
  (expiry refreshExpiry : ℤ)
  algorithm : String
  keyed : if algorithm = "RS256" then privateKey.isSome ∧ publicKey.isSome
    else secretKey ≠ ""

/-- A product of `time.Duration`s, which are 64-bit. -/
def duration (n unit : ℤ) : ℤ := Int.bmod (n * unit) (2 ^ 64)

def hour : ℤ := 3600 * second

/-- One of the two loads of `NewManager`: an empty path leaves the key nil. -/
def loadKey {K : Type} (load : String → Except String K) (what path : String) :
    Except String (Option K) :=
  if path = "" then .ok none
  else match load path with
    | .error err => .error ("failed to load " ++ what ++ " key: " ++ err)
    | .ok key => .ok (some key)

variable {Tok Priv Pub : Type}

def newManager (loadPrivateKey : String → Except String Priv)
    (loadPublicKey : String → Except String Pub) (cfg : Config) :
    Except String (Manager Priv Pub) :=
  let expiry := duration cfg.expiryHours hour
  let refreshExpiry := duration (duration cfg.refreshDays 24) hour
  -- every other algorithm counts as HS256
  if halg : cfg.algorithm = "RS256" then do
    let privateKey ← loadKey loadPrivateKey "private" cfg.privateKeyPath
    let publicKey ← loadKey loadPublicKey "public" cfg.publicKeyPath
    if hkeys : privateKey.isSome ∧ publicKey.isSome then
      pure { privateKey, publicKey, secretKey := "", issuer := cfg.issuer, expiry,
             refreshExpiry, algorithm := cfg.algorithm, keyed := by rw [if_pos halg]; exact hkeys }
    else throw "RS256 algorithm requires both private and public keys"
  else
    if hkey : cfg.secretKey = "" then throw "HS256 algorithm requires a secret key"
    else
      pure { privateKey := none, publicKey := none, secretKey := cfg.secretKey,
             issuer := cfg.issuer, expiry, refreshExpiry, algorithm := cfg.algorithm,
             keyed := by rw [if_neg halg]; exact hkey }

/-- An error of a manager call: the library's, or the manager's own text. -/
inductive Error
  | parse (err : ParseError)
  | text (message : String)
deriving DecidableEq, Repr

/-- What a token takes from its surroundings: the two clock readings of the claims
literal and the new UUID. -/
structure Stamp where
  (issuedAt expiresFrom : ℤ)
  id : String
deriving DecidableEq, Repr

/-- What `GenerateToken` is asked for. -/
structure Grant where
  (userID email : String)
  (roles permissions : List String)
deriving DecidableEq, Repr

namespace Manager

variable (m : Manager Priv Pub) (lib : Library Tok Priv Pub)

def signingMethod : SigningMethod := if m.algorithm = "RS256" then .rsa .sha256 else .hmac .sha256

def signingKey : SignKey Priv :=
  if m.algorithm = "RS256" then .rsa m.privateKey else .secret m.secretKey

def verifyingKey : VerifyKey Pub :=
  if m.algorithm = "RS256" then .rsa m.publicKey else .secret m.secretKey

/-- How `GenerateToken` and `GenerateRefreshToken` end. -/
def sign (p : Payload) : Except Error Tok :=
  (signedString lib m.signingMethod m.signingKey p).mapError .parse

/-- The registered claims of a token that lives for `life`. -/
def registered (stamp : Stamp) (userID : String) (life : ℤ) : RegisteredClaims where
  issuer := m.issuer
  subject := userID
  issuedAt := some (newNumericDate stamp.issuedAt)
  expiresAt := some (newNumericDate (stamp.expiresFrom + life))
  id := stamp.id

/-- The claims that `GenerateToken` signs. -/
def claimsOf (stamp : Stamp) (g : Grant) : Claims where
  toRegisteredClaims := m.registered stamp g.userID m.expiry
  userID := g.userID
  email := g.email
  roles := g.roles
  permissions := g.permissions

/-- The claims that `GenerateRefreshToken` signs. -/
def refreshClaimsOf (stamp : Stamp) (userID : String) : RefreshClaims where
  toRegisteredClaims := m.registered stamp userID m.refreshExpiry
  userID := userID

def generateToken (stamp : Stamp) (g : Grant) : Except Error Tok :=
  m.sign lib (m.claimsOf stamp g).payload

def generateRefreshToken (stamp : Stamp) (userID : String) : Except Error Tok :=
  m.sign lib (m.refreshClaimsOf stamp userID).payload

/-- The key function of both validations. The assertion on the method's type passes every hash of
the family. -/
def keyFunc (method : SigningMethod) : Except String (VerifyKey Pub) :=
  if m.algorithm = "RS256" then
    match method with
    | .rsa _ => .ok (.rsa m.publicKey)
    | _ => .error ("unexpected signing method: " ++ method.alg)
  else
    match method with
    | .hmac _ => .ok (.secret m.secretKey)
    | _ => .error ("unexpected signing method: " ++ method.alg)

def validateToken (now : ℤ) (s : Tok) : Except Error Claims :=
  match parseWithClaims lib .claims Payload.claims m.keyFunc now s with
  | (_, some err) => .error (.parse err)
  | (token, none) =>
    -- the assertion to `*Claims` holds for whatever was decoded into one
    match token.bind fun t => if t.valid then t.claims else none with
    | some claims => .ok claims
    | none => .error (.text "invalid token")

def validateRefreshToken (now : ℤ) (s : Tok) : Except Error String :=
  match parseWithClaims lib .refreshClaims Payload.refreshClaims m.keyFunc now s with
  | (_, some err) => .error (.parse err)
  | (token, none) =>
    match token.bind fun t => if t.valid then t.claims else none with
    | some claims => .ok claims.userID
    | none => .error (.text "invalid refresh token")

/-- The error of `ParseWithClaims` is dropped and the key function looks at no method. -/
def refreshToken (now : ℤ) (stamp : Stamp) (oldToken : Tok) : Except Error Tok :=
  let keyFunc : SigningMethod → Except String (VerifyKey Pub) := fun _ => .ok m.verifyingKey
  match (parseWithClaims lib .claims Payload.claims keyFunc now oldToken).1 with
  | none => .error (.text "invalid token format")
  | some token =>
    match token.claims with
    | none => .error (.text "invalid token claims")
    | some c =>
      -- reached with any signature, or none
      m.generateToken lib stamp ⟨c.userID, c.email, c.roles, c.permissions⟩

/-! ## What the manager's own tokens are -/

/-- Whether a token that the manager signs verifies under the key it verifies with;
`NewManager` does not compare the two RSA keys. -/
def paired : Bool :=
  if m.algorithm = "RS256" then
    match m.privateKey, m.publicKey with
    | some priv, some pub => lib.pairs priv pub
    | _, _ => false
  else true

/-- The string `s` is the payload `p` as the manager signs it. -/
structure Issued (p : Payload) (s : Tok) : Prop where
  read : ∀ target, lib.read target s = .token p m.signingMethod
  verify : lib.verify m.signingMethod m.verifyingKey s = m.paired lib

theorem sign_spec (p : Payload) : ∃ s, m.sign lib p = .ok s ∧ m.Issued lib p s := by
  have hkeyed := m.keyed
  by_cases halg : m.algorithm = "RS256"
  · -- the private key is there, by the manager's invariant
    rw [if_pos halg] at hkeyed
    obtain ⟨hpriv, hpub⟩ := hkeyed
    obtain ⟨priv, hpriv⟩ := Option.isSome_iff_exists.mp hpriv
    obtain ⟨pub, hpub⟩ := Option.isSome_iff_exists.mp hpub
    refine ⟨lib.signRSA .sha256 priv p, ?_, ?_, ?_⟩
    · simp [sign, signedString, signingMethod, signingKey, halg, hpriv, Except.mapError]
    · intro target
      simp [signingMethod, halg, lib.read_signRSA]
    · simp [signingMethod, verifyingKey, paired, halg, hpriv, hpub, lib.verify_signRSA]
  · refine ⟨lib.signHMAC .sha256 m.secretKey p, ?_, ?_, ?_⟩
    · simp [sign, signedString, signingMethod, signingKey, halg, Except.mapError]
    · intro target
      simp [signingMethod, halg, lib.read_signHMAC]
    · simp [signingMethod, verifyingKey, paired, halg, lib.verify_signHMAC]

variable {m lib}

variable {p : Payload} {s : Tok}

theorem issued_of_sign (h : m.sign lib p = .ok s) : m.Issued lib p s := by
  obtain ⟨s', hs', hissued⟩ := m.sign_spec lib p
  rw [hs'] at h
  injection h with h
  exact h ▸ hissued

theorem keyFunc_signingMethod : m.keyFunc m.signingMethod = .ok m.verifyingKey := by
  by_cases halg : m.algorithm = "RS256" <;> simp [keyFunc, signingMethod, verifyingKey, halg]

theorem Issued.parse {C : Type} (h : m.Issued lib p s) (target : Target) (decode : Payload → C)
    (now : ℤ) : parseWithClaims lib target decode m.keyFunc now s =
      if m.paired lib = true ∧ validate now p.toRegisteredClaims = [] then
        (some ⟨some (decode p), some m.signingMethod, true⟩, none) else if m.paired lib = true then
        (some ⟨some (decode p), some m.signingMethod, false⟩,
          some (.invalidClaims (validate now p.toRegisteredClaims)))
      else (some ⟨some (decode p), some m.signingMethod, false⟩, some .signatureInvalid) := by
  unfold parseWithClaims
  simp only [h.read target, keyFunc_signingMethod, h.verify]
  by_cases hpaired : m.paired lib = true
  · cases hvalid : validate now p.toRegisteredClaims with
    | nil => simp [hpaired]
    | cons err errs => simp [hpaired]
  · simp [hpaired]

theorem Issued.validateToken_iff (h : m.Issued lib p s) (now : ℤ) (claims : Claims) :
    m.validateToken lib now s = .ok claims ↔
      m.paired lib = true ∧ validate now p.toRegisteredClaims = [] ∧ p.claims = claims := by
  unfold validateToken
  rw [h.parse]
  by_cases hpaired : m.paired lib = true
  · by_cases hvalid : validate now p.toRegisteredClaims = [] <;> simp [hpaired, hvalid]
  · simp [hpaired]

/-- `ValidateRefreshToken` accepts a token of the manager, of either kind, exactly while
its dates hold. -/
theorem Issued.validateRefreshToken_iff (h : m.Issued lib p s) (now : ℤ) (userID : String) :
    m.validateRefreshToken lib now s = .ok userID ↔
      m.paired lib = true ∧ validate now p.toRegisteredClaims = [] ∧ p.userID = userID := by
  unfold validateRefreshToken
  rw [h.parse]
  by_cases hpaired : m.paired lib = true
  · by_cases hvalid : validate now p.toRegisteredClaims = [] <;>
      simp [hpaired, hvalid, Payload.refreshClaims]
  · simp [hpaired]

theorem validate_registered (now : ℤ) (stamp : Stamp) (userID : String) (life : ℤ) :
    validate now (m.registered stamp userID life) = [] ↔
      now < newNumericDate (stamp.expiresFrom + life) * second := by
  simp [validate, registered]

variable (m lib)

/-- **Both kinds of token make a round trip**: until it expires, a token that was issued with a
matching pair of keys gives back what was put into it. -/
theorem tokens_round_trip (stamp : Stamp) (g : Grant) :
    (∃ s, m.generateToken lib stamp g = .ok s ∧
      ∀ now claims, m.validateToken lib now s = .ok claims ↔ m.paired lib = true ∧
        now < newNumericDate (stamp.expiresFrom + m.expiry) * second ∧
        m.claimsOf stamp g = claims) ∧
      ∃ s, m.generateRefreshToken lib stamp g.userID = .ok s ∧
        ∀ now userID, m.validateRefreshToken lib now s = .ok userID ↔ m.paired lib = true ∧
          now < newNumericDate (stamp.expiresFrom + m.refreshExpiry) * second ∧
          g.userID = userID := by
  constructor
  · obtain ⟨s, hs, hissued⟩ := m.sign_spec lib (m.claimsOf stamp g).payload
    refine ⟨s, hs, fun now claims => ?_⟩
    rw [hissued.validateToken_iff, ← validate_registered]
    rfl
  · obtain ⟨s, hs, hissued⟩ := m.sign_spec lib (m.refreshClaimsOf stamp g.userID).payload
    refine ⟨s, hs, fun now userID => ?_⟩
    rw [hissued.validateRefreshToken_iff, ← validate_registered]
    rfl

end Manager

/-! ## Two kinds of token, one key -/

section Kinds

variable (lib : Library Tok Priv Pub) (m : Manager Priv Pub)

/-- No refresh token is ever accepted as an access token, and no access token as a
refresh token. -/
def NotInterchangeable : Prop :=
  (∀ stamp userID s, m.generateRefreshToken lib stamp userID = .ok s →
      ∀ now, stamp.expiresFrom ≤ now → ∀ claims, m.validateToken lib now s ≠ .ok claims) ∧
    (∀ stamp grant s, m.generateToken lib stamp grant = .ok s →
      ∀ now, stamp.expiresFrom ≤ now → ∀ userID, m.validateRefreshToken lib now s ≠ .ok userID)

/-- A token that lives for `life` is past its expiry from the start, whenever it is
issued, exactly when `life` is not positive. -/
theorem born_expired_iff (life : ℤ) :
    (∀ t now : ℤ, t ≤ now → ¬ now < newNumericDate (t + life) * second) ↔ life ≤ 0 := by
  simp only [newNumericDate, second]
  constructor
  · intro h
    -- the last nanosecond of a second: the next one is in the truncated expiry
    have := h 1699999999999999999 1699999999999999999 (Int.le_refl _)
    omega
  · intro h t now hnow
    omega

/-- **The kinds are kept apart only by tokens that never live**: one key signs both, and no field
that differs is checked. -/
theorem notInterchangeable_iff : NotInterchangeable lib m ↔
      m.paired lib = false ∨ (m.expiry ≤ 0 ∧ m.refreshExpiry ≤ 0) := by
  rw [← born_expired_iff m.expiry, ← born_expired_iff m.refreshExpiry]
  constructor
  · -- a token that lives for an instant would be accepted at that instant
    rintro ⟨hrefresh, haccess⟩
    by_cases hpaired : m.paired lib = true
    · refine .inr ⟨?_, ?_⟩
      · intro t now hnow hlive
        obtain ⟨s, hs, hissued⟩ :=
          m.sign_spec lib (m.claimsOf ⟨t, t, ""⟩ ⟨"", "", [], []⟩).payload
        refine haccess ⟨t, t, ""⟩ ⟨"", "", [], []⟩ s hs now hnow "" ?_
        exact (hissued.validateRefreshToken_iff now "").mpr
          ⟨hpaired, (Manager.validate_registered now _ _ _).mpr hlive, rfl⟩
      · intro t now hnow hlive
        obtain ⟨s, hs, hissued⟩ := m.sign_spec lib (m.refreshClaimsOf ⟨t, t, ""⟩ "").payload
        refine hrefresh ⟨t, t, ""⟩ "" s hs now hnow
          (m.refreshClaimsOf ⟨t, t, ""⟩ "").payload.claims ?_
        exact (hissued.validateToken_iff now _).mpr
          ⟨hpaired, (Manager.validate_registered now _ _ _).mpr hlive, rfl⟩
    · exact .inl (Bool.eq_false_iff.mpr hpaired)
  · intro h
    constructor
    · intro stamp userID s hs now hnow claims hok
      obtain ⟨hpaired, hlive, -⟩ :=
        ((Manager.issued_of_sign hs).validateToken_iff now claims).mp hok
      rcases h with h | ⟨-, h⟩
      · rw [h] at hpaired
        cases hpaired
      · exact h stamp.expiresFrom now hnow
          ((Manager.validate_registered now stamp userID m.refreshExpiry).mp hlive)
    · intro stamp grant s hs now hnow userID hok
      obtain ⟨hpaired, hlive, -⟩ :=
        ((Manager.issued_of_sign hs).validateRefreshToken_iff now userID).mp hok
      rcases h with h | ⟨h, -⟩
      · rw [h] at hpaired
        cases hpaired
      · exact h stamp.expiresFrom now hnow
          ((Manager.validate_registered now stamp grant.userID m.expiry).mp hlive)

end Kinds

end LinkFlow.Jwt
