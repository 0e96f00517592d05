/-
Calls of the token manager by a caller who does not hold its key.

A run is any sequence of calls. The ledger of a run keeps what `GenerateToken` was asked
for and every string that the calls returned, which is all a caller can have of the
manager's signatures: presenting a string that verifies means presenting one of these
(`Keyless`). `RefreshToken` copies the claims of the string it is given, so what it hands
out is as good as the strings it is given.
-/
import LinkFlow.Jwt
import LinkFlow.Lib.Runs

set_option autoImplicit false

namespace LinkFlow.Jwt

variable {Tok Priv Pub : Type}

/-! ## What `RefreshToken` issues -/

def Reading.payload? : Reading → Option Payload
  | .segments => none
  | .header => none
  | .claims p => some p
  | .method p => some p
  | .signature p _ => some p
  | .token p _ => some p

def Payload.grant (p : Payload) : Grant :=
  ⟨p.claims.userID, p.claims.email, p.claims.roles, p.claims.permissions⟩

section Refresh

variable (lib : Library Tok Priv Pub) (m : Manager Priv Pub)

/-- An access token with a valid signature under the manager's key and algorithm. -/
def SignedAccess (s : Tok) : Prop :=
  ∃ p, lib.read .claims s = .token p m.signingMethod ∧
    lib.verify m.signingMethod m.verifyingKey s = true ∧ p.IsAccess

/-- A string that may be handed to `RefreshToken`: it does not decode as far as its
claims, or it is an access token with a valid signature. -/
def RefreshSafe (s : Tok) : Prop := (lib.read .claims s).payload? = none ∨ SignedAccess lib m s

variable {lib m}

theorem refreshToken_of_payload {s : Tok} {p : Payload} (now : ℤ) (stamp : Stamp)
    (h : (lib.read .claims s).payload? = some p) :
    m.refreshToken lib now stamp s = m.generateToken lib stamp p.grant := by
  have hclaims : ∃ method valid,
      (parseWithClaims lib .claims Payload.claims (fun _ => .ok m.verifyingKey) now s).1 =
        some ⟨some p.claims, method, valid⟩ := by
    unfold parseWithClaims
    generalize lib.read .claims s = reading at h
    cases reading with
    | segments => cases h
    | header => cases h
    -- decoding got as far as the claims, whole or in part
    | claims q | method q | signature q method =>
      cases h
      exact ⟨_, _, rfl⟩
    | token q method =>
      cases h
      -- the token carries the claims on each of the three ways out
      by_cases hverify : lib.verify method m.verifyingKey s = true
      · cases hvalid : validate now p.toRegisteredClaims with
        | nil => exact ⟨some method, true, by simp [hverify, hvalid]⟩
        | cons err errs => exact ⟨some method, false, by simp [hverify, hvalid]⟩
      · exact ⟨some method, false, by simp [hverify]⟩
  obtain ⟨method, valid, hclaims⟩ := hclaims
  simp only [Manager.refreshToken, hclaims]
  rfl

theorem refreshToken_of_unread {s : Tok} (now : ℤ) (stamp : Stamp)
    (h : (lib.read .claims s).payload? = none) (new : Tok) :
    m.refreshToken lib now stamp s ≠ .ok new := by
  unfold Manager.refreshToken parseWithClaims
  cases hread : lib.read .claims s with
  | segments => simp
  | header => simp
  | claims q | method q | signature q method | token q method =>
    rw [hread] at h
    cases h

theorem payload_of_refreshToken {s new : Tok} {now : ℤ} {stamp : Stamp}
    (h : m.refreshToken lib now stamp s = .ok new) : ∃ p, (lib.read .claims s).payload? = some p ∧
      m.Issued lib (m.claimsOf stamp p.grant).payload new := by
  cases hp : (lib.read .claims s).payload? with
  | none => exact absurd h (refreshToken_of_unread now stamp hp new)
  | some p =>
    rw [refreshToken_of_payload now stamp hp] at h
    exact ⟨p, rfl, Manager.issued_of_sign h⟩

end Refresh

/-! ## Runs -/

/-- A call of the manager, with the clock readings and the UUID it takes. -/
inductive Call (Tok : Type)
  | generateToken (stamp : Stamp) (grant : Grant)
  | generateRefreshToken (stamp : Stamp) (userID : String)
  | refreshToken (now : ℤ) (stamp : Stamp) (oldToken : Tok)
  | validateToken (now : ℤ) (tokenString : Tok)
  | validateRefreshToken (now : ℤ) (tokenString : Tok)

structure Ledger (Tok : Type) where
  /-- what `GenerateToken` was asked for by its callers -/
  asked : List Grant := []
  obtained : List Tok := []

def Ledger.obtain (l : Ledger Tok) : Except Error Tok → Ledger Tok
  | .ok s => { l with obtained := s :: l.obtained }
  | .error _ => l

section Runs

variable (lib : Library Tok Priv Pub) (m : Manager Priv Pub)

/-- One call; validating a token returns none. -/
def send (l : Ledger Tok) : Call Tok → Ledger Tok
  | .generateToken stamp grant =>
    { l with asked := grant :: l.asked }.obtain (m.generateToken lib stamp grant)
  | .generateRefreshToken stamp userID => l.obtain (m.generateRefreshToken lib stamp userID)
  | .refreshToken now stamp old => l.obtain (m.refreshToken lib now stamp old)
  | .validateToken _ _ => l
  | .validateRefreshToken _ _ => l

/-- A caller without the key has no string with a valid signature but those the manager
gave out. -/
def Keyless (l : Ledger Tok) : Call Tok → Prop
  | .refreshToken _ _ old => lib.verify m.signingMethod m.verifyingKey old = true → old ∈ l.obtained
  | _ => True

/-- A string given to `RefreshToken` may be. -/
def Call.Safe : Call Tok → Prop
  | .refreshToken _ _ old => RefreshSafe lib m old
  | _ => True

/-- Every access token that was obtained grants what `GenerateToken` was asked for. -/
def AllAsked (l : Ledger Tok) : Prop :=
  ∀ s ∈ l.obtained, ∀ p method, lib.read .claims s = .token p method → p.IsAccess →
    p.grant ∈ l.asked

/-- The invariant of the runs: what was obtained was signed by the manager, and
`AllAsked`. -/
def Accounted (l : Ledger Tok) : Prop :=
  ∀ s ∈ l.obtained, ∃ p, m.Issued lib p s ∧ (p.IsAccess → p.grant ∈ l.asked)

variable {lib m}

theorem Accounted.allAsked {l : Ledger Tok} (h : Accounted lib m l) : AllAsked lib l := by
  intro s hs p method hread haccess
  obtain ⟨q, hq, hasked⟩ := h s hs
  have hpq := (hq.read .claims).symm.trans hread
  injection hpq with hpq
  subst hpq
  exact hasked haccess

theorem Accounted.obtain {l : Ledger Tok} (h : Accounted lib m l) {result : Except Error Tok}
    (hnew : ∀ s, result = .ok s → ∃ p, m.Issued lib p s ∧ (p.IsAccess → p.grant ∈ l.asked)) :
    Accounted lib m (l.obtain result) := by
  cases result with
  | error err => exact h
  | ok new =>
    intro s hs
    rcases List.mem_cons.mp hs with rfl | hs
    · exact hnew s rfl
    · exact h s hs

/-- Every access token that was obtained was asked for, with what it grants. -/
theorem Accounted.send {l : Ledger Tok} {call : Call Tok} (h : Accounted lib m l)
    (hkeyless : Keyless lib m l call) (hsafe : call.Safe lib m) :
    Accounted lib m (send lib m l call) := by
  cases call with
  | generateToken stamp grant =>
    -- more was asked for, so the tokens of before are still accounted for
    have h' : Accounted lib m { l with asked := grant :: l.asked } := by
      intro s hs
      obtain ⟨p, hp, hasked⟩ := h s hs
      exact ⟨p, hp, fun haccess => List.mem_cons_of_mem _ (hasked haccess)⟩
    refine h'.obtain fun s hs => ⟨_, Manager.issued_of_sign hs, fun _ => ?_⟩
    exact List.mem_cons_self
  | generateRefreshToken stamp userID =>
    refine h.obtain fun s hs => ⟨_, Manager.issued_of_sign hs, fun haccess => ?_⟩
    -- a refresh token has none of the keys of an access token
    exact absurd haccess.1 (by simp [RefreshClaims.payload])
  | refreshToken now stamp old =>
    refine h.obtain fun s hs => ?_
    obtain ⟨p, hp, hissued⟩ := payload_of_refreshToken hs
    refine ⟨_, hissued, fun _ => ?_⟩
    rcases hsafe with hunread | ⟨q, hread, hverify, haccess⟩
    · rw [hunread] at hp
      cases hp
    -- the old string was obtained before, so its grant is in the ledger
    have hqp : q = p := by
      rw [hread] at hp
      exact Option.some.inj hp
    subst hqp
    exact h.allAsked old (hkeyless hverify) q _ hread haccess
  | validateToken now s => exact h
  | validateRefreshToken now s => exact h

variable (lib m)

/-- **Refreshing needs a signed access token.** `RefreshToken` issues a token for a signed access
token only, exactly for the strings that are safe to hand to it; and if only such strings are, every
access token that a caller without the key obtains grants what `GenerateToken` was asked for. -/
theorem refresh_needs_signedAccess :
    (∀ s, (∀ now stamp new, m.refreshToken lib now stamp s = .ok new → SignedAccess lib m s) ↔
        RefreshSafe lib m s) ∧
      ∀ calls : List (Call Tok), (∀ pre call post, calls = pre ++ call :: post →
          Keyless lib m (pre.foldl (send lib m) {}) call ∧ call.Safe lib m) →
        ∀ pre, pre <+: calls → AllAsked lib (pre.foldl (send lib m) {}) := by
  constructor
  · intro s
    constructor
    · intro h
      cases hp : (lib.read .claims s).payload? with
      | none => exact .inl hp
      | some p =>
        obtain ⟨new, hnew, -⟩ := m.sign_spec lib (m.claimsOf ⟨0, 0, ""⟩ p.grant).payload
        refine .inr (h 0 ⟨0, 0, ""⟩ new ?_)
        rw [refreshToken_of_payload 0 _ hp]
        exact hnew
    · rintro (hunread | hsigned) now stamp new hnew
      · exact absurd hnew (refreshToken_of_unread now stamp hunread new)
      · exact hsigned
  · intro calls hcalls pre hpre
    have hinit : Accounted lib m ({} : Ledger Tok) := by
      intro s hs
      cases hs
    have halong : Runs.Along (send lib m)
        (fun l call => Keyless lib m l call ∧ call.Safe lib m) {} calls :=
      Runs.along_iff.mpr hcalls
    have hruns := halong.always (P := Accounted lib m)
      (fun _ _ hl hcall => hl.send hcall.1 hcall.2) hinit
    exact (hruns pre hpre).allAsked

end Runs

/-! ## A library of symbols -/

/-- Strings as a reader who knows all keys sees them: no token, or a token with the key
that signed it, if any did. -/
inductive Symbol
  | text (s : String)
  | jws (payload : Payload) (method : SigningMethod) (signer : Option (SignKey String))
deriving DecidableEq

/-- The JWT library over symbols, where an RSA key pair is a name. -/
def symbols : Library Symbol String String where
  isEmpty s := s = .text ""
  read
    | _, .text _ => .segments
    | _, .jws p method _ => .token p method
  verify
    | _, _, .text _ => false
    | method, .rsa key, .jws _ method' signer =>
      method = method' ∧ signer = some (.rsa key) ∧ key.isSome
    | method, .secret bytes, .jws _ method' signer =>
      method = method' ∧ signer = some (.secret bytes)
  signRSA size key p := .jws p (.rsa size) (some (.rsa (some key)))
  signHMAC size key p := .jws p (.hmac size) (some (.secret key))
  pairs priv pub := priv = pub
  read_isEmpty target s h := by
    obtain rfl : s = .text "" := of_decide_eq_true h
    rfl
  read_signRSA _ _ _ _ := rfl
  read_signHMAC _ _ _ _ := rfl
  verify_signRSA size priv pub p := by simp
  verify_signHMAC size key p := by simp

/-- A development configuration: access tokens for a day, refresh tokens for a week. -/
def devManager : Manager String String where
  privateKey := none
  publicKey := none
  secretKey := "secret"
  issuer := "linkflow"
  expiry := 24 * hour
  refreshExpiry := 7 * 24 * hour
  algorithm := "HS256"
  keyed := by decide

def devSigned (p : Payload) : Symbol := .jws p (.hmac .sha256) (some (.secret "secret"))

/-- The token that `GenerateToken` returns for an editor at time 0. -/
def editorToken : Symbol :=
  devSigned (devManager.claimsOf ⟨0, 0, "id"⟩ ⟨"u", "u@x", ["editor"], []⟩).payload

def editorCalls : List (Call Symbol) :=
  [.generateToken ⟨0, 0, "id"⟩ ⟨"u", "u@x", ["editor"], []⟩,
    .refreshToken 5 ⟨5, 5, "id'"⟩ editorToken]

theorem editorCalls_allAsked :
    AllAsked symbols (editorCalls.foldl (send symbols devManager) {}) := by
  have halong : Runs.Along (send symbols devManager)
      (fun l call => Keyless symbols devManager l call ∧ call.Safe symbols devManager) {}
      editorCalls :=
    ⟨⟨trivial, trivial⟩, ⟨fun _ => by decide, .inr ⟨_, rfl, by decide, by decide⟩⟩, trivial⟩
  exact (refresh_needs_signedAccess symbols devManager).2 editorCalls
    (Runs.along_iff.mp halong) editorCalls (List.prefix_refl _)

/-- A token for an administrator that nobody signed. -/
def forgedToken : Symbol :=
  .jws { issuer := "", subject := "", issuedAt := none, expiresAt := none, id := "",
         userID := "u", email := some "u@x", roles := some ["admin"], permissions := some [] }
    (.hmac .sha256) none

/-- `RefreshToken` turns a forged token into a valid one, and a caller without the key has rights
never asked for. -/
theorem forgedToken_refreshes : ¬ SignedAccess symbols devManager forgedToken ∧
      ((devManager.refreshToken symbols 0 ⟨0, 0, "id"⟩ forgedToken).toOption.bind fun new =>
          (devManager.validateToken symbols 1 new).toOption).map (fun c => (c.userID, c.roles)) =
        some ("u", ["admin"]) ∧
      Keyless symbols devManager {} (.refreshToken 0 ⟨0, 0, "id"⟩ forgedToken) ∧
      ¬ AllAsked symbols
        (send symbols devManager {} (.refreshToken 0 ⟨0, 0, "id"⟩ forgedToken)) := by
  refine ⟨?_, by decide, ?_, ?_⟩
  · rintro ⟨p, -, hverify, -⟩
    exact absurd hverify (by decide)
  · intro hverify
    exact absurd hverify (by decide)
  intro h
  have hasked := h
    (devSigned (devManager.claimsOf ⟨0, 0, "id"⟩ ⟨"u", "u@x", ["admin"], []⟩).payload)
    (by decide) _ _ rfl (by decide)
  exact absurd hasked (by decide)

end LinkFlow.Jwt
