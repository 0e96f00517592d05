/-
Credentials (`pkg/contracts/credential`) and the vault that encrypts their data
(`credential/adapters/vault/vault.go`).

AES-GCM and base64 are the standard library's; `Crypto` is what the vault uses of
them, with the two laws it relies on: opening what was sealed, and decoding what was
encoded. The vault's key is part of it. Random nonces are an argument, and encrypting
does not fail.

The vault looks at the values of a credential's data through type assertions, so a
value is a string, a boolean or something else. Which fields it treats depends on the
credential's type; a field that does not hold a string is passed over.
-/
import LinkFlow.Lib.GoMap

set_option autoImplicit false

namespace LinkFlow.Credentials

open List

/-! ## Credentials -/

/-- A value of a credential's data; `other` is any other JSON value, by its text. -/
inductive FieldValue
  | str (s : String)
  | bool (b : Bool)
  | other (json : String)
deriving DecidableEq, Repr

/-- `Credential.Data`; a nil map reads as an empty one. -/
abbrev SecretData := GoMap String FieldValue

structure Credential where
  (id name type userID : String)
  teamID : String := ""
  data : SecretData := ∅
  description : String := ""
  tags : List String := []
  isShared : Bool := false
  isActive : Bool := true
  (lastUsedAt expiresAt : Option ℤ := none)
  (createdAt updatedAt : ℤ)
deriving DecidableEq

/-- The credential types that `Validate` and the vault distinguish. -/
inductive Kind
  | apiKey | oauth2 | basicAuth | sshKey | database
deriving DecidableEq, Repr

/-- The `switch` on `cred.Type`. -/
def kindOf (type : String) : Option Kind :=
  if type = "apiKey" then some .apiKey
  else if type = "oauth2" then some .oauth2
  else if type = "basicAuth" then some .basicAuth
  else if type = "sshKey" then some .sshKey
  else if type = "database" then some .database
  else none

def firstMissing (data : SecretData) (required : List (String × String)) : Option String :=
  required.findSome? fun (field, message) => if field ∈ data then none else some message

/-- `validateAPIKey`, `validateOAuth2`, `validateBasicAuth`, `validateSSHKey` and
`validateDatabase` -/
def validateData (data : SecretData) : Kind → Option String
  | .apiKey => firstMissing data [("apiKey", "API key is required")]
  | .oauth2 =>
    firstMissing data
      [("clientId", "client ID is required"), ("clientSecret", "client secret is required")]
  | .basicAuth =>
    firstMissing data
      [("username", "username is required"), ("password", "password is required")]
  | .sshKey => firstMissing data [("privateKey", "private key is required")]
  | .database =>
    -- a connection string stands for the single fields
    if "connectionString" ∈ data then none
    else
      firstMissing data
        [("host", "host is required"), ("database", "database name is required"),
          ("username", "username is required"), ("password", "password is required")]

def Credential.validate (c : Credential) : Option String :=
  if c.name = "" then some "credential name is required"
  else if c.type = "" then some "credential type is required"
  else if c.userID = "" then some "user ID is required"
  else (kindOf c.type).bind (validateData c.data)

/-! ## The vault -/

/-- AES-GCM under the vault's key, and base64. -/
structure Crypto (Byte : Type) where
  nonceSize : ℕ
  /-- `gcm.Seal`, without the nonce it is appended to. -/
  gcmSeal : List Byte → String → List Byte
  /-- `gcm.Open` -/
  gcmOpen : List Byte → List Byte → Except String String
  encodeToString : List Byte → String
  decodeString : String → Except String (List Byte)
  open_seal : ∀ nonce plaintext, nonce.length = nonceSize →
    gcmOpen nonce (gcmSeal nonce plaintext) = .ok plaintext
  decode_encode : ∀ bytes, decodeString (encodeToString bytes) = .ok bytes

namespace Crypto

variable {Byte : Type} (v : Crypto Byte)

abbrev Nonce := { nonce : List Byte // nonce.length = v.nonceSize }

def encrypt (nonce : v.Nonce) (plaintext : String) : String :=
  v.encodeToString (nonce.1 ++ v.gcmSeal nonce.1 plaintext)

def decrypt (ciphertext : String) : Except String String :=
  match v.decodeString ciphertext with
  | .error err => .error ("failed to decode ciphertext: " ++ err)
  | .ok data =>
    if data.length < v.nonceSize then .error "ciphertext too short"
    else
      match v.gcmOpen (data.take v.nonceSize) (data.drop v.nonceSize) with
      | .error err => .error ("failed to decrypt: " ++ err)
      | .ok plaintext => .ok plaintext

@[simp] theorem decrypt_encrypt (nonce : v.Nonce) (plaintext : String) :
    v.decrypt (v.encrypt nonce plaintext) = .ok plaintext := by
  obtain ⟨bytes, hlen⟩ := nonce
  have hle : ¬ (bytes ++ v.gcmSeal bytes plaintext).length < v.nonceSize := by
    rw [length_append, hlen]
    omega
  simp only [encrypt, decrypt, v.decode_encode]
  rw [if_neg hle, take_left' hlen, drop_left' hlen, v.open_seal bytes plaintext hlen]

def IsCiphertext (text : String) : Prop := ∃ nonce plaintext, text = v.encrypt nonce plaintext

end Crypto

/-! ## Fields -/

/-- A field of the data that the vault treats, with its name in the error texts. -/
structure SecretField where
  (key label : String)
  skipEmpty : Bool := false
deriving DecidableEq, Repr

/-- The fields that `EncryptCredential` and `DecryptCredential` treat, in order. -/
def Kind.fields : Kind → List SecretField
  | .apiKey => [{ key := "apiKey", label := "API key" }]
  | .oauth2 =>
    [{ key := "accessToken", label := "access token" },
      { key := "refreshToken", label := "refresh token" },
      { key := "clientSecret", label := "client secret" }]
  | .basicAuth => [{ key := "password", label := "password" }]
  | .sshKey =>
    [{ key := "privateKey", label := "private key" },
      { key := "passphrase", label := "passphrase", skipEmpty := true }]
  | .database =>
    [{ key := "password", label := "database password" },
      { key := "connectionString", label := "connection string" }]

def SecretField.read (f : SecretField) (data : SecretData) : Option String :=
  match data.lookup f.key with
  | some (.str s) => if f.skipEmpty ∧ s = "" then none else some s
  -- the type assertion fails: the value stays as it is
  | _ => none

namespace Crypto

variable {Byte : Type} (v : Crypto Byte)

/-- One field of `EncryptCredential`. -/
def encryptField (nonce : v.Nonce) (f : SecretField) (data : SecretData) : SecretData :=
  match f.read data with
  | some plaintext => data.insert f.key (.str (v.encrypt nonce plaintext))
  | none => data

/-- One field of `DecryptCredential`. -/
def decryptField (f : SecretField) (data : SecretData) : Except String SecretData :=
  match f.read data with
  | some ciphertext =>
    match v.decrypt ciphertext with
    | .ok plaintext => .ok (data.insert f.key (.str plaintext))
    | .error err => .error ("failed to decrypt " ++ f.label ++ ": " ++ err)
  | none => .ok data

/-- The fields of `EncryptCredential`; the `i`-th nonce is for the `i`-th field. -/
def encryptFields (nonce : ℕ → v.Nonce) : ℕ → List SecretField → SecretData → SecretData
  | _, [], data => data
  | i, f :: fs, data => encryptFields nonce (i + 1) fs (v.encryptField (nonce i) f data)

/-- Whether `EncryptCredential` sets the mark. With one field it does so only together
with that field. -/
def marks (data : SecretData) : Kind → Bool
  | .apiKey => Kind.apiKey.fields.any fun f => (f.read data).isSome
  | .basicAuth => Kind.basicAuth.fields.any fun f => (f.read data).isSome
  | .oauth2 | .sshKey | .database => true

def encryptCredential (nonce : ℕ → v.Nonce) (c : Credential) : Credential :=
  match kindOf c.type with
  | none => c
  | some kind =>
    let data := v.encryptFields nonce 0 kind.fields c.data
    { c with data := if marks c.data kind then data.insert "encrypted" (.bool true) else data }

def decryptCredential (c : Credential) : Except String Credential :=
  match c.data.lookup "encrypted" with
  | some (.bool true) =>
    match ((kindOf c.type).elim [] Kind.fields).foldlM
        (fun data f => v.decryptField f data) c.data with
    | .error err => .error err
    | .ok data => .ok { c with data := data.insert "encrypted" (.bool false) }
  -- not marked, so taken for plaintext
  | _ => .ok c

end Crypto

/-! ## Secrets -/

/-- The fields of a credential that are to be secret: the API key, tokens, client
secret, password, private key and connection string that the vault treats. -/
def secretKeys (type : String) : List String :=
  match kindOf type with
  | some .apiKey => ["apiKey"]
  | some .oauth2 => ["accessToken", "refreshToken", "clientSecret"]
  | some .basicAuth => ["password"]
  | some .sshKey => ["privateKey"]
  | some .database => ["password", "connectionString"]
  | none => []

def StringSecrets (type : String) (data : SecretData) : Prop :=
  ∀ key ∈ secretKeys type, ∀ x, data.lookup key = some x → ∃ s, x = .str s

def Sealed {Byte : Type} (v : Crypto Byte) (c : Credential) : Prop :=
  ∀ key ∈ secretKeys c.type, ∀ x, c.data.lookup key = some x → ∃ s, x = .str s ∧ v.IsCiphertext s

section encrypt

variable {Byte : Type} {v : Crypto Byte}

variable {data : SecretData} {key : String} {fs : List SecretField}

theorem lookup_encryptField_ne {nonce : v.Nonce} {f : SecretField} (h : key ≠ f.key) :
    (v.encryptField nonce f data).lookup key = data.lookup key := by
  unfold Crypto.encryptField
  split
  · exact AList.lookup_insert_ne h
  · rfl

theorem lookup_encryptFields_notMem {nonce : ℕ → v.Nonce} {i : ℕ}
    (h : key ∉ fs.map SecretField.key) :
    (v.encryptFields nonce i fs data).lookup key = data.lookup key := by
  induction fs generalizing i data with
  | nil => rfl
  | cons f fs ih =>
    rw [map_cons, mem_cons, not_or] at h
    rw [Crypto.encryptFields, ih h.2, lookup_encryptField_ne h.1]

theorem lookup_encryptFields (nonce : ℕ → v.Nonce) (i : ℕ) (hnodup : (fs.map SecretField.key).Nodup)
    {f : SecretField} (hf : f ∈ fs) (hskip : f.skipEmpty = false) {s : String}
    (hs : data.lookup f.key = some (.str s)) :
    ∃ n, (v.encryptFields nonce i fs data).lookup f.key = some (.str (v.encrypt n s)) := by
  induction fs generalizing i data with
  | nil => cases hf
  | cons g fs ih =>
    rw [map_cons, nodup_cons] at hnodup
    rw [Crypto.encryptFields]
    rcases mem_cons.mp hf with rfl | hf
    · have hread : f.read data = some s := by simp [SecretField.read, hs, hskip]
      rw [lookup_encryptFields_notMem hnodup.1, Crypto.encryptField, hread]
      exact ⟨nonce i, AList.lookup_insert data⟩
    · have hne : f.key ≠ g.key := by
        intro heq
        exact hnodup.1 (heq ▸ mem_map_of_mem hf)
      exact ih (i + 1) hnodup.2 hf (by rw [lookup_encryptField_ne hne, hs])

theorem lookup_encryptFields_of_none {nonce : ℕ → v.Nonce} {i : ℕ} (h : data.lookup key = none) :
    (v.encryptFields nonce i fs data).lookup key = none := by
  induction fs generalizing i data with
  | nil => exact h
  | cons f fs ih =>
    rw [Crypto.encryptFields]
    apply ih
    by_cases hkey : key = f.key
    · have hread : f.read data = none := by rw [SecretField.read, ← hkey, h]
      rw [Crypto.encryptField, hread]
      exact h
    · rw [lookup_encryptField_ne hkey, h]

end encrypt

theorem Kind.nodup_keys (kind : Kind) : (kind.fields.map SecretField.key).Nodup := by
  cases kind <;> decide

theorem Kind.key_ne_encrypted (kind : Kind) : ∀ f ∈ kind.fields, f.key ≠ "encrypted" := by
  cases kind <;> decide

theorem secretKeys_eq (type : String) :
    secretKeys type = (((kindOf type).elim [] Kind.fields).filter fun f => !f.skipEmpty).map
      SecretField.key := by
  unfold secretKeys
  cases kindOf type with
  | none => rfl
  | some kind => cases kind <;> rfl

theorem exists_field {type key : String} (h : key ∈ secretKeys type) :
    ∃ kind f, kindOf type = some kind ∧ f ∈ kind.fields ∧ f.key = key ∧ f.skipEmpty = false := by
  rw [secretKeys_eq, mem_map] at h
  obtain ⟨f, hf, rfl⟩ := h
  rw [mem_filter] at hf
  cases hkind : kindOf type with
  | none =>
    rw [hkind] at hf
    cases hf.1
  | some kind =>
    rw [hkind] at hf
    exact ⟨kind, f, rfl, hf.1, rfl, by simpa using hf.2⟩

/-- **Encrypting seals.** Where the secret fields hold strings, they hold ciphertext
afterwards. -/
theorem sealed_encryptCredential {Byte : Type} {v : Crypto Byte} {nonce : ℕ → v.Nonce}
    {c : Credential} (h : StringSecrets c.type c.data) :
    Sealed v (v.encryptCredential nonce c) := by
  intro key hkey x hx
  have htype : (v.encryptCredential nonce c).type = c.type := by
    unfold Crypto.encryptCredential
    split <;> rfl
  rw [htype] at hkey
  obtain ⟨kind, f, hkind, hf, rfl, hskip⟩ := exists_field hkey
  have hlookup : (v.encryptCredential nonce c).data.lookup f.key =
      (v.encryptFields nonce 0 kind.fields c.data).lookup f.key := by
    simp only [Crypto.encryptCredential, hkind]
    split
    · exact AList.lookup_insert_ne (kind.key_ne_encrypted f hf)
    · rfl
  rw [hlookup] at hx
  cases hold : c.data.lookup f.key with
  | none =>
    rw [lookup_encryptFields_of_none hold] at hx
    cases hx
  | some y =>
    obtain ⟨s, rfl⟩ := h f.key hkey y hold
    obtain ⟨n, hn⟩ := lookup_encryptFields nonce 0 kind.nodup_keys hf hskip hold
    rw [hn] at hx
    cases hx
    exact ⟨_, rfl, n, s, rfl⟩

end LinkFlow.Credentials
