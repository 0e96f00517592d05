/-
`CredentialService` of `credential/app/service/service.go`, over the repository's table.

The repository stores exactly the rows it is given and finds them by ID; its own errors
are a missing row and a primary key that exists. Published events and the cache are left
out. A record read from the table is a fresh object, so nothing but the repository's
calls changes a row.

`GetDecryptedCredential` decrypts the record it has read, records the usage in it and
saves it: the row then holds the plaintext, with the mark that says so. `TestCredential`
goes through it. Apart from that, a secret gets into the table unencrypted only if it is
not a string (`sealed_throughout`).
-/
import LinkFlow.Vault
import LinkFlow.Lib.Runs

set_option autoImplicit false

namespace LinkFlow.Credentials

/-! ## The service -/

/-- The repository's table, by ID. -/
abbrev Table := GoMap String Credential

structure CreateCredentialRequest where
  (name type userID : String)
  (teamID description : String := "")
  data : SecretData
  tags : List String := []
  expiresAt : Option ℤ := none

/-- `none` is a nil map or slice. -/
structure UpdateCredentialRequest where
  userID : String
  (name description : String := "")
  data : Option SecretData := none
  tags : Option (List String) := none

variable {Byte : Type} (v : Crypto Byte)

/-- What a call draws from outside: the clock, reading by reading, a UUID and nonces. -/
structure Draws where
  now : ℕ → ℤ
  uuid : String
  nonce : ℕ → v.Nonce

variable {v}

def newCredential (d : Draws v) (name type userID : String) : Credential where
  id := d.uuid
  name := name
  type := type
  userID := userID
  createdAt := d.now 0
  updatedAt := d.now 1

def createCredential (d : Draws v) (req : CreateCredentialRequest) (t : Table) :
    Except String Credential × Table :=
  let cred := { newCredential d req.name req.type req.userID with
    description := req.description, teamID := req.teamID, data := req.data, tags := req.tags,
    expiresAt := req.expiresAt }
  match cred.validate with
  | some err => (.error ("validation failed: " ++ err), t)
  | none =>
    let cred := v.encryptCredential d.nonce cred
    if cred.id ∈ t then (.error "failed to save credential: duplicated key not allowed", t)
    else (.ok cred, t.insert cred.id cred)

/-- The repository's `GetCredential`, in the services' words. -/
def findCredential (id : String) (t : Table) : Except String Credential :=
  match t.lookup id with
  | none => .error "credential not found: record not found"
  | some cred => .ok cred

def getCredential (id userID : String) (t : Table) : Except String Credential :=
  match findCredential id t with
  | .error err => .error err
  | .ok cred =>
    -- a shared credential is open to everybody
    if cred.userID ≠ userID ∧ !cred.isShared then .error "access denied" else .ok cred

def getDecryptedCredential (d : Draws v) (id userID : String) (t : Table) :
    Except String Credential × Table :=
  match getCredential id userID t with
  | .error err => (.error err, t)
  | .ok cred =>
    match v.decryptCredential cred with
    | .error err => (.error ("failed to decrypt credential: " ++ err), t)
    | .ok cred =>
      -- `RecordUsage`, and then the whole record is saved, as it is by now
      let cred := { cred with lastUsedAt := some (d.now 0) }
      (.ok cred, t.insert cred.id cred)

def updateCredential (d : Draws v) (id : String) (req : UpdateCredentialRequest) (t : Table) :
    Except String Credential × Table :=
  match findCredential id t with
  | .error err => (.error err, t)
  | .ok cred =>
    if cred.userID ≠ req.userID then (.error "access denied", t)
    else
      let cred := { cred with
        name := if req.name ≠ "" then req.name else cred.name
        description := if req.description ≠ "" then req.description else cred.description }
      let cred :=
        match req.data with
        -- new data replaces the old and is encrypted; without any, the row's stays as it is
        | some data => v.encryptCredential d.nonce { cred with data := data }
        | none => cred
      let cred := { cred with tags := req.tags.getD cred.tags, updatedAt := d.now 0 }
      (.ok cred, t.insert cred.id cred)

def deleteCredential (id userID : String) (t : Table) : Except String Unit × Table :=
  match findCredential id t with
  | .error err => (.error err, t)
  | .ok cred => if cred.userID ≠ userID then (.error "access denied", t) else (.ok (), t.erase id)

def testCredential (d : Draws v) (id userID : String) (t : Table) : Except String Bool × Table :=
  match getDecryptedCredential d id userID t with
  | (.error err, t) => (.error err, t)
  | (.ok cred, t) =>
    match kindOf cred.type with
    | some .apiKey =>
      match cred.data.lookup "apiKey" with
      | some (.str apiKey) => if apiKey ≠ "" then (.ok true, t) else (.error "invalid API key", t)
      | _ => (.error "invalid API key", t)
    | some .oauth2 =>
      match cred.expiresAt with
      | some expiresAt => if expiresAt < d.now 1 then (.error "token expired", t) else (.ok true, t)
      | none => (.ok true, t)
    | _ => (.ok true, t)

def shareCredential (d : Draws v) (id ownerID : String) (t : Table) : Except String Unit × Table :=
  match findCredential id t with
  | .error err => (.error err, t)
  | .ok cred =>
    if cred.userID ≠ ownerID then (.error "access denied", t)
    else
      let cred := { cred with isShared := true, updatedAt := d.now 0 }
      (.ok (), t.insert cred.id cred)

/-! ## Runs -/

variable (v) in
/-- A call of the service, with what it draws. -/
inductive Op
  | create (d : Draws v) (req : CreateCredentialRequest)
  | getDecrypted (d : Draws v) (id userID : String)
  | test (d : Draws v) (id userID : String)
  | update (d : Draws v) (id : String) (req : UpdateCredentialRequest)
  | share (d : Draws v) (id ownerID : String)
  | delete (id userID : String)

def apply (t : Table) : Op v → Table
  | .create d req => (createCredential d req t).2
  | .getDecrypted d id userID => (getDecryptedCredential d id userID t).2
  | .test d id userID => (testCredential d id userID t).2
  | .update d id req => (updateCredential d id req t).2
  | .share d id ownerID => (shareCredential d id ownerID t).2
  | .delete id userID => (deleteCredential id userID t).2

variable (v) in
/-- Every stored credential is sealed. -/
def SealedAtRest (t : Table) : Prop := ∀ id c, t.lookup id = some c → Sealed v c

/-- What keeps the table sealed: secrets are handed over as strings, and no record that
has secrets in it, marked as encrypted, is granted to `GetDecryptedCredential`. -/
def Guarded (t : Table) : Op v → Prop
  | .create _ req => StringSecrets req.type req.data
  | .update _ id req =>
    ∀ data c, req.data = some data → t.lookup id = some c → StringSecrets c.type data
  | .getDecrypted _ id userID | .test _ id userID =>
    ∀ c, getCredential id userID t = .ok c → c.data.lookup "encrypted" = some (.bool true) →
      ∀ key ∈ secretKeys c.type, c.data.lookup key = none
  | .share _ _ _ | .delete _ _ => True

theorem Sealed.congr {c c' : Credential} (h : Sealed v c) (htype : c'.type = c.type)
    (hdata : c'.data = c.data) : Sealed v c' := by
  intro key hkey x hx
  rw [htype] at hkey
  rw [hdata] at hx
  exact h key hkey x hx

variable {t : Table} {c : Credential}

theorem SealedAtRest.insert (h : SealedAtRest v t) (hc : Sealed v c) (id : String) :
    SealedAtRest v (t.insert id c) :=
  GoMap.forall_insert h hc

theorem SealedAtRest.create (h : SealedAtRest v t) (d : Draws v) {req : CreateCredentialRequest}
    (hreq : StringSecrets req.type req.data) : SealedAtRest v (createCredential d req t).2 := by
  simp only [createCredential]
  split
  · exact h
  · split
    · exact h
    · exact h.insert (sealed_encryptCredential hreq) _

theorem findCredential_ok {id : String} (h : findCredential id t = .ok c) :
    t.lookup id = some c := by
  unfold findCredential at h
  cases hl : t.lookup id with
  | none =>
    rw [hl] at h
    cases h
  | some c' =>
    rw [hl] at h
    cases h
    rfl

theorem getCredential_ok {id userID : String} (h : getCredential id userID t = .ok c) :
    t.lookup id = some c := by
  unfold getCredential at h
  split at h
  · cases h
  · next hfind =>
    split at h
    · cases h
    · cases h
      exact findCredential_ok hfind

theorem lookup_decryptFields_of_none {fs : List SecretField} {data data' : SecretData}
    {key : String} (h : data.lookup key = none)
    (hrun : fs.foldlM (fun data f => v.decryptField f data) data = .ok data') :
    data'.lookup key = none := by
  induction fs generalizing data with
  | nil =>
    cases hrun
    exact h
  | cons f fs ih =>
    rw [List.foldlM_cons] at hrun
    cases hfield : v.decryptField f data with
    | error err =>
      rw [hfield] at hrun
      cases hrun
    | ok data₁ =>
      rw [hfield] at hrun
      refine ih ?_ hrun
      unfold Crypto.decryptField at hfield
      split at hfield
      · next ciphertext hread =>
        split at hfield
        · cases hfield
          by_cases hkey : key = f.key
          · rw [SecretField.read, ← hkey, h] at hread
            cases hread
          · rw [AList.lookup_insert_ne hkey]
            exact h
        · cases hfield
      · cases hfield
        exact h

theorem Sealed.decrypt {c c' : Credential} (h : Sealed v c)
    (hnone : c.data.lookup "encrypted" = some (.bool true) →
      ∀ key ∈ secretKeys c.type, c.data.lookup key = none)
    (hdecrypt : v.decryptCredential c = .ok c') : Sealed v c' := by
  unfold Crypto.decryptCredential at hdecrypt
  split at hdecrypt
  · next hmark =>
    split at hdecrypt
    · cases hdecrypt
    · next data hrun =>
      cases hdecrypt
      intro key hkey x hx
      have hkey' : key ≠ "encrypted" := by
        obtain ⟨kind, f, -, hf, rfl, -⟩ := exists_field hkey
        exact kind.key_ne_encrypted f hf
      rw [AList.lookup_insert_ne hkey',
        lookup_decryptFields_of_none (hnone hmark key hkey) hrun] at hx
      cases hx
  · cases hdecrypt
    exact h

theorem SealedAtRest.getDecrypted (h : SealedAtRest v t) (d : Draws v) {id userID : String}
    (hnone : ∀ c, getCredential id userID t = .ok c →
      c.data.lookup "encrypted" = some (.bool true) →
      ∀ key ∈ secretKeys c.type, c.data.lookup key = none) :
    SealedAtRest v (getDecryptedCredential d id userID t).2 := by
  unfold getDecryptedCredential
  split
  · exact h
  · next c hget =>
    split
    · exact h
    · next c' hdecrypt =>
      have hsealed : Sealed v c' := (h id c (getCredential_ok hget)).decrypt (hnone c hget) hdecrypt
      refine h.insert ?_ c'.id
      exact hsealed.congr rfl rfl

theorem testCredential_table (d : Draws v) (id userID : String) (t : Table) :
    (testCredential d id userID t).2 = (getDecryptedCredential d id userID t).2 := by
  unfold testCredential
  match getDecryptedCredential d id userID t with
  | (.error err, t') => rfl
  | (.ok c, t') =>
    dsimp only
    repeat' split
    all_goals rfl

theorem SealedAtRest.update (h : SealedAtRest v t) (d : Draws v) {id : String}
    {req : UpdateCredentialRequest}
    (hreq : ∀ data c, req.data = some data → t.lookup id = some c → StringSecrets c.type data) :
    SealedAtRest v (updateCredential d id req t).2 := by
  unfold updateCredential
  split
  · exact h
  · next c hfind =>
    have hc := findCredential_ok hfind
    split
    · exact h
    cases hdata : req.data with
    | none =>
      refine h.insert ?_ c.id
      exact (h id c hc).congr rfl rfl
    | some data =>
      refine h.insert ?_ _
      exact (sealed_encryptCredential (hreq data c hdata hc)).congr rfl rfl

theorem SealedAtRest.share (h : SealedAtRest v t) (d : Draws v) (id ownerID : String) :
    SealedAtRest v (shareCredential d id ownerID t).2 := by
  unfold shareCredential
  split
  · exact h
  · next c hfind =>
    split
    · exact h
    · refine h.insert ?_ c.id
      exact (h id c (findCredential_ok hfind)).congr rfl rfl

theorem SealedAtRest.delete (h : SealedAtRest v t) (id userID : String) :
    SealedAtRest v (deleteCredential id userID t).2 := by
  unfold deleteCredential
  split
  · exact h
  · split
    · exact h
    · exact GoMap.forall_erase h id

/-- No operation stores a secret in clear, if what it is given is guarded. -/
theorem SealedAtRest.apply (h : SealedAtRest v t) (op : Op v) (hop : Guarded t op) :
    SealedAtRest v (apply t op) := by
  cases op with
  | create d req => exact h.create d hop
  | getDecrypted d id userID => exact h.getDecrypted d hop
  | test d id userID =>
    rw [Credentials.apply, testCredential_table]
    exact h.getDecrypted d hop
  | update d id req => exact h.update d hop
  | share d id ownerID => exact h.share d id ownerID
  | delete id userID => exact h.delete id userID

/-- **Secrets stay ciphertext** in every state of a run whose calls are all guarded. -/
theorem sealed_throughout (v : Crypto Byte) (ops : List (Op v))
    (h : ∀ pre op post, ops = pre ++ op :: post → Guarded (pre.foldl apply ∅) op) :
    ∀ pre, pre <+: ops → SealedAtRest v (pre.foldl apply ∅) := by
  have hempty : SealedAtRest v (∅ : Table) := fun id c hc => by
    rw [AList.lookup_empty] at hc
    cases hc
  exact Runs.Along.always (fun t op ht hop => ht.apply op hop) hempty (Runs.along_iff.mpr h)

/-! ## A small vault -/

/-- A vault whose ciphertexts are a nonce, the letter `s` and the plaintext. -/
def letterVault : Crypto Char where
  nonceSize := 1
  gcmSeal _ plaintext := 's' :: plaintext.toList
  gcmOpen _ bytes :=
    match bytes with
    | 's' :: plaintext => .ok (String.ofList plaintext)
    | _ => .error "cipher: message authentication failed"
  encodeToString := String.ofList
  decodeString text := .ok text.toList
  open_seal := by
    intro nonce plaintext _
    simp
  decode_encode := by
    intro bytes
    simp

def letterDraws : Draws letterVault where
  now _ := 1
  uuid := "id"
  nonce _ := ⟨['n'], rfl⟩

def createKey : Op letterVault :=
  .create letterDraws
    { name := "key", type := "apiKey", userID := "u",
      data := AList.insert "apiKey" (.str "sk-live") ∅ }

/-- A key that its owner shares after a stranger was denied it. -/
theorem sealed_createKey : SealedAtRest letterVault
      (([createKey, .getDecrypted letterDraws "id" "w", .share letterDraws "id" "u"] :
        List (Op letterVault)).foldl apply ∅) := by
  refine sealed_throughout letterVault
    [createKey, .getDecrypted letterDraws "id" "w", .share letterDraws "id" "u"]
    (Runs.along_iff.mp ⟨?_, ?_, ?_, ?_⟩) _ (List.prefix_refl _)
  · intro key hkey x hx
    have hkey : key = "apiKey" := by simpa [secretKeys, kindOf] using hkey
    subst hkey
    cases hx
    exact ⟨_, rfl⟩
  · intro c hc
    have hdenied : getCredential "id" "w" (apply ∅ createKey) = .error "access denied" := by
      decide
    rw [hdenied] at hc
    cases hc
  · trivial
  · trivial

/-- The owner looks at a key, and the table holds it in plaintext from then on. -/
theorem decrypted_key_is_stored :
    ((([createKey, .getDecrypted letterDraws "id" "u"] : List (Op letterVault)).foldl apply
        ∅).lookup "id").bind (fun c => c.data.lookup "apiKey") = some (.str "sk-live") ∧
      ¬ SealedAtRest letterVault
        (([createKey, .getDecrypted letterDraws "id" "u"] : List (Op letterVault)).foldl
          apply ∅) := by
  refine ⟨by decide, ?_⟩
  intro h
  obtain ⟨s, hs, nonce, plaintext, hcipher⟩ := h "id" _ rfl "apiKey" (by decide) _ rfl
  have hs : s = "sk-live" := by
    cases hs
    rfl
  have hopens := letterVault.decrypt_encrypt nonce plaintext
  rw [← hcipher, hs] at hopens
  have hfails : letterVault.decrypt "sk-live" =
      .error "failed to decrypt: cipher: message authentication failed" := by decide
  rw [hfails] at hopens
  cases hopens

end LinkFlow.Credentials
