/-
API keys and their permissions (`internal/auth/adapters/apikey/apikey.go`).

A key is stored without its list of permissions: a column holds them joined with commas, and
`Validate` and `List` split it again. A permission that has a comma comes back as several: the
permission `a:b,*` becomes one that grants everything. A stored key answers as it did exactly if
neither such a permission nor its parts matter, because the permissions without a comma grant
whatever they do (`stored_permissions_iff`).

The repository is a table of keys. A call is given the readings of the clock, its UUID, the text of
its random bytes and whether the database fails it; SHA-256 in hexadecimal is a parameter.
-/
import Mathlib

set_option autoImplicit false

namespace LinkFlow.APIKeys

open List

abbrev Text := List Char

/-! ## Keys -/

structure APIKey where
  (id userID name : String)
  (keyPrefix keyHash : Text)
  permissions : List Text
  permJSON : Text
  lastUsedAt : Option ℤ := none
  expiresAt : Option ℤ
  createdAt : ℤ
  revokedAt : Option ℤ := none
deriving DecidableEq

/-- What `HasPermission` asks of one permission. -/
def grants (resource action p : Text) : Bool :=
  p = resource ++ ':' :: action || p = resource ++ [':', '*'] || p = ['*']

namespace APIKey

variable (k : APIKey)

def isExpired (now : ℤ) : Bool := k.expiresAt.any (· < now)

def isRevoked : Bool := k.revokedAt.isSome

def hasPermission (resource action : Text) : Bool := k.permissions.any (grants resource action)

/-- What is stored: the field `Permissions` has the tag `gorm:"-"`. -/
def row : APIKey := { k with permissions := [] }

/-- `strings.Split` of the column, as `Validate` and `List` do it. -/
def parsed : APIKey :=
  if k.permJSON ≠ [] then { k with permissions := k.permJSON.splitOn ',' } else k

end APIKey

/-! ## The service -/

structure CreateAPIKeyRequest where
  (userID name : String)
  permissions : List Text
  expiresIn : Option ℤ := none

structure Env where
  uuid : String
  keyBytes : Text
  (now createdAt : ℤ := 0)
  createFails : Bool := false

/-- The table. `created` is not in the program: the keys that `Create` has returned. -/
structure Store where
  (rows created : List APIKey := [])

inductive Call
  | create (env : Env) (req : CreateAPIKeyRequest)
  | updateLastUsed (id : String) (now : ℤ)
  | revoke (userID keyID : String) (now : ℤ)
  | delete (userID keyID : String)

section

variable (hash : Text → Text)

def newKey (env : Env) (req : CreateAPIKeyRequest) : APIKey :=
  let rawKey := "lf_".toList ++ env.keyBytes
  { id := env.uuid, userID := req.userID, name := req.name, keyPrefix := rawKey.take 12,
    keyHash := hash rawKey, permissions := req.permissions,
    permJSON := [','].intercalate req.permissions, expiresAt := req.expiresIn.map (env.now + ·),
    createdAt := env.createdAt }

namespace Store

variable (s : Store)

/-- The key hash is a unique index. -/
def create (env : Env) (req : CreateAPIKeyRequest) : Store :=
  let k := newKey hash env req
  if env.createFails ∨ k.keyHash ∈ s.rows.map APIKey.keyHash then s
  else { rows := s.rows ++ [k.row], created := s.created ++ [k] }

def owns (userID keyID : String) : Bool :=
  (s.rows.find? (fun k => k.id = keyID)).any (fun k => k.userID = userID)

/-- `UPDATE … WHERE id = ?` -/
def update (id : String) (f : APIKey → APIKey) : Store :=
  { s with rows := s.rows.map (fun k => if k.id = id then f k else k) }

def step : Call → Store
  | .create env req => s.create hash env req
  | .updateLastUsed id now => s.update id (fun k => { k with lastUsedAt := now })
  | .revoke userID keyID now =>
    if s.owns userID keyID then s.update keyID (fun k => { k with revokedAt := now }) else s
  | .delete userID keyID =>
    if s.owns userID keyID then { s with rows := s.rows.filter (fun k => k.id ≠ keyID) } else s

def validate (now : ℤ) (rawKey : Text) : Except String APIKey :=
  match s.rows.find? (fun k => k.keyHash = hash rawKey) with
  | none => .error "invalid API key"
  | some k =>
    if k.isRevoked then .error "API key has been revoked"
    else if k.isExpired now then .error "API key has expired"
    else .ok k.parsed

def list (userID : String) : List APIKey :=
  (s.rows.filter (fun k => k.userID = userID)).map APIKey.parsed

def Returns (k : APIKey) : Prop :=
  (∃ now rawKey, s.validate hash now rawKey = .ok k) ∨ ∃ userID, k ∈ s.list userID

end Store

end

/-! ## Joined and split -/

/-- A joined text without a comma and a character joins empty texts. -/
theorem eq_nil_of_intercalate {permissions : List Text} (h : [','].intercalate permissions = []) :
    ∀ p ∈ permissions, p = [] := by
  cases permissions with
  | nil => exact fun _ hp => absurd hp not_mem_nil
  | cons l ls =>
    cases ls with
    | nil => simpa [intercalate] using h
    | cons l' ls => simp [intercalate] at h

/-- The parts that the commas make of the permissions. -/
def parts (permissions : List Text) : List Text := permissions.flatMap (splitOn ',')

/-- Splitting the joined column splits every permission. -/
theorem splitOn_joined {permissions : List Text} (hne : permissions ≠ []) :
    ([','].intercalate permissions).splitOn ',' = parts permissions := by
  induction permissions with
  | nil => exact absurd rfl hne
  | cons p ps ih =>
    cases ps with
    | nil => simp [parts]
    | cons p' ps =>
      rw [intercalate_cons_of_ne_nil (cons_ne_nil p' ps), append_assoc, singleton_append,
        splitOn_append_cons_self, ih (cons_ne_nil p' ps)]
      rfl

/-- The separator is in no part. -/
theorem not_mem_of_mem_splitOn {c : Char} {p q : Text} (h : q ∈ p.splitOn c) : c ∉ q := by
  induction p generalizing q with
  | nil =>
    rw [splitOn_nil, mem_singleton] at h
    rw [h]
    exact not_mem_nil
  | cons a p ih =>
    rw [splitOn_cons_eq_if_modifyHead] at h
    obtain ⟨first, rest, hsplit⟩ := exists_cons_of_ne_nil (splitOn_ne_nil c p)
    rw [hsplit] at h ih
    split_ifs at h with ha
    · rcases mem_cons.mp h with rfl | h
      · exact not_mem_nil
      · exact ih h
    · rw [modifyHead_cons] at h
      rcases mem_cons.mp h with rfl | h
      · intro hc
        rcases mem_cons.mp hc with rfl | hc
        · exact ha (beq_self_eq_true c)
        · exact ih mem_cons_self hc
      · exact ih (mem_cons_of_mem first h)

/-- A stored key has the parts of the permissions that it was created with. -/
theorem hasPermission_parsed {k : APIKey} {permissions : List Text} (hrow : k.permissions = [])
    (hjoined : k.permJSON = [','].intercalate permissions) (resource action : Text) :
    k.parsed.hasPermission resource action = (parts permissions).any (grants resource action) := by
  rw [APIKey.hasPermission, APIKey.parsed]
  split_ifs with hempty
  · have hnil : permissions ≠ [] := by
      rintro rfl
      exact hempty hjoined
    rw [hjoined, splitOn_joined hnil]
  · -- an empty column stands for no permission, or for empty ones, which grant nothing
    rw [hrow, any_nil, eq_comm, any_eq_false]
    intro q hq
    obtain ⟨p, hp, hq⟩ := mem_flatMap.mp hq
    rw [eq_nil_of_intercalate (hjoined.symm.trans (not_not.mp hempty)) p hp, splitOn_nil,
      mem_singleton] at hq
    rw [hq]
    simp [grants]

/-! ## What a list grants -/

theorem grants_iff {resource action p : Text} : grants resource action p = true ↔
    p = resource ++ ':' :: action ∨ p = resource ++ [':', '*'] ∨ p = ['*'] := by
  simp [grants, or_assoc]

/-- Some permission of the list grants it. -/
def Granted (l : List Text) (resource action : Text) : Prop :=
  ∃ p ∈ l, grants resource action p = true

/-- A list that grants everything has the permission `*`: the others grant nothing for a resource
that is longer than they are. -/
theorem star_mem_of_granted {l : List Text} (h : ∀ resource, Granted l resource []) :
    ['*'] ∈ l := by
  obtain ⟨p, hp, hgrants⟩ := h (replicate l.flatten.length 'r')
  have hlen : p.length ≤ l.flatten.length := (sublist_flatten_of_mem hp).length_le
  rcases grants_iff.mp hgrants with rfl | rfl | rfl
  · simp at hlen
  · simp at hlen
  · exact hp

/-- A list that grants every action on a resource has its wildcard, or `*`. -/
theorem wildcard_mem_of_granted {l : List Text} {resource : Text}
    (h : ∀ action, Granted l resource action) : resource ++ [':', '*'] ∈ l ∨ ['*'] ∈ l := by
  obtain ⟨p, hp, hgrants⟩ := h (replicate l.flatten.length 'a')
  have hlen : p.length ≤ l.flatten.length := (sublist_flatten_of_mem hp).length_le
  rcases grants_iff.mp hgrants with rfl | rfl | rfl
  · simp only [length_append, length_cons, length_replicate] at hlen
    omega
  · exact .inl hp
  · exact .inr hp

/-- What a permission with a comma and its parts grant is granted without it. -/
def Covered (permissions : List Text) : Prop :=
  ∀ p ∈ permissions, ',' ∈ p → ∀ q ∈ p :: p.splitOn ',', ∀ resource action,
    grants resource action q = true → Granted (permissions.filter (',' ∉ ·)) resource action

section

variable {l : List Text}

/-- The parts are the permissions without a comma and what the others are split into. -/
theorem mem_parts {q : Text} :
    q ∈ parts l ↔ q ∈ l ∧ ',' ∉ q ∨ ∃ p ∈ l, ',' ∈ p ∧ q ∈ p.splitOn ',' := by
  rw [parts, mem_flatMap]
  constructor
  · rintro ⟨p, hp, hq⟩
    by_cases hcomma : ',' ∈ p
    · exact .inr ⟨p, hp, hcomma, hq⟩
    · rw [splitOn_eq_singleton hcomma, mem_singleton] at hq
      rw [hq]
      exact .inl ⟨hp, hcomma⟩
  · rintro (⟨hq, hcomma⟩ | ⟨p, hp, -, hq⟩)
    · exact ⟨q, hq, by rw [splitOn_eq_singleton hcomma]; exact mem_singleton_self q⟩
    · exact ⟨p, hp, hq⟩

theorem not_mem_of_mem_parts {q : Text} (h : q ∈ parts l) : ',' ∉ q := by
  obtain ⟨p, -, hq⟩ := mem_flatMap.mp h
  exact not_mem_of_mem_splitOn hq

/-- A permission without a comma is among those that are left without the others. -/
theorem granted_filter {q resource action : Text} (hq : q ∈ l) (hcomma : ',' ∉ q)
    (hgrants : grants resource action q = true) :
    Granted (l.filter (',' ∉ ·)) resource action :=
  ⟨q, mem_filter.mpr ⟨hq, decide_eq_true hcomma⟩, hgrants⟩

variable (h : ∀ resource action, Granted l resource action ↔ Granted (parts l) resource action)

include h

/-- If the parts have `*`, the list has it. -/
theorem star_mem_of_parts (hstar : ['*'] ∈ parts l) : ['*'] ∈ l :=
  star_mem_of_granted fun resource => (h resource []).mpr
    ⟨_, hstar, grants_iff.mpr (.inr (.inr rfl))⟩

/-- If the parts have a wildcard, the list has it, or `*`. -/
theorem wildcard_mem_of_parts {resource : Text} (hwild : resource ++ [':', '*'] ∈ parts l) :
    resource ++ [':', '*'] ∈ l ∨ ['*'] ∈ l :=
  wildcard_mem_of_granted fun action => (h resource action).mpr
    ⟨_, hwild, grants_iff.mpr (.inr (.inl rfl))⟩

/-- A right that a wildcard of the parts or their `*` grants is granted without a comma. -/
theorem granted_of_wildcard {resource : Text} (action : Text)
    (hwild : resource ++ [':', '*'] ∈ parts l ∨ ['*'] ∈ parts l) :
    Granted (l.filter (',' ∉ ·)) resource action := by
  have hl : resource ++ [':', '*'] ∈ l ∧ ',' ∉ resource ++ [':', '*'] ∨ ['*'] ∈ l := by
    rcases hwild with hwild | hstar
    · exact (wildcard_mem_of_parts h hwild).imp_left
        (fun hl => ⟨hl, not_mem_of_mem_parts hwild⟩)
    · exact .inr (star_mem_of_parts h hstar)
  rcases hl with ⟨hl, hcomma⟩ | hl
  · exact granted_filter hl hcomma (grants_iff.mpr (.inr (.inl rfl)))
  · exact granted_filter hl (by decide) (grants_iff.mpr (.inr (.inr rfl)))

/-- A list that grants what its parts do is covered. -/
theorem covered_of_granted : Covered l := by
  intro p hp hcomma q hq resource action hgrants
  rcases mem_cons.mp hq with rfl | hq
  · -- the permission itself: a part must grant what it does, and cannot be equal to it
    have hparts : ∀ action', grants resource action' q = true → ',' ∈ resource ++ ':' :: action' →
        resource ++ [':', '*'] ∈ parts l ∨ ['*'] ∈ parts l := by
      intro action' hgrants' hcomma'
      obtain ⟨q', hq', hgrants'⟩ := (h resource action').mp ⟨q, hp, hgrants'⟩
      rcases grants_iff.mp hgrants' with rfl | rfl | rfl
      · exact absurd hcomma' (not_mem_of_mem_parts hq')
      · exact .inl hq'
      · exact .inr hq'
    refine granted_of_wildcard h action ?_
    rcases grants_iff.mp hgrants with rfl | rfl | rfl
    · exact hparts action hgrants hcomma
    · exact hparts [','] (grants_iff.mpr (.inr (.inl rfl))) (by simp)
    · exact absurd hcomma (by decide)
  · have hpart : q ∈ parts l := mem_parts.mpr (.inr ⟨p, hp, hcomma, hq⟩)
    rcases grants_iff.mp hgrants with rfl | rfl | rfl
    · -- the list grants it, by the same permission or by a wildcard of the same resource
      obtain ⟨q', hq', hgrants'⟩ := (h resource action).mpr ⟨_, hpart, hgrants⟩
      have hplain := not_mem_of_mem_parts hpart
      refine granted_filter hq' ?_ hgrants'
      rcases grants_iff.mp hgrants' with rfl | rfl | rfl
      · exact hplain
      · simp only [mem_append, mem_cons, not_or] at hplain ⊢
        exact ⟨hplain.1, by decide, by decide, not_mem_nil⟩
      · decide
    · exact granted_of_wildcard h action (.inl hpart)
    · exact granted_of_wildcard h action (.inr hpart)

end

/-- **Joining and splitting** keeps what a list grants exactly if the list is covered. -/
theorem granted_parts_iff_covered (l : List Text) :
    (∀ resource action, Granted l resource action ↔ Granted (parts l) resource action) ↔
      Covered l := by
  refine ⟨covered_of_granted, fun hcovered resource action => ?_⟩
  constructor
  · rintro ⟨p, hp, hgrants⟩
    have hplain : Granted (l.filter (',' ∉ ·)) resource action := by
      by_cases hcomma : ',' ∈ p
      · exact hcovered p hp hcomma p mem_cons_self resource action hgrants
      · exact granted_filter hp hcomma hgrants
    obtain ⟨q, hq, hgrants⟩ := hplain
    obtain ⟨hq, hcomma⟩ := mem_filter.mp hq
    exact ⟨q, mem_parts.mpr (.inl ⟨hq, of_decide_eq_true hcomma⟩), hgrants⟩
  · rintro ⟨q, hq, hgrants⟩
    rcases mem_parts.mp hq with ⟨hq, -⟩ | ⟨p, hp, hcomma, hq⟩
    · exact ⟨q, hq, hgrants⟩
    · obtain ⟨q', hq', hgrants'⟩ :=
        hcovered p hp hcomma q (mem_cons_of_mem p hq) resource action hgrants
      exact ⟨q', (mem_filter.mp hq').1, hgrants'⟩

/-! ## Whole runs -/

/-- The row `k` is what is stored of the created key `c`. -/
def RowOf (c k : APIKey) : Prop :=
  (k.id, k.keyHash, k.permissions, k.permJSON) =
    (c.id, c.keyHash, [], [','].intercalate c.permissions)

def Store.Inv (s : Store) : Prop := ∀ k ∈ s.rows, ∃ c ∈ s.created, RowOf c k

variable {hash : Text → Text}

/-- An update that keeps what a row says about its key keeps the invariant. -/
theorem Store.Inv.update {s : Store} (h : s.Inv) {id : String} {f : APIKey → APIKey}
    (hf : ∀ c k, RowOf c k → RowOf c (f k)) : (s.update id f).Inv := by
  intro k hk
  obtain ⟨r, hr, rfl⟩ := mem_map.mp hk
  obtain ⟨c, hc, hrow⟩ := h r hr
  refine ⟨c, hc, ?_⟩
  split_ifs
  · exact hf c r hrow
  · exact hrow

/-- Every call keeps that each row stands for a key that `Create` has returned. -/
theorem Store.Inv.step {s : Store} (h : s.Inv) (call : Call) : (s.step hash call).Inv := by
  cases call with
  | create env req =>
    rw [Store.step, Store.create]
    split_ifs
    · exact h
    intro k hk
    rcases mem_append.mp hk with hk | hk
    · obtain ⟨c, hc, hrow⟩ := h k hk
      exact ⟨c, mem_append_left _ hc, hrow⟩
    · rw [mem_singleton.mp hk]
      exact ⟨_, mem_append_right _ (mem_singleton_self _), rfl⟩
  | updateLastUsed id now => exact h.update fun _ _ hrow => hrow
  | revoke userID keyID now =>
    rw [Store.step]
    split_ifs
    · exact h.update fun _ _ hrow => hrow
    · exact h
  | delete userID keyID =>
    rw [Store.step]
    split_ifs
    · exact fun k hk => h k (mem_filter.mp hk).1
    · exact h

/-- So every row does, after any calls. -/
theorem inv_run (hash : Text → Text) (calls : List Call) :
    (calls.foldl (Store.step hash) {}).Inv := by
  induction calls using reverseRecOn with
  | nil => exact fun _ hk => absurd hk not_mem_nil
  | append_singleton calls call ih =>
    rw [foldl_concat]
    exact ih.step call

/-- A key that is returned is a row with its column split. -/
theorem Store.Returns.exists_row {s : Store} {k : APIKey} (h : s.Returns hash k) :
    ∃ r ∈ s.rows, k = r.parsed := by
  rcases h with ⟨now, rawKey, h⟩ | ⟨userID, h⟩
  · rw [validate] at h
    split at h
    · cases h
    · next r hr =>
        split_ifs at h
        cases h
        exact ⟨r, mem_of_find?_eq_some hr, rfl⟩
  · obtain ⟨r, hr, rfl⟩ := mem_map.mp h
    exact ⟨r, (mem_filter.mp hr).1, rfl⟩

/-- **Stored permissions.** A key that `Validate` or `List` returns after any calls answers as the
key did that `Create` returned, exactly if that was created with a list of permissions that is
covered by those without a comma. -/
theorem stored_permissions_iff (hash : Text → Text) (calls : List Call) (k : APIKey)
    (h : (calls.foldl (Store.step hash) {}).Returns hash k) :
    ∃ c ∈ (calls.foldl (Store.step hash) {}).created, c.id = k.id ∧ c.keyHash = k.keyHash ∧
      ((∀ resource action,
        k.hasPermission resource action = c.hasPermission resource action) ↔
          Covered c.permissions) := by
  obtain ⟨r, hr, rfl⟩ := h.exists_row
  obtain ⟨c, hc, hrow⟩ := inv_run hash calls r hr
  simp only [RowOf, Prod.mk.injEq] at hrow
  obtain ⟨hid, hkeyHash, hnone, hjoined⟩ := hrow
  have hparsed : r.parsed.id = r.id ∧ r.parsed.keyHash = r.keyHash := by
    unfold APIKey.parsed
    split_ifs <;> exact ⟨rfl, rfl⟩
  refine ⟨c, hc, (hparsed.1.trans hid).symm, (hparsed.2.trans hkeyHash).symm, ?_⟩
  rw [← granted_parts_iff_covered]
  refine forall₂_congr fun resource action => ?_
  rw [hasPermission_parsed hnone hjoined, APIKey.hasPermission, Bool.eq_iff_iff, any_eq_true,
    any_eq_true]
  exact Iff.comm

/-- A key with one permission, as it is created. -/
def keyWith (permission : String) : APIKey :=
  newKey id { uuid := "id", keyBytes := ['k'] }
    { userID := "u", name := "key", permissions := [permission.toList] }

def storeWith (permission : String) : Store :=
  [Call.create { uuid := "id", keyBytes := ['k'] }
    { userID := "u", name := "key", permissions := [permission.toList] }].foldl (Store.step id) {}

/-- The parts `a` and `b` of the permission `a,b` grant as little as the permission itself. -/
theorem stored_permissions_read : (storeWith "a,b").Returns id (keyWith "a,b").row.parsed ∧
      ∃ c ∈ (storeWith "a,b").created, c.id = "id" ∧
        ((∀ resource action, (keyWith "a,b").row.parsed.hasPermission resource action =
          c.hasPermission resource action) ↔ Covered c.permissions) := by
  have hreturns : (storeWith "a,b").Returns id (keyWith "a,b").row.parsed :=
    .inl ⟨0, "lf_k".toList, by decide⟩
  obtain ⟨c, hc, hid, -, hiff⟩ := stored_permissions_iff id _ _ hreturns
  exact ⟨hreturns, c, hc, hid, hiff⟩

/-- The one permission `a:b,c:d` is lost, and two others are there instead. -/
theorem comma_changes_permissions : (storeWith "a:b,c:d").created = [keyWith "a:b,c:d"] ∧
      (storeWith "a:b,c:d").validate id 0 "lf_k".toList = .ok (keyWith "a:b,c:d").row.parsed ∧
      ((keyWith "a:b,c:d").hasPermission ['a'] "b,c:d".toList = true ∧
        (keyWith "a:b,c:d").row.parsed.hasPermission ['a'] "b,c:d".toList = false) ∧
      (keyWith "a:b,c:d").hasPermission ['c'] ['d'] = false ∧
        (keyWith "a:b,c:d").row.parsed.hasPermission ['c'] ['d'] = true := by
  decide

end LinkFlow.APIKeys
