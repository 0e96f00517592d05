/-
The user repository (`internal/user/adapters/db/repository/repository.go`) over the tables of
`migrations/000002_auth_tables.up.sql`.

A database is a set of tables that meet their constraints, and a write is refused if the tables
would not meet them afterwards. A user is read together with the roles and permissions that the
join tables give it. Writing a user writes its roles as well, but only adds to those tables: gorm
inserts what is missing and leaves every row that is there as it is.

A time is a number, and zero is Go's zero time. `kept` is what the database keeps of a time it
is given, and a trigger sets `updated_at` to the time of the transaction whenever a row is
updated.
-/
import LinkFlow.Lib.Sql

set_option autoImplicit false

namespace LinkFlow.Users

open List Option

/-! ## Records -/

structure Permission where
  (id name resource action : String)
  description : String := ""
  createdAt : ℤ := 0
deriving DecidableEq, Repr

/-- The columns of `Role`. -/
structure RoleRow where
  (id name : String)
  description : String := ""
  isSystem : Bool := false
  (createdAt updatedAt : ℤ := 0)
deriving DecidableEq, Repr

structure Role extends RoleRow where
  permissions : List Permission
deriving DecidableEq, Repr

/-- The columns of `User`, apart from the username. -/
structure Columns where
  (id email : String)
  (password firstName lastName avatar : String := "")
  emailVerified : Bool := false
  emailVerifyToken : String := ""
  twoFactorEnabled : Bool := false
  (twoFactorSecret status : String := "")
  lastLoginAt : Option ℤ := none
  (createdAt updatedAt : ℤ := 0)
deriving DecidableEq, Repr

structure User extends Columns where
  username : String := ""
  roles : List Role := []
deriving DecidableEq, Repr

/-- A row of `auth.users`. The username may be `NULL`, which is read as the empty text and is
equal to no text in a query. -/
structure UserRow extends Columns where
  username : Option String
deriving DecidableEq, Repr

/-- The tables; the join tables hold pairs of a user and a role, a role and a permission, and
a team and a user. -/
structure Tables where
  users : List UserRow
  roles : List RoleRow := []
  permissions : List Permission := []
  (userRoles rolePermissions teamMembers : List (String × String) := [])

namespace Tables

/-- The constraints: primary keys, unique columns, the `CHECK` of the status and foreign keys. A
status that is `NULL` is read as the empty text. -/
def Valid (t : Tables) : Prop :=
  (t.users.map (·.id)).Nodup ∧ (t.users.map (·.email)).Nodup ∧
  (t.users.filterMap (·.username)).Nodup ∧
  (∀ r ∈ t.users, r.status ∈ ["", "active", "inactive", "suspended", "deleted"]) ∧
  (t.roles.map (·.id)).Nodup ∧ (t.roles.map (·.name)).Nodup ∧
  (t.permissions.map (·.id)).Nodup ∧ (t.permissions.map (·.name)).Nodup ∧
  (t.permissions.map (fun p => (p.resource, p.action))).Nodup ∧
  (∀ l ∈ t.userRoles, l.1 ∈ t.users.map (·.id) ∧ l.2 ∈ t.roles.map (·.id)) ∧
  (∀ l ∈ t.rolePermissions, l.1 ∈ t.roles.map (·.id) ∧ l.2 ∈ t.permissions.map (·.id)) ∧
  ∀ l ∈ t.teamMembers, l.2 ∈ t.users.map (·.id)

instance : DecidablePred Valid := fun t => by
  delta Valid
  infer_instance

/-! ## Reading -/

/-- `Preload("Roles.Permissions")` -/
def rolesOf (t : Tables) (userID : String) : List Role :=
  (t.roles.filter (fun r => (userID, r.id) ∈ t.userRoles)).map (fun r =>
    { r with permissions := t.permissions.filter (fun p => (r.id, p.id) ∈ t.rolePermissions) })

/-- A row as the repository returns it. -/
def record (t : Tables) (r : UserRow) : User :=
  { r with username := r.username.getD "", roles := t.rolesOf r.id }

/-! ## Writing

An `INSERT … ON CONFLICT DO NOTHING` leaves a row out that would break a unique constraint. -/

def insertRole (t : Tables) (r : RoleRow) : Tables :=
  if ∃ r' ∈ t.roles, r'.id = r.id ∨ r'.name = r.name then t
  else { t with roles := t.roles ++ [r] }

def insertPermission (kept : ℤ → ℤ) (t : Tables) (p : Permission) : Tables :=
  if ∃ p' ∈ t.permissions, p'.id = p.id ∨ p'.name = p.name ∨
      (p'.resource = p.resource ∧ p'.action = p.action) then t
  else { t with permissions := t.permissions ++ [{ p with createdAt := kept p.createdAt }] }

def linkPermission (roleID : String) (t : Tables) (p : Permission) : Tables :=
  if (roleID, p.id) ∈ t.rolePermissions then t
  else { t with rolePermissions := t.rolePermissions ++ [(roleID, p.id)] }

def linkRole (t : Tables) (userID roleID : String) : Tables :=
  if (userID, roleID) ∈ t.userRoles then t
  else { t with userRoles := t.userRoles ++ [(userID, roleID)] }

def saveRole (kept : ℤ → ℤ) (userID : String) (t : Tables) (role : Role) : Tables :=
  let t := t.insertRole
    { role.toRoleRow with createdAt := kept role.createdAt, updatedAt := kept role.updatedAt }
  let t := role.permissions.foldl (insertPermission kept) t
  let t := role.permissions.foldl (linkPermission role.id) t
  t.linkRole userID role.id

def saveRoles (t : Tables) (kept : ℤ → ℤ) (userID : String) (roles : List Role) : Tables :=
  roles.foldl (saveRole kept userID) t

/-- `UPDATE auth.users SET … WHERE id IN (…)` and the trigger, on one row -/
def written (current : ℤ) (ids : List String) (set : UserRow → UserRow) (r : UserRow) : UserRow :=
  if r.id ∈ ids then { set r with updatedAt := current } else r

def update (t : Tables) (current : ℤ) (ids : List String) (set : UserRow → UserRow) : Tables :=
  { t with users := t.users.map (written current ids set) }

end Tables

/-- Tables that meet their constraints. -/
def Database := { t : Tables // t.Valid }

/-- `none` where the database refuses the write. -/
def Tables.commit (t : Tables) : Option Database := if h : t.Valid then some ⟨t, h⟩ else none

/-- The clock of gorm, the time of the transaction, and how the database sorts by an expression,
which it may refuse, and puts equal rows. -/
structure Env where
  (now current : ℤ)
  column : String → Option (UserRow → ℤ)
  tie : UserRow → ℕ

structure ListUsersOptions where
  (page limit : ℤ := 0)
  (status roleID teamID sortBy : String := "")
  (sortDesc includeRoles : Bool := false)

/-- What a user is looked up by. -/
inductive Key
  | id (id : String)
  | email (email : String)
  | username (username : String)
deriving DecidableEq, Repr

def Key.matches : Key → UserRow → Bool
  | .id i, r => r.id = i
  | .email e, r => r.email = e
  | .username n, r => r.username = some n

def orElse (new old : String) : String := if new = "" then old else new

/-- `Model(u).Updates(u)` on the row of the user -/
def merge (kept : ℤ → ℤ) (u : User) (r : UserRow) : UserRow :=
  { id := r.id
    email := orElse u.email r.email
    username := if u.username = "" then r.username else some u.username
    password := orElse u.password r.password
    firstName := orElse u.firstName r.firstName
    lastName := orElse u.lastName r.lastName
    avatar := orElse u.avatar r.avatar
    emailVerified := u.emailVerified || r.emailVerified
    emailVerifyToken := orElse u.emailVerifyToken r.emailVerifyToken
    twoFactorEnabled := u.twoFactorEnabled || r.twoFactorEnabled
    twoFactorSecret := orElse u.twoFactorSecret r.twoFactorSecret
    status := orElse u.status r.status
    lastLoginAt := (u.lastLoginAt.map kept).or r.lastLoginAt
    createdAt := if u.createdAt = 0 then r.createdAt else kept u.createdAt
    updatedAt := r.updatedAt }

def filled (now t : ℤ) : ℤ := if t = 0 then now else t

def Permission.created (now : ℤ) (p : Permission) : Permission :=
  { p with createdAt := filled now p.createdAt }

def Role.created (now : ℤ) (r : Role) : Role :=
  { r with
    createdAt := filled now r.createdAt, updatedAt := filled now r.updatedAt,
    permissions := r.permissions.map (Permission.created now) }

/-- What gorm makes of the record of a user it creates. -/
def User.created (now : ℤ) (u : User) : User :=
  { u with
    status := if u.status = "" then "active" else u.status
    createdAt := filled now u.createdAt
    updatedAt := filled now u.updatedAt
    roles := u.roles.map (Role.created now) }

/-- What gorm makes of the record of a user it updates; roles are created if they are missing. -/
def User.updated (now : ℤ) (u : User) : User :=
  { u with updatedAt := now, roles := u.roles.map (Role.created now) }

def newRow (kept : ℤ → ℤ) (u : User) : UserRow :=
  { u.toColumns with
    username := some u.username, lastLoginAt := u.lastLoginAt.map kept,
    createdAt := kept u.createdAt, updatedAt := kept u.updatedAt }

namespace Database

variable (kept : ℤ → ℤ) (env : Env) (db : Database)

abbrev users : List UserRow := db.1.users

abbrev rolesOf (userID : String) : List Role := db.1.rolesOf userID

abbrev record (r : UserRow) : User := db.1.record r

/-- The user found by a key. -/
def lookup (key : Key) : Option User := (db.users.find? key.matches).map db.record

def getBy (key : Key) : Except String User :=
  match db.lookup key with
  | none => .error "user not found"
  | some u => .ok u

def getByID (id : String) : Except String User := db.getBy (.id id)

def getByEmail (email : String) : Except String User := db.getBy (.email email)

def getByUsername (username : String) : Except String User := db.getBy (.username username)

/-- `Create`, with what it makes of the caller's record. -/
def create (u : User) : Option (Database × User) :=
  let u := u.created env.now
  -- the user and its roles are written in one transaction
  let t := { db.1 with users := db.users ++ [newRow kept u] }
  ((t.saveRoles kept u.id u.roles).commit).map (fun db => (db, u))

/-- `Update`, with what it makes of the caller's record; without an identifier gorm refuses to
update at all. -/
def update (u : User) : Option (Database × User) :=
  if u.id = "" then none
  else
    let u := u.updated env.now
    -- without a row for the user nothing is updated, which is no error
    let t := db.1.update env.current [u.id] (merge kept u)
    ((t.saveRoles kept u.id u.roles).commit).map (fun db => (db, u))

def delete (id : String) : Option Database :=
  (db.1.update env.current [id] (fun r => { r with status := "deleted" })).commit

def updateLastLogin (userID : String) : Option Database :=
  (db.1.update env.current [userID] (fun r => { r with lastLoginAt := some (kept env.now) })).commit

/-- `updates` are the columns and values of the map. -/
def bulkUpdate (userIDs : List String) (updates : UserRow → UserRow) : Option Database :=
  (db.1.update env.current userIDs updates).commit

def bulkDelete (userIDs : List String) : Option Database :=
  (db.1.update env.current userIDs (fun r => { r with status := "deleted" })).commit

def assignRole (userID roleID : String) : Option Database :=
  if (∃ r ∈ db.users, r.id = userID) ∧ ∃ r ∈ db.1.roles, r.id = roleID then
    ((db.1.update env.current [userID] id).linkRole userID roleID).commit
  else none

def removeRole (userID roleID : String) : Option Database :=
  if (∃ r ∈ db.users, r.id = userID) ∧ ∃ r ∈ db.1.roles, r.id = roleID then
    Tables.commit { db.1 with userRoles := db.1.userRoles.filter (· ≠ (userID, roleID)) }
  else none

/-- The rows `ListUsers` asks for. -/
def listed (opts : ListUsersOptions) : List UserRow :=
  db.users.filter (fun r =>
    (opts.status = "" ∨ r.status = opts.status) ∧
    (opts.roleID = "" ∨ (r.id, opts.roleID) ∈ db.1.userRoles) ∧
    (opts.teamID = "" ∨ (opts.teamID, r.id) ∈ db.1.teamMembers))

/-- Its sorting; `none` where the database refuses the expression. -/
def sorted (opts : ListUsersOptions) (rows : List UserRow) : Option (List UserRow) :=
  if opts.sortBy = "" then some (Sql.orderBy (fun r => -r.createdAt) env.tie rows)
  else (env.column opts.sortBy).map (fun column =>
    Sql.orderBy (fun r => if opts.sortDesc then -column r else column r) env.tie rows)

def paginated (opts : ListUsersOptions) (rows : List UserRow) : List UserRow :=
  if 0 < opts.page ∧ 0 < opts.limit then
    Sql.page opts.limit ((opts.page - 1) * opts.limit).toNat rows
  else rows

def listedUser (opts : ListUsersOptions) (r : UserRow) : User :=
  { db.record r with roles := if opts.includeRoles then db.rolesOf r.id else [] }

def listUsers (opts : ListUsersOptions) : Option (List User × ℕ) :=
  (sorted env opts (db.listed opts)).map (fun rows =>
    ((paginated opts rows).map (db.listedUser opts), (db.listed opts).length))

end Database

/-! ## Looking up -/

section Lookup

variable {db : Database} {key : Key} {u : User}

theorem eq_of_matches {r r' : UserRow} (hr : r ∈ db.users) (hr' : r' ∈ db.users)
    (h : key.matches r = true) (h' : key.matches r' = true) : r = r' := by
  obtain ⟨hids, hemails, hnames, -⟩ := db.2
  cases key with
  | id id =>
    have heq : r.id = r'.id := (of_decide_eq_true h).trans (of_decide_eq_true h').symm
    exact inj_on_of_nodup_map hids hr hr' heq
  | email email =>
    have heq : r.email = r'.email := (of_decide_eq_true h).trans (of_decide_eq_true h').symm
    exact inj_on_of_nodup_map hemails hr hr' heq
  | username name =>
    by_contra hne
    have hpair := pairwise_filterMap.mp hnames
    have hsymm : Std.Symm (fun a b : UserRow => ∀ x, a.username = some x →
        ∀ y, b.username = some y → x ≠ y) := ⟨fun a b hab x hx y hy => (hab y hy x hx).symm⟩
    exact hpair.forall hr hr' hne name (of_decide_eq_true h) name (of_decide_eq_true h') rfl

theorem lookup_eq_some_iff :
    db.lookup key = some u ↔ ∃ r ∈ db.users, key.matches r = true ∧ db.record r = u := by
  rw [Database.lookup, map_eq_some_iff]
  constructor
  · rintro ⟨r, hfind, hu⟩
    exact ⟨r, mem_of_find?_eq_some hfind, find?_some hfind, hu⟩
  rintro ⟨r, hr, hmatch, hu⟩
  obtain ⟨r', hfind⟩ := isSome_iff_exists.mp (find?_isSome.mpr ⟨r, hr, hmatch⟩)
  have heq : r' = r :=
    eq_of_matches (mem_of_find?_eq_some hfind) hr (find?_some hfind) hmatch
  exact ⟨r', hfind, heq ▸ hu⟩

theorem lookup_of_mem {r : UserRow} (hr : r ∈ db.users) (h : key.matches r = true) :
    db.lookup key = some (db.record r) :=
  lookup_eq_some_iff.mpr ⟨r, hr, h, rfl⟩

theorem key_of_lookup (h : db.lookup key = some u) :
    key = .id u.id ∨ key = .email u.email ∨ key = .username u.username := by
  obtain ⟨r, -, hmatch, rfl⟩ := lookup_eq_some_iff.mp h
  cases key with
  | id id => exact .inl (congrArg Key.id (of_decide_eq_true hmatch).symm)
  | email email => exact .inr (.inl (congrArg Key.email (of_decide_eq_true hmatch).symm))
  | username name =>
    have hname : r.username = some name := of_decide_eq_true hmatch
    refine .inr (.inr (congrArg Key.username ?_))
    rw [Database.record, Tables.record, hname, getD_some]

theorem lookup_id_of_lookup (h : db.lookup key = some u) : db.lookup (.id u.id) = some u := by
  obtain ⟨r, hr, -, rfl⟩ := lookup_eq_some_iff.mp h
  exact lookup_of_mem hr (decide_eq_true rfl)

theorem lookup_email_of_lookup (h : db.lookup key = some u) :
    db.lookup (.email u.email) = some u := by
  obtain ⟨r, hr, -, rfl⟩ := lookup_eq_some_iff.mp h
  exact lookup_of_mem hr (decide_eq_true rfl)

theorem lookup_username_of_lookup (h : db.lookup key = some u) (hname : u.username ≠ "") :
    db.lookup (.username u.username) = some u := by
  obtain ⟨r, hr, -, rfl⟩ := lookup_eq_some_iff.mp h
  refine lookup_of_mem hr (decide_eq_true ?_)
  cases hr' : r.username with
  | none => exact absurd (by rw [Database.record, Tables.record, hr', getD_none]) hname
  | some name => rw [Database.record, Tables.record, hr', getD_some]

end Lookup

/-! ## What a write leaves alone -/

section Writes

variable {t : Tables} {db db' : Database}

theorem tables_of_commit (h : t.commit = some db) : db.1 = t := by
  rw [Tables.commit] at h
  split_ifs at h
  rw [← some.inj h]

theorem users_linkRole (t : Tables) (userID roleID : String) :
    (t.linkRole userID roleID).users = t.users := by
  rw [Tables.linkRole, apply_ite Tables.users, ite_self]

/-- What is written for the roles of a record does not depend on the users. -/
theorem saveRoles_users (t : Tables) (users : List UserRow) (kept : ℤ → ℤ) (userID : String)
    (roles : List Role) : { t with users }.saveRoles kept userID roles =
      { t.saveRoles kept userID roles with users } := by
  refine foldl_hom (fun t : Tables => { t with users }) (fun t role => ?_)
  have hrole : ∀ r, { t with users }.insertRole r = { t.insertRole r with users } := by
    intro r
    rw [Tables.insertRole, Tables.insertRole]
    split_ifs <;> rfl
  have hpermissions : ∀ t : Tables,
      role.permissions.foldl (Tables.insertPermission kept) { t with users } =
        { role.permissions.foldl (Tables.insertPermission kept) t with users } := by
    refine fun t => foldl_hom (fun t : Tables => { t with users }) (fun t p => ?_)
    rw [Tables.insertPermission, Tables.insertPermission]
    split_ifs <;> rfl
  have hlinks : ∀ t : Tables,
      role.permissions.foldl (Tables.linkPermission role.id) { t with users } =
        { role.permissions.foldl (Tables.linkPermission role.id) t with users } := by
    refine fun t => foldl_hom (fun t : Tables => { t with users }) (fun t p => ?_)
    rw [Tables.linkPermission, Tables.linkPermission]
    split_ifs <;> rfl
  rw [Tables.saveRole, Tables.saveRole, hrole]
  dsimp only
  rw [hpermissions, hlinks, Tables.linkRole, Tables.linkRole]
  split_ifs <;> rfl

theorem users_saveRoles (t : Tables) (kept : ℤ → ℤ) (userID : String) (roles : List Role) :
    (t.saveRoles kept userID roles).users = t.users := by
  have husers := congrArg Tables.users (saveRoles_users t t.users kept userID roles)
  exact husers

/-- A call that changes the users with these identifiers and no others, and does not change what
they are found by. -/
structure Touches (db db' : Database) (ids : List String) : Prop where
  others : ∀ r ∈ db.users, r.id ∉ ids → r ∈ db'.users ∧ db'.rolesOf r.id = db.rolesOf r.id
  own : ∀ r ∈ db.users, r.id ∈ ids →
    ∃ r' ∈ db'.users, r'.id = r.id ∧ r'.email = r.email ∧ r'.username = r.username

variable {ids : List String} {set : UserRow → UserRow} {current : ℤ} {u : User}

theorem mem_update_of_mem {r : UserRow} (hr : r ∈ t.users) (hids : r.id ∈ ids) :
    { set r with updatedAt := current } ∈ (t.update current ids set).users :=
  mem_map.mpr ⟨r, hr, if_pos hids⟩

theorem mem_update_of_not_mem {r : UserRow} (hr : r ∈ t.users) (hids : r.id ∉ ids) :
    r ∈ (t.update current ids set).users :=
  mem_map.mpr ⟨r, hr, if_neg hids⟩

theorem touches_of_users (husers : db'.users = (db.1.update current ids set).users)
    (hset : ∀ r, (set r).id = r.id ∧ (set r).email = r.email ∧ (set r).username = r.username)
    (hroles : ∀ id, id ∉ ids → db'.rolesOf id = db.rolesOf id) : Touches db db' ids := by
  refine ⟨fun r hr hids => ⟨?_, hroles r.id hids⟩, fun r hr hids => ?_⟩
  · rw [husers]
    exact mem_update_of_not_mem hr hids
  · refine ⟨{ set r with updatedAt := current }, ?_, (hset r).1, (hset r).2.1, (hset r).2.2⟩
    rw [husers]
    exact mem_update_of_mem hr hids

theorem touches_update (h : (db.1.update current ids set).commit = some db')
    (hset : ∀ r, (set r).id = r.id ∧ (set r).email = r.email ∧ (set r).username = r.username) :
    Touches db db' ids := by
  have htables := tables_of_commit h
  refine touches_of_users (congrArg Tables.users htables) hset (fun id _ => ?_)
  rw [Database.rolesOf, htables]
  rfl

theorem rolesOf_linkRole_of_ne {userID roleID other : String} (hne : other ≠ userID) :
    (t.linkRole userID roleID).rolesOf other = t.rolesOf other := by
  rw [Tables.linkRole]
  split_ifs
  · rfl
  · simp [Tables.rolesOf, hne]

theorem touches_assignRole {env : Env} {userID roleID : String}
    (h : db.assignRole env userID roleID = some db') : Touches db db' [userID] := by
  rw [Database.assignRole] at h
  split_ifs at h
  have htables := tables_of_commit h
  have husers : db'.users = (db.1.update env.current [userID] id).users :=
    (congrArg Tables.users htables).trans (users_linkRole _ _ _)
  refine touches_of_users husers (fun _ => ⟨rfl, rfl, rfl⟩) (fun other hids => ?_)
  have hne : other ≠ userID := fun heq => hids (mem_singleton.mpr heq)
  rw [Database.rolesOf, htables, rolesOf_linkRole_of_ne hne]
  rfl

theorem touches_removeRole {userID roleID : String}
    (h : db.removeRole userID roleID = some db') : Touches db db' [userID] := by
  rw [Database.removeRole] at h
  split_ifs at h
  have htables := tables_of_commit h
  have husers : db'.users = db.users := by rw [Database.users, htables]
  refine ⟨fun r hr hids => ⟨husers ▸ hr, ?_⟩, fun r hr _ => ⟨r, husers ▸ hr, rfl, rfl, rfl⟩⟩
  have hne : r.id ≠ userID := fun heq => hids (mem_singleton.mpr heq)
  rw [Database.rolesOf, htables]
  simp [Tables.rolesOf, hne]

/-- Other users are found as before. -/
theorem Touches.lookup_eq (h : Touches db db' ids) {key : Key} (hlookup : db.lookup key = some u)
    (hids : u.id ∉ ids) : db'.lookup key = db.lookup key := by
  obtain ⟨r, hr, hmatch, rfl⟩ := lookup_eq_some_iff.mp hlookup
  obtain ⟨hr', hroles⟩ := h.others r hr hids
  rw [hlookup, lookup_of_mem hr' hmatch, Database.record, Database.record, Tables.record,
    Tables.record]
  simp only [hroles]

theorem Touches.exists_lookup (h : Touches db db' ids) {key : Key}
    (hlookup : db.lookup key = some u) (hids : u.id ∈ ids) :
    ∃ u', db'.lookup (.id u.id) = some u' ∧ u'.id = u.id ∧ u'.email = u.email ∧
      u'.username = u.username := by
  obtain ⟨r, hr, -, rfl⟩ := lookup_eq_some_iff.mp hlookup
  obtain ⟨r', hr', hid, hemail, hname⟩ := h.own r hr hids
  refine ⟨db'.record r', lookup_of_mem hr' (decide_eq_true hid), hid, hemail, ?_⟩
  exact congrArg (fun name : Option String => name.getD "") hname

theorem mem_listUsers {env : Env} {opts : ListUsersOptions} {us : List User} {total : ℕ}
    (h : db.listUsers env opts = some (us, total)) (hu : u ∈ us) :
    ∃ r ∈ db.users, u = db.listedUser opts r := by
  obtain ⟨rows, hrows, hus⟩ := map_eq_some_iff.mp h
  obtain ⟨rfl, -⟩ := Prod.mk.inj hus
  obtain ⟨r, hr, rfl⟩ := mem_map.mp hu
  refine ⟨r, ?_, rfl⟩
  have hpage : r ∈ rows := by
    rw [Database.paginated] at hr
    split_ifs at hr
    · exact (Sql.page_sublist _ _ _).subset hr
    · exact hr
  have hlisted : r ∈ db.listed opts := by
    rw [Database.sorted] at hrows
    by_cases hsort : opts.sortBy = ""
    · rw [if_pos hsort] at hrows
      rw [← some.inj hrows] at hpage
      exact (Sql.mem_orderBy _ _ _).mp hpage
    · rw [if_neg hsort] at hrows
      obtain ⟨column, -, rfl⟩ := map_eq_some_iff.mp hrows
      exact (Sql.mem_orderBy _ _ _).mp hpage
  exact (mem_filter.mp hlisted).1

end Writes

end LinkFlow.Users
