/-
The caching user repository (`internal/user/adapters/db/repository/cached_repository.go`) over
`pkg/cache` and the repository of `UserRepository.lean`.

A user is cached under its identifier, its e-mail and its username, and readers ask the cache
first. The records that calls put there differ: a read caches what the database has, a list
caches users whose roles were not loaded, and `Create` and `Update` cache what the caller passed
in. All of them lose the fields that JSON leaves out. `State.Ok` is what each call needs for the
three reads to stay equal to those of the repository below; `CachedUserRuns.lean` proves it.

The cache works, and an entry may expire at any time. A key is the text of its kind and its
value, such as `email:…`; the kinds differ before the first colon, so keys of different kinds are
different texts. The caches for searches, counts, roles and teams are keys of other kinds, which
the three reads do not look at.
-/
import LinkFlow.Lib.ReadCache
import LinkFlow.UserRepository

set_option autoImplicit false

namespace LinkFlow.Users

open ReadCache (Write Coherent Agree write)

/-! ## The cache -/

/-- What is left of a user in JSON: the fields with `json:"-"` are read back empty. -/
def User.json (u : User) : User :=
  { u with password := "", emailVerifyToken := "", twoFactorSecret := "" }

/-- The user has none of the fields JSON leaves out. -/
def User.Plain (u : User) : Prop :=
  u.password = "" ∧ u.emailVerifyToken = "" ∧ u.twoFactorSecret = ""

/-- `Set` of a user. -/
def put (u : User) (key : Key) : Write Key User := .set key u.json

/-- `Set` of several users, each under some keys. -/
def putAll (users : List User) (keys : User → List Key) : List (Write Key User) :=
  users.flatMap (fun u => (keys u).map (put u))

/-- The database, the users cached and the lists cached. -/
structure State where
  db : Database
  cache : GoMap Key User := ∅
  lists : GoMap String (List User × ℕ) := ∅

/-- The key of a list, which has no part for `IncludeRoles`. -/
def listKey (opts : ListUsersOptions) : String :=
  "list:" ++ toString opts.page ++ ":" ++ toString opts.limit ++ ":" ++ opts.status ++ ":" ++
    opts.roleID ++ ":" ++ opts.teamID ++ ":" ++ opts.sortBy ++ ":" ++ toString opts.sortDesc

namespace State

variable (kept : ℤ → ℤ) (env : Env) (s : State)

/-! ## Reads -/

/-- The reads by a key; `keys` are those the user is cached under on a miss. -/
def getBy (key : Key) (keys : User → List Key) : Except String User × State :=
  match s.cache.lookup key with
  | some u => (.ok u, s)
  | none => match s.db.getBy key with
    | .error e => (.error e, s)
    | .ok u => (.ok u, { s with cache := write s.cache ((keys u).map (put u)) })

def getByID (id : String) : Except String User × State := s.getBy (.id id) (fun _ => [.id id])

/-- `GetByEmail`, which also caches by identifier. -/
def getByEmail (email : String) : Except String User × State :=
  s.getBy (.email email) (fun u => [.email email, .id u.id])

def getByUsername (username : String) : Except String User × State :=
  s.getBy (.username username) (fun _ => [.username username])

/-- `none` where it returns an error. -/
def listUsers (opts : ListUsersOptions) : Option (List User × ℕ) × State :=
  match s.lists.lookup (listKey opts) with
  | some result => (some result, s)
  | none => match s.db.listUsers env opts with
    | none => (none, s)
    | some (users, total) =>
      -- the users are cached with the roles they were loaded with
      (some (users, total), { s with
          lists := s.lists.insert (listKey opts) (users.map User.json, total),
          cache := write s.cache (putAll users (fun u => [.id u.id])) })

/-- The options of `WarmUpCache`. -/
def warmUpOptions : ListUsersOptions :=
  { status := "active", page := 1, limit := 100, sortBy := "last_login_at" }

def warmUpCache : State :=
  match s.db.listUsers env warmUpOptions with
  | none => s
  | some (users, _) =>
    { s with cache := write s.cache (putAll users (fun u => [.id u.id, .email u.email])) }

/-! ## Writes

A call that returns an error leaves everything as it is. -/

def keysOf (id : String) (u : User) : List Key :=
  .id id :: .email u.email :: (if u.username ≠ "" then [.username u.username] else [])

def invalidateUserCache (s : State) (userID : String) : State :=
  match s.db.lookup (.id userID) with
  | none => s
  | some u => { s with cache := write s.cache ((keysOf userID u).map .delete), lists := ∅ }

def create (u : User) : State :=
  match s.db.create kept env u with
  | none => s
  | some (db, u) =>
    { db, cache := write s.cache ([.id u.id, .email u.email].map (put u)), lists := ∅ }

/-- The e-mail that `Update` deletes from the cache; an old username is not deleted. -/
def staleEmail (old : Option User) (u : User) : List (Write Key User) :=
  match old with
  | none => []
  | some o => if o.email ≠ u.email then [.delete (.email o.email)] else []

/-- What `Update` writes to the cache. -/
def updateWrites (old : Option User) (u : User) : List (Write Key User) :=
  staleEmail old u ++ (keysOf u.id u).map (put u)

def update (u : User) : State :=
  match s.db.update kept env u with
  | none => s
  | some (db, u) =>
    { db, cache := write s.cache (updateWrites (s.db.lookup (.id u.id)) u), lists := ∅ }

/-- What `Delete` deletes from the cache. -/
def deleteKeys (old : Option User) (id : String) : List Key :=
  match old with
  | none => [.id id]
  | some u => keysOf id u

def delete (id : String) : State :=
  match s.db.delete env id with
  | none => s
  | some db =>
    { db
      cache := write s.cache ((deleteKeys (s.db.lookup (.id id)) id).map .delete)
      lists := ∅ }

/-- The writes that end in `InvalidateUserCache` for every user concerned. -/
def thenInvalidate (db : Option Database) (userIDs : List String) : State :=
  match db with
  | none => s
  | some db => userIDs.foldl invalidateUserCache { s with db }

def updateLastLogin (userID : String) : State :=
  s.thenInvalidate (s.db.updateLastLogin kept env userID) [userID]

/-- `HardDelete`, which is `Delete`. -/
def hardDelete (id : String) : State := s.delete env id

def bulkUpdate (userIDs : List String) (updates : UserRow → UserRow) : State :=
  s.thenInvalidate (s.db.bulkUpdate env userIDs updates) userIDs

def bulkDelete (userIDs : List String) : State :=
  s.thenInvalidate (s.db.bulkDelete env userIDs) userIDs

def assignRole (userID roleID : String) : State :=
  s.thenInvalidate (s.db.assignRole env userID roleID) [userID]

def removeRole (userID roleID : String) : State :=
  s.thenInvalidate (s.db.removeRole userID roleID) [userID]

end State

/-- The calls, and the expiry of an entry. `other` are the reads that use other keys, such as
`Search`. -/
inductive Call
  | getByID (id : String)
  | getByEmail (email : String)
  | getByUsername (username : String)
  | listUsers (env : Env) (opts : ListUsersOptions)
  | warmUpCache (env : Env)
  | other
  | create (env : Env) (u : User)
  | update (env : Env) (u : User)
  | delete (env : Env) (id : String)
  | hardDelete (env : Env) (id : String)
  | updateLastLogin (env : Env) (userID : String)
  | bulkUpdate (env : Env) (userIDs : List String) (updates : UserRow → UserRow)
  | bulkDelete (env : Env) (userIDs : List String)
  | assignRole (env : Env) (userID roleID : String)
  | removeRole (userID roleID : String)
  | invalidateUserCache (userID : String)
  | expire (key : Key)
  | expireList (key : String)

namespace State

variable (kept : ℤ → ℤ)

def step (s : State) : Call → State
  | .getByID id => (s.getByID id).2
  | .getByEmail email => (s.getByEmail email).2
  | .getByUsername username => (s.getByUsername username).2
  | .listUsers env opts => (s.listUsers env opts).2
  | .warmUpCache env => s.warmUpCache env
  | .other => s
  | .create env u => s.create kept env u
  | .update env u => s.update kept env u
  | .delete env id => s.delete env id
  | .hardDelete env id => s.hardDelete env id
  | .updateLastLogin env userID => s.updateLastLogin kept env userID
  | .bulkUpdate env userIDs updates => s.bulkUpdate env userIDs updates
  | .bulkDelete env userIDs => s.bulkDelete env userIDs
  | .assignRole env userID roleID => s.assignRole env userID roleID
  | .removeRole userID roleID => s.removeRole userID roleID
  | .invalidateUserCache userID => s.invalidateUserCache userID
  | .expire key => { s with cache := write s.cache [.delete key] }
  | .expireList key => { s with lists := s.lists.erase key }

/-! ## What must hold -/

end State

/-- JSON and the database keep the record of a user that is created. -/
def Stored (kept : ℤ → ℤ) (u : User) : Prop :=
  u.Plain ∧ u.lastLoginAt.map kept = u.lastLoginAt ∧ kept u.createdAt = u.createdAt ∧
    kept u.updatedAt = u.updatedAt

/-- A record that is passed to `Update` is whole: it has what the row of the user has, none of the
fields JSON leaves out, and times that the database keeps. -/
structure Whole (kept : ℤ → ℤ) (env : Env) (u : User) (r : UserRow) : Prop where
  hidden : ∀ text ∈ [u.password, r.password, u.emailVerifyToken, r.emailVerifyToken,
    u.twoFactorSecret, r.twoFactorSecret], text = ""
  texts : ∀ field ∈ [(u.email, r.email), (u.username, r.username.getD ""),
    (u.firstName, r.firstName), (u.lastName, r.lastName), (u.avatar, r.avatar),
    (u.status, r.status)], field.1 = "" → field.2 = ""
  flags : ∀ flag ∈ [(u.emailVerified, r.emailVerified), (u.twoFactorEnabled, r.twoFactorEnabled)],
    flag.2 = true → flag.1 = true
  lastLoginAt : (u.lastLoginAt.map kept).or r.lastLoginAt = u.lastLoginAt
  createdAt : (if u.createdAt = 0 then r.createdAt else kept u.createdAt) = u.createdAt
  updatedAt : env.current = env.now

namespace State

variable (kept : ℤ → ℤ)

/-- The three reads return what the repository would. -/
def Transparent (s : State) : Prop :=
  (∀ id, (s.getByID id).1 = s.db.getByID id) ∧
  (∀ email, (s.getByEmail email).1 = s.db.getByEmail email) ∧
  ∀ username, (s.getByUsername username).1 = s.db.getByUsername username

variable (s : State)

def ReadOk (key : Key) : Prop := key ∉ s.cache → ∀ u, s.db.lookup key = some u → u.Plain

def ListOk (users : List User) : Prop := ∀ u ∈ users, u.Plain ∧ u.roles = s.db.rolesOf u.id

/-- What is written for the roles of the record gives the user those roles, and no other user that
is cached any. -/
def RolesSaved (u : User) : Prop :=
  (s.db.1.saveRoles kept u.id u.roles).rolesOf u.id = u.roles ∧
  ∀ key ∈ s.cache, ∀ v, s.db.lookup key = some v → v.id ≠ u.id →
    (s.db.1.saveRoles kept u.id u.roles).rolesOf v.id = s.db.rolesOf v.id

/-- If the user of the row is cached under its username, the record keeps the name; an empty one is
not written again, so that it must keep the user. -/
def NameKept (u : User) (r : UserRow) : Prop :=
  ∀ name ∈ r.username, Key.username name ∈ s.cache →
    name = u.username ∧ (name = "" → s.db.record r = u.json)

/-- A key that finds the row is one of those deleted afterwards, or still finds the same user. -/
def KeyKept (current : ℤ) (ids : List String) (set : UserRow → UserRow) (r : UserRow) (key : Key) :
    Prop :=
  ∃ q ∈ s.db.users.map (Tables.written current ids set),
    q.id ∈ ids ∧ key ∈ keysOf q.id (s.db.record q) ∨
      key.matches q = true ∧ s.db.record q = s.db.record r

def EmptyNameKept (db : Database) : Prop :=
  Key.username "" ∈ s.cache → db.lookup (.username "") = s.db.lookup (.username "")

/-- What each call needs. -/
def Ok : Call → Prop
  | .getByID id => s.ReadOk (.id id)
  | .getByEmail email => s.ReadOk (.email email)
  | .getByUsername username => s.ReadOk (.username username)
  | .listUsers env opts => s.lists.lookup (listKey opts) = none →
      ∀ users total, s.db.listUsers env opts = some (users, total) → s.ListOk users
  | .warmUpCache env =>
    ∀ users total, s.db.listUsers env warmUpOptions = some (users, total) → s.ListOk users
  | .create env u => s.db.create kept env u ≠ none →
      Stored kept (u.created env.now) ∧ s.RolesSaved kept (u.created env.now)
  | .update env u => s.db.update kept env u ≠ none →
      ∃ r ∈ s.db.users, r.id = u.id ∧ Whole kept env u r ∧ s.NameKept (u.updated env.now) r ∧
        s.RolesSaved kept (u.updated env.now)
  | .delete env id | .hardDelete env id => ∀ db, s.db.delete env id = some db → s.EmptyNameKept db
  | .updateLastLogin env userID =>
    ∀ db, s.db.updateLastLogin kept env userID = some db → s.EmptyNameKept db
  | .bulkUpdate env userIDs updates => s.db.bulkUpdate env userIDs updates ≠ none →
      ∀ r ∈ s.db.users, r.id ∈ userIDs → ∀ key ∈ s.cache, key.matches r = true →
        s.KeyKept env.current userIDs updates r key
  | .bulkDelete env userIDs => ∀ db, s.db.bulkDelete env userIDs = some db → s.EmptyNameKept db
  | .assignRole env userID roleID =>
    ∀ db, s.db.assignRole env userID roleID = some db → s.EmptyNameKept db
  | .removeRole userID roleID => ∀ db, s.db.removeRole userID roleID = some db → s.EmptyNameKept db
  | .other | .invalidateUserCache _ | .expire _ | .expireList _ => True

end State

end LinkFlow.Users
