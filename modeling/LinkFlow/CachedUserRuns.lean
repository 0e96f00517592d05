/-
Sequences of calls on the caching user repository of `CachedUsers.lean`.

The three reads are transparent exactly if the cache is coherent with the database
(`transparent_iff_coherent`), so every call is settled by one of the rules of `Lib/ReadCache.lean`:
reads and lists set keys while the database stays, writes change the database and set or delete
keys. What remains is which keys can find a user that a call has changed (`key_of_lookup`), and
which of them the call writes (`keysOf`). The one it forgets is the username: an old one in
`Update`, and an empty one everywhere.
-/
import LinkFlow.CachedUsers
import LinkFlow.Lib.Runs

set_option autoImplicit false

namespace LinkFlow.Users

open List Option

open ReadCache (Write Coherent Agree write)

/-! ## Transparency is coherence -/

theorem User.json_eq_self_iff (u : User) : u.json = u ↔ u.Plain := by
  obtain ⟨columns, username, roles⟩ := u
  obtain ⟨⟩ := columns
  simp [User.json, User.Plain, eq_comm]

theorem getBy_eq_ok_iff {db : Database} {key : Key} {u : User} :
    db.getBy key = .ok u ↔ db.lookup key = some u := by
  rw [Database.getBy]
  cases db.lookup key with
  | none => simp
  | some v => simp

namespace State

variable {kept : ℤ → ℤ} {env : Env} {s : State}

theorem getBy_fst_iff (key : Key) (keys : User → List Key) : (s.getBy key keys).1 = s.db.getBy key ↔
      ∀ u, s.cache.lookup key = some u → s.db.lookup key = some u := by
  cases hcache : s.cache.lookup key with
  | some u =>
    have hhit : (s.getBy key keys).1 = .ok u := by rw [getBy, hcache]
    rw [hhit, eq_comm, getBy_eq_ok_iff]
    simp
  | none =>
    have hmiss : (s.getBy key keys).1 = s.db.getBy key := by
      rw [getBy, hcache]
      cases s.db.getBy key with
      | error e => rfl
      | ok u => rfl
    simp [hmiss]

/-- The reads see the database exactly if the cache repeats it. -/
theorem transparent_iff_coherent : s.Transparent ↔ Coherent s.db.lookup s.cache := by
  rw [Transparent]
  constructor
  · rintro ⟨hid, hemail, hname⟩ key
    cases key with
    | id id => exact (getBy_fst_iff _ _).mp (hid id)
    | email email => exact (getBy_fst_iff _ _).mp (hemail email)
    | username name => exact (getBy_fst_iff _ _).mp (hname name)
  · intro h
    exact ⟨fun id => (getBy_fst_iff _ _).mpr (h (.id id)),
      fun email => (getBy_fst_iff _ _).mpr (h (.email email)),
      fun name => (getBy_fst_iff _ _).mpr (h (.username name))⟩

/-! ## Reads -/

variable {u : User} {keys : List Key} {key : Key} {db db' : Database} {r : UserRow}
   {old : Option User}

theorem coherent_put_iff (hc : Coherent s.db.lookup s.cache) (hne : keys ≠ [])
    (hkeys : ∀ key ∈ keys, s.db.lookup key = some u) :
    Coherent s.db.lookup (write s.cache (keys.map (put u))) ↔ u.Plain := by
  refine (hc.set_iff keys u.json).trans ?_
  rw [← u.json_eq_self_iff]
  constructor
  · rintro ⟨hset, -⟩
    obtain ⟨key, hkey⟩ := exists_mem_of_ne_nil keys hne
    have hfound := hset key hkey
    rw [hkeys key hkey] at hfound
    exact (some.inj hfound).symm
  · intro hplain
    refine ⟨fun key hkey => ?_, fun _ _ _ => rfl⟩
    rw [hkeys key hkey, hplain]

/-- A read on a miss caches what it found, without the fields JSON leaves out. -/
theorem coherent_getBy_iff (hc : Coherent s.db.lookup s.cache) {keys : User → List Key}
    (hne : ∀ u, keys u ≠ [])
    (hkeys : ∀ u, s.db.lookup key = some u → ∀ k ∈ keys u, s.db.lookup k = some u) :
    Coherent (s.getBy key keys).2.db.lookup (s.getBy key keys).2.cache ↔ s.ReadOk key := by
  rw [getBy, ReadOk]
  cases hcache : s.cache.lookup key with
  | some u =>
    have hmem : key ∈ s.cache := AList.lookup_isSome.mp (isSome_of_eq_some hcache)
    exact iff_of_true hc (fun hnot => absurd hmem hnot)
  | none =>
    have hnot : key ∉ s.cache := AList.lookup_eq_none.mp hcache
    rw [Database.getBy]
    cases hlookup : s.db.lookup key with
    | none => simpa using hc
    | some u =>
      have hput := coherent_put_iff hc (hne u) (hkeys u hlookup)
      simpa [hnot] using hput

/-! ## Lists -/

theorem json_listedUser_iff (db : Database) (opts : ListUsersOptions) (r : UserRow) :
    (db.listedUser opts r).json = db.record r ↔
      (db.listedUser opts r).Plain ∧
        (db.listedUser opts r).roles = db.rolesOf (db.listedUser opts r).id := by
  have hsplit : (db.listedUser opts r).json = db.record r ↔
      (db.record r).json = db.record r ∧ (db.listedUser opts r).roles = db.rolesOf r.id := by
    constructor
    · intro h
      have hroles : (db.listedUser opts r).roles = db.rolesOf r.id :=
        congrArg (fun v : User => v.roles) h
      have hsame : db.listedUser opts r = db.record r := congrArg
        (fun roles : List Role => { db.record r with roles := roles }) hroles
      exact ⟨hsame ▸ h, hroles⟩
    · rintro ⟨hjson, hroles⟩
      have hsame : db.listedUser opts r = db.record r := congrArg
        (fun roles : List Role => { db.record r with roles := roles }) hroles
      rw [hsame, hjson]
  rw [hsplit, User.json_eq_self_iff]
  exact Iff.rfl

/-- A list caches what it returns, under keys of the same rows. -/
theorem coherent_list_iff (hc : Coherent s.db.lookup s.cache) {opts : ListUsersOptions}
    {users : List User} {total : ℕ} (hlist : s.db.listUsers env opts = some (users, total))
    {keys : User → List Key} (hne : ∀ u, keys u ≠ [])
    (hkeys : ∀ r, ∀ key ∈ keys (s.db.listedUser opts r), key.matches r = true) :
    Coherent s.db.lookup (write s.cache (putAll users keys)) ↔ s.ListOk users := by
  -- every write is of a row of the table, under a key of that row
  have hwrite : ∀ w ∈ putAll users keys, ∃ r ∈ s.db.users, ∃ key, key.matches r = true ∧
      w = put (s.db.listedUser opts r) key ∧ s.db.listedUser opts r ∈ users := by
    intro w hw
    obtain ⟨u, hu, hw⟩ := mem_flatMap.mp hw
    obtain ⟨key, hkey, rfl⟩ := mem_map.mp hw
    obtain ⟨r, hr, rfl⟩ := mem_listUsers hlist hu
    exact ⟨r, hr, key, hkeys r key hkey, rfl, hu⟩
  have hagree : Agree (putAll users keys) := by
    intro w hw w' hw' heq
    obtain ⟨r, hr, key, hmatch, rfl, -⟩ := hwrite w hw
    obtain ⟨r', hr', key', hmatch', rfl, -⟩ := hwrite w' hw'
    have hkey : key = key' := heq
    rw [eq_of_matches hr hr' hmatch (hkey ▸ hmatch')]
    exact rfl
  rw [hc.write_same_iff hagree]
  constructor
  · intro hset u hu
    obtain ⟨r, hr, rfl⟩ := mem_listUsers hlist hu
    obtain ⟨key, hkey⟩ := exists_mem_of_ne_nil _ (hne (s.db.listedUser opts r))
    have hfound := hset key (s.db.listedUser opts r).json
      (mem_flatMap.mpr ⟨_, hu, mem_map.mpr ⟨key, hkey, rfl⟩⟩)
    rw [lookup_of_mem hr (hkeys r key hkey)] at hfound
    exact (json_listedUser_iff _ _ _).mp (some.inj hfound).symm
  · intro hok key value hset
    obtain ⟨r, hr, k, hmatch, heq, hu⟩ := hwrite _ hset
    obtain ⟨rfl, rfl⟩ := Write.set.inj heq
    rw [lookup_of_mem hr hmatch, (json_listedUser_iff _ _ _).mpr (hok _ hu)]

theorem coherent_listUsers_iff (hc : Coherent s.db.lookup s.cache) (env : Env)
    (opts : ListUsersOptions) :
    Coherent (s.listUsers env opts).2.db.lookup (s.listUsers env opts).2.cache ↔
      s.Ok kept (.listUsers env opts) := by
  rw [listUsers, Ok]
  cases hcached : s.lists.lookup (listKey opts) with
  | some result => simpa using hc
  | none =>
    cases hlist : s.db.listUsers env opts with
    | none => simpa using hc
    | some result =>
      obtain ⟨users, total⟩ := result
      have hput : Coherent s.db.lookup (write s.cache (putAll users (fun u => [.id u.id]))) ↔
          s.ListOk users := by
        refine coherent_list_iff hc hlist (by simp) (fun r key hkey => ?_)
        rw [mem_singleton.mp hkey]
        exact decide_eq_true rfl
      simpa using hput

theorem coherent_warmUpCache_iff (hc : Coherent s.db.lookup s.cache) (env : Env) :
    Coherent (s.warmUpCache env).db.lookup (s.warmUpCache env).cache ↔
      s.Ok kept (.warmUpCache env) := by
  rw [warmUpCache, Ok]
  cases hlist : s.db.listUsers env warmUpOptions with
  | none => simpa using hc
  | some result =>
    obtain ⟨users, total⟩ := result
    have hput : Coherent s.db.lookup
        (write s.cache (putAll users (fun u => [.id u.id, .email u.email]))) ↔
          s.ListOk users := by
      refine coherent_list_iff hc hlist (by simp) (fun r key hkey => ?_)
      rcases mem_pair.mp hkey with rfl | rfl
      · exact decide_eq_true rfl
      · exact decide_eq_true rfl
    simpa using hput

/-! ## Calls that end in deletions -/

theorem mem_keysOf {id : String} : key ∈ keysOf id u ↔
      key = .id id ∨ key = .email u.email ∨ (u.username ≠ "" ∧ key = .username u.username) := by
  rw [keysOf]
  split_ifs with hname
  · simp [hname]
  · simp [hname]

theorem username_empty_not_mem_keysOf (id : String) (u : User) : Key.username "" ∉ keysOf id u := by
  rw [mem_keysOf]
  rintro (hkey | hkey | ⟨hne, hkey⟩)
  · cases hkey
  · cases hkey
  · exact hne (Key.username.inj hkey).symm

/-- Of a user that a call changes only an empty username can stay cached. -/
theorem coherent_touches_iff (hc : Coherent s.db.lookup s.cache) {db : Database} {ids : List String}
    (htouches : Touches s.db db ids) (hempty : Key.username "" ∉ keys)
    (hkeys : ∀ u, s.db.lookup (.id u.id) = some u → u.id ∈ ids →
      ∀ key ∈ keysOf u.id u, key ∈ keys) :
    Coherent db.lookup (write s.cache (keys.map .delete)) ↔ s.EmptyNameKept db := by
  rw [hc.delete_iff]
  constructor
  · intro hkept hcached
    exact hkept _ hcached hempty
  intro hname key hcached hnot
  obtain ⟨u, -, hlookup⟩ := hc.exists_of_mem hcached
  by_cases hids : u.id ∈ ids
  · -- of the three keys of the user only an empty username can be left
    have hkeep : key ∉ keysOf u.id u := fun hmem =>
      hnot (hkeys u (lookup_id_of_lookup hlookup) hids key hmem)
    rw [mem_keysOf, not_or, not_or, not_and] at hkeep
    rcases key_of_lookup hlookup with hkey | hkey | hkey
    · exact absurd hkey hkeep.1
    · exact absurd hkey hkeep.2.1
    have hblank : u.username = "" := by
      by_contra hne
      exact hkeep.2.2 hne hkey
    rw [hblank] at hkey
    subst hkey
    exact hname hcached
  · exact htouches.lookup_eq hlookup hids

/-- The keys `InvalidateUserCache` deletes for each user of a list. -/
def invalidated (db : Database) (userIDs : List String) : List Key :=
  userIDs.flatMap (fun id => (db.lookup (.id id)).elim [] (keysOf id))

theorem mem_invalidated {db : Database} {userIDs : List String} : key ∈ invalidated db userIDs ↔
      ∃ id ∈ userIDs, ∃ u, db.lookup (.id id) = some u ∧ key ∈ keysOf id u := by
  rw [invalidated, mem_flatMap]
  refine exists_congr (fun id => and_congr_right (fun _ => ?_))
  cases db.lookup (.id id) with
  | none => simp
  | some u => simp

theorem foldl_invalidate (userIDs : List String) (s : State) :
    (userIDs.foldl invalidateUserCache s).db = s.db ∧
      (userIDs.foldl invalidateUserCache s).cache =
        write s.cache ((invalidated s.db userIDs).map .delete) := by
  induction userIDs generalizing s with
  | nil => exact ⟨rfl, rfl⟩
  | cons id userIDs ih =>
    have hone : (s.invalidateUserCache id).db = s.db ∧ (s.invalidateUserCache id).cache =
        write s.cache (((s.db.lookup (.id id)).elim [] (keysOf id)).map .delete) := by
      rw [invalidateUserCache]
      cases s.db.lookup (.id id) with
      | none => exact ⟨rfl, rfl⟩
      | some u => exact ⟨rfl, rfl⟩
    obtain ⟨hdb, hcache⟩ := ih (s.invalidateUserCache id)
    refine ⟨hdb.trans hone.1, ?_⟩
    rw [foldl_cons, hcache, hone.1, hone.2, ← ReadCache.write_append, ← map_append]
    rfl

theorem username_empty_not_mem_invalidated (db : Database) (userIDs : List String) :
    Key.username "" ∉ invalidated db userIDs := by
  rw [mem_invalidated]
  rintro ⟨id, -, u, -, hmem⟩
  exact username_empty_not_mem_keysOf id u hmem

theorem coherent_thenInvalidate_iff (hc : Coherent s.db.lookup s.cache) (db : Option Database)
    (ids : List String) :
    Coherent (s.thenInvalidate db ids).db.lookup (s.thenInvalidate db ids).cache ↔
      ∀ db', db = some db' → Coherent db'.lookup
        (write s.cache ((invalidated db' ids).map .delete)) := by
  cases db with
  | none => simpa [thenInvalidate] using hc
  | some db =>
    obtain ⟨hdb, hcache⟩ := foldl_invalidate ids { s with db }
    rw [thenInvalidate, hdb, hcache]
    simp

theorem coherent_thenInvalidate_iff_of_touches (hc : Coherent s.db.lookup s.cache)
    {db : Option Database} {ids : List String}
    (htouches : ∀ db', db = some db' → Touches s.db db' ids) :
    Coherent (s.thenInvalidate db ids).db.lookup (s.thenInvalidate db ids).cache ↔
      ∀ db', db = some db' → s.EmptyNameKept db' := by
  rw [coherent_thenInvalidate_iff hc]
  refine forall₂_congr (fun db' hdb => ?_)
  have htouch := htouches db' hdb
  refine coherent_touches_iff hc htouch (username_empty_not_mem_invalidated db' ids) ?_
  intro u hlookup hids key hkey
  obtain ⟨u', hlookup', hid, hemail, hname⟩ := htouch.exists_lookup hlookup hids
  refine mem_invalidated.mpr ⟨u.id, hids, u', hlookup', ?_⟩
  rw [mem_keysOf, hemail, hname]
  exact mem_keysOf.mp hkey

theorem record_of_update {current : ℤ} {ids : List String} {set : UserRow → UserRow}
    (h : (db.1.update current ids set).commit = some db') (r : UserRow) :
    db'.record r = db.record r := by
  rw [Database.record, tables_of_commit h]
  rfl

/-- A bulk update may change the keys by which its users are invalidated. -/
theorem coherent_bulkUpdate_iff (hc : Coherent s.db.lookup s.cache) (env : Env)
    (userIDs : List String) (updates : UserRow → UserRow) :
    Coherent (s.bulkUpdate env userIDs updates).db.lookup (s.bulkUpdate env userIDs updates).cache ↔
      s.Ok kept (.bulkUpdate env userIDs updates) := by
  rw [bulkUpdate, coherent_thenInvalidate_iff hc, Ok]
  cases hbulk : s.db.bulkUpdate env userIDs updates with
  | none => simp
  | some db =>
    have hrecord := record_of_update hbulk
    have husers : db.users = s.db.users.map (Tables.written env.current userIDs updates) :=
      congrArg Tables.users (tables_of_commit hbulk)
    simp only [some.injEq, forall_eq', ne_eq, reduceCtorEq, not_false_eq_true, forall_const]
    rw [hc.delete_iff]
    constructor
    · intro hkept r hr hids key hcached hmatch
      by_cases hdeleted : key ∈ invalidated db userIDs
      · obtain ⟨id, hid, u, hlookup, hkey⟩ := mem_invalidated.mp hdeleted
        obtain ⟨q, hq, hmatch', rfl⟩ := lookup_eq_some_iff.mp hlookup
        obtain rfl : q.id = id := of_decide_eq_true hmatch'
        exact ⟨q, husers ▸ hq, .inl ⟨hid, hrecord q ▸ hkey⟩⟩
      · have hfound := hkept key hcached hdeleted
        rw [lookup_of_mem hr hmatch] at hfound
        obtain ⟨q, hq, hmatch', heq⟩ := lookup_eq_some_iff.mp hfound
        exact ⟨q, husers ▸ hq, .inr ⟨hmatch', (hrecord q).symm.trans heq⟩⟩
    · intro hok key hcached hdeleted
      obtain ⟨v, -, hlookup⟩ := hc.exists_of_mem hcached
      obtain ⟨r, hr, hmatch, rfl⟩ := lookup_eq_some_iff.mp hlookup
      rw [hlookup]
      by_cases hids : r.id ∈ userIDs
      · obtain ⟨q, hq, ⟨hid, hkey⟩ | ⟨hmatch', heq⟩⟩ := hok r hr hids key hcached hmatch
        · have hown : db.lookup (.id q.id) = some (db.record q) :=
            lookup_of_mem (husers ▸ hq) (decide_eq_true rfl)
          exact absurd (mem_invalidated.mpr ⟨q.id, hid, _, hown, by rwa [hrecord]⟩) hdeleted
        · rw [lookup_of_mem (husers ▸ hq) hmatch', hrecord, heq]
      · have hr' : r ∈ db.users := husers ▸ mem_update_of_not_mem hr hids
        rw [lookup_of_mem hr' hmatch, hrecord]

theorem coherent_invalidate (hc : Coherent s.db.lookup s.cache) (userID : String) :
    Coherent (s.invalidateUserCache userID).db.lookup (s.invalidateUserCache userID).cache := by
  obtain ⟨hdb, hcache⟩ := foldl_invalidate [userID] s
  rw [foldl_cons, foldl_nil] at hdb hcache
  rw [hdb, hcache]
  exact (hc.delete_iff _).mpr (fun _ _ _ => rfl)

theorem coherent_delete_iff (hc : Coherent s.db.lookup s.cache) (env : Env) (id : String) :
    Coherent (s.delete env id).db.lookup (s.delete env id).cache ↔
      ∀ db, s.db.delete env id = some db → s.EmptyNameKept db := by
  rw [delete]
  cases hdelete : s.db.delete env id with
  | none => simpa using hc
  | some db =>
    have htouch : Touches s.db db [id] := touches_update hdelete (fun _ => ⟨rfl, rfl, rfl⟩)
    have hiff : Coherent db.lookup (write s.cache
        ((deleteKeys (s.db.lookup (.id id)) id).map .delete)) ↔ s.EmptyNameKept db := by
      cases hold : s.db.lookup (.id id) with
      | none =>
        refine coherent_touches_iff hc htouch (by simp [deleteKeys]) (fun u hlookup hid => ?_)
        rw [mem_singleton.mp hid, hold] at hlookup
        cases hlookup
      | some old =>
        refine coherent_touches_iff hc htouch (fun hmem => ?_) (fun u hlookup hid => ?_)
        · exact username_empty_not_mem_keysOf id old hmem
        have hsame : u.id = id := mem_singleton.mp hid
        rw [hsame, hold] at hlookup
        rw [hsame, ← some.inj hlookup]
        exact fun _ hmem => hmem
    simpa using hiff

/-! ## `Create` -/

theorem lookup_eq_iff_of_mem (hr : r ∈ db.users) (hr' : r ∈ db'.users)
    (hmatch : key.matches r = true) :
    db'.lookup key = db.lookup key ↔ db'.rolesOf r.id = db.rolesOf r.id := by
  rw [lookup_of_mem hr hmatch, lookup_of_mem hr' hmatch, some.injEq]
  constructor
  · intro h
    exact congrArg (fun u : User => u.roles) h
  · intro h
    rw [Database.record, Database.record, Tables.record, Tables.record]
    simp only [h]

theorem users_of_create {u u' : User} (h : db.create kept env u = some (db', u')) :
    db'.users = db.users ++ [newRow kept u'] := by
  obtain ⟨db₁, hcommit, heq⟩ := map_eq_some_iff.mp h
  cases heq
  rw [Database.users, tables_of_commit hcommit, users_saveRoles]

theorem not_mem_of_found {db : Database} {id : String}
    (hkeys : ∀ key ∈ keys, ∃ u, db.lookup key = some u ∧ u.id = id) (hr : r ∈ db.users)
    (hne : r.id ≠ id) (hmatch : key.matches r = true) : key ∉ keys := by
  intro hmem
  obtain ⟨u, hlookup, hid⟩ := hkeys key hmem
  rw [lookup_of_mem hr hmatch] at hlookup
  exact hne ((congrArg (fun v : User => v.id) (some.inj hlookup)).trans hid)

theorem mem_users_of_create {u u' : User} (h : db.create kept env u = some (db', u'))
    (hr : r ∈ db.users) : r ∈ db'.users := by
  rw [users_of_create h]
  exact mem_append_left _ hr

theorem id_ne_of_create {u u' : User} (h : db.create kept env u = some (db', u'))
    (hr : r ∈ db.users) : r.id ≠ u'.id := by
  have hids : (db'.users.map (·.id)).Nodup := db'.2.1
  rw [users_of_create h, map_append] at hids
  exact (nodup_append.mp hids).2.2 r.id (mem_map.mpr ⟨r, hr, rfl⟩) u'.id
    (mem_singleton_self _)

theorem lookup_of_create {u u' : User} (h : db.create kept env u = some (db', u'))
    (hkey : key ∈ [Key.id u'.id, .email u'.email]) :
    db'.lookup key = some (db'.record (newRow kept u')) := by
  have hrow : newRow kept u' ∈ db'.users := by
    rw [users_of_create h]
    exact mem_append_right _ (mem_singleton_self _)
  rcases mem_pair.mp hkey with rfl | rfl
  · exact lookup_of_mem hrow (decide_eq_true rfl)
  · exact lookup_of_mem hrow (decide_eq_true rfl)

theorem roles_of_create {u u' : User} (h : db.create kept env u = some (db', u')) :
    u' = u.created env.now ∧
      ∀ id, db'.rolesOf id = (db.1.saveRoles kept u'.id u'.roles).rolesOf id := by
  obtain ⟨db₁, hcommit, heq⟩ := map_eq_some_iff.mp h
  cases heq
  refine ⟨rfl, fun id => ?_⟩
  rw [Database.rolesOf, tables_of_commit hcommit, saveRoles_users]
  rfl

theorem record_newRow_iff (db : Database) (u : User) :
    db.record (newRow kept u) = u.json ↔ Stored kept u ∧ db.rolesOf u.id = u.roles := by
  obtain ⟨columns, username, roles⟩ := u
  obtain ⟨⟩ := columns
  simp only [Database.record, Tables.record, newRow, User.json, Stored, User.Plain, getD_some,
    User.mk.injEq, Columns.mk.injEq, true_and]
  tauto

theorem coherent_create_iff (hc : Coherent s.db.lookup s.cache) (env : Env) (u : User) :
    Coherent (s.create kept env u).db.lookup (s.create kept env u).cache ↔
      s.Ok kept (.create env u) := by
  rw [create, Ok]
  cases hcreate : s.db.create kept env u with
  | none => simpa using hc
  | some result =>
    obtain ⟨db, u'⟩ := result
    obtain ⟨rfl, hrolesOf⟩ := roles_of_create hcreate
    set u' := u.created env.now
    have hiff : Coherent db.lookup (write s.cache ([.id u'.id, .email u'.email].map (put u'))) ↔
        Stored kept u' ∧ s.RolesSaved kept u' := by
      simp only [RolesSaved, ← hrolesOf]
      rw [← and_assoc, ← record_newRow_iff, ← some.injEq,
        ← lookup_of_create hcreate mem_cons_self]
      refine (hc.set_iff _ u'.json).trans ?_
      constructor
      · rintro ⟨hset, hkept⟩
        refine ⟨hset _ mem_cons_self, fun key hcached v hlookup hne => ?_⟩
        obtain ⟨r, hr, hmatch, rfl⟩ := lookup_eq_some_iff.mp hlookup
        have hr' := mem_users_of_create hcreate hr
        refine (lookup_eq_iff_of_mem hr hr' hmatch).mp (hkept key hcached ?_)
        exact not_mem_of_found (fun k hk => ⟨_, lookup_of_create hcreate hk, rfl⟩) hr' hne hmatch
      · rintro ⟨hset, hroles⟩
        refine ⟨fun key hkey => ?_, fun key hcached _ => ?_⟩
        · rw [lookup_of_create hcreate hkey, ← hset, lookup_of_create hcreate mem_cons_self]
        obtain ⟨v, -, hlookup⟩ := hc.exists_of_mem hcached
        obtain ⟨r, hr, hmatch, rfl⟩ := lookup_eq_some_iff.mp hlookup
        exact (lookup_eq_iff_of_mem hr (mem_users_of_create hcreate hr) hmatch).mpr
          (hroles key hcached _ hlookup (id_ne_of_create hcreate hr))
    simpa using hiff

/-! ## `Update` -/

theorem mem_updateWrites {w : Write Key User} : w ∈ updateWrites old u ↔
      (∃ o, old = some o ∧ o.email ≠ u.email ∧ w = .delete (.email o.email)) ∨
        ∃ key ∈ keysOf u.id u, w = put u key := by
  have hput : w ∈ (keysOf u.id u).map (put u) ↔ ∃ key ∈ keysOf u.id u, w = put u key := by
    rw [List.mem_map]
    exact exists_congr (fun key => and_congr_right (fun _ => eq_comm))
  rw [updateWrites, mem_append, hput]
  refine or_congr_left ?_
  cases old with
  | none => simp [staleEmail]
  | some o =>
    by_cases hemail : o.email = u.email
    · simp [staleEmail, hemail]
    · simp [staleEmail, hemail]

theorem agree_updateWrites (old : Option User) (u : User) : Agree (updateWrites old u) := by
  -- the e-mail that is deleted is not one that is set
  have hother : ∀ o : User, o.email ≠ u.email → Key.email o.email ∉ keysOf u.id u := by
    intro o hemail hmem
    rcases mem_keysOf.mp hmem with hkey | hkey | ⟨-, hkey⟩
    · cases hkey
    · exact hemail (Key.email.inj hkey)
    · cases hkey
  intro w hw w' hw' heq
  rcases mem_updateWrites.mp hw with ⟨o, hold, hemail, rfl⟩ | ⟨key, hkey, rfl⟩
  · rcases mem_updateWrites.mp hw' with ⟨o', hold', -, rfl⟩ | ⟨key', hkey', rfl⟩
    · exact rfl
    · have hset : Key.email o.email = key' := heq
      exact absurd (hset ▸ hkey') (hother o hemail)
  · rcases mem_updateWrites.mp hw' with ⟨o', hold', hemail', rfl⟩ | ⟨key', hkey', rfl⟩
    · have hset : key = Key.email o'.email := heq
      exact absurd (hset ▸ hkey) (hother o' hemail')
    · exact rfl

theorem tables_of_update {u u' : User} (h : db.update kept env u = some (db', u')) :
    u' = u.updated env.now ∧
      db'.users = db.users.map (Tables.written env.current [u'.id] (merge kept u')) ∧
      ∀ id, db'.rolesOf id = (db.1.saveRoles kept u'.id u'.roles).rolesOf id := by
  rw [Database.update] at h
  split_ifs at h
  obtain ⟨db₁, hcommit, heq⟩ := map_eq_some_iff.mp h
  cases heq
  refine ⟨rfl, ?_, fun id => ?_⟩
  · rw [Database.users, tables_of_commit hcommit, users_saveRoles]
    rfl
  · rw [Database.rolesOf, tables_of_commit hcommit, Tables.update, saveRoles_users]
    rfl

theorem mem_users_of_update {u u' : User} (h : db.update kept env u = some (db', u'))
    (hr : r ∈ db.users) (hne : r.id ≠ u'.id) : r ∈ db'.users := by
  rw [(tables_of_update h).2.1]
  exact mem_update_of_not_mem hr (fun hmem => hne (mem_singleton.mp hmem))

theorem mem_merge_of_update {u u' : User} (h : db.update kept env u = some (db', u'))
    (hr : r ∈ db.users) (hid : r.id = u'.id) :
    { merge kept u' r with updatedAt := env.current } ∈ db'.users := by
  rw [(tables_of_update h).2.1]
  exact mem_update_of_mem hr (mem_singleton.mpr hid)

theorem orElse_eq_left_iff (new old : String) : orElse new old = new ↔ (new = "" → old = "") := by
  rw [orElse]
  split_ifs with hnew
  · simp [hnew]
  · simp [hnew]

theorem orElse_eq_empty_iff (new old : String) : orElse new old = "" ↔ new = "" ∧ old = "" := by
  rw [orElse]
  split_ifs with hnew
  · simp [hnew]
  · simp [hnew]

theorem or_eq_left_iff (new old : Bool) : (new || old) = new ↔ (old = true → new = true) := by
  cases new <;> simp

/-- The row that an update leaves is the record it was passed exactly if that is whole. -/
theorem record_merge_iff (db : Database) (hid : r.id = u.id) :
    db.record { merge kept (u.updated env.now) r with updatedAt := env.current } =
        (u.updated env.now).json ↔
      Whole kept env u r ∧ db.rolesOf u.id = (u.updated env.now).roles := by
  have hname : (if u.username = "" then r.username else some u.username).getD "" = u.username ↔
      (u.username = "" → r.username.getD "" = "") := by
    split_ifs with hblank
    · simp [hblank]
    · simp [hblank]
  simp only [Database.record, Tables.record, merge, User.json, User.updated, User.mk.injEq,
    Columns.mk.injEq, hid, orElse_eq_left_iff, orElse_eq_empty_iff, or_eq_left_iff, true_and]
  constructor
  · rintro ⟨⟨hemail, hpassword, hfirst, hlast, havatar, hverified, htoken, htwo, hsecret, hstatus,
      hlogin, hcreated, hupdated⟩, husername, hroles⟩
    refine ⟨⟨?_, ?_, ?_, hlogin, hcreated, hupdated⟩, hroles⟩
    · simp [hpassword, htoken, hsecret]
    · simpa using ⟨hemail, hname.mp husername, hfirst, hlast, havatar, hstatus⟩
    · simpa using ⟨hverified, htwo⟩
  · rintro ⟨⟨hhidden, htexts, hflags, hlogin, hcreated, hupdated⟩, hroles⟩
    simp only [forall_mem_cons, not_mem_nil, false_imp_iff, implies_true, and_true]
      at hhidden htexts hflags
    obtain ⟨hp, hp', ht, ht', hs, hs'⟩ := hhidden
    obtain ⟨hemail, husername, hfirst, hlast, havatar, hstatus⟩ := htexts
    exact ⟨⟨hemail, ⟨hp, hp'⟩, hfirst, hlast, havatar, hflags.1, ⟨ht, ht'⟩, hflags.2, ⟨hs, hs'⟩,
      hstatus, hlogin, hcreated, hupdated⟩, hname.mpr husername, hroles⟩

/-- After an update the identifier finds the record that is cached exactly if there is a row for
the user of which it is the whole. -/
theorem lookup_update_iff {u u' : User} (h : db.update kept env u = some (db', u')) :
    db'.lookup (.id u'.id) = some u'.json ↔
      ∃ r ∈ db.users, r.id = u.id ∧ Whole kept env u r ∧ db'.rolesOf u'.id = u'.roles := by
  obtain ⟨rfl, husers, -⟩ := tables_of_update h
  constructor
  · intro hlookup
    obtain ⟨q, hq, hmatch, hrecord⟩ := lookup_eq_some_iff.mp hlookup
    rw [husers] at hq
    obtain ⟨r, hr, rfl⟩ := mem_map.mp hq
    have hqid := of_decide_eq_true hmatch
    have hid : r.id = u.id := by
      rw [Tables.written] at hqid
      split_ifs at hqid with hmem
      · exact hqid
      · exact hqid
    have hmem : r.id ∈ [(u.updated env.now).id] := mem_singleton.mpr hid
    rw [Tables.written, if_pos hmem] at hrecord
    exact ⟨r, hr, hid, (record_merge_iff db' hid).mp hrecord⟩
  · rintro ⟨r, hr, hid, hwhole⟩
    rw [← (record_merge_iff db' hid).mpr hwhole]
    exact lookup_of_mem (mem_merge_of_update h hr hid) (decide_eq_true hid)

theorem lookup_keysOf {db : Database} (h : db.lookup (.id u.id) = some u.json)
    (hkey : key ∈ keysOf u.id u) : db.lookup key = some u.json := by
  rcases mem_keysOf.mp hkey with rfl | rfl | ⟨hne, rfl⟩
  · exact h
  · exact lookup_email_of_lookup h
  · exact lookup_username_of_lookup h hne

theorem sets_updateWrites_iff {db : Database} :
    (∀ key value, Write.set key value ∈ updateWrites old u → db.lookup key = some value) ↔
      db.lookup (.id u.id) = some u.json := by
  constructor
  · intro hset
    refine hset _ _ (mem_updateWrites.mpr (.inr ⟨.id u.id, ?_, rfl⟩))
    exact mem_keysOf.mpr (.inl rfl)
  · intro hid key value hw
    rcases mem_updateWrites.mp hw with ⟨o, -, -, heq⟩ | ⟨k, hk, heq⟩
    · cases heq
    · obtain ⟨rfl, rfl⟩ := Write.set.inj heq
      exact lookup_keysOf hid hk

theorem left_updateWrites_iff : (∀ w ∈ updateWrites old u, w.key ≠ key) ↔
      key ∉ keysOf u.id u ∧ ∀ o, old = some o → o.email ≠ u.email → key ≠ .email o.email := by
  constructor
  · intro h
    refine ⟨fun hmem => ?_, fun o hold hemail heq => ?_⟩
    · exact h _ (mem_updateWrites.mpr (.inr ⟨key, hmem, rfl⟩)) rfl
    · exact h _ (mem_updateWrites.mpr (.inl ⟨o, hold, hemail, rfl⟩)) heq.symm
  · rintro ⟨hkeys, hstale⟩ w hw heq
    rcases mem_updateWrites.mp hw with ⟨o, hold, hemail, rfl⟩ | ⟨k, hk, rfl⟩
    · exact hstale o hold hemail heq.symm
    · have hsame : k = key := heq
      exact hkeys (hsame ▸ hk)

theorem key_of_left {u v : User} (hlookup : s.db.lookup key = some v) (hown : v.id = u.id)
    (hleft : ∀ w ∈ updateWrites (s.db.lookup (.id u.id)) u, w.key ≠ key) :
    key = .username v.username ∧ (v.username ≠ u.username ∨ v.username = "") := by
  obtain ⟨hkeys, hstale⟩ := left_updateWrites_iff.mp hleft
  rw [mem_keysOf, not_or, not_or, not_and] at hkeys
  rcases key_of_lookup hlookup with hkey | hkey | hkey
  · exact absurd (hown ▸ hkey) hkeys.1
  · have hemail : v.email ≠ u.email := fun heq => hkeys.2.1 (heq ▸ hkey)
    have hold := lookup_id_of_lookup hlookup
    rw [hown] at hold
    exact absurd hkey (hstale v hold hemail)
  · refine ⟨hkey, ?_⟩
    by_contra hboth
    rw [not_or, not_not] at hboth
    refine hkeys.2.2 (fun hblank => ?_) (hkey.trans (congrArg Key.username hboth.1))
    exact hboth.2 (hboth.1.trans hblank)

theorem left_of_ne {db : Database} (hid : db.lookup (.id u.id) = some u.json) (hr : r ∈ s.db.users)
    (hr' : r ∈ db.users) (hne : r.id ≠ u.id) (hmatch : key.matches r = true) :
    ∀ w ∈ updateWrites (s.db.lookup (.id u.id)) u, w.key ≠ key := by
  refine left_updateWrites_iff.mpr ⟨?_, fun o hold _ hkey => ?_⟩
  · exact not_mem_of_found (fun k hk => ⟨_, lookup_keysOf hid hk, rfl⟩) hr' hne hmatch
  -- the old e-mail finds the updated user
  have hoid : o.id = u.id := by
    obtain ⟨r₀, -, hmatch₀, rfl⟩ := lookup_eq_some_iff.mp hold
    exact of_decide_eq_true hmatch₀
  have hemail : ∀ k ∈ [Key.email o.email], ∃ v, s.db.lookup k = some v ∧ v.id = u.id := by
    intro k hk
    rw [mem_singleton.mp hk]
    exact ⟨o, lookup_email_of_lookup hold, hoid⟩
  exact not_mem_of_found hemail hr hne hmatch (hkey ▸ mem_singleton_self _)

/-- A username that finds the user is written, or still finds it. -/
theorem nameKept_of_kept {db : Database} (hid : db.lookup (.id u.id) = some u.json)
    (hr : r ∈ s.db.users) (hrid : r.id = u.id)
    (hkept : ∀ key ∈ s.cache, (∀ w ∈ updateWrites (s.db.lookup (.id u.id)) u, w.key ≠ key) →
      db.lookup key = s.db.lookup key) : s.NameKept u r := by
  intro name hname hcached
  have hrecord : (s.db.record r).username = name := by
    rw [Database.record, Tables.record, hname, getD_some]
  by_cases hwritten : Key.username name ∈ keysOf u.id u
  · rcases mem_keysOf.mp hwritten with hkey | hkey | ⟨hne, hkey⟩
    · cases hkey
    · cases hkey
    · obtain rfl := Key.username.inj hkey
      exact ⟨rfl, fun hempty => absurd hempty hne⟩
  · have hfound := hkept _ hcached
      (left_updateWrites_iff.mpr ⟨hwritten, fun _ _ _ heq => by cases heq⟩)
    have hmatch : (Key.username name).matches r = true := decide_eq_true hname
    rw [lookup_of_mem hr hmatch] at hfound
    have hsame : s.db.record r = u.json := by
      have hown := lookup_id_of_lookup hfound
      have hsameID : (s.db.record r).id = u.id := hrid
      rw [hsameID, hid] at hown
      exact (some.inj hown).symm
    refine ⟨?_, fun _ => hsame⟩
    rw [← hrecord, hsame]
    rfl

/-- A key of the user that is not written is its empty username, and still finds the user. -/
theorem lookup_of_left {db : Database} {u u' v : User}
    (hupdate : s.db.update kept env u = some (db, u')) (hid : db.lookup (.id u'.id) = some u'.json)
    (hr : r ∈ s.db.users) (hrid : r.id = u'.id) (hname : s.NameKept u' r) (hcached : key ∈ s.cache)
    (hlookup : s.db.lookup key = some v) (hown : v.id = u'.id)
    (hleft : ∀ w ∈ updateWrites (s.db.lookup (.id u'.id)) u', w.key ≠ key) :
    db.lookup key = s.db.lookup key := by
  obtain ⟨rfl, hnot⟩ := key_of_left hlookup hown hleft
  obtain ⟨q, hq, hmatch, rfl⟩ := lookup_eq_some_iff.mp hlookup
  obtain rfl : q = r := inj_on_of_nodup_map s.db.2.1 hq hr (hown.trans hrid.symm)
  have hqname : q.username = some (s.db.record q).username := of_decide_eq_true hmatch
  obtain ⟨heq, hempty⟩ := hname _ hqname hcached
  have hblank := hnot.resolve_left (not_not_intro heq)
  -- the row keeps the empty name, so that the key finds what the identifier finds
  have hafter : (Key.username (s.db.record q).username).matches
      { merge kept u' q with updatedAt := env.current } = true := by
    refine decide_eq_true ?_
    rw [merge, if_pos (heq.symm.trans hblank)]
    exact hqname
  have hrow := mem_merge_of_update hupdate hq hrid
  have hfound : db.lookup (.id u'.id) = _ := lookup_of_mem hrow (decide_eq_true hrid)
  rw [lookup_of_mem hrow hafter, ← hfound, hid, hlookup, hempty hblank]

/-- An updated user is cached as it was passed in, and its old username stays. -/
theorem coherent_update_iff (hc : Coherent s.db.lookup s.cache) (env : Env) (u : User) :
    Coherent (s.update kept env u).db.lookup (s.update kept env u).cache ↔
      s.Ok kept (.update env u) := by
  rw [update, Ok]
  cases hupdate : s.db.update kept env u with
  | none => simpa using hc
  | some result =>
    obtain ⟨db, u'⟩ := result
    obtain ⟨rfl, -, hrolesOf⟩ := tables_of_update hupdate
    set u' := u.updated env.now
    have hiff : Coherent db.lookup
        (write s.cache (updateWrites (s.db.lookup (.id u'.id)) u')) ↔
        ∃ r ∈ s.db.users, r.id = u.id ∧ Whole kept env u r ∧ s.NameKept u' r ∧
          s.RolesSaved kept u' := by
      simp only [RolesSaved, ← hrolesOf]
      rw [hc.write_iff (agree_updateWrites _ u'), sets_updateWrites_iff]
      constructor
      · rintro ⟨hid, hkept⟩
        obtain ⟨r, hr, hrid, hwhole, hroles⟩ := (lookup_update_iff hupdate).mp hid
        refine ⟨r, hr, hrid, hwhole, ?_, hroles, fun key hcached v hlookup hne => ?_⟩
        · exact nameKept_of_kept hid hr hrid hkept
        obtain ⟨q, hq, hmatch, rfl⟩ := lookup_eq_some_iff.mp hlookup
        have hq' := mem_users_of_update hupdate hq hne
        exact (lookup_eq_iff_of_mem hq hq' hmatch).mp
          (hkept key hcached (left_of_ne hid hq hq' hne hmatch))
      · rintro ⟨r, hr, hrid, hwhole, hname, hroles, hothers⟩
        have hid := (lookup_update_iff hupdate).mpr ⟨r, hr, hrid, hwhole, hroles⟩
        refine ⟨hid, fun key hcached hleft => ?_⟩
        obtain ⟨v, -, hlookup⟩ := hc.exists_of_mem hcached
        by_cases hown : v.id = u'.id
        · exact lookup_of_left hupdate hid hr hrid hname hcached hlookup hown hleft
        · obtain ⟨q, hq, hmatch, rfl⟩ := lookup_eq_some_iff.mp hlookup
          have hq' := mem_users_of_update hupdate hq hown
          exact (lookup_eq_iff_of_mem hq hq' hmatch).mpr (hothers key hcached _ hlookup hown)
    simpa using hiff

/-! ## Every sequence of calls -/

/-- One call keeps the reads right exactly if it meets its condition. -/
theorem transparent_step_iff (h : s.Transparent) (call : Call) :
    (s.step kept call).Transparent ↔ s.Ok kept call := by
  have hc : Coherent s.db.lookup s.cache := transparent_iff_coherent.mp h
  rw [transparent_iff_coherent]
  cases call with
  | getByID id =>
    refine coherent_getBy_iff hc (by simp) (fun u hlookup k hk => ?_)
    rwa [mem_singleton.mp hk]
  | getByEmail email =>
    refine coherent_getBy_iff hc (by simp) (fun u hlookup k hk => ?_)
    rcases mem_pair.mp hk with rfl | rfl
    · exact hlookup
    · exact lookup_id_of_lookup hlookup
  | getByUsername username =>
    refine coherent_getBy_iff hc (by simp) (fun u hlookup k hk => ?_)
    rwa [mem_singleton.mp hk]
  | listUsers env opts => exact coherent_listUsers_iff hc env opts
  | warmUpCache env => exact coherent_warmUpCache_iff hc env
  | other => exact iff_of_true hc trivial
  | create env u => exact coherent_create_iff hc env u
  | update env u => exact coherent_update_iff hc env u
  | delete env id => exact coherent_delete_iff hc env id
  | hardDelete env id => exact coherent_delete_iff hc env id
  | updateLastLogin env userID =>
    refine coherent_thenInvalidate_iff_of_touches hc (fun db hdb => ?_)
    exact touches_update hdb (fun _ => ⟨rfl, rfl, rfl⟩)
  | bulkUpdate env userIDs updates => exact coherent_bulkUpdate_iff hc env userIDs updates
  | bulkDelete env userIDs =>
    refine coherent_thenInvalidate_iff_of_touches hc (fun db hdb => ?_)
    exact touches_update hdb (fun _ => ⟨rfl, rfl, rfl⟩)
  | assignRole env userID roleID =>
    exact coherent_thenInvalidate_iff_of_touches hc (fun _ hdb => touches_assignRole hdb)
  | removeRole userID roleID =>
    exact coherent_thenInvalidate_iff_of_touches hc (fun _ hdb => touches_removeRole hdb)
  | invalidateUserCache userID => exact iff_of_true (coherent_invalidate hc userID) trivial
  | expire key => exact iff_of_true ((hc.delete_iff [key]).mpr (fun _ _ _ => rfl)) trivial
  | expireList key => exact iff_of_true hc trivial

/-- Started with an empty cache, the reads by identifier, e-mail and username return what the
repository would throughout exactly if every call meets `Ok`: a read or a list caches only users
without the hidden fields, and with their roles; `Create` and `Update` are passed the whole new
record, without those fields; an update keeps the username of a user cached under it; and no write
changes what is found by a key that stays in the cache. -/
theorem transparent_iff (kept : ℤ → ℤ) (db : Database) (calls : List Call) :
    Runs.Always (step kept) Transparent { db } calls ↔
      Runs.Along (step kept) (Ok kept) { db } calls :=
  Runs.always_iff_along (fun _ call h => transparent_step_iff h call)
    (transparent_iff_coherent.mpr (Coherent.empty _))

/-! ## Reads that differ -/

def admin : RoleRow := { id := "r1", name := "admin" }

def ada : UserRow :=
  { id := "1", email := "ada@x", username := some "ada", password := "hash", status := "active" }

def bob : UserRow :=
  { id := "2", email := "bob@x", username := some "bob", firstName := "Bob", status := "active" }

def office : Database :=
  ⟨{ users := [ada, bob], roles := [admin], userRoles := [("2", "r1")] }, by decide +kernel⟩

def noon : Env := { now := 12, current := 12, column := fun _ => none, tie := fun _ => 0 }

def after (calls : List Call) : State := calls.foldl (step id) { db := office }

def idOf (answer : Except String User) : Option String := answer.toOption.map (·.id)

def listedOnce : State := after [.listUsers noon {}]

def halfUpdated : State := after [.update noon { id := "2", email := "bob@x", lastName := "B" }]

def renamed : State :=
  after [.getByUsername "bob", .update noon { id := "2", email := "bob@x", username := "robert" }]

def readdressed : State :=
  after [.getByEmail "bob@x", .bulkUpdate noon ["2"] (fun r => { r with email := "robert@x" })]

def invented : State := after [.update noon { id := "9", email := "eve@x" }]

/-- A second read has lost the password, a list or an update the roles. A new username, a bulk
update and an update of a missing user leave what is outdated. -/
theorem cached_reads_differ : ¬ Runs.Always (step id) Transparent { db := office } [.getByID "1"] ∧
      (((after [.getByID "1"]).getByID "1").1.toOption.map (·.password) = some "" ∧
        (office.getByID "1").toOption.map (·.password) = some "hash") ∧
      ((listedOnce.getByID "2").1.toOption.map (·.roles.length) = some 0 ∧
        (listedOnce.db.getByID "2").toOption.map (·.roles.length) = some 1) ∧
      ((halfUpdated.getByID "2").1.toOption.map (fun u => (u.firstName, u.roles.length)) =
          some ("", 0) ∧
        (halfUpdated.db.getByID "2").toOption.map (fun u => (u.firstName, u.roles.length)) =
          some ("Bob", 1)) ∧
      (idOf (renamed.getByUsername "bob").1 = some "2" ∧
        idOf (renamed.db.getByUsername "bob") = none) ∧
      (idOf (readdressed.getByEmail "bob@x").1 = some "2" ∧
        idOf (readdressed.db.getByEmail "bob@x") = none) ∧
      (idOf (invented.getByID "9").1 = some "9" ∧ idOf (invented.db.getByID "9") = none) := by
  have hcached : ((after [.getByID "1"]).getByID "1").1.toOption.map (·.password) = some "" := by
    decide +kernel
  have hstored : (office.getByID "1").toOption.map (·.password) = some "hash" := by
    decide +kernel
  refine ⟨fun halways => ?_, ⟨hcached, hstored⟩, by decide +kernel, by decide +kernel,
    by decide +kernel, by decide +kernel, by decide +kernel⟩
  have hlast : (after [.getByID "1"]).Transparent := halways.last
  rw [hlast.1 "1"] at hcached
  exact absurd (hcached.symm.trans hstored) (by decide)

end State

end LinkFlow.Users
