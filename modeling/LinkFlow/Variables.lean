/-
`VariableService` (`variable/app/service/service.go`) over its repository and the Redis hash
`variables:all`, one database or Redis command at a time.

A call is cut at its commands: a section is a command with what the call computes up to the next
one. A command may fail, and then has no effect; the code ignores that for Redis and for
`Exists`. The table takes any rows, so that two variables may have one key; a database that
refuses them is one whose `Create` and `Save` fail.

`GetAllForExecution` returns the hash if it is not empty. Otherwise it lists the table, writes
what it has read into the hash, next to whatever is there by then, and sets its lifetime. Nothing
ties the write to the listing.
-/
import LinkFlow.Credentials
import LinkFlow.Lib.Sql

set_option autoImplicit false

namespace LinkFlow.Variables

open Credentials (Crypto)

/-! ## Variables -/

structure Variable where
  (id key value type : String)
  description : String := ""
  (createdAt updatedAt : ℤ)
deriving DecidableEq

/-- `^[a-zA-Z][a-zA-Z0-9_]*$` -/
def validKey (key : String) : Bool :=
  match key.toList with
  | [] => false
  | c :: cs => c.isAlpha && cs.all (fun c => c.isAlphanum || c == '_')

def validateKey (key : String) : Option String :=
  if key = "" then some "invalid variable name"
  else if !validKey key then some "invalid variable name"
  else if key.utf8ByteSize > 50 then some "invalid variable name"
  else none

namespace Variable

def validate (x : Variable) : Option String :=
  match validateKey x.key with
  | some err => some err
  | none =>
    if x.type ∈ ["string", "number", "boolean", "secret"] then none
    else some "invalid variable type"

def isSecret (x : Variable) : Bool := x.type = "secret"

end Variable

structure CreateRequest where
  (key value : String)
  (type description : String := "")

structure UpdateRequest where
  (key value description : String := "")

/-! ## The table and the hash -/

/-- The repository's table, by ID. -/
abbrev Table := GoMap String Variable

/-- The table, and the Redis hash `variables:all`; Redis has no empty hashes. -/
structure Stores where
  rows : Table := ∅
  cache : GoMap String String := ∅
  expiring : Bool := false

variable {Byte : Type} (v : Crypto Byte)

/-- How a section's command ends, the clock, a UUID, a nonce, and how rows with one key follow each
other in a listing. -/
structure Draws where
  fault : Option String := none
  now : ℕ → ℤ
  uuid : String
  nonce : v.Nonce
  rank : Variable → ℕ

/-- `repo.Exists` -/
def Stores.keyExists (s : Stores) (key : String) : Bool :=
  s.rows.entries.any (fun e => e.2.key = key)

def Stores.list (s : Stores) (rank : Variable → ℕ) : List Variable :=
  Sql.orderBy Variable.key rank (s.rows.entries.map Sigma.snd)

/-- What an execution sees of a variable: nothing if it is a secret that cannot be decrypted. -/
def Variable.visible (x : Variable) : Option (String × String) :=
  if x.isSecret then
    match v.decrypt x.value with
    | .ok decrypted => some (x.key, decrypted)
    | .error _ => none
  else some (x.key, x.value)

/-- The map that `GetAllForExecution` makes of a listing. -/
def collect (listing : List Variable) : GoMap String String :=
  GoMap.ofPairs (listing.filterMap (Variable.visible v))

/-- `GetAllForExecution`, where every command succeeds and no other call runs. -/
def Stores.getAllForExecution (s : Stores) (rank : Variable → ℕ) : GoMap String String × Stores :=
  if 0 < s.cache.len then (s.cache, s)
  else
    let result := collect v (s.list rank)
    (result, if 0 < result.len then { s with cache := result, expiring := true } else s)

/-! ## Calls -/

variable {v}

def newVariable (d : Draws v) (key value varType : String) : Variable where
  id := d.uuid
  key := key
  value := value
  type := if varType = "" then "string" else varType
  createdAt := d.now 0
  updatedAt := d.now 1

/-- The value as it is stored. -/
def Variable.stored (d : Draws v) (x : Variable) (value : String) : String :=
  if x.isSecret then v.encrypt d.nonce value else value

/-- The fields that `Update` takes from the request, apart from the key. -/
def Variable.changed (d : Draws v) (x : Variable) (req : UpdateRequest) : Variable :=
  { x with
    value := if req.value ≠ "" then x.stored d req.value else x.value
    description := if req.description ≠ "" then req.description else x.description
    updatedAt := d.now 0 }

/-- What a call returns; `Delete` returns no variable. -/
inductive Reply
  | done (x : Option Variable)
  | values (m : GoMap String String)
  | error (err : String)

inductive Request
  | create (req : CreateRequest)
  | update (id : String) (req : UpdateRequest)
  | delete (id : String)
  | getAllForExecution

/-- Where a call stands: the command that it runs next. -/
inductive Section
  /-- `Create` up to `repo.Exists`, and then `repo.Create`. -/
  | create (req : CreateRequest)
  | insert (x : Variable)
  /-- `Update` up to `repo.GetByID`, then `repo.Exists` if the key changes, and `repo.Update`. -/
  | update (id : String) (req : UpdateRequest)
  | rename (x : Variable) (req : UpdateRequest)
  | save (x : Variable)
  /-- `Delete` up to `repo.GetByID`, and then `repo.Delete`. -/
  | delete (id : String)
  | remove (id : String)
  /-- `invalidateCache`, and what follows it. -/
  | invalidate (x : Option Variable)
  | finish (x : Option Variable)
  /-- `GetAllForExecution` up to `HGetAll`, and then `repo.List`, `HSet` and `Expire`. -/
  | getAll
  | list
  | fill (result : GoMap String String)
  | expire (result : GoMap String String)

def Request.first : Request → Section
  | create req => .create req
  | update id req => .update id req
  | delete id => .delete id
  | getAllForExecution => .getAll

/-- How a section ends: the call goes on, or it returns. -/
inductive Outcome
  | next (p : Section)
  | reply (r : Reply)

/-- `repo.GetByID`, which makes every error a missing variable. -/
def Stores.getByID (s : Stores) (d : Draws v) (id : String) : Option Variable :=
  if d.fault = none then s.rows.lookup id else none

def advance (d : Draws v) (s : Stores) : Section → Stores × Outcome
  | .create req =>
    match validateKey req.key with
    | some err => (s, .reply (.error err))
    | none =>
      if d.fault = none ∧ s.keyExists req.key then (s, .reply (.error "variable already exists"))
      else
        let x := { newVariable d req.key req.value req.type with description := req.description }
        match x.validate with
        | some err => (s, .reply (.error err))
        | none => (s, .next (.insert { x with value := x.stored d x.value }))
  | .insert x =>
    match d.fault with
    | some err => (s, .reply (.error ("failed to create variable: " ++ err)))
    | none =>
      if x.id ∈ s.rows then
        (s, .reply (.error "failed to create variable: duplicated key not allowed"))
      else ({ s with rows := s.rows.insert x.id x }, .next (.invalidate (some x)))
  | .update id req =>
    match s.getByID d id with
    | none => (s, .reply (.error "variable not found"))
    | some x =>
      if req.key ≠ "" ∧ req.key ≠ x.key then
        match validateKey req.key with
        | some err => (s, .reply (.error err))
        | none => (s, .next (.rename x req))
      else (s, .next (.save (x.changed d req)))
  | .rename x req =>
    if d.fault = none ∧ s.keyExists req.key then (s, .reply (.error "variable already exists"))
    else (s, .next (.save ({ x with key := req.key }.changed d req)))
  | .save x =>
    match d.fault with
    | some err => (s, .reply (.error ("failed to update variable: " ++ err)))
    -- `Save` inserts a row that has been deleted meanwhile
    | none => ({ s with rows := s.rows.insert x.id x }, .next (.invalidate (some x)))
  | .delete id =>
    match s.getByID d id with
    | none => (s, .reply (.error "variable not found"))
    | some _ => (s, .next (.remove id))
  | .remove id =>
    match d.fault with
    | some err => (s, .reply (.error ("failed to delete variable: " ++ err)))
    | none => ({ s with rows := s.rows.erase id }, .next (.invalidate none))
  | .invalidate x =>
    (if d.fault = none then { s with cache := ∅, expiring := false } else s, .next (.finish x))
  | .finish x => (s, .reply (.done x))
  | .getAll =>
    if d.fault = none ∧ 0 < s.cache.len then (s, .reply (.values s.cache))
    else (s, .next .list)
  | .list =>
    match d.fault with
    | some err => (s, .reply (.error err))
    | none =>
      let result := collect v (s.list d.rank)
      (s, if 0 < result.len then .next (.fill result) else .reply (.values result))
  | .fill result =>
    -- `HSet` leaves the other fields of the hash as they are
    (if d.fault = none then { s with cache := result ∪ s.cache } else s, .next (.expire result))
  | .expire result =>
    (if d.fault = none ∧ 0 < s.cache.len then { s with expiring := true } else s,
      .reply (.values result))

end LinkFlow.Variables
