/-
Moving old executions into archives (`ArchiveExecutions` in
`internal/execution/adapters/archival/archiver.go`).

The call reads the executions that are older than a cut-off page by page, uploads one archive for
each day of a page, records it in the database, deletes the page and goes on. It is modelled call
by call: every query, upload, insertion and deletion is a step that is answered from outside and
may fail, with or without having had its effect.

Nothing is lost at any moment. But the offset of the next page grows by the size of the page
although the page has been deleted, so that whatever does not fit on the first page is not read
completely (`archiveExecutions_iff`).
-/
import LinkFlow.Lib.Codec
import LinkFlow.Lib.GoDate
import LinkFlow.Lib.GoMap
import LinkFlow.Lib.Runs
import LinkFlow.Lib.Sql

set_option autoImplicit false

namespace LinkFlow.Archival

open List

/-! ## What is stored -/

/-- A row of `workflow_executions`. Times are nanoseconds; `data` is the text of the JSON
column. -/
structure ExecutionRow where
  (id workflowID : String)
  version : ℤ := 1
  status : String
  startedAt : ℤ := 0
  finishedAt : Option ℤ := none
  executionTime : ℤ := 0
  (data error : String := "")
  createdBy : String
  createdAt : ℤ
deriving DecidableEq

structure NodeExecution where
  (id executionID nodeID status : String)
  startedAt : ℤ := 0
  finishedAt : Option ℤ := none
  (inputData outputData error : String := "")
  retryCount : ℤ := 0
deriving DecidableEq

/-- A row with the node executions that were loaded for it. -/
structure WorkflowExecution extends ExecutionRow where
  nodeExecutions : List NodeExecution
deriving DecidableEq

/-- The two tables. The ID is the primary key of an execution. -/
structure Database where
  executions : List ExecutionRow
  nodeExecutions : List NodeExecution
  nodup : (executions.map ExecutionRow.id).Nodup

structure ExecutionArchive where
  (id date : String)
  count : ℕ
  executions : List WorkflowExecution
  createdAt : ℤ
deriving DecidableEq

structure ArchiveMetadata where
  (id type date : String)
  recordCount : ℕ
  storageKey : String
  createdAt : ℤ
deriving DecidableEq

/-- The text of a UUID, of whose form only this matters; with a bounded length there would be too
few of them. -/
structure UUID where
  text : String
  noSlash : '/' ∉ text.toList
  long : 10 < text.toList.length

/-- The calendar day of a time in the database's location, JSON, the compressor, and UUIDs that
differ. -/
structure Env (Bytes : Type) where
  day : ℤ → ℤ
  json : Codec ExecutionArchive Bytes
  compressor : Codec Bytes Bytes
  uuid : ℕ → UUID
  uuid_injective : ∀ m n, (uuid m).text = (uuid n).text → m = n

/-- The database, the storage, the number of UUIDs drawn so far and the clock. -/
structure World (Bytes : Type) where
  db : Database
  metadata : List ArchiveMetadata := []
  storage : GoMap String Bytes := ∅
  drawn : ℕ := 0
  now : ℤ := 0

/-! ### Queries -/

namespace Database

variable (db : Database)

/-- `Preload("NodeExecutions")` -/
def preload (row : ExecutionRow) : WorkflowExecution where
  toExecutionRow := row
  nodeExecutions := db.nodeExecutions.filter (fun n => n.executionID = row.id)

/-- The executions with `created_at < before`. -/
def older (before : ℤ) : List WorkflowExecution :=
  (db.executions.filter (fun row => row.createdAt < before)).map db.preload

/-- The transaction that deletes executions with their node executions. -/
def deleteArchivedExecutions (ids : List String) : Database where
  executions := db.executions.filter (fun row => row.id ∉ ids)
  nodeExecutions := db.nodeExecutions.filter (fun n => n.executionID ∉ ids)
  nodup := db.nodup.sublist (List.filter_sublist.map ExecutionRow.id)

end Database

def archiveKey (date id : String) : String := "archive/executions/" ++ date ++ "/" ++ id ++ ".gz"

section

variable {Bytes : Type} (env : Env Bytes)

/-- `CreatedAt.Format("2006-01-02")` -/
def Env.date (e : ExecutionRow) : String := GoDate.format (env.day e.createdAt)

def Env.byDate (executions : List WorkflowExecution) : GoMap String (List WorkflowExecution) :=
  GoMap.group ∅ (executions.map (fun e => (env.date e.toExecutionRow, e)))

/-- The archive under a key: `Download`, `Decompress`, `Unmarshal`. -/
def World.loadArchive (w : World Bytes) (key : String) : Option ExecutionArchive :=
  (w.storage.lookup key).bind fun compressed =>
    (env.compressor.decode compressed).bind env.json.decode

def World.holds (w : World Bytes) (e : WorkflowExecution) (m : ArchiveMetadata) : Bool :=
  (w.loadArchive env m.storageKey).any (fun archive => e ∈ archive.executions)

def World.copies (w : World Bytes) (e : WorkflowExecution) : ℕ := w.metadata.countP (w.holds env e)

end

/-! ## The call -/

abbrev Groups := List ((_ : String) × List WorkflowExecution)

/-- Before the query of the next page, the upload of its next group, the insertion of the metadata
or the deletion of the page, or at the end. -/
inductive Phase
  | query
  | upload (batch : List WorkflowExecution) (groups : Groups)
  | record (batch : List WorkflowExecution) (archive : ExecutionArchive) (key : String)
      (groups : Groups)
  | delete (batch : List WorkflowExecution)
  | done (err : Option String)
deriving DecidableEq

structure Run (Bytes : Type) where
  world : World Bytes
  offset : ℕ := 0
  phase : Phase := .query

/-- A call of the database or the storage succeeds, fails, or has its effect and fails. -/
inductive Outcome
  | ok | failed | lost
deriving DecidableEq

/-- The answer to a call: its outcome and error, the order of rows with equal times and of the
groups, and the time that has passed. -/
structure Answer where
  outcome : Outcome := .ok
  message : String := ""
  rank : String → ℕ := fun _ => 0
  order : RangeOrder := RangeOrder.stored
  elapsed : ℕ := 0

namespace Answer

def applied (a : Answer) : Bool := a.outcome ≠ .failed

/-- Where the program goes on: `if err != nil { return fmt.Errorf(...) }`. -/
def proceed (a : Answer) (err : String) (next : Phase) : Phase :=
  if a.outcome = .ok then next else .done (some (err ++ ": " ++ a.message))

end Answer

section

variable {Bytes : Type} (env : Env Bytes)

def World.newArchive (w : World Bytes) (date : String) (execs : List WorkflowExecution) :
    ExecutionArchive where
  id := (env.uuid w.drawn).text
  date := date
  count := execs.length
  executions := execs
  createdAt := w.now

/-- The metadata of an archive. -/
def ExecutionArchive.metadata (archive : ExecutionArchive) (key : String) (now : ℤ) :
    ArchiveMetadata where
  id := archive.id
  type := "executions"
  date := archive.date
  recordCount := archive.count
  storageKey := key
  createdAt := now

namespace World

variable (w : World Bytes)

/-- `uuid.New()` -/
def draw : World Bytes := { w with drawn := w.drawn + 1 }

def upload (key : String) (data : Bytes) : World Bytes :=
  { w with storage := w.storage.insert key data }

/-- `time.Now()`: no two readings are equal. -/
def tick (elapsed : ℕ) : World Bytes := { w with now := w.now + 1 + elapsed }

/-- `Create(metadata)` -/
def create (m : ArchiveMetadata) : World Bytes := { w with metadata := w.metadata ++ [m] }

/-- The transaction of `deleteArchivedExecutions`. -/
def delete (batch : List WorkflowExecution) : World Bytes :=
  { w with db := w.db.deleteArchivedExecutions (batch.map (fun e => e.id)) }

end World

namespace Run

variable (r : Run Bytes) (a : Answer)

def query (before batchSize : ℤ) : Run Bytes :=
  let executions := Sql.page batchSize r.offset
    (Sql.orderBy (fun e => e.createdAt) (fun e => a.rank e.id) (r.world.db.older before))
  let next := if executions.length = 0 then .done none
    else .upload executions (a.order.run 244 (env.byDate executions).entries)
  { r with phase := a.proceed "failed to query executions" next }

def upload (batch : List WorkflowExecution) (date : String) (execs : List WorkflowExecution)
    (groups : Groups) : Run Bytes :=
  let archive := r.world.newArchive env date execs
  let world := r.world.draw
  match env.json.encode archive with
  | none =>
    { r with
      world
      phase := .done (some ("failed to archive batch: failed to serialize archive: "
        ++ a.message)) }
  | some data => match env.compressor.encode data with
    | none =>
      { r with
        world
        phase := .done (some ("failed to archive batch: failed to compress data: "
          ++ a.message)) }
    | some compressed =>
      let key := archiveKey date archive.id
      { r with
        world := if a.applied then world.upload key compressed else world
        phase := a.proceed "failed to archive batch: failed to upload archive"
          (.record batch archive key groups) }

/-- The insertion of the metadata. -/
def record (batch : List WorkflowExecution) (archive : ExecutionArchive) (key : String)
    (groups : Groups) : Run Bytes :=
  let world := r.world.tick a.elapsed
  { r with
    world := if a.applied then world.create (archive.metadata key world.now) else world
    phase := a.proceed "failed to archive batch: failed to save archive metadata"
      (.upload batch groups) }

/-- The deletion of a page; after an error nothing reads the offset. -/
def delete (batch : List WorkflowExecution) : Run Bytes where
  world := if a.applied then r.world.delete batch else r.world
  offset := r.offset + batch.length
  phase := a.proceed "failed to delete archived executions" .query

/-- One call of the database or the storage in `ArchiveExecutions`. -/
def step (before batchSize : ℤ) (r : Run Bytes) (a : Answer) : Run Bytes :=
  match r.phase with
  | .query => r.query env a before batchSize
  | .upload batch [] => { r with phase := .delete batch }
  | .upload batch (⟨date, execs⟩ :: groups) => r.upload env a batch date execs groups
  | .record batch archive key groups => r.record a batch archive key groups
  | .delete batch => r.delete a batch
  | .done _ => r

end Run

end

/-! ## What the call is for -/

section

variable {Bytes : Type} (env : Env Bytes)

/-- What was older than the cut-off is in the database or in an uploaded archive with recorded
metadata. -/
def Kept (before : ℤ) (w : World Bytes) (r : Run Bytes) : Prop :=
  ∀ e ∈ w.db.older before, e ∈ r.world.db.older before ∨ 0 < r.world.copies env e

/-- None of them is left in the database, and each is in exactly one archive. -/
def Archived (before : ℤ) (w : World Bytes) (r : Run Bytes) : Prop :=
  r.world.db.older before = [] ∧ ∀ e ∈ w.db.older before, r.world.copies env e = 1

/-- The keys in the metadata were made with UUIDs that have been drawn, at times that have
passed. -/
structure World.Keyed (w : World Bytes) : Prop where
  key : ∀ m ∈ w.metadata, ∃ n < w.drawn, ∃ date, m.storageKey = archiveKey date (env.uuid n).text
  time : ∀ m ∈ w.metadata, m.createdAt ≤ w.now

end

/-! ## Tables, keys and archives -/

namespace Database

variable (db : Database) (before : ℤ)

theorem nodup_older : ((db.older before).map (fun e => e.id)).Nodup := by
  have hids : (db.older before).map (fun e => e.id)
      = (db.executions.filter (fun row => row.createdAt < before)).map ExecutionRow.id := by
    rw [older, map_map]
    rfl
  rw [hids]
  exact db.nodup.sublist (filter_sublist.map ExecutionRow.id)

variable {db before}

theorem eq_of_id_eq {e e' : WorkflowExecution} (he : e ∈ db.older before)
    (he' : e' ∈ db.older before) (h : e.id = e'.id) : e = e' :=
  inj_on_of_nodup_map (db.nodup_older before) he he' h

theorem older_deleteArchivedExecutions (db : Database) (before : ℤ) (ids : List String) :
    (db.deleteArchivedExecutions ids).older before
      = (db.older before).filter (fun e => e.id ∉ ids) := by
  have hpreload : ∀ row : ExecutionRow, row.id ∉ ids →
      (db.deleteArchivedExecutions ids).preload row = db.preload row := by
    intro row hrow
    have hnodes : ∀ n ∈ db.nodeExecutions, n.executionID = row.id → n.executionID ∉ ids :=
      fun n _ hn hmem => hrow (hn ▸ hmem)
    simp only [preload, deleteArchivedExecutions, filter_filter, WorkflowExecution.mk.injEq,
      true_and]
    refine filter_congr (fun n hn => ?_)
    by_cases h : n.executionID = row.id
    · simp [h, hrow]
    · simp [h]
  let rows := (db.executions.filter (fun row => row.createdAt < before)).filter
    (fun row => row.id ∉ ids)
  have hrows : (db.deleteArchivedExecutions ids).executions.filter
      (fun row => row.createdAt < before) = rows := by
    simp only [rows, deleteArchivedExecutions, filter_filter, Bool.and_comm]
  calc (db.deleteArchivedExecutions ids).older before
      = rows.map (db.deleteArchivedExecutions ids).preload := by rw [older, hrows]
    _ = rows.map db.preload :=
        map_congr_left (fun row hrow =>
          hpreload row (by simpa using (mem_filter.mp hrow).2))
    _ = (db.older before).filter (fun e => e.id ∉ ids) := by
        rw [older, filter_map]
        rfl

end Database

theorem toList_append_append (s t u : String) :
    (s ++ t ++ u).toList = s.toList ++ (t.toList ++ u.toList) := by
  rw [String.toList_append, String.toList_append, append_assoc]

theorem toList_archiveKey (date id : String) : (archiveKey date id).toList
    = ("archive/executions/" ++ date).toList ++ '/' :: (id.toList ++ ".gz".toList) := by
  have hkey : (archiveKey date id).toList
      = ("archive/executions/" ++ date ++ "/").toList ++ (id.toList ++ ".gz".toList) :=
    toList_append_append _ id ".gz"
  have hslash : ("archive/executions/" ++ date ++ "/").toList
      = ("archive/executions/" ++ date).toList ++ ['/'] := String.toList_append
  rw [hkey, hslash, append_assoc]
  rfl

variable {s t : List Char} {date : String} {u : UUID}

theorem takeWhile_reverse_append (h : '/' ∉ t) :
    (s ++ '/' :: t).reverse.takeWhile (fun c => c ≠ '/') = t.reverse := by
  have hall : ∀ c ∈ t.reverse, decide (c ≠ '/') = true := by
    intro c hc
    rw [decide_eq_true_iff]
    rintro rfl
    exact h (mem_reverse.mp hc)
  rw [reverse_append, reverse_cons, append_assoc, takeWhile_append_of_pos hall]
  simp

theorem eq_of_archiveKey_eq (ht : '/' ∉ t)
    (h : (archiveKey date u.text).toList = s ++ '/' :: (t ++ ".gz".toList)) :
    u.text.toList = t := by
  have hend : ∀ l : List Char, '/' ∉ l → '/' ∉ l ++ ".gz".toList := by
    intro l hl hmem
    rcases mem_append.mp hmem with hmem | hmem
    · exact hl hmem
    · exact absurd hmem (by decide)
  have hlast := congrArg (fun l : List Char => l.reverse.takeWhile (fun c => c ≠ '/')) h
  rw [toList_archiveKey, takeWhile_reverse_append (hend _ u.noSlash),
    takeWhile_reverse_append (hend t ht)] at hlast
  exact append_cancel_right (reverse_injective hlast)

theorem uuid_of_archiveKey_eq {date' : String} {u' : UUID}
    (h : archiveKey date u.text = archiveKey date' u'.text) : u.text = u'.text :=
  String.toList_inj.mp (eq_of_archiveKey_eq u'.noSlash
    ((congrArg String.toList h).trans (toList_archiveKey date' u'.text)))

namespace World

variable {Bytes : Type} {env : Env Bytes} {w : World Bytes} {e : WorkflowExecution}

@[simp] theorem db_draw (w : World Bytes) : w.draw.db = w.db := rfl
@[simp] theorem db_upload (w : World Bytes) (key : String) (data : Bytes) :
    (w.upload key data).db = w.db := rfl
@[simp] theorem db_tick (w : World Bytes) (elapsed : ℕ) : (w.tick elapsed).db = w.db := rfl
@[simp] theorem db_create (w : World Bytes) (m : ArchiveMetadata) : (w.create m).db = w.db := rfl

theorem loadArchive_upload_ne {key key' : String} (h : key' ≠ key) (data : Bytes) :
    (w.upload key data).loadArchive env key' = w.loadArchive env key' := by
  rw [loadArchive, upload, AList.lookup_insert_ne h, loadArchive]

theorem copies_upload {key : String} (h : ∀ m ∈ w.metadata, m.storageKey ≠ key) (data : Bytes) :
    (w.upload key data).copies env e = w.copies env e := by
  refine countP_congr (fun m hm => ?_)
  rw [holds, loadArchive_upload_ne (h m hm), holds]

theorem loadArchive_upload {archive : ExecutionArchive} {data compressed : Bytes}
    (hjson : env.json.encode archive = some data)
    (hgzip : env.compressor.encode data = some compressed) (key : String) :
    (w.upload key compressed).loadArchive env key = some archive := by
  rw [loadArchive, upload, AList.lookup_insert, Option.bind_some,
    env.compressor.decode_encode _ _ hgzip, Option.bind_some, env.json.decode_encode _ _ hjson]

theorem copies_create (m : ArchiveMetadata) :
    (w.create m).copies env e = w.copies env e + if w.holds env e m then 1 else 0 := by
  have hsame : (w.create m).holds env e = w.holds env e := rfl
  rw [copies, hsame, create, countP_append, countP_singleton, copies]

theorem Keyed.fresh (h : w.Keyed env) (date : String) :
    ∀ m ∈ w.metadata, m.storageKey ≠ archiveKey date (env.uuid w.drawn).text := by
  intro m hm heq
  obtain ⟨n, hn, date', hkey⟩ := h.key m hm
  have hsame := env.uuid_injective n w.drawn (uuid_of_archiveKey_eq (hkey.symm.trans heq))
  omega

theorem Keyed.draw (h : w.Keyed env) : w.draw.Keyed env where
  key := fun m hm => by
    obtain ⟨n, hn, hkey⟩ := h.key m hm
    exact ⟨n, Nat.lt_succ_of_lt hn, hkey⟩
  time := h.time

theorem Keyed.tick (h : w.Keyed env) (elapsed : ℕ) : (w.tick elapsed).Keyed env where
  key := h.key
  time := fun m hm => by
    have hle := h.time m hm
    simp only [World.tick]
    omega

theorem Keyed.upload (h : w.Keyed env) (key : String) (data : Bytes) :
    (w.upload key data).Keyed env := ⟨h.key, h.time⟩

theorem Keyed.delete (h : w.Keyed env) (batch : List WorkflowExecution) :
    (w.delete batch).Keyed env := ⟨h.key, h.time⟩

theorem Keyed.create (h : w.Keyed env) {m : ArchiveMetadata}
    (hkey : ∃ n < w.drawn, ∃ date, m.storageKey = archiveKey date (env.uuid n).text)
    (htime : m.createdAt ≤ w.now) : (w.create m).Keyed env where
  key := by
    simp only [World.create, mem_append, mem_singleton]
    rintro m' (hm' | rfl)
    · exact h.key m' hm'
    · exact hkey
  time := by
    simp only [World.create, mem_append, mem_singleton]
    rintro m' (hm' | rfl)
    · exact h.time m' hm'
    · exact htime

end World

/-! ## What a step can do -/

section

variable {Bytes : Type} (env : Env Bytes) (before batchSize : ℤ)

/-- An error ends the call. A command that fails has had no effect but on clock and UUIDs
(`failed`), or its effect (`lost`). -/
inductive Step : Run Bytes → Run Bytes → Prop
  | page {w : World Bytes} {offset : ℕ} {l : List WorkflowExecution} {groups : Groups}
      (hl : l.Perm (w.db.older before)) (hpage : Sql.page batchSize offset l ≠ [])
      (hgroups : (groups.flatMap Sigma.snd).Perm (Sql.page batchSize offset l))
      (hlength : groups.length ≤ (Sql.page batchSize offset l).length) :
      Step ⟨w, offset, .query⟩ ⟨w, offset, .upload (Sql.page batchSize offset l) groups⟩
  | empty {w : World Bytes} {offset : ℕ} {l : List WorkflowExecution}
      (hl : l.Perm (w.db.older before)) (hpage : Sql.page batchSize offset l = []) :
      Step ⟨w, offset, .query⟩ ⟨w, offset, .done none⟩
  | uploaded {w : World Bytes} {offset : ℕ} {batch : List WorkflowExecution} {date : String}
      {execs : List WorkflowExecution} {groups : Groups} {data compressed : Bytes}
      (hjson : env.json.encode (w.newArchive env date execs) = some data)
      (hgzip : env.compressor.encode data = some compressed) :
      Step ⟨w, offset, .upload batch (⟨date, execs⟩ :: groups)⟩
        ⟨w.draw.upload (archiveKey date (env.uuid w.drawn).text) compressed, offset,
          .record batch (w.newArchive env date execs) (archiveKey date (env.uuid w.drawn).text)
            groups⟩
  | recorded {w : World Bytes} {offset : ℕ} {batch : List WorkflowExecution}
      {archive : ExecutionArchive} {key : String} {groups : Groups} (elapsed : ℕ) :
      Step ⟨w, offset, .record batch archive key groups⟩
        ⟨(w.tick elapsed).create (archive.metadata key (w.tick elapsed).now), offset,
          .upload batch groups⟩
  | grouped {w : World Bytes} {offset : ℕ} {batch : List WorkflowExecution} :
      Step ⟨w, offset, .upload batch []⟩ ⟨w, offset, .delete batch⟩
  | deleted {w : World Bytes} {offset : ℕ} {batch : List WorkflowExecution} :
      Step ⟨w, offset, .delete batch⟩ ⟨w.delete batch, offset + batch.length, .query⟩
  | failed {r : Run Bytes} {w : World Bytes} (offset : ℕ) (err : String)
      (h : w = r.world ∨ w = r.world.draw ∨ ∃ elapsed, w = r.world.tick elapsed) :
      Step r ⟨w, offset, .done (some err)⟩
  | lost {r r' : Run Bytes} (offset : ℕ) (err : String) (h : Step r r') :
      Step r ⟨r'.world, offset, .done (some err)⟩
  | done {w : World Bytes} {offset : ℕ} {err : Option String} :
      Step ⟨w, offset, .done err⟩ ⟨w, offset, .done err⟩

variable {env before batchSize}

theorem byDate_perm (executions : List WorkflowExecution) (ρ : RangeOrder) (line : ℕ) :
    ((ρ.run line (env.byDate executions).entries).flatMap Sigma.snd).Perm executions := by
  refine ((ρ.perm line _).flatMap_right _).trans ((GoMap.values_group _).trans ?_)
  rw [map_map]
  exact List.Perm.of_eq (map_id executions)

theorem length_byDate_le (executions : List WorkflowExecution) (ρ : RangeOrder) (line : ℕ) :
    (ρ.run line (env.byDate executions).entries).length ≤ executions.length := by
  rw [(ρ.perm line _).length_eq]
  refine (GoMap.len_group_le _).trans ?_
  rw [length_map]

theorem Step.answer {r : Run Bytes} {w w' : World Bytes} {offset : ℕ} {next : Phase}
    (h : Step env before batchSize r ⟨w', offset, next⟩)
    (hw : w = r.world ∨ w = r.world.draw ∨ ∃ elapsed, w = r.world.tick elapsed) (a : Answer)
    (err : String) : Step env before batchSize r
      ⟨if a.applied then w' else w, offset, a.proceed err next⟩ := by
  unfold Answer.applied Answer.proceed
  cases a.outcome with
  | ok => exact h
  | failed => exact .failed _ _ hw
  | lost => exact .lost _ _ h

theorem step_query (w : World Bytes) (offset : ℕ) (a : Answer) :
    Step env before batchSize ⟨w, offset, .query⟩
      (Run.step env before batchSize ⟨w, offset, .query⟩ a) := by
  let l := Sql.orderBy (fun e : WorkflowExecution => e.createdAt) (fun e => a.rank e.id)
    (w.db.older before)
  have hl : l.Perm (w.db.older before) := Sql.orderBy_perm _ _ _
  simp only [Run.step, Run.query, Answer.proceed]
  split_ifs with hok hnil
  · exact .empty hl (length_eq_zero_iff.mp hnil)
  · exact .page hl (fun h => hnil (by rw [h]; rfl)) (byDate_perm _ _ _) (length_byDate_le _ _ _)
  · exact .failed _ _ (.inl rfl)

theorem step_upload (w : World Bytes) (offset : ℕ) (batch : List WorkflowExecution)
    (date : String) (execs : List WorkflowExecution) (groups : Groups) (a : Answer) :
    Step env before batchSize ⟨w, offset, .upload batch (⟨date, execs⟩ :: groups)⟩
      (Run.step env before batchSize ⟨w, offset, .upload batch (⟨date, execs⟩ :: groups)⟩ a) := by
  simp only [Run.step, Run.upload]
  split
  · exact .failed _ _ (.inr (.inl rfl))
  · next data hjson =>
      split
      · exact .failed _ _ (.inr (.inl rfl))
      · next compressed hgzip =>
          exact Step.answer (.uploaded hjson hgzip) (.inr (.inl rfl)) a _

/-- Every step of the loop is one of those of `Step`, whatever is answered. -/
theorem step_spec (r : Run Bytes) (a : Answer) :
    Step env before batchSize r (r.step env before batchSize a) := by
  obtain ⟨w, offset, phase⟩ := r
  cases phase with
  | query => exact step_query w offset a
  | upload batch groups =>
    cases groups with
    | nil => exact .grouped
    | cons group groups => exact step_upload w offset batch group.1 group.2 groups a
  | record batch archive key groups =>
    exact Step.answer (.recorded a.elapsed) (.inr (.inr ⟨a.elapsed, rfl⟩)) a _
  | delete batch => exact Step.answer .deleted (.inl rfl) a _
  | done err => exact .done

end

/-! ## A page in progress -/

def Phase.batch : Phase → List WorkflowExecution
  | .upload batch _ | .record batch _ _ _ | .delete batch => batch
  | .query | .done _ => []

def Phase.pending : Phase → List WorkflowExecution
  | .upload _ groups => groups.flatMap Sigma.snd
  | .record _ archive _ groups => archive.executions ++ groups.flatMap Sigma.snd
  | .query | .delete _ | .done _ => []

section

variable {Bytes : Type} (env : Env Bytes) (before batchSize : ℤ)

/-- The archive is in the storage under a new key. -/
structure World.Uploaded (w : World Bytes) (archive : ExecutionArchive) (key : String) : Prop where
  load : w.loadArchive env key = some archive
  fresh : ∀ m ∈ w.metadata, m.storageKey ≠ key
  drawn : ∃ n < w.drawn, ∃ date, key = archiveKey date (env.uuid n).text

/-- The page consists of different executions of the database. -/
structure Run.OnPage (r : Run Bytes) : Prop where
  stored : ∀ e ∈ r.phase.batch, e ∈ r.world.db.older before
  distinct : (r.phase.batch.map (fun e => e.id)).Nodup

/-- Besides, what is pending of the page is pending once. -/
structure Run.Shape (r : Run Bytes) : Prop where
  keyed : r.world.Keyed env
  page : r.OnPage before
  waiting : ∀ e ∈ r.phase.pending, e ∈ r.phase.batch
  once : r.phase.pending.Nodup
  uploaded : ∀ batch archive key groups, r.phase = .record batch archive key groups →
    r.world.Uploaded env archive key

variable {env before batchSize}

variable {w : World Bytes} {offset : ℕ} {r r' : Run Bytes} {batch : List WorkflowExecution}
   {w₀ : World Bytes}

theorem Run.OnPage.of_idle (w : World Bytes) (offset : ℕ) {phase : Phase}
    (hphase : phase = .query ∨ ∃ err, phase = .done err) :
    Run.OnPage before ⟨w, offset, phase⟩ := by
  rcases hphase with rfl | ⟨err, rfl⟩
  all_goals
    refine ⟨fun e he => ?_, nodup_nil⟩
    cases he

theorem Run.Shape.of_idle (h : w.Keyed env) (offset : ℕ) {phase : Phase}
    (hphase : phase = .query ∨ ∃ err, phase = .done err) :
    Run.Shape env before ⟨w, offset, phase⟩ := by
  have hpage : Run.OnPage before ⟨w, offset, phase⟩ := .of_idle w offset hphase
  rcases hphase with rfl | ⟨err, rfl⟩
  all_goals
    refine ⟨h, hpage, ?_, nodup_nil, ?_⟩
    · intro e he
      cases he
    · intro _ _ _ _ heq
      cases heq

variable {l : List WorkflowExecution} {groups : Groups} {archive : ExecutionArchive} {key : String}
  {n : ℕ}

theorem Run.OnPage.page (hl : l.Perm (w.db.older before)) :
    Run.OnPage before ⟨w, offset, .upload (Sql.page batchSize offset l) groups⟩ := by
  have hids : (l.map (fun e => e.id)).Nodup :=
    (hl.map _).nodup_iff.mpr (w.db.nodup_older before)
  refine ⟨fun e he => ?_, hids.sublist ((Sql.page_sublist batchSize offset l).map _)⟩
  exact hl.mem_iff.mp ((Sql.page_sublist batchSize offset l).subset he)

theorem Run.Shape.page_upload (h : w.Keyed env) (hl : l.Perm (w.db.older before))
    (hgroups : (groups.flatMap Sigma.snd).Perm (Sql.page batchSize offset l)) :
    Run.Shape env before ⟨w, offset, .upload (Sql.page batchSize offset l) groups⟩ := by
  have hpage : Run.OnPage before ⟨w, offset, .upload (Sql.page batchSize offset l) groups⟩ :=
    .page hl
  refine ⟨h, hpage, ?_, ?_, fun _ _ _ _ heq => by cases heq⟩
  · intro e he
    exact hgroups.mem_iff.mp he
  · exact hgroups.nodup_iff.mpr (List.Nodup.of_map _ hpage.distinct)

/-- A step keeps to the page, whatever is in the storage. -/
theorem Run.OnPage.step (h : r.OnPage before) (hs : Step env before batchSize r r') :
    r'.OnPage before := by
  induction hs with
  | page hl _ _ _ => exact .page hl
  | uploaded _ _ | recorded _ | grouped => exact ⟨h.stored, h.distinct⟩
  | deleted => exact .of_idle _ _ (.inl rfl)
  | empty _ _ => exact .of_idle _ _ (.inr ⟨none, rfl⟩)
  | failed offset err _ | lost offset err _ _ => exact .of_idle _ offset (.inr ⟨_, rfl⟩)
  | done => exact h

/-- The phases of the loop hold what the queries before them returned. -/
theorem Run.Shape.step (h : r.Shape env before) (hs : Step env before batchSize r r') :
    r'.Shape env before := by
  induction hs with
  | page hl _ hgroups _ => exact .page_upload h.keyed hl hgroups
  | empty _ _ => exact .of_idle h.keyed _ (.inr ⟨none, rfl⟩)
  | @uploaded w offset batch date execs groups data compressed hjson hgzip =>
    refine ⟨h.keyed.draw.upload _ _, ⟨h.page.stored, h.page.distinct⟩, h.waiting, h.once, ?_⟩
    intro _ archive key _ heq
    obtain ⟨-, rfl, rfl, -⟩ := Phase.record.inj heq
    exact ⟨World.loadArchive_upload hjson hgzip _, h.keyed.fresh date,
      w.drawn, Nat.lt_succ_self _, date, rfl⟩
  | @recorded w offset batch archive key groups elapsed =>
    have hup := h.uploaded batch archive key groups rfl
    have hkeyed := (h.keyed.tick elapsed).create (m := archive.metadata key (w.tick elapsed).now)
      hup.drawn le_rfl
    refine ⟨hkeyed, ⟨h.page.stored, h.page.distinct⟩, ?_, ?_, fun _ _ _ _ heq => by cases heq⟩
    · intro e he
      exact h.waiting e (mem_append_right _ he)
    · exact (nodup_append.mp h.once).2.1
  | grouped =>
    refine ⟨h.keyed, ⟨h.page.stored, h.page.distinct⟩, ?_, nodup_nil,
      fun _ _ _ _ heq => by cases heq⟩
    intro e he
    cases he
  | deleted => exact .of_idle (h.keyed.delete _) _ (.inl rfl)
  | failed offset err hw =>
    refine .of_idle ?_ offset (.inr ⟨_, rfl⟩)
    rcases hw with rfl | rfl | ⟨elapsed, rfl⟩
    · exact h.keyed
    · exact h.keyed.draw
    · exact h.keyed.tick elapsed
  | lost offset err _ ih => exact .of_idle (ih h).keyed offset (.inr ⟨_, rfl⟩)
  | done => exact h

/-! ## Where the executions are -/

variable (env before) in
/-- Since the beginning `w₀`, what has left the database or is recorded of the page is in one more
archive, and the rest in no new one. -/
structure Run.Accounted (w₀ : World Bytes) (r : Run Bytes) : Prop where
  moved : ∀ e ∈ w₀.db.older before, e ∉ r.world.db.older before →
    r.world.copies env e = w₀.copies env e + 1
  recorded : ∀ e ∈ r.phase.batch, e ∉ r.phase.pending → r.world.copies env e = w₀.copies env e + 1
  untouched : (∀ err, r.phase ≠ .done (some err)) → ∀ e ∈ r.world.db.older before,
    (e ∈ r.phase.batch → e ∈ r.phase.pending) → r.world.copies env e = w₀.copies env e

theorem World.Uploaded.copies_create (h : w.Uploaded env archive key) (elapsed : ℕ)
    (e : WorkflowExecution) :
    ((w.tick elapsed).create (archive.metadata key (w.tick elapsed).now)).copies env e
      = w.copies env e + if e ∈ archive.executions then 1 else 0 := by
  have hholds : (w.tick elapsed).holds env e (archive.metadata key (w.tick elapsed).now)
      = decide (e ∈ archive.executions) := by
    have hload : (w.tick elapsed).loadArchive env key = some archive := h.load
    rw [World.holds, ExecutionArchive.metadata, hload, Option.any_some]
  rw [World.copies_create, hholds]
  simp only [decide_eq_true_eq]
  rfl

theorem Run.OnPage.mem_older_delete (h : Run.OnPage before ⟨w, offset, .delete batch⟩)
    (e : WorkflowExecution) :
    e ∈ (w.delete batch).db.older before ↔ e ∈ w.db.older before ∧ e ∉ batch := by
  rw [World.delete, Database.older_deleteArchivedExecutions, mem_filter, decide_eq_true_iff]
  refine and_congr_right (fun he => not_congr ?_)
  constructor
  · intro hid
    obtain ⟨e', he', heq⟩ := mem_map.mp hid
    rwa [Database.eq_of_id_eq he (h.stored e' he') heq.symm]
  · intro hbatch
    exact mem_map_of_mem hbatch

theorem Run.Accounted.recorded_step {w₀ w : World Bytes} {offset elapsed : ℕ}
    (hshape : Run.Shape env before ⟨w, offset, .record batch archive key groups⟩)
    (h : Run.Accounted env before w₀ ⟨w, offset, .record batch archive key groups⟩) :
    Run.Accounted env before w₀
      ⟨(w.tick elapsed).create (archive.metadata key (w.tick elapsed).now), offset,
        .upload batch groups⟩ := by
  have hcopies := (hshape.uploaded batch archive key groups rfl).copies_create elapsed
  have hstored : ∀ e ∈ archive.executions, e ∈ w.db.older before ∧ e ∈ batch := by
    intro e he
    have hbatch := hshape.waiting e (mem_append_left _ he)
    exact ⟨hshape.page.stored e hbatch, hbatch⟩
  have huntouched := h.untouched (fun _ heq => by cases heq)
  refine ⟨fun e he hgone => ?_, fun e he hrest => ?_, fun _ e he hrest => ?_⟩
  · rw [hcopies e, if_neg (fun hmem => hgone (hstored e hmem).1), h.moved e he hgone]
  · by_cases hmem : e ∈ archive.executions
    · have hwas := huntouched e (hstored e hmem).1 (fun _ => mem_append_left _ hmem)
      rw [hcopies e, if_pos hmem, hwas]
    · have hwas := h.recorded e he (fun hpending => (mem_append.mp hpending).elim hmem hrest)
      rw [hcopies e, if_neg hmem, hwas]
  · -- a group that is recorded has nothing in common with those that are not
    have hmem : e ∉ archive.executions := fun hmem =>
      (nodup_append.mp hshape.once).2.2 e hmem e (hrest (hstored e hmem).2) rfl
    have hwas := huntouched e he (fun hbatch => mem_append_right _ (hrest hbatch))
    rw [hcopies e, if_neg hmem, Nat.add_zero]
    exact hwas

theorem Run.Accounted.deleted_step {w₀ w : World Bytes} {offset offset' : ℕ}
    (hshape : Run.Shape env before ⟨w, offset, .delete batch⟩)
    (h : Run.Accounted env before w₀ ⟨w, offset, .delete batch⟩) :
    Run.Accounted env before w₀ ⟨w.delete batch, offset', .query⟩ := by
  refine ⟨fun e he hgone => ?_, fun e he => absurd he not_mem_nil, fun _ e he _ => ?_⟩
  · by_cases hthere : e ∈ w.db.older before
    · have hbatch : e ∈ batch := by
        by_contra hbatch
        exact hgone ((hshape.page.mem_older_delete e).mpr ⟨hthere, hbatch⟩)
      exact h.recorded e hbatch not_mem_nil
    · exact h.moved e he hthere
  · obtain ⟨hthere, hbatch⟩ := (hshape.page.mem_older_delete e).mp he
    exact h.untouched (fun _ heq => by cases heq) e hthere (fun hmem => absurd hmem hbatch)

/-- Nothing is lost: what leaves the database is in an archive. -/
theorem Run.Accounted.step (hshape : r.Shape env before) (h : r.Accounted env before w₀)
    (hs : Step env before batchSize r r') : r'.Accounted env before w₀ := by
  induction hs with
  | page hl _ hgroups _ =>
    refine ⟨h.moved, fun e he hnot => absurd (hgroups.mem_iff.mpr he) hnot, fun _ e he _ => ?_⟩
    exact h.untouched (fun _ heq => by cases heq) e he (fun hmem => by cases hmem)
  | empty _ _ =>
    exact ⟨h.moved, h.recorded, fun _ => h.untouched (fun _ heq => by cases heq)⟩
  | @uploaded w offset batch date execs groups data compressed _ _ =>
    have hcopies : ∀ e, (w.draw.upload (archiveKey date (env.uuid w.drawn).text)
        compressed).copies env e = w.copies env e :=
      fun e => World.copies_upload (hshape.keyed.fresh date) compressed
    refine ⟨fun e he hgone => ?_, fun e he hnot => ?_, fun _ e he hmem => ?_⟩
    · exact (hcopies e).trans (h.moved e he hgone)
    · exact (hcopies e).trans (h.recorded e he hnot)
    · exact (hcopies e).trans (h.untouched (fun _ heq => by cases heq) e he hmem)
  | recorded elapsed => exact h.recorded_step hshape
  | grouped =>
    exact ⟨h.moved, h.recorded, fun _ => h.untouched (fun _ heq => by cases heq)⟩
  | deleted => exact h.deleted_step hshape
  | failed offset err hw =>
    refine ⟨fun e he hgone => ?_, fun e he => absurd he not_mem_nil,
      fun hphase => absurd rfl (hphase err)⟩
    rcases hw with rfl | rfl | ⟨elapsed, rfl⟩
    all_goals exact h.moved e he hgone
  | lost offset err _ ih =>
    exact ⟨(ih hshape h).moved, fun e he => absurd he not_mem_nil,
      fun hphase => absurd rfl (hphase err)⟩
  | done => exact h

/-! ## How many pages there are -/

variable (before batchSize) in
/-- A page leaves nothing of the `n` executions if they all fit on it, and otherwise something. -/
def Run.Paged (n : ℕ) (r : Run Bytes) : Prop :=
  match r.phase with
  | .query =>
    (r.offset = 0 ∧ (r.world.db.older before).length = n) ∨
      (0 < r.offset ∧ (r.world.db.older before = [] ↔ Sql.Fits batchSize n))
  | .upload batch _ | .record batch _ _ _ | .delete batch =>
    batch ≠ [] ∧ (batch.length = (r.world.db.older before).length ↔ Sql.Fits batchSize n)
  | .done none => r.world.db.older before = [] ↔ Sql.Fits batchSize n
  | .done (some _) => True

theorem Run.Paged.length_page_eq_iff {offset : ℕ}
    (h : Run.Paged before batchSize n ⟨w, offset, .query⟩) (hl : l.Perm (w.db.older before))
    (hne : 0 < offset → l ≠ []) :
    (Sql.page batchSize offset l).length = (w.db.older before).length ↔ Sql.Fits batchSize n := by
  rcases h with ⟨rfl, hn⟩ | ⟨hpos, hempty⟩
  · rw [← hn, ← hl.length_eq]
    exact Sql.length_page_zero_eq_iff batchSize l
  have hlt := Sql.length_page_lt batchSize offset l hpos (hne hpos)
  have hfits : ¬ Sql.Fits batchSize n := by
    intro hfits
    rw [hempty.mpr hfits] at hl
    exact hne hpos hl.eq_nil
  rw [← hl.length_eq]
  exact iff_of_false hlt.ne hfits

theorem Run.OnPage.length_older_delete (h : Run.OnPage before ⟨w, offset, .delete batch⟩) :
    ((w.delete batch).db.older before).length + batch.length = (w.db.older before).length := by
  have hbatch : batch.Nodup := List.Nodup.of_map _ h.distinct
  have holder : (w.db.older before).Nodup := List.Nodup.of_map _ (w.db.nodup_older before)
  have hrest : ((w.delete batch).db.older before).Nodup :=
    List.Nodup.of_map _ ((w.delete batch).db.nodup_older before)
  have hperm : (((w.delete batch).db.older before) ++ batch).Perm (w.db.older before) := by
    refine (perm_ext_iff_of_nodup (nodup_append.mpr ⟨hrest, hbatch, ?_⟩) holder).mpr ?_
    · rintro e he e' he' rfl
      exact ((h.mem_older_delete e).mp he).2 he'
    intro e
    rw [mem_append, h.mem_older_delete]
    constructor
    · rintro (⟨he, -⟩ | he)
      · exact he
      · exact h.stored e he
    · intro he
      by_cases hmem : e ∈ batch
      · exact .inr hmem
      · exact .inl ⟨he, hmem⟩
  rw [← length_append, hperm.length_eq]

/-- Nothing is left exactly if everything fits on one page; a step keeps that. -/
theorem Run.Paged.step (hshape : r.Shape env before) (h : r.Paged before batchSize n)
    (hs : Step env before batchSize r r') : r'.Paged before batchSize n := by
  induction hs with
  | page hl hpage _ _ =>
    refine ⟨hpage, h.length_page_eq_iff hl (fun _ hnil => hpage ?_)⟩
    rw [hnil]
    exact eq_nil_of_sublist_nil (Sql.page_sublist _ _ _)
  | @empty w offset l hl hpage =>
    obtain ⟨rfl, hn⟩ | ⟨-, hempty⟩ : (offset = 0 ∧ (w.db.older before).length = n) ∨
        (0 < offset ∧ (w.db.older before = [] ↔ Sql.Fits batchSize n)) := h
    · have hiff := Sql.length_page_zero_eq_iff batchSize l
      rw [hpage, length_nil, eq_comm, hl.length_eq, length_eq_zero_iff, hn] at hiff
      exact hiff
    · exact hempty
  | uploaded _ _ => exact h
  | recorded _ => exact h
  | grouped => exact h
  | @deleted w offset batch =>
    obtain ⟨hne, hiff⟩ : batch ≠ [] ∧
        (batch.length = (w.db.older before).length ↔ Sql.Fits batchSize n) := h
    have hlength := hshape.page.length_older_delete
    have hnil : (w.delete batch).db.older before = [] ↔
        batch.length = (w.db.older before).length := by
      rw [← length_eq_zero_iff]
      omega
    exact .inr ⟨Nat.add_pos_right offset (length_pos_of_ne_nil hne), hnil.trans hiff⟩
  | failed _ _ _ => exact trivial
  | lost _ _ _ _ => exact trivial
  | done => exact h

/-! ## Whole calls -/

variable (env before batchSize) in
structure Run.Inv (w₀ : World Bytes) (r : Run Bytes) : Prop where
  shape : r.Shape env before
  accounted : r.Accounted env before w₀
  paged : r.Paged before batchSize (w₀.db.older before).length

theorem Run.inv_start (h : w.Keyed env) : Run.Inv env before batchSize w { world := w } where
  shape := .of_idle h 0 (.inl rfl)
  accounted := ⟨fun _ he hgone => absurd he hgone, fun _ he => absurd he not_mem_nil,
    fun _ _ _ _ => rfl⟩
  paged := .inl ⟨rfl, rfl⟩

/-- The invariants of the loop together, through one answer. -/
theorem Run.Inv.step {r : Run Bytes} (h : r.Inv env before batchSize w₀) (a : Answer) :
    (r.step env before batchSize a).Inv env before batchSize w₀ where
  shape := h.shape.step (step_spec r a)
  accounted := h.accounted.step h.shape (step_spec r a)
  paged := h.paged.step h.shape (step_spec r a)

theorem Run.Inv.kept {r : Run Bytes} (h : r.Inv env before batchSize w₀) :
    Kept env before w₀ r := by
  intro e he
  by_cases hthere : e ∈ r.world.db.older before
  · exact .inl hthere
  · rw [h.accounted.moved e he hthere]
    exact .inr (Nat.succ_pos _)

/-- What a finished call has archived, by the page sizes alone. -/
theorem Run.Inv.archived_iff {r : Run Bytes} (h : r.Inv env before batchSize w₀)
    (hdone : r.phase = .done none) :
    Archived env before w₀ r ↔ Sql.Fits batchSize (w₀.db.older before).length ∧
      ∀ e ∈ w₀.db.older before, w₀.copies env e = 0 := by
  have hempty : r.world.db.older before = [] ↔ Sql.Fits batchSize (w₀.db.older before).length := by
    have hpaged := h.paged
    rwa [Paged, hdone] at hpaged
  rw [Archived, hempty]
  refine and_congr_right (fun hfits => forall₂_congr (fun e he => ?_))
  have hgone : e ∉ r.world.db.older before := by
    rw [hempty.mpr hfits]
    exact not_mem_nil
  rw [h.accounted.moved e he hgone, Nat.add_eq_right]

theorem Run.always_inv (h : w.Keyed env) (as : List Answer) :
    Runs.Always (Run.step env before batchSize) (Run.Inv env before batchSize w)
      { world := w } as :=
  Runs.always_of_step (fun _ a hr => hr.step a) (Run.inv_start h)

/-- **Archiving.** Whatever fails, each execution older than the cut-off is at every moment in the
database or in a recorded archive. A call without error leaves none in the database and each in
exactly one archive, exactly if they fit on one page and were in no archive before. -/
theorem archiveExecutions_iff {w : World Bytes} (h : w.Keyed env) (before batchSize : ℤ)
    (as : List Answer) :
    Runs.Always (Run.step env before batchSize) (Kept env before w) { world := w } as ∧
      ((as.foldl (Run.step env before batchSize) { world := w }).phase = .done none →
        (Archived env before w (as.foldl (Run.step env before batchSize) { world := w }) ↔
          Sql.Fits batchSize (w.db.older before).length ∧
            ∀ e ∈ w.db.older before, w.copies env e = 0)) := by
  have hinv : Runs.Always (Run.step env before batchSize) (Run.Inv env before batchSize w)
      { world := w } as := Run.always_inv h as
  exact ⟨fun pre hpre => (hinv pre hpre).kept, hinv.last.archived_iff⟩

end

def plainUUID (n : ℕ) : UUID where
  text := String.ofList (List.replicate (n + 11) '0')
  noSlash := by
    rw [String.toList_ofList]
    exact fun h => absurd (List.eq_of_mem_replicate h) (by decide)
  long := by
    rw [String.toList_ofList, List.length_replicate]
    omega

theorem length_plainUUID (n : ℕ) : (plainUUID n).text.toList.length = n + 11 := by
  rw [plainUUID, String.toList_ofList, length_replicate]

/-- Archives are stored as they are, and days are those of UTC. -/
def plainEnv : Env ExecutionArchive where
  day t := t / 86400000000000
  json := Codec.plain _
  compressor := Codec.plain _
  uuid := plainUUID
  uuid_injective := by
    intro m n h
    have hlength : (plainUUID m).text.toList.length = (plainUUID n).text.toList.length := by rw [h]
    rw [length_plainUUID, length_plainUUID] at hlength
    exact Nat.add_right_cancel hlength

/-- Two executions of one day. -/
def twoExecutions : World ExecutionArchive where
  db :=
    { executions :=
        [{ id := "e1", workflowID := "w", status := "completed", createdBy := "u", createdAt := 1 },
          { id := "e2", workflowID := "w", status := "failed", createdBy := "u", createdAt := 2 }]
      nodeExecutions := [{ id := "n1", executionID := "e1", nodeID := "n", status := "completed" }]
      nodup := by decide }

theorem keyed_twoExecutions : twoExecutions.Keyed plainEnv where
  key := fun m hm => by cases hm
  time := fun m hm => by cases hm

/-- A call of `ArchiveExecutions` for them without errors. -/
def archiveTwo (batchSize : ℤ) : Run ExecutionArchive :=
  (List.replicate 6 {}).foldl (Run.step plainEnv 10 batchSize) { world := twoExecutions }

theorem archived_of_page_of_two :
    Runs.Always (Run.step plainEnv 10 2) (Kept plainEnv 10 twoExecutions)
        { world := twoExecutions } (List.replicate 6 {}) ∧
      Archived plainEnv 10 twoExecutions (archiveTwo 2) := by
  obtain ⟨hkept, hiff⟩ := archiveExecutions_iff keyed_twoExecutions 10 2 (replicate 6 {})
  exact ⟨hkept, (hiff (by decide +kernel)).mpr (by decide +kernel)⟩

/-- With pages of one execution the call returns without an error, and the second one is still in
the database. -/
theorem second_page_skipped :
    (archiveTwo 1).phase = .done none ∧ ¬ Archived plainEnv 10 twoExecutions (archiveTwo 1) := by
  refine ⟨by decide +kernel, fun h => ?_⟩
  exact absurd h.1 (by decide +kernel)

/-! ## The call returns -/

section

variable {Bytes : Type} {env : Env Bytes} {before batchSize : ℤ}

def Run.remaining (before : ℤ) (r : Run Bytes) : ℕ :=
  match r.phase with
  | .query => 5 * (r.world.db.older before).length + 1
  | .upload batch groups =>
    5 * ((r.world.db.older before).length - batch.length) + 3 + 2 * groups.length
  | .record batch _ _ groups =>
    5 * ((r.world.db.older before).length - batch.length) + 4 + 2 * groups.length
  | .delete batch => 5 * ((r.world.db.older before).length - batch.length) + 2
  | .done _ => 0

/-- A measure for the loop: each answer uses up one of those left. -/
theorem Run.remaining_step {r r' : Run Bytes} (h : r.OnPage before)
    (hs : Step env before batchSize r r') : r'.remaining before ≤ r.remaining before - 1 := by
  cases hs with
  | @page w offset l groups hl hpage _ hlength =>
    have hsub := (Sql.page_sublist batchSize offset l).length_le
    have hpos := length_pos_of_ne_nil hpage
    rw [hl.length_eq] at hsub
    simp only [remaining]
    omega
  | @deleted w offset batch =>
    have hlength := h.length_older_delete
    simp only [remaining]
    omega
  | uploaded _ _ =>
    simp only [remaining, World.db_upload, World.db_draw, length_cons]
    omega
  | recorded _ =>
    simp only [remaining, World.db_create, World.db_tick]
    omega
  | grouped =>
    simp only [remaining, length_nil]
    omega
  | empty _ _ | failed _ _ _ | lost _ _ _ | done => exact Nat.zero_le _

theorem Run.remaining_foldl {r : Run Bytes} (h : r.OnPage before) (as : List Answer) :
    (as.foldl (Run.step env before batchSize) r).remaining before
      ≤ r.remaining before - as.length := by
  induction as generalizing r with
  | nil => exact le_rfl
  | cons a as ih =>
    have hspec : Step env before batchSize r (r.step env before batchSize a) := step_spec r a
    have hstep := Run.remaining_step h hspec
    have hrest := ih (h.step hspec)
    rw [foldl_cons, length_cons]
    omega

/-- **`ArchiveExecutions` returns**, whatever the database and the storage answer. -/
theorem archiveExecutions_returns {w : World Bytes} {as : List Answer}
    (hlength : 5 * (w.db.older before).length + 1 ≤ as.length) :
    ∃ err, (as.foldl (Run.step env before batchSize) { world := w }).phase = .done err := by
  have hle := @Run.remaining_foldl _ env before batchSize _ (.of_idle w 0 (.inl rfl)) as
  generalize as.foldl (Run.step env before batchSize) { world := w } = r at hle
  obtain ⟨w', offset, phase⟩ := r
  cases phase with
  | done err => exact ⟨err, rfl⟩
  | query | upload _ _ | record _ _ _ _ | delete _ =>
    simp only [Run.remaining] at hle
    omega

theorem twoExecutions_returns : ∃ err, ((replicate 11 {}).foldl (Run.step plainEnv 10 1)
      { world := twoExecutions }).phase = .done err :=
  archiveExecutions_returns (by decide)

end

end LinkFlow.Archival
