/-
The workflow service (`internal/workflow/app/service/service.go`) over its repository
(`internal/workflow/adapters/db/repository/repository.go`).

The database has a row for each workflow and a log of version records. Every change of a
row is one transaction that writes the row and appends a record; the version number is
written in three places, the row, the record and the JSON text of the record. `DB.put` is
what such a transaction leaves behind, and `Change` says once, for every service call,
which row and which record it puts.

The JSON encoding is a parameter with the law that decoding returns what was encoded. A
call is given the UUIDs it draws, the readings of the clock and whether the database fails
it. A transaction that fails is rolled back.
-/
import LinkFlow.Workflow
import LinkFlow.Lib.Codec

set_option autoImplicit false

namespace LinkFlow.WorkflowStore

open List

/-! ## The database -/

structure WorkflowVersion (D : Type) where
  (id workflowID : String)
  version : ℤ
  data : D
  (changedBy changeNote : String)
  createdAt : ℤ
deriving DecidableEq

/-- The `workflows` table by its primary key, and the version records in the order they
were written. -/
structure DB (D : Type) where
  workflows : GoMap String Workflow
  versions : List (WorkflowVersion D)
  keyed : ∀ id w, workflows.lookup id = some w → w.id = id

/-- Why a call fails. -/
inductive Failure
  | text (message : String)
  | json
  | database
deriving DecidableEq, Repr

def errWorkflowNotFound : Failure := .text "workflow not found"
def errInvalidWorkflow : Failure := .text "invalid workflow"
def errVersionMismatch : Failure := .text "version mismatch - workflow was modified by another user"
def errRecordNotFound : Failure := .text "record not found"

/-- What a call takes from outside. -/
structure Env where
  /-- drawn by `NewWorkflow` -/
  (uuid versionUUID : String)
  (createdAt updatedAt savedAt recordedAt : ℤ := 0)
  (getFails txFails : Bool := false)

namespace DB

variable {D : Type}

/-- No workflows. -/
def empty : DB D where
  workflows := ∅
  versions := []
  keyed := by simp

/-- The version records of a workflow. -/
def records (db : DB D) (id : String) : List (WorkflowVersion D) :=
  db.versions.filter (fun v => v.workflowID = id)

def put (w : Workflow) (v : WorkflowVersion D) (db : DB D) : DB D where
  workflows := db.workflows.insert w.id w
  versions := db.versions ++ [v]
  keyed := by
    intro id w' h
    by_cases hid : id = w.id
    · rw [hid, AList.lookup_insert, Option.some_inj] at h
      rw [← h, hid]
    · rw [AList.lookup_insert_ne hid] at h
      exact db.keyed id w' h

theorem lookup_put_self (w : Workflow) (v : WorkflowVersion D) (db : DB D) :
    (db.put w v).workflows.lookup w.id = some w :=
  AList.lookup_insert _

theorem lookup_put_of_ne {w : Workflow} (v : WorkflowVersion D) (db : DB D) {id : String}
    (h : id ≠ w.id) : (db.put w v).workflows.lookup id = db.workflows.lookup id :=
  AList.lookup_insert_ne h

theorem records_put_self {w : Workflow} {v : WorkflowVersion D} (db : DB D) {id : String}
    (h : v.workflowID = id) : (db.put w v).records id = db.records id ++ [v] := by
  rw [records, records, put, filter_append, filter_singleton, decide_eq_true h, cond_true]

theorem records_put_of_ne {w : Workflow} {v : WorkflowVersion D} (db : DB D) {id : String}
    (h : v.workflowID ≠ id) : (db.put w v).records id = db.records id := by
  rw [records, records, put, filter_append, filter_singleton, decide_eq_false h,
    cond_false, append_nil]

/-- `SELECT MAX(version)`, which is `NULL` without a record. -/
def maxVersion (db : DB D) (id : String) : Option ℤ :=
  ((db.records id).map WorkflowVersion.version).max?

/-- `Where("workflow_id = ? AND version = ?").First(&wv)`: the least primary key wins. -/
def firstVersion (db : DB D) (id : String) (version : ℤ) : Option (WorkflowVersion D) :=
  ((db.records id).filter (fun v => v.version = version)).argmin WorkflowVersion.id

/-- The end of every transaction below: the row is saved, then the record is created, which
fails on a primary key that is taken. -/
def commit (env : Env) (w : Workflow) (v : WorkflowVersion D) (db : DB D) : Except Failure (DB D) :=
  if env.txFails = true ∨ v.id ∈ db.versions.map WorkflowVersion.id then .error .database
  else .ok (db.put w v)

end DB

/-! ## The repository -/

section Repository

variable {D : Type} (js : Codec Workflow D) (env : Env)

def createWithVersion (w : Workflow) (db : DB D) : Except Failure (DB D) :=
  if w.id ∈ db.workflows then .error .database
  else
    match js.encode w with
    | none => .error .json
    | some data =>
      db.commit env w
        { id := env.versionUUID, workflowID := w.id, version := 1, data := data,
          changedBy := w.userID, changeNote := "Initial version", createdAt := env.recordedAt }

def getByIDAndUser (workflowID userID : String) (db : DB D) : Option Workflow :=
  if env.getFails then none
  else (db.workflows.lookup workflowID).filter (fun w => w.userID = userID ∧ w.deletedAt = none)

/-- `WorkflowRepository.UpdateWithVersion`, with the workflow as it leaves it. `NULL` does
not scan into an `int`. -/
def updateWithVersion (w : Workflow) (changeNote : String) (db : DB D) :
    Except Failure (Workflow × DB D) :=
  match db.maxVersion w.id with
  | none => .error .database
  | some currentVersion =>
    let w := { w with version := currentVersion + 1, updatedAt := env.savedAt }
    match js.encode w with
    | none => .error .json
    | some data =>
      (db.commit env w
        { id := env.versionUUID, workflowID := w.id, version := w.version, data := data,
          changedBy := w.userID, changeNote := changeNote,
          createdAt := env.recordedAt }).map (fun db => (w, db))

/-- The new record carries the old record's data. -/
def restoreVersion (workflowID : String) (version : ℤ) (userID : String) (db : DB D) :
    Except Failure (DB D) :=
  match db.firstVersion workflowID version with
  | none => .error errRecordNotFound
  | some wv =>
    match js.decode wv.data with
    | none => .error .json
    | some restored =>
      match db.maxVersion workflowID with
      | none => .error .database
      | some currentVersion =>
        db.commit env
          { restored with version := currentVersion + 1, updatedAt := env.savedAt }
          { id := env.versionUUID, workflowID := workflowID, version := currentVersion + 1,
            data := wv.data, changedBy := userID,
            changeNote := "Restored from version " ++ toString version,
            createdAt := env.recordedAt }

end Repository

/-! ## The service -/

/-- A slice that is absent is `none`. -/
structure CreateWorkflowRequest where
  (userID name : String)
  description : String := ""
  nodes : Option (List Node) := none
  connections : Option (List Connection) := none
  tags : Option (List String) := none

structure UpdateWorkflowRequest where
  (workflowID userID : String)
  (name description : String := "")
  nodes : Option (List Node) := none
  connections : Option (List Connection) := none
  tags : Option (List String) := none
  version : ℤ := 0

def newWorkflow (env : Env) (name description userID : String) : Workflow where
  id := env.uuid
  name := name
  description := description
  userID := userID
  nodes := []
  connections := []
  settings := { timeout := 300, retryOnFailure := false, maxRetries := 3, timezone := "UTC" }
  status := .inactive
  version := 1
  createdAt := env.createdAt
  updatedAt := env.updatedAt

def activate (now : ℤ) (w : Workflow) : Except String Workflow :=
  match w.validation with
  | .error e => .error e
  | .ok () => .ok { w with status := .active, isActive := true, updatedAt := now }

def deactivate (now : ℤ) (w : Workflow) : Workflow :=
  { w with status := .inactive, isActive := false, updatedAt := now }

/-- `if len(wf.Nodes) > 0 { wf.Validate() }`, as three service calls write it. -/
def validateNodes (w : Workflow) : Except Failure Unit :=
  if 0 < w.nodes.length then
    match w.validation with
    | .error _ => .error errInvalidWorkflow
    | .ok () => .ok ()
  else .ok ()

section Service

variable {D : Type} (js : Codec Workflow D) (env : Env)

def createWorkflow (req : CreateWorkflowRequest) (db : DB D) : Except Failure (Workflow × DB D) :=
  if req.name = "" then .error errInvalidWorkflow
  else
    let wf := newWorkflow env req.name req.description req.userID
    let wf := { wf with
      nodes := req.nodes.getD wf.nodes, connections := req.connections.getD wf.connections,
      tags := req.tags.getD wf.tags }
    match validateNodes wf with
    | .error e => .error e
    | .ok () => (createWithVersion js env wf db).map (fun db => (wf, db))

def applyUpdate (req : UpdateWorkflowRequest) (wf : Workflow) : Workflow :=
  { wf with
    name := if req.name ≠ "" then req.name else wf.name
    description := if req.description ≠ "" then req.description else wf.description
    nodes := req.nodes.getD wf.nodes
    connections := req.connections.getD wf.connections
    tags := req.tags.getD wf.tags
    version := wf.version + 1
    updatedAt := env.updatedAt }

/-- `WorkflowService.UpdateWorkflow` up to its call of the repository: the row is read, its version
compared, and the new content made and validated. -/
def prepareUpdate (req : UpdateWorkflowRequest) (db : DB D) : Except Failure Workflow :=
  match getByIDAndUser env req.workflowID req.userID db with
  | none => .error errWorkflowNotFound
  | some wf =>
    if 0 < req.version ∧ wf.version ≠ req.version then .error errVersionMismatch
    else
      let wf := applyUpdate env req wf
      match validateNodes wf with
      | .error e => .error e
      | .ok () => .ok wf

def updateWorkflow (req : UpdateWorkflowRequest) (db : DB D) : Except Failure (Workflow × DB D) :=
  match prepareUpdate env req db with
  | .error e => .error e
  | .ok wf => updateWithVersion js env wf "Updated" db

def activateWorkflow (workflowID userID : String) (db : DB D) : Except Failure (Workflow × DB D) :=
  match getByIDAndUser env workflowID userID db with
  | none => .error errWorkflowNotFound
  | some wf =>
    match validateNodes wf with
    | .error e => .error e
    | .ok () =>
      match activate env.updatedAt wf with
      | .error e => .error (.text e)
      | .ok wf => updateWithVersion js env wf "Updated" db

def deactivateWorkflow (workflowID userID : String) (db : DB D) :
    Except Failure (Workflow × DB D) :=
  match getByIDAndUser env workflowID userID db with
  | none => .error errWorkflowNotFound
  | some wf => updateWithVersion js env (deactivate env.updatedAt wf) "Updated" db

def rollbackWorkflowVersion (workflowID : String) (version : ℤ) (userID : String) (db : DB D) :
    Except Failure (DB D) :=
  match getByIDAndUser env workflowID userID db with
  | none => .error errWorkflowNotFound
  | some _ => restoreVersion js env workflowID version userID db

end Service

/-! ## One call -/

/-- A call of the service. -/
inductive Op
  | create (req : CreateWorkflowRequest)
  | update (req : UpdateWorkflowRequest)
  | activate (workflowID userID : String)
  | deactivate (workflowID userID : String)
  | restore (workflowID : String) (version : ℤ) (userID : String)

def Op.Empties (id : String) (op : Op) : Prop :=
  ∃ req, op = .update req ∧ req.workflowID = id ∧ req.nodes = some []

section Steps

variable {D : Type} (js : Codec Workflow D)

def perform (env : Env) (db : DB D) : Op → Except Failure (DB D)
  | .create req => (createWorkflow js env req db).map Prod.snd
  | .update req => (updateWorkflow js env req db).map Prod.snd
  | .activate workflowID userID => (activateWorkflow js env workflowID userID db).map Prod.snd
  | .deactivate workflowID userID => (deactivateWorkflow js env workflowID userID db).map Prod.snd
  | .restore workflowID version userID =>
    rollbackWorkflowVersion js env workflowID version userID db

/-- One call after the other; a call that fails leaves the database alone. -/
def step (db : DB D) (a : Op × Env) : DB D :=
  match perform js a.2 db a.1 with
  | .ok db' => db'
  | .error _ => db

/-- The record is a snapshot of the row. -/
structure RecordOf (w : Workflow) (v : WorkflowVersion D) : Prop where
  workflowID : v.workflowID = w.id
  version : v.version = w.version
  data : js.encode w = some v.data

/-- What a successful call does to the database. -/
inductive Change (op : Op) (db : DB D) : DB D → Prop
  | created (w : Workflow) (v : WorkflowVersion D) (hnew : w.id ∉ db.workflows)
      (hversion : w.version = 1) (hinactive : w.isActive = false) (hrec : RecordOf js w v) :
      Change op db (db.put w v)
  | updated (w₀ w : Workflow) (v : WorkflowVersion D) (m : ℤ)
      (hrow : db.workflows.lookup w.id = some w₀) (hmax : db.maxVersion w.id = some m)
      (hversion : w.version = m + 1) (hrec : RecordOf js w v)
      (hnodes : w.isActive = true →
        w.Valid ∨ w₀.isActive = true ∧ (w₀.nodes = [] ∨ op.Empties w.id)) :
      Change op db (db.put w v)
  | restored (wv : WorkflowVersion D) (w : Workflow) (v : WorkflowVersion D) (m t k : ℤ)
      (userID : String) (hop : op = .restore v.workflowID k userID)
      (hwv : wv ∈ db.records v.workflowID) (hk : wv.version = k)
      (hdecode : js.decode wv.data = some w)
      (hmax : db.maxVersion v.workflowID = some m) (hversion : v.version = m + 1)
      (hdata : v.data = wv.data) :
      Change op db (db.put { w with version := m + 1, updatedAt := t } v)

variable {js} {env : Env} {db db' : DB D}

variable {w : Workflow} {workflowID userID : String} {req : UpdateWorkflowRequest}

theorem DB.commit_eq_ok {v : WorkflowVersion D} (h : db.commit env w v = .ok db') :
    db' = db.put w v := by
  rw [DB.commit] at h
  split_ifs at h
  exact (Except.ok.inj h).symm

theorem getByIDAndUser_eq_some (h : getByIDAndUser env workflowID userID db = some w) :
    db.workflows.lookup workflowID = some w ∧ w.id = workflowID := by
  rw [getByIDAndUser] at h
  split_ifs at h
  have hrow := (Option.filter_eq_some_iff.mp h).1
  exact ⟨hrow, db.keyed _ _ hrow⟩

theorem valid_or_nil_of_validateNodes (h : validateNodes w = .ok ()) : w.nodes = [] ∨ w.Valid := by
  rw [validateNodes] at h
  split_ifs at h with hlen
  · right
    cases hv : w.validation with
    | error e => simp [hv] at h
    | ok u => exact hv
  · left
    exact length_eq_zero_iff.mp (by omega)

theorem ok_of_map_eq_ok {E A B : Type} {f : A → B} {x : Except E A} {b : B}
    (h : x.map f = .ok b) : ∃ a, x = .ok a ∧ f a = b := by
  cases x with
  | error e => cases h
  | ok a => exact ⟨a, rfl, Except.ok.inj h⟩

theorem createWithVersion_eq_ok (h : createWithVersion js env w db = .ok db') :
    w.id ∉ db.workflows ∧ ∃ v, db' = db.put w v ∧ v.workflowID = w.id ∧ v.version = 1 ∧
      js.encode w = some v.data := by
  rw [createWithVersion] at h
  split_ifs at h with hmem
  split at h
  · cases h
  · rename_i data henc
    exact ⟨hmem, _, DB.commit_eq_ok h, rfl, rfl, henc⟩

theorem createWorkflow_eq_ok {req : CreateWorkflowRequest}
    (h : createWorkflow js env req db = .ok (w, db')) :
    w.id ∉ db.workflows ∧ w.version = 1 ∧ w.isActive = false ∧
      ∃ v, db' = db.put w v ∧ RecordOf js w v := by
  rw [createWorkflow] at h
  split_ifs at h
  dsimp only at h
  split at h
  · cases h
  obtain ⟨db₁, hdb, heq⟩ := ok_of_map_eq_ok h
  cases heq
  obtain ⟨hnew, v, rfl, hid, hver, henc⟩ := createWithVersion_eq_ok hdb
  exact ⟨hnew, rfl, rfl, v, rfl, hid, hver, henc⟩

/-- The repository numbers the row and the record itself, whatever version the workflow it
is given has. -/
theorem updateWithVersion_eq_ok {w w' : Workflow} {changeNote : String}
    (h : updateWithVersion js env w changeNote db = .ok (w', db')) :
    ∃ m v, db.maxVersion w.id = some m ∧
      w' = { w with version := m + 1, updatedAt := env.savedAt } ∧
      db' = db.put w' v ∧ RecordOf js w' v := by
  rw [updateWithVersion] at h
  split at h
  · cases h
  rename_i m hmax
  dsimp only at h
  split at h
  · cases h
  rename_i data henc
  obtain ⟨db₁, hdb, heq⟩ := ok_of_map_eq_ok h
  cases heq
  exact ⟨m, _, hmax, rfl, DB.commit_eq_ok hdb, rfl, rfl, henc⟩

theorem prepareUpdate_eq_ok (h : prepareUpdate env req db = .ok w) :
    ∃ w₀, db.workflows.lookup req.workflowID = some w₀ ∧ w₀.id = req.workflowID ∧
      (0 < req.version → w₀.version = req.version) ∧ w = applyUpdate env req w₀ ∧
      (w.nodes = [] ∨ w.Valid) := by
  rw [prepareUpdate] at h
  split at h
  · cases h
  rename_i w₀ hget
  obtain ⟨hrow, hid⟩ := getByIDAndUser_eq_some hget
  split_ifs at h with hver
  dsimp only at h
  split at h
  · cases h
  rename_i hnodes
  cases h
  refine ⟨w₀, hrow, hid, ?_, rfl, valid_or_nil_of_validateNodes hnodes⟩
  intro hpos
  by_contra hne
  exact hver ⟨hpos, hne⟩

theorem Change.of_updateWithVersion {op : Op} {w₀ w w' : Workflow} {changeNote : String}
    (h : updateWithVersion js env w changeNote db = .ok (w', db'))
    (hrow : db.workflows.lookup w.id = some w₀) (hnodes : w.isActive = true →
      w.Valid ∨ w₀.isActive = true ∧ (w₀.nodes = [] ∨ op.Empties w.id)) : Change js op db db' := by
  obtain ⟨m, v, hmax, rfl, rfl, hrec⟩ := updateWithVersion_eq_ok h
  refine Change.updated w₀ _ v m hrow hmax rfl hrec ?_
  intro hact
  -- `Validate` does not see the version and the time that the repository sets
  exact (hnodes hact).imp_left (Workflow.valid_congr rfl rfl).mp

theorem updateWorkflow_eq_ok (h : updateWorkflow js env req db = .ok (w, db')) :
    ∃ wf, prepareUpdate env req db = .ok wf ∧
      updateWithVersion js env wf "Updated" db = .ok (w, db') := by
  rw [updateWorkflow] at h
  split at h
  · cases h
  · rename_i wf hprep
    exact ⟨wf, hprep, h⟩

theorem updateWorkflow_change (h : updateWorkflow js env req db = .ok (w, db')) :
    Change js (.update req) db db' := by
  obtain ⟨wf, hprep, hsave⟩ := updateWorkflow_eq_ok h
  obtain ⟨w₀, hrow, hid, -, rfl, hnodes⟩ := prepareUpdate_eq_ok hprep
  rw [← hid] at hrow
  refine Change.of_updateWithVersion hsave hrow ?_
  intro hact
  rcases hnodes with hnil | hvalid
  · refine .inr ⟨hact, ?_⟩
    -- without nodes, because the request says so or because the row was
    cases hreq : req.nodes with
    | none =>
      left
      rw [applyUpdate, hreq] at hnil
      exact hnil
    | some ns =>
      right
      rw [applyUpdate, hreq] at hnil
      refine ⟨req, rfl, hid.symm, ?_⟩
      rw [hreq]
      exact congrArg some hnil
  · exact .inl hvalid

theorem activateWorkflow_change (h : activateWorkflow js env workflowID userID db = .ok (w, db')) :
    Change js (.activate workflowID userID) db db' := by
  rw [activateWorkflow] at h
  split at h
  · cases h
  rename_i w₀ hget
  obtain ⟨hrow, hid⟩ := getByIDAndUser_eq_some hget
  rw [← hid] at hrow
  split at h
  · cases h
  split at h
  · cases h
  rename_i wf hact
  rw [activate] at hact
  split at hact
  · cases hact
  rename_i hvalid
  cases hact
  refine Change.of_updateWithVersion h hrow ?_
  intro _
  exact .inl ((Workflow.valid_congr rfl rfl).mp hvalid)

theorem deactivateWorkflow_change
    (h : deactivateWorkflow js env workflowID userID db = .ok (w, db')) :
    Change js (.deactivate workflowID userID) db db' := by
  rw [deactivateWorkflow] at h
  split at h
  · cases h
  rename_i w₀ hget
  obtain ⟨hrow, hid⟩ := getByIDAndUser_eq_some hget
  rw [← hid] at hrow
  refine Change.of_updateWithVersion h hrow ?_
  intro hact
  cases hact

theorem DB.firstVersion_eq_some {id : String} {k : ℤ} {wv : WorkflowVersion D}
    (h : db.firstVersion id k = some wv) : wv ∈ db.records id ∧ wv.version = k := by
  have hmem := argmin_mem h
  rw [mem_filter] at hmem
  exact ⟨hmem.1, by simpa using hmem.2⟩

theorem rollbackWorkflowVersion_eq_ok {version : ℤ}
    (h : rollbackWorkflowVersion js env workflowID version userID db = .ok db') :
    ∃ wv w v m, v.workflowID = workflowID ∧ wv ∈ db.records workflowID ∧ wv.version = version ∧
      js.decode wv.data = some w ∧ db.maxVersion workflowID = some m ∧ v.version = m + 1 ∧
      v.data = wv.data ∧
      db' = db.put { w with version := m + 1, updatedAt := env.savedAt } v := by
  rw [rollbackWorkflowVersion] at h
  split at h
  · cases h
  rw [restoreVersion] at h
  split at h
  · cases h
  rename_i wv hfirst
  obtain ⟨hmem, hk⟩ := DB.firstVersion_eq_some hfirst
  split at h
  · cases h
  rename_i w hdecode
  split at h
  · cases h
  rename_i m hmax
  refine ⟨wv, w, _, m, ?_, hmem, hk, hdecode, hmax, ?_, ?_, DB.commit_eq_ok h⟩
  · rfl
  · rfl
  · rfl

/-- **What a call can do.** -/
theorem perform_change {op : Op} (h : perform js env db op = .ok db') : Change js op db db' := by
  cases op with
  | create req =>
    obtain ⟨⟨w, db₁⟩, hw, rfl⟩ := ok_of_map_eq_ok h
    obtain ⟨hnew, hver, hinact, v, rfl, hrec⟩ := createWorkflow_eq_ok hw
    exact Change.created w v hnew hver hinact hrec
  | update req =>
    obtain ⟨⟨w, db₁⟩, hw, rfl⟩ := ok_of_map_eq_ok h
    exact updateWorkflow_change hw
  | activate workflowID userID =>
    obtain ⟨⟨w, db₁⟩, hw, rfl⟩ := ok_of_map_eq_ok h
    exact activateWorkflow_change hw
  | deactivate workflowID userID =>
    obtain ⟨⟨w, db₁⟩, hw, rfl⟩ := ok_of_map_eq_ok h
    exact deactivateWorkflow_change hw
  | restore workflowID version userID =>
    obtain ⟨wv, w, v, m, rfl, hmem, hk, hdecode, hmax, hver, hdata, rfl⟩ :=
      rollbackWorkflowVersion_eq_ok h
    exact Change.restored wv w v m env.savedAt version userID rfl hmem hk hdecode hmax hver hdata

theorem step_cases (js : Codec Workflow D) (db : DB D) (a : Op × Env) :
    step js db a = db ∧ (∃ e, perform js a.2 db a.1 = .error e) ∨
      perform js a.2 db a.1 = .ok (step js db a) ∧ Change js a.1 db (step js db a) := by
  rw [step]
  cases h : perform js a.2 db a.1 with
  | error e => exact .inl ⟨rfl, e, rfl⟩
  | ok db' => exact .inr ⟨rfl, perform_change h⟩

end Steps

end LinkFlow.WorkflowStore
