/-
Runs of the workflow service, one call after the other.

Two invariants. The version records of a workflow are numbered from 1 without gap and its
row has the number of the last one, whatever calls are made (`versioned_run`); that the
data of each record has the record's own number, and the last the content of the row, lasts
exactly until a version is restored (`versions_correspond_iff`), because the record of a
restore is the old record's data under a new number.

An active row passes `Workflow.Validate` exactly until an update with an empty node list
succeeds on an active workflow (`active_valid_iff`): that update is not validated. A restore
is harmless here, since the snapshots of active rows are valid as well.
-/
import LinkFlow.WorkflowStore
import LinkFlow.Lib.Runs
import LinkFlow.Lib.Numbered

set_option autoImplicit false

namespace LinkFlow.WorkflowStore

open List Option

variable {D : Type} {js : Codec Workflow D} {db db' : DB D} {id : String} {op : Op}

/-! ## The numbering -/

/-- The numbers of the records and of the row of a workflow. -/
structure Versioned (js : Codec Workflow D) (db : DB D) (id : String) : Prop where
  numbered : Numbered.From WorkflowVersion.version 0 (db.records id)
  row : ∀ w, db.workflows.lookup id = some w → w.version = (db.records id).length
  unborn : id ∉ db.workflows → db.records id = []
  snapshots : ∀ v ∈ db.records id, ∃ w, js.decode v.data = some w ∧ w.id = id

theorem versioned_empty (js : Codec Workflow D) (id : String) : Versioned js DB.empty id where
  numbered := trivial
  row := by simp [DB.empty]
  unborn _ := rfl
  snapshots := by simp [DB.empty, DB.records]

theorem Versioned.eq_length (h : Versioned js db id) {m : ℤ} (hmax : db.maxVersion id = some m) :
    m = (db.records id).length := by
  have := h.numbered.max_key
  rw [← DB.maxVersion, hmax, getD_some] at this
  exact this

variable {v : WorkflowVersion D} {w : Workflow}

theorem Versioned.version_le (h : Versioned js db id) (hv : v ∈ db.records id) :
    v.version ≤ (db.records id).length := by
  have := (h.numbered.lt_key hv).2
  omega

theorem versioned_put (h : ∀ id, Versioned js db id) (hid : v.workflowID = w.id)
    (hver : v.version = w.version) (hnext : w.version = (db.records w.id).length + 1)
    (hsnap : ∃ w', js.decode v.data = some w' ∧ w'.id = w.id) (id : String) :
    Versioned js (db.put w v) id := by
  by_cases hne : id = w.id
  · subst hne
    have hrec := db.records_put_self (w := w) hid
    constructor
    · rw [hrec]
      refine Numbered.from_append.mpr ⟨(h w.id).numbered, ?_, trivial⟩
      rw [hver, hnext]
      omega
    · intro w' hw'
      rw [DB.lookup_put_self, some_inj] at hw'
      rw [← hw', hrec, hnext, length_append, length_singleton]
      push_cast
      omega
    · intro hnot
      exact absurd (AList.lookup_isSome.mp (by rw [DB.lookup_put_self]; rfl)) hnot
    · intro v' hv'
      rw [hrec, mem_append, mem_singleton] at hv'
      rcases hv' with hv' | rfl
      · exact (h w.id).snapshots v' hv'
      · exact hsnap
  · have hrec : (db.put w v).records id = db.records id :=
      db.records_put_of_ne (by rw [hid]; exact Ne.symm hne)
    constructor
    · rw [hrec]
      exact (h id).numbered
    · intro w' hw'
      rw [DB.lookup_put_of_ne v db hne] at hw'
      rw [hrec]
      exact (h id).row w' hw'
    · intro hnot
      rw [hrec]
      refine (h id).unborn ?_
      intro hmem
      exact hnot ((AList.mem_insert db.workflows).mpr (.inr hmem))
    · rw [hrec]
      exact (h id).snapshots

theorem RecordOf.decode (h : RecordOf js w v) : js.decode v.data = some w :=
  js.decode_encode w v.data h.data

theorem Versioned.decoded_id (h : Versioned js db id) {wv : WorkflowVersion D}
    (hwv : wv ∈ db.records id) (hdecode : js.decode wv.data = some w) : w.id = id := by
  obtain ⟨w', hw', hid⟩ := h.snapshots wv hwv
  rw [hdecode, some_inj] at hw'
  rw [hw', hid]

/-- Every change adds the next record and the row with its number. -/
theorem Change.versioned (hc : Change js op db db') (h : ∀ id, Versioned js db id) (id : String) :
    Versioned js db' id := by
  cases hc with
  | created w v hnew hversion hinactive hrec =>
    refine versioned_put h hrec.workflowID hrec.version ?_ ⟨w, hrec.decode, rfl⟩ id
    rw [hversion, (h w.id).unborn hnew]
    rfl
  | updated w₀ w v m hrow hmax hversion hrec hnodes =>
    refine versioned_put h hrec.workflowID hrec.version ?_ ⟨w, hrec.decode, rfl⟩ id
    rw [hversion, (h w.id).eq_length hmax]
  | restored wv w v m t k userID hop hwv hk hdecode hmax hversion hdata =>
    have hid := (h v.workflowID).decoded_id hwv hdecode
    refine versioned_put (w := { w with version := m + 1, updatedAt := t }) h hid.symm hversion ?_
      ⟨w, by rw [hdata, hdecode], rfl⟩ id
    dsimp only
    rw [hid, (h v.workflowID).eq_length hmax]

/-- Records are numbered without gap after each call. -/
theorem versioned_step (js : Codec Workflow D) (a : Op × Env) (h : ∀ id, Versioned js db id)
    (id : String) : Versioned js (step js db a) id := by
  rcases step_cases js db a with ⟨heq, -⟩ | ⟨-, hc⟩
  · rw [heq]
    exact h id
  · exact hc.versioned h id

/-- **The records are numbered from 1 and the row has the last number, after any calls.** -/
theorem versioned_run (js : Codec Workflow D) (as : List (Op × Env)) :
    ∀ id, Versioned js (as.foldl (step js) DB.empty) id := by
  have hall : Runs.Always (step js) (fun db => ∀ id, Versioned js db id) DB.empty as :=
    Runs.always_of_step (fun _ a h => versioned_step js a h) (versioned_empty js)
  exact hall.last

/-! ## The snapshots -/

/-- The three places a version number is written in agree, and the last record has the
content of the row. -/
structure Corresponds (js : Codec Workflow D) (id : String) (db : DB D) : Prop where
  numbered : Numbered.From WorkflowVersion.version 0 (db.records id)
  row : ∀ w, db.workflows.lookup id = some w → w.version = (db.records id).length
  decoded : ∀ v ∈ db.records id, ∃ w, js.decode v.data = some w ∧ w.version = v.version
  current : ∀ w, db.workflows.lookup id = some w →
    ∃ v ∈ db.records id, v.version = (db.records id).length ∧ js.decode v.data = some w

/-- A restore of a version of the workflow that succeeds. -/
def Restores (js : Codec Workflow D) (id : String) (db : DB D) (a : Op × Env) : Prop :=
  ∃ version userID db', a.1 = .restore id version userID ∧ perform js a.2 db a.1 = .ok db'

theorem corresponds_empty (js : Codec Workflow D) (id : String) : Corresponds js id DB.empty where
  numbered := trivial
  row := by simp [DB.empty]
  decoded := by simp [DB.empty, DB.records]
  current := by simp [DB.empty]

theorem Corresponds.put (h : Corresponds js id db) (hv : Versioned js (db.put w v) id)
    (hrec : RecordOf js w v) : Corresponds js id (db.put w v) := by
  by_cases hid : id = w.id
  · subst hid
    have hlist := db.records_put_self (w := w) hrec.workflowID
    refine ⟨hv.numbered, hv.row, ?_, ?_⟩
    · intro v' hv'
      rw [hlist, mem_append, mem_singleton] at hv'
      rcases hv' with hv' | rfl
      · exact h.decoded v' hv'
      · exact ⟨w, hrec.decode, hrec.version.symm⟩
    · intro w' hw'
      have hver := hv.row w' hw'
      rw [DB.lookup_put_self, some_inj] at hw'
      subst hw'
      refine ⟨v, ?_, ?_, hrec.decode⟩
      · rw [hlist]
        simp
      · rw [hrec.version, hver]
  · refine ⟨hv.numbered, hv.row, ?_, ?_⟩
    all_goals rw [db.records_put_of_ne (by rw [hrec.workflowID]; exact Ne.symm hid)]
    · exact h.decoded
    · rw [DB.lookup_put_of_ne v db hid]
      exact h.current

theorem Corresponds.put_of_ne (h : Corresponds js id db) (hw : id ≠ w.id) (hv : v.workflowID ≠ id) :
    Corresponds js id (db.put w v) := by
  constructor
  all_goals rw [db.records_put_of_ne hv]
  · exact h.numbered
  · rw [DB.lookup_put_of_ne v db hw]
    exact h.row
  · exact h.decoded
  · rw [DB.lookup_put_of_ne v db hw]
    exact h.current

/-- A call that restores nothing keeps records and row in correspondence. -/
theorem corresponds_step (a : Op × Env) (hv : ∀ id, Versioned js db id)
    (h : Corresponds js id db) (hok : ¬ Restores js id db a) :
    Corresponds js id (step js db a) := by
  have hv' := versioned_step js a hv id
  rcases step_cases js db a with ⟨heq, -⟩ | ⟨hperf, hc⟩
  · rw [heq]
    exact h
  generalize step js db a = db' at hv' hperf hc
  cases hc with
  | created w v hnew hversion hinactive hrec => exact h.put hv' hrec
  | updated w₀ w v m hrow hmax hversion hrec hnodes => exact h.put hv' hrec
  | restored wv w v m t k userID hop hwv hk hdecode hmax hversion hdata =>
    have hne : v.workflowID ≠ id := by
      rintro rfl
      exact hok ⟨k, userID, _, hop, hperf⟩
    refine h.put_of_ne ?_ hne
    dsimp only
    rw [(hv v.workflowID).decoded_id hwv hdecode]
    exact Ne.symm hne

/-- A restore breaks the correspondence: the record decodes to the old number. -/
theorem not_corresponds_of_restores {a : Op × Env} (hv : Versioned js db id)
    (h : Corresponds js id db) (hr : Restores js id db a) : ¬ Corresponds js id (step js db a) := by
  obtain ⟨version, userID, db', hop, hperf⟩ := hr
  have hstep : step js db a = db' := by rw [step, hperf]
  rw [hop] at hperf
  obtain ⟨wv, w, v, m, hid, hwv, -, hdecode, hmax, hver, hdata, hput⟩ :=
    rollbackWorkflowVersion_eq_ok hperf
  intro hafter
  have hmem : v ∈ (step js db a).records id := by
    rw [hstep, hput, db.records_put_self hid]
    simp
  obtain ⟨w₁, hw₁, hnew⟩ := hafter.decoded v hmem
  obtain ⟨w₂, hw₂, hold⟩ := h.decoded wv hwv
  have heq : w₁ = w₂ := by
    rw [hdata, hw₂, some_inj] at hw₁
    exact hw₁.symm
  have hle := hv.version_le hwv
  have hlen := hv.eq_length hmax
  rw [heq, hold] at hnew
  omega

/-- **Rows, records and snapshots agree exactly until a version is restored.** -/
theorem versions_correspond_iff (js : Codec Workflow D) (id : String) (as : List (Op × Env)) :
    Runs.Always (step js) (Corresponds js id) DB.empty as ↔
      Runs.Along (step js) (fun db a => ¬ Restores js id db a) DB.empty as := by
  refine Runs.always_iff_along_of_strengthen
    (Q := fun db => (∀ id, Versioned js db id) ∧ Corresponds js id db) ?_ ?_ ?_
    ⟨versioned_empty js, corresponds_empty js id⟩
  · exact fun db h => h.2
  · exact fun db a h hok => ⟨versioned_step js a h.1, corresponds_step a h.1 h.2 hok⟩
  · exact fun db a h hafter hr => not_corresponds_of_restores (h.1 id) h.2 hr hafter

def startNode : Node := { id := "start", type := nodeTypeTrigger }

def restoreRun : List (Op × Env) :=
  [(.create { userID := "u", name := "orders", nodes := some [startNode] },
      { uuid := "w", versionUUID := "v1" }),
    (.update { workflowID := "w", userID := "u", description := "daily", version := 1 },
      { uuid := "", versionUUID := "v2" }),
    (.restore "w" 1 "u", { uuid := "", versionUUID := "v3" })]

/-- The third record holds a workflow of version 1. -/
theorem restoreRun_mismatch :
    ((restoreRun.foldl (step (Codec.plain Workflow)) DB.empty).records "w").map
        (fun v => (v.version, v.data.version)) = [(1, 1), (2, 2), (3, 1)] ∧
      ¬ Corresponds (Codec.plain Workflow) "w"
        (restoreRun.foldl (step (Codec.plain Workflow)) DB.empty) := by
  have hmap : ((restoreRun.foldl (step (Codec.plain Workflow)) DB.empty).records "w").map
      (fun v => (v.version, v.data.version)) = [(1, 1), (2, 2), (3, 1)] := by
    decide +kernel
  refine ⟨hmap, ?_⟩
  intro h
  have hmem : ((3 : ℤ), (1 : ℤ)) ∈
      ((restoreRun.foldl (step (Codec.plain Workflow)) DB.empty).records "w").map
        (fun v => (v.version, v.data.version)) := by
    rw [hmap]
    decide
  obtain ⟨v, hv, heq⟩ := mem_map.mp hmem
  obtain ⟨w, hw, hver⟩ := h.decoded v hv
  obtain ⟨hv3, hv1⟩ := Prod.mk.inj heq
  rw [← some.inj hw, hv3, hv1] at hver
  omega

/-! ## Active rows -/

/-- Every row that is marked active passes `Workflow.Validate`. -/
def ActiveValid (db : DB D) : Prop :=
  ∀ id w, db.workflows.lookup id = some w → w.isActive = true → w.Valid

def SnapshotsValid (js : Codec Workflow D) (db : DB D) : Prop :=
  ∀ v ∈ db.versions, ∀ w, js.decode v.data = some w → w.isActive = true → w.Valid

/-- An update with an empty node list that succeeds on an active workflow. -/
def EmptiesActive (js : Codec Workflow D) (db : DB D) (a : Op × Env) : Prop :=
  ∃ id w db', a.1.Empties id ∧ db.workflows.lookup id = some w ∧ w.isActive = true ∧
    perform js a.2 db a.1 = .ok db'

theorem ActiveValid.put (h : ActiveValid db) (hw : w.isActive = true → w.Valid) :
    ActiveValid (db.put w v) := by
  intro id w' hrow hact
  by_cases hid : id = w.id
  · rw [hid, DB.lookup_put_self, some_inj] at hrow
    subst hrow
    exact hw hact
  · rw [DB.lookup_put_of_ne v db hid] at hrow
    exact h id w' hrow hact

theorem SnapshotsValid.put (h : SnapshotsValid js db)
    (hv : ∀ w', js.decode v.data = some w' → w'.isActive = true → w'.Valid) :
    SnapshotsValid js (db.put w v) := by
  intro v' hmem
  rcases mem_append.mp hmem with hmem | hmem
  · exact h v' hmem
  · rw [mem_singleton.mp hmem]
    exact hv

theorem SnapshotsValid.put_recordOf (h : SnapshotsValid js db) (hrec : RecordOf js w v)
    (hw : w.isActive = true → w.Valid) : SnapshotsValid js (db.put w v) := by
  refine h.put ?_
  intro w' hdecode
  rw [hrec.decode, some_inj] at hdecode
  rw [← hdecode]
  exact hw

/-- Active workflows stay valid unless an update empties one. -/
theorem activeValid_step (a : Op × Env) (h : ActiveValid db) (hs : SnapshotsValid js db)
    (hok : ¬ EmptiesActive js db a) :
    ActiveValid (step js db a) ∧ SnapshotsValid js (step js db a) := by
  rcases step_cases js db a with ⟨heq, -⟩ | ⟨hperf, hc⟩
  · rw [heq]
    exact ⟨h, hs⟩
  generalize step js db a = db' at hperf hc
  cases hc with
  | created w v hnew hversion hinactive hrec =>
    have hw : w.isActive = true → w.Valid := by
      rw [hinactive]
      intro hact
      cases hact
    exact ⟨h.put hw, hs.put_recordOf hrec hw⟩
  | updated w₀ w v m hrow hmax hversion hrec hnodes =>
    have hw : w.isActive = true → w.Valid := by
      intro hact
      rcases hnodes hact with hvalid | ⟨hact₀, hnil | hempties⟩
      · exact hvalid
      · exact absurd hnil (h w.id w₀ hrow hact₀).nodes_ne_nil
      · exact absurd ⟨w.id, w₀, _, hempties, hrow, hact₀, hperf⟩ hok
    exact ⟨h.put hw, hs.put_recordOf hrec hw⟩
  | restored wv w v m t k userID hop hwv hk hdecode hmax hversion hdata =>
    have hw : w.isActive = true → w.Valid := hs wv (mem_of_mem_filter hwv) w hdecode
    refine ⟨h.put ?_, hs.put ?_⟩
    · intro hact
      exact (Workflow.valid_congr rfl rfl).mp (hw hact)
    rw [hdata, hdecode]
    intro w' heq
    rw [← some.inj heq]
    exact hw

theorem not_activeValid_of_emptiesActive {a : Op × Env} (h : EmptiesActive js db a) :
    ¬ ActiveValid (step js db a) := by
  obtain ⟨id, w₀, db', ⟨req, hop, rfl, hreq⟩, hrow, hact, hperf⟩ := h
  have hstep : step js db a = db' := by rw [step, hperf]
  rw [hop] at hperf
  obtain ⟨⟨w, db₁⟩, hupd, rfl⟩ := ok_of_map_eq_ok hperf
  obtain ⟨wf, hprep, hsave⟩ := updateWorkflow_eq_ok hupd
  obtain ⟨w₁, hrow₁, -, -, rfl, -⟩ := prepareUpdate_eq_ok hprep
  obtain ⟨m, v, -, rfl, hput, -⟩ := updateWithVersion_eq_ok hsave
  rw [hrow, some_inj] at hrow₁
  subst hrow₁
  intro hafter
  rw [hstep] at hafter
  dsimp only at hafter
  rw [hput] at hafter
  refine (hafter _ _ (DB.lookup_put_self _ v db) hact).nodes_ne_nil ?_
  rw [applyUpdate, hreq, getD_some]

/-- **Active rows are valid exactly until an active workflow is emptied.** -/
theorem active_valid_iff (js : Codec Workflow D) (as : List (Op × Env)) :
    Runs.Always (step js) ActiveValid DB.empty as ↔
      Runs.Along (step js) (fun db a => ¬ EmptiesActive js db a) DB.empty as := by
  refine Runs.always_iff_along_of_strengthen
    (Q := fun db => ActiveValid db ∧ SnapshotsValid js db) ?_ ?_ ?_ ⟨?_, ?_⟩
  · exact fun db h => h.1
  · exact fun db a h hok => activeValid_step a h.1 h.2 hok
  · exact fun db a h hafter hempties => not_activeValid_of_emptiesActive hempties hafter
  · simp [ActiveValid, DB.empty]
  · simp [SnapshotsValid, DB.empty]

def emptyingRun : List (Op × Env) :=
  [(.create { userID := "u", name := "orders", nodes := some [startNode] },
      { uuid := "w", versionUUID := "v1" }),
    (.activate "w" "u", { uuid := "", versionUUID := "v2" }),
    (.update { workflowID := "w", userID := "u", nodes := some [], version := 2 },
      { uuid := "", versionUUID := "v3" })]

theorem emptyingRun_invalid :
    ∃ w, (emptyingRun.foldl (step (Codec.plain Workflow)) DB.empty).workflows.lookup "w" = some w ∧
      w.isActive = true ∧ w.validation = .error "workflow must have at least one trigger node" := by
  refine ⟨_, rfl, ?_, ?_⟩
  · decide +kernel
  · decide +kernel

/-! ## Restoring -/

theorem Change.eq_put (hc : Change js op db db') (h : ∀ id, Versioned js db id) :
    ∃ w v w₀, db' = db.put w v ∧ v.workflowID = w.id ∧ v.version = w.version ∧
      js.decode v.data = some w₀ ∧
      w = { w₀ with version := w.version, updatedAt := w.updatedAt } := by
  cases hc with
  | created w v _ _ _ hrec =>
    exact ⟨w, v, w, rfl, hrec.workflowID, hrec.version, hrec.decode, rfl⟩
  | updated _ w v _ _ _ _ hrec _ =>
    exact ⟨w, v, w, rfl, hrec.workflowID, hrec.version, hrec.decode, rfl⟩
  | restored wv w v m t _ _ _ hwv _ hdecode _ hversion hdata =>
    have hid := (h _).decoded_id hwv hdecode
    exact ⟨{ w with version := m + 1, updatedAt := t }, v, w, rfl, hid.symm, hversion,
      hdata ▸ hdecode, rfl⟩

/-- For the row of the workflow, and for `w` once it was the row, there is a record with its number,
and with its content up to number and time. -/
structure Remembered (js : Codec Workflow D) (id : String) (w : Option Workflow) (db : DB D) :
    Prop where
  versioned : ∀ id, Versioned js db id
  kept : ∀ x, db.workflows.lookup id = some x ∨ w = some x → ∃ v ∈ db.records id,
    v.version = x.version ∧ ∃ w₀, js.decode v.data = some w₀ ∧
      x = { w₀ with version := x.version, updatedAt := x.updatedAt }

/-- A record that is there stays as it is. -/
theorem Remembered.step {w : Option Workflow} (h : Remembered js id w db) (a : Op × Env) :
    Remembered js id w (step js db a) := by
  rcases step_cases js db a with ⟨heq, -⟩ | ⟨-, hc⟩
  · rw [heq]
    exact h
  refine ⟨hc.versioned h.versioned, fun x hx => ?_⟩
  obtain ⟨w', v, w₀, heq, hid, hsame⟩ := hc.eq_put h.versioned
  rw [heq] at hx ⊢
  by_cases hnew : (db.workflows.lookup id = some x ∨ w = some x)
  · -- records are only added
    obtain ⟨v₀, hv₀, hx₀⟩ := h.kept x hnew
    refine ⟨v₀, ?_, hx₀⟩
    rw [DB.records, DB.put, filter_append]
    exact mem_append_left _ hv₀
  have hrow := hx.resolve_right (fun h => hnew (.inr h))
  by_cases hne : id = w'.id
  · rw [hne, DB.lookup_put_self, some_inj] at hrow
    rw [hne, ← hrow]
    refine ⟨v, ?_, hsame.1, w₀, hsame.2⟩
    rw [db.records_put_self hid]
    simp
  · rw [DB.lookup_put_of_ne v db hne] at hrow
    exact absurd (.inl hrow) hnew

/-- **Restoring a version brings back what the row was when it had that number**, whatever calls
were made since then: only its number and its time are new. -/
theorem restore_brings_back (js : Codec Workflow D) (as bs : List (Op × Env)) (env : Env)
    (userID : String) (hrow : (as.foldl (step js) DB.empty).workflows.lookup id = some w)
    (hrestore : perform js env ((as ++ bs).foldl (step js) DB.empty)
      (.restore id w.version userID) = .ok db') :
    db'.workflows.lookup id = some { w with
      version := (((as ++ bs).foldl (step js) DB.empty).records id).length + 1
      updatedAt := env.savedAt } := by
  have hrows : Runs.Always (step js) (Remembered js id none) DB.empty as :=
    Runs.always_of_step (fun _ a h => h.step a) ⟨versioned_empty js, by simp [DB.empty]⟩
  have hkept : Remembered js id (some w) ((as ++ bs).foldl (step js) DB.empty) := by
    rw [foldl_append]
    refine (Runs.always_of_step (fun _ a h => h.step a) ⟨hrows.last.versioned, ?_⟩).last
    rintro x (hx | hx)
    · exact hrows.last.kept x (.inl hx)
    · exact hrows.last.kept x (.inl (hrow.trans hx))
  have hver := hkept.versioned id
  obtain ⟨wv, w₁, v, m, hid, hwv, hk, hdecode, hmax, -, -, rfl⟩ :=
    rollbackWorkflowVersion_eq_ok hrestore
  obtain ⟨v₀, hv₀, hk₀, w₀, hdecode₀, hw⟩ := hkept.kept w (.inr rfl)
  -- there is one record of that number, so the restored one is that of `w`
  obtain rfl := hver.numbered.eq_of_key hwv hv₀ (hk.trans hk₀.symm)
  obtain rfl : w₁ = w₀ := Option.some.inj (hdecode.symm.trans hdecode₀)
  obtain rfl := hver.decoded_id hwv hdecode
  rw [← hver.eq_length hmax, hw]
  exact DB.lookup_put_self _ v _

theorem restored_orders : ∃ (w : Workflow) (db : DB Workflow),
    ((restoreRun.take 1).foldl (step (Codec.plain _)) DB.empty).workflows.lookup "w" = some w ∧
      db.workflows.lookup "w" = some { w with version := 3, updatedAt := 0 } :=
  ⟨_, _, rfl, restore_brings_back (Codec.plain _) (restoreRun.take 1) ((restoreRun.take 2).drop 1)
    { uuid := "", versionUUID := "v3" } "u" rfl rfl⟩

end LinkFlow.WorkflowStore
