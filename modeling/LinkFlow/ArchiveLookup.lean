/-
Finding an archived execution again (`RestoreExecution` in
`internal/execution/adapters/archival/archiver.go` and `RetrieveExecution` in `retriever.go`).

The retriever looks through the archives, the newest first. That is right although an execution
can be in several archives: a call that fails between recording and deleting leaves it in the
database, and the version that a later call deletes is the one in the newest archive.

The archiver instead asks for an archive whose key ends with the date, but keys end with a UUID:
it finds none, whatever has been archived (`lookups_of_moved`).
-/
import LinkFlow.Archiver

set_option autoImplicit false

namespace LinkFlow.Archival

open List

variable {Bytes : Type} (env : Env Bytes)

/-! ## The two lookups -/

namespace World

variable (w : World Bytes)

/-- What `for _, exec := range archive.Executions` finds in the archive of the metadata. -/
def find (executionID : String) (m : ArchiveMetadata) : Option WorkflowExecution :=
  (w.loadArchive env m.storageKey).bind fun archive =>
    archive.executions.find? (fun exec => exec.id = executionID)

/-- `rank` orders archives of the same time. -/
def retrieveFromArchive (rank : String → ℕ) (executionID : String) :
    Except String WorkflowExecution :=
  let metadata := Sql.orderBy (fun m => -m.createdAt) (fun m => rank m.id)
    (w.metadata.filter (fun m => m.type = "executions"))
  match metadata.findSome? (w.find env executionID) with
  | some exec => .ok exec
  | none => .error "execution not found in archives"

def retrieveExecution (rank : String → ℕ) (executionID : String) :
    Except String WorkflowExecution :=
  match w.db.executions.find? (fun row => row.id = executionID) with
  | some row => .ok (w.db.preload row)
  | none => w.retrieveFromArchive env rank executionID

/-- The metadata that `RestoreExecution` asks for. -/
def restorable (date : String) (m : ArchiveMetadata) : Bool :=
  m.type = "executions" ∧ m.date = date ∧
    Sql.like ("%/" ++ date ++ ".gz").toList m.storageKey.toList

/-- `cause` is the error of the call that fails. -/
def restoreExecution (cause : String) (executionID date : String) :
    Except String WorkflowExecution :=
  match Sql.orderBy (fun m => m.id) (fun _ => 0) (w.metadata.filter (restorable date)) with
  | [] => .error "archive metadata not found: record not found"
  | m :: _ => match w.storage.lookup m.storageKey with
    | none => .error ("failed to download archive: " ++ cause)
    | some compressed => match env.compressor.decode compressed with
      | none => .error ("failed to decompress archive: " ++ cause)
      | some data => match env.json.decode data with
        | none => .error ("failed to deserialize archive: " ++ cause)
        | some archive =>
          match archive.executions.find? (fun exec => exec.id = executionID) with
          | some exec => .ok exec
          | none => .error "execution not found in archive"

end World

/-! ## Histories -/

/-- A call of `ArchiveExecutions`, with the answers to its calls, or another change of the
database. -/
inductive Event
  | archive (before batchSize : ℤ) (as : List Answer)
  | write (db : Database)

namespace World

def step (w : World Bytes) : Event → World Bytes
  | .archive before batchSize as => (as.foldl (Run.step env before batchSize) { world := w }).world
  | .write db => { w with db }

end World

def Database.Absent (db : Database) (id : String) : Prop := ∀ row ∈ db.executions, row.id ≠ id

instance (db : Database) (id : String) : Decidable (db.Absent id) :=
  inferInstanceAs (Decidable (∀ row ∈ db.executions, row.id ≠ id))

/-- A call of `ArchiveExecutions` that moves the execution out of the database. -/
def World.Moves (w : World Bytes) (e : WorkflowExecution) : Event → Prop
  | .archive before batchSize as =>
    e ∈ w.db.older before ∧ (w.step env (.archive before batchSize as)).db.Absent e.id
  | .write _ => False

/-! ## Keys do not end with a date -/

section

variable {env}

theorem formatChars_plain (day : ℤ) : Sql.Plain (GoDate.formatChars day) := by
  have hall : Sql.Plain "0123456789-".toList := by simp [Sql.Plain]
  exact fun c hc => hall c (GoDate.mem_formatChars hc)

theorem slash_notMem_formatChars (day : ℤ) : '/' ∉ GoDate.formatChars day :=
  fun h => absurd (GoDate.mem_formatChars h) (by decide)

theorem toList_pattern (date : String) :
    ("%/" ++ date ++ ".gz").toList = '%' :: '/' :: (date.toList ++ ".gz".toList) := by
  rw [toList_append_append]
  rfl

variable {w : World Bytes} {batch : List WorkflowExecution}

theorem World.Keyed.restorable_eq_false (h : w.Keyed env) (day : ℤ) {m : ArchiveMetadata}
    (hm : m ∈ w.metadata) : World.restorable (GoDate.format day) m = false := by
  rw [World.restorable, decide_eq_false_iff_not]
  rintro ⟨-, -, hlike⟩
  have hplain : Sql.Plain ('/' :: (GoDate.formatChars day ++ ".gz".toList)) := by
    intro c hc
    rcases mem_cons.mp hc with rfl | hc
    · decide
    rcases mem_append.mp hc with hc | hc
    · exact formatChars_plain day c hc
    · have hend : Sql.Plain ".gz".toList := by simp [Sql.Plain]
      exact hend c hc
  rw [toList_pattern, GoDate.toList_format, Sql.like_percent_iff hplain] at hlike
  obtain ⟨s, hs⟩ := hlike
  obtain ⟨n, -, date, hkey⟩ := h.key m hm
  rw [hkey] at hs
  have huuid := eq_of_archiveKey_eq (slash_notMem_formatChars day) hs.symm
  have hlong := (env.uuid n).long
  rw [huuid, GoDate.length_formatChars] at hlong
  exact absurd hlong (Nat.lt_irrefl 10)

theorem World.Keyed.restoreExecution_eq (h : w.Keyed env) (cause executionID : String) (day : ℤ) :
    w.restoreExecution env cause executionID (GoDate.format day)
      = .error "archive metadata not found: record not found" := by
  have hnone : w.metadata.filter (World.restorable (GoDate.format day)) = [] :=
    filter_eq_nil_iff.mpr (fun m hm => by simp [h.restorable_eq_false day hm])
  rw [World.restoreExecution, hnone]
  rfl

/-! ## The newest archive -/

/-- The newest archive with the ID of the execution holds it as it is. -/
structure World.Latest (env : Env Bytes) (w : World Bytes) (e : WorkflowExecution)
    (m : ArchiveMetadata) : Prop where
  mem : m ∈ w.metadata
  type : m.type = "executions"
  found : w.find env e.id m = some e
  newest : ∀ m' ∈ w.metadata, w.find env e.id m' ≠ none → m' ≠ m → m'.createdAt < m.createdAt

namespace World

variable {w : World Bytes} {e : WorkflowExecution}

variable {m : ArchiveMetadata}

/-- The newest archive is looked at first, so its copy is the one returned. -/
theorem Latest.retrieveFromArchive_eq (h : w.Latest env e m) (rank : String → ℕ) :
    w.retrieveFromArchive env rank e.id = .ok e := by
  let l := Sql.orderBy (fun m : ArchiveMetadata => -m.createdAt) (fun m => rank m.id)
    (w.metadata.filter (fun m => m.type = "executions"))
  have hsorted : l.Pairwise (fun a b => -a.createdAt ≤ -b.createdAt) := Sql.orderBy_pairwise _ _ _
  have hmem : m ∈ l := (Sql.mem_orderBy _ _ _).mpr (by simp [h.mem, h.type])
  have hfind : l.findSome? (w.find env e.id) = some e := by
    cases hcase : l.findSome? (w.find env e.id) with
    | none =>
      have hmiss := findSome?_eq_none_iff.mp hcase m hmem
      rw [h.found] at hmiss
      cases hmiss
    | some exec =>
      -- an earlier hit would be in an older archive
      obtain ⟨l₁, m', l₂, hl, hhit, hmiss⟩ := findSome?_eq_some_iff.mp hcase
      have heq : m' = m := by
        by_contra hne
        have hm' : m' ∈ w.metadata := by
          have hin : m' ∈ l := by rw [hl]; simp
          exact (mem_filter.mp ((Sql.mem_orderBy _ _ _).mp hin)).1
        have hlt := h.newest m' hm' (by rw [hhit]; exact Option.some_ne_none exec) hne
        rw [hl] at hmem hsorted
        rcases mem_append.mp hmem with hbefore | hafter
        · have hnone := hmiss m hbefore
          rw [h.found] at hnone
          cases hnone
        · rcases mem_cons.mp hafter with hsame | hafter
          · exact hne hsame.symm
          · have hle := (pairwise_cons.mp (pairwise_append.mp hsorted).2.1).1 m hafter
            omega
      rw [heq, h.found] at hhit
      exact hhit.symm
  rw [retrieveFromArchive, hfind]

theorem retrieveExecution_eq_of_absent (h : w.db.Absent e.id) (rank : String → ℕ) :
    w.retrieveExecution env rank e.id = w.retrieveFromArchive env rank e.id := by
  have hnone : w.db.executions.find? (fun row => row.id = e.id) = none :=
    find?_eq_none.mpr (fun row hrow => by simpa using h row hrow)
  rw [retrieveExecution, hnone]

theorem Latest.upload (h : w.Latest env e m) {key : String}
    (hkey : ∀ m ∈ w.metadata, m.storageKey ≠ key) (data : Bytes) :
    (w.upload key data).Latest env e m := by
  have hfind : ∀ m ∈ w.metadata, (w.upload key data).find env e.id m = w.find env e.id m := by
    intro m hm
    rw [find, loadArchive_upload_ne (hkey m hm), find]
  refine ⟨h.mem, h.type, (hfind m h.mem).trans h.found, fun m' hm' hhit hne => ?_⟩
  exact h.newest m' hm' (fun hnone => hhit ((hfind m' hm').trans hnone)) hne

theorem Latest.congr (h : w.Latest env e m) {w' : World Bytes}
    (hmetadata : w'.metadata = w.metadata) (hstorage : w'.storage = w.storage) :
    w'.Latest env e m := by
  have hfind : w'.find env e.id = w.find env e.id := by
    funext m
    rw [find, loadArchive, hstorage, find, loadArchive]
  refine ⟨?_, h.type, ?_, ?_⟩
  · rw [hmetadata]
    exact h.mem
  · rw [hfind]
    exact h.found
  · rw [hmetadata, hfind]
    exact h.newest

theorem Latest.create_of_miss {m' : ArchiveMetadata} (h : w.Latest env e m)
    (hmiss : w.find env e.id m' = none) : (w.create m').Latest env e m := by
  refine ⟨mem_append_left _ h.mem, h.type, h.found, fun m'' hm'' hhit hne => ?_⟩
  rcases mem_append.mp hm'' with hm'' | hm''
  · exact h.newest m'' hm'' hhit hne
  · obtain rfl := mem_singleton.mp hm''
    exact absurd hmiss hhit

theorem latest_create (htype : m.type = "executions") (hfound : w.find env e.id m = some e)
    (htime : ∀ m' ∈ w.metadata, m'.createdAt < m.createdAt) : (w.create m).Latest env e m := by
  refine ⟨mem_append_right _ (mem_singleton.mpr rfl), htype, hfound, ?_⟩
  intro m' hm' _ hne
  rcases mem_append.mp hm' with hm' | hm'
  · exact htime m' hm'
  · exact absurd (mem_singleton.mp hm') hne

end World

/-! ## One call -/

theorem Database.not_absent_of_mem_older {db : Database} {before : ℤ} {e : WorkflowExecution}
    (h : e ∈ db.older before) : ¬ db.Absent e.id := by
  obtain ⟨row, hrow, rfl⟩ := mem_map.mp h
  exact fun habsent => habsent row (mem_filter.mp hrow).1 rfl

/-- Gone from the database or there as it was, and once gone or recorded, the newest archive with
its ID holds it. -/
structure Run.Tracked (env : Env Bytes) (before : ℤ) (e : WorkflowExecution) (r : Run Bytes) :
    Prop where
  there : r.world.db.Absent e.id ∨ e ∈ r.world.db.older before
  latest : r.world.db.Absent e.id ∨ (e ∈ r.phase.batch ∧ e ∉ r.phase.pending) →
    ∃ m, r.world.Latest env e m

variable {before batchSize : ℤ} {e : WorkflowExecution}

variable {offset : ℕ} {archive : ExecutionArchive} {key : String} {groups : Groups} {r : Run Bytes}

theorem Run.Shape.find_recorded
    (h : Run.Shape env before ⟨w, offset, .record batch archive key groups⟩)
    (he : w.db.Absent e.id ∨ e ∈ w.db.older before) (now : ℤ) :
    w.find env e.id (archive.metadata key now)
      = if e ∈ archive.executions then some e else none := by
  have hfind : w.find env e.id (archive.metadata key now)
      = archive.executions.find? (fun exec => exec.id = e.id) := by
    rw [World.find, ExecutionArchive.metadata, (h.uploaded batch archive key groups rfl).load,
      Option.bind_some]
  have hunique : ∀ exec ∈ archive.executions, exec.id = e.id → exec = e := by
    intro exec hexec hid
    have hstored : exec ∈ w.db.older before :=
      h.page.stored exec (h.waiting exec (mem_append_left _ hexec))
    rcases he with habsent | he
    · exact absurd (hid ▸ habsent) (Database.not_absent_of_mem_older hstored)
    · exact Database.eq_of_id_eq hstored he hid
  rw [hfind]
  split_ifs with hmem
  · cases hcase : archive.executions.find? (fun exec => exec.id = e.id) with
    | none =>
      have hnot := find?_eq_none.mp hcase e hmem
      simp at hnot
    | some exec =>
      have hid : exec.id = e.id := by simpa using find?_some hcase
      rw [hunique exec (mem_of_find?_eq_some hcase) hid]
  · refine find?_eq_none.mpr (fun exec hexec hid => hmem ?_)
    rw [← hunique exec hexec (by simpa using hid)]
    exact hexec

theorem Run.Tracked.recorded_step {elapsed : ℕ}
    (hshape : Run.Shape env before ⟨w, offset, .record batch archive key groups⟩)
    (h : Run.Tracked env before e ⟨w, offset, .record batch archive key groups⟩) :
    Run.Tracked env before e
      ⟨(w.tick elapsed).create (archive.metadata key (w.tick elapsed).now), offset,
        .upload batch groups⟩ := by
  have hfind := hshape.find_recorded h.there (w.tick elapsed).now
  refine ⟨h.there, fun hpremise => ?_⟩
  by_cases hmem : e ∈ archive.executions
  · rw [if_pos hmem] at hfind
    refine ⟨_, World.latest_create rfl hfind (fun m' hm' => ?_)⟩
    have hle : m'.createdAt ≤ w.now := hshape.keyed.time m' hm'
    simp only [ExecutionArchive.metadata, World.tick]
    omega
  · rw [if_neg hmem] at hfind
    have hbefore : w.db.Absent e.id ∨ (e ∈ batch ∧
        e ∉ archive.executions ++ groups.flatMap Sigma.snd) := by
      refine hpremise.imp_right (fun hbatch => ⟨hbatch.1, fun hpending => ?_⟩)
      exact (mem_append.mp hpending).elim hmem hbatch.2
    obtain ⟨m, hm⟩ := h.latest hbefore
    exact ⟨m, World.Latest.create_of_miss (hm.congr rfl rfl) hfind⟩

theorem Run.Tracked.deleted_step {offset' : ℕ}
    (hshape : Run.Shape env before ⟨w, offset, .delete batch⟩)
    (h : Run.Tracked env before e ⟨w, offset, .delete batch⟩) :
    Run.Tracked env before e ⟨w.delete batch, offset', .query⟩ := by
  have hkeep : w.db.Absent e.id → (w.delete batch).db.Absent e.id :=
    fun habsent row hrow => habsent row (mem_filter.mp hrow).1
  have hgone : e ∈ batch → (w.delete batch).db.Absent e.id := by
    intro hbatch row hrow hid
    have hnot : row.id ∉ batch.map (fun e => e.id) := by
      simpa using (mem_filter.mp hrow).2
    exact hnot (hid ▸ mem_map_of_mem hbatch)
  refine ⟨?_, fun hpremise => ?_⟩
  · rcases h.there with habsent | he
    · exact .inl (hkeep habsent)
    · by_cases hbatch : e ∈ batch
      · exact .inl (hgone hbatch)
      · exact .inr ((hshape.page.mem_older_delete e).mpr ⟨he, hbatch⟩)
  · have habsent : (w.delete batch).db.Absent e.id :=
      hpremise.resolve_right (fun hbatch => by cases hbatch.1)
    have hbefore : w.db.Absent e.id ∨ (e ∈ batch ∧ e ∉ ([] : List WorkflowExecution)) := by
      refine h.there.imp_right (fun he => ⟨?_, not_mem_nil⟩)
      by_contra hbatch
      exact Database.not_absent_of_mem_older ((hshape.page.mem_older_delete e).mpr ⟨he, hbatch⟩)
        habsent
    obtain ⟨m, hm⟩ := h.latest hbefore
    exact ⟨m, hm.congr rfl rfl⟩

/-- No step of a call loses the newest archive of an execution it moves. -/
theorem Run.Tracked.step {r' : Run Bytes} (hshape : r.Shape env before) (h : r.Tracked env before e)
    (hs : Step env before batchSize r r') : r'.Tracked env before e := by
  induction hs with
  | page hl _ hgroups _ =>
    refine ⟨h.there, fun hpremise => h.latest (.inl (hpremise.resolve_right ?_))⟩
    exact fun hbatch => hbatch.2 (hgroups.mem_iff.mpr hbatch.1)
  | empty _ _ => exact ⟨h.there, h.latest⟩
  | @uploaded w _ _ date _ _ _ compressed _ _ =>
    refine ⟨h.there, fun hpremise => ?_⟩
    obtain ⟨m, hm⟩ := h.latest hpremise
    have hdrawn : w.draw.Latest env e m := hm.congr rfl rfl
    exact ⟨m, hdrawn.upload (hshape.keyed.fresh date) compressed⟩
  | recorded elapsed => exact h.recorded_step hshape
  | grouped => exact ⟨h.there, h.latest⟩
  | deleted => exact h.deleted_step hshape
  | failed offset err hw =>
    rcases hw with rfl | rfl | ⟨elapsed, rfl⟩
    all_goals
      refine ⟨h.there, fun hpremise => ?_⟩
      obtain ⟨m, hm⟩ := h.latest (.inl (hpremise.resolve_right (fun hbatch => by cases hbatch.1)))
      exact ⟨m, hm.congr rfl rfl⟩
  | lost offset err _ ih =>
    refine ⟨(ih hshape h).there, fun hpremise => ?_⟩
    obtain ⟨m, hm⟩ := (ih hshape h).latest
      (.inl (hpremise.resolve_right (fun hbatch => by cases hbatch.1)))
    exact ⟨m, hm.congr rfl rfl⟩
  | done => exact h

theorem Run.tracked_foldl (hshape : r.Shape env before) (h : r.Tracked env before e)
    (as : List Answer) : (as.foldl (Run.step env before batchSize) r).Shape env before ∧
      (as.foldl (Run.step env before batchSize) r).Tracked env before e := by
  induction as generalizing r with
  | nil => exact ⟨hshape, h⟩
  | cons a as ih =>
    have hspec : Step env before batchSize r (r.step env before batchSize a) := step_spec r a
    exact ih (hshape.step hspec) (h.step hshape hspec)

/-! ## Histories of calls -/

namespace World

variable {w : World Bytes}

/-- Calls and other writes keep the storage keys apart. -/
theorem Keyed.step (h : w.Keyed env) (ev : Event) : (w.step env ev).Keyed env := by
  cases ev with
  | archive before batchSize as => exact (Run.always_inv h as).last.shape.keyed
  | write db => exact ⟨h.key, h.time⟩

theorem Keyed.foldl (h : w.Keyed env) (evs : List Event) :
    (evs.foldl (World.step env) w).Keyed env := by
  induction evs generalizing w with
  | nil => exact h
  | cons ev evs ih => exact ih (h.step ev)

theorem latest_archive (hkeyed : w.Keyed env) (hstart : Run.Tracked env before e { world := w })
    (batchSize : ℤ) (as : List Answer)
    (habsent : (w.step env (.archive before batchSize as)).db.Absent e.id) :
    ∃ m, (w.step env (.archive before batchSize as)).Latest env e m := by
  have hend : (as.foldl (Run.step env before batchSize) { world := w }).Tracked env before e :=
    (Run.tracked_foldl (.of_idle hkeyed 0 (.inl rfl)) hstart as).2
  exact hend.latest (.inl habsent)

/-- What a call moves is gone from the database, and has a newest archive. -/
theorem Moves.latest (hkeyed : w.Keyed env) {ev : Event} (h : w.Moves env e ev) :
    (w.step env ev).db.Absent e.id ∧ ∃ m, (w.step env ev).Latest env e m := by
  cases ev with
  | archive before batchSize as =>
    obtain ⟨he, habsent⟩ := h
    have hstart : Run.Tracked env before e { world := w } := by
      refine ⟨.inr he, ?_⟩
      rintro (hgone | hbatch)
      · exact absurd hgone (Database.not_absent_of_mem_older he)
      · cases hbatch.1
    exact ⟨habsent, latest_archive hkeyed hstart batchSize as habsent⟩
  | write db => cases h

/-- What was moved stays found while its ID is not in the database again. -/
theorem latest_step (hkeyed : w.Keyed env) (habsent : w.db.Absent e.id)
    (h : ∃ m, w.Latest env e m) (ev : Event) (hstill : (w.step env ev).db.Absent e.id) :
    ∃ m, (w.step env ev).Latest env e m := by
  cases ev with
  | archive before batchSize as =>
    exact latest_archive hkeyed ⟨.inl habsent, fun _ => h⟩ batchSize as hstill
  | write db =>
    obtain ⟨m, hm⟩ := h
    exact ⟨m, hm.congr rfl rfl⟩

theorem latest_foldl (hkeyed : w.Keyed env) (habsent : w.db.Absent e.id)
    (h : ∃ m, w.Latest env e m) {evs : List Event}
    (hgone : Runs.Along (World.step env) (fun w ev => (w.step env ev).db.Absent e.id) w evs) :
    (evs.foldl (World.step env) w).db.Absent e.id ∧
      ∃ m, (evs.foldl (World.step env) w).Latest env e m := by
  induction evs generalizing w with
  | nil => exact ⟨habsent, h⟩
  | cons ev evs ih =>
    exact ih (hkeyed.step ev) hgone.1 (latest_step hkeyed habsent h ev hgone.1) hgone.2

end World

/-- **Finding archived executions.** After any history of calls, failing or not, and other writes,
an execution that was moved is returned by `RetrieveExecution` if its ID has not come back, whereas
`RestoreExecution` with its creation date fails in any case. -/
theorem lookups_of_moved {db : Database} (pre post : List Event) {ev : Event}
    (hmoves : (pre.foldl (World.step env) { db := db }).Moves env e ev)
    (rank : String → ℕ) (cause : String) :
    (Runs.Along (World.step env) (fun w ev => (w.step env ev).db.Absent e.id)
        ((pre ++ [ev]).foldl (World.step env) { db := db }) post →
      ((pre ++ ev :: post).foldl (World.step env) { db := db }).retrieveExecution env rank e.id
        = .ok e) ∧
      ((pre ++ ev :: post).foldl (World.step env) { db := db }).restoreExecution env cause e.id
          (env.date e.toExecutionRow) = .error "archive metadata not found: record not found" := by
  have hstart : World.Keyed env ({ db := db } : World Bytes) :=
    ⟨fun m hm => (by cases hm), fun m hm => (by cases hm)⟩
  have hkeyed := hstart.foldl pre
  obtain ⟨habsent, hlatest⟩ := hmoves.latest hkeyed
  rw [foldl_append, foldl_append, foldl_cons, foldl_cons, foldl_nil]
  constructor
  · intro hgone
    obtain ⟨hend, m, hm⟩ := World.latest_foldl (hkeyed.step ev) habsent hlatest hgone
    rw [World.retrieveExecution_eq_of_absent hend]
    exact hm.retrieveFromArchive_eq rank
  · exact ((hkeyed.step ev).foldl post).restoreExecution_eq cause e.id _

end

/-! ### An execution that is restored -/

/-- The first of the two executions, with its node execution. -/
def firstExecution : WorkflowExecution where
  id := "e1"
  workflowID := "w"
  status := "completed"
  createdBy := "u"
  createdAt := 1
  nodeExecutions := [{ id := "n1", executionID := "e1", nodeID := "n", status := "completed" }]

/-- A call that archives both executions. -/
def archiveBoth : Event := .archive 10 1000 (List.replicate 6 {})

theorem firstExecution_lookups :
    (twoExecutions.step plainEnv archiveBoth).retrieveExecution plainEnv (fun _ => 0) "e1"
        = .ok firstExecution ∧
      (twoExecutions.step plainEnv archiveBoth).restoreExecution plainEnv "" "e1" "1970-01-01"
        = .error "archive metadata not found: record not found" := by
  have hmoves : twoExecutions.Moves plainEnv firstExecution archiveBoth :=
    ⟨by decide +kernel, by decide +kernel⟩
  have hdate : plainEnv.date firstExecution.toExecutionRow = "1970-01-01" := by decide +kernel
  rw [← hdate]
  obtain ⟨hretrieved, hrestored⟩ := lookups_of_moved [] [] hmoves (fun _ => 0) ""
  exact ⟨hretrieved trivial, hrestored⟩

/-- The archived execution cannot be restored. -/
theorem restore_fails : twoExecutions.Moves plainEnv firstExecution archiveBoth ∧
      (twoExecutions.step plainEnv archiveBoth).restoreExecution plainEnv "" "e1" "1970-01-01"
        ≠ .ok firstExecution := by
  refine ⟨⟨by decide +kernel, by decide +kernel⟩, fun h => ?_⟩
  have hkeyed := keyed_twoExecutions.step archiveBoth
  have hdate : GoDate.format 0 = "1970-01-01" := by decide +kernel
  rw [← hdate, hkeyed.restoreExecution_eq] at h
  cases h

end LinkFlow.Archival
