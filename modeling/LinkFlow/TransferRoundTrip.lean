/-
What an exported workflow is after it has been imported again.

The import knows fewer settings than the export writes: `SaveDataOnError` and `ErrorWorkflow` are
lost. An integer setting is exported as a `float64` and must be a `float64` when it is read. JSON
gives one back, if it is close enough. YAML writes a `float64` below a million without a point and
gives back an `int`, so that such settings are lost too, and such numbers in parameters change
their type. And an end of a connection that is no node becomes empty. Everything else comes back
(`roundTrip_iff`).
-/
import LinkFlow.Transfer

set_option autoImplicit false

namespace LinkFlow.Transfer

open List

variable {formatTime : ℤ → String} {t : TextFormat}

/-! ## Integers -/

theorem nearestFloat64_isInt (n : ℤ) : ∃ k : ℤ, nearestFloat64 n = k := by
  have hmul : ∀ (a : ℤ) (b : ℕ), ∃ k : ℤ, (a : ℚ) * (b : ℚ) = k :=
    fun a b => ⟨a * b, by push_cast; rfl⟩
  unfold nearestFloat64
  dsimp only
  split_ifs
  · exact ⟨n, rfl⟩
  all_goals exact hmul _ _

@[simp] theorem toInt_intCast (k : ℤ) : toInt k = k := by
  simp [toInt]

theorem toInt_nearestFloat64 (n : ℤ) : toInt (nearestFloat64 n) = n ↔ nearestFloat64 n = n := by
  obtain ⟨k, hk⟩ := nearestFloat64_isInt n
  rw [hk, toInt_intCast, Int.cast_inj]

def readInt [Yaml] (formatTime : ℤ → String) (t : TextFormat) (n : ℤ) : ℤ :=
  ((some (t.read formatTime (.float (nearestFloat64 n)))).asFloat.map toInt).getD 0

/-- An integer setting comes back: it is a `float64`, and in YAML also zero or at least a
million. -/
def TextFormat.Keeps : TextFormat → ℤ → Prop
  | .json, n => nearestFloat64 n = n
  | .yaml, n => n = 0 ∨ 1000000 ≤ |n| ∧ nearestFloat64 n = n

instance : ∀ (t : TextFormat) (n : ℤ), Decidable (t.Keeps n)
  | .json, n => inferInstanceAs (Decidable (nearestFloat64 n = n))
  | .yaml, n => inferInstanceAs (Decidable (n = 0 ∨ 1000000 ≤ |n| ∧ nearestFloat64 n = n))

theorem readInt_eq_iff [Yaml] (n : ℤ) : readInt formatTime t n = n ↔ t.Keeps n := by
  cases t with
  | json => exact toInt_nearestFloat64 n
  | yaml =>
    obtain ⟨k, hk⟩ := nearestFloat64_isInt n
    have hsmall : SmallWhole (k : ℚ) ↔ |k| < 1000000 := by
      rw [SmallWhole, Rat.den_intCast, ← Int.cast_abs]
      norm_cast
      simp
    simp only [readInt, TextFormat.read, TextFormat.Keeps, hk, Int.cast_inj]
    by_cases hlt : |k| < 1000000
    · rw [Yaml.smallWhole _ (hsmall.mpr hlt)]
      constructor
      · exact fun h => .inl h.symm
      · rintro (rfl | ⟨hle, rfl⟩)
        · rfl
        · omega
    · rw [Yaml.float _ (mt hsmall.mp hlt)]
      simp only [Option.asFloat, Option.map_some, Option.getD_some, toInt_intCast]
      constructor
      · rintro rfl
        exact .inr ⟨by omega, rfl⟩
      rintro (rfl | ⟨-, h⟩)
      · have hzero : nearestFloat64 0 = 0 := by decide
        rw [hzero] at hk
        exact_mod_cast hk.symm
      · exact h

/-! ## Settings -/

def Settings.reread [Yaml] (formatTime : ℤ → String) (t : TextFormat) (s : Settings) :
    Settings where
  errorHandling :=
    { continueOnFail := s.errorHandling.continueOnFail,
      retryInterval := readInt formatTime t s.errorHandling.retryInterval,
      maxRetries := readInt formatTime t s.errorHandling.maxRetries }
  timeout := readInt formatTime t s.timeout
  retryOnFailure := s.retryOnFailure
  maxRetries := readInt formatTime t s.maxRetries
  timezone := s.timezone

theorem mapToSettings_read [Yaml] (s : Settings) :
    mapToSettings (s.structToMap.mapValues (t.read formatTime)) = s.reread formatTime t := by
  cases t with
  | json => rfl
  | yaml =>
    have hentries : s.errorHandling.entries.map Yaml.yaml =
        .ofList [("continueOnFail", .bool s.errorHandling.continueOnFail),
          ("retryInterval", Yaml.yaml (.float (nearestFloat64 s.errorHandling.retryInterval))),
          ("maxRetries", Yaml.yaml (.float (nearestFloat64 s.errorHandling.maxRetries))),
          ("errorWorkflow", .string s.errorHandling.errorWorkflow)] := by
      simp only [ErrorHandling.entries, GoEntries.ofList, GoEntries.map, Yaml.bool, Yaml.string]
    have hmap : s.structToMap.mapValues Yaml.yaml =
        GoMap.ofPairs [("errorHandling", Yaml.yaml (.map s.errorHandling.entries)),
          ("timeout", Yaml.yaml (.float (nearestFloat64 s.timeout))),
          ("retryOnFailure", Yaml.yaml (.bool s.retryOnFailure)),
          ("maxRetries", Yaml.yaml (.float (nearestFloat64 s.maxRetries))),
          ("saveDataOnError", Yaml.yaml (.bool s.saveDataOnError)),
          ("timezone", Yaml.yaml (.string s.timezone))] := rfl
    rw [TextFormat.read, hmap, Yaml.map, hentries, Yaml.bool, Yaml.bool, Yaml.string]
    rfl

theorem reread_eq_iff [Yaml] (s : Settings) :
    s.reread formatTime t = s ↔
      s.saveDataOnError = false ∧ s.errorHandling.errorWorkflow = "" ∧
        ∀ n ∈ [s.timeout, s.maxRetries, s.errorHandling.retryInterval, s.errorHandling.maxRetries],
          t.Keeps n := by
  rcases s with ⟨⟨continueOnFail, retryInterval, ehMaxRetries, errorWorkflow⟩, timeout,
    retryOnFailure, maxRetries, saveDataOnError, timezone⟩
  simp only [Settings.reread, Settings.mk.injEq, ErrorHandling.mk.injEq, readInt_eq_iff, true_and,
    and_true, forall_mem_cons, not_mem_nil, false_imp_iff, implies_true]
  constructor
  · rintro ⟨⟨hretry, hmax', hwf⟩, htimeout, hmax, hsave⟩
    exact ⟨hsave.symm, hwf.symm, htimeout, hmax, hretry, hmax'⟩
  · rintro ⟨hsave, hwf, htimeout, hmax, hretry, hmax'⟩
    exact ⟨⟨hretry, hmax', hwf.symm⟩, htimeout, hmax, hsave.symm⟩

/-! ## Nodes and connections -/

theorem get_nodeIDMap (env : ImportEnv) (nodes : List NodeExport) (id : String) :
    (nodeIDMap env false nodes).get "" id = if id ∈ nodes.map NodeExport.id then id else "" := by
  have hlookup : ∀ v, (nodeIDMap env false nodes).lookup id = some v ↔
      (id, v) ∈ nodes.map (fun n => (n.id, n.id)) := by
    have hfun : ∀ e ∈ nodes.map (fun n => (n.id, n.id)),
        ∀ e' ∈ nodes.map (fun n => (n.id, n.id)), e.1 = e'.1 → e.2 = e'.2 := by
      simp
    exact GoMap.lookup_ofPairs hfun id
  rw [GoMap.get]
  split_ifs with hid
  · obtain ⟨n, hn, rfl⟩ := mem_map.mp hid
    rw [(hlookup n.id).mpr (mem_map.mpr ⟨n, hn, rfl⟩), Option.getD_some]
  · cases hl : (nodeIDMap env false nodes).lookup id with
    | none => rfl
    | some v =>
      obtain ⟨n, hn, heq⟩ := mem_map.mp ((hlookup v).mp hl)
      exact absurd (mem_map.mpr ⟨n, hn, (Prod.mk.inj heq).1⟩) hid

def reread [Yaml] (formatTime : ℤ → String) (t : TextFormat) (m : GoMap String GoValue) :
    GoMap String GoValue :=
  m.mapValues (t.read formatTime)

def Workflow.endOf (wf : Workflow) (id : String) : String :=
  if id ∈ wf.nodes.map Node.id then id else ""

section Import

variable {now : ℤ} {env : ImportEnv} {options : ExportOptions} {wf : Workflow}
  {importing : ImportOptions}

/-- The import neither remaps nor renames, and has no credential mapping. -/
structure ImportOptions.Plain (importing : ImportOptions) : Prop where
  newName : importing.newName = ""
  remapIDs : importing.remapIDs = false
  credentialMapping : importing.credentialMapping = none

def Workflow.back [Yaml] (formatTime : ℤ → String) (t : TextFormat) (env : ImportEnv) (now : ℤ)
    (options : ExportOptions) (importing : ImportOptions) (wf : Workflow) : Workflow :=
  ((createExportStructure now wf options).1.read formatTime t).workflowOf env importing

theorem nodes_back [Yaml] (hplain : importing.Plain) (hsanitize : options.sanitize = false) :
    (wf.back formatTime t env now options importing).nodes =
      wf.nodes.map (fun n => { n with parameters := reread formatTime t n.parameters }) := by
  simp only [Workflow.back, createExportStructure, hsanitize, Bool.false_eq_true, if_false,
    WorkflowExport.read, WorkflowExport.workflowOf, hplain.remapIDs, map_map]
  refine map_congr_left (fun n hn => ?_)
  simp only [Function.comp_apply, NodeExport.toNode, Node.toExport, hplain.credentialMapping,
    get_nodeIDMap]
  rw [if_pos]
  · rfl
  · simp only [map_map]
    exact mem_map.mpr ⟨n, hn, rfl⟩

theorem connections_back [Yaml] (hplain : importing.Plain) (hsanitize : options.sanitize = false) :
    (wf.back formatTime t env now options importing).connections =
      wf.connections.map (fun c =>
        { c with
          source := wf.endOf c.source
          target := wf.endOf c.target
          data := reread formatTime t c.data }) := by
  simp only [Workflow.back, createExportStructure, hsanitize, Bool.false_eq_true, if_false,
    WorkflowExport.read, WorkflowExport.workflowOf, hplain.remapIDs, map_map]
  -- nothing depends on the place of a connection here
  conv_rhs => rw [← zipIdx_map_fst 0 wf.connections]
  rw [zipIdx_map, map_map, map_map]
  refine map_congr_left (fun p _ => ?_)
  have hids : ∀ id, (nodeIDMap env false (wf.nodes.map ((fun n : NodeExport =>
      { n with parameters := n.parameters.mapValues (t.read formatTime) }) ∘ Node.toExport))).get
        "" id = wf.endOf id := by
    intro id
    rw [get_nodeIDMap, map_map]
    rfl
  simp only [Function.comp_apply, ConnectionExport.toConnection, hplain.remapIDs,
    Bool.false_eq_true, if_false, hids]
  rfl

/-! ## The round trip -/

/-- The two workflows have the same name, description, tags, settings, nodes and connections. -/
structure Workflow.Same (wf wf' : Workflow) : Prop where
  name : wf'.name = wf.name
  description : wf'.description = wf.description
  tags : wf'.tags = wf.tags
  settings : wf'.settings = wf.settings
  nodes : wf'.nodes = wf.nodes
  connections : wf'.connections = wf.connections

/-- What the round trip needs. -/
structure Workflow.Survives [Yaml] (formatTime : ℤ → String) (t : TextFormat) (validate : Bool)
    (wf : Workflow) : Prop where
  saveDataOnError : wf.settings.saveDataOnError = false
  errorWorkflow : wf.settings.errorHandling.errorWorkflow = ""
  integers : ∀ n ∈ [wf.settings.timeout, wf.settings.maxRetries,
    wf.settings.errorHandling.retryInterval, wf.settings.errorHandling.maxRetries], t.Keeps n
  parameters : t = .yaml → ∀ n ∈ wf.nodes, ∀ e ∈ n.parameters.entries, e.2.noSmallWhole = true
  data : ∀ c ∈ wf.connections, ∀ e ∈ c.data.entries, t.read formatTime e.2 = e.2
  ends : ∀ c ∈ wf.connections, ∀ id ∈ [c.source, c.target], id = "" ∨ id ∈ wf.nodes.map Node.id
  valid : validate = true → wf.checked.Valid

theorem endOf_eq_iff (id : String) :
    wf.endOf id = id ↔ id = "" ∨ id ∈ wf.nodes.map Node.id := by
  unfold Workflow.endOf
  split_ifs with hid
  · simp [hid]
  · simp only [hid, or_false]
    exact eq_comm

theorem reread_map_eq_iff [Yaml] (m : GoMap String GoValue) :
    reread formatTime t m = m ↔ ∀ e ∈ m.entries, t.read formatTime e.2 = e.2 :=
  GoMap.mapValues_eq_self_iff _ m

/-- What is left to compare: settings, parameters, data and ends. -/
theorem same_back_iff [Yaml] (hplain : importing.Plain) (hsanitize : options.sanitize = false) :
    wf.Same (wf.back formatTime t env now options importing) ↔
      wf.settings.reread formatTime t = wf.settings ∧
        (∀ n ∈ wf.nodes, reread formatTime t n.parameters = n.parameters) ∧
        ∀ c ∈ wf.connections, reread formatTime t c.data = c.data ∧
          wf.endOf c.source = c.source ∧ wf.endOf c.target = c.target := by
  have hsettings : (wf.back formatTime t env now options importing).settings =
      wf.settings.reread formatTime t := by
    simp only [Workflow.back, createExportStructure, hsanitize, Bool.false_eq_true, if_false]
    exact mapToSettings_read wf.settings
  have hname : (wf.back formatTime t env now options importing).name = wf.name := by
    simp [Workflow.back, createExportStructure, hsanitize, WorkflowExport.workflowOf,
      WorkflowExport.read, hplain.newName]
  have hdescription : (wf.back formatTime t env now options importing).description =
      wf.description := by
    simp [Workflow.back, createExportStructure, hsanitize, WorkflowExport.workflowOf,
      WorkflowExport.read]
  have htags : (wf.back formatTime t env now options importing).tags = wf.tags := by
    simp [Workflow.back, createExportStructure, hsanitize, WorkflowExport.workflowOf,
      WorkflowExport.read]
  have hnodes : (wf.back formatTime t env now options importing).nodes = wf.nodes ↔
      ∀ n ∈ wf.nodes, reread formatTime t n.parameters = n.parameters := by
    rw [nodes_back hplain hsanitize, GoMap.map_eq_self_iff]
    refine forall₂_congr (fun n _ => ?_)
    rcases n with ⟨id, name, type, position, parameters, disabled, retryCount, timeout⟩
    simp
  have hconnections : (wf.back formatTime t env now options importing).connections =
      wf.connections ↔ ∀ c ∈ wf.connections, reread formatTime t c.data = c.data ∧
        wf.endOf c.source = c.source ∧ wf.endOf c.target = c.target := by
    rw [connections_back hplain hsanitize, GoMap.map_eq_self_iff]
    refine forall₂_congr (fun c _ => ?_)
    rcases c with ⟨id, source, target, sourcePort, targetPort, data⟩
    simp only [Connection.mk.injEq, true_and]
    tauto
  rw [← hnodes, ← hconnections, ← hsettings]
  constructor
  · rintro ⟨-, -, -, hs, hn, hc⟩
    exact ⟨hs, hn, hc⟩
  · rintro ⟨hs, hn, hc⟩
    exact ⟨hname, hdescription, htags, hs, hn, hc⟩

theorem Workflow.Same.checked_eq {wf' : Workflow} (h : wf.Same wf') : wf'.checked = wf.checked := by
  rw [Workflow.checked, Workflow.checked, h.nodes, h.connections]

theorem importWorkflow_eq_ok_iff [Yaml] (hsanitize : options.sanitize = false) (wf' : Workflow) :
    importWorkflow formatTime env t (createExportStructure now wf options).1 importing = .ok wf' ↔
      wf' = wf.back formatTime t env now options importing ∧
        (importing.validateOnImport = true → wf'.checked.Valid) := by
  have hversion : isVersionCompatible
      ((createExportStructure now wf options).1.read formatTime t).version = true := by
    simp [createExportStructure, hsanitize, WorkflowExport.read, isVersionCompatible]
  simp only [importWorkflow, hversion, Bool.not_true, Bool.false_eq_true, if_false,
    createWorkflowFromExport]
  have hback : ((createExportStructure now wf options).1.read formatTime t).workflowOf env
      importing = wf.back formatTime t env now options importing := rfl
  rw [hback]
  by_cases hvalidate : importing.validateOnImport = true
  · rw [if_pos hvalidate]
    cases hresult : (wf.back formatTime t env now options importing).checked.validation with
    | error err =>
      refine iff_of_false (by simp) ?_
      rintro ⟨rfl, hvalid⟩
      have hok : _ = Except.ok () := hvalid hvalidate
      rw [hresult] at hok
      cases hok
    | ok u =>
      constructor
      · intro heq
        cases heq
        exact ⟨rfl, fun _ => hresult⟩
      · rintro ⟨rfl, -⟩
        rfl
  · rw [if_neg hvalidate, Except.ok.injEq]
    constructor
    · rintro rfl
      exact ⟨rfl, fun h => absurd h hvalidate⟩
    · rintro ⟨rfl, -⟩
      rfl

end Import

/-- The format of `ExportWorkflow`, and the document it makes. -/
def TextFormat.format : TextFormat → Format
  | .json => .json
  | .yaml => .yaml

def TextFormat.document : TextFormat → WorkflowExport → Document
  | .json => .json
  | .yaml => .yaml

/-- An exported workflow comes back as it was exactly if nothing in it is lost on the way. -/
theorem roundTrip_iff [Yaml] (formatTime : ℤ → String) (t : TextFormat) (now : ℤ) (env : ImportEnv)
    (options : ExportOptions) (hsanitize : options.sanitize = false) (importing : ImportOptions)
    (hplain : importing.Plain) (wf : Workflow)
    (hjson : ∀ n ∈ wf.nodes, ∀ e ∈ n.parameters.entries, e.2.isJSON = true) :
    (∃ e wf', (exportWorkflow now wf t.format options).1 = .ok (t.document e) ∧
        importWorkflow formatTime env t e importing = .ok wf' ∧ wf.Same wf') ↔
      wf.Survives formatTime t importing.validateOnImport := by
  have hexport : ∀ e, (exportWorkflow now wf t.format options).1 = .ok (t.document e) ↔
      e = (createExportStructure now wf options).1 := by
    intro e
    cases t <;> simp [exportWorkflow, TextFormat.format, TextFormat.document, eq_comm]
  -- the parameters are JSON values, so only YAML can change them
  have hparameters : (∀ n ∈ wf.nodes, reread formatTime t n.parameters = n.parameters) ↔
      (t = .yaml → ∀ n ∈ wf.nodes, ∀ e ∈ n.parameters.entries, e.2.noSmallWhole = true) := by
    simp only [reread_map_eq_iff]
    cases t with
    | yaml =>
      rw [forall_prop_of_true rfl]
      exact forall₂_congr fun n hn => forall₂_congr fun e he =>
        GoValue.yaml_eq_iff e.2 (hjson n hn e he)
    | json =>
      refine iff_of_true (fun n hn e he => ?_) (fun h => absurd h (by decide))
      exact GoValue.json_of_isJSON formatTime e.2 (hjson n hn e he)
  simp only [hexport, exists_and_left, exists_eq_left, importWorkflow_eq_ok_iff hsanitize]
  constructor
  · rintro ⟨wf', ⟨rfl, hvalid⟩, hsame⟩
    obtain ⟨hsettings, hnodes, hconnections⟩ := (same_back_iff hplain hsanitize).mp hsame
    obtain ⟨hsave, herror, hints⟩ := (reread_eq_iff wf.settings).mp hsettings
    refine ⟨hsave, herror, hints, hparameters.mp hnodes, ?_, ?_, ?_⟩
    · intro c hc
      exact (reread_map_eq_iff c.data).mp (hconnections c hc).1
    · intro c hc id hid
      obtain ⟨-, hsource, htarget⟩ := hconnections c hc
      simp only [mem_cons, not_mem_nil, or_false] at hid
      rcases hid with rfl | rfl
      · exact (endOf_eq_iff _).mp hsource
      · exact (endOf_eq_iff _).mp htarget
    · intro hvalidate
      rw [← hsame.checked_eq]
      exact hvalid hvalidate
  · rintro ⟨hsave, herror, hints, hparams, hdata, hends, hvalid⟩
    have hsame : wf.Same (wf.back formatTime t env now options importing) := by
      refine (same_back_iff hplain hsanitize).mpr
        ⟨(reread_eq_iff wf.settings).mpr ⟨hsave, herror, hints⟩, hparameters.mpr hparams, ?_⟩
      intro c hc
      refine ⟨(reread_map_eq_iff c.data).mpr (hdata c hc), ?_, ?_⟩
      · exact (endOf_eq_iff _).mpr (hends c hc _ (by simp))
      · exact (endOf_eq_iff _).mpr (hends c hc _ (by simp))
    refine ⟨_, ⟨rfl, ?_⟩, hsame⟩
    rw [hsame.checked_eq]
    exact hvalid

/-- A workflow with the settings of `NewWorkflow`. -/
def polling : Workflow where
  name := "polling"
  nodes := [{ id := "t", type := "trigger" },
    { id := "h", type := "http-request",
      parameters := GoMap.ofPairs [("method", .string "GET"), ("retries", .float 3)] }]
  connections := [{ source := "t", target := "h" }]
  settings := { timeout := 300, maxRetries := 3, timezone := "UTC" }

theorem polling_survives_json :
    ∃ e wf', (exportWorkflow 0 polling .json {}).1 = .ok (.json e) ∧
      importWorkflow (fun _ => "") ⟨fun _ => "id", 0, 0⟩ .json e { validateOnImport := true } =
        .ok wf' ∧ polling.Same wf' := by
  refine (roundTrip_iff (fun _ => "") .json 0 ⟨fun _ => "id", 0, 0⟩ {} rfl
    { validateOnImport := true } ⟨rfl, rfl, rfl⟩ polling (by decide +kernel)).mpr ?_
  exact ⟨rfl, rfl, by decide +kernel, nofun, by decide +kernel, by decide +kernel,
    fun _ => by decide +kernel⟩

/-- JSON loses the error workflow and `SaveDataOnError`; YAML also the timeout and the number of
retries, and it makes an integer of the parameter. -/
theorem settings_lost :
    let wf := { polling with
      settings := { polling.settings with
        saveDataOnError := true, errorHandling := { errorWorkflow := "alert" } } }
    let back (t : TextFormat) :=
      importWorkflow (fun _ => "") ⟨fun _ => "id", 0, 0⟩ t (createExportStructure 0 wf {}).1 {}
    (back .json).map Workflow.settings =
        .ok { timeout := 300, maxRetries := 3, timezone := "UTC" } ∧
      (back .yaml).map Workflow.settings = .ok { timezone := "UTC" } ∧
      (back .yaml).map (fun wf' => wf'.nodes.map (fun n => n.parameters.lookup "retries")) =
        .ok [none, some (.int 3)] := by
  decide +kernel

end LinkFlow.Transfer
