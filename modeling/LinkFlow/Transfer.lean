/-
Exporting and importing workflows (`workflow/app/transfer/exporter.go` and `importer.go`).

The records are those of `pkg/contracts/workflow/workflow.go` with all the fields a transfer
touches; `Workflow.checked` is the part of them that `Workflow.Validate` looks at. A nil map is an
empty one here, and a nil slice an empty one.

A text is given by the export that was written in it. What is read back is the same structure,
with every value of an `interface{}` changed as its format changes it (`TextFormat.read`).

Maps are references: `NodeExport.Parameters` is the map of the workflow's own node. So sanitizing
an export also deletes the keys from the workflow, and the n8n and Zapier exports, which are made
from the workflow afterwards, no longer have them either.
-/
import LinkFlow.Lib.GoValue
import LinkFlow.Workflow

set_option autoImplicit false

namespace LinkFlow.Transfer

/-! ## The records -/

/-- A `float64` is given by its value. -/
structure Position where
  (x y : ℚ := 0)
deriving DecidableEq, Repr

structure ErrorHandling where
  continueOnFail : Bool := false
  (retryInterval maxRetries : ℤ := 0)
  errorWorkflow : String := ""
deriving DecidableEq, Repr

structure Settings where
  errorHandling : ErrorHandling := {}
  timeout : ℤ := 0
  retryOnFailure : Bool := false
  maxRetries : ℤ := 0
  saveDataOnError : Bool := false
  timezone : String := ""
deriving DecidableEq, Repr

structure Node where
  id : String
  name : String := ""
  type : String
  position : Position := {}
  parameters : GoMap String GoValue := ∅
  disabled : Bool := false
  (retryCount timeout : ℤ := 0)
deriving DecidableEq

structure Connection where
  id : String := ""
  (source target : String)
  (sourcePort targetPort : String := "")
  data : GoMap String GoValue := ∅
deriving DecidableEq

structure Workflow where
  (id name description userID : String := "")
  nodes : List Node
  connections : List Connection
  settings : Settings := {}
  status : WorkflowStatus := .inactive
  isActive : Bool := false
  version : ℤ := 1
  tags : List String := []
  (createdAt updatedAt : ℤ := 0)
deriving DecidableEq

/-- What `Validate` looks at. -/
def Workflow.checked (wf : Workflow) : LinkFlow.Workflow where
  nodes := wf.nodes.map (fun n => { id := n.id, type := n.type })
  connections := wf.connections.map (fun c => { source := c.source, target := c.target })

/-! ## The export -/

structure NodeExport where
  id : String
  name : String := ""
  type : String
  position : GoMap String ℚ := ∅
  parameters : GoMap String GoValue := ∅
  disabled : Bool := false
  (retryCount timeout : ℤ := 0)
deriving DecidableEq

structure ConnectionExport where
  id : String := ""
  (source target : String)
  (sourcePort targetPort : String := "")
  data : GoMap String GoValue := ∅
deriving DecidableEq

structure CredentialReference where
  (id type name : String)
  required : Bool
deriving DecidableEq, Repr

structure WorkflowData where
  (id name description : String := "")
  version : ℤ := 1
  tags : List String := []
  settings : GoMap String GoValue := ∅
deriving DecidableEq

/-- The exporter leaves `Variables` and `Triggers` empty, and the importer does not read them. -/
structure WorkflowExport where
  version : String
  exportedAt : ℤ
  workflow : WorkflowData
  nodes : List NodeExport
  connections : List ConnectionExport
  credentials : List CredentialReference := []
  metadata : GoMap String GoValue := ∅
deriving DecidableEq

/-- `ExportOptions`, those that are read -/
structure ExportOptions where
  (includeMetadata sanitize : Bool := false)
  exportedBy : String := ""
deriving DecidableEq, Repr

def exportVersion : String := "1.0.0"

/-- `structToMap` of the error handling: a struct after JSON. -/
def ErrorHandling.entries (eh : ErrorHandling) : GoEntries :=
  .ofList [("continueOnFail", .bool eh.continueOnFail),
    ("retryInterval", .float (nearestFloat64 eh.retryInterval)),
    ("maxRetries", .float (nearestFloat64 eh.maxRetries)),
    ("errorWorkflow", .string eh.errorWorkflow)]

/-- `structToMap` of the settings -/
def Settings.structToMap (s : Settings) : GoMap String GoValue :=
  GoMap.ofPairs [("errorHandling", .map s.errorHandling.entries),
    ("timeout", .float (nearestFloat64 s.timeout)), ("retryOnFailure", .bool s.retryOnFailure),
    ("maxRetries", .float (nearestFloat64 s.maxRetries)),
    ("saveDataOnError", .bool s.saveDataOnError), ("timezone", .string s.timezone)]

def Node.toExport (n : Node) : NodeExport where
  id := n.id
  name := n.name
  type := n.type
  position := GoMap.ofPairs [("x", n.position.x), ("y", n.position.y)]
  parameters := n.parameters
  disabled := n.disabled
  retryCount := n.retryCount
  timeout := n.timeout

def Connection.toExport (c : Connection) : ConnectionExport where
  id := c.id
  source := c.source
  target := c.target
  sourcePort := c.sourcePort
  targetPort := c.targetPort
  data := c.data

def extractCredentials (n : Node) : List CredentialReference :=
  match (n.parameters.lookup "credentialId").asString with
  | some credID => [⟨credID, n.type, n.name ++ " Credential", true⟩]
  | none => []

/-- `sensitiveKeys` of `sanitizeNodeParameters` -/
def sensitiveKeys : List String :=
  ["password", "apiKey", "secret", "token", "credential", "auth", "privateKey"]

/-- `sanitizeNodeParameters`, on the map itself -/
def sanitizeParameters (parameters : GoMap String GoValue) : GoMap String GoValue :=
  sensitiveKeys.foldl (fun m key => m.erase key) parameters

def sanitizeExport (e : WorkflowExport) : WorkflowExport :=
  { e with
    nodes := e.nodes.map (fun n => { n with parameters := sanitizeParameters n.parameters })
    credentials := e.credentials.map (fun c => { c with id := "" })
    metadata := (e.metadata.erase "apiKeys").erase "secrets" }

def Workflow.sanitized (wf : Workflow) : Workflow :=
  { wf with
    nodes := wf.nodes.map (fun n => { n with parameters := sanitizeParameters n.parameters }) }

/-- `createExportStructure`, with the workflow as it is left -/
def createExportStructure (now : ℤ) (wf : Workflow) (options : ExportOptions) :
    WorkflowExport × Workflow :=
  let e : WorkflowExport :=
    { version := exportVersion
      exportedAt := now
      workflow :=
        { id := wf.id, name := wf.name, description := wf.description, version := wf.version,
          tags := wf.tags, settings := wf.settings.structToMap }
      nodes := wf.nodes.map Node.toExport
      connections := wf.connections.map Connection.toExport
      credentials := wf.nodes.flatMap extractCredentials
      metadata :=
        if options.includeMetadata then
          GoMap.ofPairs [("exportedBy", .string options.exportedBy), ("originalID", .string wf.id),
            ("createdAt", .time wf.createdAt), ("updatedAt", .time wf.updatedAt)]
        else ∅ }
  if options.sanitize then (sanitizeExport e, wf.sanitized) else (e, wf)

/-! ### The formats of other products -/

/-- A node in `exportN8N` -/
structure N8NNode where
  (id name type : String)
  position : List ℚ
  parameters : GoMap String GoValue
deriving DecidableEq

/-- The end of a connection in `exportN8N` -/
structure N8NTarget where
  (node type : String)
  index : ℤ
deriving DecidableEq, Repr

/-- The document of `exportN8N` -/
structure N8NExport where
  name : String
  nodes : List N8NNode
  connections : GoMap String (GoMap String (List (List N8NTarget)))
  active : Bool
  settings : GoMap String GoValue
  id : String
deriving DecidableEq

/-- A step of `exportZapier` -/
structure ZapierStep where
  id : String
  position : ℤ
  (app action : String)
  config : GoMap String GoValue
deriving DecidableEq

/-- The document of `exportZapier` -/
structure ZapierExport where
  (name description : String)
  steps : List ZapierStep
deriving DecidableEq

def mapToN8NNodeType (nodeType : String) : String :=
  ([("webhook", "n8n-nodes-base.webhook"), ("http-request", "n8n-nodes-base.httpRequest"),
      ("database", "n8n-nodes-base.postgres"), ("email", "n8n-nodes-base.emailSend"),
      ("slack", "n8n-nodes-base.slack"), ("code", "n8n-nodes-base.code"),
      ("merge", "n8n-nodes-base.merge"), ("split", "n8n-nodes-base.splitInBatches"),
      ("condition", "n8n-nodes-base.if")].lookup nodeType).getD nodeType

def mapToZapierApp (nodeType : String) : String :=
  ([("webhook", "webhook"), ("http-request", "webhooks"), ("database", "postgresql"),
      ("email", "email"), ("slack", "slack"), ("code", "code")].lookup nodeType).getD "custom"

/-- The connection loop of `exportN8N` -/
def n8nConnections (connections : List Connection) :
    GoMap String (GoMap String (List (List N8NTarget))) :=
  connections.foldl
    (fun m c =>
      let mainPort := if c.sourcePort ≠ "" then c.sourcePort else "main"
      m.upd ∅ c.source (fun ports => ports.upd [] mainPort (· ++ [[⟨c.target, "main", 0⟩]])))
    ∅

def exportN8N (wf : Workflow) : N8NExport where
  name := wf.name
  nodes := wf.nodes.map (fun n =>
    { id := n.id, name := n.name, type := mapToN8NNodeType n.type,
      position := [n.position.x, n.position.y], parameters := n.parameters })
  connections := n8nConnections wf.connections
  active := wf.isActive
  settings := wf.settings.structToMap
  id := wf.id

def exportZapier (wf : Workflow) : ZapierExport where
  name := wf.name
  description := wf.description
  steps := wf.nodes.zipIdx.map (fun (n, i) =>
    { id := n.id, position := i + 1, app := mapToZapierApp n.type, action := n.name,
      config := n.parameters })

/-! ### `ExportWorkflow` -/

/-- The formats of `ExportWorkflow` -/
inductive Format
  | json | yaml | n8n | zapier
  | other (name : String)
deriving DecidableEq, Repr

/-- What is written, before it is text. -/
inductive Document
  | json (e : WorkflowExport)
  | yaml (e : WorkflowExport)
  | n8n (e : N8NExport)
  | zapier (e : ZapierExport)
deriving DecidableEq

/-- `ExportWorkflow`, with the workflow as it is left -/
def exportWorkflow (now : ℤ) (wf : Workflow) (format : Format) (options : ExportOptions) :
    Except String Document × Workflow :=
  let (e, wf) := createExportStructure now wf options
  match format with
  | .json => (.ok (.json e), wf)
  | .yaml => (.ok (.yaml e), wf)
  | .n8n => (.ok (.n8n (exportN8N wf)), wf)
  | .zapier => (.ok (.zapier (exportZapier wf)), wf)
  | .other _ => (.error "invalid export format", wf)

/-! ## The import -/

/-- The formats an export can be read back from. -/
inductive TextFormat
  | json | yaml
deriving DecidableEq, Repr

/-- A value of an `interface{}` after it has been written and read. -/
def TextFormat.read [Yaml] (formatTime : ℤ → String) : TextFormat → GoValue → GoValue
  | .json => GoValue.json formatTime
  | .yaml => Yaml.yaml

def WorkflowExport.read [Yaml] (formatTime : ℤ → String) (t : TextFormat) (e : WorkflowExport) :
    WorkflowExport :=
  let values := GoMap.mapValues (t.read formatTime)
  { e with
    workflow := { e.workflow with settings := values e.workflow.settings }
    nodes := e.nodes.map (fun n => { n with parameters := values n.parameters })
    connections := e.connections.map (fun c => { c with data := values c.data })
    metadata := values e.metadata }

/-- `ImportOptions`, those that are read -/
structure ImportOptions where
  (userID newName : String := "")
  (remapIDs validateOnImport : Bool := false)
  credentialMapping : Option (GoMap String String) := none
deriving DecidableEq

/-- What an import sees of its surroundings: fresh UUIDs, and the clock, twice. -/
structure ImportEnv where
  uuid : ℕ → String
  (created updated : ℤ := 0)

/-- `int(x)` -/
def toInt (x : ℚ) : ℤ := x.num.tdiv x.den

/-- `if x, ok := m[key].(float64); ok { field = int(x) }` -/
def intField (m : GoMap String GoValue) (key : String) : ℤ :=
  ((m.lookup key).asFloat.map toInt).getD 0

/-- `if x, ok := m[key].(bool); ok { field = x }` -/
def boolField (m : GoMap String GoValue) (key : String) : Bool := (m.lookup key).asBool.getD false

def mapToSettings (m : GoMap String GoValue) : Settings where
  timeout := intField m "timeout"
  retryOnFailure := boolField m "retryOnFailure"
  maxRetries := intField m "maxRetries"
  timezone := (m.lookup "timezone").asString.getD ""
  errorHandling :=
    match (m.lookup "errorHandling").asMap with
    | none => {}
    | some eh =>
      { continueOnFail := boolField eh "continueOnFail",
        retryInterval := intField eh "retryInterval", maxRetries := intField eh "maxRetries" }

def mapCredentials (mapping : GoMap String String) (parameters : GoMap String GoValue) :
    GoMap String GoValue :=
  match (parameters.lookup "credentialId").asString with
  | none => parameters
  | some credID =>
    match mapping.lookup credID with
    | some newID => parameters.insert "credentialId" (.string newID)
    | none => parameters.erase "credentialId"

/-- A second node with an ID that is mapped already is mapped anew. -/
def nodeIDMap (env : ImportEnv) (remapIDs : Bool) (nodes : List NodeExport) : GoMap String String :=
  if remapIDs then GoMap.ofPairs (nodes.zipIdx.map (fun (n, i) => (n.id, env.uuid (i + 1))))
  else GoMap.ofPairs (nodes.map (fun n => (n.id, n.id)))

def NodeExport.toNode (ids : GoMap String String) (options : ImportOptions) (n : NodeExport) :
    Node where
  id := ids.get "" n.id
  name := n.name
  type := n.type
  position := { x := n.position.get 0 "x", y := n.position.get 0 "y" }
  parameters :=
    match options.credentialMapping with
    | none => n.parameters
    | some mapping => mapCredentials mapping n.parameters
  disabled := n.disabled
  retryCount := n.retryCount
  timeout := n.timeout

/-- The connection at place `i`, with a fresh ID if the IDs are remapped. -/
def ConnectionExport.toConnection (env : ImportEnv) (ids : GoMap String String)
    (options : ImportOptions) (nodes i : ℕ) (c : ConnectionExport) : Connection where
  id := if options.remapIDs then env.uuid (nodes + i + 1) else c.id
  source := ids.get "" c.source
  target := ids.get "" c.target
  sourcePort := c.sourcePort
  targetPort := c.targetPort
  data := c.data

/-- The workflow of `createWorkflowFromExport`, before it is validated. -/
def WorkflowExport.workflowOf (env : ImportEnv) (options : ImportOptions) (e : WorkflowExport) :
    Workflow :=
  let ids := nodeIDMap env options.remapIDs e.nodes
  { id := env.uuid 0
    name := if options.newName ≠ "" then options.newName else e.workflow.name
    description := e.workflow.description
    userID := options.userID
    version := 1
    status := .inactive
    isActive := false
    tags := e.workflow.tags
    createdAt := env.created
    updatedAt := env.updated
    settings := mapToSettings e.workflow.settings
    nodes := e.nodes.map (NodeExport.toNode ids options)
    connections := e.connections.zipIdx.map (fun (c, i) =>
      c.toConnection env ids options e.nodes.length i) }

def createWorkflowFromExport (env : ImportEnv) (e : WorkflowExport) (options : ImportOptions) :
    Except String Workflow :=
  let wf := e.workflowOf env options
  if options.validateOnImport then
    match wf.checked.validation with
    | .error err => .error ("import validation failed: " ++ err)
    | .ok () => .ok wf
  else .ok wf

def isVersionCompatible (version : String) : Bool := version = exportVersion || version = "1.0.0"

/-- `ImportWorkflow`, of a text in which `e` was written -/
def importWorkflow [Yaml] (formatTime : ℤ → String) (env : ImportEnv) (t : TextFormat)
    (e : WorkflowExport) (options : ImportOptions) : Except String Workflow :=
  let e := e.read formatTime t
  if !isVersionCompatible e.version then .error "incompatible export version"
  else createWorkflowFromExport env e options

end LinkFlow.Transfer
