/-
`Validator.Validate` of `pkg/contracts/workflow/validator.go` as a whole, and how it
compares with the two other notions of a well-formed workflow: `Workflow.Validate`,
which activation runs, and the start nodes of the executor.

Every check appends messages to the validator's two lists, so a check is the `Findings`
it appends. The checks over the node map visit it in the order of their `range`
statement; that order only shows in the texts.

`Checked` says without the code what a workflow without errors is
(`validate_err_eq_none_iff`). It asks for a node of type trigger or webhook, where the
other two ask for a trigger, and that is the whole difference (`validate_agreement`).

A `Validator` is good for one call: the node map is not reset, so a second `Validate`
finds every node there already (`validateAll_same_iff`).
-/
import LinkFlow.Validator
import LinkFlow.Executor

set_option autoImplicit false

namespace LinkFlow

open List Option

def nodeTypeAction : String := "action"
def nodeTypeSplit : String := "split"
def nodeTypeDatabase : String := "database"
def nodeTypeEmail : String := "email"
def nodeTypeSlack : String := "slack"

def errInvalidConnection : String := "invalid connection: node not found"

def errNoTriggerNode : String := "workflow must have at least one trigger node"

def errOrphanedNode : String := "workflow contains orphaned nodes"

/-! ## The messages -/

/-- What a check appends to `v.errors` and `v.warnings`. -/
structure Findings where
  (errors warnings : List String := [])
deriving DecidableEq, Repr

namespace Findings

instance : Append Findings :=
  ⟨fun f g => { errors := f.errors ++ g.errors, warnings := f.warnings ++ g.warnings }⟩

def error (msg : String) : Findings := { errors := [msg] }

def warning (msg : String) : Findings := { warnings := [msg] }

def each {α : Type} (check : α → Findings) : List α → Findings
  | [] => {}
  | a :: as => check a ++ each check as

@[simp] theorem errors_append (f g : Findings) : (f ++ g).errors = f.errors ++ g.errors := rfl

@[simp] theorem errors_error (msg : String) : (error msg).errors = [msg] := rfl

theorem errors_each {α : Type} (check : α → Findings) (as : List α) :
    (each check as).errors = [] ↔ ∀ a ∈ as, (check a).errors = [] := by
  induction as with
  | nil => simp [each]
  | cons a as ih => rw [each, errors_append, append_eq_nil_iff, ih, forall_mem_cons]

def ofError : Option String → Findings
  | some msg => error msg
  | none => {}

theorem errors_ofError (e : Option String) : (ofError e).errors = [] ↔ e = none := by
  cases e with
  | none => simp [ofError]
  | some msg => simp [ofError]

end Findings

namespace Validator

/-! ## The checks -/

def validateTriggerExists (v : Validator) : Option String :=
  if v.workflow.nodes.any Node.isEntry then none else some errNoTriggerNode

/-- The default port `input` it fills in for the target is not read. -/
def validatePortCompatibility (source : Node) (conn : Connection) : Option String :=
  let sourcePort := if conn.sourcePort = "" then "output" else conn.sourcePort
  if source.type = nodeTypeSplit ∧ sourcePort ≠ "output" ∧ sourcePort ≠ "true"
      ∧ sourcePort ≠ "false" then
    some ("split node " ++ source.id ++ " has invalid output port: " ++ sourcePort)
  else none

def checkPorts (source : Node) (conn : Connection) : Findings :=
  match validatePortCompatibility source conn with
  | some e => .warning ("Connection " ++ conn.id ++ ": " ++ e)
  | none => {}

/-- The loop of `validateConnections`, which ends at the first missing node: its error and
the port warnings up to there. -/
def checkConnections (nodeMap : GoMap String Node) : List Connection → Option String × Findings
  | [] => (none, {})
  | c :: cs =>
    match nodeMap.lookup c.source with
    | none => (some (errInvalidConnection ++ ": source node '" ++ c.source ++ "' not found"), {})
    | some source =>
      match nodeMap.lookup c.target with
      | none => (some (errInvalidConnection ++ ": target node '" ++ c.target ++ "' not found"), {})
      | some _ =>
        let rest := checkConnections nodeMap cs
        (rest.1, checkPorts source c ++ rest.2)

def validateConnections (v : Validator) : Option String × Findings :=
  checkConnections v.nodeMap v.workflow.connections

def validateNoOrphanedNodes (ρ : RangeOrder) (v : Validator) : Option String :=
  let connected (id : String) : Bool :=
    v.workflow.connections.any (fun c => c.source = id ∨ c.target = id)
  let orphaned := (ρ.run 185 v.nodeMap.entries).filter
    (fun e => ¬ e.2.isEntry ∧ ¬ connected e.1)
  if orphaned.isEmpty then none
  else some (errOrphanedNode ++ ": nodes " ++ GoFmt.formatList (orphaned.map Sigma.fst)
    ++ " have no connections")

def validTypes : List String :=
  [nodeTypeTrigger, nodeTypeAction, nodeTypeCondition, nodeTypeLoop, nodeTypeMerge,
    nodeTypeSplit, nodeTypeWebhook, nodeTypeHTTPRequest, nodeTypeDatabase, nodeTypeCode,
    nodeTypeEmail, nodeTypeSlack]

/-- The required parameters of a node: one error if it has no parameters at all, and one
for each field that is not there. -/
def requireFields (kind : String) (fields : List String) (node : Node) : Findings :=
  match node.parameters with
  | none => .error (kind ++ " node " ++ node.id ++ " missing parameters")
  | some parameters => Findings.each (fun field =>
    if field ∈ parameters then {}
    else .error (kind ++ " node " ++ node.id ++ " missing '" ++ field ++ "' parameter")) fields

/-- The methods `validateHTTPNode` knows. -/
def validMethods : List String := ["GET", "POST", "PUT", "DELETE", "PATCH"]

/-- The method warning of `validateHTTPNode`. -/
def checkMethod (node : Node) : Findings :=
  match node.parameters.bind (fun parameters => parameters.lookup "method") with
  | some (.string method) =>
    if method ∈ validMethods then {}
    else .warning ("HTTP node " ++ node.id ++ " has non-standard method: " ++ method)
  | _ => {}

def validateHTTPNode (node : Node) : Findings :=
  requireFields "HTTP" ["url"] node ++ checkMethod node

def validateDatabaseNode (node : Node) : Findings :=
  requireFields "Database" ["operation", "table"] node

def validateEmailNode (node : Node) : Findings := requireFields "Email" ["to", "subject"] node

/-- The body of the loop of `validateNodeConfigurations`. -/
def checkConfiguration (node : Node) : Findings :=
  (if node.type ∈ validTypes then {}
    else .error ("Node " ++ node.id ++ " has invalid type: " ++ node.type))
  ++ (if node.type = nodeTypeHTTPRequest then validateHTTPNode node
    else if node.type = nodeTypeDatabase then validateDatabaseNode node
    else if node.type = nodeTypeEmail then validateEmailNode node
    else {})
  ++ (if node.timeout < 0 then
      .warning ("Node " ++ node.id ++ " has negative timeout: " ++ toString node.timeout)
    else {})
  ++ (if node.retryCount < 0 then
      .warning ("Node " ++ node.id ++ " has negative retry count: " ++ toString node.retryCount)
    else {})

def validateNodeConfigurations (v : Validator) : Findings :=
  Findings.each checkConfiguration v.workflow.nodes

/-- The body of the loop of `validateNodeDependencies`, for a node with `inputs` incoming
connections. -/
def checkInputs (nodeID : String) (node : Node) (inputs : ℕ) : Findings :=
  if node.isEntry then {}
  else
    (if inputs = 0 ∧ ¬ node.disabled then
        .warning ("Node " ++ nodeID ++ " (" ++ node.name ++ ") has no incoming connections")
      else {})
    ++ (if node.type = nodeTypeMerge ∧ inputs < 2 then
        .warning ("Merge node " ++ nodeID ++ " should have at least 2 inputs, has "
          ++ toString inputs)
      else {})

def validateNodeDependencies (ρ : RangeOrder) (v : Validator) : Findings :=
  let incoming := GoMap.group ∅ (v.workflow.connections.map (fun c => (c.target, c.source)))
  Findings.each (fun e => checkInputs e.1 e.2 (incoming.get [] e.1).length)
    (ρ.run 311 v.nodeMap.entries)

/-! ## `Validate` -/

/-- The results of `Validate`: the errors and warnings, and the error value. -/
structure Report where
  findings : Findings
  err : Option String
deriving DecidableEq, Repr

/-- The checks `Validate` makes once the node map is built, where `cycles` is the answer
of `validateNoCycles`. -/
def findings (ρ : RangeOrder) (v : Validator) (cycles : Option String) : Findings :=
  Findings.ofError v.validateTriggerExists
  ++ v.validateConnections.2
  ++ Findings.ofError v.validateConnections.1
  ++ Findings.ofError cycles
  ++ (match v.validateNoOrphanedNodes ρ with
    | some w => .warning w
    | none => {})
  ++ v.validateNodeConfigurations
  ++ v.validateNodeDependencies ρ

def validate (ρ : RangeOrder) (fuel : ℕ) (v : Validator) : Option (Validator × Report) :=
  match v.buildNodeMap with
  | (v, some e) => some (v, { findings := .error e, err := some e })
  | (v, none) =>
    match v.validateNoCycles ρ fuel with
    | none => none
    | some cycles =>
      let f := v.findings ρ cycles
      some (v, { findings := f
                 err := if 0 < f.errors.length then
                     some ("validation failed with " ++ toString f.errors.length
                       ++ " errors")
                   else none })

end Validator

/-! ## What the error checks find -/

def Node.requiredFields (n : Node) : List String :=
  if n.type = nodeTypeHTTPRequest then ["url"]
  else if n.type = nodeTypeDatabase then ["operation", "table"]
  else if n.type = nodeTypeEmail then ["to", "subject"]
  else []

/-- A known type, with the parameters the type requires. -/
def Node.Configured (n : Node) : Prop :=
  n.type ∈ Validator.validTypes ∧
    ∀ field ∈ n.requiredFields, ∃ parameters, n.parameters = some parameters ∧ field ∈ parameters

/-- What `Validator.Validate` asks of a workflow, warnings apart. -/
structure Workflow.Checked (w : Workflow) : Prop where
  nodup : w.nodeIDs.Nodup
  entry : ∃ n ∈ w.nodes, n.type = nodeTypeTrigger ∨ n.type = nodeTypeWebhook
  connections : w.ConnectionsExist
  acyclic : ¬ Graph.HasClosedWalk w.edges
  configured : ∀ n ∈ w.nodes, n.Configured

namespace Validator

theorem addNodes_eq_none_iff (m : GoMap String Node) (ns : List Node) :
    (addNodes m ns).2 = none ↔ (ns.map Node.id).Nodup ∧ ∀ n ∈ ns, n.id ∉ m := by
  induction ns generalizing m with
  | nil => simp [addNodes]
  | cons n ns ih =>
    rw [addNodes, map_cons, nodup_cons, forall_mem_cons]
    by_cases hn : n.id ∈ m
    · rw [if_pos hn]
      simp [hn]
    rw [if_neg hn, ih]
    -- a later node clashes with the map or with this node
    have hrest : (∀ n' ∈ ns, n'.id ∉ m.insert n.id n) ↔
        n.id ∉ ns.map Node.id ∧ ∀ n' ∈ ns, n'.id ∉ m := by
      simp only [AList.mem_insert, not_or, List.mem_map, not_exists, not_and]
      exact forall₂_and
    rw [hrest]
    tauto

theorem buildNodeMap_eq_none_iff (w : Workflow) :
    (newValidator w).buildNodeMap.2 = none ↔ w.nodeIDs.Nodup := by
  show (addNodes ∅ w.nodes).2 = none ↔ _
  rw [addNodes_eq_none_iff, Workflow.nodeIDs]
  simp

theorem validateTriggerExists_eq_none_iff (v : Validator) : v.validateTriggerExists = none ↔
      ∃ n ∈ v.workflow.nodes, n.type = nodeTypeTrigger ∨ n.type = nodeTypeWebhook := by
  have hany : v.workflow.nodes.any Node.isEntry = true ↔
      ∃ n ∈ v.workflow.nodes, n.type = nodeTypeTrigger ∨ n.type = nodeTypeWebhook := by
    rw [List.any_eq_true]
    simp only [Node.isEntry, Bool.or_eq_true, decide_eq_true_eq]
  rw [← hany, validateTriggerExists]
  by_cases h : v.workflow.nodes.any Node.isEntry = true
  · simp [h]
  · simp [h]

theorem checkConnections_eq_none_iff (nodeMap : GoMap String Node) (cs : List Connection) :
    (checkConnections nodeMap cs).1 = none ↔
      ∀ c ∈ cs, c.source ∈ nodeMap ∧ c.target ∈ nodeMap := by
  induction cs with
  | nil => simp [checkConnections]
  | cons c cs ih =>
    rw [checkConnections, forall_mem_cons, ← ih, ← AList.lookup_isSome, ← AList.lookup_isSome]
    cases nodeMap.lookup c.source with
    | none => simp
    | some source =>
      cases nodeMap.lookup c.target with
      | none => simp
      | some target => simp

theorem checkPorts_errors (source : Node) (conn : Connection) :
    (checkPorts source conn).errors = [] := by
  unfold checkPorts
  split
  · rfl
  · rfl

theorem checkConnections_errors (nodeMap : GoMap String Node) (cs : List Connection) :
    (checkConnections nodeMap cs).2.errors = [] := by
  induction cs with
  | nil => rfl
  | cons c cs ih =>
    rw [checkConnections]
    cases nodeMap.lookup c.source with
    | none => rfl
    | some source =>
      cases nodeMap.lookup c.target with
      | none => rfl
      | some target =>
        show (checkPorts source c ++ (checkConnections nodeMap cs).2).errors = []
        rw [Findings.errors_append, checkPorts_errors, ih, append_nil]

theorem requireFields_errors (kind : String) (fields : List String) (hfields : fields ≠ [])
    (n : Node) : (requireFields kind fields n).errors = [] ↔
      ∀ field ∈ fields, ∃ parameters, n.parameters = some parameters ∧ field ∈ parameters := by
  unfold requireFields
  cases hp : n.parameters with
  | none =>
    obtain ⟨field, hfield⟩ := exists_mem_of_ne_nil fields hfields
    simp only [Findings.errors_error, reduceCtorEq, false_and, exists_false, imp_false]
    constructor
    · intro h
      exact absurd h (by simp)
    · intro h
      exact absurd hfield (h field)
  | some parameters =>
    rw [Findings.errors_each]
    refine forall₂_congr (fun field _ => ?_)
    by_cases hf : field ∈ parameters
    · simp [hf]
    · simp [hf]

theorem checkMethod_errors (n : Node) : (checkMethod n).errors = [] := by
  unfold checkMethod
  split
  · split
    · rfl
    · rfl
  · rfl

theorem checkConfiguration_errors (n : Node) :
    (checkConfiguration n).errors = [] ↔ n.Configured := by
  have htype : (if n.type ∈ validTypes then ({} : Findings)
      else .error ("Node " ++ n.id ++ " has invalid type: " ++ n.type)).errors = [] ↔
        n.type ∈ validTypes := by
    by_cases h : n.type ∈ validTypes
    · simp [h]
    · simp [h]
  have hwarn : ∀ (p : Prop) [Decidable p] (msg : String),
      (if p then Findings.warning msg else {}).errors = [] := by
    intro p _ msg
    split
    · rfl
    · rfl
  rw [checkConfiguration, Node.Configured, Findings.errors_append, Findings.errors_append,
    Findings.errors_append, hwarn, hwarn, append_nil, append_nil, append_eq_nil_iff, htype]
  refine and_congr_right (fun _ => ?_)
  unfold Node.requiredFields
  by_cases hhttp : n.type = nodeTypeHTTPRequest
  · rw [if_pos hhttp, if_pos hhttp, validateHTTPNode, Findings.errors_append, checkMethod_errors,
      append_nil]
    exact requireFields_errors "HTTP" ["url"] (by simp) n
  · rw [if_neg hhttp, if_neg hhttp]
    by_cases hdb : n.type = nodeTypeDatabase
    · rw [if_pos hdb, if_pos hdb]
      exact requireFields_errors "Database" ["operation", "table"] (by simp) n
    rw [if_neg hdb, if_neg hdb]
    by_cases hmail : n.type = nodeTypeEmail
    · rw [if_pos hmail, if_pos hmail]
      exact requireFields_errors "Email" ["to", "subject"] (by simp) n
    · rw [if_neg hmail, if_neg hmail]
      simp

theorem checkInputs_errors (nodeID : String) (n : Node) (inputs : ℕ) :
    (checkInputs nodeID n inputs).errors = [] := by
  unfold checkInputs
  split_ifs <;> rfl

theorem findings_errors (ρ : RangeOrder) (v : Validator) (cycles : Option String) :
    (v.findings ρ cycles).errors = [] ↔
      v.validateTriggerExists = none ∧ v.validateConnections.1 = none ∧ cycles = none ∧
        ∀ n ∈ v.workflow.nodes, n.Configured := by
  have horphan : (match v.validateNoOrphanedNodes ρ with
      | some w => Findings.warning w
      | none => {}).errors = [] := by
    cases v.validateNoOrphanedNodes ρ with
    | none => rfl
    | some w => rfl
  have hdeps : (v.validateNodeDependencies ρ).errors = [] :=
    (Findings.errors_each _ _).mpr (fun e _ => checkInputs_errors e.1 e.2 _)
  have hports : v.validateConnections.2.errors = [] := checkConnections_errors _ _
  have hconfig : v.validateNodeConfigurations.errors = [] ↔
      ∀ n ∈ v.workflow.nodes, n.Configured := by
    rw [validateNodeConfigurations, Findings.errors_each]
    exact forall₂_congr (fun n _ => checkConfiguration_errors n)
  simp only [findings, Findings.errors_append, horphan, hdeps, hports, append_nil,
    append_eq_nil_iff, Findings.errors_ofError, hconfig]
  tauto

/-! ## What `Validate` accepts -/

theorem validate_cases {ρ : RangeOrder} {fuel : ℕ} {v v' : Validator} {r : Report}
    (h : v.validate ρ fuel = some (v', r)) :
    (∃ e, v.buildNodeMap = (v', some e) ∧ r = { findings := .error e, err := some e }) ∨
      (v.buildNodeMap = (v', none) ∧ ∃ cycles, v'.validateNoCycles ρ fuel = some cycles ∧
        r.findings = v'.findings ρ cycles ∧ (r.err = none ↔ r.findings.errors = [])) := by
  unfold validate at h
  split at h
  · rename_i v₀ e hbuild
    obtain ⟨rfl, rfl⟩ := Prod.mk.inj (some.inj h)
    exact .inl ⟨e, hbuild, rfl⟩
  · rename_i v₀ hbuild
    split at h
    · cases h
    rename_i cycles hcycles
    obtain ⟨rfl, rfl⟩ := Prod.mk.inj (some.inj h)
    refine .inr ⟨hbuild, cycles, hcycles, rfl, ?_⟩
    simp [length_pos_iff]

theorem validate_returns (ρ : RangeOrder) (w : Workflow) (fuel : ℕ)
    (hfuel : w.nodes.length + w.connections.length ≤ fuel) :
    ∃ r, (newValidator w).validate ρ fuel = some r := by
  unfold validate
  split
  · exact ⟨_, rfl⟩
  rename_i v hbuild
  have hnone : (newValidator w).buildNodeMap.2 = none := by rw [hbuild]
  have hv : v = (newValidator w).buildNodeMap.1 := by rw [hbuild]
  obtain ⟨b, hb⟩ := Dfs.hasCycleFrom_returns w.edges w.get_adjacency
    (GoMap.rangeKeys ρ 162 v.nodeMap) fuel (by
      rw [(GoMap.rangeKeys_perm ρ 162 v.nodeMap).length_eq, ← GoMap.len_eq_length_keys, hv,
        len_buildNodeMap w hnone, w.length_edges]
      have hcard := toFinset_card_le w.nodeIDs
      rw [Workflow.nodeIDs, length_map] at hcard
      rw [Workflow.nodeIDs]
      omega)
  have hw : v.workflow = w := by rw [hv]; rfl
  rw [validateNoCycles_eq, hw, hb]
  exact ⟨_, rfl⟩

/-- No findings exactly if every check passes. -/
theorem findings_errors_iff_checked {ρ : RangeOrder} {w : Workflow} {fuel : ℕ} {v : Validator}
    {cycles : Option String} (hbuild : (newValidator w).buildNodeMap = (v, none))
    (hcycles : v.validateNoCycles ρ fuel = some cycles) :
    (v.findings ρ cycles).errors = [] ↔ w.Checked := by
  have hnone : (newValidator w).buildNodeMap.2 = none := by rw [hbuild]
  have hv : v = (newValidator w).buildNodeMap.1 := by rw [hbuild]
  have hw : v.workflow = w := by rw [hv]; rfl
  have hconn : v.validateConnections.1 = none ↔ w.ConnectionsExist := by
    rw [validateConnections, checkConnections_eq_none_iff, hw, hv]
    exact forall₂_congr (fun c _ => by rw [mem_buildNodeMap w hnone, mem_buildNodeMap w hnone])
  -- the search for a cycle is right once the connections join existing nodes
  have hacyclic : w.ConnectionsExist → (cycles = none ↔ ¬ Graph.HasClosedWalk w.edges) := by
    intro hexist
    rw [hv] at hcycles
    obtain ⟨b, hb, rfl⟩ := (validateNoCycles_correct w hexist hnone ρ).2 fuel cycles hcycles
    rw [← hb]
    cases b with
    | true => simp
    | false => simp
  rw [findings_errors, validateTriggerExists_eq_none_iff, hconn, hw]
  constructor
  · rintro ⟨hentry, hexist, hcyc, hconfig⟩
    exact ⟨(buildNodeMap_eq_none_iff w).mp hnone, hentry, hexist, (hacyclic hexist).mp hcyc,
      hconfig⟩
  · intro hchecked
    exact ⟨hchecked.entry, hchecked.connections,
      (hacyclic hchecked.connections).mpr hchecked.acyclic, hchecked.configured⟩

theorem validate_ok_iff_checked {ρ : RangeOrder} {w : Workflow} {fuel : ℕ} {v : Validator}
    {r : Report} (h : (newValidator w).validate ρ fuel = some (v, r)) :
    r.err = none ↔ w.Checked := by
  obtain ⟨e, hbuild, rfl⟩ | ⟨hbuild, cycles, hcycles, hfindings, herr⟩ := validate_cases h
  · have hdup : ¬ w.nodeIDs.Nodup := by
      rw [← buildNodeMap_eq_none_iff, hbuild]
      simp
    constructor
    · intro hok
      cases hok
    · intro hchecked
      exact absurd hchecked.nodup hdup
  · rw [herr, hfindings]
    exact findings_errors_iff_checked hbuild hcycles

/-- **What `Validate` accepts.** With fuel for every node and connection a new validator reports no
error exactly for the checked workflows. -/
theorem validate_err_eq_none_iff (ρ : RangeOrder) (w : Workflow) (fuel : ℕ)
    (hfuel : w.nodes.length + w.connections.length ≤ fuel) :
    ∃ v r, (newValidator w).validate ρ fuel = some (v, r) ∧ (r.err = none ↔ w.Checked) := by
  obtain ⟨⟨v, r⟩, h⟩ := validate_returns ρ w fuel hfuel
  exact ⟨v, r, h, validate_ok_iff_checked h⟩

/-! ## Calls on one validator -/

/-- What a call reports that finds a node in the map. -/
def Report.duplicate (id : String) : Report where
  findings := .error ("duplicate node ID found: " ++ id)
  err := some ("duplicate node ID found: " ++ id)

/-- The same errors and warnings up to order, and the same error value. -/
def Report.Same (r r' : Report) : Prop :=
  r.findings.errors.Perm r'.findings.errors ∧ r.findings.warnings.Perm r'.findings.warnings ∧
    r.err = r'.err

/-- `Validate` called once for every order in `ρs`. -/
def validateAll (fuel : ℕ) (v : Validator) : List RangeOrder → Option (List Report)
  | [] => some []
  | ρ :: ρs =>
    match v.validate ρ fuel with
    | none => none
    | some (v', r) => (validateAll fuel v' ρs).map (fun rs => r :: rs)

theorem validateAll_cons {ρ : RangeOrder} {fuel : ℕ} {v v' : Validator} {r : Report}
    (h : v.validate ρ fuel = some (v', r)) (ρs : List RangeOrder) :
    v.validateAll fuel (ρ :: ρs) = (v'.validateAll fuel ρs).map (fun rs => r :: rs) := by
  rw [validateAll, h]

theorem mem_addNodes_of_mem {m : GoMap String Node} (ns : List Node) {k : String} (hk : k ∈ m) :
    k ∈ (addNodes m ns).1 := by
  induction ns generalizing m with
  | nil => exact hk
  | cons n ns ih =>
    rw [addNodes]
    split_ifs
    · exact hk
    · exact ih ((AList.mem_insert _).mpr (.inr hk))

/-- Up to the first node whose ID is there already, and this has the ID `id`. -/
theorem addNodes_eq_duplicate_iff {m : GoMap String Node} {ns : List Node} {id : String} :
    (addNodes m ns).2 = some ("duplicate node ID found: " ++ id) ↔
      ∃ pre n post, ns = pre ++ n :: post ∧ (pre.map Node.id).Nodup ∧ (∀ x ∈ pre, x.id ∉ m) ∧
        (id ∈ m ∨ id ∈ pre.map Node.id) ∧ n.id = id := by
  induction ns generalizing m with
  | nil => simp [addNodes]
  | cons x ns ih =>
    rw [addNodes]
    by_cases hx : x.id ∈ m
    · rw [if_pos hx]
      constructor
      · intro h
        have hid : x.id = id := by simpa using h
        exact ⟨[], x, ns, rfl, nodup_nil, by simp, .inl (hid ▸ hx), hid⟩
      · rintro ⟨pre, n, post, heq, -, hnew, -, rfl⟩
        cases pre with
        | nil =>
          cases heq
          rfl
        | cons y pre =>
          cases heq
          exact absurd hx (hnew _ mem_cons_self)
    · rw [if_neg hx, ih]
      constructor
      · rintro ⟨pre, n, post, rfl, hnodup, hnew, hthere, rfl⟩
        simp only [AList.mem_insert, not_or] at hnew hthere
        refine ⟨x :: pre, n, post, rfl, nodup_cons.mpr ⟨fun hmem => ?_, hnodup⟩, ?_, ?_, rfl⟩
        · obtain ⟨y, hy, hid⟩ := mem_map.mp hmem
          exact (hnew y hy).1 hid
        · exact forall_mem_cons.mpr ⟨hx, fun y hy => (hnew y hy).2⟩
        · rw [map_cons, mem_cons]
          tauto
      · rintro ⟨pre, n, post, heq, hnodup, hnew, hthere, rfl⟩
        cases pre with
        | nil =>
          cases heq
          exact absurd (hthere.resolve_right (by simp)) hx
        | cons y pre =>
          cases heq
          obtain ⟨hfirst, hnodup⟩ := nodup_cons.mp hnodup
          refine ⟨pre, n, post, rfl, hnodup, fun z hz hmem => ?_, ?_, rfl⟩
          · rcases (AList.mem_insert _).mp hmem with hid | hmem
            · exact hfirst (mem_map.mpr ⟨z, hz, hid⟩)
            · exact hnew z (mem_cons_of_mem _ hz) hmem
          · rw [map_cons, mem_cons] at hthere
            rw [AList.mem_insert]
            tauto

/-- The first node whose ID an earlier one has carries the ID `id`. -/
def FirstRepeated (nodes : List Node) (id : String) : Prop :=
  ∃ pre n post, nodes = pre ++ n :: post ∧ (pre.map Node.id).Nodup ∧ id ∈ pre.map Node.id ∧
    n.id = id

theorem buildNodeMap_eq_duplicate_iff {w : Workflow} {id : String} :
    (newValidator w).buildNodeMap.2 = some ("duplicate node ID found: " ++ id) ↔
      FirstRepeated w.nodes id := by
  change (addNodes ∅ w.nodes).2 = _ ↔ _
  rw [addNodes_eq_duplicate_iff, FirstRepeated]
  simp

section Again

variable {w : Workflow} {n : Node} {ns : List Node}

/-- After a call the map has the first node, and the next call finds it there. -/
theorem validate_nodeMap {ρ : RangeOrder} {fuel : ℕ} {v : Validator} {r : Report}
    (hnodes : w.nodes = n :: ns) (h : (newValidator w).validate ρ fuel = some (v, r)) :
    v.workflow = w ∧ n.id ∈ v.nodeMap := by
  have hv : v = (newValidator w).buildNodeMap.1 := by
    obtain ⟨e, hbuild, -⟩ | ⟨hbuild, -⟩ := validate_cases h
    · rw [hbuild]
    · rw [hbuild]
  refine ⟨by rw [hv]; rfl, ?_⟩
  have hmap : v.nodeMap = (addNodes (AList.insert n.id n ∅) ns).1 := by
    rw [hv, buildNodeMap, newValidator, hnodes, addNodes, if_neg (AList.notMem_empty _)]
  rw [hmap]
  exact mem_addNodes_of_mem ns ((AList.mem_insert _).mpr (.inl rfl))

theorem validate_again {v : Validator} (hnodes : v.workflow.nodes = n :: ns)
    (hmem : n.id ∈ v.nodeMap) (ρ : RangeOrder) (fuel : ℕ) :
    v.validate ρ fuel = some (v, .duplicate n.id) := by
  rw [validate, buildNodeMap, hnodes, addNodes, if_pos hmem]
  rfl

theorem validateAll_again {v : Validator} (hnodes : v.workflow.nodes = n :: ns)
    (hmem : n.id ∈ v.nodeMap) (ρs : List RangeOrder) (fuel : ℕ) :
    v.validateAll fuel ρs = some (ρs.map (fun _ => .duplicate n.id)) := by
  induction ρs with
  | nil => rfl
  | cons ρ ρs ih =>
    rw [validateAll_cons (validate_again hnodes hmem ρ fuel), ih]
    rfl

theorem validate_nil (hnodes : w.nodes = []) :
    ∃ r, ∀ ρ fuel, (newValidator w).validate ρ fuel = some (newValidator w, r) := by
  have hbuild : (newValidator w).buildNodeMap = (newValidator w, none) := by
    rw [buildNodeMap, newValidator, hnodes, addNodes]
  have hempty : (newValidator w).nodeMap.entries = [] := rfl
  have hrun : ∀ (ρ : RangeOrder) line, ρ.run line ([] : List (Sigma fun _ : String => Node)) = [] :=
    fun ρ line => (ρ.perm line _).eq_nil
  have hcycles : ∀ ρ fuel, (newValidator w).validateNoCycles ρ fuel = some none := by
    intro ρ fuel
    rw [validateNoCycles, GoMap.rangeKeys, hempty, hrun]
    rfl
  have hfindings : ∀ ρ, (newValidator w).findings ρ none =
      (newValidator w).findings .stored none := by
    intro ρ
    simp only [findings, validateNoOrphanedNodes, validateNodeDependencies, hempty, hrun]
  obtain ⟨r, hr⟩ : ∃ r, (newValidator w).validate .stored 0 = some (newValidator w, r) := by
    rw [validate, hbuild]
    dsimp only
    rw [hcycles]
    exact ⟨_, rfl⟩
  refine ⟨r, fun ρ fuel => ?_⟩
  rw [← hr, validate, validate, hbuild]
  simp only [hcycles, hfindings ρ]

theorem err_ne_duplicate (k : ℕ) (id : String) :
    "validation failed with " ++ toString k ++ " errors" ≠ "duplicate node ID found: " ++ id := by
  intro h
  have hhead := congrArg (fun s => s.toList.head?) h
  simp [String.toList_append] at hhead

end Again

/-- **Calls on one validator** report what a new validator reports exactly if there are no nodes or
the first ID that is there twice is the first node's: the node map is not reset. -/
theorem validateAll_same_iff (w : Workflow) :
    (∀ fuel, w.nodes.length + w.connections.length ≤ fuel → ∀ ρs ρ, ∃ rs v r,
      (newValidator w).validateAll fuel ρs = some rs ∧
        (newValidator w).validate ρ fuel = some (v, r) ∧ ∀ r' ∈ rs, r'.Same r) ↔
      ∀ n ∈ w.nodes.head?, FirstRepeated w.nodes n.id := by
  simp only [← buildNodeMap_eq_duplicate_iff]
  cases hnodes : w.nodes with
  | nil =>
    obtain ⟨r, hr⟩ := validate_nil hnodes
    refine ⟨fun _ n hn => absurd hn (by simp), fun _ fuel _ ρs ρ => ?_⟩
    have hall : (newValidator w).validateAll fuel ρs = some (ρs.map (fun _ => r)) := by
      induction ρs with
      | nil => rfl
      | cons ρ ρs ih =>
        rw [validateAll_cons (hr ρ fuel), ih]
        rfl
    refine ⟨_, _, r, hall, hr ρ fuel, fun r' hr' => ?_⟩
    obtain ⟨_, _, rfl⟩ := mem_map.mp hr'
    exact ⟨.refl _, .refl _, rfl⟩
  | cons n ns =>
    simp only [head?_cons, mem_some_iff, forall_eq']
    constructor
    · intro h
      obtain ⟨rs, v, r, hall, hv, hsame⟩ := h _ le_rfl [.stored, .stored] .stored
      obtain ⟨hw, hmem⟩ := validate_nodeMap hnodes hv
      rw [validateAll_cons hv, validateAll_again (hw.symm ▸ hnodes) hmem] at hall
      cases hall
      have herr : r.err = some ("duplicate node ID found: " ++ n.id) :=
        (hsame (.duplicate n.id) (by simp)).2.2.symm
      obtain ⟨e, hbuild, rfl⟩ | ⟨hbuild, cycles, hcycles, -⟩ := validate_cases hv
      · rw [hbuild]
        exact herr
      rw [validate, hbuild] at hv
      dsimp only at hv
      rw [hcycles] at hv
      obtain rfl := (Prod.mk.inj (some.inj hv)).2
      dsimp only at herr
      split_ifs at herr
      exact absurd (some.inj herr) (err_ne_duplicate _ _)
    · intro hdup fuel _ ρs ρ
      have hfirst : ∀ ρ, (newValidator w).validate ρ fuel =
          some ((newValidator w).buildNodeMap.1, .duplicate n.id) := by
        intro ρ
        rw [validate, ← Prod.eta (newValidator w).buildNodeMap, hdup]
        rfl
      obtain ⟨hw, hmem⟩ := validate_nodeMap hnodes (hfirst ρ)
      refine ⟨ρs.map (fun _ => .duplicate n.id), _, _, ?_, hfirst ρ, fun r' hr' => ?_⟩
      · cases ρs with
        | nil => rfl
        | cons ρ ρs =>
          rw [validateAll_cons (hfirst ρ), validateAll_again (hw.symm ▸ hnodes) hmem]
          rfl
      · obtain ⟨_, _, rfl⟩ := mem_map.mp hr'
        exact ⟨.refl _, .refl _, rfl⟩

end Validator

/-! ## The three notions of a well-formed workflow -/

theorem Workflow.findStartNodes_ne_nil_iff (w : Workflow) (graph : GoMap String (List String)) :
    w.findStartNodes graph ≠ [] ↔ ∃ n ∈ w.nodes, n.type = nodeTypeTrigger := by
  rw [findStartNodes, ne_eq, map_eq_nil_iff, filter_eq_nil_iff]
  simp

/-- **The three notions agree on workflows with a trigger node.** When `Validator.Validate` reports
no error, `Workflow.Validate` accepts, and the executor finds a start node, exactly if there is a
node of type trigger. -/
theorem validate_agreement (w : Workflow) (ρ : RangeOrder) (fuel : ℕ) (v : Validator)
    (r : Validator.Report) (h : (newValidator w).validate ρ fuel = some (v, r))
    (hok : r.err = none) : (∀ fuel', w.nodes.length + w.connections.length ≤ fuel' →
      (w.validate fuel' = some (.ok ()) ↔ ∃ n ∈ w.nodes, n.type = nodeTypeTrigger)) ∧
    (w.findStartNodes w.buildExecutionGraph ≠ [] ↔
      ∃ n ∈ w.nodes, n.type = nodeTypeTrigger) := by
  have hw := (Validator.validate_ok_iff_checked h).mp hok
  constructor
  · intro fuel' hfuel'
    rw [w.validate_eq_ok_iff fuel' hfuel', and_iff_left ⟨hw.connections, hw.acyclic⟩]
  · exact w.findStartNodes_ne_nil_iff w.buildExecutionGraph

/-- One trigger node, and nothing else. -/
def triggerWorkflow : Workflow where
  nodes := [{ id := "start", type := nodeTypeTrigger }]
  connections := []

/-- The second call finds the only node in the map. -/
theorem triggerWorkflow_again : (newValidator triggerWorkflow).validateAll 1 [.stored, .stored] =
      some [{ findings := {}, err := none }, .duplicate "start"] := by
  decide +kernel

theorem triggerWorkflow_agreement :
    ∃ v r, (newValidator triggerWorkflow).validate RangeOrder.stored 1 = some (v, r) ∧
      r.err = none ∧ triggerWorkflow.validate 1 = some (.ok ()) ∧
      triggerWorkflow.findStartNodes triggerWorkflow.buildExecutionGraph ≠ [] := by
  obtain ⟨⟨v, r⟩, h⟩ := Validator.validate_returns RangeOrder.stored triggerWorkflow 1 (by decide)
  have hok : r.err = none := by
    have heq : (newValidator triggerWorkflow).validate RangeOrder.stored 1 = _ := rfl
    rw [heq] at h
    rw [← (Prod.mk.inj (some.inj h)).2]
    decide
  have hagree := validate_agreement triggerWorkflow RangeOrder.stored 1 v r h hok
  have htrigger : ∃ n ∈ triggerWorkflow.nodes, n.type = nodeTypeTrigger := by decide
  exact ⟨v, r, h, hok, (hagree.1 1 (by decide)).mpr htrigger, hagree.2.mpr htrigger⟩

/-- One webhook node, and nothing else. -/
def webhookWorkflow : Workflow where
  nodes := [{ id := "hook", type := nodeTypeWebhook }]
  connections := []

/-- The validator accepts a workflow that starts from a webhook, but it cannot be activated and a
run visits no node. -/
theorem webhookWorkflow_disagreement :
    (∀ ρ fuel, 1 ≤ fuel → ∃ v r, (newValidator webhookWorkflow).validate ρ fuel = some (v, r) ∧
      r.err = none) ∧
    (∀ fuel, webhookWorkflow.validate fuel
      = some (.error "workflow must have at least one trigger node")) ∧
    webhookWorkflow.findStartNodes webhookWorkflow.buildExecutionGraph = [] := by
  refine ⟨fun ρ fuel hfuel => ?_, fun fuel => rfl, rfl⟩
  obtain ⟨v, r, h, hiff⟩ := Validator.validate_err_eq_none_iff ρ webhookWorkflow fuel hfuel
  refine ⟨v, r, h, hiff.mpr ?_⟩
  refine ⟨by decide, by decide, by decide, ?_, ?_⟩
  · rintro ⟨u, huu⟩
    obtain ⟨x, hx, -⟩ := Relation.TransGen.head'_iff.mp huu
    exact absurd hx (by simp [Graph.Edge, Workflow.edges, webhookWorkflow])
  · intro n hn
    obtain rfl := mem_singleton.mp hn
    exact ⟨by decide, by simp [Node.requiredFields, nodeTypeWebhook, nodeTypeHTTPRequest,
      nodeTypeDatabase, nodeTypeEmail]⟩

end LinkFlow
