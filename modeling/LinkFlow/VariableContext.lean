/-
The variables of an execution (`pkg/contracts/workflow/variables.go`).

A variable can be defined in four scopes besides the node's own: global, environment, workflow and
execution. `GetVariable` looks for the first scope that has it, from the execution outwards;
`ExportVariables` copies the scopes over one another, from the global one inwards, and then puts a
mark in the place of every encrypted value. The two agree in every context (`exports_right`).

The contexts of a program are numbered in the order in which they were made. `Clone` copies every
map and keeps the environment, which no call here writes to; so the contexts have nothing in common
that could change. `InterpolateString` and `InterpolateObject` are left out.
-/
import LinkFlow.Lib.GoValue
import LinkFlow.Lib.Runs

set_option autoImplicit false

namespace LinkFlow

open List GoMap

/-- Only its variables are read. -/
structure Environment where
  vars : GoMap String GoValue := ∅

structure VariableContext where
  (globalVars workflowVars executionVars : GoMap String GoValue := ∅)
  nodeVars : GoMap String (GoMap String GoValue) := ∅
  environment : Option Environment := none
  (readOnly encrypted : GoMap String Bool := ∅)

namespace VariableContext

inductive Error
  | readOnly
  | notFound
deriving DecidableEq, Repr

def Error.text : Error → String
  | .readOnly => "variable is read-only"
  | .notFound => "variable not found"

/-! ## The calls -/

def guarded (vc : VariableContext) (key : String) (vc' : VariableContext) :
    Except Error VariableContext :=
  if vc.readOnly.get false key then .error .readOnly else .ok vc'

def setGlobalVariable (vc : VariableContext) (key : String) (value : GoValue) :
    Except Error VariableContext :=
  vc.guarded key { vc with globalVars := vc.globalVars.insert key value }

def setWorkflowVariable (vc : VariableContext) (key : String) (value : GoValue) :
    Except Error VariableContext :=
  vc.guarded key { vc with workflowVars := vc.workflowVars.insert key value }

def setExecutionVariable (vc : VariableContext) (key : String) (value : GoValue) :
    Except Error VariableContext :=
  vc.guarded key { vc with executionVars := vc.executionVars.insert key value }

def setNodeVariable (vc : VariableContext) (nodeID key : String) (value : GoValue) :
    Except Error VariableContext :=
  vc.guarded key
    { vc with nodeVars := vc.nodeVars.insert nodeID ((vc.nodeVars.get ∅ nodeID).insert key value) }

def setEnvironment (vc : VariableContext) (env : Option Environment) : VariableContext :=
  { vc with environment := env }

def markReadOnly (vc : VariableContext) (key : String) : VariableContext :=
  { vc with readOnly := vc.readOnly.insert key true }

def markEncrypted (vc : VariableContext) (key : String) : VariableContext :=
  { vc with encrypted := vc.encrypted.insert key true }

def isEncrypted (vc : VariableContext) (key : String) : Bool := vc.encrypted.get false key

def environmentVars (vc : VariableContext) : GoMap String GoValue :=
  match vc.environment with
  | some env => env.vars
  | none => ∅

/-- `getenv` are the variables of the process. -/
def getVariable (getenv : String → String) (vc : VariableContext) (key nodeID : String) :
    Except Error GoValue :=
  match (if nodeID = "" then none else (vc.nodeVars.lookup nodeID).bind (·.lookup key)) with
  | some value => .ok value
  | none =>
  match vc.executionVars.lookup key with
  | some value => .ok value
  | none =>
  match vc.workflowVars.lookup key with
  | some value => .ok value
  | none =>
  match vc.environmentVars.lookup key with
  | some value => .ok value
  | none =>
  match vc.globalVars.lookup key with
  | some value => .ok value
  | none => if getenv key = "" then .error .notFound else .ok (.string (getenv key))

def clone (ρ : RangeOrder) (vc : VariableContext) : VariableContext where
  globalVars := vc.globalVars.copyInto ρ 270 ∅
  workflowVars := vc.workflowVars.copyInto ρ 273 ∅
  executionVars := vc.executionVars.copyInto ρ 276 ∅
  nodeVars := (ρ.run 279 vc.nodeVars.entries).foldl
    (fun nodes e => nodes.insert e.1 (GoMap.copyInto ρ 281 e.2 ∅)) ∅
  readOnly := vc.readOnly.copyInto ρ 285 ∅
  encrypted := vc.encrypted.copyInto ρ 288 ∅
  environment := vc.environment

def merged (ρ : RangeOrder) (vc : VariableContext) : GoMap String GoValue :=
  vc.executionVars.copyInto ρ 316 (vc.workflowVars.copyInto ρ 313
    (vc.environmentVars.copyInto ρ 307 (vc.globalVars.copyInto ρ 302 ∅)))

def exportVariables (ρ : RangeOrder) (vc : VariableContext) : GoMap String GoValue :=
  ((vc.merged ρ).rangeKeys ρ 321).foldl (fun result key =>
    if vc.isEncrypted key then result.insert key (.string "***ENCRYPTED***") else result)
    (vc.merged ρ)

/-! ## Programs -/

/-- A call on one of the contexts; a clone is the next one. -/
inductive Call
  | newVariableContext
  | setGlobalVariable (c : ℕ) (key : String) (value : GoValue)
  | setWorkflowVariable (c : ℕ) (key : String) (value : GoValue)
  | setExecutionVariable (c : ℕ) (key : String) (value : GoValue)
  | setNodeVariable (c : ℕ) (nodeID key : String) (value : GoValue)
  | setEnvironment (c : ℕ) (env : Option Environment)
  | markReadOnly (c : ℕ) (key : String)
  | markEncrypted (c : ℕ) (key : String)
  | clone (c : ℕ) (ρ : RangeOrder)

def orSame (vc : VariableContext) : Except Error VariableContext → VariableContext
  | .ok vc' => vc'
  | .error _ => vc

def step (w : List VariableContext) : Call → List VariableContext
  | .newVariableContext => w ++ [{}]
  | .setGlobalVariable c key value =>
    w.modify c (fun vc => vc.orSame (vc.setGlobalVariable key value))
  | .setWorkflowVariable c key value =>
    w.modify c (fun vc => vc.orSame (vc.setWorkflowVariable key value))
  | .setExecutionVariable c key value =>
    w.modify c (fun vc => vc.orSame (vc.setExecutionVariable key value))
  | .setNodeVariable c nodeID key value =>
    w.modify c (fun vc => vc.orSame (vc.setNodeVariable nodeID key value))
  | .setEnvironment c env => w.modify c (fun vc => vc.setEnvironment env)
  | .markReadOnly c key => w.modify c (fun vc => vc.markReadOnly key)
  | .markEncrypted c key => w.modify c (fun vc => vc.markEncrypted key)
  | .clone c ρ => w ++ (w[c]?.map (clone ρ)).toList

/-! ## What an export has -/

def resolve (vc : VariableContext) (key : String) : Option GoValue :=
  (vc.executionVars.lookup key).or ((vc.workflowVars.lookup key).or
    ((vc.environmentVars.lookup key).or (vc.globalVars.lookup key)))

theorem lookup_merged (ρ : RangeOrder) (vc : VariableContext) (key : String) :
    (vc.merged ρ).lookup key = vc.resolve key := by
  simp only [merged, resolve, lookup_copyInto, AList.lookup_empty, Option.or_none]

theorem getVariable_eq (getenv : String → String) (vc : VariableContext) (key : String) :
    vc.getVariable getenv key "" = match vc.resolve key with
      | some value => .ok value
      | none => if getenv key = "" then .error .notFound else .ok (.string (getenv key)) := by
  unfold getVariable resolve
  rw [if_pos rfl]
  cases vc.executionVars.lookup key with
  | some value => rfl
  | none =>
  cases vc.workflowVars.lookup key with
  | some value => rfl
  | none =>
  cases vc.environmentVars.lookup key with
  | some value => rfl
  | none =>
  cases vc.globalVars.lookup key with
  | some value => rfl
  | none => rfl

theorem lookup_foldl_mark (marked : String → Bool) (mark : GoValue) (keys : List String)
    (result : GoMap String GoValue) (key : String) :
    (keys.foldl (fun result key => if marked key then result.insert key mark else result)
        result).lookup key =
      if key ∈ keys ∧ marked key = true then some mark else result.lookup key := by
  induction keys generalizing result with
  | nil => simp
  | cons k keys ih =>
    rw [foldl_cons, ih]
    by_cases hrest : key ∈ keys ∧ marked key = true
    · rw [if_pos hrest, if_pos ⟨.tail k hrest.1, hrest.2⟩]
    rw [if_neg hrest]
    by_cases hk : key = k
    · subst hk
      cases hm : marked key with
      | true => rw [if_pos rfl, if_pos ⟨mem_cons_self, rfl⟩, lookup_insert, if_pos rfl]
      | false => rw [if_neg (by simp), if_neg (by simp)]
    · have hnot : ¬ (key ∈ k :: keys ∧ marked key = true) :=
        fun h => hrest ⟨(mem_cons.mp h.1).resolve_left hk, h.2⟩
      rw [if_neg hnot]
      split
      · rw [lookup_insert, if_neg hk]
      · rfl

theorem lookup_exportVariables (ρ : RangeOrder) (vc : VariableContext) (key : String) :
    (vc.exportVariables ρ).lookup key = (vc.resolve key).map
      (fun value => if vc.isEncrypted key then .string "***ENCRYPTED***" else value) := by
  rw [exportVariables, lookup_foldl_mark]
  simp only [mem_rangeKeys, ← AList.lookup_isSome, lookup_merged]
  cases vc.resolve key with
  | none => simp
  | some value => cases vc.isEncrypted key <;> simp

/-! ## Two contexts -/

/-- Two scopes have the same variables, and the same values outside `S`. -/
def AgreeOn (S : String → Prop) (m m' : GoMap String GoValue) : Prop :=
  ∀ key, (m.lookup key).isSome = (m'.lookup key).isSome ∧
    (¬ S key → m.lookup key = m'.lookup key)

/-- Two contexts have the same marks, and their scopes differ only in values under `S`. -/
structure Alike (S : String → Prop) (vc vc' : VariableContext) : Prop where
  globalVars : AgreeOn S vc.globalVars vc'.globalVars
  environment : AgreeOn S vc.environmentVars vc'.environmentVars
  workflowVars : AgreeOn S vc.workflowVars vc'.workflowVars
  executionVars : AgreeOn S vc.executionVars vc'.executionVars
  readOnly : ∀ key, vc.readOnly.lookup key = vc'.readOnly.lookup key
  encrypted : ∀ key, vc.encrypted.lookup key = vc'.encrypted.lookup key

section Two

variable {S T : String → Prop} {vc vc' : VariableContext}

theorem AgreeOn.mono {m m' : GoMap String GoValue} (h : AgreeOn S m m')
    (hST : ∀ key, S key → T key) : AgreeOn T m m' :=
  fun key => ⟨(h key).1, fun hT => (h key).2 (fun hS => hT (hST key hS))⟩

theorem Alike.mono (h : Alike S vc vc') (hST : ∀ key, S key → T key) : Alike T vc vc' where
  globalVars := h.globalVars.mono hST
  environment := h.environment.mono hST
  workflowVars := h.workflowVars.mono hST
  executionVars := h.executionVars.mono hST
  readOnly := h.readOnly
  encrypted := h.encrypted

theorem Alike.resolve (h : Alike S vc vc') (key : String) :
    (vc.resolve key).isSome = (vc'.resolve key).isSome ∧
      (¬ S key → vc.resolve key = vc'.resolve key) := by
  constructor
  · simp only [VariableContext.resolve, Option.isSome_or, (h.globalVars key).1,
      (h.environment key).1, (h.workflowVars key).1, (h.executionVars key).1]
  intro hS
  rw [VariableContext.resolve, (h.globalVars key).2 hS, (h.environment key).2 hS,
    (h.workflowVars key).2 hS, (h.executionVars key).2 hS]
  rfl

theorem Alike.exportVariables (h : Alike (fun key => vc.isEncrypted key = true) vc vc')
    (ρ ρ' : RangeOrder) (key : String) :
    (vc.exportVariables ρ).lookup key = (vc'.exportVariables ρ').lookup key := by
  have hencrypted : vc.isEncrypted key = vc'.isEncrypted key := by
    rw [isEncrypted, isEncrypted, GoMap.get, GoMap.get, h.encrypted]
  obtain ⟨hsome, hvalue⟩ := h.resolve key
  rw [lookup_exportVariables, lookup_exportVariables, ← hencrypted]
  cases hkey : vc.isEncrypted key with
  | false => rw [hvalue (by rw [hkey]; exact Bool.false_ne_true)]
  | true =>
    cases hv : vc.resolve key <;> cases hv' : vc'.resolve key
    · rfl
    · simp [hv, hv'] at hsome
    · simp [hv, hv'] at hsome
    · rfl

end Two

/-! ## Every context of a program -/

def Defines (vc : VariableContext) (key : String) : Prop :=
  key ∈ vc.globalVars ∨ key ∈ vc.environmentVars ∨ key ∈ vc.workflowVars ∨ key ∈ vc.executionVars

theorem isSome_resolve (vc : VariableContext) (key : String) :
    (vc.resolve key).isSome = true ↔ vc.Defines key := by
  simp only [resolve, Option.isSome_or, Bool.or_eq_true, AList.lookup_isSome, Defines]
  tauto

/-- The exports of a context are right: their keys, their values and what they tell. -/
structure ExportsRight (getenv : String → String) (vc : VariableContext) : Prop where
  keys : ∀ ρ key, key ∈ vc.exportVariables ρ ↔ vc.Defines key
  values : ∀ ρ key, key ∈ vc.exportVariables ρ → vc.isEncrypted key = false →
    vc.getVariable getenv key "" = .ok ((vc.exportVariables ρ).get .nil key)
  secret : ∀ vc', Alike (fun key => vc.isEncrypted key = true) vc vc' → ∀ ρ ρ' key,
    (vc.exportVariables ρ).lookup key = (vc'.exportVariables ρ').lookup key

theorem exportsRight (getenv : String → String) (vc : VariableContext) :
    vc.ExportsRight getenv where
  keys := by
    intro ρ key
    rw [← AList.lookup_isSome, lookup_exportVariables, Option.isSome_map, isSome_resolve]
  values := by
    intro ρ key hkey hencrypted
    rw [← AList.lookup_isSome, lookup_exportVariables, Option.isSome_map] at hkey
    obtain ⟨value, hvalue⟩ := Option.isSome_iff_exists.mp hkey
    rw [getVariable_eq, hvalue, GoMap.get, lookup_exportVariables, hvalue, hencrypted]
    rfl
  secret := fun vc' h => h.exportVariables

/-- **Exports.** In every context that a program reaches, `ExportVariables` has exactly the
variables of the four scopes, gives each unencrypted one the value of `GetVariable` without a node,
and is the same for two contexts that differ only in encrypted values. -/
theorem exports_right (getenv : String → String) (calls : List Call) :
    Runs.Always step (fun w => ∀ vc ∈ w, vc.ExportsRight getenv) [] calls :=
  fun _ _ vc _ => exportsRight getenv vc

/-! ## Two programs

Two programs that set different values under some variables, and are the same otherwise, export
the same once these variables are encrypted. -/

/-- The same call but for a value under `S`. -/
inductive Call.Like (S : String → Prop) : Call → Call → Prop
  | newVariableContext : Like S .newVariableContext .newVariableContext
  | setGlobalVariable {c : ℕ} {key : String} {v v' : GoValue} (h : ¬ S key → v = v') :
      Like S (.setGlobalVariable c key v) (.setGlobalVariable c key v')
  | setWorkflowVariable {c : ℕ} {key : String} {v v' : GoValue} (h : ¬ S key → v = v') :
      Like S (.setWorkflowVariable c key v) (.setWorkflowVariable c key v')
  | setExecutionVariable {c : ℕ} {key : String} {v v' : GoValue} (h : ¬ S key → v = v') :
      Like S (.setExecutionVariable c key v) (.setExecutionVariable c key v')
  | setNodeVariable {c : ℕ} {nodeID key : String} (v v' : GoValue) :
      Like S (.setNodeVariable c nodeID key v) (.setNodeVariable c nodeID key v')
  | setEnvironment {c : ℕ} {env env' : Option Environment}
      (h : AgreeOn S (environmentVars { environment := env })
        (environmentVars { environment := env' })) :
      Like S (.setEnvironment c env) (.setEnvironment c env')
  | markReadOnly (c : ℕ) (key : String) : Like S (.markReadOnly c key) (.markReadOnly c key)
  | markEncrypted (c : ℕ) (key : String) : Like S (.markEncrypted c key) (.markEncrypted c key)
  | clone (c : ℕ) (ρ : RangeOrder) : Like S (.clone c ρ) (.clone c ρ)

section Programs

variable {S : String → Prop} {vc vc' : VariableContext} {w w' : List VariableContext}

theorem AgreeOn.insert {m m' : GoMap String GoValue} (h : AgreeOn S m m') {key : String}
    {v v' : GoValue} (hv : ¬ S key → v = v') : AgreeOn S (m.insert key v) (m'.insert key v') := by
  intro k
  rw [lookup_insert, lookup_insert]
  by_cases hk : k = key
  · subst hk
    rw [if_pos rfl, if_pos rfl]
    exact ⟨rfl, fun hS => congrArg some (hv hS)⟩
  · rw [if_neg hk, if_neg hk]
    exact h k

theorem AgreeOn.copy {m m' : GoMap String GoValue} (h : AgreeOn S m m') (ρ : RangeOrder)
    (line : ℕ) : AgreeOn S (m.copyInto ρ line ∅) (m'.copyInto ρ line ∅) := by
  intro key
  simp only [lookup_copyInto, AList.lookup_empty, Option.or_none]
  exact h key

namespace Alike

theorem guarded (h : Alike S vc vc') (key : String) {vc₁ vc₁' : VariableContext}
    (h₁ : Alike S vc₁ vc₁') :
    Alike S (vc.orSame (vc.guarded key vc₁)) (vc'.orSame (vc'.guarded key vc₁')) := by
  have hreadOnly : vc.readOnly.get false key = vc'.readOnly.get false key := by
    rw [GoMap.get, GoMap.get, h.readOnly]
  unfold VariableContext.guarded
  rw [← hreadOnly]
  split
  · exact h
  · exact h₁

theorem markReadOnly (h : Alike S vc vc') (key : String) :
    Alike S (vc.markReadOnly key) (vc'.markReadOnly key) := by
  refine { h with readOnly := fun k => ?_ }
  simp only [VariableContext.markReadOnly, lookup_insert, h.readOnly]

theorem markEncrypted (h : Alike S vc vc') (key : String) :
    Alike S (vc.markEncrypted key) (vc'.markEncrypted key) := by
  refine { h with encrypted := fun k => ?_ }
  simp only [VariableContext.markEncrypted, lookup_insert, h.encrypted]

theorem clone (h : Alike S vc vc') (ρ : RangeOrder) : Alike S (vc.clone ρ) (vc'.clone ρ) where
  globalVars := h.globalVars.copy ρ 270
  environment := h.environment
  workflowVars := h.workflowVars.copy ρ 273
  executionVars := h.executionVars.copy ρ 276
  readOnly := by
    intro key
    simp only [VariableContext.clone, lookup_copyInto, h.readOnly]
  encrypted := by
    intro key
    simp only [VariableContext.clone, lookup_copyInto, h.encrypted]

end Alike

abbrev AllAlike (S : String → Prop) : List VariableContext → List VariableContext → Prop :=
  List.Forall₂ (Alike S)

theorem AllAlike.modify (h : AllAlike S w w') {f f' : VariableContext → VariableContext}
    (hf : ∀ vc vc', Alike S vc vc' → Alike S (f vc) (f' vc')) (c : ℕ) :
    AllAlike S (w.modify c f) (w'.modify c f') := by
  induction h generalizing c with
  | nil => rw [modify_nil, modify_nil]; exact .nil
  | cons hvc hrest ih =>
    cases c with
    | zero => exact .cons (hf _ _ hvc) hrest
    | succ c => exact .cons hvc (ih c)

theorem AllAlike.clone (h : AllAlike S w w') (ρ : RangeOrder) (c : ℕ) :
    AllAlike S (w[c]?.map (VariableContext.clone ρ)).toList
      (w'[c]?.map (VariableContext.clone ρ)).toList := by
  induction h generalizing c with
  | nil => exact .nil
  | cons hvc _ ih =>
    cases c with
    | zero => exact .cons (hvc.clone ρ) .nil
    | succ c => exact ih c

/-- Calls that differ in secrets only keep the contexts alike. -/
theorem AllAlike.step (h : AllAlike S w w') {a a' : Call} (ha : Call.Like S a a') :
    AllAlike S (VariableContext.step w a) (VariableContext.step w' a') := by
  have hset : ∀ c key (f f' : VariableContext → VariableContext),
      (∀ vc vc', Alike S vc vc' → Alike S (f vc) (f' vc')) →
        AllAlike S (w.modify c (fun vc => vc.orSame (vc.guarded key (f vc))))
          (w'.modify c (fun vc => vc.orSame (vc.guarded key (f' vc)))) :=
    fun c key f f' hf => h.modify (fun vc vc' hvc => hvc.guarded key (hf vc vc' hvc)) c
  cases ha with
  | newVariableContext =>
    have hsame (m : GoMap String GoValue) : AgreeOn S m m := fun _ => ⟨rfl, fun _ => rfl⟩
    exact rel_append h
      (.cons ⟨hsame _, hsame _, hsame _, hsame _, fun _ => rfl, fun _ => rfl⟩ .nil)
  | setGlobalVariable hv =>
    exact hset _ _ _ _ (fun _ _ hvc => { hvc with globalVars := hvc.globalVars.insert hv })
  | setWorkflowVariable hv =>
    exact hset _ _ _ _ (fun _ _ hvc => { hvc with workflowVars := hvc.workflowVars.insert hv })
  | setExecutionVariable hv =>
    exact hset _ _ _ _ (fun _ _ hvc => { hvc with executionVars := hvc.executionVars.insert hv })
  | setNodeVariable v v' => exact hset _ _ _ _ (fun _ _ hvc => { hvc with })
  | setEnvironment henv =>
    refine h.modify (fun _ _ hvc => ?_) _
    exact { hvc with environment := henv }
  | markReadOnly c key => exact h.modify (fun _ _ hvc => hvc.markReadOnly key) c
  | markEncrypted c key => exact h.modify (fun _ _ hvc => hvc.markEncrypted key) c
  | clone c ρ => exact rel_append h (h.clone ρ c)

/-- **Secrets.** Two programs that differ only in values under `S` export the same from every
context in which all of `S` is marked as encrypted. -/
theorem exports_secret {calls calls' : List Call}
    (hcalls : List.Forall₂ (Call.Like S) calls calls') {c : ℕ}
    (hvc : (calls.foldl VariableContext.step [])[c]? = some vc)
    (hS : ∀ key, S key → vc.isEncrypted key = true) :
    ∃ vc', (calls'.foldl VariableContext.step [])[c]? = some vc' ∧ ∀ ρ ρ' key,
      (vc.exportVariables ρ).lookup key = (vc'.exportVariables ρ').lookup key := by
  have halike := rel_foldl (P := AllAlike S) (R := Call.Like S) (fun _ _ h _ _ ha => h.step ha)
    .nil hcalls
  obtain ⟨hlength, hget⟩ := List.forall₂_iff_get.mp halike
  obtain ⟨hc, rfl⟩ := List.getElem?_eq_some_iff.mp hvc
  refine ⟨_, List.getElem?_eq_getElem (hlength ▸ hc), ?_⟩
  exact ((hget c hc (hlength ▸ hc)).mono hS).exportVariables

/-- A program that sets a secret. -/
def secretSet (value : GoValue) : List Call :=
  [.newVariableContext, .setGlobalVariable 0 "key" value, .markEncrypted 0 "key"]

theorem exports_secret_key :
    ∃ vc vc', ((secretSet (.string "a")).foldl VariableContext.step [])[0]? = some vc ∧
      ((secretSet (.string "b")).foldl VariableContext.step [])[0]? = some vc' ∧
      ∀ ρ ρ' key, (vc.exportVariables ρ).lookup key = (vc'.exportVariables ρ').lookup key := by
  have hlike : Forall₂ (Call.Like (· = "key")) (secretSet (.string "a"))
      (secretSet (.string "b")) :=
    .cons .newVariableContext (.cons (.setGlobalVariable (absurd rfl))
      (.cons (.markEncrypted 0 "key") .nil))
  obtain ⟨vc', hvc'⟩ := exports_secret hlike (c := 0) rfl (by rintro key rfl; rfl)
  exact ⟨_, vc', rfl, hvc'⟩

end Programs

end VariableContext

end LinkFlow
