/-
The execution logger (`execution/app/logging/logger.go`): `Log`, `GetLogs` and the clean-up of
its memory.

An entry is kept twice, in memory and in a Redis list, each cut to the last
`maxLogsPerExecution` entries of its execution. The list in Redis is the log (`Kept.stored`). The
one in memory is only the end of it that has been logged since the execution was last dropped
from memory (`Kept.memory`), unless a `GetLogs` has loaded it before. And the `GetLogs` that loads
it declares a second `logs` for what it has loaded, and answers with the first one, which is nil.
So every answer is the log exactly if nothing is ever dropped from memory (`getLogs_right_iff`).

A call takes one step. Redis does not lose a list here: its time to live is left out. The values
in an entry's `Data` are their JSON texts, and a nil `Data` is an empty one.
-/
import LinkFlow.Lib.Codec
import LinkFlow.Lib.GoMap
import LinkFlow.Lib.Runs

set_option autoImplicit false

namespace LinkFlow.Logging

open List Option GoMap

/-! ## Entries and filters -/

inductive LogLevel
  | debug | info | warning | error | fatal
deriving DecidableEq, Repr

/-- The zero `time.Time`, in nanoseconds of the Unix clock. -/
def zeroTime : ℤ := -62135596800000000000

structure ExecutionLog where
  id : String := ""
  executionID : String
  nodeID : String := ""
  level : LogLevel
  message : String
  data : GoMap String String := ∅
  timestamp : ℤ := zeroTime
  (source workflowID userID traceID spanID : String := "")
deriving DecidableEq

/-- An empty `Level` is `none`. -/
structure LogFilter where
  level : Option LogLevel := none
  nodeID : String := ""
  (startTime endTime : ℤ := zeroTime)
  search : String := ""
  limit : ℤ := 0
deriving DecidableEq, Repr

def contains : List Char → List Char → Bool
  | [], substr => substr.length = 0
  | c :: s, substr =>
    substr.length ≤ s.length + 1 &&
      (c :: s = substr || substr.length = 0 || (c :: s).take substr.length = substr ||
        contains s substr)

/-- The entry passes all the checks of `applyFilter`. -/
def LogFilter.passes (filter : LogFilter) (log : ExecutionLog) : Bool :=
  filter.level.all (fun level => log.level = level) &&
    (filter.nodeID = "" || log.nodeID = filter.nodeID) &&
    (filter.startTime = zeroTime || !decide (log.timestamp < filter.startTime)) &&
    (filter.endTime = zeroTime || !decide (filter.endTime < log.timestamp)) &&
    (filter.search = "" || contains log.message.toList filter.search.toList)

def applyFilter (logs : List ExecutionLog) (filter : LogFilter) : List ExecutionLog :=
  let filtered := logs.filter filter.passes
  if 0 < filter.limit ∧ filter.limit < filtered.length then filtered.rtake filter.limit.toNat
  else filtered

@[simp] theorem applyFilter_empty (logs : List ExecutionLog) : applyFilter logs {} = logs := by
  simp [applyFilter, LogFilter.passes]

/-! ## The logger -/

/-- `maxLogsPerExecution`, as `NewExecutionLogger` sets it -/
def maxLogsPerExecution : ℕ := 10000

/-- How long `cleanupOldLogs` leaves an execution in memory after its last entry. -/
def day : ℤ := 24 * 3600 * 1000000000

/-- The logger's memory, and the lists of encoded entries in Redis. -/
structure ExecutionLogger (D : Type) where
  logs : GoMap String (List ExecutionLog) := ∅
  redis : GoMap String (List D) := ∅

def logsKey (executionID : String) : String := "logs:execution:" ++ executionID

theorem logsKey_inj {e e' : String} : logsKey e = logsKey e' ↔ e = e' := by
  simp [logsKey]

/-- The entry with the ID and the timestamp `Log` gives it. -/
def ExecutionLog.filled (nanos now : ℤ) (log : ExecutionLog) : ExecutionLog :=
  { log with
    id := if log.id = "" then "log_" ++ toString nanos else log.id
    timestamp := if log.timestamp = zeroTime then now else log.timestamp }

/-- One more entry on an execution's list in memory; a full list loses its oldest one. -/
def push (logs : List ExecutionLog) (log : ExecutionLog) : List ExecutionLog :=
  (if maxLogsPerExecution ≤ logs.length then logs.drop 1 else logs) ++ [log]

/-- `log.Timestamp` of the last entry is more than a day ago. -/
def outdated (now : ℤ) (logs : List ExecutionLog) : Bool :=
  logs.getLast?.any (fun log => day < now - log.timestamp)

namespace ExecutionLogger

variable {D : Type} (json : Codec ExecutionLog D)

/-- The command fails while Redis is not `up`. -/
def persistLog (up : Bool) (log : ExecutionLog) (redis : GoMap String (List D)) :
    GoMap String (List D) :=
  match json.encode log with
  | none => redis
  | some data =>
    if !up then redis
    else
      let key := logsKey log.executionID
      redis.insert key ((redis.get [] key ++ [data]).rtake maxLogsPerExecution)

/-- An item that is no entry is skipped. -/
def loadLogsFromRedis (up : Bool) (executionID : String) (redis : GoMap String (List D)) :
    Except String (List ExecutionLog) :=
  if !up then .error "redis: connection refused"
  else .ok ((redis.get [] (logsKey executionID)).filterMap json.decode)

/-- `Log`, up to the streaming and the event -/
def log (up : Bool) (nanos now : ℤ) (entry : ExecutionLog) (el : ExecutionLogger D) :
    ExecutionLogger D :=
  let entry := entry.filled nanos now
  { logs := el.logs.insert entry.executionID (push (el.logs.get [] entry.executionID) entry),
    redis := persistLog json up entry el.redis }

/-- What is loaded from Redis is stored, and not answered. -/
def getLogs (up : Bool) (executionID : String) (filter : LogFilter) (el : ExecutionLogger D) :
    Except String (List ExecutionLog) × ExecutionLogger D :=
  match el.logs.lookup executionID with
  | some logs => (.ok (applyFilter logs filter), el)
  | none =>
    match loadLogsFromRedis json up executionID el.redis with
    | .error err => (.error err, el)
    | .ok loaded =>
      (.ok (applyFilter [] filter), { el with logs := el.logs.insert executionID loaded })

/-- One pass of `cleanupOldLogs` -/
def cleanupOldLogs (now : ℤ) (el : ExecutionLogger D) : ExecutionLogger D :=
  { el with logs := el.logs.deleteWhere (outdated now) }

def restart (el : ExecutionLogger D) : ExecutionLogger D := { redis := el.redis }

end ExecutionLogger

/-! ## Runs -/

/-- What happens to a logger while Redis is available. -/
inductive Call
  | log (nanos now : ℤ) (entry : ExecutionLog)
  | getLogs (executionID : String) (filter : LogFilter)
  | cleanup (now : ℤ)
  | restart
deriving DecidableEq

/-- A logger with everything that was logged, as `Log` filled it in. -/
structure History (D : Type) where
  el : ExecutionLogger D := {}
  logged : List ExecutionLog := []

namespace History

variable {D : Type} (json : Codec ExecutionLog D)

def step (h : History D) : Call → History D
  | .log nanos now entry =>
    { el := h.el.log json true nanos now entry, logged := h.logged ++ [entry.filled nanos now] }
  | .getLogs executionID filter => { h with el := (h.el.getLogs json true executionID filter).2 }
  | .cleanup now => { h with el := h.el.cleanupOldLogs now }
  | .restart => { h with el := h.el.restart }

def of (h : History D) (executionID : String) : List ExecutionLog :=
  h.logged.filter (fun log => log.executionID = executionID)

/-- `GetLogs` with an empty filter answers with the last entries of any execution. -/
def Right (h : History D) : Prop :=
  ∀ executionID, (h.el.getLogs json true executionID {}).1 =
    .ok ((h.of executionID).rtake maxLogsPerExecution)

/-- The call drops no entry from memory: a clean-up finds every last entry less than a day old, and
a restart comes first. -/
def Keeps (h : History D) : Call → Prop
  | .cleanup now => ∀ executionID, outdated now (h.of executionID) = false
  | .restart => h.logged = []
  | .log _ _ _ | .getLogs _ _ => True

/-! ## What the two copies hold -/

section Lists

variable {α β : Type}

theorem map_rtake (f : α → β) (l : List α) (n : ℕ) : (l.rtake n).map f = (l.map f).rtake n := by
  simp [rtake, map_drop]

theorem rtake_rtake_concat {n : ℕ} (hn : 0 < n) (l : List α) (x : α) :
    (l.rtake n ++ [x]).rtake n = (l ++ [x]).rtake n := by
  obtain ⟨m, rfl⟩ := Nat.exists_eq_succ_of_ne_zero hn.ne'
  rw [rtake_concat_succ, rtake_concat_succ, rtake_eq_reverse_take_reverse,
    rtake_eq_reverse_take_reverse, rtake_eq_reverse_take_reverse, reverse_reverse,
    take_take, Nat.min_eq_left (Nat.le_succ m)]

end Lists

/-- The list in Redis is the log, and the one in memory is an end of it. -/
structure Kept (h : History D) : Prop where
  memory : ∀ id l, h.el.logs.lookup id = some l → l <:+ h.of id ∧ l.length ≤ maxLogsPerExecution
  stored : ∀ id, (h.el.redis.get [] (logsKey id)).map json.decode =
    ((h.of id).rtake maxLogsPerExecution).map some

variable {json} {h : History D}

theorem of_log (id : String) (entry : ExecutionLog) (el : ExecutionLogger D) :
    of ⟨el, h.logged ++ [entry]⟩ id =
      if entry.executionID = id then h.of id ++ [entry] else h.of id := by
  unfold of
  rw [filter_append]
  split_ifs with hid
  · simp [hid]
  · simp [hid]

theorem push_suffix {l full : List ExecutionLog} (hl : l <:+ full) (log : ExecutionLog) :
    push l log <:+ full ++ [log] := by
  have hconcat : ∀ {l'}, l' <:+ full → l' ++ [log] <:+ full ++ [log] := by
    rintro l' ⟨t, rfl⟩
    exact ⟨t, by rw [append_assoc]⟩
  unfold push
  split_ifs
  · exact hconcat ((drop_suffix 1 l).trans hl)
  · exact hconcat hl

theorem length_push (l : List ExecutionLog) (log : ExecutionLog)
    (hl : l.length ≤ maxLogsPerExecution) :
    (push l log).length = min (l.length + 1) maxLogsPerExecution := by
  unfold push
  have hpos : 0 < maxLogsPerExecution := by decide
  split_ifs
  · simp only [length_append, length_drop, length_singleton]
    omega
  · simp only [length_append, length_singleton]
    omega

theorem Kept.start : Kept json ({} : History D) where
  memory := by simp
  stored := by simp [of]

theorem Kept.memory_get (hk : Kept json h) (id : String) :
    h.el.logs.get [] id <:+ h.of id ∧ (h.el.logs.get [] id).length ≤ maxLogsPerExecution := by
  unfold GoMap.get
  cases hl : h.el.logs.lookup id with
  | none => exact ⟨nil_suffix, Nat.zero_le _⟩
  | some l => exact hk.memory id l hl

theorem Kept.loaded (hk : Kept json h) (id : String) :
    ExecutionLogger.loadLogsFromRedis json true id h.el.redis =
      .ok ((h.of id).rtake maxLogsPerExecution) := by
  have hmap := congrArg (filterMap (fun o => o)) (hk.stored id)
  rw [filterMap_map, filterMap_map] at hmap
  simpa [ExecutionLogger.loadLogsFromRedis, Function.comp_def] using hmap

theorem Kept.log (hk : Kept json h) (hjson : ∀ entry, (json.encode entry).isSome) (nanos now : ℤ)
    (entry : ExecutionLog) : Kept json (h.step json (.log nanos now entry)) where
  memory := by
    intro id l hl
    simp only [step, ExecutionLogger.log, lookup_insert] at hl ⊢
    rw [of_log]
    split_ifs at hl with hid
    · rw [if_pos hid.symm, ← some.inj hl, hid]
      obtain ⟨hsuffix, hlength⟩ := hk.memory_get (entry.filled nanos now).executionID
      exact ⟨push_suffix hsuffix _, by rw [length_push _ _ hlength]; exact Nat.min_le_right _ _⟩
    · rw [if_neg (Ne.symm hid)]
      exact hk.memory id l hl
  stored := by
    intro id
    obtain ⟨data, hdata⟩ := isSome_iff_exists.mp (hjson (entry.filled nanos now))
    have hdecode := json.decode_encode _ _ hdata
    simp only [step, ExecutionLogger.log, ExecutionLogger.persistLog, hdata, Bool.not_true,
      Bool.false_eq_true, if_false, get_insert, logsKey_inj]
    rw [of_log]
    by_cases hid : (entry.filled nanos now).executionID = id
    · rw [if_pos hid, if_pos hid.symm, hid, map_rtake, map_append, hk.stored,
        map_singleton, hdecode, ← map_singleton, ← map_append, ← map_rtake,
        rtake_rtake_concat (by decide)]
    · rw [if_neg hid, if_neg (Ne.symm hid)]
      exact hk.stored id

theorem Kept.getLogs (hk : Kept json h) (id : String) (filter : LogFilter) :
    Kept json (h.step json (.getLogs id filter)) := by
  simp only [step, ExecutionLogger.getLogs]
  cases hl : h.el.logs.lookup id with
  | some l => exact hk
  | none =>
    simp only [hk.loaded id]
    refine ⟨forall_insert hk.memory ?_, hk.stored⟩
    refine ⟨drop_suffix _ _, ?_⟩
    rw [rtake, length_drop]
    omega

theorem Kept.cleanup (hk : Kept json h) (now : ℤ) : Kept json (h.step json (.cleanup now)) where
  memory := by
    intro id l hl
    simp only [step, ExecutionLogger.cleanupOldLogs, lookup_deleteWhere] at hl
    exact hk.memory id l (filter_eq_some_iff.mp hl).1
  stored := hk.stored

theorem Kept.restart (hk : Kept json h) : Kept json (h.step json .restart) where
  memory := by simp [step, ExecutionLogger.restart]
  stored := hk.stored

/-- Memory holds an end of each history, and Redis the end that is kept. -/
theorem Kept.step (hk : Kept json h) (hjson : ∀ entry, (json.encode entry).isSome) (c : Call) :
    Kept json (h.step json c) := by
  cases c with
  | log nanos now entry => exact hk.log hjson nanos now entry
  | getLogs id filter => exact hk.getLogs id filter
  | cleanup now => exact hk.cleanup now
  | restart => exact hk.restart

/-! ## What is answered -/

def Whole (h : History D) (executionID : String) : Prop :=
  (h.el.logs.get [] executionID).length = min (h.of executionID).length maxLogsPerExecution

theorem getLogs_eq (hk : Kept json h) (id : String) :
    (h.el.getLogs json true id {}).1 = .ok (h.el.logs.get [] id) := by
  unfold ExecutionLogger.getLogs GoMap.get
  cases h.el.logs.lookup id with
  | none => simp only [hk.loaded id, applyFilter_empty, getD_none]
  | some l => simp only [applyFilter_empty, getD_some]

theorem length_rtake (l : List ExecutionLog) (n : ℕ) : (l.rtake n).length = min l.length n := by
  rw [rtake, length_drop]
  omega

theorem Kept.get_eq_iff_whole (hk : Kept json h) (id : String) :
    h.el.logs.get [] id = (h.of id).rtake maxLogsPerExecution ↔ h.Whole id := by
  rw [Whole, ← length_rtake]
  constructor
  · exact congrArg length
  · intro heq
    have hsuffix : (h.of id).rtake maxLogsPerExecution <:+ h.of id := drop_suffix _ _
    exact (suffix_of_suffix_length_le (hk.memory_get id).1 hsuffix heq.le).eq_of_length heq

/-- Logs are returned rightly exactly if memory holds as much as it may. -/
theorem Kept.right_iff (hk : Kept json h) : Right json h ↔ ∀ id, h.Whole id := by
  refine forall_congr' (fun id => ?_)
  rw [getLogs_eq hk, Except.ok.injEq, hk.get_eq_iff_whole]

theorem Kept.outdated_eq (hk : Kept json h) {id : String} (hw : h.Whole id) (now : ℤ) :
    outdated now (h.el.logs.get [] id) = outdated now (h.of id) := by
  have hpos : 0 < maxLogsPerExecution := by decide
  rw [(hk.get_eq_iff_whole id).mpr hw, outdated, outdated, rtake, getLast?_drop]
  split_ifs with hlength
  · have hnil : h.of id = [] := length_eq_zero_iff.mp (by omega)
    rw [hnil]
    rfl
  · rfl

theorem whole_log (hk : Kept json h) (hw : ∀ id, h.Whole id) (nanos now : ℤ)
    (entry : ExecutionLog) (id : String) : (h.step json (.log nanos now entry)).Whole id := by
  have hold := hw id
  have hbound := (hk.memory_get (entry.filled nanos now).executionID).2
  simp only [Whole, step, ExecutionLogger.log, get_insert] at hold ⊢
  rw [of_log]
  by_cases hid : (entry.filled nanos now).executionID = id
  · subst hid
    rw [if_pos rfl, if_pos rfl, length_push _ _ hbound, hold, length_append, length_singleton]
    omega
  · rw [if_neg hid, if_neg (Ne.symm hid)]
    exact hold

theorem whole_getLogs (hk : Kept json h) (hw : ∀ id, h.Whole id) (executionID : String)
    (filter : LogFilter) (id : String) : (h.step json (.getLogs executionID filter)).Whole id := by
  simp only [step, ExecutionLogger.getLogs]
  cases hl : h.el.logs.lookup executionID with
  | some l => exact hw id
  | none =>
    have hold := hw id
    simp only [hk.loaded executionID, Whole, get_insert] at hold ⊢
    split_ifs with hid
    · rw [hid, length_rtake]
      rfl
    · exact hold

theorem whole_of_dropped {id : String} {el : ExecutionLogger D}
    (hdrop : el.logs.lookup id = none) : Whole ⟨el, h.logged⟩ id ↔ h.of id = [] := by
  have hpos : 0 < maxLogsPerExecution := by decide
  simp only [Whole, GoMap.get, hdrop, Option.getD_none, List.length_nil]
  rw [← List.length_eq_zero_iff]
  change 0 = min (h.of id).length _ ↔ _
  omega

theorem whole_cleanup_iff (hk : Kept json h) (hw : ∀ id, h.Whole id) (now : ℤ) :
    (∀ id, (h.step json (.cleanup now)).Whole id) ↔ Keeps h (.cleanup now) := by
  refine forall_congr' (fun id => ?_)
  have hlookup : (h.step json (.cleanup now)).el.logs.lookup id =
      (h.el.logs.lookup id).filter (fun l => !outdated now l) := GoMap.lookup_deleteWhere _ _ id
  rw [← hk.outdated_eq (hw id) now, GoMap.get]
  cases hl : h.el.logs.lookup id with
  | none =>
    rw [hl, filter_none] at hlookup
    refine iff_of_true ((whole_of_dropped hlookup).mpr ?_) rfl
    exact (whole_of_dropped hl).mp (hw id)
  | some l =>
    rw [hl, filter_some] at hlookup
    rw [getD_some]
    cases hold : outdated now l with
    | false =>
      refine iff_of_true ?_ rfl
      have hkept : (h.step json (.cleanup now)).el.logs.lookup id = some l := by
        rw [hlookup, hold]
        rfl
      have hwhole := hw id
      rw [Whole, GoMap.get, hl] at hwhole
      rw [Whole, GoMap.get, hkept]
      exact hwhole
    | true =>
      refine iff_of_false ?_ (by simp)
      rw [hold] at hlookup
      intro hwhole
      have hnil : h.of id = [] := (whole_of_dropped hlookup).mp hwhole
      -- a list that is old has an entry, and it is the log's
      have hlnil : l = [] := suffix_nil.mp (hnil ▸ (hk.memory id l hl).1)
      rw [hlnil] at hold
      cases hold

theorem whole_restart_iff : (∀ id, (h.step json .restart).Whole id) ↔ Keeps h .restart := by
  have hall : (∀ id, (h.step json .restart).Whole id) ↔ ∀ id, h.of id = [] :=
    forall_congr' (fun id => whole_of_dropped (AList.lookup_empty id))
  rw [hall, Keeps]
  constructor
  · intro hnil
    refine eq_nil_iff_forall_not_mem.mpr (fun log hlog => ?_)
    have hmem : log ∈ h.of log.executionID := mem_filter.mpr ⟨hlog, by simp⟩
    rw [hnil] at hmem
    exact not_mem_nil hmem
  · intro hnil id
    rw [of, hnil]
    rfl

theorem whole_step_iff (hk : Kept json h) (hw : ∀ id, h.Whole id) (c : Call) :
    (∀ id, (h.step json c).Whole id) ↔ Keeps h c := by
  cases c with
  | log nanos now entry => exact iff_of_true (whole_log hk hw nanos now entry) trivial
  | getLogs id filter => exact iff_of_true (whole_getLogs hk hw id filter) trivial
  | cleanup now => exact whole_cleanup_iff hk hw now
  | restart => exact whole_restart_iff

/-- At every point of a run `GetLogs` answers with the last entries of every execution exactly if
nothing that was logged is ever dropped from memory. -/
theorem getLogs_right_iff (json : Codec ExecutionLog D)
    (hjson : ∀ entry, (json.encode entry).isSome) (calls : List Call) :
    Runs.Always (step json) (Right json) {} calls ↔ Runs.Along (step json) Keeps {} calls := by
  refine Runs.always_iff_along_of_strengthen (Q := fun h => Kept json h ∧ ∀ id, h.Whole id)
    ?_ ?_ ?_ ⟨Kept.start, fun id => rfl⟩
  · rintro h ⟨hk, hw⟩
    exact hk.right_iff.mpr hw
  · rintro h c ⟨hk, hw⟩ hc
    exact ⟨hk.step hjson c, (whole_step_iff hk hw c).mpr hc⟩
  · rintro h c ⟨hk, hw⟩ hright
    exact (whole_step_iff hk hw c).mp ((hk.step hjson c).right_iff.mp hright)

/-! ## A lost log -/

def entry (message : String) : ExecutionLog :=
  { executionID := "e", level := .info, message := message, source := "system" }

/-- An hour passes between the entries. -/
def undropped : List Call :=
  [.restart, .log 1 1 (entry "started"), .cleanup 3600000000000, .getLogs "e" {},
    .log 2 3600000000001 (entry "finished")]

theorem getLogs_right_undropped :
    Runs.Always (step (Codec.plain ExecutionLog)) (Right (Codec.plain ExecutionLog)) {}
      undropped := by
  refine (getLogs_right_iff (Codec.plain ExecutionLog) (fun _ => rfl) undropped).mpr ?_
  refine ⟨rfl, trivial, fun id => ?_, trivial, trivial, trivial⟩
  -- the only entry is an hour old, in whichever log it is
  change ([(entry "started").filled 1 1].filter (fun log => log.executionID = id)).getLast?.any
    _ = false
  by_cases hid : "e" = id
  · subst hid
    decide +kernel
  · rw [filter_singleton]
    simp [entry, ExecutionLog.filled, hid]

/-- After a restart the entry in Redis is not answered, and once another one is logged it is not
even asked for. -/
theorem getLogs_after_restart :
    let h := [Call.log 1 1 (entry "started"), .restart].foldl (step (Codec.plain ExecutionLog)) {}
    let h' := h.step (Codec.plain ExecutionLog) (.log 2 2 (entry "finished"))
    ((h.el.getLogs (Codec.plain ExecutionLog) true "e" {}).1.map (map (·.message)),
        (h'.el.getLogs (Codec.plain ExecutionLog) true "e" {}).1.map (map (·.message)),
        ((h'.of "e").rtake maxLogsPerExecution).map (·.message)) =
      (.ok [], .ok ["finished"], ["started", "finished"]) := by
  decide +kernel

end History

end LinkFlow.Logging
