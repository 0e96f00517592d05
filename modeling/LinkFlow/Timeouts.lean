/-
The timeouts of one execution (`execution/app/cancellation/manager.go`): `SetTimeout`,
`ClearTimeout`, completion events, and the timers that they start and stop.

A timer knows the execution's ID only. `SetTimeout` replaces the entry in the map without stopping
the timers of the one before, and nobody stops a warning's timer or a handler that has read the
entry; all of these act later on behalf of a timeout that is gone. They do not if no timer can still
act when a timeout is set, and none but an armed one that is no warning when it is cleared
(`timers_rightful`).
-/
import LinkFlow.Lib.Runs

set_option autoImplicit false

namespace LinkFlow.Timeouts

open List

/-- `TimeoutConfig`; a timer may fire at any moment, so that the durations of the nodes' timers do
not matter. `warns` says whether `WarnThreshold` is positive. -/
structure TimeoutConfig where
  globalTimeout : ℤ
  nodeTimeouts : List String := []
  (autoCancel retryOnTimeout warns : Bool := false)
deriving DecidableEq, Repr

/-- What a timer does: `handleTimeout` for the execution (`""`) or a node, or
`handleTimeoutWarning`. -/
inductive Kind
  | timeout (nodeID : String)
  | warning
deriving DecidableEq, Repr

inductive Effect
  | cancel
  | retry (nodeID : String)
  | timeout (nodeID : String) (timeout : ℤ)
  | warning
deriving DecidableEq, Repr

/-- Where a timer stands: `fired` before the handler reads the map, `acting` with what it is about
to do. -/
inductive Stage
  | armed
  | stopped
  | fired
  | acting (todo : List Effect)
deriving DecidableEq, Repr

/-- A timer of a call of `SetTimeout`. -/
structure Timer where
  setting : ℕ
  kind : Kind
  stage : Stage := .armed
deriving DecidableEq, Repr

/-- The timeouts that were set; `current` is the one in the map. -/
structure State where
  settings : List TimeoutConfig := []
  current : Option ℕ := none
  timers : List Timer := []
deriving DecidableEq, Repr

/-- The timers of a new timeout. -/
def newTimers (n : ℕ) (config : TimeoutConfig) : List Timer :=
  (if config.globalTimeout > 0 then [⟨n, .timeout "", .armed⟩] else []) ++
    config.nodeTimeouts.map (fun nodeID => ⟨n, .timeout nodeID, .armed⟩) ++
    (if config.warns then [⟨n, .warning, .armed⟩] else [])

def setTimeout (config : TimeoutConfig) (s : State) : State where
  settings := s.settings ++ [config]
  current := some s.settings.length
  timers := s.timers ++ newTimers s.settings.length config

/-- `Stop` has no effect on a timer that has fired. The warning's timer is in no field. -/
def Timer.stop (n : ℕ) (t : Timer) : Timer :=
  if t.setting = n ∧ t.kind ≠ .warning ∧ t.stage = .armed then { t with stage := .stopped } else t

def clearTimeout (s : State) : State :=
  match s.current with
  | none => s
  | some n => { s with current := none, timers := s.timers.map (Timer.stop n) }

/-- What `handleTimeout` does under the policy it has read. -/
def effects (config : TimeoutConfig) (nodeID : String) : List Effect :=
  (if config.autoCancel then [.cancel] else []) ++
    (if config.retryOnTimeout then [.retry nodeID] else []) ++
    [.timeout nodeID config.globalTimeout]

/-- The next section of a timer and its handler. -/
def Timer.next (s : State) (t : Timer) : Timer :=
  match t.stage, t.kind with
  | .armed, .warning => { t with stage := .acting [.warning] }
  | .armed, .timeout _ => { t with stage := .fired }
  | .fired, .timeout nodeID =>
    { t with stage := .acting (match s.current.bind (s.settings[·]?) with
      | none => []
      | some config => effects config nodeID) }
  | .acting todo, _ => { t with stage := .acting todo.tail }
  | .fired, .warning | .stopped, _ => t

/-- A completion event clears the timeout; the cancellation that it removes is left out here. -/
inductive Action
  | setTimeout (config : TimeoutConfig)
  | clearTimeout
  | completed
  | next (i : ℕ)

def step (s : State) : Action → State
  | .setTimeout config => setTimeout config s
  | .clearTimeout | .completed => clearTimeout s
  | .next i => match s.timers[i]? with
      | none => s
      | some t => { s with timers := s.timers.set i (t.next s) }

/-! ## Who may act -/

/-- A timer that does something belongs to the last timeout that was set, and that is in the map. -/
def Rightful (s : State) : Action → Prop
  | .next i => ∀ t e todo, s.timers[i]? = some t → t.stage = .acting (e :: todo) →
      s.current = some t.setting ∧ t.setting + 1 = s.settings.length
  | _ => True

/-- The timer can still act. -/
def Timer.Live (t : Timer) : Prop := t.stage ≠ .stopped ∧ t.stage ≠ .acting []

/-- No timer can still act when a timeout is set, and when one is cleared only such that are
stopped. -/
def Orderly (s : State) : Action → Prop
  | .setTimeout _ => ∀ t ∈ s.timers, ¬ t.Live
  | .clearTimeout | .completed => s.current ≠ none →
      ∀ t ∈ s.timers, t.Live → t.stage = .armed ∧ t.kind ≠ .warning
  | .next _ => True

/-- The timers that can act belong to the timeout in the map, which is the last one. -/
structure Inv (s : State) : Prop where
  live : ∀ t ∈ s.timers, t.Live → s.current = some t.setting
  last : ∀ n, s.current = some n → n + 1 = s.settings.length

theorem Inv.clearTimeout {s : State} (h : Inv s)
    (hlive : s.current ≠ none → ∀ t ∈ s.timers, t.Live → t.stage = .armed ∧ t.kind ≠ .warning) :
    Inv (clearTimeout s) := by
  unfold Timeouts.clearTimeout
  cases hcurrent : s.current with
  | none => exact h
  | some n =>
    refine ⟨fun t ht hlive' => ?_, fun n hn => by cases hn⟩
    obtain ⟨old, hold, rfl⟩ := mem_map.mp ht
    -- a timer that can still act was stopped now
    by_cases hold' : old.Live
    · obtain ⟨harmed, hkind⟩ := hlive (by simp [hcurrent]) old hold hold'
      have hsetting : old.setting = n := by
        have := h.live old hold hold'
        rw [hcurrent] at this
        exact (Option.some.inj this).symm
      rw [Timer.stop, if_pos ⟨hsetting, hkind, harmed⟩] at hlive'
      exact absurd rfl hlive'.1
    · rw [Timer.stop] at hlive'
      split_ifs at hlive'
      · exact absurd rfl hlive'.1
      · exact absurd hlive' hold'

theorem Timer.live_next {s : State} {t : Timer} (h : (t.next s).Live) : t.Live := by
  refine ⟨fun hstage => ?_, fun hstage => ?_⟩
  · rw [Timer.next, hstage] at h
    exact h.1 hstage
  · rw [Timer.next, hstage] at h
    exact h.2 rfl

theorem Timer.setting_next (s : State) (t : Timer) : (t.next s).setting = t.setting := by
  unfold Timer.next
  split <;> rfl

/-- Orderly steps keep at most one live timer, the current one. -/
theorem Inv.step {s : State} {a : Action} (h : Inv s) (ha : Orderly s a) : Inv (step s a) := by
  cases a with
  | setTimeout config =>
    refine ⟨fun t ht hlive => ?_, fun n hn => ?_⟩
    · rcases mem_append.mp ht with hold | hnew
      · exact absurd hlive (ha t hold)
      · have hsetting : t.setting = s.settings.length := by
          simp only [newTimers, mem_append, mem_map] at hnew
          rcases hnew with (hnew | ⟨nodeID, -, rfl⟩) | hnew
          · split_ifs at hnew <;> simp_all
          · rfl
          · split_ifs at hnew <;> simp_all
        rw [hsetting]
        rfl
    · cases hn
      simp [Timeouts.step, setTimeout]
  | clearTimeout => exact h.clearTimeout ha
  | completed => exact h.clearTimeout ha
  | next i =>
    unfold Timeouts.step
    dsimp only
    cases hi : s.timers[i]? with
    | none => exact h
    | some t =>
      refine ⟨fun t' ht' hlive => ?_, h.last⟩
      rcases mem_or_eq_of_mem_set ht' with hold | rfl
      · exact h.live t' hold hlive
      · rw [Timer.setting_next]
        exact h.live t (mem_of_getElem? hi) (Timer.live_next hlive)

/-- **Timers.** If no timer can still act when a timeout is set, and when one is cleared only armed
ones that are no warnings, then whoever cancels, retries or reports belongs to the last timeout, and
that was not cleared. -/
theorem timers_rightful (as : List Action) (h : Runs.Along step Orderly {} as) :
    Runs.Along step Rightful {} as := by
  have hinv : Runs.Always step Inv {} as := h.always (fun _ _ => Inv.step)
    ⟨fun t ht => (by cases ht), fun n hn => (by cases hn)⟩
  refine Runs.along_iff.mpr (fun pre a post heq => ?_)
  have hpre := hinv pre ⟨a :: post, heq.symm⟩
  cases a with
  | next i =>
    intro t e todo ht hstage
    have hcurrent := hpre.live t (mem_of_getElem? ht) ⟨by simp [hstage], by simp [hstage]⟩
    exact ⟨hcurrent, hpre.last _ hcurrent⟩
  | setTimeout config => trivial
  | clearTimeout => trivial
  | completed => trivial

/-- A timeout that cancels the execution. -/
def cancelling : TimeoutConfig := { globalTimeout := 5, autoCancel := true }

theorem timers_rightful_cancelling : Runs.Along step Rightful {}
      [.setTimeout cancelling, .next 0, .next 0, .next 0, .next 0, .setTimeout cancelling] :=
  timers_rightful _ ⟨fun t ht => (by cases ht), trivial, trivial, trivial, trivial,
    fun t ht hlive => hlive.2 (by rw [mem_singleton.mp ht]; rfl), trivial⟩

/-- The first timer cancels after a second timeout is set, and a warning comes after the timeout is
cleared. -/
theorem stale_timers :
    [Action.setTimeout cancelling, .setTimeout cancelling, .next 0, .next 0].foldl step {} =
      { settings := [cancelling, cancelling]
        current := some 1
        timers := [⟨0, .timeout "", .acting [.cancel, .timeout "" 5]⟩,
          ⟨1, .timeout "", .armed⟩] } ∧
    [Action.setTimeout { globalTimeout := 5, warns := true }, .clearTimeout, .next 1].foldl step
        {} =
      { settings := [{ globalTimeout := 5, warns := true }]
        timers := [⟨0, .timeout "", .stopped⟩, ⟨0, .warning, .acting [.warning]⟩] } := by
  decide

end LinkFlow.Timeouts
