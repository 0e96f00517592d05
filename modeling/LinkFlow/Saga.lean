/-
`saga.Orchestrator` of `pkg/saga/saga.go`: steps run in order, and undone in
reverse order when one fails or the context is done.

What a step's action and compensation do is the caller's code. `Outcomes` is
everything the orchestrator sees of it: for each step, by its position, whether
the context is found done just before it, and the errors its action and its
compensation return. Each is asked for at most once in a call of `Execute`, so no
generality is lost by writing the answers down beforehand.

The orchestrator's own state is reset by every `Execute`; `trace` records the
calls it makes to its steps, in order.
-/
import LinkFlow.Lib.GoMap

set_option autoImplicit false

namespace LinkFlow.Saga

open List

/-! ## The orchestrator -/

/-- `compensation` says whether the step has one. -/
structure Step where
  name : String
  compensation : Bool := true
deriving DecidableEq, Repr

/-- What the surroundings answer, by step position. -/
structure Outcomes where
  done : ℕ → Bool
  (action compensation : ℕ → Option String)

/-- A call the orchestrator makes, with the error it returned. -/
inductive Event
  | action (i : ℕ) (err : Option String)
  | compensation (i : ℕ) (err : Option String)
deriving DecidableEq, Repr

/-- The loop of `compensate` over the completed steps, the last one first. -/
def compensateLoop (o : Outcomes) : List (Step × ℕ) → List String × List Event
  | [] => ([], [])
  | (step, i) :: rest =>
    let (errs, trace) := compensateLoop o rest
    if step.compensation then
      match o.compensation i with
      | some err =>
        (("compensation for step '" ++ step.name ++ "' failed: " ++ err) :: errs,
          .compensation i (some err) :: trace)
      | none => (errs, .compensation i none :: trace)
    else (errs, trace)

def compensate (o : Outcomes) (completedSteps : List (Step × ℕ)) : Option String × List Event :=
  let (errs, trace) := compensateLoop o completedSteps.reverse
  if 0 < errs.length then (some ("compensation errors: " ++ GoFmt.formatList errs), trace)
  else (none, trace)

/-- The loop of `Execute` over the steps that are left. -/
def executeLoop (o : Outcomes) (completedSteps : List (Step × ℕ)) :
    List (Step × ℕ) → Option String × List Event
  | [] => (none, [])
  | (step, i) :: rest =>
    -- `return o.compensate(ctx)`: its error is all the caller sees of the cancellation
    if o.done i then compensate o completedSteps
    else
      match o.action i with
      | some err =>
        let (compensateErr, trace) := compensate o completedSteps
        match compensateErr with
        | some cerr =>
          (some ("step '" ++ step.name ++ "' failed: " ++ err ++
            ", compensation also failed: " ++ cerr), .action i (some err) :: trace)
        | none =>
          (some ("step '" ++ step.name ++ "' failed: " ++ err), .action i (some err) :: trace)
      | none =>
        let (err, trace) := executeLoop o (completedSteps ++ [(step, i)]) rest
        (err, .action i none :: trace)

/-- The error it returns and the calls it makes. -/
def execute (o : Outcomes) (steps : List Step) : Option String × List Event :=
  executeLoop o [] steps.zipIdx

/-! ## What is read off a trace -/

/-- The steps whose action ran and succeeded, in order. -/
def succeeded (trace : List Event) : List ℕ :=
  trace.filterMap fun
    | .action i none => some i
    | _ => none

def compensated (trace : List Event) : List ℕ :=
  trace.filterMap fun
    | .compensation i _ => some i
    | _ => none

/-- The step at position `i` has a compensation. -/
def compensable (steps : List Step) (i : ℕ) : Bool := (steps[i]?.map Step.compensation).getD false

/-- No error only if every action ran and succeeded; otherwise an error, and the compensations of
the steps whose action succeeded have run in reverse order. -/
def AllOrNothing (o : Outcomes) (steps : List Step) : Prop :=
  ((execute o steps).1 = none → succeeded (execute o steps).2 = List.range steps.length) ∧
    (succeeded (execute o steps).2 ≠ List.range steps.length → (execute o steps).1 ≠ none ∧
        compensated (execute o steps).2
          = (succeeded (execute o steps).2).reverse.filter (compensable steps))

/-- The context is found done before step `k`, everything before it went well, and
so do the compensations of the steps before it. -/
def CancelledQuietly (o : Outcomes) (steps : List Step) : Prop :=
  ∃ k < steps.length, o.done k = true ∧
    ∀ i < k, o.done i = false ∧ o.action i = none ∧
      (compensable steps i = true → o.compensation i = none)

/-! ## `compensate` -/

/-- One compensation per completed step that has one, the last step first; an error
when one of them fails. -/
theorem compensateLoop_spec (o : Outcomes) (l : List (Step × ℕ)) :
    compensated (compensateLoop o l).2 = (l.filter (fun x => x.1.compensation)).map Prod.snd ∧
      succeeded (compensateLoop o l).2 = [] ∧
      ((compensateLoop o l).1 = [] ↔
        ∀ x ∈ l, x.1.compensation = true → o.compensation x.2 = none) := by
  induction l with
  | nil => simp [compensateLoop, compensated, succeeded]
  | cons x l ih =>
    obtain ⟨step, i⟩ := x
    obtain ⟨hcomp, hsucc, herrs⟩ := ih
    rw [compensateLoop]
    dsimp only
    by_cases hc : step.compensation = true
    · rw [if_pos hc]
      cases herr : o.compensation i with
      | none => simp_all [compensated, succeeded]
      | some err => simp_all [compensated, succeeded]
    · rw [if_neg hc]
      simp_all

theorem compensate_fst_eq_none_iff (o : Outcomes) (l : List (Step × ℕ)) :
    (compensate o l).1 = none ↔ ∀ x ∈ l, x.1.compensation = true → o.compensation x.2 = none := by
  have hspec := (compensateLoop_spec o l.reverse).2.2
  simp only [mem_reverse] at hspec
  rw [← hspec, compensate]
  dsimp only
  split_ifs with hpos
  · simp only [false_iff]
    exact ne_nil_of_length_pos hpos
  · simp only [true_iff]
    exact length_eq_zero_iff.mp (by omega)

theorem compensate_snd (o : Outcomes) (l : List (Step × ℕ)) :
    (compensate o l).2 = (compensateLoop o l.reverse).2 := by
  unfold compensate
  dsimp only
  split_ifs
  · rfl
  · rfl

/-! ## The three exits of `Execute` -/

def Passes (o : Outcomes) (x : Step × ℕ) : Prop := o.done x.2 = false ∧ o.action x.2 = none

def passed (l : List (Step × ℕ)) : List Event := l.map (fun x => .action x.2 none)

/-- `Execute` passes all steps and returns no error, or finds the context done before a step and
returns what compensating returns, or comes to an action that fails and returns an error after
compensating. -/
theorem executeLoop_cases (o : Outcomes) (completed rest : List (Step × ℕ)) :
    ((∀ x ∈ rest, Passes o x) ∧ executeLoop o completed rest = (none, passed rest)) ∨
    ∃ pre x post, rest = pre ++ x :: post ∧ (∀ y ∈ pre, Passes o y) ∧
      ((o.done x.2 = true ∧ executeLoop o completed rest = ((compensate o (completed ++ pre)).1,
              passed pre ++ (compensate o (completed ++ pre)).2)) ∨
        (o.done x.2 = false ∧ o.action x.2 ≠ none ∧ (executeLoop o completed rest).1 ≠ none ∧
          (executeLoop o completed rest).2 = passed pre ++
            .action x.2 (o.action x.2) :: (compensate o (completed ++ pre)).2)) := by
  induction rest generalizing completed with
  | nil => exact .inl ⟨by simp, rfl⟩
  | cons x rest ih =>
    obtain ⟨step, i⟩ := x
    rw [executeLoop]
    dsimp only
    by_cases hdone : o.done i = true
    · rw [if_pos hdone]
      exact .inr ⟨[], (step, i), rest, rfl, by simp, .inl ⟨hdone, by simp [passed]⟩⟩
    rw [if_neg hdone]
    cases hact : o.action i with
    | some err =>
      refine .inr ⟨[], (step, i), rest, rfl, by simp,
        .inr ⟨by simpa using hdone, by simp [hact], ?_⟩⟩
      dsimp only
      cases hcomp : (compensate o completed).1 with
      | none => simp [passed, hact]
      | some cerr => simp [passed, hact]
    | none =>
      -- the step passes, and the rest of the run decides the exit
      have hpass : Passes o (step, i) := ⟨by simpa using hdone, hact⟩
      dsimp only
      rcases ih (completed ++ [(step, i)]) with ⟨hall, heq⟩ | ⟨pre, y, post, rfl, hpre, hexit⟩
      · refine .inl ⟨?_, by rw [heq]; rfl⟩
        intro x hx
        rcases mem_cons.mp hx with rfl | hx
        · exact hpass
        · exact hall x hx
      · refine .inr ⟨(step, i) :: pre, y, post, rfl, ?_, ?_⟩
        · intro x hx
          rcases mem_cons.mp hx with rfl | hx
          · exact hpass
          · exact hpre x hx
        · rw [append_assoc, singleton_append] at hexit
          rcases hexit with ⟨hd, heq⟩ | ⟨hd, ha, herr, htrace⟩
          · exact .inl ⟨hd, by rw [heq]; rfl⟩
          · exact .inr ⟨hd, ha, herr, by rw [htrace]; rfl⟩

/-! ## Positions -/

section Positions

variable {steps : List Step} {pre post : List (Step × ℕ)} {x : Step × ℕ}

theorem position_of_split (h : steps.zipIdx = pre ++ x :: post) :
    x.2 = pre.length ∧ pre.length < steps.length ∧
      pre.map Prod.snd = List.range pre.length ∧ ∀ y ∈ pre, steps[y.2]? = some y.1 := by
  have hlen : steps.length = pre.length + (post.length + 1) := by
    rw [← length_zipIdx (l := steps) (i := 0), h, length_append, length_cons]
  have hsnd : pre.map Prod.snd ++ x.2 :: post.map Prod.snd = range steps.length := by
    rw [range_eq_range', ← zipIdx_map_snd 0 steps, h, map_append, map_cons]
  refine ⟨?_, by omega, ?_, fun y hy => ?_⟩
  · have hget := congrArg (fun l => l[pre.length]?) hsnd
    simpa [getElem?_range, hlen] using hget
  · have htake := congrArg (take pre.length) hsnd
    rw [take_left' (by simp)] at htake
    rw [htake, take_range, Nat.min_eq_left (by omega)]
  · refine mem_zipIdx_iff_getElem?.mp ?_
    rw [h]
    exact mem_append_left _ hy

end Positions

/-! ## The contract -/

@[simp] theorem succeeded_append (t₁ t₂ : List Event) :
    succeeded (t₁ ++ t₂) = succeeded t₁ ++ succeeded t₂ := filterMap_append

@[simp] theorem compensated_append (t₁ t₂ : List Event) :
    compensated (t₁ ++ t₂) = compensated t₁ ++ compensated t₂ := filterMap_append

@[simp] theorem succeeded_passed (l : List (Step × ℕ)) : succeeded (passed l) = l.map Prod.snd := by
  induction l with
  | nil => rfl
  | cons x l ih => simp_all [passed, succeeded]

@[simp] theorem compensated_passed (l : List (Step × ℕ)) : compensated (passed l) = [] := by
  induction l with
  | nil => rfl
  | cons x l ih => simp_all [passed, compensated]

/-- Compensating the steps before a position undoes exactly those that have a
compensation, in reverse order. -/
theorem compensate_reverses (o : Outcomes) {steps : List Step} {pre : List (Step × ℕ)}
    (hpos : ∀ y ∈ pre, steps[y.2]? = some y.1) : succeeded (compensate o pre).2 = [] ∧
      compensated (compensate o pre).2 = (pre.map Prod.snd).reverse.filter (compensable steps) := by
  obtain ⟨hcomp, hsucc, -⟩ := compensateLoop_spec o pre.reverse
  rw [compensate_snd]
  refine ⟨hsucc, ?_⟩
  rw [hcomp, ← map_reverse, filter_map]
  congr 1
  apply filter_congr
  intro y hy
  rw [Function.comp_apply, compensable, hpos y (mem_reverse.mp hy)]
  rfl

/-- A call that stops before a step returns an error or was cancelled quietly; the
rest of the contract it keeps. -/
theorem allOrNothing_of_stop {o : Outcomes} {steps : List Step} {pre post : List (Step × ℕ)}
    {x : Step × ℕ} (h : steps.zipIdx = pre ++ x :: post) {t : List Event}
    (ht : succeeded t = [] ∧ compensated t = [])
    (htrace : (execute o steps).2 = passed pre ++ (t ++ (compensate o pre).2)) :
    AllOrNothing o steps ↔ (execute o steps).1 ≠ none := by
  obtain ⟨-, hlt, hrange, hpos⟩ := position_of_split h
  obtain ⟨hsucc, hcomp⟩ := compensate_reverses o hpos
  have hran : succeeded (execute o steps).2 = range pre.length := by
    rw [htrace, succeeded_append, succeeded_append, succeeded_passed, hsucc, ht.1, hrange]
    simp
  have hundone : compensated (execute o steps).2
      = (succeeded (execute o steps).2).reverse.filter (compensable steps) := by
    rw [hran, ← hrange, ← hcomp, htrace, compensated_append, compensated_append,
      compensated_passed, ht.2, nil_append, nil_append]
  -- fewer actions ran than there are steps
  have hshort : succeeded (execute o steps).2 ≠ range steps.length := by
    rw [hran]
    intro heq
    have hlen := congrArg length heq
    rw [length_range, length_range] at hlen
    omega
  constructor
  · exact fun hcontract => (hcontract.2 hshort).1
  · exact fun herr => ⟨fun hnone => absurd hnone herr, fun _ => ⟨herr, hundone⟩⟩

theorem CancelledQuietly.at_first {o : Outcomes} {steps : List Step} {k : ℕ}
    (hpass : ∀ i < k, o.done i = false) (hstop : o.done k = true ∨ o.action k ≠ none)
    (h : CancelledQuietly o steps) :
    o.done k = true ∧ ∀ i < k, compensable steps i = true → o.compensation i = none := by
  obtain ⟨k', -, hdone, hbefore⟩ := h
  rcases lt_trichotomy k' k with hlt | rfl | hgt
  · rw [hpass k' hlt] at hdone
    cases hdone
  · exact ⟨hdone, fun i hi => (hbefore i hi).2.2⟩
  obtain ⟨hlive, hok, -⟩ := hbefore k hgt
  rcases hstop with hd | ha
  · rw [hlive] at hd
    cases hd
  · exact absurd hok ha

/-- **When a saga is all or nothing**: exactly when it is not cancelled between two
steps with every compensation then succeeding. -/
theorem allOrNothing_iff (o : Outcomes) (steps : List Step) :
    AllOrNothing o steps ↔ ¬ CancelledQuietly o steps := by
  rcases executeLoop_cases o [] steps.zipIdx with ⟨hall, heq⟩ | ⟨pre, x, post, hsplit, hpre, hexit⟩
  · -- every step passed, so the context was never done
    have hran : succeeded (execute o steps).2 = range steps.length := by
      rw [execute, heq, succeeded_passed, zipIdx_map_snd, range_eq_range']
    refine ⟨fun _ => ?_, fun _ => ⟨fun _ => hran, fun hne => absurd hran hne⟩⟩
    rintro ⟨k, hk, hdone, -⟩
    have hmem : (steps[k], k) ∈ steps.zipIdx :=
      mem_zipIdx_iff_getElem?.mpr (getElem?_eq_getElem hk)
    rw [(hall _ hmem).1] at hdone
    cases hdone
  obtain ⟨hx, hlt, hrange, hpos⟩ := position_of_split hsplit
  have hpass : ∀ i < pre.length, ∃ y ∈ pre, y.2 = i ∧ Passes o y := by
    intro i hi
    rw [← mem_range, ← hrange] at hi
    obtain ⟨y, hy, rfl⟩ := mem_map.mp hi
    exact ⟨y, hy, rfl, hpre y hy⟩
  have hlive : ∀ i < x.2, o.done i = false := by
    intro i hi
    obtain ⟨y, -, rfl, hy⟩ := hpass i (by omega)
    exact hy.1
  rcases hexit with ⟨hdone, heq⟩ | ⟨hdone, hact, herr, htrace⟩
  · -- the context was done: the answer is that of `compensate`
    rw [nil_append] at heq
    have hfst : (execute o steps).1 = (compensate o pre).1 := by rw [execute, heq]
    have htrace : (execute o steps).2 = passed pre ++ ([] ++ (compensate o pre).2) := by
      rw [execute, heq, nil_append]
    rw [allOrNothing_of_stop hsplit ⟨rfl, rfl⟩ htrace, hfst]
    apply not_congr
    rw [compensate_fst_eq_none_iff]
    have hcomp : ∀ y ∈ pre, compensable steps y.2 = y.1.compensation := by
      intro y hy
      rw [compensable, hpos y hy]
      rfl
    constructor
    · intro hquiet
      refine ⟨x.2, by omega, hdone, fun i hi => ?_⟩
      obtain ⟨y, hy, rfl, hy'⟩ := hpass i (by omega)
      exact ⟨hy'.1, hy'.2, by rw [hcomp y hy]; exact hquiet y hy⟩
    · intro hquiet y hy
      have hlt' : y.2 < x.2 := by
        rw [hx, ← mem_range, ← hrange]
        exact mem_map_of_mem hy
      rw [← hcomp y hy]
      exact (hquiet.at_first hlive (.inl hdone)).2 y.2 hlt'
  · -- an action failed: there is an error
    rw [nil_append] at htrace
    have hnone : succeeded [Event.action x.2 (o.action x.2)] = [] := by
      cases ha : o.action x.2 with
      | none => exact absurd ha hact
      | some err => rfl
    rw [allOrNothing_of_stop hsplit ⟨hnone, rfl⟩ htrace]
    refine iff_of_true herr (fun hquiet => ?_)
    rw [(hquiet.at_first hlive (.inr hact)).1] at hdone
    cases hdone

/-- The context is done before the second of two steps, and nothing fails. -/
def cancelledBetween : Outcomes where
  done := fun i => i = 1
  action := fun _ => none
  compensation := fun _ => none

/-- The second action never ran, the first was undone, and there is no error. -/
theorem cancelledBetween_reports_success :
    execute cancelledBetween [{ name := "reserve" }, { name := "charge" }]
        = (none, [.action 0 none, .compensation 0 none]) ∧
      ¬ AllOrNothing cancelledBetween [{ name := "reserve" }, { name := "charge" }] := by
  have hrun : execute cancelledBetween [{ name := "reserve" }, { name := "charge" }]
      = (none, [.action 0 none, .compensation 0 none]) := by decide
  refine ⟨hrun, fun h => ?_⟩
  have hran := h.1 (by rw [hrun])
  rw [hrun] at hran
  exact absurd hran (by decide)

end LinkFlow.Saga
