/-
What holds of the pending-request table in every run.

The invariant follows one response from the moment its handler takes a table entry:
`resolved` pairs the waiter with the response, and `Stage` says that the response is
then held by the handler, in the waiter's channel, or received. A waiter is paired
once because taking an entry removes it, and a response once because its handler
takes an entry once. From this come at-most-once delivery, an empty channel at every
offer, and what the table holds.
-/
import LinkFlow.Pending

set_option autoImplicit false

namespace LinkFlow.Pending

open List Option

variable {R : Type}

namespace State

/-! ## The invariant -/

/-- Where response `k` with result `r` is, once it is meant for waiter `i`: `phase` is
its handler's. -/
def Stage (i k : ℕ) (r : R) (phase : HandlerPhase R) (w : Waiter R) : Prop :=
  (phase = .holding i r ∧ w.buffer = none ∧ w.answer = none) ∨
    (phase = .finished none ∧ w.buffer = some (k, r) ∧ w.answer = none) ∨
    (phase = .finished none ∧ w.buffer = none ∧ w.answer = some (k, r))

/-- Waiters have their own request IDs, and no outcome before they leave. -/
structure WaitersInv (ws : List (Waiter R)) : Prop where
  ids : ∀ (i j : ℕ) (w w' : Waiter R), ws[i]? = some w → ws[j]? = some w' →
    w.requestID = w'.requestID → i = j
  undecided : ∀ (i : ℕ) (w : Waiter R), ws[i]? = some w →
    w.phase = .sending ∨ w.phase = .waiting → w.outcome = none

/-- The table holds the requests with no response resolved for them, until their
waiter has returned. -/
def TableInv (pending : GoMap String ℕ) (ws : List (Waiter R)) (resolved : List (ℕ × ℕ)) : Prop :=
  ∀ (id : String) (i : ℕ), pending.lookup id = some i ↔
    ∃ w : Waiter R, ws[i]? = some w ∧ w.requestID = id ∧ w.phase ≠ .returned ∧
      ∀ k, (i, k) ∉ resolved

/-- What is known of the responses resolved so far. -/
structure ResponsesInv (ws : List (Waiter R)) (hds : List (Handler R))
    (resolved received : List (ℕ × ℕ)) : Prop where
  clean : ∀ (i : ℕ) (w : Waiter R), ws[i]? = some w → (∀ k, (i, k) ∉ resolved) →
    w.buffer = none ∧ w.answer = none
  stage : ∀ i k, (i, k) ∈ resolved → ∃ (w : Waiter R) (h : Handler R) (r : R),
    ws[i]? = some w ∧ hds[k]? = some h ∧
    parseResponse h.event = .ok (w.requestID, r) ∧ Stage i k r h.phase w
  held : ∀ (k : ℕ) (h : Handler R) (i : ℕ) (r : R), hds[k]? = some h →
    h.phase = .holding i r → (i, k) ∈ resolved
  waiterOnce : ∀ i k k', (i, k) ∈ resolved → (i, k') ∈ resolved → k = k'
  responseOnce : ∀ i i' k, (i, k) ∈ resolved → (i', k) ∈ resolved → i = i'
  log : ∀ i k, (i, k) ∈ received ↔
    ∃ (w : Waiter R) (r : R), ws[i]? = some w ∧ w.answer = some (k, r)
  nodup : received.Nodup

structure Inv (s : State R) : Prop where
  waiters : WaitersInv s.waiters
  table : TableInv s.pending s.waiters s.resolved
  responses : ResponsesInv s.waiters s.handlers s.resolved s.received

theorem inv_init : (State.init : State R).Inv := by
  refine ⟨⟨?_, ?_⟩, ?_, ⟨?_, ?_, ?_, ?_, ?_, ?_, ?_⟩⟩ <;> simp [State.init, TableInv]

variable {i : ℕ} {s : State R} {w : Waiter R} {r : R} {h : Handler R} {k : ℕ}

theorem getElem?_set_of_some {α : Type} {l : List α} {a : α} (h : l[i]? = some a) (b : α) (j : ℕ) :
    (l.set i b)[j]? = if j = i then some b else l[j]? := by
  by_cases hj : j = i
  · rw [if_pos hj, hj, List.getElem?_set_self (List.getElem?_eq_some_iff.mp h).1]
  · rw [if_neg hj, List.getElem?_set_ne (Ne.symm hj)]

theorem eq_or_of_set {α : Type} {l : List α} {a b x : α} {j : ℕ} (h : l[i]? = some a)
    (hx : (l.set i b)[j]? = some x) : j = i ∧ x = b ∨ j ≠ i ∧ l[j]? = some x := by
  rw [getElem?_set_of_some h] at hx
  split_ifs at hx with hj
  · exact .inl ⟨hj, (some.inj hx).symm⟩
  · exact .inr ⟨hj, hx⟩

theorem eq_or_of_snoc {α : Type} {l : List α} {a x : α} {j : ℕ} (hx : (l ++ [a])[j]? = some x) :
    j = l.length ∧ x = a ∨ l[j]? = some x := by
  rcases Nat.lt_trichotomy j l.length with hlt | rfl | hgt
  · exact .inr ((getElem?_append_left hlt).symm.trans hx)
  · exact .inl ⟨rfl, some.inj (hx.symm.trans getElem?_concat_length)⟩
  · rw [getElem?_eq_none (by rw [length_append, length_singleton]; omega)] at hx
    cases hx

theorem getElem?_snoc_of_some {α : Type} {l : List α} {j : ℕ} {b : α} (h : l[j]? = some b)
    (a : α) : (l ++ [a])[j]? = some b :=
  (List.getElem?_append_left (List.getElem?_eq_some_iff.mp h).1).trans h

section Responses

variable {ws : List (Waiter R)} {hds : List (Handler R)} {resolved received : List (ℕ × ℕ)}

theorem ResponsesInv.not_resolved_of_arrived (h : ResponsesInv ws hds resolved received) {k : ℕ}
    {hd : Handler R} (hk : hds[k]? = some hd) (harr : hd.phase = .arrived) (i : ℕ) :
    (i, k) ∉ resolved := by
  intro hmem
  obtain ⟨w, hd', r, -, hk', -, hstage⟩ := h.stage i k hmem
  rw [hk] at hk'
  cases hk'
  rw [Stage, harr] at hstage
  simp at hstage

theorem ResponsesInv.stage_of (h : ResponsesInv ws hds resolved received) {i k : ℕ}
    {w : Waiter R} (hmem : (i, k) ∈ resolved) (hw : ws[i]? = some w) :
    ∃ (hd : Handler R) (r : R), hds[k]? = some hd ∧
      parseResponse hd.event = .ok (w.requestID, r) ∧ Stage i k r hd.phase w := by
  obtain ⟨w', hd, r, hw', hrest⟩ := h.stage i k hmem
  rw [hw] at hw'
  cases hw'
  exact ⟨hd, r, hrest⟩

/-- A handler that has not taken an entry may change its phase, as long as it does not
hold a channel. -/
theorem ResponsesInv.set_handler (h : ResponsesInv ws hds resolved received) {k : ℕ}
    {hd : Handler R} (hk : hds[k]? = some hd) (harr : hd.phase = .arrived) (err : Option String) :
    ResponsesInv ws (hds.set k { hd with phase := .finished err }) resolved received := by
  refine { h with stage := ?_, held := ?_ }
  · intro j k' hmem
    obtain ⟨w, hd', r, hw, hk', hrest⟩ := h.stage j k' hmem
    have hne : k' ≠ k := fun heq => h.not_resolved_of_arrived hk harr j (heq ▸ hmem)
    exact ⟨w, hd', r, hw, by rw [getElem?_set_of_some hk, if_neg hne]; exact hk', hrest⟩
  · intro k' hd' j r hk' hhold
    rcases eq_or_of_set hk hk' with ⟨-, rfl⟩ | ⟨-, hk'⟩
    · cases hhold
    · exact h.held k' hd' j r hk' hhold

end Responses

/-! ## Replacing one waiter -/

section Replace

variable {ws : List (Waiter R)} {i : ℕ} {w w' : Waiter R}

theorem WaitersInv.set (h : WaitersInv ws) (hw : ws[i]? = some w) (hid : w'.requestID = w.requestID)
    (hund : w'.phase = .sending ∨ w'.phase = .waiting → w'.outcome = none) :
    WaitersInv (ws.set i w') := by
  have hold : ∀ (j : ℕ) (x' : Waiter R), (ws.set i w')[j]? = some x' →
      ∃ x, ws[j]? = some x ∧ x.requestID = x'.requestID := by
    intro j x' hx'
    rcases eq_or_of_set hw hx' with ⟨rfl, rfl⟩ | ⟨-, hx'⟩
    · exact ⟨w, hw, hid.symm⟩
    · exact ⟨x', hx', rfl⟩
  constructor
  · intro j j' x x' hx hx' heq
    obtain ⟨y, hy, hyid⟩ := hold j x hx
    obtain ⟨y', hy', hyid'⟩ := hold j' x' hx'
    exact h.ids j j' y y' hy hy' (by rw [hyid, hyid', heq])
  · intro j x hx hphase
    rcases eq_or_of_set hw hx with ⟨-, rfl⟩ | ⟨-, hx⟩
    · exact hund hphase
    · exact h.undecided j x hx hphase

theorem TableInv.set {pending : GoMap String ℕ} {resolved : List (ℕ × ℕ)}
    (h : TableInv pending ws resolved) (hw : ws[i]? = some w)
    (hid : w'.requestID = w.requestID) (hret : w'.phase = .returned ↔ w.phase = .returned) :
    TableInv pending (ws.set i w') resolved := by
  intro id j
  rw [h id j, getElem?_set_of_some hw]
  by_cases hj : j = i
  · subst hj
    rw [if_pos rfl, hw]
    simp only [some.injEq, exists_eq_left', hid, hret, ne_eq]
  · rw [if_neg hj]

theorem TableInv.erase {pending : GoMap String ℕ} {resolved resolved' : List (ℕ × ℕ)}
    {ws' : List (Waiter R)} (h : TableInv pending ws resolved) (hws : WaitersInv ws)
    (hw : ws[i]? = some w)
    (hgone : ∀ x, ws'[i]? = some x → x.phase ≠ .returned → ¬ ∀ k, (i, k) ∉ resolved')
    (hothers : ∀ j, j ≠ i → ws'[j]? = ws[j]? ∧ ∀ k, (j, k) ∈ resolved' ↔ (j, k) ∈ resolved) :
    TableInv (pending.erase w.requestID) ws' resolved' := by
  intro id j
  by_cases hj : j = i
  · subst hj
    refine iff_of_false (fun hlook => ?_) (fun ⟨x, hx, _, hret, hnone⟩ => hgone x hx hret hnone)
    by_cases hid : id = w.requestID
    · rw [hid, AList.lookup_erase] at hlook
      cases hlook
    · rw [AList.lookup_erase_ne hid, h id j] at hlook
      obtain ⟨x, hx, hxid, -⟩ := hlook
      exact hid (hxid.symm.trans (congrArg _ (some.inj (hx.symm.trans hw))))
  · simp only [(hothers j hj).1, (hothers j hj).2]
    by_cases hid : id = w.requestID
    · rw [hid, AList.lookup_erase]
      refine iff_of_false (fun hlook => by cases hlook) ?_
      rintro ⟨x, hx, hxid, -⟩
      exact hj (hws.ids j i x w hx hw hxid)
    · rw [AList.lookup_erase_ne hid, h id j]

/-- A waiter is replaced, with what it needs of the responses resolved for it; the others
keep theirs. -/
theorem ResponsesInv.set_waiter {hds hds' : List (Handler R)} {resolved received : List (ℕ × ℕ)}
    (h : ResponsesInv ws hds resolved received) (hw : ws[i]? = some w)
    {received' : List (ℕ × ℕ)} (hnodup : received'.Nodup)
    (hclean : (∀ k, (i, k) ∉ resolved) → w'.buffer = none ∧ w'.answer = none)
    (hstage : ∀ k, (i, k) ∈ resolved → ∃ hd r, hds'[k]? = some hd ∧
      parseResponse hd.event = .ok (w'.requestID, r) ∧ Stage i k r hd.phase w')
    (hothers : ∀ j k, j ≠ i → (j, k) ∈ resolved → hds'[k]? = hds[k]?)
    (hheld : ∀ k hd j r, hds'[k]? = some hd → hd.phase = .holding j r → (j, k) ∈ resolved)
    (hlog : ∀ k, (i, k) ∈ received' ↔ ∃ r, w'.answer = some (k, r))
    (hsame : ∀ j k, j ≠ i → ((j, k) ∈ received' ↔ (j, k) ∈ received)) :
    ResponsesInv (ws.set i w') hds' resolved received' := by
  have hget := getElem?_set_of_some hw w'
  refine ⟨?_, ?_, hheld, h.waiterOnce, h.responseOnce, ?_, hnodup⟩
  · intro j x hx hres
    rcases eq_or_of_set hw hx with ⟨rfl, rfl⟩ | ⟨-, hx⟩
    · exact hclean hres
    · exact h.clean j x hx hres
  · intro j k hmem
    by_cases hj : j = i
    · subst hj
      obtain ⟨hd, r, hrest⟩ := hstage k hmem
      exact ⟨w', hd, r, (hget j).trans (if_pos rfl), hrest⟩
    · obtain ⟨x, hd, r, hx, hk, hrest⟩ := h.stage j k hmem
      exact ⟨x, hd, r, ((hget j).trans (if_neg hj)).trans hx, (hothers j k hj hmem).trans hk, hrest⟩
  · intro j k
    rw [hget]
    by_cases hj : j = i
    · subst hj
      simp only [if_pos, hlog, some.injEq, exists_and_left, exists_eq_left']
    · rw [if_neg hj, hsame j k hj, h.log j k]

theorem ResponsesInv.set_same {hds : List (Handler R)} {resolved received : List (ℕ × ℕ)}
    (h : ResponsesInv ws hds resolved received) (hw : ws[i]? = some w)
    (hid : w'.requestID = w.requestID) (hbuf : w'.buffer = w.buffer)
    (hans : w'.answer = w.answer) : ResponsesInv (ws.set i w') hds resolved received := by
  refine h.set_waiter hw h.nodup ?_ ?_ (fun _ _ _ _ => rfl) h.held ?_ (fun _ _ _ => Iff.rfl)
  · rw [hbuf, hans]
    exact h.clean i w hw
  · intro k hmem
    simp only [hid, Stage, hbuf, hans]
    exact h.stage_of hmem hw
  · intro k
    rw [h.log i k, hw, hans]
    simp only [some.injEq, exists_and_left, exists_eq_left']

end Replace

/-! ## Waiters -/

/-- A waiter that goes on keeps the table and the responses. -/
theorem Inv.moves (hs : Inv s) {w w' : Waiter R} (hw : s.waiters[i]? = some w) (hm : Moves w w') :
    Inv { s with waiters := s.waiters.set i w' } := by
  cases hm with
  | wait hphase =>
    have hund := hs.waiters.undecided i w hw (.inl hphase)
    exact ⟨hs.waiters.set hw rfl (fun _ => hund), hs.table.set hw rfl (by simp [hphase]),
      hs.responses.set_same hw rfl rfl rfl⟩
  | fail hphase err =>
    have hund := hs.waiters.undecided i w hw hphase
    refine ⟨hs.waiters.set hw rfl (by simp), hs.table.set hw rfl ?_,
      hs.responses.set_same hw rfl rfl (by simp [Waiter.answer, hund])⟩
    rcases hphase with hp | hp
    · simp [hp]
    · simp [hp]

theorem Inv.reject (hs : Inv s) (hw : s.waiters[i]? = some w) : Inv (s.rejectPending i w) := by
  refine ⟨hs.waiters.set hw rfl (by simp), hs.table.erase hs.waiters hw ?_ ?_,
    hs.responses.set_same hw rfl rfl rfl⟩
  · intro x hx hret
    rcases eq_or_of_set hw hx with ⟨-, rfl⟩ | ⟨hi, -⟩
    · exact absurd rfl hret
    · exact absurd rfl hi
  · exact fun j hj => ⟨getElem?_set_ne (Ne.symm hj), fun _ => Iff.rfl⟩

/-! ## Adding a waiter -/

section Register

variable {ws : List (Waiter R)} {requestID : String} {resolved received : List (ℕ × ℕ)}

theorem ResponsesInv.not_resolved_length {hds : List (Handler R)}
    (h : ResponsesInv ws hds resolved received) (k : ℕ) : (ws.length, k) ∉ resolved := by
  intro hmem
  obtain ⟨w, -, -, hw, -⟩ := h.stage _ k hmem
  rw [getElem?_eq_none le_rfl] at hw
  cases hw

theorem requestID_ne_of_notMem (hid : requestID ∉ ws.map Waiter.requestID) {j : ℕ}
    {w : Waiter R} (hw : ws[j]? = some w) : w.requestID ≠ requestID := by
  intro heq
  rw [← heq] at hid
  exact hid (mem_map_of_mem (mem_of_getElem? hw))

theorem WaitersInv.snoc (h : WaitersInv ws) (hid : requestID ∉ ws.map Waiter.requestID) :
    WaitersInv (ws ++ [{ requestID := requestID }]) := by
  constructor
  · intro j j' x x' hx hx' heq
    rcases eq_or_of_snoc hx with ⟨hj, rfl⟩ | hx
    · rcases eq_or_of_snoc hx' with ⟨hj', -⟩ | hx'
      · rw [hj, hj']
      · exact absurd heq.symm (requestID_ne_of_notMem hid hx')
    · rcases eq_or_of_snoc hx' with ⟨-, rfl⟩ | hx'
      · exact absurd heq (requestID_ne_of_notMem hid hx)
      · exact h.ids j j' x x' hx hx' heq
  · intro j x hx hphase
    rcases eq_or_of_snoc hx with ⟨-, rfl⟩ | hx
    · rfl
    · exact h.undecided j x hx hphase

theorem TableInv.insert {pending : GoMap String ℕ} (h : TableInv pending ws resolved)
    (hid : requestID ∉ ws.map Waiter.requestID) (hnew : ∀ k, (ws.length, k) ∉ resolved) :
    TableInv (pending.insert requestID ws.length) (ws ++ [{ requestID := requestID }])
      resolved := by
  intro id j
  by_cases heq : id = requestID
  · subst heq
    rw [AList.lookup_insert]
    constructor
    · intro hj
      cases hj
      exact ⟨{ requestID := id }, getElem?_concat_length, rfl, by simp, hnew⟩
    · rintro ⟨x, hx, hxid, -, -⟩
      rcases eq_or_of_snoc hx with ⟨rfl, -⟩ | hx
      · rfl
      · exact absurd hxid (requestID_ne_of_notMem hid hx)
  · rw [AList.lookup_insert_ne heq, h id j]
    constructor
    · rintro ⟨x, hx, hrest⟩
      exact ⟨x, getElem?_snoc_of_some hx _, hrest⟩
    rintro ⟨x, hx, hxid, hrest⟩
    rcases eq_or_of_snoc hx with ⟨-, rfl⟩ | hx
    · exact absurd hxid.symm heq
    · exact ⟨x, hx, hxid, hrest⟩

theorem ResponsesInv.snoc {hds : List (Handler R)} (h : ResponsesInv ws hds resolved received) :
    ResponsesInv (ws ++ [{ requestID := requestID }]) hds resolved received := by
  refine { h with clean := ?_, stage := ?_, log := ?_ }
  · intro j x hx hres
    rcases eq_or_of_snoc hx with ⟨-, rfl⟩ | hx
    · exact ⟨rfl, rfl⟩
    · exact h.clean j x hx hres
  · intro j k hmem
    obtain ⟨x, hd, r, hx, hrest⟩ := h.stage j k hmem
    exact ⟨x, hd, r, getElem?_snoc_of_some hx _, hrest⟩
  · intro j k
    rw [h.log j k]
    constructor
    · rintro ⟨x, r, hx, hans⟩
      exact ⟨x, r, getElem?_snoc_of_some hx _, hans⟩
    rintro ⟨x, r, hx, hans⟩
    rcases eq_or_of_snoc hx with ⟨-, rfl⟩ | hx
    · cases hans
    · exact ⟨x, r, hx, hans⟩

end Register

theorem Inv.register (hs : Inv s) {requestID : String}
    (hid : requestID ∉ s.waiters.map Waiter.requestID) : Inv (s.registerPending requestID) :=
  ⟨hs.waiters.snoc hid, hs.table.insert hid hs.responses.not_resolved_length, hs.responses.snoc⟩

theorem Inv.receive (hs : Inv s) {i k : ℕ} (hw : s.waiters[i]? = some w)
    (hphase : w.phase = .waiting) (hbuf : w.buffer = some (k, r)) : Inv (s.receive i w k r) := by
  have hnone : w.answer = none := by
    rw [Waiter.answer, hs.waiters.undecided i w hw (.inr hphase)]
  have hnever : ∀ k', (i, k') ∉ s.received := by
    intro k'
    rw [hs.responses.log i k']
    rintro ⟨x, r', hx, hans⟩
    obtain rfl := some.inj (hw.symm.trans hx)
    rw [hnone] at hans
    cases hans
  refine ⟨hs.waiters.set hw rfl (by simp), hs.table.set hw rfl (by simp [hphase]),
    hs.responses.set_waiter hw ?_ ?_ ?_ (fun _ _ _ _ => rfl) hs.responses.held ?_ ?_⟩
  · change (s.received ++ [(i, k)]).Nodup
    rw [← concat_eq_append]
    exact hs.responses.nodup.concat (hnever k)
  · intro hclean
    rw [(hs.responses.clean i w hw hclean).1] at hbuf
    cases hbuf
  · -- the response in the channel is the one resolved for this waiter
    intro k' hmem
    obtain ⟨h, r', hk, hparse, hstage⟩ := hs.responses.stage_of hmem hw
    rw [Stage, hbuf] at hstage
    simp only [reduceCtorEq, false_and, and_false, false_or, or_false, some.injEq,
      Prod.mk.injEq] at hstage
    obtain ⟨hfin, ⟨rfl, rfl⟩, -⟩ := hstage
    exact ⟨h, r, hk, hparse, .inr (.inr ⟨hfin, rfl, rfl⟩)⟩
  · intro k'
    change (i, k') ∈ s.received ++ [(i, k)] ↔ _
    rw [mem_append, mem_singleton, or_iff_right (hnever k'), Prod.mk.injEq]
    simp [Waiter.answer, eq_comm]
  · intro j k' hj
    change (j, k') ∈ s.received ++ [(i, k)] ↔ _
    simp [hj]

/-! ## Handlers -/

theorem Inv.arrive (hs : Inv s) (event : Payload R) :
    Inv { s with handlers := s.handlers ++ [⟨event, .arrived⟩] } := by
  refine ⟨hs.waiters, hs.table, { hs.responses with stage := ?_, held := ?_ }⟩
  · intro j k hmem
    obtain ⟨w, h, r, hw, hk, hrest⟩ := hs.responses.stage j k hmem
    exact ⟨w, h, r, hw, getElem?_snoc_of_some hk _, hrest⟩
  · intro k h j r hk hhold
    rcases eq_or_of_snoc hk with ⟨-, rfl⟩ | hk
    · cases hhold
    · exact hs.responses.held k h j r hk hhold

section Take

variable {ws : List (Waiter R)} {i : ℕ} {w : Waiter R} {resolved received : List (ℕ × ℕ)}

theorem mem_snoc_pair {j k' k : ℕ} :
    (j, k') ∈ resolved ++ [(i, k)] ↔ (j, k') ∈ resolved ∨ j = i ∧ k' = k := by
  rw [mem_append, mem_singleton, Prod.mk.injEq]

theorem ResponsesInv.take {hds : List (Handler R)} {k : ℕ} {hd : Handler R} {r : R}
    (h : ResponsesInv ws hds resolved received) (hw : ws[i]? = some w)
    (hunres : ∀ k, (i, k) ∉ resolved) (hk : hds[k]? = some hd) (harr : hd.phase = .arrived)
    (hparse : parseResponse hd.event = .ok (w.requestID, r)) :
    ResponsesInv ws (hds.set k { hd with phase := .holding i r }) (resolved ++ [(i, k)])
      received := by
  obtain ⟨hbuf, hans⟩ := h.clean i w hw hunres
  have hfresh := h.not_resolved_of_arrived hk harr
  have hget := getElem?_set_of_some hk { hd with phase := .holding i r }
  refine ⟨?_, ?_, ?_, ?_, ?_, h.log, h.nodup⟩
  · intro j x hx hnone
    exact h.clean j x hx (fun k' hk' => hnone k' (mem_snoc_pair.mpr (.inl hk')))
  · intro j k' hjk
    rcases mem_snoc_pair.mp hjk with hold | ⟨rfl, rfl⟩
    · obtain ⟨x, hd', r', hx, hk', hrest⟩ := h.stage j k' hold
      have hne : k' ≠ k := fun heq => hfresh j (heq ▸ hold)
      exact ⟨x, hd', r', hx, by rw [hget, if_neg hne]; exact hk', hrest⟩
    · exact ⟨w, _, r, hw, (hget k').trans (if_pos rfl), hparse, .inl ⟨rfl, hbuf, hans⟩⟩
  · intro k' hd' j r' hk' hhold
    rcases eq_or_of_set hk hk' with ⟨rfl, rfl⟩ | ⟨-, hk'⟩
    · obtain ⟨rfl, rfl⟩ := HandlerPhase.holding.inj hhold
      exact mem_snoc_pair.mpr (.inr ⟨rfl, rfl⟩)
    · exact mem_snoc_pair.mpr (.inl (h.held k' hd' j r' hk' hhold))
  · intro j k₁ k₂ h₁ h₂
    rcases mem_snoc_pair.mp h₁ with old₁ | ⟨rfl, rfl⟩
    · rcases mem_snoc_pair.mp h₂ with old₂ | ⟨rfl, rfl⟩
      · exact h.waiterOnce j k₁ k₂ old₁ old₂
      · exact absurd old₁ (hunres k₁)
    · rcases mem_snoc_pair.mp h₂ with old₂ | ⟨-, rfl⟩
      · exact absurd old₂ (hunres k₂)
      · rfl
  · intro j₁ j₂ k' h₁ h₂
    rcases mem_snoc_pair.mp h₁ with old₁ | ⟨rfl, rfl⟩
    · rcases mem_snoc_pair.mp h₂ with old₂ | ⟨rfl, rfl⟩
      · exact h.responseOnce j₁ j₂ k' old₁ old₂
      · exact absurd old₁ (hfresh j₁)
    · rcases mem_snoc_pair.mp h₂ with old₂ | ⟨rfl, -⟩
      · exact absurd old₂ (hfresh j₂)
      · rfl

end Take

/-- Taking an entry out of the table: waiter `i` and response `k` are paired, for the
first time on both sides. -/
theorem Inv.take (hs : Inv s) {k i : ℕ} {requestID : String} (hk : s.handlers[k]? = some h)
    (harr : h.phase = .arrived) (hparse : parseResponse h.event = .ok (requestID, r))
    (hlook : s.pending.lookup requestID = some i) : Inv { s.setHandler k h (.holding i r) with
      pending := s.pending.erase requestID, resolved := s.resolved ++ [(i, k)] } := by
  -- the entry was there, so nothing was resolved for the waiter
  obtain ⟨w, hw, rfl, -, hunres⟩ := (hs.table requestID i).mp hlook
  refine ⟨hs.waiters, hs.table.erase hs.waiters hw ?_ ?_,
    hs.responses.take hw hunres hk harr hparse⟩
  · exact fun _ _ _ hnone => hnone k (mem_snoc_pair.mpr (.inr ⟨rfl, rfl⟩))
  · exact fun j hj => ⟨rfl, fun _ => mem_snoc_pair.trans (or_iff_left (fun h => hj h.1))⟩

/-- The handler that takes a channel out of the table is the only one to use it. -/
theorem Inv.resolve (hs : Inv s) (hk : s.handlers[k]? = some h) (harr : h.phase = .arrived) :
    Inv (s.resolvePending k h) := by
  have hfinish : ∀ err, Inv (s.setHandler k h (.finished err)) := fun err =>
    ⟨hs.waiters, hs.table, hs.responses.set_handler hk harr err⟩
  unfold resolvePending
  split
  · exact hfinish _
  rename_i requestID r hparse
  split
  · exact hfinish _
  · rename_i i hlook
    exact hs.take hk harr hparse hlook

theorem Inv.channel_empty (hs : Inv s) {k i : ℕ} (hk : s.handlers[k]? = some h)
    (hhold : h.phase = .holding i r) :
    ∃ w, s.waiters[i]? = some w ∧ w.buffer = none ∧ w.answer = none ∧
      parseResponse h.event = .ok (w.requestID, r) := by
  obtain ⟨w, h', r', hw, hk', hparse, hstage⟩ :=
    hs.responses.stage i k (hs.responses.held k h i r hk hhold)
  rw [hk] at hk'
  cases hk'
  rw [Stage, hhold] at hstage
  simp only [HandlerPhase.holding.injEq, true_and, reduceCtorEq, false_and, or_false] at hstage
  obtain ⟨rfl, hbuf, hans⟩ := hstage
  exact ⟨w, hw, hbuf, hans, hparse⟩

/-- A response goes to the waiter whose channel the handler holds, or to nobody. -/
theorem Inv.offer (hs : Inv s) {k i : ℕ} (hk : s.handlers[k]? = some h)
    (hhold : h.phase = .holding i r) : Inv (s.offer k h i r) := by
  obtain ⟨w, hw, hbuf, hans, hparse⟩ := hs.channel_empty hk hhold
  have hmem : (i, k) ∈ s.resolved := hs.responses.held k h i r hk hhold
  -- there is room, so the `default` branch is not taken
  have heq : s.offer k h i r = { s with
      handlers := s.handlers.set k { h with phase := .finished none },
      waiters := s.waiters.set i { w with buffer := some (k, r) } } := by
    unfold State.offer
    dsimp only [setHandler]
    rw [hw]
    dsimp only
    rw [hbuf]
  rw [heq]
  have hgeth := getElem?_set_of_some hk { h with phase := .finished none }
  refine ⟨hs.waiters.set hw rfl (fun hphase => hs.waiters.undecided i w hw hphase),
    hs.table.set hw rfl Iff.rfl,
    hs.responses.set_waiter hw hs.responses.nodup ?_ ?_ ?_ ?_ ?_ (fun _ _ _ => Iff.rfl)⟩
  · exact fun hnone => absurd hmem (hnone k)
  · intro k' hjk
    obtain rfl := hs.responses.waiterOnce i k k' hmem hjk
    exact ⟨_, r, (hgeth k).trans (if_pos rfl), hparse, .inr (.inl ⟨rfl, rfl, hans⟩)⟩
  · intro j k' hj hjk
    have hne : k' ≠ k := fun heq => hj (hs.responses.responseOnce j i k (heq ▸ hjk) hmem)
    exact (hgeth k').trans (if_neg hne)
  · intro k' h' j r' hk' hhold'
    rcases eq_or_of_set hk hk' with ⟨-, rfl⟩ | ⟨-, hk'⟩
    · cases hhold'
    · exact hs.responses.held k' h' j r' hk' hhold'
  · intro k'
    rw [hs.responses.log i k', hw]
    simp only [some.injEq, exists_and_left, exists_eq_left']
    rfl

/-! ## Runs -/

/-- Every step keeps waiters, table and responses in agreement. -/
theorem Inv.step {s s' : State R} {a : Action R} (hs : Inv s) (h : s.step a = some s') :
    Inv s' := by
  rcases step_cases h with ⟨id, hid, rfl⟩ | ⟨i, w, w', hw, hm, rfl⟩ |
    ⟨i, w, k, r, hw, hphase, hbuf, rfl⟩ | ⟨i, w, hw, -, rfl⟩ | ⟨event, rfl⟩ |
    ⟨k, hd, hk, harr, rfl⟩ | ⟨k, hd, ch, r, hk, hhold, rfl⟩
  · exact hs.register hid
  · exact hs.moves hw hm
  · exact hs.receive hw hphase hbuf
  · exact hs.reject hw
  · exact hs.arrive event
  · exact hs.resolve hk harr
  · exact hs.offer hk hhold

theorem Inv.apply (hs : Inv s) (a : Action R) : Inv (s.apply a) := by
  unfold State.apply
  cases h : s.step a with
  | none => exact hs
  | some s' => exact hs.step h

theorem inv_run (actions : List (Action R)) : Inv (run actions) :=
  foldlRecOn actions State.apply inv_init (fun _ hs a _ => hs.apply a)

/-! ## What the parties see -/

/-- A response for waiter `i` is on its way, in the channel, or received. -/
def Answered (s : State R) (i : ℕ) : Prop :=
  (∃ (k : ℕ) (h : Handler R) (r : R), s.handlers[k]? = some h ∧ h.phase = .holding i r) ∨
    ∃ w : Waiter R, s.waiters[i]? = some w ∧ (w.buffer ≠ none ∨ w.answer ≠ none)

/-- A call is answered exactly if a handler has resolved it. -/
theorem Inv.answered_iff (hs : Inv s) (i : ℕ) : s.Answered i ↔ ∃ k, (i, k) ∈ s.resolved := by
  constructor
  · rintro (⟨k, h, r, hk, hhold⟩ | ⟨w, hw, hdirty⟩)
    · exact ⟨k, hs.responses.held k h i r hk hhold⟩
    · by_contra hnone
      obtain ⟨hbuf, hans⟩ := hs.responses.clean i w hw (fun k hk => hnone ⟨k, hk⟩)
      rcases hdirty with hne | hne
      · exact hne hbuf
      · exact hne hans
  · rintro ⟨k, hmem⟩
    obtain ⟨w, h, r, hw, hk, -, hstage⟩ := hs.responses.stage i k hmem
    rcases hstage with ⟨hhold, -, -⟩ | ⟨-, hbuf, -⟩ | ⟨-, -, hans⟩
    · exact .inl ⟨k, h, r, hk, hhold⟩
    · exact .inr ⟨w, hw, .inl (by simp [hbuf])⟩
    · exact .inr ⟨w, hw, .inr (by simp [hans])⟩

theorem outcome_of_answer (h : w.answer = some (k, r)) : w.outcome = some (.answered k r) := by
  unfold Waiter.answer at h
  split at h
  · rename_i k' r' hout
    obtain ⟨rfl, rfl⟩ := Prod.mk.inj (some.inj h)
    exact hout
  · cases h

/-- Responses go to one waiter each, to the one that asked, and at most one to each; a handler comes
to its end by its own two steps and finds room in the channel; the table holds the requests that are
not answered and not given up. -/
structure Contract (s : State R) : Prop where
  oneWaiter : ∀ i i' k, (i, k) ∈ s.received → (i', k) ∈ s.received → i = i'
  oneResponse : ∀ i k k', (i, k) ∈ s.received → (i, k') ∈ s.received → k = k'
  once : s.received.Nodup
  ownResponse : ∀ i k, (i, k) ∈ s.received → ∃ (w : Waiter R) (h : Handler R) (r : R),
    s.waiters[i]? = some w ∧ s.handlers[k]? = some h ∧
    parseResponse h.event = .ok (w.requestID, r) ∧ w.outcome = some (.answered k r)
  neverBlocks : ∀ (k : ℕ) (h : Handler R), s.handlers[k]? = some h →
    ∃ err, ((s.apply (.resolve k)).apply (.send k)).handlers[k]?
      = some { h with phase := .finished err }
  room : ∀ (k : ℕ) (h : Handler R) (i : ℕ) (r : R), s.handlers[k]? = some h →
    h.phase = .holding i r → ∃ w : Waiter R, s.waiters[i]? = some w ∧ w.buffer = none
  table : ∀ id, id ∈ s.pending ↔ ∃ (i : ℕ) (w : Waiter R), s.waiters[i]? = some w ∧
    w.requestID = id ∧ ¬ s.Answered i ∧ w.phase ≠ .returned

theorem apply_send {k ch : ℕ} (hk : s.handlers[k]? = some h) (hhold : h.phase = .holding ch r) :
    (s.apply (.send k)).handlers[k]? = some { h with phase := .finished none } := by
  have hstep : s.apply (.send k) = s.offer k h ch r := by
    rw [State.apply, State.step, hk]
    dsimp only
    rw [hhold]
    rfl
  have hset : (s.setHandler k h (.finished none)).handlers[k]?
      = some { h with phase := .finished none } :=
    (getElem?_set_of_some hk _ k).trans (if_pos rfl)
  rw [hstep]
  unfold State.offer
  dsimp only
  split
  · split
    · exact hset
    · exact hset
  · exact hset

theorem apply_send_of_finished {err : Option String} (hk : s.handlers[k]? = some h)
    (hfin : h.phase = .finished err) : s.apply (.send k) = s := by
  rw [State.apply, State.step, hk]
  dsimp only
  rw [hfin]
  rfl

theorem apply_resolve_of_arrived (hk : s.handlers[k]? = some h) (harr : h.phase = .arrived) :
    s.apply (.resolve k) = s.resolvePending k h := by
  rw [State.apply, State.step, hk]
  dsimp only
  rw [harr]
  rfl

theorem apply_resolve_of_not_arrived (hk : s.handlers[k]? = some h) (hne : h.phase ≠ .arrived) :
    s.apply (.resolve k) = s := by
  rw [State.apply, State.step, hk]
  dsimp only
  split
  · rename_i harr
    exact absurd harr hne
  · rfl

/-- A handler is never stuck: two steps end it. -/
theorem handler_finishes (s : State R) (hk : s.handlers[k]? = some h) :
    ∃ err, ((s.apply (.resolve k)).apply (.send k)).handlers[k]?
      = some { h with phase := .finished err } := by
  have hset : ∀ phase, (s.setHandler k h phase).handlers[k]? = some { h with phase := phase } :=
    fun phase => (getElem?_set_of_some hk _ k).trans (if_pos rfl)
  cases hphase : h.phase with
  | arrived =>
    rw [apply_resolve_of_arrived hk hphase]
    unfold State.resolvePending
    split
    · rw [apply_send_of_finished (hset _) rfl]
      exact ⟨_, hset _⟩
    rename_i requestID r hparse
    split
    · rw [apply_send_of_finished (hset _) rfl]
      exact ⟨_, hset _⟩
    · rename_i ch hlook
      have hhold := hset (.holding ch r)
      exact ⟨none, apply_send (h := { h with phase := .holding ch r }) hhold rfl⟩
  | holding ch r =>
    rw [apply_resolve_of_not_arrived hk (by simp [hphase])]
    exact ⟨none, apply_send hk hphase⟩
  | finished err =>
    rw [apply_resolve_of_not_arrived hk (by simp [hphase]), apply_send_of_finished hk hphase]
    refine ⟨err, hk.trans ?_⟩
    rw [← hphase]

theorem Inv.received_resolved (hs : Inv s) {i k : ℕ} (hmem : (i, k) ∈ s.received) :
    (i, k) ∈ s.resolved ∧ ∃ (w : Waiter R) (h : Handler R) (r : R), s.waiters[i]? = some w ∧
      s.handlers[k]? = some h ∧ parseResponse h.event = .ok (w.requestID, r) ∧
      w.outcome = some (.answered k r) := by
  obtain ⟨w, r, hw, hans⟩ := (hs.responses.log i k).mp hmem
  obtain ⟨k', hk'⟩ : ∃ k', (i, k') ∈ s.resolved :=
    (hs.answered_iff i).mp (.inr ⟨w, hw, .inr (by simp [hans])⟩)
  obtain ⟨h, r', hh, hparse, hstage⟩ := hs.responses.stage_of hk' hw
  rw [Stage, hans] at hstage
  simp only [reduceCtorEq, and_false, false_or, some.injEq, Prod.mk.injEq] at hstage
  obtain ⟨-, -, rfl, rfl⟩ := hstage
  exact ⟨hk', w, h, r, hw, hh, hparse, outcome_of_answer hans⟩

theorem Inv.mem_pending_iff (hs : Inv s) (id : String) :
    id ∈ s.pending ↔ ∃ (i : ℕ) (w : Waiter R), s.waiters[i]? = some w ∧ w.requestID = id ∧
      ¬ s.Answered i ∧ w.phase ≠ .returned := by
  rw [← AList.lookup_isSome, isSome_iff_exists]
  apply exists_congr
  intro i
  rw [hs.table id i]
  apply exists_congr
  intro w
  rw [hs.answered_iff i, not_exists]
  tauto

theorem Inv.contract (hs : Inv s) : Contract s where
  oneWaiter := fun i i' k h h' => hs.responses.responseOnce i i' k
    (hs.received_resolved h).1 (hs.received_resolved h').1
  oneResponse := fun i k k' h h' => hs.responses.waiterOnce i k k'
    (hs.received_resolved h).1 (hs.received_resolved h').1
  once := hs.responses.nodup
  ownResponse := fun _ _ h => (hs.received_resolved h).2
  neverBlocks := fun _ _ hk => handler_finishes s hk
  room := fun _ _ _ _ hk hhold => by
    obtain ⟨w, hw, hbuf, -⟩ := hs.channel_empty hk hhold
    exact ⟨w, hw, hbuf⟩
  table := hs.mem_pending_iff

/-- **The pending table keeps its contract** after every sequence of registrations,
responses, timeouts and cancellations. -/
theorem run_contract (actions : List (Action R)) : Contract (run actions) :=
  (inv_run actions).contract

end State

end LinkFlow.Pending
