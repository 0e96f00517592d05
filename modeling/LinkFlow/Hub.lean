/-
The websocket hub (`internal/websocket/server/hub.go`).

A client is tracked in three maps: the set of clients, the clients of each user and the clients
in each room. Unregistering cleans up all three. But a client whose buffer is full is closed and
taken out of the set only, in the middle of a send, and stays in the other two, where the next
send finds its closed channel. `hub_sound_iff` says exactly which operations keep the hub from
sending on or closing a closed channel and its indexes from naming clients that are gone.
-/
import LinkFlow.Lib.Channel
import LinkFlow.Lib.GoMap
import LinkFlow.Lib.Runs

set_option autoImplicit false

namespace LinkFlow.Websocket

open Channel List GoMap

/-! ## The hub -/

/-- The maps of the hub, the send channel and the rooms of every client, and the panic that has
ended the program. `C` are the clients and `M` the messages. -/
structure Hub (C M : Type) where
  clients : GoMap C Bool := ∅
  (userIndex roomIndex : GoMap String (GoMap C Bool) := ∅)
  send : C → Chan M
  rooms : C → GoMap String Bool
  panic : Option Panic := none

/-- The operations, with the orders of their maps. `buffer` is what a client's goroutines do to its
channel. -/
inductive Op (C M : Type)
  | register (client : C)
  | unregister (order : RangeOrder) (client : C)
  | broadcast (order : RangeOrder) (message : M)
  | sendToUser (order : RangeOrder) (userID : String) (message : M)
  | sendToRoom (order : RangeOrder) (room : String) (message : M)
  | joinRoom (client : C) (room : String)
  | leaveRoom (client : C) (room : String)
  | buffer (client : C) (buf : List M)

namespace Hub

variable {C M : Type} [DecidableEq C] (userID : C → String) (h : Hub C M)

def crash (p : Panic) : Hub C M := { h with panic := some p }

def registerClient (client : C) : Hub C M :=
  { h with
    clients := h.clients.insert client true
    userIndex :=
      if userID client ≠ "" then h.userIndex.addAt (userID client) client else h.userIndex }

def unregisterClient (order : RangeOrder) (client : C) : Hub C M :=
  if client ∈ h.clients then
    -- the client is deleted before its channel is closed, which nobody sees after a panic
    match (h.send client).close with
    | .error p => h.crash p
    | .ok closed =>
      { h with
        clients := h.clients.erase client
        send := Function.update h.send client closed
        userIndex :=
          if userID client ≠ "" then h.userIndex.removeAt (userID client) client
          else h.userIndex
        roomIndex := (GoMap.rangeKeys order 81 (h.rooms client)).foldl
          (fun index room => index.removeAt room client) h.roomIndex }
  else h

/-- The `select` of the three sends: where the channel takes no message it is closed and the client
is deleted from `h.clients`. Nothing happens after a panic. -/
def deliver (message : M) (h : Hub C M) (client : C) : Hub C M :=
  match h.panic with
  | some _ => h
  | none => match (h.send client).send message with
    | .error p => h.crash p
    | .ok (some sent) => { h with send := Function.update h.send client sent }
    | .ok none => match (h.send client).close with
      | .error p => h.crash p
      | .ok closed =>
        { h with send := Function.update h.send client closed, clients := h.clients.erase client }

def deliverAll (order : RangeOrder) (line : ℕ) (clients : GoMap C Bool) (message : M) : Hub C M :=
  (GoMap.rangeKeys order line clients).foldl (deliver message) h

def broadcastMessage (order : RangeOrder) (message : M) : Hub C M :=
  h.deliverAll order 98 h.clients message

def sendToUser (order : RangeOrder) (user : String) (message : M) : Hub C M :=
  h.deliverAll order 114 (h.userIndex.get ∅ user) message

def sendToRoom (order : RangeOrder) (room : String) (message : M) : Hub C M :=
  h.deliverAll order 131 (h.roomIndex.get ∅ room) message

def joinRoom (client : C) (room : String) : Hub C M :=
  { h with
    roomIndex := h.roomIndex.addAt room client,
    rooms := Function.update h.rooms client ((h.rooms client).insert room true) }

def leaveRoom (client : C) (room : String) : Hub C M :=
  { h with
    roomIndex := h.roomIndex.removeAt room client,
    rooms := Function.update h.rooms client ((h.rooms client).erase room) }

def setBuffer (client : C) (buf : List M) : Hub C M :=
  { h with send := Function.update h.send client { h.send client with buf } }

def step (h : Hub C M) (op : Op C M) : Hub C M :=
  match h.panic with
  | some _ => h
  | none => match op with
    | .register client => h.registerClient userID client
    | .unregister order client => h.unregisterClient userID order client
    | .broadcast order message => h.broadcastMessage order message
    | .sendToUser order user message => h.sendToUser order user message
    | .sendToRoom order room message => h.sendToRoom order room message
    | .joinRoom client room => h.joinRoom client room
    | .leaveRoom client room => h.leaveRoom client room
    | .buffer client buf => h.setBuffer client buf

/-! ## What must hold -/

/-- No send on and no close of a closed channel so far, and the indexes name registered clients
only. -/
structure Sound : Prop where
  alive : h.panic = none
  users : ∀ user client, h.userIndex.MemAt user client → client ∈ h.clients
  rooms : ∀ room client, h.roomIndex.MemAt room client → client ∈ h.clients

def Open (client : C) : Prop := (h.send client).closed = false

def Full (client : C) : Prop := ¬ (h.send client).buf.length < (h.send client).cap

def Unindexed (client : C) : Prop :=
  (∀ user, ¬ h.userIndex.MemAt user client) ∧ ∀ room, ¬ h.roomIndex.MemAt room client

/-- What each operation needs. -/
def Ok : Op C M → Prop
  | .register _ | .leaveRoom _ _ | .buffer _ _ => True
  | .unregister _ client => client ∈ h.clients → h.Open client
  | .broadcast _ _ => ∀ client ∈ h.clients, h.Open client ∧ (h.Full client → h.Unindexed client)
  | .sendToUser _ user _ =>
    ∀ client, h.userIndex.MemAt user client → h.Open client ∧ ¬ h.Full client
  | .sendToRoom _ room _ =>
    ∀ client, h.roomIndex.MemAt room client → h.Open client ∧ ¬ h.Full client
  | .joinRoom client _ => client ∈ h.clients

end Hub

/-! ## Sending to a set of clients -/

namespace Hub

variable {C M : Type} [DecidableEq C] {h : Hub C M} {message : M}

theorem foldl_deliver_of_panic {p : Panic} (hp : h.panic = some p) (l : List C) :
    l.foldl (deliver message) h = h := by
  induction l with
  | nil => rfl
  | cons client l ih =>
    have hsame : deliver message h client = h := by rw [deliver, hp]
    rw [foldl_cons, hsame, ih]

/-- What a loop over clients does: it panics exactly if one of them is closed, and it takes those
out of the set that are full. -/
structure Delivered (l : List C) (h h' : Hub C M) : Prop where
  alive : h'.panic = none ↔ ∀ client ∈ l, h.Open client
  clients : h'.panic = none → ∀ client, client ∈ h'.clients ↔
    client ∈ h.clients ∧ ¬ (client ∈ l ∧ h.Full client)
  userIndex : h'.userIndex = h.userIndex
  roomIndex : h'.roomIndex = h.roomIndex
  rooms : h'.rooms = h.rooms

variable {l : List C} {h' : Hub C M}

theorem Delivered.cons {client : C} {h₁ h' : Hub C M} (hnot : client ∉ l) (hopen : h.Open client)
    (hrest : Delivered l h₁ h') (hsend : ∀ c, c ≠ client → h₁.send c = h.send c)
    (hclients : ∀ c, c ∈ h₁.clients ↔ c ∈ h.clients ∧ ¬ (c = client ∧ h.Full client))
    (husers : h₁.userIndex = h.userIndex) (hrooms : h₁.roomIndex = h.roomIndex)
    (hown : h₁.rooms = h.rooms) : Delivered (client :: l) h h' := by
  have hne : ∀ c ∈ l, c ≠ client := fun c hc heq => hnot (heq ▸ hc)
  have hopen_iff : ∀ c ∈ l, (h₁.Open c ↔ h.Open c) := fun c hc => by
    rw [Open, hsend c (hne c hc), Open]
  have hfull_iff : ∀ c ∈ l, (h₁.Full c ↔ h.Full c) := fun c hc => by
    rw [Full, hsend c (hne c hc), Full]
  refine ⟨?_, fun halive c => ?_, hrest.userIndex.trans husers, hrest.roomIndex.trans hrooms,
    hrest.rooms.trans hown⟩
  · rw [hrest.alive, forall_mem_cons]
    rw [forall₂_congr hopen_iff]
    exact (and_iff_right hopen).symm
  · rw [hrest.clients halive c, hclients c, mem_cons]
    by_cases hc : c ∈ l
    · have hcl : c ≠ client := hne c hc
      simp [hc, hcl, hfull_iff c hc]
    by_cases hcl : c = client
    · subst hcl
      simp [hc]
    · simp [hc, hcl]

/-- A broadcast sends to every open client, and drops those whose buffer is full. -/
theorem delivered_foldl (hl : l.Nodup) (halive : h.panic = none) :
    Delivered l h (l.foldl (deliver message) h) := by
  induction l generalizing h with
  | nil => exact ⟨by simpa using halive, fun _ c => by simp, rfl, rfl, rfl⟩
  | cons client l ih =>
    obtain ⟨hnot, hl⟩ := nodup_cons.mp hl
    rw [foldl_cons]
    cases hclosed : (h.send client).closed with
    | true =>
      -- the send panics, and the rest of the loop is not run
      have hcrash : deliver message h client = h.crash .sendOnClosedChannel := by
        rw [deliver, halive]
        simp only [Chan.send_closed hclosed]
      rw [hcrash, foldl_deliver_of_panic rfl]
      refine ⟨iff_of_false (by simp [crash]) (fun hall => ?_), fun hpanic => ?_, rfl, rfl, rfl⟩
      · have hopen := hall client mem_cons_self
        rw [Open, hclosed] at hopen
        cases hopen
      · cases hpanic
    | false =>
      by_cases hroom : (h.send client).buf.length < (h.send client).cap
      · have hsent : deliver message h client = { h with
            send := Function.update h.send client
              { h.send client with buf := (h.send client).buf ++ [message] } } := by
          rw [deliver, halive]
          simp only [Chan.send, hclosed, hroom, if_true, Bool.false_eq_true, if_false]
        rw [hsent]
        refine Delivered.cons hnot hclosed (ih hl halive) ?_ ?_ rfl rfl rfl
        · exact fun c hc => Function.update_of_ne hc _ _
        · intro c
          exact (and_iff_left (fun hfull => hfull.2 hroom)).symm
      · -- the client is dropped, and the loop goes on with the others
        have hdropped : deliver message h client = { h with
            send := Function.update h.send client { h.send client with closed := true },
            clients := h.clients.erase client } := by
          rw [deliver, halive]
          simp only [Chan.send, hclosed, hroom, Bool.false_eq_true, if_false,
            Chan.close_open hclosed]
        rw [hdropped]
        refine Delivered.cons hnot hclosed (ih hl halive) ?_ ?_ rfl rfl rfl
        · exact fun c hc => Function.update_of_ne hc _ _
        · intro c
          rw [AList.mem_erase, and_comm]
          exact and_congr_right (fun _ => (not_congr (and_iff_left hroom)).symm)

theorem delivered_deliverAll (halive : h.panic = none) (order : RangeOrder) (line : ℕ)
    (clients : GoMap C Bool) (message : M) :
    Delivered (GoMap.rangeKeys order line clients) h (h.deliverAll order line clients message) :=
  delivered_foldl (rangeKeys_nodup order line clients) halive

/-! ## Leaving the indexes -/

theorem memAt_removeRooms (rooms : List String) (index : GoMap String (GoMap C Bool))
    (client c : C) (room : String) :
    (rooms.foldl (fun index room => index.removeAt room client) index).MemAt room c ↔
      index.MemAt room c ∧ ¬ (room ∈ rooms ∧ c = client) := by
  induction rooms generalizing index with
  | nil => simp
  | cons r rooms ih =>
    rw [foldl_cons, ih, memAt_removeAt, mem_cons]
    tauto

/-- What an operation that meets `Ok` keeps: a client is found only under its own user and in its
own rooms, which is where unregistering looks for it. -/
structure Inv (userID : C → String) (h : Hub C M) : Prop extends Sound h where
  own_user : ∀ user client, h.userIndex.MemAt user client → user = userID client ∧ user ≠ ""
  own_room : ∀ room client, h.roomIndex.MemAt room client → room ∈ h.rooms client

variable {userID : C → String}

/-! ## One operation

Each lemma says when the operation keeps the hub sound. -/

theorem Inv.register (hinv : Inv userID h) (client : C) :
    Inv userID (h.registerClient userID client) := by
  have hmem : ∀ user c, (h.registerClient userID client).userIndex.MemAt user c →
      (user = userID client ∧ c = client ∧ user ≠ "") ∨ h.userIndex.MemAt user c := by
    intro user c hc
    rw [registerClient] at hc
    split_ifs at hc with hid
    · rcases (memAt_addAt _ _ _ _ _).mp hc with ⟨hu, hcl⟩ | hold
      · exact .inl ⟨hu, hcl, hu ▸ hid⟩
      · exact .inr hold
    · exact .inr hc
  refine ⟨⟨hinv.alive, fun user c hc => ?_, fun room c hc => ?_⟩, fun user c hc => ?_,
    hinv.own_room⟩
  · rw [registerClient, AList.mem_insert]
    rcases hmem user c hc with ⟨-, hcl, -⟩ | hold
    · exact .inl hcl
    · exact .inr (hinv.users user c hold)
  · exact (AList.mem_insert _).mpr (.inr (hinv.rooms room c hc))
  · rcases hmem user c hc with ⟨hu, rfl, hne⟩ | hold
    · exact ⟨hu, hne⟩
    · exact hinv.own_user user c hold

/-- An open client that leaves is taken out of every index. -/
theorem Inv.unregister (hinv : Inv userID h) (order : RangeOrder) (client : C)
    (hok : client ∈ h.clients → h.Open client) :
    Inv userID (h.unregisterClient userID order client) := by
  rw [unregisterClient]
  by_cases hreg : client ∈ h.clients
  · rw [if_pos hreg, Chan.close_open (hok hreg)]
    -- its own user and its own rooms are all the places the client was in
    have husers : ∀ user c, (if userID client ≠ "" then
          h.userIndex.removeAt (userID client) client else h.userIndex).MemAt user c →
        h.userIndex.MemAt user c ∧ c ≠ client := by
      intro user c hc
      split_ifs at hc with hid
      · obtain ⟨hold, hnot⟩ := (memAt_removeAt _ _ _ _ _).mp hc
        refine ⟨hold, ?_⟩
        rintro rfl
        exact hnot ⟨(hinv.own_user user c hold).1, rfl⟩
      · refine ⟨hc, ?_⟩
        rintro rfl
        obtain ⟨hu, hne⟩ := hinv.own_user user c hc
        exact hid (hu ▸ hne)
    have hrooms : ∀ room c, ((rangeKeys order 81 (h.rooms client)).foldl
          (fun index room => index.removeAt room client) h.roomIndex).MemAt room c →
        h.roomIndex.MemAt room c ∧ c ≠ client := by
      intro room c hc
      obtain ⟨hold, hnot⟩ := (memAt_removeRooms _ _ _ _ _).mp hc
      refine ⟨hold, ?_⟩
      rintro rfl
      exact hnot ⟨(mem_rangeKeys _ _ _ _).mpr (hinv.own_room room c hold), rfl⟩
    refine ⟨⟨hinv.alive, fun user c hc => ?_, fun room c hc => ?_⟩, fun user c hc => ?_,
      fun room c hc => ?_⟩
    · obtain ⟨hold, hne⟩ := husers user c hc
      exact AList.mem_erase.mpr ⟨hne, hinv.users user c hold⟩
    · obtain ⟨hold, hne⟩ := hrooms room c hc
      exact AList.mem_erase.mpr ⟨hne, hinv.rooms room c hold⟩
    · exact hinv.own_user user c (husers user c hc).1
    · exact hinv.own_room room c (hrooms room c hc).1
  · rw [if_neg hreg]
    exact hinv

omit [DecidableEq C] in
/-- A send keeps the hub sound exactly if nobody it reaches is closed, and nobody it drops is in
an index. -/
theorem Delivered.sound_iff (hdel : Delivered l h h') (hsound : Sound h) :
    Sound h' ↔ ∀ client ∈ l, h.Open client ∧ (h.Full client → h.Unindexed client) := by
  constructor
  · intro hs client hmem
    refine ⟨hdel.alive.mp hs.alive client hmem, fun hfull => ⟨fun user hu => ?_, fun room hr => ?_⟩⟩
    · rw [← hdel.userIndex] at hu
      exact ((hdel.clients hs.alive client).mp (hs.users user client hu)).2 ⟨hmem, hfull⟩
    · rw [← hdel.roomIndex] at hr
      exact ((hdel.clients hs.alive client).mp (hs.rooms room client hr)).2 ⟨hmem, hfull⟩
  · intro hall
    have halive : h'.panic = none := hdel.alive.mpr (fun client hmem => (hall client hmem).1)
    refine ⟨halive, fun user client hu => ?_, fun room client hr => ?_⟩
    · rw [hdel.userIndex] at hu
      refine (hdel.clients halive client).mpr ⟨hsound.users user client hu, fun hdrop => ?_⟩
      exact ((hall client hdrop.1).2 hdrop.2).1 user hu
    · rw [hdel.roomIndex] at hr
      refine (hdel.clients halive client).mpr ⟨hsound.rooms room client hr, fun hdrop => ?_⟩
      exact ((hall client hdrop.1).2 hdrop.2).2 room hr

omit [DecidableEq C] in
/-- A broadcast that leaves the hub sound keeps the invariant. -/
theorem Delivered.inv (hdel : Delivered l h h') (hinv : Inv userID h) (hsound : Sound h') :
    Inv userID h' := by
  refine ⟨hsound, ?_, ?_⟩
  · rw [hdel.userIndex]
    exact hinv.own_user
  · rw [hdel.roomIndex, hdel.rooms]
    exact hinv.own_room

theorem sound_broadcast (hsound : Sound h) (order : RangeOrder) (message : M) :
    Sound (h.broadcastMessage order message) ↔ h.Ok (.broadcast order message) := by
  rw [broadcastMessage, (delivered_deliverAll hsound.alive _ _ _ _).sound_iff hsound]
  simp only [mem_rangeKeys, Ok]

omit [DecidableEq C] in
theorem Delivered.sound_iff_of_indexed (hdel : Delivered l h h') (hsound : Sound h)
    (hindexed : ∀ client ∈ l, ¬ h.Unindexed client) :
    Sound h' ↔ ∀ client ∈ l, h.Open client ∧ ¬ h.Full client := by
  rw [hdel.sound_iff hsound]
  refine forall₂_congr (fun client hmem => and_congr_right (fun _ => ?_))
  constructor
  · intro hdrop hfull
    exact hindexed client hmem (hdrop hfull)
  · intro hroomy hfull
    exact absurd hfull hroomy

theorem sound_sendToUser (hsound : Sound h) (order : RangeOrder) (user : String) (message : M) :
    Sound (h.sendToUser order user message) ↔ h.Ok (.sendToUser order user message) := by
  rw [sendToUser, (delivered_deliverAll hsound.alive _ _ _ _).sound_iff_of_indexed hsound]
  · simp only [mem_rangeKeys, Ok, GoMap.MemAt]
  · intro client hmem hnone
    exact hnone.1 user ((mem_rangeKeys _ _ _ _).mp hmem)

theorem sound_sendToRoom (hsound : Sound h) (order : RangeOrder) (room : String) (message : M) :
    Sound (h.sendToRoom order room message) ↔ h.Ok (.sendToRoom order room message) := by
  rw [sendToRoom, (delivered_deliverAll hsound.alive _ _ _ _).sound_iff_of_indexed hsound]
  · simp only [mem_rangeKeys, Ok, GoMap.MemAt]
  · intro client hmem hnone
    exact hnone.2 room ((mem_rangeKeys _ _ _ _).mp hmem)

theorem Inv.joinRoom (hinv : Inv userID h) (client : C) (room : String)
    (hreg : client ∈ h.clients) : Inv userID (h.joinRoom client room) := by
  refine ⟨⟨hinv.alive, hinv.users, fun r c hc => ?_⟩, hinv.own_user, fun r c hc => ?_⟩
  · rcases (memAt_addAt _ _ _ _ _).mp hc with ⟨-, rfl⟩ | hold
    · exact hreg
    · exact hinv.rooms r c hold
  · simp only [Hub.joinRoom, Function.update_apply]
    rcases (memAt_addAt _ _ _ _ _).mp hc with ⟨rfl, rfl⟩ | hold
    · rw [if_pos rfl]
      exact (AList.mem_insert _).mpr (.inl rfl)
    have hown := hinv.own_room r c hold
    split_ifs with hcl
    · exact (AList.mem_insert _).mpr (.inr (hcl ▸ hown))
    · exact hown

theorem Inv.leaveRoom (hinv : Inv userID h) (client : C) (room : String) :
    Inv userID (h.leaveRoom client room) := by
  have hold : ∀ r c, (h.leaveRoom client room).roomIndex.MemAt r c →
      h.roomIndex.MemAt r c ∧ ¬ (r = room ∧ c = client) :=
    fun r c hc => (memAt_removeAt _ _ _ _ _).mp hc
  refine ⟨⟨hinv.alive, hinv.users, fun r c hc => hinv.rooms r c (hold r c hc).1⟩, hinv.own_user,
    fun r c hc => ?_⟩
  obtain ⟨hmem, hnot⟩ := hold r c hc
  have hown := hinv.own_room r c hmem
  simp only [Hub.leaveRoom, Function.update_apply]
  split_ifs with hcl
  · exact AList.mem_erase.mpr ⟨fun hr => hnot ⟨hr, hcl⟩, hcl ▸ hown⟩
  · exact hown

theorem Inv.setBuffer (hinv : Inv userID h) (client : C) (buf : List M) :
    Inv userID (h.setBuffer client buf) :=
  ⟨⟨hinv.alive, hinv.users, hinv.rooms⟩, hinv.own_user, hinv.own_room⟩

/-- Steps that meet their condition keep the indexes in agreement. -/
theorem Inv.step (hinv : Inv userID h) (op : Op C M) (hok : h.Ok op) :
    Inv userID (h.step userID op) := by
  rw [Hub.step.eq_def, hinv.alive]
  cases op with
  | register client => exact hinv.register client
  | unregister order client => exact hinv.unregister order client hok
  | broadcast order message =>
    exact (delivered_deliverAll hinv.alive _ _ _ _).inv hinv
      ((sound_broadcast hinv.toSound order message).mpr hok)
  | sendToUser order user message =>
    exact (delivered_deliverAll hinv.alive _ _ _ _).inv hinv
      ((sound_sendToUser hinv.toSound order user message).mpr hok)
  | sendToRoom order room message =>
    exact (delivered_deliverAll hinv.alive _ _ _ _).inv hinv
      ((sound_sendToRoom hinv.toSound order room message).mpr hok)
  | joinRoom client room => exact hinv.joinRoom client room hok
  | leaveRoom client room => exact hinv.leaveRoom client room
  | buffer client buf => exact hinv.setBuffer client buf

/-- A step that leaves the hub sound has met its condition. -/
theorem ok_of_sound_step (hinv : Inv userID h) (op : Op C M)
    (hsound : Sound (h.step userID op)) : h.Ok op := by
  rw [Hub.step.eq_def, hinv.alive] at hsound
  cases op with
  | register client => exact trivial
  | unregister order client =>
    intro hreg
    cases hclosed : (h.send client).closed with
    | false => exact hclosed
    | true =>
      have hcrash : h.unregisterClient userID order client = h.crash .closeOfClosedChannel := by
        rw [unregisterClient, if_pos hreg, Chan.close_closed hclosed]
      have halive := hsound.alive
      simp only [hcrash] at halive
      cases halive
  | broadcast order message => exact (sound_broadcast hinv.toSound order message).mp hsound
  | sendToUser order user message =>
    exact (sound_sendToUser hinv.toSound order user message).mp hsound
  | sendToRoom order room message =>
    exact (sound_sendToRoom hinv.toSound order room message).mp hsound
  | joinRoom client room =>
    exact hsound.rooms room client ((memAt_addAt _ _ _ _ _).mpr (.inl ⟨rfl, rfl⟩))
  | leaveRoom client room => exact trivial
  | buffer client buf => exact trivial

/-- `NewHub`, with the clients that will connect. -/
def new (send : C → Chan M) (rooms : C → GoMap String Bool) : Hub C M := { send, rooms }

omit [DecidableEq C] in
theorem inv_new (send : C → Chan M) (rooms : C → GoMap String Bool) : Inv userID (new send rooms) :=
  ⟨⟨rfl, fun _ _ hc => absurd hc (AList.notMem_empty _),
    fun _ _ hc => absurd hc (AList.notMem_empty _)⟩,
    fun _ _ hc => absurd hc (AList.notMem_empty _), fun _ _ hc => absurd hc (AList.notMem_empty _)⟩

/-! ## Every sequence of operations -/

/-- Over any operations the hub never sends on or closes a closed channel and indexes registered
clients only, exactly if every operation meets `Ok`: a client that is unregistered was not closed
before, a broadcast drops no client with a user or a room, a send to a user or a room drops nobody,
and nobody joins a room unregistered. -/
theorem hub_sound_iff (userID : C → String) (send : C → Chan M) (rooms : C → GoMap String Bool)
    (ops : List (Op C M)) : Runs.Always (step userID) Sound (new send rooms) ops ↔
      Runs.Along (step userID) Ok (new send rooms) ops :=
  Runs.always_iff_along_of_strengthen (fun _ hinv => hinv.toSound)
    (fun _ op hinv hok => hinv.step op hok) (fun _ op hinv hs => ok_of_sound_step hinv op hs)
    (inv_new send rooms)

/-- A hub whose clients belong to one user and have room for one message. -/
def adaHub : Hub ℕ String := new (fun _ => { cap := 1 }) (fun _ => ∅)

def adaRun (ops : List (Op ℕ String)) : Hub ℕ String := ops.foldl (step (fun _ => "ada")) adaHub

def droppedByBroadcast : List (Op ℕ String) :=
  [.register 7, .broadcast RangeOrder.stored "a", .broadcast RangeOrder.stored "b"]

def droppedBySendToUser : List (Op ℕ String) :=
  [.register 7, .sendToUser RangeOrder.stored "ada" "a", .sendToUser RangeOrder.stored "ada" "b"]

def droppedBySendToRoom : List (Op ℕ String) :=
  [.register 7, .joinRoom 7 "ops", .sendToRoom RangeOrder.stored "ops" "a",
    .sendToRoom RangeOrder.stored "ops" "b"]

def joinedAfterLeaving : List (Op ℕ String) :=
  [.register 7, .unregister RangeOrder.stored 7, .joinRoom 7 "ops"]

/-- Of a client that nobody reads from: a broadcast, a send to its user and one to its room drop it
and leave it indexed, and the next send is on the closed channel. A client can join a room after it
has left. -/
theorem slow_client_stays : ¬ Runs.Always (step (fun _ => "ada")) Sound adaHub droppedByBroadcast ∧
      7 ∉ (adaRun droppedByBroadcast).clients ∧
      (adaRun droppedByBroadcast).userIndex.MemAt "ada" 7 ∧
      (adaRun (droppedByBroadcast ++ [.sendToUser RangeOrder.stored "ada" "c"])).panic =
        some .sendOnClosedChannel ∧
      (7 ∉ (adaRun droppedBySendToUser).clients ∧
        (adaRun droppedBySendToUser).userIndex.MemAt "ada" 7) ∧
      (7 ∉ (adaRun droppedBySendToRoom).clients ∧
        (adaRun droppedBySendToRoom).roomIndex.MemAt "ops" 7) ∧
      (7 ∉ (adaRun joinedAfterLeaving).clients ∧
        (adaRun joinedAfterLeaving).roomIndex.MemAt "ops" 7) := by
  have hgone : 7 ∉ (adaRun droppedByBroadcast).clients := by decide +kernel
  have hindexed : (adaRun droppedByBroadcast).userIndex.MemAt "ada" 7 := by decide +kernel
  refine ⟨fun halways => ?_, hgone, hindexed, by decide +kernel, by decide +kernel,
    by decide +kernel, by decide +kernel⟩
  have hsound : Sound (adaRun droppedByBroadcast) := halways.last
  exact hgone (hsound.users "ada" 7 hindexed)

end Hub

end LinkFlow.Websocket
