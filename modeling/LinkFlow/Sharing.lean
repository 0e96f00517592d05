/-
Workflow shares (`internal/workflow/app/sharing/manager.go`): the share table, and the two
functions that read permissions off it.

Permissions are open strings, since `CheckPermission` is asked about whatever string its
caller has. `hierarchy` ranks them, with 0 for a string that is no permission, and
`getPermissionSet` lists what a permission includes; the sets are the ranks read downwards,
without 0 (`mem_getPermissionSet`). That one fact decides where the two functions agree
(`checkPermission_iff_mem_getUserPermissions`).

Instants are integers. Queries succeed: an error of the database counts as "no row" in the
source.
-/
import LinkFlow.Lib.GoMap

set_option autoImplicit false

namespace LinkFlow.Sharing

open Option

def permissionView : String := "view"
def permissionEdit : String := "edit"
def permissionExecute : String := "execute"
def permissionAdmin : String := "admin"

def shareTypeUser : String := "user"
def shareTypePublic : String := "public"

def errInvalidPermission : String := "invalid permission level"

/-! ## The table -/

structure WorkflowShare where
  (id workflowID : String)
  sharedWithID : String := ""
  (sharedWithType permission : String)
  sharedBy : String := ""
  expiresAt : Option ℤ := none
  (createdAt updatedAt : ℤ := 0)
deriving DecidableEq, Repr

/-- `expires_at IS NULL OR expires_at > now` -/
def WorkflowShare.liveAt (now : ℤ) (s : WorkflowShare) : Bool := s.expiresAt.all (now < ·)

/-- The `workflow_shares` table. -/
structure Table where
  rows : List WorkflowShare
  nodup : (rows.map WorkflowShare.id).Nodup

namespace Table

/-- No shares. -/
def empty : Table := ⟨[], List.nodup_nil⟩

/-- The rows that meet `keep`. -/
def filter (keep : WorkflowShare → Bool) (t : Table) : Table where
  rows := t.rows.filter keep
  nodup := t.nodup.sublist (List.Sublist.map _ List.filter_sublist)

/-- `Where(p).First(&share)`: the row with the least primary key among those that match. -/
def first (p : WorkflowShare → Bool) (t : Table) : Option WorkflowShare :=
  (t.rows.filter p).argmin WorkflowShare.id

/-- `Save` of a row that was read. -/
def save (s : WorkflowShare) (t : Table) : Table where
  rows := t.rows.map (fun r => if r.id = s.id then s else r)
  nodup := by
    have hids : (t.rows.map (fun r => if r.id = s.id then s else r)).map WorkflowShare.id
        = t.rows.map WorkflowShare.id := by
      rw [List.map_map]
      refine List.map_congr_left (fun r _ => ?_)
      by_cases h : r.id = s.id
      · simp [h]
      · simp [h]
    rw [hids]
    exact t.nodup

/-- `Create`, which fails on a primary key that is taken. -/
def create (s : WorkflowShare) (t : Table) : Option Table :=
  if h : s.id ∈ t.rows.map WorkflowShare.id then none
  else some ⟨s :: t.rows, List.nodup_cons.mpr ⟨h, t.nodup⟩⟩

def directShare (t : Table) (now : ℤ) (workflowID userID : String) : Option WorkflowShare :=
  t.first (fun s => s.workflowID = workflowID ∧ s.sharedWithID = userID
    ∧ s.sharedWithType = shareTypeUser ∧ s.liveAt now)

/-- The query for a public share of the workflow, as both readers write it. It does not look
at `expires_at`. -/
def publicShare (t : Table) (workflowID : String) : Option WorkflowShare :=
  t.first (fun s => s.workflowID = workflowID ∧ s.sharedWithType = shareTypePublic)

end Table

/-! ## The functions -/

def isValidPermission (permission : String) : Bool :=
  permission ∈ [permissionView, permissionEdit, permissionExecute, permissionAdmin]

/-- The map `hierarchy` of `hasPermission`, read with Go's zero for a missing key. -/
def hierarchy (permission : String) : ℕ :=
  if permission = permissionView then 1
  else if permission = permissionExecute then 2
  else if permission = permissionEdit then 3
  else if permission = permissionAdmin then 4
  else 0

def hasPermission (grantedPermission requiredPermission : String) : Bool :=
  hierarchy grantedPermission ≥ hierarchy requiredPermission

def getPermissionSet (permission : String) : List String :=
  if permission = permissionAdmin then
    [permissionView, permissionExecute, permissionEdit, permissionAdmin]
  else if permission = permissionEdit then [permissionView, permissionExecute, permissionEdit]
  else if permission = permissionExecute then [permissionView, permissionExecute]
  else if permission = permissionView then [permissionView]
  else []

/-- `ShareWorkflow`, with the ID it draws for a new row. -/
def shareWorkflow (now : ℤ) (newID : String) (share : WorkflowShare) (t : Table) :
    Except String Table :=
  if ¬ isValidPermission share.permission then .error errInvalidPermission
  else
    match t.first (fun s => s.workflowID = share.workflowID
        ∧ s.sharedWithID = share.sharedWithID ∧ s.sharedWithType = share.sharedWithType) with
    | some existing =>
      .ok (t.save { existing with
        permission := share.permission, expiresAt := share.expiresAt, updatedAt := now })
    | none =>
      match t.create { share with id := newID, createdAt := now, updatedAt := now } with
      | some t => .ok t
      | none => .error "failed to create share"

def cleanupExpiredShares (now : ℤ) (t : Table) : Table :=
  t.filter (fun s => ¬ s.expiresAt.any (· < now))

def checkPermission (t : Table) (now : ℤ) (workflowID userID permission : String) : Bool :=
  match t.directShare now workflowID userID with
  | some share => hasPermission share.permission permission
  | none =>
    match t.publicShare workflowID with
    | some share => hasPermission share.permission permission
    | none => false

/-- `permissions[perm] = true` for the permissions of a share that was found. -/
def addPermissions (permissions : GoMap String Bool) (share : Option WorkflowShare) :
    GoMap String Bool :=
  match share with
  | some share => (getPermissionSet share.permission).foldl (fun m perm => m.insert perm true)
      permissions
  | none => permissions

def getUserPermissions (ρ : RangeOrder) (t : Table) (now : ℤ) (workflowID userID : String) :
    List String :=
  let permissions := addPermissions ∅ (t.directShare now workflowID userID)
  let permissions := addPermissions permissions (t.publicShare workflowID)
  GoMap.rangeKeys ρ 338 permissions

/-! ## Ranks and sets -/

theorem hierarchy_cases (p : String) :
    p = permissionView ∨ p = permissionExecute ∨ p = permissionEdit ∨ p = permissionAdmin ∨
      (p ≠ permissionView ∧ p ≠ permissionExecute ∧ p ≠ permissionEdit ∧ p ≠ permissionAdmin) := by
  tauto

theorem isValidPermission_iff (p : String) : isValidPermission p = true ↔ 1 ≤ hierarchy p := by
  obtain rfl | rfl | rfl | rfl | ⟨hv, hx, he, ha⟩ := hierarchy_cases p
  · decide
  · decide
  · decide
  · decide
  · simp [isValidPermission, hierarchy, hv, hx, he, ha]

theorem hierarchy_eq_zero_of_ne {p : String} (hv : p ≠ permissionView) (hx : p ≠ permissionExecute)
    (he : p ≠ permissionEdit) (ha : p ≠ permissionAdmin) : hierarchy p = 0 := by
  simp [hierarchy, hv, hx, he, ha]

theorem mem_getPermissionSet (granted p : String) :
    p ∈ getPermissionSet granted ↔ 1 ≤ hierarchy p ∧ hierarchy p ≤ hierarchy granted := by
  obtain rfl | rfl | rfl | rfl | ⟨hv, hx, he, ha⟩ := hierarchy_cases granted
  on_goal 5 =>
    rw [hierarchy_eq_zero_of_ne hv hx he ha]
    simp [getPermissionSet, hv, hx, he, ha]
    omega
  -- the four sets; `p` is one of the four names or none of them
  all_goals
    obtain rfl | rfl | rfl | rfl | ⟨hv, hx, he, ha⟩ := hierarchy_cases p
    · decide
    · decide
    · decide
    · decide
    rw [hierarchy_eq_zero_of_ne hv hx he ha]
    simp [getPermissionSet, permissionView, permissionExecute, permissionEdit, permissionAdmin]
      at hv hx he ha ⊢
    tauto

theorem getPermissionSet_congr {g g' : String} (h : hierarchy g = hierarchy g') :
    getPermissionSet g = getPermissionSet g' := by
  have hset : ∀ g, getPermissionSet g =
      [permissionView, permissionExecute, permissionEdit, permissionAdmin].take
        (hierarchy g) := by
    intro g
    obtain rfl | rfl | rfl | rfl | ⟨hv, hx, he, ha⟩ := hierarchy_cases g
    · decide
    · decide
    · decide
    · decide
    · rw [hierarchy_eq_zero_of_ne hv hx he ha]
      simp [getPermissionSet, hv, hx, he, ha]
  rw [hset, hset, h]

/-! ## The two readers -/

theorem mem_addPermissions (permissions : GoMap String Bool) (share : Option WorkflowShare)
    (p : String) : p ∈ addPermissions permissions share ↔
      p ∈ permissions ∨ ∃ s ∈ share, p ∈ getPermissionSet s.permission := by
  cases share with
  | none => simp [addPermissions]
  | some s =>
    have hfold : ∀ (ps : List String) (m : GoMap String Bool),
        p ∈ ps.foldl (fun m perm => m.insert perm true) m ↔ p ∈ m ∨ p ∈ ps := by
      intro ps
      induction ps with
      | nil => simp
      | cons a ps ih =>
        intro m
        rw [List.foldl_cons, ih, AList.mem_insert, List.mem_cons]
        tauto
    rw [addPermissions, hfold]
    simp

theorem mem_getUserPermissions (ρ : RangeOrder) (t : Table) (now : ℤ) (workflowID userID : String)
    (p : String) : p ∈ getUserPermissions ρ t now workflowID userID ↔
      1 ≤ hierarchy p ∧
        ((∃ s ∈ t.directShare now workflowID userID, hierarchy p ≤ hierarchy s.permission) ∨
          ∃ s ∈ t.publicShare workflowID, hierarchy p ≤ hierarchy s.permission) := by
  rw [getUserPermissions, GoMap.mem_rangeKeys, mem_addPermissions, mem_addPermissions]
  simp only [mem_getPermissionSet, AList.notMem_empty, false_or]
  constructor
  · rintro (⟨s, hs, h1, h2⟩ | ⟨s, hs, h1, h2⟩)
    · exact ⟨h1, .inl ⟨s, hs, h2⟩⟩
    · exact ⟨h1, .inr ⟨s, hs, h2⟩⟩
  · rintro ⟨h1, ⟨s, hs, h2⟩ | ⟨s, hs, h2⟩⟩
    · exact .inl ⟨s, hs, h1, h2⟩
    · exact .inr ⟨s, hs, h1, h2⟩

/-- The permission is one of the four, or no share is found; and of a direct and a public share, the
direct one has the permission if the public one has it. -/
def Consistent (t : Table) (now : ℤ) (workflowID userID permission : String) : Prop :=
  (isValidPermission permission = true ∨
    t.directShare now workflowID userID = none ∧ t.publicShare workflowID = none) ∧
  ∀ direct ∈ t.directShare now workflowID userID, ∀ pub ∈ t.publicShare workflowID,
    hasPermission pub.permission permission = true →
      hasPermission direct.permission permission = true

/-- **Where the two readers agree.** For every table and every question, `CheckPermission`
grants exactly the listed permissions if and only if `Consistent` holds there. -/
theorem checkPermission_iff_mem_getUserPermissions (ρ : RangeOrder) (t : Table) (now : ℤ)
    (workflowID userID permission : String) :
    (checkPermission t now workflowID userID permission = true ↔
        permission ∈ getUserPermissions ρ t now workflowID userID) ↔
      Consistent t now workflowID userID permission := by
  rw [mem_getUserPermissions, Consistent, isValidPermission_iff, checkPermission]
  simp only [hasPermission, ge_iff_le]
  cases t.directShare now workflowID userID with
  | none =>
    cases t.publicShare workflowID with
    | none => simp
    | some pub =>
      simp only [decide_eq_true_eq, mem_def, some.injEq, exists_eq_left']
      simp
      omega
  | some direct =>
    cases t.publicShare workflowID with
    | none =>
      simp only [decide_eq_true_eq, mem_def, some.injEq, exists_eq_left']
      simp
      omega
    | some pub =>
      simp only [decide_eq_true_eq, mem_def, some.injEq, exists_eq_left', forall_eq']
      simp
      omega

/-- A view share of `w` with `u`. -/
def viewShare : WorkflowShare where
  id := ""
  workflowID := "w"
  sharedWithID := "u"
  sharedWithType := shareTypeUser
  permission := permissionView

/-- A public share of `w` for editing. -/
def publicEditShare : WorkflowShare where
  id := ""
  workflowID := "w"
  sharedWithType := shareTypePublic
  permission := permissionEdit

/-- A view share grants a permission that does not exist. After a second call everybody may edit the
workflow except the user it is shared with, and the list says that they may. -/
theorem viewShare_disagreements : (∃ t, shareWorkflow 0 "s1" viewShare Table.empty = .ok t ∧
      checkPermission t 1 "w" "u" "delete" = true ∧
      "delete" ∉ getUserPermissions RangeOrder.stored t 1 "w" "u") ∧
    ∃ t t', shareWorkflow 0 "s1" viewShare Table.empty = .ok t ∧
      shareWorkflow 0 "s2" publicEditShare t = .ok t' ∧
      checkPermission t' 1 "w" "v" permissionEdit = true ∧
      checkPermission t' 1 "w" "u" permissionEdit = false ∧
      permissionEdit ∈ getUserPermissions RangeOrder.stored t' 1 "w" "u" := by
  refine ⟨⟨_, rfl, ?_, ?_⟩, _, _, rfl, rfl, ?_, ?_, ?_⟩
  · decide
  · decide
  · decide
  · decide
  · decide

/-! ## Expired shares -/

theorem directShare_filter {keep : WorkflowShare → Bool} {now : ℤ}
    (hkeep : ∀ s, s.liveAt now = true → keep s = true) (t : Table) (workflowID userID : String) :
    (t.filter keep).directShare now workflowID userID = t.directShare now workflowID userID := by
  rw [Table.directShare, Table.directShare, Table.first, Table.first, Table.filter,
    List.filter_filter]
  congr 1
  refine List.filter_congr (fun s _ => ?_)
  by_cases hlive : s.liveAt now = true
  · simp [hlive, hkeep s hlive]
  · simp [hlive]

theorem exists_stranger (t : Table) (now : ℤ) (workflowID : String) :
    ∃ userID, t.directShare now workflowID userID = none := by
  obtain ⟨userID, hout⟩ :=
    Infinite.exists_notMem_finset (t.rows.map WorkflowShare.sharedWithID).toFinset
  refine ⟨userID, ?_⟩
  rw [Table.directShare, Table.first, List.argmin_eq_none, List.filter_eq_nil_iff]
  intro s hs hmatch
  simp only [decide_eq_true_eq] at hmatch
  apply hout
  rw [List.mem_toFinset, List.mem_map]
  exact ⟨s, hs, hmatch.2.1⟩

/-- `CheckPermission` of a user without a share of their own, for every permission, tells the
rank of the public share, and whether there is one. -/
theorem rank_eq_of_checks {t t' : Table} {now : ℤ} {workflowID userID : String}
    (hnone : t.directShare now workflowID userID = none)
    (hnone' : t'.directShare now workflowID userID = none)
    (h : ∀ p, checkPermission t now workflowID userID p
      = checkPermission t' now workflowID userID p) :
    (t.publicShare workflowID).map (fun s => hierarchy s.permission)
      = (t'.publicShare workflowID).map (fun s => hierarchy s.permission) := by
  simp only [checkPermission, hnone, hnone', hasPermission, ge_iff_le] at h
  cases hp : t.publicShare workflowID with
  | none =>
    cases hp' : t'.publicShare workflowID with
    | none => rfl
    | some s' =>
      -- the empty string has rank 0, which every share reaches
      have := h ""
      rw [hp, hp'] at this
      simp [hierarchy, permissionView, permissionExecute, permissionEdit, permissionAdmin]
        at this
  | some s =>
    cases hp' : t'.publicShare workflowID with
    | none =>
      have := h ""
      rw [hp, hp'] at this
      simp [hierarchy, permissionView, permissionExecute, permissionEdit, permissionAdmin]
        at this
    | some s' =>
      have hle : ∀ p, hierarchy p ≤ hierarchy s.permission ↔
          hierarchy p ≤ hierarchy s'.permission := by
        intro p
        have := h p
        rw [hp, hp'] at this
        simpa using this
      have h1 := (hle s.permission).mp le_rfl
      have h2 := (hle s'.permission).mpr le_rfl
      rw [map_some, map_some, le_antisymm h1 h2]

theorem sameRank_cases {o o' : Option WorkflowShare}
    (h : o'.map (fun s => hierarchy s.permission) = o.map (fun s => hierarchy s.permission)) :
    (o' = none ∧ o = none) ∨ ∃ s' s, o' = some s' ∧ o = some s ∧
      hierarchy s'.permission = hierarchy s.permission := by
  cases o with
  | none =>
    rw [map_none, map_eq_none_iff] at h
    exact .inl ⟨h, rfl⟩
  | some s =>
    rw [map_some, map_eq_some_iff] at h
    obtain ⟨s', hs', heq⟩ := h
    exact .inr ⟨s', s, hs', rfl, heq⟩

/-- **What removing rows changes.** If none of them is live, no result of either reader changes
exactly if, for every workflow, the public share found first has the same rank before and after. -/
theorem answers_filter_iff {keep : WorkflowShare → Bool} {now : ℤ}
    (hkeep : ∀ s, s.liveAt now = true → keep s = true) (t : Table) :
    ((∀ workflowID userID p, checkPermission (t.filter keep) now workflowID userID p
        = checkPermission t now workflowID userID p) ∧
      ∀ ρ workflowID userID, getUserPermissions ρ (t.filter keep) now workflowID userID
        = getUserPermissions ρ t now workflowID userID) ↔
      ∀ workflowID, ((t.filter keep).publicShare workflowID).map (fun s => hierarchy s.permission)
        = (t.publicShare workflowID).map (fun s => hierarchy s.permission) := by
  constructor
  · rintro ⟨hcheck, -⟩ workflowID
    obtain ⟨userID, hnone⟩ := exists_stranger t now workflowID
    refine rank_eq_of_checks ?_ hnone (hcheck workflowID userID)
    rw [directShare_filter hkeep, hnone]
  · intro hrank
    constructor
    · intro workflowID userID p
      rw [checkPermission, checkPermission, directShare_filter hkeep]
      cases t.directShare now workflowID userID with
      | some s => rfl
      | none =>
        obtain ⟨hs', hs⟩ | ⟨s', s, hs', hs, heq⟩ := sameRank_cases (hrank workflowID)
        · rw [hs', hs]
        · simp only [hs', hs, hasPermission, heq]
    · intro ρ workflowID userID
      have hadd : ∀ m, addPermissions m ((t.filter keep).publicShare workflowID)
          = addPermissions m (t.publicShare workflowID) := by
        intro m
        obtain ⟨hs', hs⟩ | ⟨s', s, hs', hs, heq⟩ := sameRank_cases (hrank workflowID)
        · rw [hs', hs]
        · rw [hs', hs, addPermissions, addPermissions, getPermissionSet_congr heq]
      rw [getUserPermissions, getUserPermissions, directShare_filter hkeep]
      simp only [hadd]

/-- Without the expired shares the public one found first has the same rank, and there is one if
there was. -/
def PublicCurrent (t : Table) (now : ℤ) : Prop :=
  ∀ workflowID, ((t.filter (WorkflowShare.liveAt now)).publicShare workflowID).map
        (fun s => hierarchy s.permission)
      = (t.publicShare workflowID).map (fun s => hierarchy s.permission)

/-- **Expired shares contribute nothing exactly when the public shares are current.** -/
theorem expired_contribute_nothing_iff (t : Table) (now : ℤ) : ((∀ workflowID userID p,
        checkPermission (t.filter (WorkflowShare.liveAt now)) now workflowID userID p
          = checkPermission t now workflowID userID p) ∧
      ∀ ρ workflowID userID,
        getUserPermissions ρ (t.filter (WorkflowShare.liveAt now)) now workflowID userID
          = getUserPermissions ρ t now workflowID userID) ↔
      PublicCurrent t now :=
  answers_filter_iff (fun _ h => h) t

/-- `CleanupExpiredShares` keeps the unexpired rows, so it changes answers exactly when it
changes the rank of a workflow's public share. -/
theorem cleanupExpiredShares_keeps_answers_iff (t : Table) (now : ℤ) : ((∀ workflowID userID p,
        checkPermission (cleanupExpiredShares now t) now workflowID userID p
          = checkPermission t now workflowID userID p) ∧
      ∀ ρ workflowID userID, getUserPermissions ρ (cleanupExpiredShares now t) now workflowID userID
          = getUserPermissions ρ t now workflowID userID) ↔
      ∀ workflowID, ((cleanupExpiredShares now t).publicShare workflowID).map
          (fun s => hierarchy s.permission)
        = (t.publicShare workflowID).map (fun s => hierarchy s.permission) := by
  refine answers_filter_iff (fun s hlive => ?_) t
  cases hexp : s.expiresAt with
  | none => simp
  | some e =>
    have he : now < e := by simpa [WorkflowShare.liveAt, hexp] using hlive
    simp [he.le]

/-- A public share of `w` that ends at time 5. -/
def endingShare : WorkflowShare := { publicEditShare with expiresAt := some 5 }

/-- At time 10 a public share that ended at time 5 still lets a stranger edit. -/
theorem endingShare_still_grants : ∃ t, shareWorkflow 0 "s1" endingShare Table.empty = .ok t ∧
      checkPermission t 10 "w" "v" permissionEdit = true ∧
      permissionEdit ∈ getUserPermissions RangeOrder.stored t 10 "w" "v" ∧
      checkPermission (t.filter (WorkflowShare.liveAt 10)) 10 "w" "v" permissionEdit = false ∧
      getUserPermissions RangeOrder.stored (t.filter (WorkflowShare.liveAt 10)) 10 "w" "v"
        = [] := by
  refine ⟨_, rfl, ?_, ?_, ?_, ?_⟩
  · decide
  · decide
  · decide
  · decide

end LinkFlow.Sharing
