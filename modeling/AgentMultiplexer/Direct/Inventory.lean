import AgentMultiplexer.Direct.Enrollment

set_option autoImplicit false

/-! # The inventory a grant sees

Every request of a client is judged from a fresh snapshot of the daemon's sessions. A workgroup grant
sees the rows whose `RootID` links, followed through the snapshot, end in a root it lists; no grant
sees the console. Scope, archive state and controls of a row are all read by following links through
rows that may be hidden, so what is to show is that the rows on the way are visible too. -/

namespace AgentMultiplexer.Direct.Inventory

open List

open Enroll (validSessionID consoleID)

def roleConsole : String := "console"
def roleCoordinator : String := "coordinator"
def roleRepo : String := "repo"
def sectionWorkgroups : String := "workgroups"
def sectionArchived : String := "archived"

structure Grant where
  clientID : String
  perms : List String
  resource : ResourceScope

def Grant.can (g : Grant) (perm : String) : Bool := g.perms.contains perm

/-- The daemon's own `SessionCaps` of a row. -/
structure RuntimeCaps where
  prompt : Bool
  interject : Bool
  cancel : Bool
  permission : Bool
  goal : Bool
  deriving DecidableEq

/-- `core.Session`; `info` holds the columns that a projection only copies, the account binding with
    them. -/
structure Row (Info : Type) where
  id : String
  rootID : String
  isRoot : Bool
  role : String
  sectionName : String
  archived : Bool
  source : String
  caps : Option RuntimeCaps
  info : Info
  deriving DecidableEq

/-- What `indexRows` makes. -/
abbrev ById (Info : Type) := GoMap String (Row Info)

inductive Verb
  | prompt | stop | interject | goal | permission | start | rename | archive | unarchive | addAgent
  deriving DecidableEq

def verbPermissions : Verb → String
  | .prompt | .stop | .interject => "steer"
  | .goal => "respond"
  | .permission => "approve"
  | .start | .rename | .archive | .unarchive => "manage"
  | .addAgent => "create"

inductive TargetError
  | snapshot (text : String)
  | notFound
  | archived
  | unsupported

/-- `Session`, with one flag of `Caps` for each verb. -/
structure Session (Info Binding : Type) where
  id : String
  rootID : String
  isRoot : Bool
  role : String
  sectionName : String
  archived : Bool
  info : Info
  caps : Verb → Bool
  accountBinding : Binding

variable {Info Binding : Type} (accountBinding : Grant → Info → Binding) (g : Grant)

/-! ## Scope -/

def isConsole (row : Row Info) : Bool := row.id = consoleID || row.role = roleConsole

/-- The links end at the row. -/
def Row.top (row : Row Info) : Bool := row.rootID = "" || row.rootID = row.id

/-- The loop of `rootOf`, with the rounds it has left. -/
def rootFrom (byID : ById Info) : Nat → Row Info → String
  | 0, _ => ""
  | n + 1, cur =>
    if cur.top then if cur.isRoot || cur.role = roleCoordinator then cur.id else ""
    else match byID.lookup cur.rootID with
      | none => ""
      | some parent => rootFrom byID n parent

def rootOf (row : Row Info) (byID : ById Info) : String := rootFrom byID 16 row

def inScope (row : Row Info) (byID : ById Info) : Bool :=
  if isConsole row then false
  else if g.resource.kind = "all_sessions" then true
  else if g.resource.kind = "workgroups" then
    rootOf row byID ≠ "" && g.resource.workgroups.contains (rootOf row byID)
  else false

/-! ## Archive state and controls -/

/-- The loop of `effectivelyArchived`. -/
def archivedFrom (byID : ById Info) : Nat → Row Info → Bool
  | 0, _ => true
  | n + 1, cur =>
    if cur.archived || cur.sectionName = sectionArchived then true
    else if cur.top then false
    else match byID.lookup cur.rootID with
      | none => false
      | some parent => archivedFrom byID n parent

def effectivelyArchived (row : Row Info) (byID : ById Info) : Bool :=
  archivedFrom byID 16 row

def archivedAncestor (row : Row Info) (byID : ById Info) : Bool :=
  if row.top then false
  else match byID.lookup row.rootID with
    | none => true
    | some parent => effectivelyArchived parent byID

def lifecycleRow (row : Row Info) : Bool :=
  if isConsole row || row.role = roleRepo || row.source ≠ "workspace" then false
  else row.sectionName = sectionWorkgroups || row.sectionName = sectionArchived

def workgroupRoot (row : Row Info) : Bool :=
  lifecycleRow row && row.isRoot && row.role = roleCoordinator

/-- The `switch` of `admissible`; a row without caps has none. -/
def servable (row : Row Info) (verb : Verb) : Bool :=
  let caps := row.caps.getD ⟨false, false, false, false, false⟩
  match verb with
  | .prompt => caps.prompt
  | .stop => caps.cancel
  | .interject => caps.interject
  | .goal => caps.goal
  | .permission => caps.permission
  | .start | .rename | .archive | .unarchive => lifecycleRow row
  | .addAgent => workgroupRoot row

/-- `admissible`; `none` is the nil error. -/
def admissible (row : Row Info) (byID : ById Info) (verb : Verb) :
    Option TargetError :=
  let refused :=
    if verb = .unarchive then
      !row.archived && row.sectionName ≠ sectionArchived || archivedAncestor row byID
    else effectivelyArchived row byID
  if refused then some .archived
  else if servable row verb then none
  else some .unsupported

def rowCaps (row : Row Info) (byID : ById Info) (verb : Verb) : Bool :=
  g.can (verbPermissions verb) && (admissible row byID verb).isNone

/-! ## What a grant is told -/

def indexRows (rows : List (Row Info)) : ById Info :=
  rows.foldl (fun byID r => if r.id ≠ "" then byID.insert r.id r else byID) ∅

def project (row : Row Info) (byID : ById Info) : Session Info Binding where
  id := row.id
  rootID := row.rootID
  isRoot := row.isRoot
  role := row.role
  sectionName := row.sectionName
  archived := row.archived
  info := row.info
  caps := rowCaps g row byID
  accountBinding := accountBinding g row.info

def filtered (rows : List (Row Info)) : List (Session Info Binding) :=
  let byID := indexRows rows
  (rows.filter fun row => validSessionID row.id && inScope g row byID).map
    fun row => project accountBinding g row byID

/-- What a request reads: the snapshot, the incarnation on record for a session the grant created,
    the store's word on it, and the rows that the wait for its row ends with. -/
structure Reads (Info : Type) where
  snapshot : Except String (List (Row Info))
  createdIncarnation : String → Option String
  sameIncarnation : String → String → Bool
  awaited : String → String → Except String (List (Row Info))

def targetSnapshot (b : Reads Info) (sid : String) : Except String (List (Row Info)) :=
  match b.snapshot with
  | .error text => .error text
  | .ok rows =>
    if rows.any fun r => r.id = sid then .ok rows
    else match b.createdIncarnation sid with
      | none => .ok rows
      | some inc =>
        if inc = "" || !b.sameIncarnation sid inc then .ok rows else b.awaited sid inc

def authorizeTarget (b : Reads Info) (sid : String) :
    Except TargetError (Row Info × ById Info) :=
  match targetSnapshot b sid with
  | .error text => .error (.snapshot text)
  | .ok rows =>
    let byID := indexRows rows
    match byID.lookup sid with
    | none => .error .notFound
    | some row => if inScope g row byID then .ok (row, byID) else .error .notFound

/-! ## Chains -/

/-- The links from a row end in a root, over so many rows. Links that are cyclic or broken end
    nowhere. -/
inductive Chain (byID : ById Info) (root : Row Info) : Row Info → Nat → Prop
  | top (h : root.top) : Chain byID root root 1
  | link {row parent n} (h : ¬ row.top) (hparent : byID.lookup row.rootID = some parent)
      (hchain : Chain byID root parent n) : Chain byID root row (n + 1)

/-- A row that is not the console's, whose chain of at most 16 rows ends in a listed root. -/
def Listed (byID : ById Info) (row : Row Info) : Prop :=
  isConsole row = false ∧
    ∃ root n, Chain byID root row n ∧ n ≤ 16 ∧ root.id ∈ g.resource.workgroups

variable {g} {byID : ById Info} {rows rows₁ rows₂ : List (Row Info)} {row : Row Info} {n : Nat}

theorem rootFrom_chain (h : rootFrom byID n row ≠ "") :
    ∃ root m, Chain byID root row m ∧ m ≤ n ∧ root.id = rootFrom byID n row := by
  fun_induction rootFrom byID n row with
  | case1 | case3 | case4 => exact absurd rfl h
  | case2 n row htop => exact ⟨row, 1, .top htop, by omega, rfl⟩
  | case5 n row htop parent hparent ih =>
    obtain ⟨root, m, hchain, hm, hroot⟩ := ih h
    exact ⟨root, m + 1, .link htop hparent hchain, by omega, hroot⟩

theorem rootFrom_add (h : rootFrom byID n row ≠ "") (k : Nat) :
    rootFrom byID (n + k) row = rootFrom byID n row := by
  fun_induction rootFrom byID n row with
  | case1 | case3 | case4 => exact absurd rfl h
  | case2 n row htop hroot => rw [Nat.succ_add, rootFrom, if_pos htop, if_pos hroot]
  | case5 n row htop parent hparent ih =>
    rw [Nat.succ_add, rootFrom, if_neg htop, hparent]
    exact ih h

theorem inScope_iff (hg : g.resource.kind = "workgroups") : inScope g row byID ↔
    isConsole row = false ∧ rootOf row byID ≠ "" ∧ rootOf row byID ∈ g.resource.workgroups := by
  rw [inScope]
  cases isConsole row <;> simp [hg]

theorem inScope_listed (hg : g.resource.kind = "workgroups") (h : inScope g row byID) :
    Listed g byID row := by
  obtain ⟨hcon, hroot, hmem⟩ := (inScope_iff hg).mp h
  obtain ⟨root, n, hchain, hn, hid⟩ := rootFrom_chain hroot
  exact ⟨hcon, root, n, hchain, hn, by rw [hid]; exact hmem⟩

/-! ## Two snapshots -/

/-- What the daemon publishes: ids that are distinct and not empty, and no link from a console. -/
structure Snapshot (rows : List (Row Info)) : Prop where
  nodup : (rows.map Row.id).Nodup
  named : ∀ r ∈ rows, r.id ≠ ""
  console : ∀ r ∈ rows, isConsole r → r.rootID = ""

theorem indexRows_append (rest : List (Row Info)) (r : Row Info) : indexRows (rest ++ [r]) =
    if r.id ≠ "" then (indexRows rest).insert r.id r else indexRows rest := by
  simp [indexRows]

theorem mem_of_lookup_indexRows {id : String} (h : (indexRows rows).lookup id = some row) :
    row ∈ rows ∧ row.id = id := by
  induction rows using List.reverseRecOn with
  | nil => simp [indexRows] at h
  | append_singleton rest r ih =>
    rw [mem_append, mem_singleton]
    rw [indexRows_append] at h
    split at h
    · rcases GoMap.lookup_insert_eq_some.mp h with ⟨rfl, rfl⟩ | ⟨-, h⟩
      · exact ⟨.inr rfl, rfl⟩
      · exact (ih h).imp_left .inl
    · exact (ih h).imp_left .inl

theorem exists_lookup_indexRows (hrow : row ∈ rows) (hid : row.id ≠ "") :
    ∃ last, (indexRows rows).lookup row.id = some last := by
  induction rows using List.reverseRecOn with
  | nil => exact absurd hrow not_mem_nil
  | append_singleton rest r ih =>
    rw [indexRows_append]
    rw [mem_append, mem_singleton] at hrow
    rcases hrow with hrow | rfl
    · obtain ⟨last, hlast⟩ := ih hrow
      split
      · exact GoMap.exists_lookup_insert hlast
      · exact ⟨last, hlast⟩
    · rw [if_pos hid]
      exact ⟨row, AList.lookup_insert _⟩

theorem lookup_indexRows (hn : (rows.map Row.id).Nodup) (hne : ∀ r ∈ rows, r.id ≠ "")
    {id : String} : (indexRows rows).lookup id = some row ↔ row ∈ rows ∧ row.id = id := by
  refine ⟨mem_of_lookup_indexRows, ?_⟩
  rintro ⟨hrow, rfl⟩
  obtain ⟨last, hlast⟩ := exists_lookup_indexRows hrow (hne row hrow)
  obtain ⟨hmem, hid⟩ := mem_of_lookup_indexRows hlast
  rwa [inj_on_of_nodup_map hn hmem hrow hid] at hlast

/-- The rows in scope. -/
def visible (g : Grant) (rows : List (Row Info)) : List (Row Info) :=
  rows.filter fun row => inScope g row (indexRows rows)

section twoSnapshots

variable (hg : g.resource.kind = "workgroups") (h₁ : Snapshot rows₁) (h₂ : Snapshot rows₂)
  (hcon : ∀ r ∈ rows₁, isConsole r → r.id ∉ g.resource.workgroups)
  (hsame : visible g rows₁ = visible g rows₂)

include hg h₁ h₂ hcon hsame

/-- **The row above a row with a listed root is visible**, and the other snapshot has it too: a
    console has no link, so it could only be the root. -/
theorem lookup_parent {parent : Row Info} (hn : n ≤ 16)
    (hparent : (indexRows rows₁).lookup row.rootID = some parent)
    (hroot : rootFrom (indexRows rows₁) n parent ≠ "")
    (hlisted : rootFrom (indexRows rows₁) n parent ∈ g.resource.workgroups) :
    (indexRows rows₂).lookup row.rootID = some parent := by
  obtain ⟨hmem, hid⟩ := (lookup_indexRows h₁.nodup h₁.named).mp hparent
  have hsixteen : rootOf parent (indexRows rows₁) = rootFrom (indexRows rows₁) n parent := by
    rw [rootOf, ← Nat.add_sub_cancel' hn, rootFrom_add hroot]
  have hplain : isConsole parent = false := by
    by_contra hc
    rw [Bool.not_eq_false] at hc
    have htop : parent.top := by simp [Row.top, h₁.console parent hmem hc]
    cases n with
    | zero => exact hroot rfl
    | succ n =>
      rw [rootFrom, if_pos htop] at hroot hlisted
      split at hlisted
      · exact hcon parent hmem hc hlisted
      next hnot => exact hroot (if_neg hnot)
  have hvisible : parent ∈ visible g rows₁ :=
    mem_filter.mpr ⟨hmem, (inScope_iff hg).mpr ⟨hplain, by rw [hsixteen]; exact ⟨hroot, hlisted⟩⟩⟩
  rw [hsame] at hvisible
  exact (lookup_indexRows h₂.nodup h₂.named).mpr ⟨(mem_filter.mp hvisible).1, hid⟩

theorem archivedFrom_eq (hn : n ≤ 16) (hroot : rootFrom (indexRows rows₁) n row ≠ "")
    (hlisted : rootFrom (indexRows rows₁) n row ∈ g.resource.workgroups) :
    archivedFrom (indexRows rows₁) n row = archivedFrom (indexRows rows₂) n row := by
  induction n generalizing row with
  | zero => rfl
  | succ n ih =>
    rw [rootFrom] at hroot hlisted
    simp only [archivedFrom]
    split
    · rfl
    split
    · rfl
    next htop =>
    rw [if_neg htop] at hroot hlisted
    cases hparent : (indexRows rows₁).lookup row.rootID with
    | none => simp [hparent] at hroot
    | some parent =>
      simp only [hparent] at hroot hlisted
      rw [lookup_parent hg h₁ h₂ hcon hsame (by omega) hparent hroot hlisted]
      exact ih (by omega) hroot hlisted

theorem admissible_eq (h : inScope g row (indexRows rows₁)) :
    admissible row (indexRows rows₁) = admissible row (indexRows rows₂) := by
  obtain ⟨-, hroot, hlisted⟩ := (inScope_iff hg).mp h
  have harch : effectivelyArchived row (indexRows rows₁) =
      effectivelyArchived row (indexRows rows₂) :=
    archivedFrom_eq hg h₁ h₂ hcon hsame le_rfl hroot hlisted
  have hanc : archivedAncestor row (indexRows rows₁) = archivedAncestor row (indexRows rows₂) := by
    rw [rootOf, rootFrom] at hroot hlisted
    simp only [archivedAncestor]
    split
    · rfl
    next htop =>
    rw [if_neg htop] at hroot hlisted
    cases hparent : (indexRows rows₁).lookup row.rootID with
    | none => simp [hparent] at hroot
    | some parent =>
      simp only [hparent] at hroot hlisted
      rw [lookup_parent hg h₁ h₂ hcon hsame (by omega) hparent hroot hlisted]
      have hone := rootFrom_add hroot 1
      rw [← hone] at hroot hlisted
      exact archivedFrom_eq hg h₁ h₂ hcon hsame le_rfl hroot hlisted
  funext verb
  rw [admissible, admissible, harch, hanc]

end twoSnapshots

/-! ## The answers -/

/-- What an answer lets its request know: the row, and what may be done to it. -/
def shown (found : Row Info × ById Info) : Row Info × (Verb → Option TargetError) :=
  (found.1, admissible found.1 found.2)

section answers

variable {b : Reads Info} {sid : String} (hb : b.snapshot = .ok rows)
  (hnone : ∀ sid, b.createdIncarnation sid = none)

include hb hnone

theorem authorizeTarget_eq : authorizeTarget g b sid = match (indexRows rows).lookup sid with
    | none => .error .notFound | some row =>
      if inScope g row (indexRows rows) then .ok (row, indexRows rows) else .error .notFound := by
  have hsnap : targetSnapshot b sid = .ok rows := by
    simp only [targetSnapshot, hb, hnone]
    split <;> rfl
  simp only [authorizeTarget, hsnap]

theorem shown_authorizeTarget (h : Snapshot rows) : (authorizeTarget g b sid).map shown =
    match (visible g rows).find? fun r => r.id = sid with
    | none => .error .notFound
    | some row => .ok (row, admissible row (indexRows rows)) := by
  rw [authorizeTarget_eq hb hnone]
  cases hfind : (visible g rows).find? fun r => r.id = sid with
  | none =>
    simp only [find?_eq_none, decide_eq_true_eq] at hfind
    cases hlook : (indexRows rows).lookup sid with
    | none => rfl
    | some row =>
      obtain ⟨hmem, hid⟩ := (lookup_indexRows h.nodup h.named).mp hlook
      have hout : ¬ inScope g row (indexRows rows) := fun hin =>
        hfind row (mem_filter.mpr ⟨hmem, hin⟩) hid
      simp only [if_neg hout]
      rfl
  | some row =>
    obtain ⟨hmem, hin⟩ := mem_filter.mp (mem_of_find?_eq_some hfind)
    have hid : row.id = sid := by simpa using find?_some hfind
    rw [(lookup_indexRows h.nodup h.named).mpr ⟨hmem, hid⟩]
    simp only [if_pos hin]
    rfl

end answers

theorem filtered_visible : filtered accountBinding g rows =
    ((visible g rows).filter fun row => validSessionID row.id).map
      fun row => project accountBinding g row (indexRows rows) := by
  rw [filtered, visible, filter_filter]

/-- **A workgroup grant learns nothing from the rows it does not see.** Two snapshots with the same
    rows in scope give the same listing and the same answer for every id, if no console row of theirs
    is listed as a workgroup; and what is listed or answered is never the console's row nor one
    without a chain of at most 16 rows to a listed root. -/
theorem hidden_rows_are_not_told (b₁ b₂ : Reads Info) (hg : g.resource.kind = "workgroups")
    (h₁ : Snapshot rows₁) (h₂ : Snapshot rows₂)
    (hcon : ∀ r ∈ rows₁, isConsole r → r.id ∉ g.resource.workgroups)
    (hsame : visible g rows₁ = visible g rows₂)
    (hb₁ : b₁.snapshot = .ok rows₁) (hb₂ : b₂.snapshot = .ok rows₂)
    (hnone₁ : ∀ sid, b₁.createdIncarnation sid = none)
    (hnone₂ : ∀ sid, b₂.createdIncarnation sid = none) :
    filtered accountBinding g rows₁ = filtered accountBinding g rows₂ ∧
      (∀ sid, (authorizeTarget g b₁ sid).map shown = (authorizeTarget g b₂ sid).map shown) ∧
      (∀ out ∈ filtered accountBinding g rows₁, ∃ row ∈ rows₁,
        out = project accountBinding g row (indexRows rows₁) ∧ Listed g (indexRows rows₁) row) ∧
      ∀ sid row byID, authorizeTarget g b₁ sid = .ok (row, byID) →
        byID = indexRows rows₁ ∧ Listed g byID row := by
  have hcontrols : ∀ row ∈ visible g rows₁,
      admissible row (indexRows rows₁) = admissible row (indexRows rows₂) := fun row hrow =>
    admissible_eq hg h₁ h₂ hcon hsame (mem_filter.mp hrow).2
  refine ⟨?_, fun sid => ?_, fun out hout => ?_, fun sid row byID h => ?_⟩
  · rw [filtered_visible, filtered_visible, ← hsame]
    refine map_congr_left fun row hrow => ?_
    have hcaps : rowCaps g row (indexRows rows₁) = rowCaps g row (indexRows rows₂) := by
      funext verb
      rw [rowCaps, rowCaps, hcontrols row (mem_filter.mp hrow).1]
    rw [project, project, hcaps]
  · rw [shown_authorizeTarget hb₁ hnone₁ h₁, shown_authorizeTarget hb₂ hnone₂ h₂, ← hsame]
    split
    · rfl
    next row hfind => rw [hcontrols row (mem_of_find?_eq_some hfind)]
  · obtain ⟨row, hrow, rfl⟩ := mem_map.mp hout
    obtain ⟨hmem, hin⟩ := mem_filter.mp hrow
    exact ⟨row, hmem, rfl, inScope_listed hg (Bool.and_eq_true_iff.mp hin).2⟩
  · rw [authorizeTarget_eq hb₁ hnone₁] at h
    split at h
    · cases h
    split_ifs at h with hin
    cases h
    exact ⟨rfl, inScope_listed hg hin⟩

/-- A workgroup with a member, in a snapshot with the console and in one without it. -/
def member : Row Unit := ⟨"m", "w", false, "", sectionWorkgroups, false, "workspace", none, ()⟩

def workgroup (role : String) (archived : Bool) : Row Unit :=
  ⟨"w", "", true, role, sectionWorkgroups, archived, "workspace", none, ()⟩

def manager : Grant := ⟨"c", ["read", "manage"], ⟨"workgroups", ["w"]⟩⟩

def snapshotOf (rows : List (Row Unit)) : Reads Unit :=
  ⟨.ok rows, fun _ => none, fun _ _ => false, fun _ _ => .ok rows⟩

def console : Row Unit := ⟨consoleID, "", true, roleConsole, "", false, "", none, ()⟩

theorem hidden_rows_are_not_told_console :
    filtered (fun _ _ => ()) manager [console, workgroup roleCoordinator false, member] =
      filtered (fun _ _ => ()) manager [workgroup roleCoordinator false, member] :=
  (hidden_rows_are_not_told (fun _ _ => ()) (snapshotOf _) (snapshotOf _) rfl
    ⟨by decide, by decide, by decide⟩ ⟨by decide, by decide, by decide⟩ (by decide)
      (by decide +kernel)
    rfl rfl
    (fun _ => rfl) fun _ => rfl).1

/-- A row with the console's role and another id, listed as a workgroup, is hidden, and its members
    are not: they tell whether it is archived. -/
theorem console_role_is_told : Snapshot [workgroup roleConsole false, member] ∧
    Snapshot [workgroup roleConsole true, member] ∧ consoleID ∉ manager.resource.workgroups ∧
    visible manager [workgroup roleConsole false, member] =
      visible manager [workgroup roleConsole true, member] ∧
    filtered (fun _ _ => ()) manager [workgroup roleConsole false, member] ≠
      filtered (fun _ _ => ()) manager [workgroup roleConsole true, member] := by
  refine ⟨⟨by decide, by decide, by decide⟩, ⟨by decide, by decide, by decide⟩, by decide,
    by decide +kernel, fun h => ?_⟩
  have hcaps := congrArg (fun out => out.map fun s : Session Unit Unit => s.caps .rename) h
  exact absurd hcaps (by decide +kernel)

end AgentMultiplexer.Direct.Inventory
