import AgentMultiplexer.Access.Policy
import AgentMultiplexer.Theory.Ask

set_option autoImplicit false

/-! # The guard of a section

A section that acts for a session checks `Policy.Authorize` under its admission. The policy reads
the store through the daemon's resolver, one row at a time: a session's row, then its parent's if
the row leaves the archived state to it. Nothing makes the reads of one evaluation atomic, so the
evaluation is a computation that asks, and other sections may move between its questions. -/

namespace AgentMultiplexer.Daemon

open Access

/-! ## Rows -/

def consoleID : String := "console"
def modeConsole : String := "console"
def scopeRepo : String := "repo"

/-- The columns of a `store.Session` the policy reads. -/
structure Row where
  rootID : String
  archived : Bool
  mode : String
  scope : String
  repo : String
  deriving DecidableEq

def Row.isRoot (row : Row) : Bool := row.rootID = ""

/-- `Session.Role`, where `RepoHomeID(repo)` is the repository's name. -/
def Row.role (id : String) (row : Row) : Role :=
  if row.mode = modeConsole then .console
  else if !row.isRoot then .agent
  else if row.scope = scopeRepo then
    if row.repo ≠ "" ∧ id = row.repo then .repo else .agent
  else .coordinator

def policyResource (id : String) (row : Row) : Resource :=
  ⟨id, row.rootID, row.role id, row.repo, row.archived⟩

/-- `console.Session`, which has no row in the store. -/
def consoleResource : Resource := policyResource consoleID ⟨"", false, modeConsole, "", ""⟩

/-- What `db.GetSession` returns. -/
abbrev Fetch := Except String (Option Row)

/-- `inheritParentArchive`: the row when it decides by itself. -/
def Row.decides (row : Row) : Bool := row.isRoot || row.archived

/-- `inheritParentArchive`: the row of a member that is not archived itself. -/
def Row.inherit (row : Row) (parent : Option Row) : Row :=
  { row with archived := parent.any Row.archived }

/-- `lookupPolicySession` and the projection to a resource, over a store that stands still. -/
def lookupPolicySession (getSession : String → Fetch) (id : String) :
    Except PolicyError (Option Resource) :=
  if id = "" then .ok none
  else if id = consoleID then .ok (some consoleResource)
  else
    match getSession id with
    | .error err => .error (.resolver err)
    | .ok none => .ok none
    | .ok (some row) =>
      if row.decides then .ok (some (policyResource id row))
      else
        match getSession row.rootID with
        | .error err => .error (.resolver err)
        | .ok parent => .ok (some (policyResource id (row.inherit parent)))

/-! ## The decision, asking -/

/-- A computation that looks sessions up. -/
abbrev Guard (α : Type) := Ask String (fun _ => Except PolicyError (Option Resource)) α

/-- What the guard reads besides session rows: the tables of repositories and grants, for a subject
    and a repository, and the provider's callback. -/
structure Tables where
  granted : Resource → String → Except PolicyError Bool
  provider : String → Request → Except PolicyError Bool

/-- `RepoGranted`, which looks the subject up again. -/
def repoGranted (tables : Tables) (subjectID repo : String) : Guard (Except PolicyError Bool) :=
  .ask subjectID fun
    | .error err => .done (.error err)
    | .ok none => .done (.ok false)
    | .ok (some subject) =>
      .done (if subject.archived then .ok false else tables.granted subject repo)

def checkGrants (tables : Tables) (subject : Resource) :
    List String → Guard (Except PolicyError Unit)
  | [] => .done (.ok ())
  | repo :: rest => do
      match ← repoGranted tables subject.id repo with
      | .error err => .done (.error err)
      | .ok false => .done (.error (.repoNotGranted repo subject.id))
      | .ok true => checkGrants tables subject rest

def authorizeAddAgent (tables : Tables) (subject : Resource) (req : Request) :
    Guard (Except PolicyError Unit) :=
  if req.fields.keys.any (· ∉ addAgentFields) then .done (.error .denied)
  else checkGrants tables subject (splitList (req.field "repos"))

/-- The part of `Authorize` that follows the target's row. -/
def authorizeTarget (tables : Tables) (subject : Resource) (rule : Rule) (req : Request) :
    Except PolicyError (Option Resource) → Guard (Except PolicyError Unit)
  | .error err => .done (.error err)
  | .ok none => .done (.error .denied)
  | .ok (some target) =>
    if subject.role = .console ∧ rule.console then .done (.ok ())
    else if !inWorkgroupScope subject target then .done (.error .denied)
    else if req.route = .action ∧ target.archived then .done (.error .denied)
    else if rule.allow.any fun allow => !allow req (target.id = subject.id) target then
      .done (.error .denied)
    else if req.verb = actionAddAgent ∧ subject.role ≠ .console then
      authorizeAddAgent tables subject req
    else .done (.ok ())

def authorizeWorkgroup (tables : Tables) (subject : Resource) (rule : Rule) (req : Request) :
    Guard (Except PolicyError Unit) :=
  if GoStrings.trimSpace req.id = "" then .done (.error .denied)
  else if req.id = subject.id then authorizeTarget tables subject rule req (.ok (some subject))
  else .ask req.id (authorizeTarget tables subject rule req)

/-- The part of `Authorize` that follows the subject's row. -/
def authorizeSubject (tables : Tables) (rule : Rule) (req : Request) :
    Except PolicyError (Option Resource) → Guard (Except PolicyError Unit)
  | .error err => .done (.error err)
  | .ok none => .done (.error .denied)
  | .ok (some subject) =>
    if subject.archived || !knownRole subject.role then .done (.error .denied)
    else
      match rule.scope with
      | .session | .filtered => .done (.ok ())
      | .host =>
        if subject.role = .console ∧ rule.console then .done (.ok ())
        else if subject.role = .repo ∧ req.verb = actionNewWorkgroup ∧ req.id = "" ∧
            repoScopedWorkgroup subject req then .done (.ok ())
        else .done (.error .denied)
      | .workgroup => authorizeWorkgroup tables subject rule req

/-- `Policy.Authorize` with the daemon's resolver, one lookup at a time. -/
def authorize (tables : Tables) (principal : Principal) (req : Request) :
    Guard (Except PolicyError Unit) :=
  match principal.kind with
  | .host => .done (.ok ())
  | .provider =>
    match tables.provider principal.subjectID req with
    | .error err => .done (.error err)
    | .ok true => .done (.ok ())
    | .ok false => .done (.error .denied)
  | .session =>
    match ruleFor req.route req.verb with
    | none => .done (.error .denied)
    | some rule => .ask principal.subjectID (authorizeSubject tables rule req)

/-- `authorizeSessionReport` after the request was validated: the subject's own row. -/
def authorizeSessionReport (principal : Principal) : Guard (Except PolicyError Unit) :=
  if principal.kind ≠ .session then .done (.error .denied)
  else
    .ask principal.subjectID fun
      | .error err => .done (.error err)
      | .ok none => .done (.error .denied)
      | .ok (some resource) =>
        .done (if resource.archived ∨ resource.id ≠ principal.subjectID then .error .denied
          else .ok ())

/-! ## The same decision as the policy's -/

/-- The resolver that answers every lookup by `lookup`. -/
def resolverOf (tables : Tables) (lookup : String → Except PolicyError (Option Resource)) :
    Resolver where
  lookup := lookup
  repoGranted subjectID repo := (repoGranted tables subjectID repo).run lookup
  providerAllows := tables.provider

section run

variable (tables : Tables) (lookup : String → Except PolicyError (Option Resource))

theorem run_checkGrants (subject : Resource) (repos : List String) :
    (checkGrants tables subject repos).run lookup =
      Access.checkGrants (resolverOf tables lookup) subject repos := by
  induction repos with
  | nil => rfl
  | cons repo rest ih =>
    rw [checkGrants, Ask.run_bind, Access.checkGrants]
    simp only [resolverOf]
    cases (repoGranted tables subject.id repo).run lookup with
    | error err => rfl
    | ok granted =>
      cases granted with
      | false => rfl
      | true => exact ih

theorem run_authorizeAddAgent (subject : Resource) (req : Request) :
    (authorizeAddAgent tables subject req).run lookup =
      Access.authorizeAddAgent (resolverOf tables lookup) subject req := by
  rw [authorizeAddAgent, Access.authorizeAddAgent]
  split
  · rfl
  · exact run_checkGrants tables lookup subject _

theorem run_authorizeWorkgroup (subject : Resource) (rule : Rule) (req : Request) :
    (authorizeWorkgroup tables subject rule req).run lookup =
      Access.authorizeWorkgroup (resolverOf tables lookup) subject rule req := by
  rw [authorizeWorkgroup, Access.authorizeWorkgroup]
  split
  · rfl
  have htarget : (if req.id = subject.id then authorizeTarget tables subject rule req
      (.ok (some subject)) else .ask req.id (authorizeTarget tables subject rule req)).run lookup =
      (authorizeTarget tables subject rule req
        (lookupTarget (resolverOf tables lookup) subject req)).run lookup := by
    rw [lookupTarget]
    split <;> rfl
  rw [htarget]
  rcases lookupTarget (resolverOf tables lookup) subject req with err | _ | target
  · rfl
  · rfl
  simp only [authorizeTarget]
  repeat' split
  all_goals first
    | rfl
    | exact run_authorizeAddAgent tables lookup subject req

/-- **The guard decides as the policy.** Answered by one resolver, the guard comes to the verdict of
    `Policy.Authorize` with that resolver. -/
theorem run_authorize (principal : Principal) (req : Request) :
    (authorize tables principal req).run lookup =
      Access.authorize (some (resolverOf tables lookup)) principal req := by
  rw [authorize, Access.authorize]
  cases principal.kind with
  | host => rfl
  | provider =>
    simp only [resolverOf]
    rcases tables.provider principal.subjectID req with err | _ | _ <;> rfl
  | session =>
    simp only [authorizeSession]
    cases ruleFor req.route req.verb with
    | none => rfl
    | some rule =>
      simp only [Ask.run_ask, resolverOf]
      rcases lookup principal.subjectID with err | _ | subject
      · rfl
      · rfl
      simp only [authorizeSubject]
      split
      · rfl
      cases rule.scope with
      | host =>
        simp only
        repeat' split
        all_goals rfl
      | session => rfl
      | filtered => rfl
      | workgroup => exact run_authorizeWorkgroup tables lookup subject rule req

end run

/-! ## Which sessions it looks up -/

/-- The action verbs whose rule looks at the target. -/
def workgroupVerbs : List String :=
  [actionStart, actionSteer, actionRename, actionSetArchived, actionAddAgent]

theorem ruleFor_workgroup {verb : String} {rule : Rule} (h : ruleFor .action verb = some rule)
    (hscope : rule.scope = .workgroup) : verb ∈ workgroupVerbs := by
  have hall : ∀ entry ∈ rules .action, entry.2.scope = .workgroup →
      entry.1 ∈ workgroupVerbs := by decide
  obtain ⟨before, after, heq, -⟩ := List.lookup_eq_some_iff.mp h
  exact hall (verb, rule) (by rw [heq]; simp) hscope

/-- An answer of the daemon's resolver names the session it was asked for. -/
def Names (id : String) (found : Except PolicyError (Option Resource)) : Prop :=
  ∀ resource, found = .ok (some resource) → resource.id = id

section only

variable {tables : Tables} {principal : Principal} {subject : Resource} {rule : Rule}
  {req : Request} {P : String → Prop}

theorem only_checkGrants (hP : P subject.id) (repos : List String) :
    (checkGrants tables subject repos).Only Names P := by
  induction repos with
  | nil => trivial
  | cons repo rest ih =>
    refine .bind ⟨hP, fun found _ => ?_⟩ fun verdict => ?_
    · rcases found with err | _ | resource <;> trivial
    rcases verdict with err | _ | _
    · trivial
    · trivial
    · exact ih

theorem only_authorizeTarget (hP : P subject.id) (found : Except PolicyError (Option Resource)) :
    (authorizeTarget tables subject rule req found).Only Names P := by
  rcases found with err | _ | target
  · trivial
  · trivial
  simp only [authorizeTarget]
  repeat' split
  all_goals try trivial
  rw [authorizeAddAgent]
  split
  · trivial
  · exact only_checkGrants hP _

/-- The guard looks the subject up, and the target only under a rule that is about the target. -/
theorem only_authorize (hsubject : P principal.subjectID)
    (htarget : ∀ rule, ruleFor req.route req.verb = some rule → rule.scope = .workgroup →
      P req.id) : (authorize tables principal req).Only Names P := by
  rw [authorize]
  cases principal.kind with
  | host => trivial
  | provider =>
    rcases tables.provider principal.subjectID req with err | _ | _ <;> trivial
  | session =>
    simp only
    split
    · trivial
    next rule hrule =>
    refine ⟨hsubject, fun found hfound => ?_⟩
    rcases found with err | _ | subject
    · trivial
    · trivial
    have hid : P subject.id := by rwa [hfound subject rfl]
    simp only [authorizeSubject]
    split
    · trivial
    cases hscope : rule.scope with
    | host =>
      repeat' split
      all_goals trivial
    | session => trivial
    | filtered => trivial
    | workgroup =>
      simp only [authorizeWorkgroup]
      split
      · trivial
      split
      · exact only_authorizeTarget hid _
      · exact ⟨htarget rule hrule hscope, fun _ _ => only_authorizeTarget hid _⟩

theorem only_authorizeSessionReport (hsubject : P principal.subjectID) :
    (authorizeSessionReport principal).Only Names P := by
  rw [authorizeSessionReport]
  split
  · trivial
  · refine ⟨hsubject, fun found _ => ?_⟩
    rcases found with err | _ | resource <;> trivial

end only

/-! ## An evaluation in progress -/

/-- An evaluation: what it still asks, and the row it has read of a session whose parent decides. -/
structure Eval where
  guard : Guard (Except PolicyError Unit)
  half : Option Row

/-- The session whose row the evaluation reads next. -/
def Eval.wants (ev : Eval) : Option String :=
  match ev.guard, ev.half with
  | .done _, _ => none
  | .ask id _, none => if id = "" ∨ id = consoleID then none else some id
  | .ask _ _, some row => some row.rootID

/-- The evaluation after its next read; a lookup of no session and of the console reads nothing. -/
def Eval.read (ev : Eval) (fetched : Fetch) : Eval :=
  match ev.guard, ev.half with
  | .done _, _ => ev
  | .ask id next, none =>
    if id = "" then ⟨next (.ok none), none⟩
    else if id = consoleID then ⟨next (.ok (some consoleResource)), none⟩
    else
      match fetched with
      | .error err => ⟨next (.error (.resolver err)), none⟩
      | .ok none => ⟨next (.ok none), none⟩
      | .ok (some row) =>
        if row.decides then ⟨next (.ok (some (policyResource id row))), none⟩
        else ⟨.ask id next, some row⟩
  | .ask id next, some row =>
    match fetched with
    | .error err => ⟨next (.error (.resolver err)), none⟩
    | .ok parent => ⟨next (.ok (some (policyResource id (row.inherit parent)))), none⟩

/-- The next read over a store that stands still. -/
def Eval.fetch (getSession : String → Fetch) (ev : Eval) : Eval :=
  ev.read (ev.wants.elim (.ok none) getSession)

variable {getSession : String → Fetch}

theorem Eval.fetch_lookup (id : String)
    (next : Except PolicyError (Option Resource) → Guard (Except PolicyError Unit)) :
    ∃ n, (fetch getSession)^[n] ⟨.ask id next, none⟩ =
      ⟨next (lookupPolicySession getSession id), none⟩ := by
  fun_cases lookupPolicySession getSession id with
  | case6 | case7 =>
    -- the parent's row is read as well
    exact ⟨2, by simp_all [fetch, read, wants]⟩
  | _ => exact ⟨1, by simp_all [fetch, read, wants]⟩

/-- **An evaluation over a store that stands still** comes, read by read, to the verdict of
    `Policy.Authorize`. -/
theorem Eval.fetch_authorize (tables : Tables) (principal : Principal) (req : Request) :
    ∃ n, (fetch getSession)^[n] ⟨authorize tables principal req, none⟩ =
      ⟨.done (Access.authorize (some (resolverOf tables (lookupPolicySession getSession)))
        principal req), none⟩ := by
  rw [← run_authorize]
  induction authorize tables principal req with
  | done verdict => exact ⟨0, rfl⟩
  | ask id next ih =>
    obtain ⟨m, hlookup⟩ := fetch_lookup id next
    obtain ⟨n, hrest⟩ := ih (lookupPolicySession getSession id)
    exact ⟨n + m, by rw [Function.iterate_add_apply, hlookup, hrest]; rfl⟩

end AgentMultiplexer.Daemon
