import AgentMultiplexer.Daemon.KeyedLocks
import AgentMultiplexer.Daemon.PolicyGuard

set_option autoImplicit false

/-! # Effect admission

The daemon admits a section to its effects by three kinds of locks: the gate `effectMu`, shared or
exclusive; the locks of the sessions the section touches, taken in one call; and `creationMu`, under
which sessions are created and workgroups archived or deleted. Which session locks a section needs it
reads from the store beforehand, so a section that depends on the members of a workgroup resolves
them again once it holds everything, and starts over if they changed.

The machine below runs any number of sections at once. One event is one operation on a lock, one
read of the store, one write of a row. What the sections do besides (runtimes, files, credentials)
is left out; `dispatchMu`, which only exclusive sections take and take first, too. -/

namespace AgentMultiplexer.Daemon

open Access

/-! ## Actions -/

def actionRestart : String := "restart"
def actionSessionRecreate : String := "session.recreate"
def actionDelete : String := "delete"
def actionKill : String := "kill"
def actionAddRepo : String := "add-repo"
def actionAgentSetRepos : String := "agent-set-repos"
def actionCreateWorkspace : String := "create-workspace"
def queryRuntimeEvents : String := "runtime-events"

/-- `core.Action`, as far as the admission reads it. -/
structure Action where
  verb : String
  id : String
  fields : GoMap String String

/-- The request the guard of a session's action checks; `canonicalSessionOperation` copies the verb,
    the id and the fields of the one into the other. -/
def Action.request (a : Action) : Request := ⟨.action, a.verb, a.id, a.fields⟩

def Action.archives (a : Action) : Bool :=
  a.verb = actionSetArchived && a.fields.get "archived" "" = "true"

def Action.deletes (a : Action) : Bool := a.verb = actionDelete || a.verb = actionKill

def creationAction (a : Action) : Bool :=
  a.verb = actionAddAgent || a.verb = actionNewWorkgroup || a.verb = actionCreateWorkspace

def selfCompletionShape (p : Principal) (a : Action) : Bool :=
  p.kind = .session && p.subjectID = a.id && a.archives

/-! ## Reading the store -/

abbrev Rows := GoMap String Row

/-- `db.Children`: the members of a workgroup. -/
def children (rows : Rows) (id : String) : List String :=
  (rows.entries.filter fun e => e.2.rootID = id).map Sigma.fst

inductive StoreQuery
  | session (id : String)
  | children (id : String)

abbrev StoreQuery.Answer : StoreQuery → Type
  | .session _ => Fetch
  | .children _ => Except String (List String)

/-- One read of the store, which may fail. -/
def answer (rows : Rows) (failure : Option String) : (q : StoreQuery) → q.Answer
  | .session id => failure.elim (.ok (rows.lookup id)) .error
  | .children id => failure.elim (.ok (children rows id)) .error

/-- A computation that reads the store. -/
abbrev Resolve (α : Type) := Ask StoreQuery StoreQuery.Answer α

/-- `sessionScopedAction`: the one session an action touches. -/
def sessionScopedAction (a : Action) : Resolve (Option String) :=
  if a.verb ∉ [actionStart, actionRestart, actionSessionRecreate, actionSteer] then .done none
  else if a.id = "" ∨ a.id = consoleID then .done none
  else
    .ask (.session a.id) fun
      | .ok (some row) =>
        .done (if a.verb = actionStart ∧ row.isRoot then none else some a.id)
      | _ => .done none

/-- `workgroupMembers`: the session and, of a root, its members; and whether it is a root. A failed
    read counts as an unknown session. -/
def workgroupMembers (id : String) : Resolve (Option (List String × Bool)) :=
  .ask (.session id) fun
    | .ok (some row) =>
      if row.isRoot then
        .ask (.children id) fun
          | .ok kids => .done (some (id :: kids, true))
          | .error _ => .done none
      else .done (some ([id], false))
    | _ => .done none

def sessionAndMembers (id : String) : Resolve (Option (List String)) := do
  let found ← workgroupMembers id
  return found.map Prod.fst

/-- `archiveScopedAction`: the sessions an archive, delete or rename touches, and whether it takes
    `creationMu`. -/
def archiveScopedAction (a : Action) : Resolve (Option (List String × Bool)) :=
  if !a.archives ∧ !a.deletes ∧ a.verb ≠ actionRename then .done none
  else if a.id = "" ∨ a.id = consoleID then .done none
  else do
    let found ← sessionAndMembers a.id
    return found.map fun ids => (ids, a.verb != actionRename)

/-- `repoScopedAction`: the sessions a repository action changes. -/
def repoScopedAction (a : Action) : Resolve (Option (List String)) :=
  if a.verb = actionAddRepo then .done (some [])
  else if a.verb ≠ actionAgentSetRepos ∨ a.id = "" ∨ a.id = consoleID then .done none
  else
    .ask (.session a.id) fun
      | .ok (some row) => .done (if row.isRoot then none else some [a.id])
      | _ => .done none

def workgroupStart (a : Action) : Resolve Bool :=
  if a.verb ≠ actionStart ∨ a.id = "" ∨ a.id = consoleID then .done false
  else
    .ask (.session a.id) fun
      | .ok (some row) => .done row.isRoot
      | _ => .done false

/-- `AgentIDsUnder`: a session alone, or the members of a workgroup without its root. -/
def agentsUnder (id : String) : Resolve (Option (List String)) :=
  if id = consoleID then .done (some [id])
  else
    .ask (.session id) fun
      | .ok (some row) =>
        if !row.isRoot ∨ row.role id = .console ∨ row.role id = .repo then .done (some [id])
        else
          .ask (.children id) fun
            | .ok kids => .done (some kids)
            | .error _ => .done none
      | _ => .done none

/-- `sameMembers`: as many, and each of the second among the first. -/
def sameMembers (a b : List String) : Bool := a.length = b.length && b.all (· ∈ a)

/-! ## How a section is admitted -/

/-- The locks of a shared admission: the session keys; whether `creationMu` follows them; the
    members they were computed from, when these are resolved again (`again`: an archived session
    that is gone by then starts the admission over instead of failing it); and whether no lock is
    waited for. -/
structure Plan where
  keys : List String
  creation : Bool
  expect : Option (List String)
  again : Bool
  tries : Bool

/-- `admitSessions`, which ignores empty ids. -/
def admitSessions (ids : List String) : Plan := ⟨ids.filter (· ≠ ""), false, none, false, false⟩

/-- What a section takes the gate shared for. -/
inductive Shared
  /-- `admitShared`, for the check before the split of an action. -/
  | precheck
  /-- The start of a workgroup: its agents are resolved under the gate. -/
  | workgroup (id subject : String)
  | sessions (plan : Plan)

inductive Admission
  | exclusive
  | shared (what : Shared)

def admitArchive (id : String) : Resolve Admission := do
  match ← workgroupMembers id with
  | none => return .shared (.sessions (admitSessions [id]))
  | some (ids, false) => return .shared (.sessions (admitSessions ids))
  | some (ids, true) =>
    return .shared (.sessions
      { admitSessions ids with creation := true, expect := some ids, again := true })

/-- The branches of `handle`; `subject` is the session the guard acts for, empty for the host. -/
def handleAdmission (subject : String) (a : Action) : Resolve Admission := do
  match ← sessionScopedAction a with
  | some id => return .shared (.sessions (admitSessions [id, subject]))
  | none =>
    match ← archiveScopedAction a with
    | some (ids, true) =>
      return .shared (.sessions
        { admitSessions (ids ++ [subject]) with creation := true, expect := some ids })
    | some (ids, false) => return .shared (.sessions (admitSessions (ids ++ [subject])))
    | none =>
      match ← repoScopedAction a with
      | some ids =>
        return .shared (.sessions { admitSessions (ids ++ [subject]) with creation := true })
      | none =>
        if ← workgroupStart a then return .shared (.workgroup a.id subject)
        else if creationAction a then
          return .shared (.sessions { admitSessions [subject] with creation := true })
        else return .exclusive

def splitAction (a : Action) : Resolve Bool := do
  if (← sessionScopedAction a).isSome then return true
  else if (← archiveScopedAction a).isSome then return true
  else if (← repoScopedAction a).isSome then return true
  else if creationAction a then return true
  else workgroupStart a

/-- `dispatch` of an action: a self-completion has its own admission, an action that `handle` splits
    is checked once under the gate alone before, and every other one is exclusive. -/
def dispatchAdmission (p : Principal) (a : Action) : Resolve Admission :=
  if selfCompletionShape p a then admitArchive a.id
  else do
    if ← splitAction a then return .shared .precheck else return .exclusive

/-! ## Sections -/

/-- What a section is. -/
inductive Job
  /-- A session's report, and whatever else takes `admitSession` of its subject. -/
  | report (p : Principal)
  /-- A restricted query. -/
  | query (p : Principal) (req : Request)
  /-- The admission of a page of runtime events. -/
  | events (p : Principal) (req : Request)
  /-- An action a session sent. -/
  | dispatch (p : Principal) (a : Action)
  /-- A host action. -/
  | handle (a : Action)
  /-- The deferred part of a steer. -/
  | deferred (p : Option Principal) (a : Action)
  /-- One session of a reconcile pass, with or without opening its mailbox. -/
  | reconcile (id : String) (wait creation : Bool)
  /-- A delivery of the pull-request watch. -/
  | watch (ids : List String)

def Job.principal : Job → Option Principal
  | .report p | .query p _ | .events p _ | .dispatch p _ => some p
  | .deferred p _ => p
  | .handle _ | .reconcile _ _ _ | .watch _ => none

/-- `guardSubject`. -/
def Job.subject (job : Job) : String := job.principal.elim "" Principal.subjectID

def Job.action : Job → Option Action
  | .dispatch _ a | .handle a | .deferred _ a => some a
  | _ => none

/-- What the callers of the admissions send there: a restricted query is not the query for runtime
    events, and the deferred part belongs to a steer. -/
def Job.routed : Job → Bool
  | .query _ req => req.route = .query && req.verb != queryRuntimeEvents
  | .events _ req => req.route = .query
  | .deferred _ a => a.verb = actionSteer
  | _ => true

/-- The guard a section evaluates, none for the host's. -/
def Job.guard (tables : Tables) : Job → Option (Guard (Except PolicyError Unit))
  | .report p => some (authorizeSessionReport p)
  | .query p req | .events p req => some (authorize tables p req)
  | .dispatch p a | .deferred (some p) a => some (authorize tables p a.request)
  | .handle _ | .deferred none _ | .reconcile _ _ _ | .watch _ => none

def Job.admission : Job → Resolve Admission
  | .report p => .done (.shared (.sessions ⟨[p.subjectID], false, none, false, false⟩))
  | .query p _ => .done (.shared (.sessions (admitSessions [p.subjectID])))
  | .events p req => .done (.shared (.sessions (admitSessions [p.subjectID, req.id])))
  | .dispatch p a => dispatchAdmission p a
  | .handle a => handleAdmission "" a
  | .deferred p a =>
    .done (.shared (.sessions (admitSessions [a.id, p.elim "" Principal.subjectID])))
  | .reconcile id wait creation =>
    .done (.shared (.sessions ⟨[id], creation, none, false, !wait⟩))
  | .watch ids => .done (.shared (.sessions { admitSessions ids with creation := true }))

/-- The part of a section an admission is for. -/
inductive Stage
  /-- The check before the split of an action. -/
  | precheck
  | main
  /-- The start of the session a creation made. -/
  | start (id : String)
  deriving DecidableEq

/-- What follows a release. -/
inductive Next
  | stop
  | resume (stage : Stage) (admission : Resolve Admission)

/-- Where a section is. -/
inductive Phase
  | planning (q : Resolve Admission)
  /-- At `effectMu.RLock`. -/
  | entering (what : Shared)
  /-- A workgroup start, holding the gate. -/
  | resolving (subject : String) (q : Resolve (Option (List String)))
  /-- Before `sessionLocks.lock`. -/
  | keying (plan : Plan)
  /-- In `sessionLocks.lock`. -/
  | locking (plan : Plan)
  /-- At `creationMu.Lock`. -/
  | creating (plan : Plan)
  /-- Holding everything, while the members are resolved again. -/
  | checking (plan : Plan) (q : Resolve (Option (List String)))
  /-- Admitted; without a plan under the gate alone. -/
  | inside (plan : Option Plan)
  /-- At `creationMu.Unlock`. -/
  | uncreating (plan : Plan) (next : Next)
  /-- In the release of the session locks. -/
  | unlocking (next : Next)
  /-- At `effectMu.RUnlock`. -/
  | leaving (next : Next)
  /-- In `lockEffectExclusive`. -/
  | spinning
  /-- Admitted exclusively. -/
  | alone

/-- A section in progress. `eval` is the evaluation of its guard, `passed` the last verdict, `reads`
    the sessions whose rows the evaluations under this admission found, `doomed` the members a delete
    listed, `created` the sessions the section created. -/
structure Thread where
  job : Job
  stage : Stage
  phase : Phase
  eval : Option Eval
  passed : Bool
  reads : List String
  doomed : List String
  created : List String

def Thread.start (job : Job) : Thread :=
  ⟨job, .main, .planning job.admission, none, false, [], [], []⟩

def Thread.at (th : Thread) (phase : Phase) : Thread := { th with phase := phase }

/-- The thread at the start of its release: what it learned under the admission is void. -/
def Thread.release (th : Thread) (phase : Phase) : Thread :=
  { th with phase := phase, eval := none, passed := false, reads := [], doomed := [], created := [] }

/-- The members are resolved again for the same session. -/
def Thread.recheck (th : Thread) : Resolve (Option (List String)) :=
  match th.job.action with
  | some a => sessionAndMembers a.id
  | none => .done none

/-- The admission that starts over after the members changed. -/
def Thread.replan (th : Thread) : Resolve Admission :=
  match th.job with
  | .dispatch p a => if selfCompletionShape p a then admitArchive a.id else handleAdmission p.subjectID a
  | job => job.admission

/-! ## Writes -/

/-- A write of a session row. -/
inductive RowWrite
  | setArchived (id : String) (archived : Bool)
  | setRootID (id root : String)
  | setRepo (id repo : String)
  | delete (id : String)
  | create (id : String) (row : Row)
  deriving DecidableEq

/-- The write on the rows; `none` where the store or its caller refuses it: only a member is moved,
    and into a root; no empty id is created and none that is taken, nor a member of something else
    than a root. -/
def RowWrite.apply (rows : Rows) : RowWrite → Option Rows
  | .setArchived id archived => do
      let row ← rows.lookup id
      return rows.insert id { row with archived := archived }
  | .setRootID id root => do
      let row ← rows.lookup id
      let target ← rows.lookup root
      if row.isRoot || !target.isRoot then none
      else return rows.insert id { row with rootID := root }
  | .setRepo id repo => do
      let row ← rows.lookup id
      return rows.insert id { row with repo := repo }
  | .delete id => do
      let _ ← rows.lookup id
      return rows.erase id
  | .create id row =>
    match rows.lookup id with
    | some _ => none
    | none =>
      if id ≠ "" ∧ (row.isRoot || (rows.lookup row.rootID).any Row.isRoot) then
        some (rows.insert id row)
      else none

/-- The writes of an action under its locks; every other change of a row is exclusive. -/
def Action.allows (a : Action) (doomed : List String) : RowWrite → Bool
  | .setArchived id archived => a.archives && id = a.id && archived
  | .delete id => a.deletes && (id = a.id || id ∈ doomed)
  | .create _ row => (creationAction a || a.verb = actionAddRepo) && !row.archived
  | .setRepo id _ => a.verb = actionAgentSetRepos && id = a.id
  | .setRootID _ _ => false

/-- The writes a section may make where it is: a guarded one only after its guard passed. -/
def Thread.allows (th : Thread) (w : RowWrite) : Bool :=
  th.eval.isNone && (th.job.principal.isNone || th.passed) &&
    match th.phase, th.stage with
    | .alone, _ => true
    | .inside (some _), .main => th.job.action.any fun a => a.allows th.doomed w
    | _, _ => false

/-! ## The machine -/

structure State where
  rows : Rows
  readers : List Caller
  writer : Option Caller
  locks : KeyedLocks
  creationMu : Option Caller
  threads : GoMap Caller Thread

namespace State

def initial : State := ⟨∅, [], none, .empty, none, ∅⟩

inductive Event
  | spawn (t : Caller) (job : Job)
  /-- The section's next operation on a lock, or the step that follows a result. -/
  | go (t : Caller)
  /-- The section's next read of the store, with the error if it fails. -/
  | read (t : Caller) (failure : Option String)
  /-- The section evaluates its guard; `valid` is the verdict of the authority. -/
  | evaluate (t : Caller) (valid : Bool) (tables : Tables)
  /-- A delete lists the members of its target. -/
  | list (t : Caller)
  | write (t : Caller) (w : RowWrite)
  /-- The section is done with its effects; a creation goes on to start one of its sessions. -/
  | leave (t : Caller) (newID : Option String)

def Event.thread : Event → Caller
  | .spawn t _ | .go t | .read t _ | .evaluate t _ _ | .list t | .write t _ | .leave t _ => t

def setThread (s : State) (t : Caller) (th : Thread) : State :=
  { s with threads := s.threads.insert t th }

def endThread (s : State) (t : Caller) : State := { s with threads := s.threads.erase t }

/-- A step of the section inside the table of session locks. -/
def lockStep (s : State) (t : Caller) (th : Thread) (ev : KeyedLocks.Event) : Option State := do
  let locks ← s.locks.step ev
  return { s with locks := locks }.setThread t th

/-- Where a shared section is after `RLock`. -/
def afterGate : Shared → Phase
  | .precheck => .inside none
  | .workgroup id subject => .resolving subject (agentsUnder id)
  | .sessions plan => .keying plan

def Shared.tries : Shared → Bool
  | .sessions plan => plan.tries
  | _ => false

/-- `sessionLocks.lock`, or `tryLock` of the one key. -/
def lockEvent (t : Caller) (plan : Plan) : KeyedLocks.Event :=
  match plan.tries, plan.keys with
  | true, [key] => .tryLock t key
  | _, keys => .lock t keys

/-- The section's next operation. -/
def go (s : State) (t : Caller) (th : Thread) : Option State :=
  match th.phase with
  | .planning (.done .exclusive) => some (s.setThread t (th.at .spinning))
  | .planning (.done (.shared .precheck)) =>
    some (s.setThread t { th with stage := .precheck, phase := .entering .precheck })
  | .planning (.done (.shared what)) => some (s.setThread t (th.at (.entering what)))
  | .planning (.ask _ _) => none
  | .entering what =>
    match s.writer with
    | none => some ({ s with readers := t :: s.readers }.setThread t (th.at (afterGate what)))
    | some _ => if Shared.tries what then some (s.endThread t) else none
  | .resolving subject (.done (some ids)) =>
    if ids = [] then some (s.setThread t (th.at (.leaving .stop)))
    else some (s.setThread t (th.at (.keying ⟨ids ++ [subject], false, none, false, false⟩)))
  | .resolving _ (.done none) => some (s.setThread t (th.at (.leaving .stop)))
  | .resolving _ (.ask _ _) => none
  | .keying plan => s.lockStep t (th.at (.locking plan)) (lockEvent t plan)
  | .locking plan => do
      let call ← s.locks.calls.lookup t
      match call.phase with
      | .trying => s.lockStep t th (.attempt t)
      | .unlocking => return s.setThread t (th.at (.unlocking .stop))
      | .locking =>
        if call.locked = call.held.length then
          return s.setThread t
            (th.at (if plan.creation then .creating plan else .inside (some plan)))
        else s.lockStep t th (.acquire t)
  | .creating plan =>
    match s.creationMu with
    | none =>
      some ({ s with creationMu := some t }.setThread t
        (th.at (if plan.expect.isSome then .checking plan th.recheck else .inside (some plan))))
    | some _ => if plan.tries then some (s.setThread t (th.at (.unlocking .stop))) else none
  | .checking plan (.done found) =>
    match found with
    | some current =>
      if (plan.expect.any fun ids => sameMembers ids current) then
        some (s.setThread t (th.at (.inside (some plan))))
      else some (s.setThread t (th.at (.uncreating plan (.resume .main th.replan))))
    | none =>
      some (s.setThread t (th.at (.uncreating plan
        (if plan.again then .resume .main th.replan else .stop))))
  | .checking _ (.ask _ _) => none
  | .inside _ | .alone =>
    match th.eval with
    | some ⟨.done verdict, _⟩ =>
      some (s.setThread t { th with eval := none, passed := verdict.isOk })
    | _ => none
  | .uncreating _ next =>
    some ({ s with creationMu := none }.setThread t (th.at (.unlocking next)))
  | .unlocking next => do
      let call ← s.locks.calls.lookup t
      match call.phase, call.locked with
      | .unlocking, 0 => s.lockStep t (th.at (.leaving next)) (.drop t)
      | .unlocking, _ + 1 => s.lockStep t th (.release t)
      | _, _ => s.lockStep t th (.unlock t)
  | .leaving next =>
    let s' := { s with readers := s.readers.filter (· ≠ t) }
    match next with
    | .stop => some (s'.endThread t)
    | .resume stage q => some (s'.setThread t { th with stage := stage, phase := .planning q })
  | .spinning =>
    if s.readers = [] ∧ s.writer = none then
      some ({ s with writer := some t }.setThread t (th.at .alone))
    else none

/-- The section's next read. Under an admission it is a read of the guard. -/
def read (s : State) (t : Caller) (th : Thread) (failure : Option String) : Option State :=
  match th.phase with
  | .planning (.ask q next) =>
    some (s.setThread t (th.at (.planning (next (answer s.rows failure q)))))
  | .resolving subject (.ask q next) =>
    some (s.setThread t (th.at (.resolving subject (next (answer s.rows failure q)))))
  | .checking plan (.ask q next) =>
    some (s.setThread t (th.at (.checking plan (next (answer s.rows failure q)))))
  | .inside _ | .alone => do
      let ev ← th.eval
      match ev.guard with
      | .done _ => none
      | .ask _ _ =>
        let fetched := failure.elim (.ok ((ev.wants.bind fun id => s.rows.lookup id))) .error
        let found := if failure.isNone then
          ev.wants.toList.filter (fun id => (s.rows.lookup id).isSome) else []
        return s.setThread t { th with eval := some (ev.read fetched), reads := th.reads ++ found }
  | _ => none

/-- What follows the release of an admission. -/
def nextOf (th : Thread) (newID : Option String) : Option Next :=
  match th.stage, newID with
  | .precheck, none =>
    match th.job with
    | .dispatch p a =>
      some (if th.passed then .resume .main (handleAdmission p.subjectID a) else .stop)
    | _ => none
  | .main, some id =>
    if id ∈ th.created ∧ th.job.action.any creationAction then
      some (.resume (.start id) (.done (.shared (.sessions (admitSessions [id, th.job.subject])))))
    else none
  | .precheck, some _ | .start _, some _ => none
  | .main, none | .start _, none => some .stop

/-- Where a section starts its release. -/
def afterBody (next : Next) : Option Plan → Phase
  | none => .leaving next
  | some plan => if plan.creation then .uncreating plan next else .unlocking next

def step (s : State) (e : Event) : Option State :=
  match e with
  | .spawn t job =>
    match s.threads.lookup t with
    | some _ => none
    | none => if job.routed then some (s.setThread t (.start job)) else none
  | .go t => do s.go t (← s.threads.lookup t)
  | .read t failure => do s.read t (← s.threads.lookup t) failure
  | .evaluate t valid tables => do
      let th ← s.threads.lookup t
      let guard ← th.job.guard tables
      match th.phase, th.eval with
      | .inside _, none | .alone, none =>
        return s.setThread t
          { th with eval := some ⟨if valid then guard else .done (.error .denied), none⟩ }
      | _, _ => none
  | .list t => do
      let th ← s.threads.lookup t
      let a ← th.job.action
      match th.phase, th.stage with
      | .inside (some _), .main =>
        if a.deletes ∧ (s.rows.lookup a.id).any Row.isRoot then
          return s.setThread t { th with doomed := children s.rows a.id }
        else none
      | _, _ => none
  | .write t w => do
      let th ← s.threads.lookup t
      if th.allows w then
        let rows ← w.apply s.rows
        let created := match w with
          | .create id _ => id :: th.created
          | _ => th.created
        return { s with rows := rows }.setThread t { th with created := created }
      else none
  | .leave t newID => do
      let th ← s.threads.lookup t
      match th.phase, th.eval with
      | .alone, none => return { s with writer := none }.endThread t
      | .inside plan, none => do
          let next ← nextOf th newID
          return s.setThread t (th.release (afterBody next plan))
      | _, _ => none

end State

end AgentMultiplexer.Daemon
