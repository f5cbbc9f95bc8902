import AgentMultiplexer.Theory.GoStrings
import AgentMultiplexer.Theory.Transition
import AgentMultiplexer.Direct.Grants

set_option autoImplicit false

/-! # Creations and their status

A creation may run asynchronously: the request that records its key answers with a status, a job
waits for a slot, checks again that it may run, commits a dispatch marker and only then calls the
daemon. The status is derived from the idempotency record each time it is asked for.

A call's thread is a *job* here, of an asynchronous creation or of a synchronous action: it begins
with a `proceed` of `BeginAction` and ends by recording an outcome. Between any two of its critical
sections the other jobs move, statuses are read, and the process may crash. The limits on pending
jobs are left out: a request over them records nothing. -/

namespace AgentMultiplexer.Direct

/-! ## The public status -/

def codeAuthExpired : String := "auth.expired"
def codeAuthRevoked : String := "auth.revoked"
def codeDenied : String := "denied"
def codeNotFound : String := "not_found"
def codeUnsupportedVerb : String := "unsupported_verb"
def codeArchived : String := "archived"
def codeNotInCatalog : String := "not_in_catalog"
def codeRejected : String := "rejected"
def codeIdemAmbiguous : String := "idem_ambiguous"
def codeDaemonUpgradeRequired : String := "daemon_upgrade_required"
def codeCreatedTargetUnavailable : String := "created_target_unavailable"
def codeCreatedIdentityUnverifiable : String := "created_identity_unverifiable"

/-- The failed codes that prove the creation was never sent. -/
def notSentCodes : List String :=
  [codeUnavailable, codeAuthRevoked, codeAuthExpired, codeDenied, codeNotFound, codeArchived,
    codeUnsupportedVerb, codeNotInCatalog, codeDaemonUpgradeRequired]

inductive CreatePhase
  | queued
  | preparing
  | ready
  | failed
  deriving DecidableEq

structure CreationStatus where
  creationID : String
  verb : String
  phase : CreatePhase
  version : Nat
  newID : String := ""
  rootID : String := ""
  code : String := ""
  error : String := ""
  uncertain : Bool := false
  elapsedMS : Int := 0

/-- The status says that the creation did not run. -/
def CreationStatus.NotRun (st : CreationStatus) : Prop :=
  st.phase = .failed ∧ st.code ∈ notSentCodes

instance (st : CreationStatus) : Decidable st.NotRun := inferInstanceAs (Decidable (_ ∧ _))

/-- All but the elapsed time. -/
def CreationStatus.core (st : CreationStatus) : CreationStatus := { st with elapsedMS := 0 }

structure CreationView where
  record : IdemRecord
  running : Bool

def validSessionID (id : String) : Bool :=
  id ≠ "" && id.utf8ByteSize ≤ 256 && id ≠ "." && id ≠ ".." &&
    -- an id that contains "://" contains a slash
    !(GoStrings.containsRune id '/' || GoStrings.containsRune id '\\' ||
      GoStrings.containsRune id '\x00')

def uncertainError : String :=
  "the creation's outcome is unknown; the daemon may have created it. It will not run again with " ++
  "this idem_key; check the session list before retrying with a new one."

/-- `statusOf` before the elapsed time is set. -/
def phaseOf (v : CreationView) : CreationStatus :=
  let r := v.record
  if r.state = .admitted ∧ v.running ∧ r.async ∧ r.dispatchedAt = 0 then
    { creationID := r.creationID, verb := r.verb, phase := .queued, version := 1 }
  else if r.state = .admitted ∧ v.running then
    { creationID := r.creationID, verb := r.verb, phase := .preparing, version := 2 }
  else if r.state = .admitted ∧ r.async ∧ r.dispatchedAt = 0 then
    { creationID := r.creationID, verb := r.verb, phase := .failed, version := 3,
      code := codeUnavailable, error := undispatchedError }
  else if r.state = .done ∧ r.ok ∧ validSessionID r.newID ∧ validSessionID r.rootID then
    { creationID := r.creationID, verb := r.verb, phase := .ready, version := 3,
      newID := r.newID, rootID := r.rootID }
  else if r.state = .done ∧ ¬ r.ok ∧ r.code ≠ "" then
    { creationID := r.creationID, verb := r.verb, phase := .failed, version := 3,
      code := r.code, error := r.error }
  else
    { creationID := r.creationID, verb := r.verb, phase := .failed, version := 3,
      code := codeIdemAmbiguous, error := uncertainError, uncertain := true }

def statusOf (v : CreationView) (now : Int) : CreationStatus :=
  let st := phaseOf v
  let ended := if st.version = 3 ∧ v.record.endedAt ≠ 0 then v.record.endedAt else now
  if ended > v.record.admittedAt then
    { st with elapsedMS := (ended - v.record.admittedAt) * 1000 }
  else st

/-! ## Reading a status -/

/-- `SessionIdentity`: a session that exists now; `rootID` is empty for a root. -/
structure SessionIdentity where
  incarnation : String
  rootID : String

inductive IdentityVerdict
  | verified
  | targetUnavailable
  | unverifiable

/-- `verifyCreated`, given the sessions there are. -/
def verifyCreated (current : GoMap String SessionIdentity) (r : IdemRecord) : IdentityVerdict :=
  if r.newIncarnation = "" ∨ r.rootIncarnation = "" ∨ r.rootID = "" then .unverifiable
  else
    let wantParent := if r.newID = r.rootID then "" else r.rootID
    match current.lookup r.newID, current.lookup r.rootID with
    | some n, some root =>
      if n.incarnation ≠ r.newIncarnation ∨ root.incarnation ≠ r.rootIncarnation ∨
          root.rootID ≠ "" ∨ n.rootID ≠ wantParent then .targetUnavailable
      else .verified
    | _, _ => .targetUnavailable

def targetUnavailableMsg : String :=
  "the session this creation made, or its workgroup, no longer exists as created (deleted, or its " ++
  "id now names another session); the creation ran, and it will not run again with this idem_key"

def unverifiableMsg : String :=
  "this creation was recorded before the server kept session identities, so it cannot be " ++
  "confirmed that its ids still name the sessions it created; it will not run again with this " ++
  "idem_key"

def identityFailed (st : CreationStatus) (code msg : String) : CreationStatus :=
  { st with
    phase := .failed, code := code, error := msg, uncertain := false, newID := "", rootID := "" }

/-- `writeCreation`, when the identities can be read and the reader's access has not ended. -/
def writeCreation (current : GoMap String SessionIdentity) (v : CreationView) (now : Int) :
    CreationStatus :=
  let st := statusOf v now
  if st.phase = .ready then
    match verifyCreated current v.record with
    | .verified => st
    | .targetUnavailable => identityFailed st codeCreatedTargetUnavailable targetUnavailableMsg
    | .unverifiable => identityFailed st codeCreatedIdentityUnverifiable unverifiableMsg
  else st

def creationByKey (p : Process) (clientID key : String) : Option CreationView :=
  (p.registry.grants.lookup clientID).bind fun g =>
    (g.idem.lookup key).map fun r => ⟨r, runKey clientID key ∈ p.running⟩

/-- `Creation`; `key` is the one under which the loop over the records finds the id. -/
def creation (p : Process) (clientID id key : String) (now : Int) : Option CreationView :=
  match p.registry.grants.lookup clientID with
  | none => none
  | some g =>
    if g.revokedAt ≠ 0 ∨ id = "" then none
    else
      match g.idem.lookup key with
      | none => none
      | some r =>
        if r.creationID ≠ id ∨ (r.state = .done ∧ pastRetention r now) then none
        else some ⟨r, runKey clientID key ∈ p.running⟩

/-! ## What a job records -/

/-- Errors of `MarkDispatched`. -/
inductive MarkError
  | authRevoked
  | notFound
  | degraded
  | notCommitted
  | ambiguousCommit
  deriving DecidableEq

/-- What `MarkDispatched` returns. -/
def markError (p : Process) (clientID key : String) (leaseEnded : Bool) (commit : Commit) :
    Option MarkError :=
  if leaseEnded then some .authRevoked
  else
    match p.registry.grants.lookup clientID with
    | none => some .authRevoked
    | some g =>
      if g.revokedAt ≠ 0 then some .authRevoked
      else
        match g.idem.lookup key with
        | none => some .notFound
        | some r =>
          if r.state ≠ .admitted then some .notFound
          else if p.degraded then some .degraded
          else
            match commit with
            | .ok => none
            | .notCommitted => some .notCommitted
            | .ambiguous => some .ambiguousCommit

def authCode : AuthError → String
  | .expired => codeAuthExpired
  | .denied => codeDenied
  | _ => codeAuthRevoked

/-- Errors of the destination precheck. -/
inductive PrecheckError
  | archived
  | unsupported
  | notInCatalog
  | notFound
  | upgradeRequired
  | unavailable
  | other
  deriving DecidableEq

/-- `precheckCode`: the code and the text. `revoked` and `expired` are what the lease says. -/
def precheckCode (revoked expired : Bool) (verb : String) (err : PrecheckError) :
    String × String :=
  match err with
  | .archived =>
    (codeArchived,
      "the session or its workgroup is archived (or, for unarchive, not archived)")
  | .unsupported => (codeUnsupportedVerb, "this session cannot serve " ++ verb)
  | .notInCatalog =>
    (codeNotInCatalog,
      "a harness or repository is not in this machine's creation catalog for this target")
  | err =>
    if revoked then (codeAuthRevoked, "access revoked")
    else if expired then (codeAuthExpired, "access expired")
    else
      match err with
      | .notFound => (codeNotFound, "no such session")
      | .upgradeRequired =>
        (codeDaemonUpgradeRequired,
          "the amux daemon must be upgraded (and restarted) before it can create sessions " ++
          "over direct access")
      | .unavailable => (codeUnavailable, "the amux daemon is not reachable")
      | _ => (codeUnavailable, "the amux daemon could not answer")

/-- Why an asynchronous creation is given up before its dispatch. -/
inductive Refusal
  /-- `Hold` failed. -/
  | notHeld (err : AuthError)
  /-- The lease ended in the queue. -/
  | endedQueued (expired : Bool)
  /-- `GrantLive` failed after the queue. -/
  | fenced (err : AuthError)
  | prechecked (revoked expired : Bool) (err : PrecheckError)
  /-- The workgroup was deleted and its id used again while the creation was queued. -/
  | rootReplaced (revoked expired : Bool)
  | unmarked (err : MarkError)
  deriving DecidableEq

/-- The code and the text that are recorded. -/
def Refusal.answer (verb : String) : Refusal → String × String
  | .notHeld err => (authCode err, "access ended before the creation ran; it did not run")
  | .endedQueued expired =>
    (if expired then codeAuthExpired else codeAuthRevoked,
      "access ended while the creation was queued; it did not run")
  | .fenced err => (authCode err, "access ended while the creation was queued; it did not run")
  | .prechecked revoked expired err =>
    let (code, msg) := precheckCode revoked expired verb err
    (code, msg ++ "; it did not run")
  | .rootReplaced revoked expired =>
    let (code, msg) := precheckCode revoked expired verb .notFound
    (code, msg ++ "; it did not run")
  | .unmarked .authRevoked =>
    (codeAuthRevoked, "access ended before the creation ran; it did not run")
  | .unmarked _ =>
    (codeUnavailable, "could not record the creation's dispatch; it did not run")

/-- The action of a job, as far as `settle` tells actions apart. -/
inductive DirectAction
  /-- `add-agent` to the workgroup `root`. -/
  | addAgent (root : String)
  | newWorkgroup
  /-- A verb that creates nothing; `affected` is what its precheck found. -/
  | control (affected : List String)

/-- `CreatesSession`. -/
def DirectAction.creates : DirectAction → Bool
  | .control _ => false
  | _ => true

/-- `amuxstore.Identity`: what the daemon created. -/
structure CreatedIdentity where
  id : String
  incarnation : String
  rootID : String
  rootIncarnation : String

def CreatedIdentity.complete (i : CreatedIdentity) : Bool :=
  i.id ≠ "" && i.incarnation ≠ "" && i.rootID ≠ "" && i.rootIncarnation ≠ ""

/-- How a call of the daemon ends. -/
inductive CallResult
  | ok (ident : CreatedIdentity)
  | upgradeRequired
  | rejected
  /-- `ErrUnavailable`: the dial or the negotiation failed. -/
  | unavailable
  /-- Cancelled, or the transport failed. -/
  | lost

/-- The results of a call that did not come to send the action. -/
def CallResult.unsent : CallResult → Bool
  | .upgradeRequired | .unavailable | .lost => true
  | _ => false

/-- The results of a call that sent it. -/
def CallResult.sent : CallResult → Bool
  | .ok _ | .rejected | .lost => true
  | _ => false

/-- `settle`: what is recorded. -/
def settle (act : DirectAction) : CallResult → Ending
  | .ok ident =>
    match act with
    | .control affected => .result "" "" affected
    | act =>
      let wantRoot := match act with
        | .addAgent root => root
        | _ => ident.id
      if validSessionID ident.id ∧ ident.complete ∧ ident.rootID = wantRoot ∧
          (ident.id ≠ wantRoot ∨ ident.incarnation = ident.rootIncarnation) then
        .created ident.id wantRoot ident.incarnation ident.rootIncarnation
      else .ambiguous
  | .upgradeRequired =>
    .finish false codeDaemonUpgradeRequired
      ("the amux daemon must be upgraded before it can create sessions over direct access; " ++
        "nothing was sent to it")
  | .rejected => .finish false codeRejected "the daemon rejected the action"
  | .unavailable =>
    .finish false codeUnavailable "the amux daemon was not reachable; the action did not run"
  | .lost => .ambiguous

/-! ## Jobs -/

inductive JobPhase
  /-- `BeginAction` has answered `proceed`. -/
  | begun
  /-- `MarkDispatched` has failed. -/
  | unmarked (err : MarkError)
  /-- `MarkDispatched` has returned nil. -/
  | dispatching
  /-- The action is sent to the daemon. -/
  | sent
  deriving DecidableEq

/-- The thread of one action. -/
structure Job where
  act : DirectAction
  /-- The verb of an asynchronous creation. -/
  creation : Option String
  phase : JobPhase

/-- The job goes on to call the daemon: an asynchronous creation after its marker is committed. -/
def Job.calling (j : Job) : Bool :=
  j.phase = .dispatching || (j.phase = .begun && j.creation.isNone)

/-- Whether a creation is given up for this reason in this phase. -/
def Job.refusable (j : Job) (why : Refusal) : Bool :=
  j.creation.isSome &&
    match j.phase, why with
    | .begun, .unmarked _ => false
    | .begun, _ => true
    | .unmarked err, why => why = .unmarked err
    | _, _ => false

/-! ## The server -/

/-- An answer that carries a status. -/
structure Answer where
  clientID : String
  key : String
  /-- How many requests of the key had been let proceed. -/
  admissions : Nat
  view : CreationView
  now : Int
  current : GoMap String SessionIdentity

def Answer.creationID (a : Answer) : String := a.view.record.creationID

def Answer.status (a : Answer) : CreationStatus := writeCreation a.current a.view a.now

/-- What a client or the daemon has seen. -/
inductive Entry
  | answered (a : Answer)
  /-- The action of this key was sent to the daemon. -/
  | called (clientID key : String) (admissions : Nat)

/-- The authority, the jobs of the running process, the keys of the requests that were let proceed,
    and what was seen, in order. -/
structure CreationState where
  direct : DirectState
  jobs : GoMap (String × String) Job
  admitted : List (String × String)
  log : List Entry

inductive CreationEvent
  | begin (call : BeginCall) (act : DirectAction)
  /-- The creation is given up: `FinishAction`. -/
  | refuse (clientID key : String) (why : Refusal) (now : Int) (commit : Commit)
  | mark (clientID key : String) (leaseEnded : Bool) (now : Instant) (commit : Commit)
  | send (clientID key : String)
  /-- The call has returned, and its outcome is recorded. -/
  | settle (clientID key : String) (result : CallResult) (now : Int) (commit : Commit)
  /-- Access ended before a synchronous action ran: `AbortAction`. -/
  | abort (clientID key : String) (commit : Commit)
  | ensureCreationID (clientID key creationID verb : String) (commit : Commit)
  /-- An asynchronous request reads the status of its key. -/
  | readKey (clientID key : String) (now : Int) (current : GoMap String SessionIdentity)
  /-- `GET` of a creation id. -/
  | readID (clientID id key : String) (now : Int) (current : GoMap String SessionIdentity)
  | crash
  /-- Another operation of the authority, or its start. -/
  | other (e : DirectEvent)

/-- The operations that are not part of a job. A client id is `c_` and base64 text. -/
def DirectEvent.aside : DirectEvent → Bool
  | .redeem clientID _ _ => !GoStrings.containsRune clientID '\x00'
  | .revoke .. | .resetIdentity .. | .prune .. | .commit _ | .load .. => true
  | _ => false

namespace CreationState

/-- How many requests of the key were let proceed. -/
def admissions (s : CreationState) (clientID key : String) : Nat :=
  s.admitted.count (clientID, key)

/-- `stampCreation` is given to asynchronous creations only. -/
def stamps (call : BeginCall) (act : DirectAction) : Bool :=
  call.creation.all fun c => c.2.2 && act.creates

/-- The job that a `proceed` starts. -/
def launch (call : BeginCall) (act : DirectAction) : Job :=
  ⟨act, call.creation.map fun c => c.2.1, .begun⟩

def perform (spentKey : String → String) (s : CreationState) (e : DirectEvent) :
    Option CreationState :=
  (s.direct.step spentKey e).map fun direct => { s with direct := direct }

def withJob (s : CreationState) (clientID key : String)
    (f : Job → Option CreationState) : Option CreationState :=
  (s.jobs.lookup (clientID, key)).bind f

def setJob (s : CreationState) (clientID key : String) (j : Job) : CreationState :=
  { s with jobs := s.jobs.insert (clientID, key) j }

def endJob (s : CreationState) (clientID key : String) : CreationState :=
  { s with jobs := s.jobs.erase (clientID, key) }

def see (s : CreationState) (entry : Entry) : CreationState := { s with log := s.log ++ [entry] }

def answer (s : CreationState) (clientID key : String) (now : Int)
    (current : GoMap String SessionIdentity) : Option CreationView → CreationState
  | none => s
  | some view =>
    s.see (.answered ⟨clientID, key, s.admissions clientID key, view, now, current⟩)

def step (spentKey : String → String) (s : CreationState) : CreationEvent → Option CreationState
  | .begin call act =>
    if stamps call act then
      (s.perform spentKey (.begin call)).map fun t =>
        if s.direct.verdict spentKey call = some (.ok .proceed) ∧ ¬ call.peek then
          { t.setJob call.clientID call.key (launch call act) with
            admitted := (call.clientID, call.key) :: s.admitted }
        else t
    else none
  | .refuse clientID key why now commit =>
    s.withJob clientID key fun j =>
      if j.refusable why then
        let (code, msg) := why.answer (j.creation.getD "")
        (s.perform spentKey (.finish clientID key (.finish false code msg) now commit)).map
          (·.endJob clientID key)
      else none
  | .mark clientID key leaseEnded now commit =>
    s.withJob clientID key fun j =>
      if j.phase = .begun ∧ j.creation.isSome then
        s.direct.process.bind fun p =>
          (s.perform spentKey (.markDispatched clientID key leaseEnded now commit)).map fun t =>
            t.setJob clientID key
              { j with
                phase := match markError p clientID key leaseEnded commit with
                  | none => .dispatching
                  | some err => .unmarked err }
      else none
  | .send clientID key =>
    s.withJob clientID key fun j =>
      if j.calling then
        some ((s.setJob clientID key { j with phase := .sent }).see
          (.called clientID key (s.admissions clientID key)))
      else none
  | .settle clientID key result now commit =>
    s.withJob clientID key fun j =>
      if (j.calling ∧ result.unsent) ∨ (j.phase = .sent ∧ result.sent) then
        (s.perform spentKey
          (.finish clientID key (Direct.settle j.act result) now commit)).map
          (·.endJob clientID key)
      else none
  | .abort clientID key commit =>
    s.withJob clientID key fun j =>
      if j.phase = .begun ∧ j.creation.isNone then
        (s.perform spentKey (.abort clientID key commit)).map (·.endJob clientID key)
      else none
  | .ensureCreationID clientID key creationID verb commit =>
    s.perform spentKey (.ensureCreationID clientID key creationID verb commit)
  | .readKey clientID key now current =>
    s.direct.process.map fun p => s.answer clientID key now current (creationByKey p clientID key)
  | .readID clientID id key now current =>
    s.direct.process.map fun p =>
      s.answer clientID key now current (creation p clientID id key now)
  | .crash => (s.perform spentKey .crash).map fun t => { t with jobs := ∅ }
  | .other e => if e.aside then s.perform spentKey e else none

def blank : CreationState := ⟨.blank, ∅, [], []⟩

end CreationState

end AgentMultiplexer.Direct
