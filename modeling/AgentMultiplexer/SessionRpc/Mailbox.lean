import AgentMultiplexer.Access.Policy
import AgentMultiplexer.Access.Replay

set_option autoImplicit false

/-! # The session mailbox

A client puts a signed request into `requests/`; the daemon claims it by renaming it into
`processing/`, verifies and authorizes it, dispatches it, and puts a response into `responses/`. The
client may withdraw a request it finds unclaimed by unlinking it. Rename and unlink are atomic, and
that is all the two sides share.

One pass of the server handles requests inline (the fast lane) or hands them to a second thread (the
slow lane). `processClaimed` is cut below into the sections between which other threads, the
authority's clock and its writers can move: the lanes, the clients and the authority are one machine
whose events are these sections. Everything the source leaves to a callback, the disk or the
scheduler is part of the event. -/

namespace AgentMultiplexer.SessionRpc

open Access

/-! ## Records -/

def maxSlowRequests : Nat := 8
def maxResponseBody : Nat := maxBodyBytes

/-- `requestClockSkew`, `requestCancelAfter` and `expiredDropAfter`, in nanoseconds. -/
def requestClockSkew : Int := 5 * 10 ^ 9
def requestCancelAfter : Int := requestClockSkew + 10 ^ 9
def expiredDropAfter : Int := requestCancelAfter + 10 * 10 ^ 9

/-- `validLowerHex`: the lower-case hexadecimal text of this many bytes. -/
def validLowerHex (s : String) (size : Nat) : Bool :=
  s.toList.length = size * 2 &&
    s.toList.all fun c => ('0' ≤ c && c ≤ '9') || ('a' ≤ c && c ≤ 'f')

def validRequestID (id : String) : Bool := validLowerHex id 16
def validBootID (id : String) : Bool := validLowerHex id 32
def validDigest (value : String) : Bool := validLowerHex value 32

def validEnvelopeShape (req : SignedRequest) : Bool :=
  req.protocol = protocolVersion && validBootID req.bootID && validRequestID req.keyID &&
    validRequestID req.requestID && req.generation ≠ 0 && 0 < req.issuedAt && 0 < req.expiresAt &&
    req.body.length ≠ 0 && req.body.length ≤ maxBodyBytes && req.signature.utf8ByteSize = 86

inductive CallKind
  | operation
  | receipt
  | release
  | other (text : String)
  deriving DecidableEq

/-- `Receipt`: names a response and the digest of its signed bytes. -/
structure Receipt where
  requestID : String
  responseDigest : String
  deriving DecidableEq

/-- `Call`: the decoded body of a request. -/
structure Call where
  kind : CallKind
  route : Route
  verb : String
  id : String
  target : String
  tab : Int
  fields : GoMap String String
  receipt : Option Receipt

/-- `validateCall`; `true` is the nil error. -/
def validateCall (call : Call) : Bool :=
  match call.kind, call.receipt with
  | .operation, none => (call.route = .query || call.route = .action) && call.verb ≠ ""
  | .receipt, some receipt | .release, some receipt =>
    validRequestID receipt.requestID && validDigest receipt.responseDigest &&
      call.route = .other "" && call.verb = "" && call.id = "" && call.target = "" &&
      call.tab = 0 && call.fields.len = 0
  | _, _ => false

inductive Status
  | ok
  | denied
  | invalid
  | failed
  | replay
  | indeterminate
  deriving DecidableEq

/-- The branch of `processClaimed` that made a response. -/
inductive Branch
  | verifyError (err : AccessError)
  | subjectMismatch
  | invalidCall
  | credentialInvalid
  | accessDenied
  | receipt
  | receiptCapacity
  | dispatched
  deriving DecidableEq

/-- The branches that reject a request before it is dispatched. A replay is none of them: it says
    that the outcome is unknown. -/
def Branch.preDispatch : Branch → Bool
  | .verifyError err => err ≠ .replay
  | .subjectMismatch | .invalidCall | .credentialInvalid | .accessDenied => true
  | .receipt | .receiptCapacity | .dispatched => false

/-- `Response`. `branch` is not part of the record: it remembers where the response came from. -/
structure Response where
  bootID : String
  subjectID : String
  keyID : String
  generation : Nat
  requestID : String
  requestBodyDigest : String
  status : Status
  code : String
  body : List UInt8
  completedAt : Int
  receiptRequired : Bool
  branch : Branch
  deriving DecidableEq

def verifyStatus : AccessError → Status × String
  | .replay => (.replay, "replay_rejected")
  | .expired => (.invalid, "expired")
  | .revoked => (.denied, "credential_revoked")
  | .capacity => (.failed, "authority_capacity")
  | _ => (.invalid, "authentication_failed")

/-- `DispatchResult`; of its receipt hooks only their presence matters here. -/
structure DispatchResult where
  status : Option Status
  code : String
  body : List UInt8
  hooks : Bool

def validCode (code : String) : Bool :=
  code.utf8ByteSize ≤ 64 && code.toList.all fun c =>
    ('a' ≤ c && c ≤ 'z') || ('0' ≤ c && c ≤ '9') || c = '_' || c = '-' || c = '.'

/-- The encoding of a call in a body, and the calls that `Options.Slow` sends to the slow lane.
    Nothing is assumed of either, not even that decoding inverts encoding. -/
structure Codec where
  marshal : Call → List UInt8
  unmarshal : List UInt8 → Option Call
  slow : Call → Bool

/-- The result a response is made from. An error of the dispatcher and a malformed result are
    reported as failures; the empty status is `ok`. -/
def dispatchOutcome : Option DispatchResult → Status × String × List UInt8 × Bool
  | none => (.failed, "dispatch_failed", [], false)
  | some result =>
    let status := result.status.getD .ok
    if !validCode result.code || maxResponseBody < result.body.length ||
        (result.hooks && status ≠ .ok) then
      (.failed, "invalid_dispatch_result", [], false)
    else (status, result.code, result.body, result.hooks)

/-! ## The machine -/

/-- What a response needs: to be published, to be dropped (the answer to a receipt), or not to
    exist (a release). -/
inductive Answer
  | respond
  | discard
  | release
  deriving DecidableEq

/-- The checks between `Verify` and the execution. -/
inductive Check
  | valid
  | authorize
  | recheck
  | execute

/-- Where `processClaimed` (or `processRelease`) stands. -/
inductive Phase
  /-- The claimed file has not been read. -/
  | start
  /-- The envelope is decoded and capacity is reserved; `Verify` is next. -/
  | reserved (env : SignedRequest) (answer : Answer)
  /-- `Verify` passed the envelope checks at this clock reading and waits for the lease. -/
  | leasing (env : SignedRequest) (answer : Answer) (now : Int)
  /-- The replay ledger holds the request; the journal append is outstanding. -/
  | appending (env : SignedRequest) (answer : Answer) (principal : Principal)
  /-- `Verify` returned a principal of this mailbox and the call is valid. -/
  | checking (env : SignedRequest) (answer : Answer) (principal : Principal) (call : Call)
      (next : Check)
  | publishing (answer : Answer) (response : Response)
  | unlinking

/-- One run of `processClaimed` on the claimed file of this request id. -/
structure Job where
  id : String
  admits : Bool
  phase : Phase

def Job.enter (job : Job) (phase : Phase) : Job := { job with phase := phase }

/-- How a no-replace write ends: in place and synced, failed before the rename, or renamed with the
    directory sync failing. -/
inductive WriteOutcome
  | ok
  | failed
  | unsynced
  deriving DecidableEq

inductive WriteResult
  | ok
  | eexist
  | failed

/-- Where `awaitResponse` stands in its loop. -/
inductive Await
  | read
  | service
  | pause
  /-- The context has ended and the withdrawal failed: one last look for a response. -/
  | last
  deriving DecidableEq

/-- How `Do` ends once its request is signed. -/
inductive Outcome
  /-- `ErrNotExecuted`. -/
  | notExecuted
  /-- A response was read; its status decides between a result and an error. -/
  | response (r : Response)
  /-- `ErrIndeterminate`. -/
  | indeterminate
  deriving DecidableEq

/-- Where a call of `Client.Do` stands. -/
inductive ClientState
  | idle
  | signed (env : SignedRequest)
  | waiting (env : SignedRequest) (claimed : Bool) (next : Await)
  | returned (env : SignedRequest) (outcome : Outcome)
  deriving DecidableEq

/-- What `Do` makes of the outcome of writing its request: any error leaves the outcome open. -/
def ClientState.written (env : SignedRequest) : WriteResult → ClientState
  | .ok => .waiting env false .read
  | .eexist | .failed => .returned env .indeterminate

/-- A file of `requests/` or `processing/`: the envelope it decodes to, if it does. -/
abbrev File := Option SignedRequest

/-- The mailbox, its server, its clients and the authority they share. The last five fields are
    history: the request ids that `Do` signed, that others wrote and that were ever claimed, the
    requests handed to `Dispatch`, and the responses that became visible. -/
structure MailboxState where
  subjectID : String
  authority : LedgerState
  /-- The boot id in `service.json`. -/
  service : Option String
  requests : GoMap String File
  processing : GoMap String File
  responses : GoMap String Response
  /-- The run of `processClaimed` on the serving thread, and the one on the slow lane. -/
  fast : Option Job
  slow : Option Job
  /-- `slowJobs`. -/
  queue : List String
  inflight : List String
  clients : Nat → ClientState
  signedIDs : List String
  foreignIDs : List String
  claimedIDs : List String
  dispatched : List SignedRequest
  published : List Response

/-- `atomicWriteAt`: the directory afterwards and what the caller is told. -/
def atomicWriteAt {β : Type} (dir : GoMap String β) (id : String) (data : β) :
    WriteOutcome → GoMap String β × WriteResult
  | .failed => (dir, .failed)
  | .ok => if id ∈ dir then (dir, .eexist) else (dir.insert id data, .ok)
  | .unsynced => if id ∈ dir then (dir, .eexist) else (dir.insert id data, .failed)

/-- The section of `Verify` under the lease up to the replay decision: the authority afterwards
    and the error or the principal. -/
def verifyDecide (crypto : Crypto) (a : LedgerState) (env : SignedRequest) (now : Int) :
    LedgerState × Except AccessError Principal :=
  match checkCredential crypto a.closed a.registry now env with
  | .error err => (a, .error err)
  | .ok rec =>
    match acceptReplay a.entries a.records (replayRecordOf crypto env) now with
    | (entries, outcome) =>
      ({ a with entries := entries, pruned := a.pruned ++ droppedKeys a.entries entries },
        match outcome with
        | some err => .error err
        | none => .ok ⟨rec.keyID, rec.subjectID, rec.kind, rec.generation⟩)

namespace MailboxState

section Server

variable (crypto : Crypto) (codec : Codec) (s : MailboxState)

def newResponse (env : SignedRequest) (status : Status) (code : String) (body : List UInt8)
    (receiptRequired : Bool) (branch : Branch) : Response where
  bootID := s.authority.bootID
  subjectID := s.subjectID
  keyID := env.keyID
  generation := env.generation
  requestID := env.requestID
  requestBodyDigest := crypto.bodyDigest env.body
  status := status
  code := code
  body := body
  completedAt := unixMilli s.authority.clock
  receiptRequired := receiptRequired
  branch := branch

/-- The next phase after a refusal: a release is dropped silently, everything else is answered. -/
def refuse (env : SignedRequest) (answer : Answer) (status : Status) (code : String)
    (branch : Branch) : Phase :=
  match answer with
  | .release => .unlinking
  | _ => .publishing answer (s.newResponse crypto env status code [] false branch)

def refuseVerify (env : SignedRequest) (answer : Answer) (err : AccessError) : Phase :=
  s.refuse crypto env answer (verifyStatus err).1 (verifyStatus err).2 (.verifyError err)

def valid (p : Principal) : Bool :=
  !s.authority.closed &&
    (s.authority.registry.validIn (unixMilli s.authority.clock) p).isNone

/-- The claimed envelope of this id: readable, under its own name and of the right shape. That the
    read of such a file fails is left out. -/
def claimedEnvelope (id : String) : Option SignedRequest :=
  match s.processing.lookup id with
  | some (some env) => if env.requestID = id ∧ validEnvelopeShape env then some env else none
  | _ => none

def claimedSlow (id : String) : Bool :=
  match s.processing.lookup id with
  | some (some env) =>
    match codec.unmarshal env.body with
    | some call => call.kind = .operation && codec.slow call
    | none => false
  | _ => false

/-- What the unauthenticated kind of a call makes of its answer. -/
def routed (env : SignedRequest) : Answer :=
  match (codec.unmarshal env.body).map Call.kind with
  | some .release => .release
  | some .receipt => .discard
  | _ => .respond

/-- The checks that follow a successful `Verify`. -/
def checkCall (env : SignedRequest) (answer : Answer) (p : Principal) : Phase :=
  if p.kind ≠ .session ∨ p.subjectID ≠ s.subjectID then
    s.refuse crypto env answer .denied "subject_mismatch" .subjectMismatch
  else
    match codec.unmarshal env.body with
    | none => s.refuse crypto env answer .invalid "invalid_call" .invalidCall
    | some call =>
      if !validateCall call then s.refuse crypto env answer .invalid "invalid_call" .invalidCall
      else .checking env answer p call .valid

end Server

end MailboxState

/-- What happens between the checks and the response: a receipt is settled, the receipt budget is
    exhausted, or the call is dispatched and the dispatcher returns (`none` is its error). -/
inductive Execution
  | receipt (status : Status) (code : String)
  | full
  | dispatch (result : Option DispatchResult)

/-- One section of a run of `processClaimed`. -/
inductive JobEvent
  /-- Read and decode the claimed file and reserve a response, if there is room for one. -/
  | read (room : Bool)
  /-- `Verify` reads the clock and checks the envelope. -/
  | verify
  /-- `Verify` checks the credential and takes the replay decision. -/
  | decide
  /-- The journal append returns, and `Verify` with it. -/
  | append (ok : Bool)
  /-- The next of the two `Valid` checks and `Authorize`, whose answer this is. -/
  | check (authorized : Bool)
  | execute (execution : Execution)
  /-- `retireResponse`, for a release; `proved` says that its digest is the response's and that no
      receipt is pending. -/
  | retire (proved : Bool)
  | publish (outcome : WriteOutcome)
  | unlink (ok : Bool)

namespace MailboxState

section Jobs

variable (crypto : Crypto) (codec : Codec) (s : MailboxState)

def retireResponse (p : Principal) (release : Receipt) (proved : Bool) : MailboxState :=
  match s.responses.lookup release.requestID with
  | none => s
  | some r =>
    if r.requestID = release.requestID ∧ r.subjectID = s.subjectID ∧ r.keyID = p.keyID ∧
        r.generation = p.generation ∧ r.bootID = s.authority.bootID ∧ !r.receiptRequired ∧
        proved then
      { s with responses := s.responses.erase release.requestID }
    else s

def publishResponse (r : Response) (outcome : WriteOutcome) : MailboxState × WriteResult :=
  match atomicWriteAt s.responses r.requestID r outcome with
  | (responses, result) =>
    ({ s with
        responses := responses
        published :=
          if outcome = .failed ∨ r.requestID ∈ s.responses then s.published
          else r :: s.published }, result)

def executeCall (env : SignedRequest) (answer : Answer) (call : Call) :
    Execution → Option (MailboxState × Phase)
  | .receipt status code =>
    if call.kind = .receipt then
      some (s, .publishing answer (s.newResponse crypto env status code [] false .receipt))
    else none
  | .full =>
    if call.kind = .receipt then none
    else
      some (s, .publishing answer (s.newResponse crypto env .indeterminate "receipt_capacity" []
        false .receiptCapacity))
  | .dispatch result =>
    if call.kind = .receipt then none
    else
      match dispatchOutcome result with
      | (status, code, body, receiptRequired) =>
        some ({ s with dispatched := env :: s.dispatched }, .publishing answer
          (s.newResponse crypto env status code body receiptRequired .dispatched))

/-- The phase after one check on the way to the execution. `processRelease` makes the first of them
    only. -/
def nextCheck (env : SignedRequest) (answer : Answer) (p : Principal) (call : Call)
    (authorized : Bool) : Check → Option Phase
  | .valid =>
    if s.valid p then some (.checking env answer p call .authorize)
    else some (s.refuse crypto env answer .denied "credential_invalid" .credentialInvalid)
  | .authorize =>
    if answer = .release then none
    else if authorized then some (.checking env answer p call .recheck)
    else some (s.refuse crypto env answer .denied "access_denied" .accessDenied)
  | .recheck =>
    if s.valid p then some (.checking env answer p call .execute)
    else some (s.refuse crypto env answer .denied "credential_invalid" .credentialInvalid)
  | .execute => none

/-- One section of a job: the mailbox afterwards, and the job unless `processClaimed` returned. -/
def jobStep (job : Job) : JobEvent → Option (MailboxState × Option Job)
  | .read room =>
    match job.phase with
    | .start =>
      match s.claimedEnvelope job.id with
      | none => some (s, some (job.enter .unlinking))
      | some env =>
        let answer := routed codec env
        -- only an answered call waits for response capacity, and stays claimed without it
        if answer = .respond ∧ !(job.admits && room) then some (s, none)
        else some (s, some (job.enter (.reserved env answer)))
    | _ => none
  | .verify =>
    match job.phase with
    | .reserved env answer =>
      match checkEnvelope s.authority.bootID s.authority.clock env with
      | some err => some (s, some (job.enter (s.refuseVerify crypto env answer err)))
      | none => some (s, some (job.enter (.leasing env answer s.authority.clock)))
    | _ => none
  | .decide =>
    match job.phase with
    | .leasing env answer now =>
      match verifyDecide crypto s.authority env now with
      | (authority, .error err) =>
        some ({ s with authority := authority },
          some (job.enter (s.refuseVerify crypto env answer err)))
      | (authority, .ok p) =>
        some ({ s with authority := authority },
          some (job.enter (.appending env answer p)))
    | _ => none
  | .append ok =>
    match job.phase with
    | .appending env answer p =>
      if ok then
        some ({ s with authority := { s.authority with records := s.authority.records + 1 } },
          some (job.enter (s.checkCall crypto codec env answer p)))
      else some (s, some (job.enter (s.refuseVerify crypto env answer .io)))
    | _ => none
  | .check authorized =>
    match job.phase with
    | .checking env answer p call next =>
      match s.nextCheck crypto env answer p call authorized next with
      | none => none
      | some phase => some (s, some (job.enter phase))
    | _ => none
  | .execute execution =>
    match job.phase with
    | .checking env answer _ call .execute =>
      match s.executeCall crypto env answer call execution with
      | none => none
      | some (s', phase) => some (s', some (job.enter phase))
    | _ => none
  | .retire proved =>
    match job.phase with
    -- `processRelease` ends after its one `Valid` check
    | .checking _ .release p ⟨.release, _, _, _, _, _, _, some release⟩ .authorize =>
      some (s.retireResponse p release proved, some (job.enter .unlinking))
    | _ => none
  | .publish outcome =>
    match job.phase with
    | .publishing .respond response =>
      match s.publishResponse response outcome with
      | (s', .failed) => some (s', none)
      | (s', _) => some (s', some (job.enter .unlinking))
    | .publishing _ _ => some (s, some (job.enter .unlinking))
    | _ => none
  | .unlink ok =>
    match job.phase with
    | .unlinking =>
      if ok then some ({ s with processing := s.processing.erase job.id }, none)
      else some (s, none)
    | _ => none

/-- The mailbox after a section of the slow lane, which drops a finished job from `inflight`. -/
def setSlow (s : MailboxState) (id : String) : Option Job → MailboxState
  | some job => { s with slow := some job }
  | none => { s with slow := none, inflight := s.inflight.erase id }

end Jobs

/-! ### The serving thread

The names of a pass come from a directory listing that may be old, and its order and limits decide
which of them are reached. Here any name may be taken at any time; the pass's flags `blocked` and
`laneFull` are arguments. -/

section Serve

variable (codec : Codec) (s : MailboxState)

/-- `claim`: rename into `processing/`. A name that is taken there is not dispatched again, and its
    duplicate is removed. -/
def claim (id : String) : MailboxState :=
  match s.requests.lookup id with
  | none => s
  | some file =>
    if id ∈ s.processing then { s with requests := s.requests.erase id }
    else
      { s with
        requests := s.requests.erase id
        processing := s.processing.insert id file
        claimedIDs := id :: s.claimedIDs }

def dropExpired (id : String) : MailboxState :=
  match s.requests.lookup id with
  | some (some env) =>
    if 0 < env.expiresAt ∧ ofUnixMilli env.expiresAt + expiredDropAfter < s.authority.clock then
      { s with requests := s.requests.erase id }
    else s
  | _ => s

/-- `processOrDefer`, on a serving thread that is not inside `processClaimed`. -/
def processOrDefer (id : String) (admits laneFull : Bool) : Option MailboxState :=
  match s.fast with
  | some _ => none
  | none =>
    if id ∈ s.inflight then some s
    else if s.claimedSlow codec id then
      if !admits ∨ laneFull ∨ maxSlowRequests ≤ s.inflight.length then some s
      else some { s with inflight := id :: s.inflight, queue := s.queue ++ [id] }
    else some { s with fast := some ⟨id, admits, .start⟩ }

/-- `runSlow` takes the next job. -/
def takeSlow : Option MailboxState :=
  match s.slow, s.queue with
  | none, id :: queue => some { s with slow := some ⟨id, true, .start⟩, queue := queue }
  | _, _ => none

end Serve

/-! ### Clients -/

section Clients

variable (crypto : Crypto) (s : MailboxState)

def setClient (j : Nat) (c : ClientState) : MailboxState :=
  { s with clients := Function.update s.clients j c }

/-- `readResponse`: no file, a response to this request of this boot, or an error. -/
def readResponse (env : SignedRequest) : Except Unit (Option Response) :=
  match s.responses.lookup env.requestID with
  | none => .ok none
  | some r =>
    if r.bootID ≠ env.bootID ∨ r.subjectID ≠ s.subjectID ∨ r.keyID ≠ env.keyID ∨
        r.generation ≠ env.generation ∨ r.requestID ≠ env.requestID ∨
        r.requestBodyDigest ≠ crypto.bodyDigest env.body then .error ()
    else .ok (some r)

end Clients

end MailboxState

/-- One section of a call of `Do`. -/
inductive ClientEvent
  /-- Encode the call, load `service.json` and sign. -/
  | sign (call : Call) (env : SignedRequest)
  /-- Write the request file. -/
  | publish (outcome : WriteOutcome)
  | read
  /-- Load `service.json` again, if it is readable. -/
  | service (readable : Bool)
  /-- The client's clock passes the point where no daemon accepts the request any more. `removable`
      says that the file system lets the client unlink the file if it is there. -/
  | expire (now : Int) (removable : Bool)
  | wake
  /-- The context ends. -/
  | cancel (removable : Bool)

namespace MailboxState

section Clients

variable (crypto : Crypto) (codec : Codec) (s : MailboxState)

/-- The request is signed: `Do` checked the call, `service` is the boot it loaded, and the request
    id is random, so nobody has used it. -/
def signRequest (j : Nat) (call : Call) (env : SignedRequest) : Option MailboxState :=
  if call.kind = .operation ∧ validateCall call ∧ env.body = codec.marshal call ∧
      s.service = some env.bootID ∧ env.requestID ∉ s.signedIDs ∧ env.requestID ∉ s.foreignIDs then
    some { s.setClient j (.signed env) with signedIDs := env.requestID :: s.signedIDs }
  else none

def publishRequest (j : Nat) (env : SignedRequest) (outcome : WriteOutcome) : MailboxState :=
  match atomicWriteAt s.requests env.requestID (some env) outcome with
  | (requests, result) => { s with requests := requests }.setClient j (.written env result)

/-- The `withdraw` of `awaitResponse`: the client that withdrew its request returns, another one
    goes on as `next`. -/
def withdraw (j : Nat) (env : SignedRequest) (claimed removable : Bool) (next : ClientState) :
    MailboxState :=
  if !claimed ∧ env.requestID ∈ s.requests ∧ removable then
    { s with requests := s.requests.erase env.requestID }.setClient j (.returned env .notExecuted)
  else s.setClient j next

def clientStep (j : Nat) : ClientEvent → Option MailboxState
  | .sign call env =>
    match s.clients j with
    | .idle => s.signRequest codec j call env
    | _ => none
  | .publish outcome =>
    match s.clients j with
    | .signed env => some (s.publishRequest j env outcome)
    | _ => none
  | .read =>
    match s.clients j with
    | .waiting env claimed .read =>
      match s.readResponse crypto env with
      | .ok none => some (s.setClient j (.waiting env claimed .service))
      | .ok (some r) => some (s.setClient j (.returned env (.response r)))
      | .error _ => some (s.setClient j (.returned env .indeterminate))
    | .waiting env _ .last =>
      match s.readResponse crypto env with
      | .ok (some r) => some (s.setClient j (.returned env (.response r)))
      | _ => some (s.setClient j (.returned env .indeterminate))
    | _ => none
  | .service readable =>
    match s.clients j with
    | .waiting env claimed .service =>
      if readable ∧ s.service = some env.bootID then
        some (s.setClient j (.waiting env claimed .pause))
      else some (s.setClient j (.returned env .indeterminate))
    | _ => none
  | .expire now removable =>
    match s.clients j with
    | .waiting env false .pause =>
      if ofUnixMilli env.expiresAt + requestCancelAfter ≤ now then
        some (s.withdraw j env false removable (.waiting env true .read))
      else none
    | _ => none
  | .wake =>
    match s.clients j with
    | .waiting env claimed .pause => some (s.setClient j (.waiting env claimed .read))
    | _ => none
  | .cancel removable =>
    match s.clients j with
    | .waiting env claimed .pause =>
      some (s.withdraw j env claimed removable (.waiting env true .last))
    | _ => none

end Clients

end MailboxState

/-! ### All of it -/

/-- One atomic section of some party. -/
inductive MailboxEvent
  /-- The clock, the registry's writers, other mailboxes' requests, the compaction. -/
  | authority (e : LedgerEvent)
  | publishService
  | client (j : Nat) (e : ClientEvent)
  /-- Somebody else writes into `requests/` under an id that no call of `Do` uses. -/
  | inject (id : String) (file : File)
  | claim (id : String)
  | dropExpired (id : String)
  /-- `removeRequestEntry`, when the queue overflows. -/
  | removeRequest (id : String)
  | serve (id : String) (admits laneFull : Bool)
  | takeSlow
  | fast (e : JobEvent)
  | slow (e : JobEvent)
  /-- A response is removed: its age, its receipt, or the response budget. -/
  | cleanup (id : String)
  /-- The server is closed, which waits for both lanes, and a new one opens the mailbox. -/
  | reopen
  /-- The daemon ends at any point, and a new one opens the state root under a new boot id. -/
  | restart (bootID : String) (clock : Int) (registry : RegistryFile) (entries : ReplayEntries)
      (records : Int)

def openedAuthority (bootID : String) (clock : Int) (registry : RegistryFile)
    (entries : ReplayEntries) (records : Int) : LedgerState where
  bootID := bootID
  clock := clock
  registry := registry
  closed := false
  entries := entries
  records := records
  rotated := none
  calls := fun _ => .idle
  pruned := []

def MailboxState.step (crypto : Crypto) (codec : Codec) (s : MailboxState) :
    MailboxEvent → Option MailboxState
  | .authority e =>
    match s.authority.step crypto e with
    | none => none
    | some authority => some { s with authority := authority }
  | .publishService => some { s with service := some s.authority.bootID }
  | .client j e => s.clientStep crypto codec j e
  | .inject id file =>
    if id ∉ s.signedIDs then
      some { s with requests := s.requests.insert id file, foreignIDs := id :: s.foreignIDs }
    else none
  | .claim id => some (s.claim id)
  | .dropExpired id => some (s.dropExpired id)
  | .removeRequest id => some { s with requests := s.requests.erase id }
  | .serve id admits laneFull => s.processOrDefer codec id admits laneFull
  | .takeSlow => s.takeSlow
  | .fast e =>
    match s.fast with
    | none => none
    | some job =>
      match s.jobStep crypto codec job e with
      | none => none
      | some (s', next) => some { s' with fast := next }
  | .slow e =>
    match s.slow with
    | none => none
    | some job =>
      match s.jobStep crypto codec job e with
      | none => none
      | some (s', next) => some (s'.setSlow job.id next)
  | .cleanup id => some { s with responses := s.responses.erase id }
  | .reopen =>
    match s.fast, s.slow with
    | none, none => some { s with queue := [], inflight := [] }
    | _, _ => none
  | .restart bootID clock registry entries records =>
    some { s with
      authority := openedAuthority bootID clock registry entries records
      fast := none
      slow := none
      queue := []
      inflight := [] }

def MailboxState.blank (subjectID : String) (authority : LedgerState) : MailboxState where
  subjectID := subjectID
  authority := authority
  service := none
  requests := ∅
  processing := ∅
  responses := ∅
  fast := none
  slow := none
  queue := []
  inflight := []
  clients := fun _ => .idle
  signedIDs := []
  foreignIDs := []
  claimedIDs := []
  dispatched := []
  published := []

end AgentMultiplexer.SessionRpc
