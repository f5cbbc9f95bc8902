import AgentMultiplexer.Theory.GoMap
import AgentMultiplexer.Theory.GoStrings

set_option autoImplicit false

/-! # The credential registry

`FileAuthority` issues one signing key per generation of a subject and keeps the public halves in
`registry.json`: `Records` maps a key id to its record and is never shrunk, `Current` maps a subject
to the key id that is valid now. Every operation builds the next registry from the one in memory,
commits it to the file and publishes it to readers only if the commit happened.

An operation here is a function of the registry and of what the environment decides for that one
call: two clock readings (the expiry check and the issue read the clock separately), the drawn key,
and how each file operation ends. It returns the registry in memory afterwards, whether the commit
happened, and the error the caller sees. `writeMu` serialises the operations, so a run of the
authority is a list of calls. -/

namespace AgentMultiplexer.Access

/-! ## Subjects, records and errors -/

/-- `SubjectKind`. The Go type is a string; `validateSubject` refuses every value but these three
    before an operation reads the registry, so the refused values have no constructor. -/
inductive SubjectKind
  | host
  | provider
  | session
  deriving DecidableEq

def SubjectKind.text : SubjectKind → String
  | .host => "host"
  | .provider => "provider"
  | .session => "session"

/-- The public half of an issued credential. Times are Unix milliseconds; a `revokedAt` of zero
    means the key has not been revoked. -/
structure CredentialRecord where
  keyID : String
  subjectID : String
  kind : SubjectKind
  generation : Nat
  publicKey : String
  issuedAt : Int
  notAfter : Int
  revokedAt : Int

/-- What an authenticated caller is known as. -/
structure Principal where
  keyID : String
  subjectID : String
  kind : SubjectKind
  generation : Nat
  deriving DecidableEq

/-- The sentinel errors of the package; `io` stands for a wrapped file-system or randomness
    error and `badSubject` for the text error of `validateSubject`. -/
inductive AccessError
  | invalidCredential
  | revoked
  | expired
  | replay
  | capacity
  | authorityClosed
  | notProvisioned
  | generationChanged
  | badSubject
  | io
  deriving DecidableEq

/-- `registryFile`, without its constant version number. -/
structure RegistryFile where
  current : GoMap String String
  records : GoMap String CredentialRecord

def RegistryFile.empty : RegistryFile := ⟨∅, ∅⟩

/-- `currentKey`: the key of a subject in `Current`. -/
def currentKey (kind : SubjectKind) (id : String) : String := kind.text ++ "\x00" ++ id

/-- `Current[currentKey(kind, id)]`, the empty string when the subject has no current key. -/
def RegistryFile.currentID (r : RegistryFile) (kind : SubjectKind) (id : String) : String :=
  r.current.get (currentKey kind id) ""

/-- `validateSubject`, for a kind that exists. -/
def validateSubject (id : String) : Bool :=
  GoStrings.trimSpace id != "" && !GoStrings.containsRune id '\x00'

/-- A clock reading as `UnixMilli` gives it. The daemon's clock is past the epoch, which the
    encoding of "not revoked" as `RevokedAt == 0` rests on. -/
abbrev ClockReading := { ms : Int // 0 < ms }

def CredentialRecord.ofSubject (rec : CredentialRecord) (kind : SubjectKind) (id : String) :
    Bool :=
  rec.kind = kind && rec.subjectID = id

theorem CredentialRecord.ofSubject_iff {rec : CredentialRecord} {kind : SubjectKind}
    {id : String} : rec.ofSubject kind id = true ↔ rec.kind = kind ∧ rec.subjectID = id := by
  simp [CredentialRecord.ofSubject]

/-! ## Reading the registry -/

def RegistryFile.subjectWasIssuedLocked (r : RegistryFile) (kind : SubjectKind) (id : String) :
    Bool :=
  r.records.entries.any fun e => e.2.ofSubject kind id

/-- `currentRecordLocked`, at a clock reading. -/
def RegistryFile.currentRecordLocked (r : RegistryFile) (kind : SubjectKind) (id : String)
    (now : Int) : Except AccessError CredentialRecord :=
  let keyID := r.currentID kind id
  if keyID = "" then
    .error (if r.subjectWasIssuedLocked kind id then .revoked else .notProvisioned)
  else
    match r.records.lookup keyID with
    | none => .error .invalidCredential
    | some rec =>
      if rec.keyID ≠ keyID ∨ rec.kind ≠ kind ∨ rec.subjectID ≠ id then
        .error .invalidCredential
      else if rec.revokedAt ≠ 0 then .error .revoked
      else if rec.notAfter ≤ now then .error .expired
      else .ok rec

/-- The loop of `lastRecordLocked`: `last` is the newest record of the subject seen so far. Two
    records of one generation, or a record filed under another key id, are refused. -/
def lastRecordLoop (kind : SubjectKind) (id : String) :
    Option CredentialRecord → List (Sigma fun _ : String => CredentialRecord) →
      Except AccessError (Option CredentialRecord)
  | last, [] => .ok last
  | last, ⟨keyID, rec⟩ :: rest =>
    if !rec.ofSubject kind id then lastRecordLoop kind id last rest
    else if rec.keyID ≠ keyID then .error .invalidCredential
    else
      match last with
      | none => lastRecordLoop kind id (some rec) rest
      | some newest =>
        if newest.generation < rec.generation then lastRecordLoop kind id (some rec) rest
        else if rec.generation = newest.generation ∧ rec.keyID ≠ newest.keyID then
          .error .invalidCredential
        else lastRecordLoop kind id (some newest) rest

/-- `lastRecordLocked`: the subject's record of the highest generation. -/
def RegistryFile.lastRecordLocked (r : RegistryFile) (kind : SubjectKind) (id : String) :
    Except AccessError CredentialRecord :=
  match lastRecordLoop kind id none r.records.entries with
  | .error err => .error err
  | .ok none => .error .notProvisioned
  | .ok (some rec) => .ok rec

/-- `validIn`, at a clock reading; `none` is the nil error. -/
def RegistryFile.validIn (r : RegistryFile) (now : Int) (p : Principal) : Option AccessError :=
  match r.records.lookup p.keyID with
  | none => some .invalidCredential
  | some rec =>
    if rec.subjectID ≠ p.subjectID ∨ rec.kind ≠ p.kind ∨ rec.generation ≠ p.generation ∨
        r.currentID rec.kind rec.subjectID ≠ p.keyID then
      some .invalidCredential
    else if rec.revokedAt ≠ 0 then some .revoked
    else if rec.notAfter ≤ now then some .invalidCredential
    else none

/-! ## Committing a registry -/

/-- How `atomicJSONCommit` ends once the new content fits: nothing was renamed into place, the
    rename happened but a later step (the directory sync) failed, or all of it succeeded. -/
inductive CommitOutcome
  | notCommitted
  | committedWithError
  | ok

/-- What one call of an operation leaves behind: the registry in memory, whether its commit
    happened, and the error it returns (`none` for nil). -/
structure Outcome where
  registry : RegistryFile
  committed : Bool
  err : Option AccessError

/-- The call returns before it commits anything. -/
def Outcome.refuse (r : RegistryFile) (err : AccessError) : Outcome := ⟨r, false, some err⟩

/-- The call returns nil without a commit. -/
def Outcome.unchanged (r : RegistryFile) : Outcome := ⟨r, false, none⟩

/-- What the environment decides in one call of an operation. -/
structure CallEnv where
  /-- The reading of the expiry check (`currentRecordLocked`, `RenewExpired`). -/
  checkedAt : ClockReading
  /-- The reading `issueLocked` or `revokeLocked` takes for itself. -/
  now : ClockReading
  /-- The id and the encoded public half of the drawn key. -/
  keyID : String
  publicKey : String
  /-- Key generation, the credential directory and the staged file all succeeded. -/
  staged : Bool
  commit : CommitOutcome
  /-- The staged credential was renamed to `current` and its directory synced. -/
  published : Bool
  /-- `ensureCredentialPublished` found or recovered the published credential. -/
  republished : Bool

/-- `atomicJSONCommit` of `registry.json` followed by `publish`: the next registry becomes the one
    in memory exactly when the rename happened. `fits` is `stateFits`. -/
def commitRegistry (fits : RegistryFile → Bool) (r next : RegistryFile) (outcome : CommitOutcome) :
    Outcome :=
  if !fits next then .refuse r .capacity
  else
    match outcome with
    | .notCommitted => .refuse r .io
    | .committedWithError => ⟨next, true, some .io⟩
    | .ok => ⟨next, true, none⟩

/-! ## Issuing and revoking -/

/-- The lifetime `issueLocked` gives a credential: 30 days, in milliseconds. -/
def credentialLifetime : Int := 30 * 24 * 60 * 60 * 1000

/-- The record with its revocation time set, unless it already has one. -/
def CredentialRecord.revoke (rec : CredentialRecord) (now : Int) : CredentialRecord :=
  if rec.revokedAt = 0 then { rec with revokedAt := now } else rec

/-- The first half of `issueLocked`: the generation of the new key, and the records with the
    predecessor revoked. `none` is `ErrInvalidCredential`. -/
def retirePredecessor (r : RegistryFile) (kind : SubjectKind) (id oldKeyID : String) (now : Int) :
    Option (Nat × GoMap String CredentialRecord) :=
  if oldKeyID = "" then some (1, r.records)
  else
    match r.records.lookup oldKeyID with
    | none => none
    | some old =>
      if old.kind ≠ kind ∨ old.subjectID ≠ id ∨ old.generation = 2 ^ 64 - 1 then none
      else some (old.generation + 1, r.records.insert oldKeyID (old.revoke now))

def issuedRecord (kind : SubjectKind) (id : String) (generation : Nat) (env : CallEnv) :
    CredentialRecord where
  keyID := env.keyID
  subjectID := id
  kind := kind
  generation := generation
  publicKey := env.publicKey
  issuedAt := env.now
  notAfter := env.now + credentialLifetime
  revokedAt := 0

/-- `issueLocked`: retire the predecessor named by `oldKeyID` (the empty string when there is
    none) and make a newly drawn key the subject's current one. -/
def issueLocked (fits : RegistryFile → Bool) (r : RegistryFile) (kind : SubjectKind)
    (id oldKeyID : String) (env : CallEnv) : Outcome :=
  let currentKeyID := r.currentID kind id
  if (oldKeyID = "" ∧ currentKeyID ≠ "") ∨
      (oldKeyID ≠ "" ∧ currentKeyID ≠ "" ∧ currentKeyID ≠ oldKeyID) then
    .refuse r .generationChanged
  else
    match retirePredecessor r kind id oldKeyID env.now with
    | none => .refuse r .invalidCredential
    | some (generation, records) =>
      if !env.staged then .refuse r .io
      else
        let next : RegistryFile :=
          { current := r.current.insert (currentKey kind id) env.keyID
            records := records.insert env.keyID (issuedRecord kind id generation env) }
        let out := commitRegistry fits r next env.commit
        -- a failed publication of the staged file is an error after the commit
        if out.err = none ∧ !env.published then { out with err := some .io } else out

/-- `revokeLocked`; an empty `expectedKeyID` accepts whatever key is current. -/
def revokeLocked (fits : RegistryFile → Bool) (r : RegistryFile) (kind : SubjectKind)
    (id expectedKeyID : String) (env : CallEnv) : Outcome :=
  let keyID := r.currentID kind id
  if keyID = "" then
    if expectedKeyID ≠ "" then .refuse r .generationChanged else .unchanged r
  else if expectedKeyID ≠ "" ∧ keyID ≠ expectedKeyID then .refuse r .generationChanged
  else
    match r.records.lookup keyID with
    | none => .refuse r .invalidCredential
    | some rec =>
      if rec.kind ≠ kind ∨ rec.subjectID ≠ id then .refuse r .invalidCredential
      else
        commitRegistry fits r
          { current := r.current.erase (currentKey kind id)
            records := r.records.insert keyID (rec.revoke env.now) }
          env.commit

/-! ## The operations -/

def ensureLocked (fits : RegistryFile → Bool) (r : RegistryFile) (kind : SubjectKind)
    (id : String) (env : CallEnv) : Outcome :=
  if r.currentID kind id = "" then
    if r.subjectWasIssuedLocked kind id then .refuse r .revoked
    else issueLocked fits r kind id "" env
  else
    match r.currentRecordLocked kind id env.checkedAt with
    | .error err => .refuse r err
    | .ok _ => if env.republished then .unchanged r else .refuse r .io

/-- The body of `Rotate`. -/
def rotateLocked (fits : RegistryFile → Bool) (r : RegistryFile) (kind : SubjectKind)
    (id : String) (env : CallEnv) : Outcome :=
  match r.currentRecordLocked kind id env.checkedAt with
  | .error err => .refuse r err
  | .ok rec => issueLocked fits r kind id rec.keyID env

/-- The body of `Regrant`. -/
def regrantLocked (fits : RegistryFile → Bool) (r : RegistryFile) (kind : SubjectKind)
    (id : String) (expectedRevokedGeneration : Nat) (env : CallEnv) : Outcome :=
  if r.currentID kind id ≠ "" then .refuse r .generationChanged
  else
    match r.lastRecordLocked kind id with
    | .error err => .refuse r err
    | .ok rec =>
      if rec.revokedAt = 0 ∨ rec.generation ≠ expectedRevokedGeneration then
        .refuse r .generationChanged
      else issueLocked fits r kind id rec.keyID env

/-- The body of `RenewExpired`. -/
def renewExpiredLocked (fits : RegistryFile → Bool) (r : RegistryFile) (kind : SubjectKind)
    (id expectedKeyID : String) (env : CallEnv) : Outcome :=
  let keyID := r.currentID kind id
  if keyID = "" then
    .refuse r (if r.subjectWasIssuedLocked kind id then .revoked else .notProvisioned)
  else if keyID ≠ expectedKeyID then .refuse r .generationChanged
  else
    match r.records.lookup keyID with
    | none => .refuse r .invalidCredential
    | some rec =>
      if rec.keyID ≠ keyID ∨ rec.kind ≠ kind ∨ rec.subjectID ≠ id then
        .refuse r .invalidCredential
      else if rec.revokedAt ≠ 0 then .refuse r .revoked
      else if rec.notAfter > env.checkedAt then .refuse r .generationChanged
      else issueLocked fits r kind id rec.keyID env

/-- The body of `RevokeCurrent`. -/
def revokeCurrentLocked (fits : RegistryFile → Bool) (r : RegistryFile) (p : Principal)
    (env : CallEnv) : Outcome :=
  let keyID := r.currentID p.kind p.subjectID
  if keyID = "" ∨ keyID ≠ p.keyID then .refuse r .generationChanged
  else
    match r.records.lookup keyID with
    | none => .refuse r .generationChanged
    | some rec =>
      if rec.generation ≠ p.generation ∨ rec.kind ≠ p.kind ∨ rec.subjectID ≠ p.subjectID then
        .refuse r .generationChanged
      else revokeLocked fits r p.kind p.subjectID keyID env

/-- The exported operations that write the registry, with their arguments. -/
inductive RegistryOp
  | ensure (kind : SubjectKind) (id : String)
  | rotate (kind : SubjectKind) (id : String)
  | regrant (kind : SubjectKind) (id : String) (expectedRevokedGeneration : Nat)
  | renewExpired (kind : SubjectKind) (id : String) (expectedKeyID : String)
  | revoke (kind : SubjectKind) (id : String)
  | revokeCurrent (principal : Principal)

def RegistryOp.subjectID : RegistryOp → String
  | .ensure _ id | .rotate _ id | .regrant _ id _ | .renewExpired _ id _ | .revoke _ id => id
  | .revokeCurrent p => p.subjectID

/-- The argument checks an operation makes before it takes `writeMu`. -/
def RegistryOp.argumentError (op : RegistryOp) : Option AccessError :=
  if !validateSubject op.subjectID then some .badSubject
  else
    match op with
    | .regrant _ _ 0 => some .generationChanged
    | .renewExpired _ _ "" => some .generationChanged
    | _ => none

/-- `FileAuthority`, as far as these operations read it: `rootDir == nil` once closed. -/
structure FileAuthority where
  registry : RegistryFile
  closed : Bool

def RegistryOp.call (fits : RegistryFile → Bool) (a : FileAuthority) (op : RegistryOp)
    (env : CallEnv) : Outcome :=
  match op.argumentError with
  | some err => .refuse a.registry err
  | none =>
    if a.closed then .refuse a.registry .authorityClosed
    else
      match op with
      | .ensure kind id => ensureLocked fits a.registry kind id env
      | .rotate kind id => rotateLocked fits a.registry kind id env
      | .regrant kind id expected => regrantLocked fits a.registry kind id expected env
      | .renewExpired kind id expected => renewExpiredLocked fits a.registry kind id expected env
      | .revoke kind id => revokeLocked fits a.registry kind id "" env
      | .revokeCurrent p => revokeCurrentLocked fits a.registry p env

end AgentMultiplexer.Access
