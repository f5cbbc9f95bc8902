import Mathlib.Data.List.Destutter
import AgentMultiplexer.Direct.Grants
import AgentMultiplexer.Theory.GoStrings
import AgentMultiplexer.Theory.Totals

set_option autoImplicit false

/-! # Enrollment codes and the cloud policy

A code is exchanged for a grant, once. The operator mints codes by hand; with a cloud policy in
force, a relayed request mints codes up to the policy's ceiling, bound to a challenge the client
answers when it redeems, or tickets whose challenge the receiving device sets first. A relayed
request carries an issue key: the record of the key holds the code while it can be handed out again.

This is the registry as these operations see it: codes, issue records, the policy, and of the grants
what they are scoped to. Every operation is one critical section; its commit is in place, not in
place, or in place with the directory sync failed. The file then shows the new content, but a loss
of power may bring an older one back. -/

namespace AgentMultiplexer.Direct.Enroll

/-! ## Scopes -/

def permissions : List String :=
  ["read", "steer", "respond", "approve", "manage", "create", "accounts"]

inductive ScopeError
  | unknownPermission (p : String)
  | missingRead
  | allSessionsWorkgroups
  | noWorkgroups
  | invalidWorkgroup (id : String)
  | console
  | kind

/-- `ValidatePerms`: the permissions in their canonical order. -/
def validatePerms (perms : List String) : Except ScopeError (List String) :=
  let set := perms.map GoStrings.trimSpace
  match set.find? fun p => !permissions.contains p with
  | some p => .error (.unknownPermission p)
  | none =>
    if set.contains "read" then .ok (permissions.filter fun p => set.contains p)
    else .error .missingRead

/-- `validSessionID`. A text without slashes holds no `://`. -/
def validSessionID (id : String) : Bool :=
  id ≠ "" && id.utf8ByteSize ≤ 256 && id ≠ "." && id ≠ ".." &&
    id.toList.all fun c => c ≠ '/' && c ≠ '\\' && c ≠ '\x00'

def consoleID : String := "console"

/-- The loop of `ValidateResource` over the workgroups. -/
def validateWorkgroups : List String → Except ScopeError Unit
  | [] => .ok ()
  | id :: rest =>
    if !validSessionID id then .error (.invalidWorkgroup id)
    else if id = consoleID then .error .console
    else validateWorkgroups rest

/-- `ValidateResource`: workgroups sorted and without duplicates. -/
def validateResource (r : ResourceScope) : Except ScopeError ResourceScope :=
  if r.kind = "all_sessions" then
    if r.workgroups.length ≠ 0 then .error .allSessionsWorkgroups else .ok ⟨"all_sessions", []⟩
  else if r.kind = "workgroups" then
    if r.workgroups.length = 0 then .error .noWorkgroups
    else
      match validateWorkgroups r.workgroups with
      | .error err => .error err
      | .ok () =>
        .ok ⟨"workgroups", (r.workgroups.mergeSort fun a b => a ≤ b).destutter (· ≠ ·)⟩
  else .error .kind

def withinCeiling (req ceiling : ResourceScope) : Bool :=
  if ceiling.kind = "all_sessions" then true
  else if ceiling.kind = "workgroups" then
    req.kind = "workgroups" && req.workgroups.all fun w => ceiling.workgroups.contains w
  else false

/-! ## Texts -/

def validPrincipal (s : String) : Bool :=
  s ≠ "" && s.utf8ByteSize ≤ 128 && s.toList.all fun c => 0x20 < c.toNat && c.toNat ≠ 0x7f

def validLabel (label : String) : Bool :=
  label ≠ "" && label.utf8ByteSize ≤ 64 &&
    label.toList.all fun c => 0x20 ≤ c.toNat && c.toNat ≠ 0x7f

def base64url : List Char :=
  "ABCDEFGHIJKLMNOPQRSTUVWXYZabcdefghijklmnopqrstuvwxyz0123456789-_".toList

/-- `validNonce`: the canonical encoding of 32 bytes, whose last character stands for four bits. -/
def validNonce (s : String) : Bool :=
  s.toList.length = 43 && s.toList.all (base64url.contains ·) &&
    (s.toList.getLast?.any fun c => base64url.idxOf c % 4 = 0)

def validVerifier (v : String) : Bool :=
  43 ≤ v.utf8ByteSize && v.utf8ByteSize ≤ 128 && v.toList.all fun c =>
    ('A' ≤ c && c ≤ 'Z') || ('a' ≤ c && c ≤ 'z') || ('0' ≤ c && c ≤ '9') || c = '-' || c = '.' ||
      c = '_' || c = '~'

/-! ## Records -/

/-- Lifetimes and windows, in seconds. -/
def defaultCodeTTL : Int := 600
def maxCodeTTL : Int := 3600
def cloudCodeTTL : Int := 300
def codeRetention : Int := 86400
def cloudIssueRetention : Int := 86400
def cloudRateWindow : Int := 3600
def maxCloudIssues : Nat := 4096

/-- `codeRecord`; `cloud` says that its origin is the cloud. -/
structure CodeRecord where
  perms : List String
  resource : ResourceScope
  createdAt : Int
  expiresAt : Int
  consumedAt : Int
  clientID : String
  cloud : Bool
  challenge : String
  policyGen : Nat
  requester : String
  issueKey : String
  ticket : Bool

structure CloudPolicy where
  enabled : Bool
  generation : Nat
  perms : List String
  resource : ResourceScope
  ownerPin : String
  providerPin : String
  maxOutstanding : Nat
  maxPerHour : Nat
  issued : List Int

/-- `cloudIssue`; `code` is the replay material. -/
structure CloudIssue where
  reqHash : String
  codeHash : String
  code : String
  createdAt : Int
  expiresAt : Int

/-- `grantRecord`, as far as enrollment fills it. -/
structure EnrolledGrant where
  perms : List String
  resource : ResourceScope
  cloudRequester : Option String
  revokedAt : Int

/-- `storeState`. -/
structure Store where
  codes : GoMap String CodeRecord
  issues : GoMap String CloudIssue
  cloud : Option CloudPolicy
  grants : GoMap String EnrolledGrant

/-- What `cloudReqHash` hashes: the request without its issue key. -/
structure HashedRequest where
  requester : String
  providerID : String
  codeChallenge : String
  codeChallengeMethod : String
  label : String
  perms : List String
  resource : ResourceScope
  handoff : String

/-- The functions the operations use: `hashToken`, `S256Challenge` and the hash of `cloudReqHash`. -/
structure Crypto where
  token : TokenHash
  s256 : String → String
  reqHash : HashedRequest → String

namespace Store

variable (st : Store)

def cloudGen : Nat := (st.cloud.map CloudPolicy.generation).getD 0

/-- `takeReplayLocked`, without the value it returns. -/
def takeReplay (r : CodeRecord) : Store :=
  if r.issueKey = "" then st
  else
    match st.issues.lookup r.issueKey with
    | none => st
    | some is => { st with issues := st.issues.insert r.issueKey { is with code := "" } }

/-- `takeReplayLocked`, the value. -/
def replayOf (r : CodeRecord) : String :=
  if r.issueKey = "" then ""
  else ((st.issues.lookup r.issueKey).map CloudIssue.code).getD ""

def restoreReplay (r : CodeRecord) (code : String) : Store :=
  match st.issues.lookup r.issueKey with
  | none => st
  | some is =>
    if code ≠ "" then
      { st with issues := st.issues.insert r.issueKey { is with code := code } }
    else st

/-- Take the replay material of every code that `p` picks, in the order of the map. -/
def takeReplays (p : CodeRecord → Bool) : Store :=
  st.codes.entries.foldl (fun st e => if p e.2 then st.takeReplay e.2 else st) st

def issuedSince (issued : List Int) (now : Int) : Nat :=
  issued.countP fun t => now - cloudRateWindow < t

def cloudOutstanding (now : Int) : Nat :=
  st.codes.total fun r =>
    if r.cloud ∧ r.consumedAt = 0 ∧ now < r.expiresAt ∧ r.policyGen = st.cloudGen then 1
    else 0

def pruneCloud (now : Int) : Store :=
  { st with
    issues := (st.issues.mapVal fun _ is =>
        if is.expiresAt ≤ now then { is with code := "" } else is).filter fun _ is =>
      !(is.expiresAt + cloudIssueRetention < now && (st.codes.lookup is.codeHash).isNone)
    cloud := st.cloud.map fun c =>
      { c with issued := c.issued.filter fun t => now - cloudRateWindow < t } }

/-- `pruneLocked`; `leased` are the clients with leases. -/
def prune (leased : List String) (now : Int) : Store :=
  let st := st.takeReplays fun r => r.expiresAt ≤ now
  let st := { st with codes := st.codes.filter fun _ r =>
    !(r.expiresAt + codeRetention < now) }
  let st := st.pruneCloud now
  { st with grants := st.grants.filter fun id g =>
      !(g.revokedAt ≠ 0 && g.revokedAt + revokedRetention < now && !leased.contains id) }

def consume (now : Int) (r : CodeRecord) : CodeRecord :=
  if r.consumedAt = 0 then { r with consumedAt := now } else r

def disableCloud (now : Int) : Store :=
  match st.cloud with
  | none => st
  | some c =>
    let off :=
      if c.enabled then { c with enabled := false, generation := c.generation + 1 } else c
    let st := { st with cloud := some off }
    let st := { st with codes := st.codes.mapVal fun _ r =>
      if r.cloud then consume now r else r }
    st.takeReplays CodeRecord.cloud

def revokeGrant (now : Int) (g : EnrolledGrant) : EnrolledGrant :=
  if g.revokedAt = 0 then { g with revokedAt := now } else g

/-- `markRevokedLocked` of some clients. -/
def revoke (clients : List String) (now : Int) : Store :=
  { st with grants := st.grants.mapVal fun id g =>
      if clients.contains id then revokeGrant now g else g }

def revokeAll (now : Int) : Store :=
  let st := { st with grants := st.grants.mapVal fun _ g => revokeGrant now g }
  let st := { st with codes := st.codes.mapVal fun _ r => consume now r }
  (st.takeReplays fun _ => true).disableCloud now

end Store

/-! ## Operations -/

inductive CloudErrorCode
  | disabled
  | ownerMismatch
  | providerMismatch
  | invalidRequest (scope : Option ScopeError)
  | invalidChallenge
  | scope
  | idemConflict
  | issueExpired
  | capacity
  | rateLimited
  | unavailable

inductive EnrollError
  | invalid
  | badScope (err : ScopeError)
  | request
  | invalidCode
  | degraded
  | notCommitted
  | ambiguousCommit
  | cloud (code : CloudErrorCode)

/-- The authority in a process. -/
structure Process where
  store : Store
  degraded : Bool

/-- A process and the contents its file may have, the one it shows first. -/
structure Live where
  process : Process
  disk : List Store

namespace Live

variable (v : Live)

def set (st : Store) : Live := { v with process := { v.process with store := st } }

/-- `commitLocked` of this content, which the caller keeps. -/
def commitKept (st : Store) : Commit → Live
  | .ok => ⟨{ v.process with store := st }, [st]⟩
  | .notCommitted => ⟨{ v.process with store := st }, v.disk⟩
  | .ambiguous => ⟨⟨st, true⟩, st :: v.disk⟩

/-- `commitLocked` of this content by a caller that goes on with `kept` after it, with `undone` if
    it was not committed, and with `unsure` if that is not known. -/
def commit (st kept undone unsure : Store) : Commit → Live
  | .ok => ⟨{ v.process with store := kept }, [st]⟩
  | .notCommitted => ⟨{ v.process with store := undone }, v.disk⟩
  | .ambiguous => ⟨⟨unsure, true⟩, st :: v.disk⟩

end Live

/-- The error a caller makes of a failed commit. -/
def commitError : Commit → Option EnrollError
  | .ok => none
  | .notCommitted => some .notCommitted
  | .ambiguous => some .ambiguousCommit

/-- What `NewCode` is given and draws; `ttl` is in nanoseconds. -/
structure NewCodeCall where
  label : String
  perms : List String
  resource : ResourceScope
  ttl : Int
  code : String
  now : Instant
  leased : List String
  commit : Commit

def manualRecord (perms : List String) (resource : ResourceScope) (now exp : Int) : CodeRecord where
  perms := perms
  resource := resource
  createdAt := now
  expiresAt := exp
  consumedAt := 0
  clientID := ""
  cloud := false
  challenge := ""
  policyGen := 0
  requester := ""
  issueKey := ""
  ticket := false

/-- `CloudPolicyRequest`. -/
structure PolicyRequest where
  perms : List String
  resource : ResourceScope
  ownerPin : String
  providerPin : String
  maxOutstanding : Int
  maxPerHour : Int

/-- The bound in `normalizePolicy`: zero takes the default. -/
def pick (v : Int) (default max : Nat) : Option Nat :=
  if v = 0 then some default else if v < 0 ∨ max < v then none else some v.toNat

/-- `normalizePolicy`, with the generation and the samples `EnableCloud` adds. -/
def normalizePolicy (req : PolicyRequest) (generation : Nat) (issued : List Int) :
    Except EnrollError CloudPolicy :=
  match validatePerms req.perms with
  | .error err => .error (.badScope err)
  | .ok perms =>
    match validateResource req.resource with
    | .error err => .error (.badScope err)
    | .ok resource =>
      if !validPrincipal req.ownerPin ∨ !validPrincipal req.providerPin then .error .invalid
      else
        match pick req.maxOutstanding 3 20, pick req.maxPerHour 10 60 with
        | some outstanding, some hour =>
          .ok ⟨true, generation, perms, resource, req.ownerPin, req.providerPin, outstanding,
            hour, issued⟩
        | _, _ => .error .invalid

/-- `CloudIssueRequest`. -/
structure IssueRequest where
  issueKey : String
  requester : String
  providerID : String
  codeChallenge : String
  codeChallengeMethod : String
  perms : List String
  resource : ResourceScope
  label : String
  handoff : String

def IssueRequest.hashed (req : IssueRequest) : HashedRequest :=
  ⟨req.requester, req.providerID, req.codeChallenge, req.codeChallengeMethod, req.label, req.perms,
    req.resource, req.handoff⟩

/-- What `IssueCloudCode` is given and draws. -/
structure IssueCall where
  req : IssueRequest
  code : String
  now : Instant
  leased : List String
  commit : Commit

/-- The handoff of a request: a ticket or a challenged code. -/
def IssueRequest.ticket? (req : IssueRequest) : Except CloudErrorCode Bool :=
  if req.handoff = "" then
    if req.codeChallengeMethod ≠ "S256" ∨ !validNonce req.codeChallenge then
      .error .invalidChallenge
    else .ok false
  else if req.handoff = "device_ticket" then
    if req.codeChallenge ≠ "" ∨ req.codeChallengeMethod ≠ "" then .error .invalidChallenge
    else .ok true
  else .error (.invalidRequest none)

/-- The request once its checks against the policy have passed: with the default label and the
    validated scope, and whether it is for a ticket. -/
def IssueRequest.admitted (req : IssueRequest) (c : CloudPolicy) :
    Except CloudErrorCode (IssueRequest × Bool) :=
  if req.requester ≠ c.ownerPin then .error .ownerMismatch
  else if req.providerID ≠ c.providerPin then .error .providerMismatch
  else
    match req.ticket? with
    | .error err => .error err
    | .ok ticket =>
      match validatePerms req.perms with
      | .error err => .error (.invalidRequest (some err))
      | .ok perms =>
        if !perms.all (c.perms.contains ·) then .error .scope
        else
          match validateResource req.resource with
          | .error err => .error (.invalidRequest (some err))
          | .ok resource =>
            if !withinCeiling resource c.resource then .error .scope
            else .ok ({ req with perms := perms, resource := resource }, ticket)

/-- `Label` with its default. -/
def IssueRequest.labelled (req : IssueRequest) : IssueRequest :=
  if req.label = "" then { req with label := "cloud enrollment" } else req

/-- The checks `IssueCloudCode` makes before it takes the lock. -/
def IssueRequest.wellFormed (req : IssueRequest) : Bool :=
  req.issueKey.utf8ByteSize ≠ 0 && req.issueKey.utf8ByteSize ≤ 128 &&
    validPrincipal req.issueKey && validPrincipal req.requester && validPrincipal req.providerID &&
    validLabel req.labelled.label

def cloudRecord (req : IssueRequest) (ticket : Bool) (generation : Nat) (keyHash : String)
    (now : Int) : CodeRecord where
  perms := req.perms
  resource := req.resource
  createdAt := now
  expiresAt := now + cloudCodeTTL
  consumedAt := 0
  clientID := ""
  cloud := true
  challenge := req.codeChallenge
  policyGen := generation
  requester := req.requester
  issueKey := keyHash
  ticket := ticket

/-- What a redemption is given and draws. -/
structure RedeemCall where
  code : String
  label : String
  kind : String
  verifier : String
  clientID : String
  now : Instant
  leased : List String
  commit : Commit

/-- The answer of `checkVerifierLocked`: go on, refuse and leave the code, or spoil the code. -/
inductive Verdict
  | accept
  | request
  | spoil

section Operations

variable (crypto : Crypto) (v : Live)

def Live.newCode (call : NewCodeCall) : Live × Option EnrollError :=
  let ttl := if call.ttl = 0 then defaultCodeTTL * 10 ^ 9 else call.ttl
  if ttl < 0 ∨ maxCodeTTL * 10 ^ 9 < ttl ∨ !validLabel call.label then (v, some .invalid)
  else
    match validatePerms call.perms with
    | .error err => (v, some (.badScope err))
    | .ok perms =>
      match validateResource call.resource with
      | .error err => (v, some (.badScope err))
      | .ok resource =>
        if v.process.degraded then (v, some .degraded)
        else
          let key := crypto.token.hash call.code
          let r := manualRecord perms resource call.now (call.now + ttl / 10 ^ 9)
          let st := v.process.store.prune call.leased call.now
          let next := { st with codes := st.codes.insert key r }
          (v.commit next next { next with codes := next.codes.erase key }
            { next with codes := next.codes.insert key { r with consumedAt := call.now } }
            call.commit, commitError call.commit)

def Live.enableCloud (req : PolicyRequest) (commit : Commit) : Live × Option EnrollError :=
  let st := v.process.store
  match normalizePolicy req (st.cloudGen + 1) ((st.cloud.map CloudPolicy.issued).getD []) with
  | .error err => (v, some err)
  | .ok policy =>
    if v.process.degraded then (v, some .degraded)
    else
      let next := { st with cloud := some policy }
      (v.commit next next { next with cloud := st.cloud } next commit, commitError commit)

def Live.disableCloud (now : Instant) (commit : Commit) : Live × Option EnrollError :=
  (v.commitKept (v.process.store.disableCloud now) commit, commitError commit)

def Store.sampled (c : CloudPolicy) (now : Int) : CloudPolicy :=
  { c with issued := c.issued ++ [now] }

/-- The minted code in `IssueCloudCode`. -/
def Store.mint (st : Store) (c : CloudPolicy) (req : IssueRequest) (ticket : Bool)
    (codeHash keyHash reqHash code : String) (now : Int) : Store :=
  { st with
    codes := st.codes.insert codeHash (cloudRecord req ticket c.generation keyHash now)
    issues := st.issues.insert keyHash ⟨reqHash, codeHash, code, now, now + cloudCodeTTL⟩
    cloud := some (sampled c now) }

/-- A mint that is rolled back, to this policy. -/
def Store.cancelMint (st : Store) (c : CloudPolicy) (codeHash keyHash : String) : Store :=
  { st with
    codes := st.codes.erase codeHash
    issues := st.issues.erase keyHash
    cloud := some c }

/-- A minted code that must not be handed out. -/
def Store.unmint (st : Store) (codeHash keyHash : String) (now : Int) : Store :=
  { st with
    codes := match st.codes.lookup codeHash with
      | some r => st.codes.insert codeHash { r with consumedAt := now }
      | none => st.codes
    issues := match st.issues.lookup keyHash with
      | some is => st.issues.insert keyHash { is with code := "" }
      | none => st.issues }

/-- What `IssueCloudCode` answers: a new code, or the stored code of the same key. -/
inductive Issued
  | minted (code : String) (expiresAt : Int)
  | replayed (code : String) (expiresAt : Int)

/-- `IssueCloudCode`, for a key that has a record. -/
def Store.replay (st : Store) (c : CloudPolicy) (is : CloudIssue) (reqHash : String) (now : Int) :
    Except EnrollError Issued :=
  if is.reqHash ≠ reqHash then .error (.cloud .idemConflict)
  else
    match st.codes.lookup is.codeHash with
    | none => .error (.cloud .issueExpired)
    | some r =>
      if is.code = "" ∨ r.consumedAt ≠ 0 ∨ r.expiresAt ≤ now ∨ r.policyGen ≠ c.generation then
        .error (.cloud .issueExpired)
      else .ok (.replayed is.code r.expiresAt)

/-- `IssueCloudCode`, for a new key: the caps, and the mint. -/
def Live.mint (c : CloudPolicy) (req : IssueRequest) (ticket : Bool) (keyHash : String)
    (call : IssueCall) : Live × Except EnrollError Issued :=
  let st := v.process.store
  if c.maxOutstanding ≤ st.cloudOutstanding call.now then (v, .error (.cloud .capacity))
  else if c.maxPerHour ≤ Store.issuedSince c.issued call.now then
    (v, .error (.cloud .rateLimited))
  else
    let st := st.prune call.leased call.now
    let c := { c with issued := c.issued.filter fun t => call.now - cloudRateWindow < t }
    if maxCloudIssues ≤ st.issues.len then (v.set st, .error (.cloud .capacity))
    else
      let codeHash := crypto.token.hash call.code
      let next := st.mint c req ticket codeHash keyHash (crypto.reqHash req.hashed) call.code call.now
      (v.commit next next (next.cancelMint c codeHash keyHash)
          (next.unmint codeHash keyHash call.now) call.commit,
        match call.commit with
        | .ok => .ok (.minted call.code (call.now + cloudCodeTTL))
        | _ => .error (.cloud .unavailable))

def Live.issueCloudCode (call : IssueCall) : Live × Except EnrollError Issued :=
  if !call.req.wellFormed then (v, .error (.cloud (.invalidRequest none)))
  else if v.process.degraded then (v, .error (.cloud .unavailable))
  else
    match v.process.store.cloud with
    | none => (v, .error (.cloud .disabled))
    | some c =>
      if !c.enabled then (v, .error (.cloud .disabled))
      else
        match call.req.labelled.admitted c with
        | .error err => (v, .error (.cloud err))
        | .ok (req, ticket) =>
          let keyHash := crypto.token.hash req.issueKey
          match v.process.store.issues.lookup keyHash with
          | some is =>
            (v, v.process.store.replay c is (crypto.reqHash req.hashed) call.now)
          | none => v.mint crypto c req ticket keyHash call

/-- The ticket takes the challenge. -/
def Store.claim (st : Store) (key : String) (r : CodeRecord) (challenge : String) : Store :=
  { st with codes := st.codes.insert key { r with challenge := challenge } }

/-- `ClaimTicket`: whether the challenge was set now, or had been set before. -/
def Live.claimTicket (code challenge method : String) (now : Instant) (commit : Commit) :
    Live × Except EnrollError Bool :=
  if code = "" ∨ method ≠ "S256" ∨ !validNonce challenge then (v, .error .request)
  else if v.process.degraded then (v, .error .degraded)
  else
    let st := v.process.store
    let key := crypto.token.hash code
    match st.codes.lookup key, st.cloud with
    | some r, some c =>
      if !r.ticket ∨ !r.cloud ∨ r.consumedAt ≠ 0 ∨ r.expiresAt ≤ now ∨ !c.enabled ∨
          c.generation ≠ r.policyGen then (v, .error .invalidCode)
      else if r.challenge ≠ "" then
        (v, if r.challenge = challenge then .ok false else .error .invalidCode)
      else
        let next := st.claim key r challenge
        (v.commit next next (next.claim key r "") next commit,
          match commitError commit with
          | none => .ok true
          | some err => .error err)
    | _, _ => (v, .error .invalidCode)

def Store.checkVerifier (st : Store) (r : CodeRecord) (verifier : String) : Verdict :=
  if !r.cloud then if verifier ≠ "" then .request else .accept
  else if r.ticket ∧ r.challenge = "" then .request
  else if verifier = "" ∨ !validVerifier verifier then .request
  else if crypto.s256 verifier = r.challenge ∧
      (st.cloud.any fun c => c.enabled && c.generation = r.policyGen) then .accept
  else .spoil

/-- The code is used up, without a grant. -/
def Store.spoil (st : Store) (key : String) (r : CodeRecord) (now : Int) : Store :=
  Store.takeReplay { st with codes := st.codes.insert key { r with consumedAt := now } } r

/-- The grant a code is exchanged for. -/
def CodeRecord.grant (r : CodeRecord) : EnrolledGrant :=
  ⟨r.perms, r.resource, if r.cloud then some r.requester else none, 0⟩

/-- The code is exchanged for the grant. -/
def Store.exchange (st : Store) (key : String) (r : CodeRecord) (clientID : String) (now : Int) :
    Store :=
  let st := st.takeReplay r
  { st with
    codes := st.codes.insert key { r with consumedAt := now, clientID := clientID }
    grants := st.grants.insert clientID r.grant }

def Store.unexchange (st : Store) (key : String) (r : CodeRecord) (clientID replay : String) :
    Store :=
  let st := { st with codes := st.codes.insert key { r with consumedAt := 0, clientID := "" } }
  let st := st.restoreReplay r replay
  { st with grants := st.grants.erase clientID }

def Live.redeem (call : RedeemCall) : Live × Except EnrollError CodeRecord :=
  let label := if call.label = "" then "direct client" else call.label
  if !validLabel label ∨ (call.kind ≠ "web" ∧ call.kind ≠ "android") then (v, .error .invalid)
  else if v.process.degraded then (v, .error .degraded)
  else
    let st := v.process.store
    let key := crypto.token.hash call.code
    match st.codes.lookup key with
    | none => (v, .error .invalidCode)
    | some r =>
      if r.consumedAt ≠ 0 ∨ r.expiresAt ≤ call.now then (v, .error .invalidCode)
      else
        match st.checkVerifier crypto r call.verifier with
        | .request => (v, .error .request)
        | .spoil => (v.commitKept (st.spoil key r call.now) call.commit, .error .invalidCode)
        | .accept =>
          let next := st.exchange key r call.clientID call.now
          (v.commit next (next.prune call.leased call.now)
              (next.unexchange key r call.clientID (st.replayOf r))
              { next with grants :=
                next.grants.insert call.clientID (Store.revokeGrant call.now r.grant) }
              call.commit,
            match commitError call.commit with
            | none => .ok r
            | some err => .error err)

/-- `ResetIdentity`; `saved` says whether the new identity was saved. -/
def Live.resetIdentity (now : Instant) (commit : Commit) (saved : Bool) : Live :=
  let next := v.commitKept (v.process.store.revokeAll now) commit
  if commit = .ok ∧ saved then next
  else { next with process := { next.process with degraded := true } }

/-- An operation on grants: it revokes `first` and commits. `Refresh` prunes once its commit is in
    place, and revokes `later` when that is not known. -/
def Live.otherOperation (first later : List String) (prunes : Bool) (leased : List String)
    (now : Instant) (commit : Commit) : Live :=
  let next := v.process.store.revoke first now
  v.commit next (if prunes then next.prune leased now else next) next (next.revoke later now) commit

end Operations

/-! ## Runs -/

/-- A code that was put into the store, with its first record. -/
structure Mint where
  code : String
  record : CodeRecord

/-- A redemption that was answered with tokens: what it was given, the record and the policy it
    found, and the grant. -/
structure Enrolled where
  code : String
  clientID : String
  verifier : String
  record : CodeRecord
  policy : Option CloudPolicy
  grant : EnrolledGrant

/-- An issue key that was answered with a new code. -/
structure Issue where
  issueKey : String
  code : String
  generation : Nat
  maxPerHour : Nat
  mintedAt : Int
  expiresAt : Int

/-- The authority, if one runs, and the contents its file may have. The rest is history: the last
    reading of the clock, codes put into the store, new codes handed out for an issue key,
    redemptions, clients that were drawn with the code each was drawn for, challenges that were set
    and not taken back, and claims that were answered with success. -/
structure EnrollState where
  process : Option Process
  disk : List Store
  clock : Int
  minted : List Mint
  issued : List Issue
  enrolled : List Enrolled
  created : List (String × String)
  sets : List (String × String)
  claims : List (String × String)

inductive EnrollEvent
  | newCode (call : NewCodeCall)
  | enableCloud (req : PolicyRequest) (now : Instant) (commit : Commit)
  | disableCloud (now : Instant) (commit : Commit)
  | issueCloudCode (call : IssueCall)
  | claimTicket (code challenge method : String) (now : Instant) (commit : Commit)
  | redeem (call : RedeemCall)
  | resetIdentity (now : Instant) (commit : Commit) (saved : Bool)
  | otherOperation (first later : List String) (prunes : Bool) (leased : List String)
      (now : Instant) (commit : Commit)
  | exit
  | powerLoss (content : Nat)
  | load (saves : List Commit) (changed : Bool) (now : Instant) (commit : Commit)

/-- The reading of the clock an event takes. -/
def EnrollEvent.now? : EnrollEvent → Option Instant
  | .newCode call => some call.now
  | .enableCloud _ now _ => some now
  | .disableCloud now _ => some now
  | .issueCloudCode call => some call.now
  | .claimTicket _ _ _ now _ => some now
  | .redeem call => some call.now
  | .resetIdentity now _ _ => some now
  | .otherOperation _ _ _ _ now _ => some now
  | .exit => none
  | .powerLoss _ => none
  | .load _ _ now _ => some now

namespace EnrollState

variable (crypto : Crypto) (s : EnrollState)

def moved (v : Live) : EnrollState := { s with process := some v.process, disk := v.disk }

def Undrawn (code : String) : Prop := code ∉ s.minted.map Mint.code

def Unused (clientID : String) : Prop := clientID ∉ s.created.map Prod.fst

instance (code : String) : Decidable (s.Undrawn code) := inferInstanceAs (Decidable (_ ∉ _))

instance (clientID : String) : Decidable (s.Unused clientID) := inferInstanceAs (Decidable (_ ∉ _))

/-- The code now has a record, unless it was rolled back. -/
def mintedIn (v : Live) (code : String) : EnrollState :=
  match v.process.store.codes.lookup (crypto.token.hash code) with
  | some r => { s with minted := ⟨code, { r with consumedAt := 0 }⟩ :: s.minted }
  | none => s

def newCode (v : Live) (call : NewCodeCall) : EnrollState :=
  let next := (v.newCode crypto call).1
  (s.moved next).mintedIn crypto next call.code

def issueCloudCode (v : Live) (call : IssueCall) : EnrollState :=
  let next := v.issueCloudCode crypto call
  let s := (s.moved next.1).mintedIn crypto next.1 call.code
  match next.2 with
  | .ok (.minted code exp) =>
    let st := next.1.process.store
    { s with
      issued := ⟨call.req.issueKey, code, st.cloudGen,
        (st.cloud.map CloudPolicy.maxPerHour).getD 0, call.now, exp⟩ :: s.issued }
  | _ => s

def claimTicket (v : Live) (code challenge method : String) (now : Instant) (commit : Commit) :
    EnrollState :=
  let next := v.claimTicket crypto code challenge method now commit
  let s := s.moved next.1
  match next.2 with
  | .ok true => { s with
      sets := (code, challenge) :: s.sets, claims := (code, challenge) :: s.claims }
  | .ok false => { s with claims := (code, challenge) :: s.claims }
  | .error .ambiguousCommit => { s with sets := (code, challenge) :: s.sets }
  | .error _ => s

def redeem (v : Live) (call : RedeemCall) : EnrollState :=
  let next := v.redeem crypto call
  let s := { s.moved next.1 with created := (call.clientID, call.code) :: s.created }
  match next.2 with
  | .ok r => { s with
      enrolled := ⟨call.code, call.clientID, call.verifier, r, v.process.store.cloud, r.grant⟩ ::
        s.enrolled }
  | .error _ => s

/-- The saves of `loadAuthority` that keep what enrollment reads, the migration and the settled
    creations: the disk after them, and whether the open goes on. -/
def saves (st : Store) : List Commit → List Store → List Store × Bool
  | [], disk => (disk, true)
  | .ok :: rest, _ => saves st rest [st]
  | .notCommitted :: _, disk => (disk, false)
  | .ambiguous :: _, disk => (st :: disk, false)

/-- `loadAuthority`; `changed` says that the identity is another one. A save that fails leaves no
    authority. -/
def load (st : Store) (early : List Commit) (changed : Bool) (now : Instant) (commit : Commit) :
    EnrollState :=
  let saved := saves st early s.disk
  if !saved.2 then { s with disk := saved.1 }
  else if changed then
    let st := st.revokeAll now
    match commit with
    | .ok => { s with process := some ⟨st, false⟩, disk := [st] }
    | .notCommitted => { s with disk := saved.1 }
    | .ambiguous => { s with disk := st :: saved.1 }
  else { s with process := some ⟨st, false⟩, disk := saved.1 }

/-- The operation of a running authority. A closed authority is one whose process has ended. -/
def operate (v : Live) : EnrollEvent → Option EnrollState
  | .newCode call => if s.Undrawn call.code then some (s.newCode crypto v call) else none
  | .enableCloud req _ commit => some (s.moved (v.enableCloud req commit).1)
  | .disableCloud now commit => some (s.moved (v.disableCloud now commit).1)
  | .issueCloudCode call =>
    if s.Undrawn call.code then some (s.issueCloudCode crypto v call) else none
  | .claimTicket code challenge method now commit =>
    some (s.claimTicket crypto v code challenge method now commit)
  | .redeem call => if s.Unused call.clientID then some (s.redeem crypto v call) else none
  | .resetIdentity now commit saved => some (s.moved (v.resetIdentity now commit saved))
  | .otherOperation first later prunes leased now commit =>
    some (s.moved (v.otherOperation first later prunes leased now commit))
  | .exit => some { s with process := none }
  | .powerLoss content => s.disk[content]?.map fun st => { s with process := none, disk := [st] }
  | .load .. => none

/-- With no authority running, the file is opened, or the power fails. -/
def start : EnrollEvent → Option EnrollState
  | .load early changed now commit =>
    s.disk.head?.map fun st => s.load st early changed now commit
  | .powerLoss content => s.disk[content]?.map fun st => { s with disk := [st] }
  | _ => none

def step (e : EnrollEvent) : Option EnrollState :=
  let next := match s.process with
    | some p => s.operate crypto ⟨p, s.disk⟩ e
    | none => s.start e
  next.map fun next => { next with clock := (e.now?.map Subtype.val).getD s.clock }

def blank : EnrollState := ⟨none, [⟨∅, ∅, none, ∅⟩], 0, [], [], [], [], [], []⟩

end EnrollState

end AgentMultiplexer.Direct.Enroll
