import AgentMultiplexer.Access.Registry

set_option autoImplicit false

/-! # Verifying a request and the replay ledger in memory

`Verify` authenticates a signed mailbox request and consumes it: a request is accepted once per
boot and never again. The decision is taken on an in-memory ledger keyed by key id, generation and
request id; the ledger is bounded, and only when it is full does `acceptReplay` prune the entries
that had expired at the caller's own clock reading.

Times are nanoseconds here, as Go's `time.Time` compares them; the wire carries milliseconds. The
signature check and the body digest are parameters: nothing below depends on what they compute. -/

namespace AgentMultiplexer.Access

/-! ## Requests -/

def protocolVersion : Nat := 1
def maxBodyBytes : Nat := 64 * 2 ^ 10
def maxReplayEntries : Nat := 4096
def replayJournalLimit : Nat := 8 * maxReplayEntries

/-- `MaxRequestAge` and `clockSkew`, in nanoseconds. -/
def maxRequestAge : Int := 30 * 10 ^ 9
def clockSkew : Int := 5 * 10 ^ 9

/-- `time.UnixMilli` and `Time.UnixMilli`. -/
def ofUnixMilli (ms : Int) : Int := ms * 10 ^ 6
def unixMilli (t : Int) : Int := t / 10 ^ 6

/-- The authenticated envelope of a mailbox request. -/
structure SignedRequest where
  protocol : Nat
  bootID : String
  keyID : String
  generation : Nat
  requestID : String
  issuedAt : Int
  expiresAt : Int
  body : List UInt8
  signature : String
  deriving DecidableEq

/-- A hexadecimal digit, as `hex.DecodeString` accepts it. -/
def isHexDigit (c : Char) : Bool :=
  ('0' ≤ c && c ≤ '9') || ('a' ≤ c && c ≤ 'f') || ('A' ≤ c && c ≤ 'F')

/-- `validHexID`: the hexadecimal text of this many bytes. -/
def validHexID (s : String) (bytes : Nat) : Bool :=
  s.toList.length = bytes * 2 && s.toList.all isHexDigit

/-- The cryptography `Verify` calls: whether the request's signature verifies under an encoded
    public key, and the hexadecimal SHA-256 of a body. -/
structure Crypto where
  verifies : String → SignedRequest → Bool
  bodyDigest : List UInt8 → String

/-- The checks `Verify` makes before it takes the read lease, at its clock reading `now`. -/
def checkEnvelope (bootID : String) (now : Int) (req : SignedRequest) : Option AccessError :=
  if req.protocol ≠ protocolVersion ∨ req.bootID ≠ bootID ∨ !validHexID req.requestID 16 ∨
      req.body.length = 0 ∨ req.body.length > maxBodyBytes then
    some .invalidCredential
  else if ofUnixMilli req.expiresAt < now - clockSkew ∨
      now + clockSkew < ofUnixMilli req.issuedAt ∨ req.expiresAt < req.issuedAt ∨
      ofUnixMilli req.expiresAt - ofUnixMilli req.issuedAt > maxRequestAge then
    some .expired
  else none

/-- The checks `Verify` makes on the registry under the lease. -/
def checkCredential (crypto : Crypto) (closed : Bool) (registry : RegistryFile) (now : Int)
    (req : SignedRequest) : Except AccessError CredentialRecord :=
  if closed then .error .authorityClosed
  else
    match registry.records.lookup req.keyID with
    | none => .error .invalidCredential
    | some rec =>
      if rec.generation ≠ req.generation ∨
          registry.currentID rec.kind rec.subjectID ≠ req.keyID then
        .error .invalidCredential
      else if rec.revokedAt ≠ 0 then .error .revoked
      else if rec.notAfter ≤ unixMilli now then .error .invalidCredential
      else if !crypto.verifies rec.publicKey req then .error .invalidCredential
      else .ok rec

/-! ## The ledger -/

/-- `replayRecord`: what the ledger keeps of an accepted request. -/
structure ReplayRecord where
  keyID : String
  generation : Nat
  requestID : String
  bodyDigest : String
  expiresAt : Int
  deriving DecidableEq

/-- The record `Verify` asks the ledger to accept. -/
def replayRecordOf (crypto : Crypto) (req : SignedRequest) : ReplayRecord where
  keyID := req.keyID
  generation := req.generation
  requestID := req.requestID
  bodyDigest := crypto.bodyDigest req.body
  expiresAt := req.expiresAt

def replayKey (rec : ReplayRecord) : String :=
  rec.keyID ++ ":" ++ toString rec.generation ++ ":" ++ rec.requestID

/-- The entries of the ledger by their replay key. -/
abbrev ReplayEntries := GoMap String ReplayRecord

/-- The cutoff in milliseconds before which an entry has expired at a clock reading. -/
def replayCutoff (now : Int) : Int := unixMilli (now - clockSkew)

/-- The entries that had not expired at `now`: what `unexpiredReplay` copies, and what the prune of
    `acceptReplay` keeps. -/
def unexpired (entries : ReplayEntries) (now : Int) : ReplayEntries :=
  entries.filter fun _ rec => replayCutoff now ≤ rec.expiresAt

/-- The end of the decision: insert the record if there is room for it. `records` counts the
    journaled records. -/
def insertReplay (entries : ReplayEntries) (records : Int) (rec : ReplayRecord) :
    ReplayEntries × Option AccessError :=
  if maxReplayEntries ≤ entries.len ∨ replayJournalLimit ≤ records then (entries, some .capacity)
  else (entries.insert (replayKey rec) rec, none)

/-- The section of `acceptReplay` under `replayMu`: the ledger afterwards, and the error that ends
    the call, or `none` when the entry was inserted. A full ledger is pruned first. -/
def acceptReplay (entries : ReplayEntries) (records : Int) (rec : ReplayRecord) (now : Int) :
    ReplayEntries × Option AccessError :=
  if replayKey rec ∈ entries then (entries, some .replay)
  else if maxReplayEntries ≤ entries.len then insertReplay (unexpired entries now) records rec
  else insertReplay entries records rec

/-! ## Interleaved calls -/

/-- Where a `Verify` call stands. -/
inductive CallState
  /-- Not started. -/
  | idle
  /-- Past the envelope checks at clock reading `now`, waiting for the lease. -/
  | checked (req : SignedRequest) (now : Int)
  /-- The ledger holds its record; the journal append is outstanding. -/
  | inserted (rec : ReplayRecord)
  /-- Returned a principal. -/
  | accepted (rec : ReplayRecord)
  /-- Returned an error. -/
  | failed (err : AccessError)

/-- The replay side of a running authority. `pruned` remembers, for the statements about runs only,
    the keys that capacity prunes of this boot have dropped. -/
structure LedgerState where
  bootID : String
  clock : Int
  registry : RegistryFile
  closed : Bool
  entries : ReplayEntries
  /-- `journal.records`. -/
  records : Int
  /-- The record count a running compaction read at its rotation. -/
  rotated : Option Int
  calls : Nat → CallState
  pruned : List String

/-- One atomic section of some thread. -/
inductive LedgerEvent
  /-- The clock now shows `now`; a clock that is set can go back. -/
  | tick (now : Int)
  /-- A committed registry operation publishes its registry. -/
  | publish (registry : RegistryFile)
  | close
  /-- `Verify` reads the clock and checks the envelope. -/
  | begin (call : Nat) (req : SignedRequest)
  /-- `Verify` checks the credential and takes the replay decision. -/
  | decide (call : Nat)
  /-- The journal append of the call returns. -/
  | append (call : Nat) (ok : Bool)
  /-- `compactReplay` rotates the journals. -/
  | rotate
  /-- `compactReplay` returns; only a full run gives the rotated records back. -/
  | compacted (ok : Bool)

def droppedKeys (before after : ReplayEntries) : List String :=
  before.keys.filter fun k => k ∉ after

def LedgerState.setCall (s : LedgerState) (i : Nat) (c : CallState) : LedgerState :=
  { s with calls := Function.update s.calls i c }

/-- The call checks the credential under the lease and takes the replay decision. -/
def LedgerState.decided (crypto : Crypto) (s : LedgerState) (i : Nat) (req : SignedRequest)
    (now : Int) : LedgerState :=
  match checkCredential crypto s.closed s.registry now req with
  | .error err => s.setCall i (.failed err)
  | .ok _ =>
    let entry := replayRecordOf crypto req
    match acceptReplay s.entries s.records entry now with
    | (entries, outcome) =>
      { s.setCall i (match outcome with
          | some err => .failed err
          | none => .inserted entry) with
        entries := entries
        pruned := s.pruned ++ droppedKeys s.entries entries }

def LedgerState.step (crypto : Crypto) (s : LedgerState) : LedgerEvent → Option LedgerState
  | .tick now => some { s with clock := now }
  | .publish registry => some { s with registry := registry }
  | .close => some { s with closed := true }
  | .begin i req =>
    match s.calls i with
    | .idle =>
      match checkEnvelope s.bootID s.clock req with
      | some err => some (s.setCall i (.failed err))
      | none => some (s.setCall i (.checked req s.clock))
    | _ => none
  | .decide i =>
    match s.calls i with
    | .checked req now => some (s.decided crypto i req now)
    | _ => none
  | .append i ok =>
    match s.calls i with
    | .inserted rec =>
      -- a failed append leaves its entry consumed
      if ok then some { s.setCall i (.accepted rec) with records := s.records + 1 }
      else some (s.setCall i (.failed .io))
    | _ => none
  | .rotate =>
    match s.rotated with
    | none => some { s with rotated := some s.records }
    | some _ => none
  | .compacted ok =>
    match s.rotated with
    | none => none
    | some count =>
      if ok then some { s with rotated := none, records := s.records - count }
      else some { s with rotated := none }

/-- The state `open` leaves: no call has started and nothing was pruned; the ledger is whatever was
    recovered. -/
def LedgerState.Fresh (s : LedgerState) : Prop :=
  (∀ i, s.calls i = .idle) ∧ s.pruned = []

end AgentMultiplexer.Access
