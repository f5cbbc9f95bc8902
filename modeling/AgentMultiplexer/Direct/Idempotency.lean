import AgentMultiplexer.Theory.GoMap

set_option autoImplicit false

/-! # Idempotency of direct actions

A client names each action by an idempotency key. `BeginAction` records the key durably before the
action runs; a key that is recorded is answered from its record and never runs again. A completed
record is kept whole for a day and is then compacted to a tombstone, which keeps the fact that the
key was used, and with which body, for the grant's lifetime.

The registry is one file, replaced atomically. A commit is durable, failed before the rename (the
caller rolls its change back), or ambiguous: renamed, but the directory sync failed, so that a crash
may still bring back what was there before. The disk is therefore a list of contents, one of which
the next process loads. -/

namespace AgentMultiplexer.Direct

/-! ## Records -/

/-- Seconds. -/
def idemRetention : Int := 24 * 3600
def revokedRetention : Int := 30 * 24 * 3600

def maxIdemPerGrant : Nat := 1024
def maxSpentPerGrant : Nat := 16384

inductive IdemState
  | admitted
  | done
  /-- The outcome is unknown. -/
  | unknown
  deriving DecidableEq

structure IdemRecord where
  bodyHash : String
  state : IdemState
  boot : String
  ok : Bool := false
  code : String := ""
  error : String := ""
  newID : String := ""
  rootID : String := ""
  affected : List String := []
  /-- `At`: the admission. -/
  admittedAt : Int
  creationID : String := ""
  verb : String := ""
  async : Bool := false
  dispatchedAt : Int := 0
  endedAt : Int := 0
  newIncarnation : String := ""
  rootIncarnation : String := ""
  deriving DecidableEq

/-- `grantRecord`, as far as actions and revocation read it. -/
structure GrantRecord where
  revokedAt : Int
  revokeReason : String
  idem : GoMap String IdemRecord
  spent : GoMap String String

/-- `storeState`: the grants. -/
structure StoreState where
  grants : GoMap String GrantRecord

def pastRetention (r : IdemRecord) (now : Int) : Prop := now > r.admittedAt + idemRetention

instance (r : IdemRecord) (now : Int) : Decidable (pastRetention r now) :=
  inferInstanceAs (Decidable (_ > _))

/-- `spentBody`: the first sixteen characters of the body hash, which is hexadecimal text. -/
def spentBody (bodyHash : String) : String :=
  if 16 < bodyHash.utf8ByteSize then String.ofList (bodyHash.toList.take 16) else bodyHash

def runKey (clientID key : String) : String := clientID ++ "\x00" ++ key

/-- `undispatchedError` and `CodeUnavailable`. -/
def undispatchedError : String :=
  "the server stopped before the creation was sent; it did not run"
def codeUnavailable : String := "unavailable"

/-! ## Compaction and lookup

`spentKey`, a prefix of the key's SHA-256, is a parameter. -/

section Lookup

variable (spentKey : String → String)

/-- One round of the loop of `compactExpiredLocked`. -/
def compactRecord (now : Int) (g : GrantRecord) (key : String) : GrantRecord :=
  match g.idem.lookup key with
  | none => g
  | some r =>
    if r.state ≠ .done ∨ ¬ pastRetention r now then g
    -- a full tombstone set keeps the record whole
    else if spentKey key ∉ g.spent ∧ maxSpentPerGrant ≤ g.spent.len then g
    else
      { g with
        spent := g.spent.insert (spentKey key) (spentBody r.bodyHash)
        idem := g.idem.erase key }

/-- `compactExpiredLocked`. The order in which a map is ranged over is not specified: it is an
    argument. -/
def compactExpired (now : Int) (order : List String) (g : GrantRecord) : GrantRecord :=
  order.foldl (compactRecord spentKey now) g

inductive IdemOutcome
  | proceed
  | replay (r : IdemRecord)
  | conflict
  | inProgress
  | ambiguous
  | expired
  deriving DecidableEq

/-- What `BeginAction` answers from the records, if it finds the key there. -/
def recordedOutcome (running : List String) (clientID : String) (g : GrantRecord)
    (key bodyHash : String) (now : Int) : Option IdemOutcome :=
  match g.idem.lookup key with
  | some r =>
    if r.bodyHash ≠ bodyHash then some .conflict
    else if r.state = .done ∧ pastRetention r now then some .expired
    else if r.state = .done then some (.replay r)
    else if r.state = .admitted ∧ runKey clientID key ∈ running then some .inProgress
    else some .ambiguous
  | none =>
    match g.spent.lookup (spentKey key) with
    | some body => if body ≠ spentBody bodyHash then some .conflict else some .expired
    | none => none

end Lookup

/-! ## The authority and its disk -/

/-- A running authority. -/
structure Process where
  registry : StoreState
  boot : String
  running : List String
  /-- Set by an ambiguous commit: no new action until a restart. -/
  degraded : Bool

/-- How `commitLocked` ends: `nil`, `errNotCommitted` or `errAmbiguousCommit`. -/
inductive Commit
  | ok
  | notCommitted
  | ambiguous
  deriving DecidableEq

/-- The grants that were ever created, and those that were ever revoked. -/
structure History where
  created : List String
  revoked : List String

/-- The process (if one runs), the contents the disk may have, and what happened so far. -/
structure DirectState where
  process : Option Process
  disk : List StoreState
  history : History

def DirectState.create (s : DirectState) (clientID : String) : DirectState :=
  { s with history := ⟨clientID :: s.history.created, s.history.revoked⟩ }

def DirectState.revoke (s : DirectState) (clientIDs : List String) : DirectState :=
  { s with history := ⟨s.history.created, clientIDs ++ s.history.revoked⟩ }

/-- Errors of `BeginAction`. -/
inductive ActionError
  | authRevoked
  | degraded
  | capacity
  | notCommitted
  | ambiguousCommit
  deriving DecidableEq

/-- The arguments of `BeginAction`, and what it finds: whether the lease has ended, the clock, the
    order of the compaction loop, and how the commit ends. `creation` is what `stampCreation` sets:
    the creation id, the verb, and whether the creation is asynchronous. -/
structure BeginCall where
  clientID : String
  key : String
  bodyHash : String
  peek : Bool
  creation : Option (String × String × Bool)
  leaseEnded : Bool
  now : Int
  order : List String
  commit : Commit

def Process.setGrant (p : Process) (clientID : String) (g : GrantRecord) : Process :=
  { p with registry := ⟨p.registry.grants.insert clientID g⟩ }

def admission (boot : String) (call : BeginCall) : IdemRecord :=
  let r : IdemRecord :=
    { bodyHash := call.bodyHash, state := .admitted, boot := boot, admittedAt := call.now }
  match call.creation with
  | none => r
  | some (creationID, verb, async) =>
    { r with creationID := creationID, verb := verb, async := async }

/-- The end of `BeginAction`: the key is recorded and the registry committed. -/
def admits (p : Process) (disk : List StoreState) (g : GrantRecord) (call : BeginCall) :
    Process × List StoreState × Except ActionError IdemOutcome :=
  let idem := g.idem.insert call.key (admission p.boot call)
  let p' := p.setGrant call.clientID { g with idem := idem }
  match call.commit with
  | .ok =>
    ({ p' with running := runKey call.clientID call.key :: p.running }, [p'.registry],
      .ok .proceed)
  | .notCommitted =>
    (p.setGrant call.clientID { g with idem := idem.erase call.key }, disk,
      .error .notCommitted)
  -- the admitted record stays and is not running: the action never runs blind
  | .ambiguous =>
    ({ p' with degraded := true }, p'.registry :: disk, .error .ambiguousCommit)

/-- `BeginAction`: the process and the disk afterwards, and the verdict. -/
def beginAction (spentKey : String → String) (p : Process) (disk : List StoreState)
    (call : BeginCall) : Process × List StoreState × Except ActionError IdemOutcome :=
  if call.leaseEnded then (p, disk, .error .authRevoked)
  else
    match p.registry.grants.lookup call.clientID with
    | none => (p, disk, .error .authRevoked)
    | some g =>
      if g.revokedAt ≠ 0 then (p, disk, .error .authRevoked)
      else
        let g := compactExpired spentKey call.now call.order g
        let p := p.setGrant call.clientID g
        match recordedOutcome spentKey p.running call.clientID g call.key call.bodyHash
          call.now with
        | some outcome => (p, disk, .ok outcome)
        | none =>
          if call.peek then (p, disk, .ok .proceed)
          else if p.degraded then (p, disk, .error .degraded)
          else if maxIdemPerGrant ≤ g.idem.len then (p, disk, .error .capacity)
          else admits p disk g call

/-- The caller keeps its change whatever becomes of the commit. -/
def commitKept (p : Process) (disk : List StoreState) : Commit → Process × List StoreState
  | .ok => (p, [p.registry])
  | .notCommitted => (p, disk)
  | .ambiguous => ({ p with degraded := true }, p.registry :: disk)

/-- A recorded action is changed by `change` and the registry committed; `undo` is what the caller
    makes of the record when the commit is rolled back. -/
def updateRecord (p : Process) (disk : List StoreState) (clientID key : String)
    (change undo : IdemRecord → IdemRecord) (commit : Commit) : Process × List StoreState :=
  match p.registry.grants.lookup clientID with
  | none => (p, disk)
  | some g =>
    match g.idem.lookup key with
    | none => (p, disk)
    | some r =>
      let put (r : IdemRecord) : Process :=
        p.setGrant clientID { g with idem := g.idem.insert key r }
      match commit with
      | .notCommitted => (put (undo r), disk)
      | c => commitKept (put (change r)) disk c

/-- The ways an action ends: `FinishAction`, `FinishResult`, `FinishCreated`, `AmbiguousAction`. -/
inductive Ending
  | finish (ok : Bool) (code msg : String)
  | result (newID rootID : String) (affected : List String)
  | created (newID rootID incarnation rootIncarnation : String)
  | ambiguous

def Ending.set : Ending → IdemRecord → IdemRecord
  | .finish ok code msg, r => { r with state := .done, ok := ok, code := code, error := msg }
  | .result newID rootID affected, r =>
    { r with state := .done, ok := true, newID := newID, rootID := rootID, affected := affected }
  | .created newID rootID incarnation rootIncarnation, r =>
    { r with
      state := .done, ok := true, newID := newID, rootID := rootID, affected := []
      newIncarnation := incarnation, rootIncarnation := rootIncarnation }
  | .ambiguous, r => { r with state := .unknown }

def endAction (p : Process) (disk : List StoreState) (clientID key : String) (ending : Ending)
    (now : Int) (commit : Commit) : Process × List StoreState :=
  let p := { p with running := p.running.filter fun k => k ≠ runKey clientID key }
  updateRecord p disk clientID key
    (fun r =>
      let r := ending.set r
      if r.creationID ≠ "" then { r with endedAt := now } else r)
    (fun r => r) commit

def abortAction (p : Process) (disk : List StoreState) (clientID key : String) (commit : Commit) :
    Process × List StoreState :=
  let p := { p with running := p.running.filter fun k => k ≠ runKey clientID key }
  match p.registry.grants.lookup clientID with
  | none => (p, disk)
  | some g =>
    match g.idem.lookup key with
    | none => (p, disk)
    | some r =>
      if r.state ≠ .admitted then (p, disk)
      else
        let idem := g.idem.erase key
        match commit with
        -- stays admitted, not running
        | .notCommitted =>
          (p.setGrant clientID { g with idem := idem.insert key r }, disk)
        | c => commitKept (p.setGrant clientID { g with idem := idem }) disk c

def markDispatched (p : Process) (disk : List StoreState) (clientID key : String)
    (leaseEnded : Bool) (now : Int) (commit : Commit) : Process × List StoreState :=
  match p.registry.grants.lookup clientID with
  | none => (p, disk)
  | some g =>
    match g.idem.lookup key with
    | none => (p, disk)
    | some r =>
      if leaseEnded ∨ g.revokedAt ≠ 0 ∨ r.state ≠ .admitted ∨ p.degraded then (p, disk)
      else
        updateRecord p disk clientID key (fun r => { r with dispatchedAt := now })
          (fun r => { r with dispatchedAt := 0 }) commit

def ensureCreationID (p : Process) (disk : List StoreState) (clientID key creationID verb : String)
    (commit : Commit) : Process × List StoreState :=
  match p.registry.grants.lookup clientID with
  | none => (p, disk)
  | some g =>
    match g.idem.lookup key with
    | none => (p, disk)
    | some r =>
      if g.revokedAt ≠ 0 ∨ r.creationID ≠ "" ∨ p.degraded then (p, disk)
      else
        updateRecord p disk clientID key
          (fun r => { r with creationID := creationID, verb := verb })
          (fun r => { r with creationID := "", verb := "" }) commit

/-! ## Grants -/

/-- The part of `markRevokedLocked` that is in the registry. -/
def markRevoked (reason : String) (now : Int) (g : GrantRecord) : GrantRecord :=
  if g.revokedAt = 0 then { g with revokedAt := now, revokeReason := reason } else g

/-- `revokeAllLocked`, on the grants. -/
def revokeAll (reason : String) (now : Int) (st : StoreState) : StoreState :=
  ⟨st.grants.mapVal fun _ g => markRevoked reason now g⟩

/-- `pruneLocked`, on the grants; `leased` are those with an open lease. -/
def pruneGrants (now : Int) (leased : List String) (st : StoreState) : StoreState :=
  ⟨st.grants.filter fun id g =>
    !(g.revokedAt ≠ 0 && now > g.revokedAt + revokedRetention && id ∉ leased)⟩

/-- The grant `Redeem` creates, as far as it is modelled. -/
def newGrant : GrantRecord := ⟨0, "", ∅, ∅⟩

/-- An asynchronous creation that was admitted and never sent. -/
def undispatched (r : IdemRecord) : Bool :=
  r.state = .admitted && r.async && r.dispatchedAt = 0

def normalizeUndispatched (now : Int) (st : StoreState) : StoreState :=
  ⟨st.grants.mapVal fun _ g =>
    { g with idem := g.idem.mapVal fun _ r =>
        if undispatched r then
          { r with state := .done, ok := false, code := codeUnavailable,
                   error := undispatchedError, endedAt := now }
        else r }⟩

/-- Whether `normalizeUndispatched` changed anything. -/
def anyUndispatched (st : StoreState) : Bool :=
  st.grants.entries.any fun e => e.2.idem.entries.any fun r => undispatched r.2

/-! ## Runs -/

/-- One call on the authority, the end of its process, or the start of the next one. -/
inductive DirectEvent
  | begin (call : BeginCall)
  | finish (clientID key : String) (ending : Ending) (now : Int) (commit : Commit)
  | abort (clientID key : String) (commit : Commit)
  | markDispatched (clientID key : String) (leaseEnded : Bool) (now : Int) (commit : Commit)
  | ensureCreationID (clientID key creationID verb : String) (commit : Commit)
  /-- `Redeem`; a client id is random. -/
  | redeem (clientID : String) (now : Int) (commit : Commit)
  | revoke (clientID reason : String) (now : Int) (commit : Commit)
  /-- `ResetIdentity`. -/
  | resetIdentity (now : Int) (commit : Commit)
  | prune (now : Int) (leased : List String)
  /-- The commit of an operation on other parts of the registry. -/
  | commit (commit : Commit)
  | crash
  /-- `loadAuthority` reads the content at this position; `settle` and `revoke` are the outcomes of
      its two saves, the second of which happens when the identity has changed. -/
  | load (content : Nat) (boot : String) (now : Int) (settle : Commit) (identityChanged : Bool)
      (revoke : Commit)

/-- What a save of `loadAuthority` leaves on the disk. -/
def saved (st : StoreState) (disk : List StoreState) : Commit → List StoreState
  | .ok => [st]
  | .notCommitted => disk
  | .ambiguous => st :: disk

namespace DirectState

def moved (s : DirectState) (next : Process × List StoreState) : DirectState :=
  { s with process := some next.1, disk := next.2 }

/-- `Redeem`: a grant whose commit is uncertain is revoked at once. -/
def redeem (s : DirectState) (p : Process) (clientID : String) (now : Int) : Commit → DirectState
  | .ok => s.moved (commitKept (p.setGrant clientID newGrant) s.disk .ok)
  | .notCommitted =>
    s.moved ({ p with registry := ⟨(p.registry.grants.insert clientID newGrant).erase clientID⟩ },
      s.disk)
  | .ambiguous =>
    let revoked := markRevoked "enrollment commit uncertain" now newGrant
    (s.revoke [clientID]).moved ({ p.setGrant clientID revoked with degraded := true },
      (p.setGrant clientID newGrant).registry :: s.disk)

/-- `ResetIdentity`: every failure of the commit degrades the authority. -/
def resetIdentity (s : DirectState) (p : Process) (now : Int) (commit : Commit) : DirectState :=
  let next := commitKept { p with registry := revokeAll "identity reset" now p.registry } s.disk
    commit
  (s.revoke p.registry.grants.keys).moved
    ({ next.1 with degraded := p.degraded || commit ≠ .ok }, next.2)

/-- The end of `loadAuthority`: grants of another identity are revoked before the authority runs. -/
def openLoaded (s : DirectState) (st : StoreState) (disk : List StoreState) (boot : String)
    (now : Int) (identityChanged : Bool) (revoke : Commit) : DirectState :=
  if identityChanged then
    let st' := revokeAll "identity changed" now st
    { s.revoke st.grants.keys with
      process := if revoke = .ok then some ⟨st', boot, [], false⟩ else none
      disk := saved st' disk revoke }
  else { s with process := some ⟨st, boot, [], false⟩, disk := disk }

/-- `loadAuthority`. A save that fails leaves no authority. -/
def load (s : DirectState) (st : StoreState) (boot : String) (now : Int) (settle : Commit)
    (identityChanged : Bool) (revoke : Commit) : DirectState :=
  if anyUndispatched st then
    let st' := normalizeUndispatched now st
    if settle = .ok then s.openLoaded st' [st'] boot now identityChanged revoke
    else { s with disk := saved st' s.disk settle }
  else s.openLoaded st s.disk boot now identityChanged revoke

/-- The verdict of `BeginAction`, if an authority runs. -/
def verdict (spentKey : String → String) (s : DirectState) (call : BeginCall) :
    Option (Except ActionError IdemOutcome) :=
  s.process.map fun p => (beginAction spentKey p s.disk call).2.2

def step (spentKey : String → String) (s : DirectState) (e : DirectEvent) : Option DirectState :=
  match s.process, e with
  | none, .load content boot now settle identityChanged revoke =>
    s.disk[content]?.map fun st => s.load st boot now settle identityChanged revoke
  | none, _ => none
  | some p, .begin call =>
    let next := beginAction spentKey p s.disk call
    some (s.moved (next.1, next.2.1))
  | some p, .finish clientID key ending now commit =>
    some (s.moved (endAction p s.disk clientID key ending now commit))
  | some p, .abort clientID key commit =>
    some (s.moved (abortAction p s.disk clientID key commit))
  | some p, .markDispatched clientID key leaseEnded now commit =>
    some (s.moved (markDispatched p s.disk clientID key leaseEnded now commit))
  | some p, .ensureCreationID clientID key creationID verb commit =>
    some (s.moved (ensureCreationID p s.disk clientID key creationID verb commit))
  | some p, .redeem clientID now commit =>
    if p.degraded ∨ clientID ∈ s.history.created then none
    else some ((s.create clientID).redeem p clientID now commit)
  | some p, .revoke clientID reason now commit =>
    match p.registry.grants.lookup clientID with
    | none => some s
    | some g =>
      some ((s.revoke [clientID]).moved
        (commitKept (p.setGrant clientID (markRevoked reason now g)) s.disk commit))
  | some p, .resetIdentity now commit => some (s.resetIdentity p now commit)
  | some p, .prune now leased =>
    some (s.moved ({ p with registry := pruneGrants now leased p.registry }, s.disk))
  | some p, .commit commit => some (s.moved (commitKept p s.disk commit))
  | some _, .crash => some { s with process := none }
  | some _, .load .. => none

def blank : DirectState := ⟨none, [⟨∅⟩], ⟨[], []⟩⟩

end DirectState

end AgentMultiplexer.Direct
