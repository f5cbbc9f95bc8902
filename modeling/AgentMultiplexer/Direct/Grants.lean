import AgentMultiplexer.Direct.Idempotency

set_option autoImplicit false

/-! # Grants, tokens and leases

The authority of direct access: a client redeems a code for a grant, renews its access with a refresh
token that each use replaces, and every admitted call holds a lease of its grant. Revoking a grant
marks it and its tokens under the lock, commits the mark, and then waits outside the lock for the
leases it found. Every method is a critical section of its own, `Hold` and `Revoke` are two.

Access tokens and leases live in the process only; the registry is on the disk as for the actions of
a grant. Codes and the cloud policy are left out: a redemption here is one whose code is good. -/

namespace AgentMultiplexer.Direct

/-! ## Records -/

def maxUsedRefresh : Nat := 20000

/-- A reading of the clock, after the epoch: a grant that is not revoked has `RevokedAt` 0. -/
abbrev Instant := { n : Int // 0 < n }

/-- `hashToken`: the hexadecimal SHA-256 of a token, which is taken not to collide. -/
structure TokenHash where
  hash : String → String
  injective : Function.Injective hash
  ne_empty : ∀ t, hash t ≠ ""

structure ResourceScope where
  kind : String
  workgroups : List String

/-- `grantRecord`: the part the actions read, and the rest. -/
structure ClientGrant extends GrantRecord where
  perms : List String
  resource : ResourceScope
  identityGeneration : String
  absoluteExpiry : Int
  idleTTL : Int
  lastRefreshAt : Int
  refreshHash : String
  usedRefresh : List String

/-- `storeState`. -/
structure Registry where
  identityGeneration : String
  grants : GoMap String ClientGrant

structure Identity where
  serverID : String
  generation : String

structure AccessRec where
  clientID : String
  exp : Int

/-- `Lease`: what it shows of its grant, whether it is in the authority's set, whether its context
    has ended, and whether its `done` channel is closed. -/
structure LeaseState where
  clientID : String
  perms : List String
  resource : ResourceScope
  expiresAt : Int
  registered : Bool
  ended : Bool
  doneClosed : Bool

/-- A `Revoke` that waits for leases; `persisted` says how its commit ended. -/
structure Drain where
  clientID : String
  leases : List Nat
  persisted : Bool
  returned : Bool

/-- `Lifetimes`, in seconds. -/
structure Lifetimes where
  access : Int
  idle : Int
  absolute : Int

/-- `Authority`. A lease is known by a number. -/
structure Authority where
  registry : Registry
  identity : Identity
  boot : String
  access : GoMap String AccessRec
  tomb : GoMap String Int
  running : List String
  leases : GoMap Nat LeaseState
  closed : Bool
  degraded : Bool
  /-- Clients of the `Hold` calls between their two sections. -/
  holds : List String
  drains : List Drain

structure TokenResponse where
  accessToken : String
  expiresIn : Int
  refreshToken : String
  scope : String
  clientID : String
  serverID : String
  grantExpiresAt : Int
  resourceScope : ResourceScope

namespace Authority

variable (hash : TokenHash) (life : Lifetimes) (a : Authority) (disk : List Registry)

def setGrant (clientID : String) (g : ClientGrant) : Authority :=
  { a with registry := { a.registry with grants := a.registry.grants.insert clientID g } }

/-- `commitLocked`, where the caller keeps its change. -/
def commitKept : Commit → Authority × List Registry
  | .ok => (a, [a.registry])
  | .notCommitted => (a, disk)
  | .ambiguous => ({ a with degraded := true }, a.registry :: disk)

/-- `a.leases[clientID]`. -/
def leasesOf (clientID : String) : List Nat :=
  (a.leases.entries.filter fun e => e.2.clientID = clientID && e.2.registered).map (·.1)

/-- `pruneLocked`, without codes. -/
def prune (now : Int) : Authority :=
  { a with
    registry := { a.registry with
      grants := a.registry.grants.filter fun id g =>
        !(g.revokedAt ≠ 0 && now > g.revokedAt + revokedRetention && a.leasesOf id = []) }
    tomb := a.tomb.filter fun _ exp => now ≤ exp
    access := a.access.filter fun _ rec => now ≤ rec.exp + 3600 }

def issue (clientID : String) (g : ClientGrant) (access refresh : String) (now : Int) :
    Authority × TokenResponse :=
  let a := a.prune now
  let exp := min (now + life.access) g.absoluteExpiry
  ({ a with access := a.access.insert (hash.hash access) ⟨clientID, exp⟩ },
    { accessToken := access, expiresIn := exp - now, refreshToken := refresh
      scope := " ".intercalate g.perms, clientID := clientID, serverID := a.identity.serverID
      grantExpiresAt := g.absoluteExpiry, resourceScope := g.resource })

end Authority

/-! ## Enrollment and rotation -/

/-- The registry part of `markRevokedLocked`. -/
def ClientGrant.markRevoked (reason : String) (now : Int) (g : ClientGrant) : ClientGrant :=
  { g with toGrantRecord := Direct.markRevoked reason now g.toGrantRecord, refreshHash := "" }

/-- `markRevokedLocked`. The leases it returns are `leasesOf`. -/
def Authority.markRevoked (a : Authority) (clientID reason : String) (now : Int) (g : ClientGrant) :
    Authority :=
  { a.setGrant clientID (g.markRevoked reason now) with
    tomb := a.access.entries.foldl
      (fun tomb e => if e.2.clientID = clientID then tomb.insert e.1 e.2.exp else tomb) a.tomb
    access := a.access.filter fun _ rec => rec.clientID ≠ clientID }

/-- What `Redeem` draws, reads and finds. -/
structure RedeemCall where
  access : String
  refresh : String
  clientID : String
  perms : List String
  resource : ResourceScope
  now : Instant
  commit : Commit

def RedeemCall.grant (hash : TokenHash) (life : Lifetimes) (identity : Identity)
    (call : RedeemCall) : ClientGrant where
  revokedAt := 0
  revokeReason := ""
  idem := ∅
  spent := ∅
  perms := call.perms
  resource := call.resource
  identityGeneration := identity.generation
  absoluteExpiry := call.now + life.absolute
  idleTTL := life.idle
  lastRefreshAt := call.now
  refreshHash := hash.hash call.refresh
  usedRefresh := []

/-- Errors of `Redeem` and `Refresh`. `revoked` stands for the texts of `revokeAndUnlock`. -/
inductive TokenError
  | closed
  | degraded
  | invalidCode
  | notCommitted
  | ambiguousCommit
  | revoked (reason : String) (persisted : Bool)

namespace Authority

variable (hash : TokenHash) (life : Lifetimes) (a : Authority) (disk : List Registry)

def issuable : Except TokenError Unit :=
  if a.closed then .error .closed else if a.degraded then .error .degraded else .ok ()

/-- `Redeem`, from the code on. -/
def redeem (call : RedeemCall) : Authority × List Registry × Except TokenError TokenResponse :=
  match a.issuable with
  | .error e => (a, disk, .error e)
  | .ok () =>
    let g := call.grant hash life a.identity
    let a' := a.setGrant call.clientID g
    match call.commit with
    | .ok =>
      let issued := a'.issue hash life call.clientID g call.access call.refresh call.now
      (issued.1, [a'.registry], .ok issued.2)
    | .notCommitted =>
      ({ a with registry := { a.registry with
          grants := (a.registry.grants.insert call.clientID g).erase call.clientID } },
        disk, .error .notCommitted)
    -- the grant that was not returned is revoked
    | .ambiguous =>
      ({ a'.markRevoked call.clientID "enrollment commit uncertain" call.now g with
          degraded := true },
        a'.registry :: disk, .error .ambiguousCommit)

/-- The loop of `Refresh` over the grants, in some order: the client of the token, its grant, and
    whether the token was used before. -/
def findRefresh (grants : GoMap String ClientGrant) (h : String) :
    List String → Option (String × ClientGrant × Bool)
  | [] => none
  | c :: order =>
    match grants.lookup c with
    | none => findRefresh grants h order
    | some g =>
      if g.refreshHash = h then some (c, g, false)
      else if h ∈ g.usedRefresh then some (c, g, true)
      else findRefresh grants h order

/-- What `Refresh` is given, draws, reads and finds. -/
structure RefreshCall where
  token : String
  access : String
  next : String
  now : Instant
  order : List String
  commit : Commit

/-- `revokeAndUnlock`, up to the unlock. -/
def revokeRefresh (clientID reason : String) (g : ClientGrant) (call : RefreshCall) :
    Authority × List Registry × Except TokenError TokenResponse :=
  let next := (a.markRevoked clientID reason call.now g).commitKept disk call.commit
  (next.1, next.2, .error (.revoked reason (call.commit = .ok)))

def rotate (g : ClientGrant) (call : RefreshCall) : ClientGrant :=
  { g with
    usedRefresh := g.usedRefresh ++ [g.refreshHash]
    refreshHash := hash.hash call.next
    lastRefreshAt := call.now }

/-- The rotation in `Refresh`. -/
def rotateGrant (clientID : String) (g : ClientGrant) (call : RefreshCall) :
    Authority × List Registry × Except TokenError TokenResponse :=
  let g' := rotate hash g call
  let a' := a.setGrant clientID g'
  match call.commit with
  | .ok =>
    let issued := a'.issue hash life clientID g' call.access call.next call.now
    (issued.1, [a'.registry], .ok issued.2)
  | .notCommitted =>
    (a.setGrant clientID { g' with
        usedRefresh := g'.usedRefresh.take g.usedRefresh.length
        refreshHash := g.refreshHash
        lastRefreshAt := g.lastRefreshAt },
      disk, .error .notCommitted)
  -- the old token stays consumed and the successor is never returned
  | .ambiguous => ({ a' with degraded := true }, a'.registry :: disk, .error .ambiguousCommit)

def refresh (call : RefreshCall) : Authority × List Registry × Except TokenError TokenResponse :=
  match a.issuable with
  | .error e => (a, disk, .error e)
  | .ok () =>
    match findRefresh a.registry.grants (hash.hash call.token) call.order with
    | none => (a, disk, .error .invalidCode)
    | some (c, g, true) => a.revokeRefresh disk c "refresh token reuse" g call
    | some (c, g, false) =>
      if g.revokedAt ≠ 0 ∨ g.absoluteExpiry ≤ call.now ∨ g.lastRefreshAt + g.idleTTL ≤ call.now ∨
          g.identityGeneration ≠ a.identity.generation then
        (a, disk, .error .invalidCode)
      -- the history of used tokens is never truncated: at the bound the grant ends
      else if maxUsedRefresh ≤ g.usedRefresh.length then
        a.revokeRefresh disk c "refresh rotation limit reached" g call
      else a.rotateGrant hash life disk c g call

end Authority

/-! ## Leases -/

/-- Errors of `Admit`, `GrantLive` and `Hold`. -/
inductive AuthError
  | invalid
  | expired
  | revoked
  | denied
  deriving DecidableEq

def accessTokenPrefix : String := "amxa_"

namespace Authority

variable (hash : TokenHash) (a : Authority)

/-- A lease of the grant, new in the set of its client. -/
def register (lease : Nat) (clientID : String) (g : ClientGrant) (expiresAt : Int) : Authority :=
  { a with
    leases := a.leases.insert lease ⟨clientID, g.perms, g.resource, expiresAt, true, false, false⟩ }

/-- `Admit`: the lease has this number. -/
def admits (lease : Nat) (token perm : String) (now : Int) :
    Except AuthError (Authority × String) :=
  if a.closed then .error .invalid
  else if !accessTokenPrefix.isPrefixOf token then .error .invalid
  else if hash.hash token ∈ a.tomb then .error .revoked
  else
    match a.access.lookup (hash.hash token) with
    | none => .error .invalid
    | some rec =>
      match a.registry.grants.lookup rec.clientID with
      | none => .error .revoked
      | some g =>
        if g.revokedAt ≠ 0 ∨ g.identityGeneration ≠ a.identity.generation then .error .revoked
        else if rec.exp ≤ now then .error .expired
        else if perm ∉ g.perms then .error .denied
        else .ok (a.register lease rec.clientID g rec.exp, rec.clientID)

/-- `GrantLive`; `grantEnded` says the cause of an ended context. -/
def grantLive (l : LeaseState) (perm : String) (grantEnded : Bool) (now : Int) :
    Except AuthError Unit :=
  if a.closed ∨ l.ended then .error (if grantEnded then .expired else .revoked)
  else
    match a.registry.grants.lookup l.clientID with
    | none => .error .revoked
    | some g =>
      if g.revokedAt ≠ 0 ∨ g.identityGeneration ≠ a.identity.generation then .error .revoked
      else if g.absoluteExpiry ≤ now ∨ g.lastRefreshAt + g.idleTTL ≤ now then .error .expired
      else if perm ∉ g.perms then .error .denied
      else .ok ()

/-- The second section of `Hold`. -/
def hold (lease : Nat) (clientID : String) : Except AuthError Authority :=
  match a.registry.grants.lookup clientID with
  | none => .error .revoked
  | some g =>
    if a.closed ∨ g.revokedAt ≠ 0 then .error .revoked
    else .ok (a.register lease clientID g g.absoluteExpiry)

def setLease (lease : Nat) (change : LeaseState → LeaseState) : Option Authority :=
  (a.leases.lookup lease).map fun l => { a with leases := a.leases.insert lease (change l) }

end Authority

/-! ## Actions of a lease -/

section Actions

variable (spentKey : String → String) (a : Authority) (disk : List Registry)

/-- The admission of an action and its commit. -/
def Authority.admitAction (clientID : String) (g : ClientGrant) (call : BeginCall) :
    Authority × List Registry × Except ActionError IdemOutcome :=
  let idem := g.idem.insert call.key (admission a.boot call)
  let a' := a.setGrant clientID { g with idem := idem }
  match call.commit with
  | .ok =>
    ({ a' with running := runKey clientID call.key :: a.running }, [a'.registry], .ok .proceed)
  | .notCommitted =>
    (a.setGrant clientID { g with idem := idem.erase call.key }, disk, .error .notCommitted)
  | .ambiguous => ({ a' with degraded := true }, a'.registry :: disk, .error .ambiguousCommit)

/-- `BeginAction`, on a lease. -/
def Authority.beginAction (l : LeaseState) (call : BeginCall) :
    Authority × List Registry × Except ActionError IdemOutcome :=
  if l.ended then (a, disk, .error .authRevoked)
  else
    match a.registry.grants.lookup l.clientID with
    | none => (a, disk, .error .authRevoked)
    | some g =>
      if g.revokedAt ≠ 0 then (a, disk, .error .authRevoked)
      else
        let g := { g with
          toGrantRecord := compactExpired spentKey call.now call.order g.toGrantRecord }
        let a := a.setGrant l.clientID g
        match recordedOutcome spentKey a.running l.clientID g.toGrantRecord call.key call.bodyHash
          call.now with
        | some outcome => (a, disk, .ok outcome)
        | none =>
          if call.peek then (a, disk, .ok .proceed)
          else if a.degraded then (a, disk, .error .degraded)
          else if maxIdemPerGrant ≤ g.idem.len then (a, disk, .error .capacity)
          else a.admitAction disk l.clientID g call

end Actions

/-! ## Loading -/

/-- `normalizeUndispatched`, on one grant. -/
def settleGrant (now : Int) (g : GrantRecord) : GrantRecord :=
  { g with idem := g.idem.mapVal fun _ r =>
      if undispatched r then
        { r with state := .done, ok := false, code := codeUnavailable,
                 error := undispatchedError, endedAt := now }
      else r }

def Registry.settle (now : Int) (st : Registry) : Registry :=
  { st with grants := st.grants.mapVal fun _ g =>
      { g with toGrantRecord := settleGrant now g.toGrantRecord } }

def Registry.anyUndispatched (st : Registry) : Bool :=
  st.grants.entries.any fun e => e.2.idem.entries.any fun r => undispatched r.2

/-- `revokeAllLocked` and the new generation, in `loadAuthority`. -/
def Registry.adopt (identity : Identity) (now : Int) (st : Registry) : Registry where
  identityGeneration := identity.generation
  grants := st.grants.mapVal fun _ g => g.markRevoked "identity changed" now

/-- An authority that has just loaded its registry. -/
def Authority.fresh (st : Registry) (identity : Identity) (boot : String) : Authority where
  registry := st
  identity := identity
  boot := boot
  access := ∅
  tomb := ∅
  running := []
  leases := ∅
  closed := false
  degraded := false
  holds := []
  drains := []

/-! ## Runs -/

/-- What a call has answered. -/
inductive Outcome
  | enrolled (clientID refresh : String)
  | refreshed (token clientID next : String)
  /-- The commit of a rotation was ambiguous. -/
  | uncertain (token clientID next : String)
  | admitted (clientID : String)
  | held (clientID : String)
  | began (clientID : String)
  /-- `Revoke` has returned `nil`. -/
  | revoked (clientID : String)
  deriving DecidableEq

/-- The authority (if one runs), the contents the disk may have, the clients and the refresh tokens
    drawn so far, and the answers, the last one first. -/
structure GrantState where
  process : Option Authority
  disk : List Registry
  created : List String
  drawn : List (String × String)
  log : List Outcome

inductive GrantEvent
  /-- `Redeem`; the client id and the tokens are random. -/
  | redeem (call : RedeemCall)
  | refresh (call : Authority.RefreshCall)
  | revoke (clientID reason : String) (now : Instant) (commit : Commit)
  /-- A `Revoke` finds the leases it waits for done, or gives up waiting. -/
  | drained (i : Nat)
  | drainTimeout (i : Nat)
  /-- A new lease has a number of its own. -/
  | admits (lease : Nat) (token perm : String) (now : Int)
  /-- The two sections of `Hold`. -/
  | grantLive (lease : Nat) (perm : String) (grantEnded : Bool) (now : Int)
  | hold (lease : Nat) (clientID : String)
  /-- The context of a lease ends. -/
  | endLease (lease : Nat)
  /-- `Lease.Done`: the critical section, and the end of it. -/
  | done (lease : Nat)
  | closeDone (lease : Nat)
  | begin (lease : Nat) (call : BeginCall)
  /-- An operation on other parts of the registry, which prunes and commits. -/
  | other (now : Int) (commit : Commit)
  | close
  | crash
  /-- `loadAuthority` reads the content at this position and this identity; `settle` and `revoke`
      are the outcomes of its saves. -/
  | load (content : Nat) (identity : Identity) (boot : String) (now : Instant)
      (settle revoke : Commit)

namespace GrantState

variable (hash : TokenHash) (life : Lifetimes) (spentKey : String → String) (s : GrantState)

def moved (next : Authority × List Registry) : GrantState :=
  { s with process := some next.1, disk := next.2 }

def logged (o : Outcome) : GrantState := { s with log := o :: s.log }

/-- A client or token that was never drawn. -/
def Unused (clientID : String) : Prop := clientID ∉ s.created

def Undrawn (token : String) : Prop := token ∉ s.drawn.map Prod.fst

instance (clientID : String) : Decidable (s.Unused clientID) :=
  inferInstanceAs (Decidable (_ ∉ _))

instance (token : String) : Decidable (s.Undrawn token) := inferInstanceAs (Decidable (_ ∉ _))

def redeem (a : Authority) (call : RedeemCall) : GrantState :=
  let next := a.redeem hash life s.disk call
  let s := { s with
    created := call.clientID :: s.created, drawn := (call.refresh, call.clientID) :: s.drawn }
  match next.2.2 with
  | .ok _ => (s.moved (next.1, next.2.1)).logged (.enrolled call.clientID call.refresh)
  | .error _ => s.moved (next.1, next.2.1)

def refresh (a : Authority) (call : Authority.RefreshCall) : GrantState :=
  let next := a.refresh hash life s.disk call
  match Authority.findRefresh a.registry.grants (hash.hash call.token) call.order with
  | none => s.moved (next.1, next.2.1)
  | some (c, _, _) =>
    let s := { s with drawn := (call.next, c) :: s.drawn }
    match next.2.2 with
    | .ok _ => (s.moved (next.1, next.2.1)).logged (.refreshed call.token c call.next)
    | .error .ambiguousCommit =>
      (s.moved (next.1, next.2.1)).logged (.uncertain call.token c call.next)
    | .error _ => s.moved (next.1, next.2.1)

/-- The critical section of `Revoke`. -/
def revoke (a : Authority) (clientID reason : String) (now : Instant) (commit : Commit) :
    GrantState :=
  match a.registry.grants.lookup clientID with
  | none => s
  | some g =>
    let next := (a.markRevoked clientID reason now g).commitKept s.disk commit
    let drain : Drain := ⟨clientID, a.leasesOf clientID, commit = .ok, false⟩
    s.moved ({ next.1 with drains := next.1.drains ++ [drain] }, next.2)

/-- `drain` and the end of `Revoke`. -/
def drained (a : Authority) (i : Nat) (timeout : Bool) : Option GrantState := do
  let d ← a.drains[i]?
  if d.returned then none
  else
    let s := s.moved ({ a with drains := a.drains.set i { d with returned := true } }, s.disk)
    if timeout then some s
    else if d.leases.all fun l => (a.leases.lookup l).any LeaseState.doneClosed then
      some (if d.persisted then s.logged (.revoked d.clientID) else s)
    else none

/-- The end of `loadAuthority`. -/
def openLoaded (st : Registry) (disk : List Registry) (identity : Identity) (boot : String)
    (now : Instant) (revoke : Commit) : GrantState :=
  if st.identityGeneration ≠ identity.generation then
    let st' := st.adopt identity now
    { s with
      process := if revoke = .ok then some (.fresh st' identity boot) else none
      disk := match revoke with
        | .ok => [st']
        | .notCommitted => disk
        | .ambiguous => st' :: disk }
  else { s with process := some (.fresh st identity boot), disk := disk }

/-- `loadAuthority`. A save that fails leaves no authority. -/
def load (st : Registry) (identity : Identity) (boot : String) (now : Instant)
    (settle revoke : Commit) : GrantState :=
  if st.anyUndispatched then
    let st' := st.settle now
    match settle with
    | .ok => s.openLoaded st' [st'] identity boot now revoke
    | .notCommitted => s
    | .ambiguous => { s with disk := st' :: s.disk }
  else s.openLoaded st s.disk identity boot now revoke

def step (e : GrantEvent) : Option GrantState :=
  match s.process, e with
  | none, .load content identity boot now settle revoke =>
    s.disk[content]?.map fun st => s.load st identity boot now settle revoke
  | none, _ => none
  | some a, .redeem call =>
    if s.Unused call.clientID ∧ s.Undrawn call.refresh then some (s.redeem hash life a call)
    else none
  | some a, .refresh call =>
    if s.Undrawn call.next ∧ call.order.isPerm a.registry.grants.keys then
      some (s.refresh hash life a call)
    else none
  | some a, .revoke clientID reason now commit => some (s.revoke a clientID reason now commit)
  | some a, .drained i => s.drained a i false
  | some a, .drainTimeout i => s.drained a i true
  | some a, .admits lease token perm now =>
    if lease ∈ a.leases then none
    else
      match a.admits hash lease token perm now with
      | .error _ => some s
      | .ok (a, clientID) => some ((s.moved (a, s.disk)).logged (.admitted clientID))
  | some a, .grantLive lease perm grantEnded now =>
    (a.leases.lookup lease).map fun l =>
      match a.grantLive l perm grantEnded now with
      | .error _ => s
      | .ok () => s.moved ({ a with holds := l.clientID :: a.holds }, s.disk)
  | some a, .hold lease clientID =>
    if lease ∈ a.leases ∨ clientID ∉ a.holds then none
    else
      let a := { a with holds := a.holds.erase clientID }
      match a.hold lease clientID with
      | .error _ => some (s.moved (a, s.disk))
      | .ok a => some ((s.moved (a, s.disk)).logged (.held clientID))
  | some a, .endLease lease =>
    (a.setLease lease fun l => { l with ended := true }).map fun a => s.moved (a, s.disk)
  | some a, .done lease =>
    (a.setLease lease fun l => { l with registered := false }).map fun a => s.moved (a, s.disk)
  | some a, .closeDone lease =>
    (a.setLease lease fun l =>
      if l.registered then l else { l with ended := true, doneClosed := true }).map fun a =>
        s.moved (a, s.disk)
  | some a, .begin lease call =>
    (a.leases.lookup lease).map fun l =>
      let next := a.beginAction spentKey s.disk l call
      match next.2.2 with
      | .ok _ => (s.moved (next.1, next.2.1)).logged (.began l.clientID)
      | .error _ => s.moved (next.1, next.2.1)
  | some a, .other now commit => some (s.moved ((a.prune now).commitKept s.disk commit))
  | some a, .close => some (s.moved ({ a with closed := true }, s.disk))
  | some _, .crash => some { s with process := none }
  | some _, .load .. => none

def blank (generation : String) : GrantState := ⟨none, [⟨generation, ∅⟩], [], [], []⟩

end GrantState

end AgentMultiplexer.Direct
