import AgentMultiplexer.SessionRpc.Mailbox
import AgentMultiplexer.Theory.Totals

set_option autoImplicit false

/-! # Responses and their receipts

The second half of `processClaimed`, which the mailbox machine leaves to its events: the capacity of
`responses/`, the budget shared by all mailboxes of the daemon, and the receipts a dispatched
operation can demand. An operation reserves room for the largest response, is dispatched, publishes
its response and, if the dispatcher returned hooks, registers a pending receipt. The hooks are
settled by whoever ends up with them: the lane itself when the response fails, the lane that
processes the client's receipt, the goroutine that looks for expired receipts, or `Close`.

The machine has four parties: the fast lane, the slow lane, the settlement goroutine and `Close`.
Its events are the sections between which the others can move: a scan of the directory or a write
under `publishMu`, an operation of the pending table under `mu`, an operation of the budget, a
callback. What a party took out of the pending table and has yet to settle is its list of owed
settlements; it goes on only when that list is empty.

The age cleanup is taken to leave responses alone whose receipt is still outstanding:
`State.outlived`. -/

namespace AgentMultiplexer.SessionRpc.Receipts

open Access Option

/-! ## Limits -/

def maxQueuedRequests : Nat := 128
def maxPendingReceipts : Nat := maxQueuedRequests
def maxResponseFiles : Nat := maxQueuedRequests
def maxEnvelopeFileBytes : Nat := (maxBodyBytes + 2) / 3 * 4 + 8 * 2 ^ 10
def maxResponseBytes : Nat := 8 * 2 ^ 20

/-- Durations in nanoseconds. -/
def maxReceiptGrace : Int := 30 * 10 ^ 9
def defaultReceiptGrace : Int := 3 * 10 ^ 9

/-! ## Records -/

/-- `ReceiptHooks`: which of the two callbacks are present. -/
structure ReceiptHooks where
  grace : Int
  responsePersisted : Bool
  settled : Bool
  deriving DecidableEq

/-- What `Dispatch` returned, as far as `processClaimed` judges it: an error, a result whose status,
    code and body are within bounds, a status that is `ok` or empty, and the hooks. -/
structure DispatchResult where
  failed : Bool
  valid : Bool
  ok : Bool
  receipt : Option ReceiptHooks

/-- The hooks that are still in force when the response is built. -/
def DispatchResult.keptHooks (result : DispatchResult) : Option ReceiptHooks :=
  if result.failed then none
  else if !result.valid || result.receipt.any fun hooks => !result.ok || !hooks.settled then none
  else result.receipt

inductive SettlementReason
  | receipt
  | graceExpired
  | responseFailed
  | serverClosed

/-- Hooks together with the number of the dispatch that returned them. -/
structure Held where
  dispatch : Nat
  hooks : ReceiptHooks
  deriving DecidableEq

structure PendingReceipt where
  principal : Principal
  digest : String
  deadline : Int
  held : Held
  ready : Bool
  expired : Bool

/-- A call of `settle` or `settleHooks` that a party still has to make. -/
structure Settlement where
  requestID : String
  held : Held
  received : Bool
  reason : SettlementReason

/-- A file of `responses/`. -/
structure ResponseFile where
  size : Nat
  receiptRequired : Bool

/-- `registerReceipt`: the grace period in force. -/
def ReceiptHooks.clampedGrace (hooks : ReceiptHooks) : Int :=
  let grace := if hooks.grace ≤ 0 then defaultReceiptGrace else hooks.grace
  if grace > maxReceiptGrace then maxReceiptGrace else grace

/-! ## The response budget of the daemon -/

/-- `sessionResponseLeaseState`; a released lease is no longer in the table. -/
structure Lease where
  reservedBytes : Nat
  receipt : Bool
  committed : Bool

/-- `Commit`: an uncommitted lease shrinks to the size of the response. -/
def Lease.commit (lease : Lease) (size : Nat) (receiptPending : Bool) : Lease where
  reservedBytes :=
    if 0 < size ∧ size < lease.reservedBytes then size else lease.reservedBytes
  receipt := lease.receipt && receiptPending
  committed := true

/-- `sessionResponseBudget`, seen from one mailbox: its own leases by request id, and what the
    leases of the other subjects add up to. The three counters of the source are the sums. -/
structure Budget where
  leases : GoMap String Lease
  otherFiles : Nat
  otherBytes : Nat
  otherReceipts : Nat

namespace Budget

/-- Files, bytes and receipt slots in use. -/
def files (b : Budget) : Nat := b.leases.len + b.otherFiles
def bytes (b : Budget) : Nat := b.leases.total Lease.reservedBytes + b.otherBytes
def receipts (b : Budget) : Nat := b.leases.total (fun l => l.receipt.toNat) + b.otherReceipts

/-- `ReserveResponse` for a new operation, with the limits of `newSessionResponseBudget`. -/
def reserveResponse (b : Budget) (id : String) : Option Budget :=
  if (b.leases.lookup id).isSome then none
  else if maxResponseFiles ≤ b.files ∨ maxResponseBytes < maxEnvelopeFileBytes + b.bytes ∨
      maxPendingReceipts ≤ b.receipts then none
  else some { b with leases := b.leases.insert id ⟨maxEnvelopeFileBytes, true, false⟩ }

def commit (b : Budget) (id : String) (size : Nat) (receiptPending : Bool) : Budget :=
  match b.leases.lookup id with
  | some lease =>
    if lease.committed then b
    else { b with leases := b.leases.insert id (lease.commit size receiptPending) }
  | none => b

/-- `releaseReceiptLease`: only committed leases are in the server's table. -/
def releaseReceipt (b : Budget) (id : String) : Budget :=
  match b.leases.lookup id with
  | some lease =>
    if lease.committed then
      { b with leases := b.leases.insert id { lease with receipt := false } }
    else b
  | none => b

/-- `releaseResponseLease`, with `committed`, and `responseReservation.release`, without. -/
def release (b : Budget) (id : String) (committed : Bool) : Budget :=
  match b.leases.lookup id with
  | some lease =>
    if lease.committed = committed then { b with leases := b.leases.erase id } else b
  | none => b

end Budget

/-! ## The parties -/

inductive Lane
  | fast
  | slow
  deriving DecidableEq

inductive Party
  | lane (l : Lane)
  | settler
  | closer
  deriving DecidableEq

/-- The operation a response answers: the principal, the number of the dispatch, and the hooks
    that come with the response. -/
structure Answer where
  principal : Principal
  dispatch : Nat
  hooks : Option ReceiptHooks
  deriving DecidableEq

/-- Where a lane stands with the request it processes. -/
inductive Phase
  | idle
  /-- `reserveResponse`: before the scan of the directory, and between the scan and the budget. -/
  | reserving (id : String)
  | leasing (id : String)
  /-- Room is reserved; `Verify`, the validation of the call and `Authorize` follow. -/
  | verifying (id : String)
  | admitting (id : String) (principal : Principal)
  | dispatching (id : String) (principal : Principal)
  /-- A response is to be published: the answer to a dispatched operation or a refusal. -/
  | publishing (id : String) (answer : Option Answer)
  /-- The three sections of `registerReceipt`. -/
  | registering (id : String) (principal : Principal) (held : Held)
  | persisting (id : String) (held : Held)
  | readying (id : String)
  /-- The deferred release of the reservation, if it still holds its lease. -/
  | ending (lease : Option String)
  /-- A receipt call: before `acceptReceipt`, before the response is unlinked, and before its lease
      is released. -/
  | receiving (principal : Principal) (receipt : Receipt)
  | retiring (id : String)
  | freeing (id : String)
  /-- A release call: before the look at the pending table and before the response is read. -/
  | releasing (id : String)
  | dropping (id : String)
  deriving DecidableEq

/-- The stages of `Close`: not called, `closed` set, the slow lane joined and the pending table
    swapped, the settlement goroutine joined, returned. -/
inductive Closing
  | notCalled
  | joining
  | swapped
  | settling
  | returned
  deriving DecidableEq

/-- The mailbox server. The last six fields are history: how many dispatches returned, those that
    returned hooks with a `Settled` callback, the runs of the two callbacks, and the dispatches
    whose response failed to be published, for any reason and for lack of capacity. -/
structure State where
  responses : GoMap String ResponseFile
  pending : GoMap String PendingReceipt
  budget : Option Budget
  phase : Lane → Phase
  owed : Party → List Settlement
  closing : Closing
  slowDone : Bool
  settlementDone : Bool
  dispatches : Nat
  mandatory : List Nat
  settled : List Nat
  persisted : List Nat
  failed : List Nat
  refused : List Nat

/-- A server that found these responses in its directory and has adopted them into the budget. -/
def State.initial (responses : GoMap String ResponseFile) (budget : Option Budget) : State where
  responses := responses
  pending := ∅
  budget := budget
  phase := fun _ => .idle
  owed := fun _ => []
  closing := .notCalled
  slowDone := false
  settlementDone := false
  dispatches := 0
  mandatory := []
  settled := []
  persisted := []
  failed := []
  refused := []

/-- How the publication of a response goes: it cannot be signed or encoded, or it comes to a write
    of this many bytes. A write that fails after the rename keeps its lease if the file is found. -/
inductive Attempt
  | unsigned
  | write (size : Nat) (outcome : WriteOutcome) (found : Bool)

inductive Event
  | claim (l : Lane) (id : String)
  | claimReceipt (l : Lane) (principal : Principal) (receipt : Receipt)
  | claimRelease (l : Lane) (id : String)
  | reserve (l : Lane)
  /-- `cancelled`: the context has ended. -/
  | lease (l : Lane) (cancelled : Bool)
  /-- The principal of an authorized operation, or a refusal. -/
  | verify (l : Lane) (principal : Option Principal)
  | admits (l : Lane)
  | dispatch (l : Lane) (result : DispatchResult)
  | publish (l : Lane) (attempt : Attempt)
  | register (l : Lane) (digest : String) (now : Int)
  | persist (l : Lane)
  | ready (l : Lane) (now : Int)
  | finish (l : Lane)
  | accept (l : Lane) (now : Int)
  | retire (l : Lane) (unlinked : Bool)
  | free (l : Lane)
  | look (l : Lane)
  /-- `proved`: the release names the response's key, generation, boot and digest. -/
  | drop (l : Lane) (proved : Bool)
  /-- `settleExpired`, at the start of a pass or by the settlement goroutine. -/
  | expire (p : Party) (now : Int)
  | settle (p : Party)
  | cleanup (id : String)
  | others (files bytes receipts : Nat)
  | close
  | slowExit
  | swap
  | settlerExit
  | joinSettler
  | closeReturn

/-- What follows a response that is on disk: the registration of its receipt, if it has one. -/
def Answer.next (id : String) : Option Answer → Phase
  | some ⟨principal, dispatch, some hooks⟩ => .registering id principal ⟨dispatch, hooks⟩
  | _ => .ending none

namespace State

/-! ## Sections -/

def enter (s : State) (l : Lane) (p : Phase) : State :=
  { s with phase := Function.update s.phase l p }

/-- The phase of a lane that is not in the middle of settling. -/
def atWork (s : State) (l : Lane) : Option Phase :=
  if s.owed (.lane l) = [] then some (s.phase l) else none

def ensureResponseCapacity (s : State) (additional : Nat) : Bool :=
  s.responses.len < maxResponseFiles &&
    s.responses.total ResponseFile.size + additional ≤ maxResponseBytes

def receiptCapacity (s : State) : Bool :=
  s.closing = .notCalled && s.pending.len < maxPendingReceipts

/-- May the lane start on another request? -/
def serves (s : State) : Lane → Bool
  | .fast => s.closing = .notCalled
  | .slow => !s.slowDone

/-- `settleHooks` after a failure. -/
def failedSettlement (id : String) (dispatch : Nat) (hooks : Option ReceiptHooks) :
    List Settlement :=
  match hooks with
  | some hooks => [⟨id, ⟨dispatch, hooks⟩, false, .responseFailed⟩]
  | none => []

/-- `Dispatch` returned, and its result is judged. -/
def dispatched (s : State) (l : Lane) (id : String) (principal : Principal)
    (result : DispatchResult) : State :=
  { s with
    phase := Function.update s.phase l
      (.publishing id (some ⟨principal, s.dispatches, result.keptHooks⟩))
    owed := Function.update s.owed (.lane l)
      (if result.keptHooks.isSome then [] else failedSettlement id s.dispatches result.receipt)
    dispatches := s.dispatches + 1
    mandatory := if result.receipt.any (·.settled) then s.mandatory ++ [s.dispatches]
      else s.mandatory }

/-- `publishResponse` returned an error. -/
def failPublication (s : State) (l : Lane) (id : String) (answer : Option Answer) : State :=
  match answer with
  | none => s.enter l (.ending (some id))
  | some a =>
    { s with
      phase := Function.update s.phase l (.ending (some id))
      owed := Function.update s.owed (.lane l) (failedSettlement id a.dispatch a.hooks)
      failed := s.failed ++ [a.dispatch] }

/-- `publishResponse`. -/
def publish (s : State) (l : Lane) (id : String) (answer : Option Answer) :
    Attempt → Option State
  | .unsigned => some (s.failPublication l id answer)
  | .write size outcome found =>
    let file : ResponseFile := ⟨size, (answer.bind Answer.hooks).isSome⟩
    if size = 0 ∨ maxEnvelopeFileBytes < size then none
    else if !s.ensureResponseCapacity size then
      some { s.failPublication l id answer with
        refused := s.refused ++ (answer.map Answer.dispatch).toList }
    else if (s.responses.lookup id).isSome then some (s.failPublication l id answer)
    else match outcome with
      | .failed => some (s.failPublication l id answer)
      | .unsynced =>
        some { s.failPublication l id answer with
          responses := s.responses.insert id file
          budget := if found then s.budget.map (·.commit id size false) else s.budget
          phase := Function.update s.phase l (.ending (if found then none else some id)) }
      | .ok =>
        some { s with
          responses := s.responses.insert id file
          budget := s.budget.map (·.commit id size file.receiptRequired)
          phase := Function.update s.phase l (Answer.next id answer) }

/-- `registerReceipt`, before the callback. -/
def register (s : State) (l : Lane) (id : String) (principal : Principal) (held : Held)
    (digest : String) (now : Int) : State :=
  { s with
    pending := s.pending.insert id
      ⟨principal, digest, now + held.hooks.clampedGrace, held, false, false⟩
    phase := Function.update s.phase l (.persisting id held) }

/-- `registerReceipt`, the callback. -/
def persist (s : State) (l : Lane) (id : String) (held : Held) : State :=
  { s with
    persisted := if held.hooks.responsePersisted then s.persisted ++ [held.dispatch]
      else s.persisted
    phase := Function.update s.phase l (.readying id) }

/-- Take a receipt out of the pending table, to settle it. -/
def take (s : State) (l : Lane) (id : String) (entry : PendingReceipt) (received : Bool)
    (reason : SettlementReason) (p : Phase) : State :=
  { s with
    pending := s.pending.erase id
    owed := Function.update s.owed (.lane l) [⟨id, entry.held, received, reason⟩]
    phase := Function.update s.phase l p }

/-- `registerReceipt`, after the callback. -/
def ready (s : State) (l : Lane) (id : String) (now : Int) : State :=
  match s.pending.lookup id with
  | none => s.enter l (.ending none)
  | some entry =>
    if entry.expired ∨ entry.deadline ≤ now then
      s.take l id { entry with ready := true } false .graceExpired (.ending none)
    else
      { s with
        pending := s.pending.insert id { entry with ready := true }
        phase := Function.update s.phase l (.ending none) }

/-- `acceptReceipt`. -/
def accept (s : State) (l : Lane) (principal : Principal) (receipt : Receipt) (now : Int) :
    State :=
  match s.pending.lookup receipt.requestID with
  | none => s.enter l .idle
  | some entry =>
    if entry.digest ≠ receipt.responseDigest ∨
        entry.principal.subjectID ≠ principal.subjectID ∨
        entry.principal.keyID ≠ principal.keyID ∨
        entry.principal.generation ≠ principal.generation then s.enter l .idle
    else if entry.deadline ≤ now then
      s.take l receipt.requestID entry false .graceExpired .idle
    else s.take l receipt.requestID entry true .receipt (.retiring receipt.requestID)

/-- Is the receipt to be settled by a look at this time? -/
def due (now : Int) (entry : PendingReceipt) : Bool := entry.deadline ≤ now && entry.ready

/-- `settleExpired`, the section: receipts that are due are taken out, those whose registration is
    still under way are marked. -/
def expire (s : State) (p : Party) (now : Int) : State :=
  { s with
    pending := (s.pending.filter fun _ entry => !due now entry).mapVal fun _ entry =>
      if entry.deadline ≤ now then { entry with expired := true } else entry
    owed := Function.update s.owed p
      ((s.pending.filter fun _ entry => !!due now entry).entries.map fun e =>
        ⟨e.1, e.2.held, false, .graceExpired⟩) }

/-- `settle` and `settleHooks`: release the receipt's slot in the budget, then run the callback. -/
def settle (s : State) (p : Party) (first : Settlement) (rest : List Settlement) : State :=
  { s with
    budget := s.budget.map (·.releaseReceipt first.requestID)
    owed := Function.update s.owed p rest
    settled := if first.held.hooks.settled then s.settled ++ [first.held.dispatch] else s.settled }

/-- `Close`: the pending table is swapped for an empty one. -/
def swap (s : State) : State :=
  { s with
    pending := ∅
    owed := Function.update s.owed .closer
      (s.pending.entries.map fun e => ⟨e.1, e.2.held, false, .serverClosed⟩)
    closing := .swapped }

end State

/-- The response a lane is about to put under a receipt, or to unlink because of one. -/
def Phase.keeps : Phase → Option String
  | .registering id _ _ => some id
  | .retiring id => some id
  | _ => none

/-- Whether the age cleanup may take the response. `cleanupResponses` asks for its age only, a minute;
    a receipt is due half a minute after its response at the latest. That it has been settled by the
    time of the cleanup is the assumption here. -/
def State.outlived (s : State) (id : String) : Bool :=
  (s.pending.lookup id).isNone && (s.phase .fast).keeps ≠ some id && (s.phase .slow).keeps ≠ some id

/-- May the party run `settleExpired`? -/
def State.looks (s : State) : Party → Bool
  | .lane .fast => s.closing = .notCalled && s.phase .fast = .idle && s.owed (.lane .fast) = []
  | .settler => !s.settlementDone && s.owed .settler = []
  | _ => false

open State in
def step (s : State) : Event → Option State
  | .claim l id =>
    match s.atWork l with
    | some .idle => if s.serves l then some (s.enter l (.reserving id)) else none
    | _ => none
  | .claimReceipt l principal receipt =>
    match s.atWork l with
    | some .idle => if s.serves l then some (s.enter l (.receiving principal receipt)) else none
    | _ => none
  | .claimRelease l id =>
    match s.atWork l with
    | some .idle => if s.serves l then some (s.enter l (.releasing id)) else none
    | _ => none
  | .reserve l =>
    match s.atWork l with
    | some (.reserving id) =>
      some (s.enter l
        (if s.ensureResponseCapacity maxEnvelopeFileBytes then .leasing id else .idle))
    | _ => none
  | .lease l cancelled =>
    match s.atWork l with
    | some (.leasing id) =>
      match s.budget with
      | none => some (s.enter l (.verifying id))
      | some budget =>
        match if cancelled then none else budget.reserveResponse id with
        | none => some (s.enter l .idle)
        | some budget' => some { s.enter l (.verifying id) with budget := some budget' }
    | _ => none
  | .verify l principal =>
    match s.atWork l with
    | some (.verifying id) =>
      some (s.enter l (match principal with
        | none => .publishing id none
        | some principal => .admitting id principal))
    | _ => none
  | .admits l =>
    match s.atWork l with
    | some (.admitting id principal) =>
      some (s.enter l
        (if s.receiptCapacity then .dispatching id principal else .publishing id none))
    | _ => none
  | .dispatch l result =>
    match s.atWork l with
    | some (.dispatching id principal) => some (s.dispatched l id principal result)
    | _ => none
  | .publish l attempt =>
    match s.atWork l with
    | some (.publishing id answer) => s.publish l id answer attempt
    | _ => none
  | .register l digest now =>
    match s.atWork l with
    | some (.registering id principal held) => some (s.register l id principal held digest now)
    | _ => none
  | .persist l =>
    match s.atWork l with
    | some (.persisting id held) => some (s.persist l id held)
    | _ => none
  | .ready l now =>
    match s.atWork l with
    | some (.readying id) => some (s.ready l id now)
    | _ => none
  | .finish l =>
    match s.atWork l with
    | some (.ending none) => some (s.enter l .idle)
    | some (.ending (some id)) =>
      some { s.enter l .idle with budget := s.budget.map (·.release id false) }
    | _ => none
  | .accept l now =>
    match s.atWork l with
    | some (.receiving principal receipt) => some (s.accept l principal receipt now)
    | _ => none
  | .retire l unlinked =>
    match s.atWork l with
    | some (.retiring id) =>
      if unlinked then
        some { s.enter l (.freeing id) with responses := s.responses.erase id }
      else some (s.enter l .idle)
    | _ => none
  | .free l =>
    match s.atWork l with
    | some (.freeing id) =>
      some { s.enter l .idle with budget := s.budget.map (·.release id true) }
    | _ => none
  | .look l =>
    match s.atWork l with
    | some (.releasing id) =>
      some (s.enter l (if (s.pending.lookup id).isSome then .idle else .dropping id))
    | _ => none
  | .drop l proved =>
    match s.atWork l with
    | some (.dropping id) =>
      match s.responses.lookup id with
      | some file =>
        if proved && !file.receiptRequired then
          some { s.enter l (.freeing id) with responses := s.responses.erase id }
        else some (s.enter l .idle)
      | none => some (s.enter l .idle)
    | _ => none
  | .expire p now => if s.looks p then some (s.expire p now) else none
  | .settle p =>
    match s.owed p with
    | [] => none
    | first :: rest => if p = .closer ∧ s.closing ≠ .settling then none
        else some (s.settle p first rest)
  | .cleanup id =>
    if (s.responses.lookup id).isSome ∧ s.outlived id then
      some { s with
        responses := s.responses.erase id
        budget := s.budget.map (·.release id true) }
    else none
  | .others files bytes receipts =>
    some { s with budget := s.budget.map fun b =>
      { b with otherFiles := files, otherBytes := bytes, otherReceipts := receipts } }
  | .close =>
    if s.closing = .notCalled ∧ s.phase .fast = .idle ∧ s.owed (.lane .fast) = [] then
      some { s with closing := .joining }
    else none
  | .slowExit =>
    if s.closing = .joining ∧ s.phase .slow = .idle ∧ s.owed (.lane .slow) = [] then
      some { s with slowDone := true }
    else none
  | .swap => if s.closing = .joining ∧ s.slowDone = true then some s.swap else none
  | .settlerExit =>
    if s.closing = .swapped ∧ s.owed .settler = [] then some { s with settlementDone := true }
    else none
  | .joinSettler =>
    if s.closing = .swapped ∧ s.settlementDone = true then
      some { s with closing := .settling }
    else none
  | .closeReturn =>
    if s.closing = .settling ∧ s.owed .closer = [] then some { s with closing := .returned }
    else none

/-! ## What a section does -/

/-- The sections that move a lane from one phase to another and change nothing else. -/
inductive Walk (s : State) (l : Lane) : Phase → Phase → Prop
  | claim (id : String) (h : s.serves l = true) : Walk s l .idle (.reserving id)
  | claimReceipt (principal : Principal) (receipt : Receipt) (h : s.serves l = true) :
      Walk s l .idle (.receiving principal receipt)
  | claimRelease (id : String) (h : s.serves l = true) : Walk s l .idle (.releasing id)
  | scanned (id : String) : Walk s l (.reserving id) (.leasing id)
  | full (id : String) : Walk s l (.reserving id) .idle
  | unlimited (id : String) (h : s.budget = none) : Walk s l (.leasing id) (.verifying id)
  | unleased (id : String) : Walk s l (.leasing id) .idle
  | refuse (id : String) : Walk s l (.verifying id) (.publishing id none)
  | authorize (id : String) (principal : Principal) :
      Walk s l (.verifying id) (.admitting id principal)
  | admits (id : String) (principal : Principal) :
      Walk s l (.admitting id principal) (.dispatching id principal)
  | noReceipts (id : String) (principal : Principal) :
      Walk s l (.admitting id principal) (.publishing id none)
  | gone (id : String) : Walk s l (.readying id) (.ending none)
  | ended : Walk s l (.ending none) .idle
  | invalid (principal : Principal) (receipt : Receipt) :
      Walk s l (.receiving principal receipt) .idle
  | unretired (id : String) : Walk s l (.retiring id) .idle
  | awaited (id : String) : Walk s l (.releasing id) .idle
  | looked (id : String) : Walk s l (.releasing id) (.dropping id)
  | undropped (id : String) : Walk s l (.dropping id) .idle

/-- The sections that take a receipt out of the pending table. -/
inductive Takes (id : String) : Phase → Phase → Prop
  | ready : Takes id (.readying id) (.ending none)
  | late (principal : Principal) (digest : String) :
      Takes id (.receiving principal ⟨id, digest⟩) .idle
  | accept (principal : Principal) (digest : String) :
      Takes id (.receiving principal ⟨id, digest⟩) (.retiring id)

/-- The sections that unlink a response, here the one found under the id. -/
inductive Unlinks (file : Option ResponseFile) (id : String) : Phase → Prop
  | retire : Unlinks file id (.retiring id)
  | drop (f : ResponseFile) (hf : file = some f) (hopt : f.receiptRequired = false) :
      Unlinks file id (.dropping id)

/-- The sections that release a lease: one that was not committed, or one that was. -/
inductive Frees (id : String) : Phase → Bool → Prop
  | finish : Frees id (.ending (some id)) false
  | free : Frees id (.freeing id) true

/-- What one section does, by its effect. -/
inductive Section (s : State) (e : Event) : State → Prop
  | walk (l : Lane) {q p : Phase} (howed : s.owed (.lane l) = []) (hq : s.phase l = q)
      (hw : Walk s l q p) : Section s e (s.enter l p)
  | leased (l : Lane) (id : String) {b b' : Budget} (howed : s.owed (.lane l) = [])
      (hq : s.phase l = .leasing id) (hb : s.budget = some b)
      (hr : b.reserveResponse id = some b') :
      Section s e { s.enter l (.verifying id) with budget := some b' }
  | dispatched (l : Lane) (id : String) (principal : Principal) (result : DispatchResult)
      (howed : s.owed (.lane l) = []) (hq : s.phase l = .dispatching id principal) :
      Section s e (s.dispatched l id principal result)
  | unpublished (l : Lane) (id : String) (answer : Option Answer)
      (howed : s.owed (.lane l) = []) (hq : s.phase l = .publishing id answer) :
      Section s e (s.failPublication l id answer)
  | refused (l : Lane) (id : String) (answer : Option Answer) (size : Nat)
      (howed : s.owed (.lane l) = []) (hq : s.phase l = .publishing id answer)
      (hsize : size ≤ maxEnvelopeFileBytes) (hfull : s.ensureResponseCapacity size = false) :
      Section s e { s.failPublication l id answer with
        refused := s.refused ++ (answer.map Answer.dispatch).toList }
  | unsynced (l : Lane) (id : String) (answer : Option Answer) (size : Nat) (found : Bool)
      (he : e = .publish l (.write size .unsynced found))
      (howed : s.owed (.lane l) = []) (hq : s.phase l = .publishing id answer)
      (hsize : 0 < size ∧ size ≤ maxEnvelopeFileBytes)
      (hroom : s.ensureResponseCapacity size = true) (hnew : s.responses.lookup id = none) :
      Section s e { s.failPublication l id answer with
        responses := s.responses.insert id ⟨size, (answer.bind Answer.hooks).isSome⟩
        budget := if found then s.budget.map (·.commit id size false) else s.budget
        phase := Function.update s.phase l (.ending (if found then none else some id)) }
  | published (l : Lane) (id : String) (answer : Option Answer) (size : Nat)
      (howed : s.owed (.lane l) = []) (hq : s.phase l = .publishing id answer)
      (hsize : 0 < size ∧ size ≤ maxEnvelopeFileBytes)
      (hroom : s.ensureResponseCapacity size = true) (hnew : s.responses.lookup id = none) :
      Section s e { s with
        responses := s.responses.insert id ⟨size, (answer.bind Answer.hooks).isSome⟩
        budget := s.budget.map (·.commit id size (answer.bind Answer.hooks).isSome)
        phase := Function.update s.phase l (Answer.next id answer) }
  | register (l : Lane) (id : String) (principal : Principal) (held : Held) (digest : String)
      (now : Int) (howed : s.owed (.lane l) = [])
      (hq : s.phase l = .registering id principal held) :
      Section s e (s.register l id principal held digest now)
  | persist (l : Lane) (id : String) (held : Held) (howed : s.owed (.lane l) = [])
      (hq : s.phase l = .persisting id held) : Section s e (s.persist l id held)
  | readied (l : Lane) (id : String) {entry : PendingReceipt} (howed : s.owed (.lane l) = [])
      (hq : s.phase l = .readying id) (hentry : s.pending.lookup id = some entry) :
      Section s e { s with
        pending := s.pending.insert id { entry with ready := true }
        phase := Function.update s.phase l (.ending none) }
  | taken (l : Lane) (id : String) {entry entry' : PendingReceipt} (received : Bool)
      (reason : SettlementReason) {q p : Phase} (howed : s.owed (.lane l) = [])
      (hq : s.phase l = q) (ht : Takes id q p) (hentry : s.pending.lookup id = some entry)
      (hheld : entry'.held = entry.held) :
      Section s e (s.take l id entry' received reason p)
  | unlinked (l : Lane) (id : String) {q : Phase} (howed : s.owed (.lane l) = [])
      (hq : s.phase l = q) (hu : Unlinks (s.responses.lookup id) id q) :
      Section s e { s.enter l (.freeing id) with responses := s.responses.erase id }
  | freed (l : Lane) (id : String) (committed : Bool) {q : Phase}
      (howed : s.owed (.lane l) = []) (hq : s.phase l = q) (hf : Frees id q committed) :
      Section s e { s.enter l .idle with budget := s.budget.map (·.release id committed) }
  | expire (p : Party) (now : Int) (h : s.looks p = true) : Section s e (s.expire p now)
  | settle (p : Party) {first : Settlement} {rest : List Settlement}
      (howed : s.owed p = first :: rest) (hclose : p = .closer → s.closing = .settling) :
      Section s e (s.settle p first rest)
  | cleanup (id : String) (hfile : (s.responses.lookup id).isSome)
      (hpending : s.pending.lookup id = none) (hkeeps : ∀ l, (s.phase l).keeps ≠ some id) :
      Section s e { s with
        responses := s.responses.erase id
        budget := s.budget.map (·.release id true) }
  | others (files bytes receipts : Nat) :
      Section s e { s with budget := s.budget.map fun b =>
        { b with otherFiles := files, otherBytes := bytes, otherReceipts := receipts } }
  | close (hc : s.closing = .notCalled) (hq : s.phase .fast = .idle)
      (howed : s.owed (.lane .fast) = []) : Section s e { s with closing := .joining }
  | slowExit (hc : s.closing = .joining) (hq : s.phase .slow = .idle)
      (howed : s.owed (.lane .slow) = []) : Section s e { s with slowDone := true }
  | swap (hc : s.closing = .joining) (hslow : s.slowDone = true) : Section s e s.swap
  | settlerExit (hc : s.closing = .swapped) (howed : s.owed .settler = []) :
      Section s e { s with settlementDone := true }
  | joinSettler (hc : s.closing = .swapped) (hdone : s.settlementDone = true) :
      Section s e { s with closing := .settling }
  | closeReturn (hc : s.closing = .settling) (howed : s.owed .closer = []) :
      Section s e { s with closing := .returned }

variable {l : Lane}

theorem of_atWork {s : State} {p : Phase} (h : s.atWork l = some p) :
    s.owed (.lane l) = [] ∧ s.phase l = p := by
  simpa [State.atWork] using h

theorem State.publish_section {s s' : State} {id : String} {answer : Option Answer}
    {attempt : Attempt} (howed : s.owed (.lane l) = []) (hq : s.phase l = .publishing id answer)
    (h : s.publish l id answer attempt = some s') : Section s (.publish l attempt) s' := by
  have hsized : ∀ {size}, ¬ (size = 0 ∨ maxEnvelopeFileBytes < size) →
      0 < size ∧ size ≤ maxEnvelopeFileBytes := fun hsize => by omega
  revert h
  fun_cases s.publish l id answer attempt with
  | case2 => rintro ⟨⟩
  | case3 size outcome found hsize hfull =>
    rintro ⟨⟩
    exact .refused l id answer size howed hq (hsized hsize).2 (by simpa using hfull)
  | case6 size found _ hsize hroom hnew =>
    rintro ⟨⟩
    exact .unsynced l id answer size found rfl howed hq (hsized hsize) (by simpa using hroom)
      (by simpa using hnew)
  | case7 size found _ hsize hroom hnew =>
    rintro ⟨⟩
    exact .published l id answer size howed hq (hsized hsize) (by simpa using hroom)
      (by simpa using hnew)
  | _ =>
    rintro ⟨⟩
    exact .unpublished l id answer howed hq

section

variable {s s' : State} {e : Event} {p q : Phase}

theorem walk_section (hwork : s.atWork l = some q) (hw : Walk s l q p)
    (h : some (s.enter l p) = some s') : Section s e s' := by
  obtain ⟨howed, hq⟩ := of_atWork hwork
  cases h
  exact .walk l howed hq hw

theorem State.ready_section {id : String} {now : Int} (howed : s.owed (.lane l) = [])
    (hq : s.phase l = .readying id) : Section s e (s.ready l id now) := by
  rw [State.ready]
  split
  next => exact .walk l howed hq (.gone id)
  next entry hentry =>
  split
  · exact .taken l id false .graceExpired howed hq .ready hentry rfl
  · exact .readied l id howed hq hentry

theorem State.accept_section {principal : Principal} {receipt : Receipt} {now : Int}
    (howed : s.owed (.lane l) = []) (hq : s.phase l = .receiving principal receipt) :
    Section s e (s.accept l principal receipt now) := by
  rw [State.accept]
  split
  next => exact .walk l howed hq (.invalid principal receipt)
  next entry hentry =>
  split
  · exact .walk l howed hq (.invalid principal receipt)
  split
  · exact .taken l _ false .graceExpired howed hq (.late principal _) hentry rfl
  · exact .taken l _ true .receipt howed hq (.accept principal _) hentry rfl

theorem State.outlived_section {id : String} (hfile : (s.responses.lookup id).isSome)
    (h : s.outlived id = true) : Section s e { s with
      responses := s.responses.erase id
      budget := s.budget.map (·.release id true) } := by
  simp only [State.outlived, Bool.and_eq_true, isNone_iff_eq_none, decide_eq_true_eq] at h
  refine .cleanup id hfile h.1.1 fun l => ?_
  cases l with
  | fast => exact h.1.2
  | slow => exact h.2

end

/-- **Inversion.** Every step is one of these sections. -/
theorem step_section {s s' : State} {e : Event} (h : step s e = some s') : Section s e s' := by
  revert h
  fun_cases step s e with
  | case1 l id hwork hs => exact walk_section hwork (.claim id hs)
  | case4 l principal receipt hwork hs =>
    exact walk_section hwork (.claimReceipt principal receipt hs)
  | case7 l id hwork hs => exact walk_section hwork (.claimRelease id hs)
  | case10 l id hwork =>
    split
    · exact walk_section hwork (.scanned id)
    · exact walk_section hwork (.full id)
  | case12 l _ id hwork hnone => exact walk_section hwork (.unlimited id hnone)
  | case13 l _ id hwork => exact walk_section hwork (.unleased id)
  | case14 l _ id hwork b hb b' hr =>
    obtain ⟨howed, hq⟩ := of_atWork hwork
    rintro ⟨⟩
    split_ifs at hr
    exact .leased l id howed hq hb hr
  | case16 l principal id hwork =>
    cases principal with
    | none => exact walk_section hwork (.refuse id)
    | some principal => exact walk_section hwork (.authorize id principal)
  | case18 l id principal hwork =>
    split
    · exact walk_section hwork (.admits id principal)
    · exact walk_section hwork (.noReceipts id principal)
  | case20 l result id principal hwork =>
    obtain ⟨howed, hq⟩ := of_atWork hwork
    rintro ⟨⟩
    exact .dispatched l id principal result howed hq
  | case22 l attempt id answer hwork =>
    obtain ⟨howed, hq⟩ := of_atWork hwork
    exact State.publish_section howed hq
  | case24 l digest now id principal held hwork =>
    obtain ⟨howed, hq⟩ := of_atWork hwork
    rintro ⟨⟩
    exact .register l id principal held digest now howed hq
  | case26 l id held hwork =>
    obtain ⟨howed, hq⟩ := of_atWork hwork
    rintro ⟨⟩
    exact .persist l id held howed hq
  | case28 l now id hwork =>
    obtain ⟨howed, hq⟩ := of_atWork hwork
    rintro ⟨⟩
    exact State.ready_section howed hq
  | case30 l hwork => exact walk_section hwork .ended
  | case31 l id hwork =>
    obtain ⟨howed, hq⟩ := of_atWork hwork
    rintro ⟨⟩
    exact .freed l id false howed hq .finish
  | case33 l now principal receipt hwork =>
    obtain ⟨howed, hq⟩ := of_atWork hwork
    rintro ⟨⟩
    exact State.accept_section howed hq
  | case35 l id hwork =>
    obtain ⟨howed, hq⟩ := of_atWork hwork
    rintro ⟨⟩
    exact .unlinked l id howed hq .retire
  | case36 l _ id hwork => exact walk_section hwork (.unretired id)
  | case38 l id hwork =>
    obtain ⟨howed, hq⟩ := of_atWork hwork
    rintro ⟨⟩
    exact .freed l id true howed hq .free
  | case40 l id hwork =>
    split
    · exact walk_section hwork (.awaited id)
    · exact walk_section hwork (.looked id)
  | case42 l _ id hwork file hfile hopt =>
    obtain ⟨howed, hq⟩ := of_atWork hwork
    rintro ⟨⟩
    rw [Bool.and_eq_true, Bool.not_eq_true'] at hopt
    exact .unlinked l id howed hq (.drop file hfile hopt.2)
  | case43 l _ id hwork | case44 l _ id hwork => exact walk_section hwork (.undropped id)
  | case46 p now hlooks =>
    rintro ⟨⟩
    exact .expire p now hlooks
  | case50 p first rest howed hclose =>
    rintro ⟨⟩
    exact .settle p howed fun hp => not_not.mp fun hne => hclose ⟨hp, hne⟩
  | case51 id hfree =>
    rintro ⟨⟩
    exact State.outlived_section hfree.1 hfree.2
  | case53 files bytes receipts =>
    rintro ⟨⟩
    exact .others files bytes receipts
  | case54 hopen =>
    rintro ⟨⟩
    exact .close hopen.1 hopen.2.1 hopen.2.2
  | case56 hdone =>
    rintro ⟨⟩
    exact .slowExit hdone.1 hdone.2.1 hdone.2.2
  | case58 hdone =>
    rintro ⟨⟩
    exact .swap hdone.1 hdone.2
  | case60 hdone =>
    rintro ⟨⟩
    exact .settlerExit hdone.1 hdone.2
  | case62 hdone =>
    rintro ⟨⟩
    exact .joinSettler hdone.1 hdone.2
  | case64 hdone =>
    rintro ⟨⟩
    exact .closeReturn hdone.1 hdone.2
  | _ => rintro ⟨⟩

end AgentMultiplexer.SessionRpc.Receipts
