import AgentMultiplexer.Access.Journal

set_option autoImplicit false

/-! # The replay ledger on disk

The ledger is kept as a snapshot, `replay.json`, and journal files, one per shard and generation.
The machine below runs the in-memory ledger together with the disk: appends, which may fail after
any number of bytes; compaction, which rotates to a new generation, commits a snapshot and deletes
the older generations; and recovery, which reads everything back and folds it into a new snapshot.
Every step that touches the disk may fail, and a crash may come between any two of them.

What a crash can do is what the storage promises. A file keeps at least the bytes of its last
successful sync; beyond them it keeps some prefix of what was written, with zeros where it grew
before its data was written. A rename whose directory sync failed may be undone. Names are created
and removed in order; a crash that undoes the last removals is the crash of a run that had not come
to them yet. -/

namespace AgentMultiplexer.Access

/-! ## Files -/

/-- A journal file. `recs` and `last` remember, for the statements about runs only, the records the
    appends wrote: the last one apart when it may be incomplete or not durable. -/
structure JournalFile where
  gen : Nat
  shard : Nat
  data : List UInt8
  /-- The number of bytes the last successful sync covered. -/
  synced : Nat
  recs : List ReplayRecord
  last : Option ReplayRecord

/-- `journalFiles` lists by generation, then by shard. -/
def JournalFile.Before (f g : JournalFile) : Prop :=
  f.gen < g.gen ∨ f.gen = g.gen ∧ f.shard < g.shard

/-- The first `count` files `createShards` makes for a generation. -/
def newShards (gen count : Nat) : List JournalFile :=
  (List.range count).map fun shard => ⟨gen, shard, [], 0, [], none⟩

/-- How the write and the sync of an append end. -/
inductive AppendOutcome
  | ok
  /-- An error after `written` bytes; all of them when the sync failed. -/
  | failed (written : Nat)

/-- The write and the sync of `append`. -/
def JournalFile.append (f : JournalFile) (rec : ReplayRecord) : AppendOutcome → JournalFile
  | .ok =>
    { f with
      data := f.data ++ recordBytes rec
      synced := f.data.length + (recordBytes rec).length
      recs := f.recs ++ f.last.toList ++ [rec]
      last := none }
  | .failed 0 => f
  | .failed (n + 1) =>
    { f with
      data := f.data ++ (recordBytes rec).take (n + 1)
      recs := f.recs ++ f.last.toList
      last := some rec }

/-- What a crash leaves of the file: `kept` bytes as written, then `zeros` bytes without data. -/
def JournalFile.crashed (f : JournalFile) (kept zeros : Nat) : Option JournalFile :=
  if f.synced ≤ kept ∧ kept + zeros ≤ f.data.length then
    some { f with data := f.data.take kept ++ List.replicate zeros 0, synced := kept + zeros }
  else none

def crashedFiles : List JournalFile → List (Nat × Nat) → Option (List JournalFile)
  | [], [] => some []
  | f :: files, image :: images => do
      let f ← f.crashed image.1 image.2
      let files ← crashedFiles files images
      return f :: files
  | _, _ => none

/-- The reading half of `recoverReplay`: every journal file is read into the snapshot. -/
def recoverEntries (snapshot : ReplayEntries) (files : List JournalFile) :
    Except JournalError ReplayEntries :=
  files.foldlM (fun entries f => (readJournal f.data entries).map Prod.fst) snapshot

/-! ## The machine -/

inductive Mode
  /-- No authority is open. -/
  | down
  /-- `recoverReplay` has read the ledger; its snapshot is not committed yet. -/
  | merged (entries : ReplayEntries)
  /-- Every journal is in the snapshot; the files are being deleted. -/
  | folded (entries : ReplayEntries)
  | running

/-- Where `compactReplay` stands. -/
inductive Compaction
  | idle
  /-- Rotated: the snapshot to commit, and the newest generation it replaces. -/
  | rotated (snapshot : ReplayEntries) (old : Nat)
  /-- The snapshot is durable; generations up to `old` are being deleted. -/
  | committed (old : Nat)

structure DurableState where
  ledger : LedgerState
  mode : Mode
  compaction : Compaction
  /-- `journal.gen`. -/
  gen : Nat
  /-- The shards of generation `gen` are open. -/
  installed : Bool
  /-- What `replay.json` holds; empty when it does not exist. -/
  snapshot : ReplayEntries
  /-- Earlier contents of `replay.json` that a crash may bring back. -/
  earlier : List ReplayEntries
  /-- The journal files, in the order of their names. -/
  files : List JournalFile
  /-- Every request whose `Verify` returned success, in this boot or an earlier one. -/
  acked : List ReplayRecord

inductive DurableEvent
  | tick (now : Int)
  | publish (registry : RegistryFile)
  | begin (call : Nat) (req : SignedRequest)
  | decide (call : Nat)
  | append (call : Nat) (outcome : AppendOutcome)
  /-- The rotation of `compactReplay`. A failed one created this many files. -/
  | rotate (failed : Option Nat)
  /-- The commit of a compaction or of a recovery. -/
  | commit (outcome : CommitOutcome)
  /-- The oldest journal file is deleted, or its deletion fails. -/
  | remove (ok : Bool)
  /-- `compactReplay` has nothing left to delete. -/
  | finish
  /-- The process ends; the system keeps what was written. -/
  | kill
  /-- The system crashes: what is left of each file, and which content `replay.json` has. -/
  | crash (images : List (Nat × Nat)) (content : Nat)
  /-- `recoverReplay` reads the ledger. -/
  | load
  /-- `createShards` at the end of `recoverReplay`, and the rest of `open`. -/
  | create (failed : Option Nat) (bootID : String) (registry : RegistryFile)

/-- Key ids are the hexadecimal text of sixteen bytes, and generations are machine integers. -/
def RegistryFile.issued (registry : RegistryFile) : Bool :=
  registry.records.entries.all fun e => validHexID e.1 16 && e.2.generation < 2 ^ 64

/-- The expiry of a request is a machine integer. -/
def SignedRequest.inRange (req : SignedRequest) : Bool :=
  -2 ^ 63 ≤ req.expiresAt && req.expiresAt < 2 ^ 63

namespace DurableState

/-- The recovery of this disk, as the next `open` reads it. -/
def recovered (s : DurableState) : Except JournalError ReplayEntries :=
  recoverEntries s.snapshot s.files

/-- A section of the running authority that leaves the disk alone. -/
def ledgerStep (crypto : Crypto) (s : DurableState) (e : LedgerEvent) : Option DurableState :=
  (s.ledger.step crypto e).map fun ledger => { s with ledger := ledger }

/-- `append` of an encoded record, with the shard's file open. -/
def journalAppend (s : DurableState) (rec : ReplayRecord) (outcome : AppendOutcome) :
    DurableState :=
  { s with
    files := s.files.map fun f =>
      if f.gen = s.gen ∧ f.shard = shardFor rec.keyID then f.append rec outcome else f
    acked := match outcome with
      | .ok => s.acked ++ [rec]
      | .failed _ => s.acked }

/-- The append of a call that holds an entry: refused when the record is too long or the shard is
    not open. -/
def appendStep (crypto : Crypto) (s : DurableState) (i : Nat) (rec : ReplayRecord)
    (outcome : AppendOutcome) : Option DurableState :=
  match encodeReplayRecord rec, s.installed with
  | .ok _, true =>
    (s.journalAppend rec outcome).ledgerStep crypto
      (.append i (match outcome with | .ok => true | .failed _ => false))
  | _, _ => s.ledgerStep crypto (.append i false)

/-- The rotation: the ledger as it stands, and a new generation of files. -/
def rotateStep (crypto : Crypto) (s : DurableState) : Option Nat → Option DurableState
  | none =>
    { s with
      compaction := .rotated (unexpired s.ledger.entries s.ledger.clock) s.gen
      gen := s.gen + 1
      installed := true
      files := s.files ++ newShards (s.gen + 1) replayShards }.ledgerStep crypto .rotate
  | some created =>
    if created ≤ replayShards then
      some { s with
        gen := s.gen + 1
        installed := false
        files := s.files ++ newShards (s.gen + 1) created }
    else none

def commitContent (s : DurableState) (content : ReplayEntries) : CommitOutcome → DurableState
  | .notCommitted => s
  | .committedWithError => { s with snapshot := content, earlier := s.snapshot :: s.earlier }
  | .ok => { s with snapshot := content, earlier := [] }

/-- A failed step of `compactReplay` ends it. -/
def abandon (crypto : Crypto) (s : DurableState) : Option DurableState :=
  { s with compaction := .idle }.ledgerStep crypto (.compacted false)

def commitStep (crypto : Crypto) (s : DurableState) (outcome : CommitOutcome) :
    Option DurableState :=
  match s.mode, s.compaction with
  | .running, .rotated snapshot old =>
    match outcome with
    | .ok => some { s.commitContent snapshot .ok with compaction := .committed old }
    | outcome => (s.commitContent snapshot outcome).abandon crypto
  | .merged entries, _ =>
    match outcome with
    | .ok => some { s.commitContent entries .ok with mode := .folded entries }
    | outcome => some { s.commitContent entries outcome with mode := .down }
  | _, _ => none

def removeStep (crypto : Crypto) (s : DurableState) (ok : Bool) : Option DurableState :=
  match s.mode, s.compaction, s.files with
  | .running, .committed old, f :: files =>
    if f.gen ≤ old then
      if ok then some { s with files := files } else s.abandon crypto
    else none
  | .folded _, _, _ :: files =>
    if ok then some { s with files := files } else some { s with mode := .down }
  | _, _, _ => none

def finishStep (crypto : Crypto) (s : DurableState) : Option DurableState :=
  match s.mode, s.compaction with
  | .running, .committed old =>
    if s.files.all fun f => old < f.gen then
      { s with compaction := .idle }.ledgerStep crypto (.compacted true)
    else none
  | _, _ => none

def crashStep (s : DurableState) (images : List (Nat × Nat)) (content : Nat) :
    Option DurableState := do
  let files ← crashedFiles s.files images
  let snapshot ← (s.snapshot :: s.earlier)[content]?
  return { s with
    mode := .down, compaction := .idle, files := files, snapshot := snapshot, earlier := [] }

/-- The first half of `recoverReplay`. With no journal on disk there is nothing to fold. -/
def loadStep (s : DurableState) : DurableState :=
  match s.recovered with
  | .error _ => s
  | .ok entries =>
    let live := unexpired entries s.ledger.clock
    { s with mode := if s.files.isEmpty then .folded live else .merged live }

/-- The ledger in memory at the end of `open`. -/
def bootLedger (clock : Int) (bootID : String) (registry : RegistryFile) (entries : ReplayEntries) :
    LedgerState where
  bootID := bootID
  clock := clock
  registry := registry
  closed := false
  entries := entries
  records := 0
  rotated := none
  calls := fun _ => .idle
  pruned := []

/-- The end of `open`. -/
def createStep (s : DurableState) (failed : Option Nat) (bootID : String)
    (registry : RegistryFile) (entries : ReplayEntries) : Option DurableState :=
  match failed with
  | none =>
    some { s with
      mode := .running
      compaction := .idle
      gen := 1
      installed := true
      files := newShards 1 replayShards
      ledger := bootLedger s.ledger.clock bootID registry entries }
  | some created =>
    if created ≤ replayShards then
      some { s with mode := .down, gen := 1, files := newShards 1 created }
    else none

def step (crypto : Crypto) (s : DurableState) : DurableEvent → Option DurableState
  | .tick now => s.ledgerStep crypto (.tick now)
  | .publish registry =>
    if registry.issued then s.ledgerStep crypto (.publish registry) else none
  | .begin i req =>
    match s.mode with
    | .running => if req.inRange then s.ledgerStep crypto (.begin i req) else none
    | _ => none
  | .decide i =>
    match s.mode with
    | .running => s.ledgerStep crypto (.decide i)
    | _ => none
  | .append i outcome =>
    match s.mode, s.ledger.calls i with
    | .running, .inserted rec => s.appendStep crypto i rec outcome
    | _, _ => none
  | .rotate failed =>
    match s.mode, s.compaction with
    | .running, .idle => s.rotateStep crypto failed
    | _, _ => none
  | .commit outcome => s.commitStep crypto outcome
  | .remove ok => s.removeStep crypto ok
  | .finish => s.finishStep crypto
  | .kill => some { s with mode := .down, compaction := .idle }
  | .crash images content => s.crashStep images content
  | .load =>
    match s.mode with
    | .down => some s.loadStep
    | _ => none
  | .create failed bootID registry =>
    match s.mode, s.files, registry.issued with
    | .folded entries, [], true => s.createStep failed bootID registry entries
    | _, _, _ => none

/-- A state root nothing was ever written to. -/
def blank (clock : Int) : DurableState where
  ledger := bootLedger clock "" .empty ∅
  mode := .down
  compaction := .idle
  gen := 0
  installed := false
  snapshot := ∅
  earlier := []
  files := []
  acked := []

end DurableState

end AgentMultiplexer.Access
