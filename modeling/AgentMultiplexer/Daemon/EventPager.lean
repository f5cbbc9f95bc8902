import AgentMultiplexer.RuntimeEvents.Index
import AgentMultiplexer.Theory.SliceReader

set_option autoImplicit false

/-! # Paging a session's runtime events

A page reads the record files of a session in order, its sources, from where the cursor stands: a
sweep. It stops inside a file, inside the events of one line or at an oversized record when a limit
is reached, and the next cursor goes on from there with a copy of the decoder. Cursors are kept in a
cache under a token; a page that moved its cursor is kept with it, so that a retry gets the same
page.

A page is computed without the pager's lock, so every operation on a file sees the world of its own
moment: `view n` is the world at the `n`-th one. A file is an inode with its bytes behind a name; a
file that was opened is read through its inode, also after its name was given to another. Tokens and
signatures are digests that are taken not to collide: each is represented by what it is computed
from. A context that is cancelled is one that outlives only so many checks. Errors of the file
system other than a missing file are left out. -/

namespace AgentMultiplexer.Daemon.EventPager

open RuntimeEvents

abbrev Bytes := List UInt8

/-! ## Sources and cursors -/

/-- `sessionEventSource`. -/
structure SourceSpec where
  kind : String
  root : String
  rel : String
  deriving DecidableEq

/-- `eventSourceSignature`: the fields of the session it reads, the runtime and the sources. -/
structure Signature where
  session : List String
  runtime : String
  sources : List SourceSpec
  deriving DecidableEq

/-- `sessionEventSourceSet`. -/
structure SourceSet (β : Type) where
  target : String
  session : List String
  runtime : String
  sources : List SourceSpec
  bindings : β

def SourceSet.signature {β : Type} (set : SourceSet β) : Signature :=
  ⟨set.session, set.runtime, set.sources⟩

/-- `sessionEventCursorSource`; `pending` are the events from `pendingAt` on. -/
structure Source where
  spec : SourceSpec
  offset : Nat
  identity : Option Nat
  anchor : Bytes
  partialLine : Bytes
  discarding : Bool
  recordSize : Nat
  pending : List RuntimeEvent
  deriving DecidableEq

/-- What `tokenFor` digests. -/
structure Token where
  subject : String
  target : String
  signature : Signature
  sequence : Nat
  after : Nat
  source : Nat
  sources : List (Nat × Nat × Bytes)
  deriving DecidableEq

/-- `core.OversizedRuntimeEvent`, of an event or of a raw record. -/
inductive Oversized
  | event (sequence : Nat) (type : String) (encodedBytes : Nat)
  | rawRecord (sequence : Nat) (rawBytes : Nat)
  deriving DecidableEq

def Oversized.sequence : Oversized → Nat
  | .event n _ _ => n
  | .rawRecord n _ => n

/-- `core.RuntimeEventPage`. -/
structure Page where
  target : String
  runtime : String
  cursorSequence : Nat
  scannedSequence : Nat
  events : List (Nat × RuntimeEvent)
  nextCursor : Option Token
  hasMore : Bool
  truncated : Bool
  oversized : Option Oversized
  deriving DecidableEq

/-- `sessionEventCursor`; `addr` tells allocations apart. -/
structure Cursor (δ : Type) where
  addr : Nat
  token : Option Token
  subject : String
  target : String
  signature : Signature
  runtime : String
  sources : List Source
  decoder : δ
  sequence : Nat
  after : Nat
  source : Nat
  lastUsed : Int
  bytes : Nat
  page : Option Page
  nextCursor : Option Token

structure Limits where
  pageReadBytes : Nat
  pageRecords : Nat
  pageEvents : Nat
  rawRecordBytes : Nat
  readChunkBytes : Nat
  decoderStateBytes : Nat
  cursorEntries : Nat
  cursorPerSubject : Nat
  cursorGlobalBytes : Nat
  cursorSubjectBytes : Nat
  cursorTTL : Int
  anchorBytes : Nat
  oversizedTypeBytes : Nat
  responseBody : Nat

/-- The constants of the source; times are in nanoseconds. -/
def limits : Limits where
  pageReadBytes := 256 * 2 ^ 10
  pageRecords := 2048
  pageEvents := 256
  rawRecordBytes := 64 * 2 ^ 10
  readChunkBytes := 256
  decoderStateBytes := 256 * 2 ^ 10
  cursorEntries := 128
  cursorPerSubject := 8
  cursorGlobalBytes := 32 * 2 ^ 20
  cursorSubjectBytes := 2 * 2 ^ 20
  cursorTTL := 5 * 60 * 10 ^ 9
  anchorBytes := 32
  oversizedTypeBytes := 128
  responseBody := 64 * 2 ^ 10

/-- The size of the read buffer: `bufio` takes no less than 16 bytes. -/
def Limits.bufferSize (lim : Limits) : Nat := max lim.readChunkBytes 16

/-- `PageDecoder`: a state machine over the lines of all sources. -/
structure PageDecoder (δ β : Type) where
  /-- `NewPageDecoder`. -/
  init : String → List String → Option δ
  /-- `Map`. -/
  map : δ → Nat → Bytes → β → δ × List RuntimeEvent
  /-- `MemoryBytes`. -/
  memoryBytes : δ → Nat

/-- The lengths of the JSON encodings: of a page, if it can be encoded (a payload is raw JSON), and
    of an event, 0 if it cannot. -/
structure Encoding where
  page : Page → Option Nat
  event : RuntimeEvent → Nat

/-! ## Files -/

/-- Names and inodes. -/
structure World where
  dir : String × String → Option Nat
  data : Nat → Bytes

def SourceSpec.path (spec : SourceSpec) : String × String := (spec.root, spec.rel)

/-- `ReadAt`, which fails on fewer bytes. -/
def readAt (data : Bytes) (pos len : Nat) : Option Bytes :=
  if pos + len ≤ data.length then some ((data.drop pos).take len) else none

/-- `validateSourceAnchor`. -/
def Source.anchorValid (src : Source) (data : Bytes) : Bool :=
  if src.offset = 0 ∨ src.anchor.length = 0 then true
  else if src.offset < src.anchor.length then false
  else readAt data (src.offset - src.anchor.length) src.anchor.length = some src.anchor

/-- `updateSourceAnchor`. -/
def Source.updateAnchor (anchorBytes : Nat) (src : Source) (data : Bytes) : Option Source :=
  if src.offset = 0 then some { src with anchor := [] }
  else
    let n := min anchorBytes src.offset
    (readAt data (src.offset - n) n).map fun anchor => { src with anchor := anchor }

/-- The open and the `Stat` of a source that was read before: the recorded inode is still behind the
    name, and is long enough. -/
def Source.sameFile (src : Source) (view : Nat → World) (op ident : Nat) : Bool :=
  (view op).dir src.spec.path = some ident && src.offset ≤ ((view (op + 1)).data ident).length

/-! ## One source -/

/-- Why a page is not answered. -/
inductive PageError
  | cursorInvalid
  | denied
  | cancelled
  | anchorUnread
  | stateTooLarge
  | pageTooLarge
  | unsupported
  | unencodable
  deriving DecidableEq

/-- The loop of `readEventSource`: the source, the decoder, the reader, the next operation and what
    was read. -/
structure Reading (δ : Type) where
  source : Source
  decoder : δ
  reader : SliceReader.Reader UInt8
  op : Nat
  bytes : Nat
  records : Nat

/-- What `readEventSource` returns beside its progress. -/
structure ReadResult (δ : Type) where
  reading : Reading δ
  hitEOF : Bool
  rawOversized : Option Nat

section Paging

variable {δ β : Type} (lim : Limits) (dec : PageDecoder δ β) (enc : Encoding)

/-- A fragment is added to the record, which is given up once it is too long. -/
def Source.take (src : Source) (fragment : Bytes) : Source :=
  if fragment.length = 0 then src
  else
    let src := { src with
      offset := src.offset + fragment.length
      recordSize := src.recordSize + fragment.length }
    if src.discarding ∨ lim.rawRecordBytes < src.partialLine.length + fragment.length then
      { src with partialLine := [], discarding := true }
    else { src with partialLine := src.partialLine ++ fragment }

/-- The record is complete: it is given up, or decoded. -/
def Reading.complete (x : Reading δ) (i : Nat) (bindings : β) : Reading δ × Option Nat :=
  let x := { x with records := x.records + 1 }
  if x.source.discarding then
    ({ x with source := { x.source with
      discarding := false, recordSize := 0, partialLine := [] } }, some x.source.recordSize)
  else
    let mapped := dec.map x.decoder i x.source.partialLine bindings
    ({ x with
      source := { x.source with partialLine := [], recordSize := 0, pending := mapped.2 }
      decoder := mapped.1 }, none)

/-- The loop of `readEventSource`. -/
def readLoop (data : Nat → Bytes) (i : Nat) (bindings : β) (byteBudget recordBudget : Nat) :
    Nat → Reading δ → Except PageError (ReadResult δ)
  | ctx, x =>
    if byteBudget ≤ x.bytes ∨ recordBudget ≤ x.records then .ok ⟨x, false, none⟩
    else
      match ctx with
      | 0 => .error .cancelled
      | ctx + 1 =>
        let slice := x.reader.readSlice newline lim.bufferSize data (lim.bufferSize + 2) x.op
        let x := { x with
          reader := slice.reader
          op := slice.op
          bytes := slice.reader.read
          source := x.source.take lim slice.fragment }
        if slice.fragment.getLast? = some newline then
          let done := x.complete dec i bindings
          if done.2.isSome then .ok ⟨done.1, false, done.2⟩
          else if done.1.source.pending.length ≠ 0 then .ok ⟨done.1, false, none⟩
          else if slice.error = .eof then .ok ⟨done.1, true, none⟩
          else readLoop data i bindings byteBudget recordBudget ctx done.1
        else if slice.error = .eof then .ok ⟨x, true, none⟩
        else readLoop data i bindings byteBudget recordBudget ctx x

/-! ## Pages -/

/-- `cursorSourceMemoryBytes`. -/
def sourceMemoryBytes (sources : List Source) : Nat :=
  sources.length * 256 + (sources.map fun src =>
    src.spec.root.utf8ByteSize + src.spec.rel.utf8ByteSize + src.anchor.length +
      src.partialLine.length + (src.pending.map fun ev =>
        96 + ev.type.utf8ByteSize + ev.itemID.utf8ByteSize + ev.direction.utf8ByteSize +
          ev.payload.length).sum).sum

/-- The length of a token: base64url of a SHA-256. -/
def cursorEncodedLength : Nat := 43

def tokenLength (token : Option Token) : Nat := if token.isSome then cursorEncodedLength else 0

/-- `cursorMemoryBytes`. -/
def Cursor.memoryBytes (c : Cursor δ) : Nat :=
  512 + tokenLength c.token + c.subject.utf8ByteSize + c.target.utf8ByteSize +
    c.runtime.utf8ByteSize + sourceMemoryBytes c.sources + dec.memoryBytes c.decoder +
    (c.page.bind enc.page).getD 0 + tokenLength c.nextCursor

def Cursor.tokenFor (c : Cursor δ) : Token :=
  ⟨c.subject, c.target, c.signature, c.sequence, c.after, c.source,
    c.sources.map fun src => (src.offset, src.recordSize, src.anchor)⟩

/-- `pageFits`; the token has its length whatever it is. -/
def pageFits (page : Page) : Bool :=
  (enc.page { page with
    nextCursor := none, scannedSequence := 2 ^ 63 - 1, hasMore := true }).any (· ≤ lim.responseBody)

def boundedOversizedEventType (type : String) : String :=
  if type = "" ∨ lim.oversizedTypeBytes < type.utf8ByteSize then "type_omitted" else type

/-- The loop of `computePage`: the page, the cursor, the next operation and what was spent. -/
structure Paging (δ : Type) where
  page : Page
  state : Cursor δ
  op : Nat
  readBytes : Nat
  records : Nat
  processed : Nat
  sweepComplete : Bool

/-- How a round of the loop ends. -/
inductive Round (δ : Type)
  | goOn (x : Paging δ)
  | stop (x : Paging δ)

def Cursor.setSource (c : Cursor δ) (src : Source) : Cursor δ :=
  { c with sources := c.sources.set c.source src }

/-- The event that is waiting is taken: `rest` goes on waiting. -/
def Paging.spend (x : Paging δ) (src : Source) (rest : List RuntimeEvent) : Paging δ :=
  { x with
    state := { x.state.setSource { src with pending := rest } with
      sequence := x.state.sequence + 1 }
    processed := x.processed + 1 }

/-- The round for an event that is waiting. -/
def Paging.deliver (x : Paging δ) (src : Source) (event : RuntimeEvent)
    (rest : List RuntimeEvent) : Round δ :=
  let seq := x.state.sequence + 1
  let spent := x.spend src rest
  if seq ≤ x.state.after then .goOn spent
  else
    let candidate := { x.page with events := x.page.events ++ [(seq, event)] }
    if pageFits lim enc candidate then .goOn { spent with page := candidate }
    else if x.page.events.length ≠ 0 ∨ x.page.oversized.isSome then .stop x
    else
      let page := { x.page with
        truncated := true
        oversized := some (.event seq (boundedOversizedEventType lim event.type) (enc.event event)) }
      if pageFits lim enc page then .stop { spent with page := page }
      else .stop { spent with page := { page with
        oversized := some (.event seq "type_omitted" (enc.event event)) } }

/-- The round that reads the file behind a source. -/
def Paging.readSource (view : Nat → World) (bindings : β) (ctx : Nat) (x : Paging δ)
    (src : Source) : Except PageError (Round δ) :=
  match (view x.op).dir src.spec.path with
  | none =>
    if src.identity.isSome then .error .cursorInvalid
    else .ok (.goOn { x with
      op := x.op + 1, state := { x.state with source := x.state.source + 1 } })
  | some ident =>
    let size := ((view (x.op + 1)).data ident).length
    if src.identity.isSome ∧ (src.identity ≠ some ident ∨ size < src.offset) then
      .error .cursorInvalid
    else
      let src := { src with identity := some ident }
      if !src.anchorValid ((view (x.op + 2)).data ident) then .error .cursorInvalid
      else
        let budget := lim.pageReadBytes - x.readBytes
        let start : Reading δ :=
          ⟨src, x.state.decoder, ⟨[], false, src.offset, budget, 0⟩, x.op + 3, 0, 0⟩
        match readLoop lim dec (fun n => (view n).data ident) x.state.source bindings budget
            (lim.pageRecords - x.records) ctx start with
        | .error err => .error err
        | .ok result =>
          let done := result.reading
          match done.source.updateAnchor lim.anchorBytes ((view done.op).data ident) with
          | none => .error .anchorUnread
          | some src =>
            let state := { x.state.setSource src with decoder := done.decoder }
            let x := { x with
              state := state
              op := done.op + 1
              readBytes := x.readBytes + done.bytes
              records := x.records + done.records }
            match result.rawOversized with
            | some size =>
              let seq := state.sequence + 1
              let x := { x with
                state := { state with sequence := seq }, processed := x.processed + 1 }
              if seq ≤ state.after then .ok (.goOn x)
              else .ok (.stop { x with page := { x.page with
                truncated := true, oversized := some (.rawRecord seq size) } })
            | none =>
              if lim.decoderStateBytes <
                  dec.memoryBytes state.decoder + sourceMemoryBytes state.sources then
                .error .stateTooLarge
              else if result.hitEOF ∧ size ≤ src.offset then
                .ok (.goOn { x with state := { state with source := state.source + 1 } })
              else .ok (.goOn x)

def Paging.round (view : Nat → World) (bindings : β) (ctx : Nat) (x : Paging δ) :
    Except PageError (Round δ) :=
  match x.state.sources[x.state.source]? with
  | none => .ok (.stop { x with state := { x.state with source := 0 }, sweepComplete := true })
  | some src =>
    match src.pending with
    | event :: rest => .ok (x.deliver lim enc src event rest)
    | [] => x.readSource lim dec view bindings ctx src

/-- The loop of `computePage`. The context outlives as many rounds as there are entries, and in each
    of them as many checks of `readEventSource` as the entry says. -/
def pageLoop (view : Nat → World) (bindings : β) :
    List Nat → Paging δ → Except PageError (Paging δ)
  | ctx, x =>
    if x.sweepComplete ∨ lim.pageReadBytes ≤ x.readBytes ∨ lim.pageRecords ≤ x.records ∨
        lim.pageEvents ≤ x.processed then .ok x
    else
      match ctx with
      | [] => .error .cancelled
      | checks :: ctx =>
        match x.round lim dec enc view bindings checks with
        | .error err => .error err
        | .ok (.stop x) => .ok x
        | .ok (.goOn x) => pageLoop view bindings ctx x

/-- The loop of `refreshSourceAnchors`, with the operation it is at. -/
def refreshAnchors (view : Nat → World) : Nat → List Source → Except PageError (List Source)
  | _, [] => .ok []
  | op, src :: rest =>
    match src.identity with
    | none => (refreshAnchors view op rest).map (src :: ·)
    | some ident =>
      if src.offset = 0 then (refreshAnchors view op rest).map (src :: ·)
      else if !src.sameFile view op ident then .error .cursorInvalid
      else
        match src.updateAnchor lim.anchorBytes ((view (op + 2)).data ident) with
        | none => .error .cursorInvalid
        | some src => (refreshAnchors view (op + 3) rest).map (src :: ·)

/-- `cursorHasBufferedWork`. -/
def hasBufferedWork (sources : List Source) : Bool :=
  sources.any fun src => src.pending.length ≠ 0 || src.discarding

def emptyPage (target runtime : String) (sequence : Nat) : Page where
  target := target
  runtime := runtime
  cursorSequence := sequence
  scannedSequence := 0
  events := []
  nextCursor := none
  hasMore := false
  truncated := false
  oversized := none

/-- The page a cursor starts with. -/
def Cursor.blankPage (c : Cursor δ) : Page := emptyPage c.target c.runtime c.sequence

/-- A request's own circumstances: the world at each operation, the context and the clock. -/
structure Poll where
  view : Nat → World
  ctx : List Nat
  now : Int

/-- The end of `computePage`. -/
def Paging.finish (x : Paging δ) (poll : Poll) : Except PageError (Page × Cursor δ) :=
  match refreshAnchors lim poll.view x.op x.state.sources with
  | .error err => .error err
  | .ok sources =>
    let state := { x.state with sources := sources, lastUsed := poll.now }
    let token := state.tokenFor
    let state := { state with token := some token }
    let page := { x.page with
      scannedSequence := state.sequence
      hasMore := !x.sweepComplete || hasBufferedWork sources
      nextCursor := some token }
    match enc.page page with
    | none => .error .unencodable
    | some size =>
      if lim.responseBody < size then .error .pageTooLarge
      else
        let state := { state with bytes := state.memoryBytes dec enc }
        if lim.cursorSubjectBytes < state.bytes then .error .stateTooLarge
        else .ok (page, state)

def computePage (poll : Poll) (state : Cursor δ) (set : SourceSet β) :
    Except PageError (Page × Cursor δ) :=
  if state.signature ≠ set.signature ∨ state.target ≠ set.target ∨ state.runtime ≠ set.runtime then
    .error .cursorInvalid
  else
    match pageLoop lim dec enc poll.view set.bindings poll.ctx
        ⟨state.blankPage, state, 0, 0, 0, 0, state.sources.length = 0⟩ with
    | .error err => .error err
    | .ok x => x.finish lim dec enc poll

/-- `newSessionEventCursor`. -/
def newCursor (addr : Nat) (subject : String) (set : SourceSet β) (after : Nat) (now : Int) :
    Option (Cursor δ) :=
  (dec.init set.runtime (set.sources.map SourceSpec.kind)).map fun decoder =>
    { addr := addr
      token := none
      subject := subject
      target := set.target
      signature := set.signature
      runtime := set.runtime
      sources := set.sources.map fun spec => ⟨spec, 0, none, [], [], false, 0, []⟩
      decoder := decoder
      sequence := 0
      after := after
      source := 0
      lastUsed := now
      bytes := 0
      page := none
      nextCursor := none }

end Paging

end AgentMultiplexer.Daemon.EventPager
