import AgentMultiplexer.RuntimeEvents.Index

set_option autoImplicit false

/-! # Tailing a session's record files

A subscription follows the record files of a session, its sources, from an event ordinal on.
`positionSources` places every source with the help of its index, and each poll then sweeps the
sources in order: complete new lines are decoded, their events numbered by one shared ordinal, and
those past the resume point sent in frames.

The indexes are shared with every other reader of the process, which may bring them up to date at
any time: opening an index and positioning in it are two critical sections. Files only grow here;
the branches for a file that was replaced or cut are those of the code. The binding of permission
events before they are sent, which rewrites payloads in place, is left out. -/

namespace AgentMultiplexer.RuntimeEvents

open Lines

/-! ## Batches -/

def maxBatchEvents : Nat := 512
def maxBatchPayloadBytes : Nat := 2 ^ 20

def eventSize (ev : RuntimeEvent) : Nat :=
  ev.payload.length + ev.type.utf8ByteSize + ev.itemID.utf8ByteSize + 48

/-- `RuntimeEventBatch`: events and the ordinal of the last one. -/
structure Batch where
  seq : Int
  events : List RuntimeEvent

def Batch.empty : Batch := ⟨0, []⟩

/-- Events with consecutive ordinals from `n` on. -/
def number (n : Int) : List RuntimeEvent → List (Int × RuntimeEvent)
  | [] => []
  | ev :: evs => (n, ev) :: number (n + 1) evs

/-- The events of a batch with their ordinals, counted back from the last one. -/
def Batch.numbered (b : Batch) : List (Int × RuntimeEvent) :=
  number (b.seq - b.events.length + 1) b.events

/-- The loop of `splitBatch`: `frame` are the events since the last cut, `i` the index of the next
    event. -/
def splitLoop (seq firstSeq : Int) (frame : List RuntimeEvent) (bytes i : Nat) :
    List RuntimeEvent → List Batch
  | [] => [⟨seq, frame⟩]
  | ev :: evs =>
    if 0 < frame.length ∧
        (maxBatchEvents ≤ frame.length ∨ maxBatchPayloadBytes < bytes + eventSize ev) then
      ⟨firstSeq + i - 1, frame⟩ :: splitLoop seq firstSeq [ev] (eventSize ev) (i + 1) evs
    else splitLoop seq firstSeq (frame ++ [ev]) (bytes + eventSize ev) (i + 1) evs

def splitBatch (b : Batch) : List Batch :=
  splitLoop b.seq (b.seq - b.events.length + 1) [] 0 0 b.events

/-! ## Files and indexes -/

/-- The record files of a session, by source, and the process's index of each. -/
structure World (σ : Type) where
  files : Nat → Option FileState
  indexes : Nat → SourceIndex σ

/-- What happens beside the subscription. -/
inductive WorldEvent
  | create (source ident : Nat) (modTime : Int)
  | append (source : Nat) (bytes : List UInt8) (modTime : Int)
  /-- Another reader runs `openIndexed`. -/
  | update (source : Nat)
  /-- The cache drops the index; the next reader starts a new one. -/
  | evict (source : Nat)

section World

variable {σ : Type} (decoders : Nat → SourceDecoder σ) (payloads : PayloadReader)

/-- No file exists yet. -/
def World.blank : World σ := ⟨fun _ => none, fun i => newSourceIndex (decoders i)⟩

def World.setFile (w : World σ) (i : Nat) (f : FileState) : World σ :=
  { w with files := Function.update w.files i (some f) }

def World.setIndex (w : World σ) (i : Nat) (ix : SourceIndex σ) : World σ :=
  { w with indexes := Function.update w.indexes i ix }

/-- `openIndexed` on a file that exists, as far as the index is concerned. -/
def World.openIndexed (w : World σ) (i : Nat) (f : FileState) : World σ :=
  w.setIndex i ((w.indexes i).update (decoders i) payloads f)

def World.step (w : World σ) : WorldEvent → Option (World σ)
  | .create i ident modTime =>
    match w.files i with
    | some _ => none
    | none => some (w.setFile i ⟨ident, [], modTime⟩)
  | .append i bytes modTime =>
    (w.files i).map fun f => w.setFile i ⟨f.ident, f.content ++ bytes, modTime⟩
  | .update i => (w.files i).map fun f => w.openIndexed decoders payloads i f
  | .evict i => some (w.setIndex i (newSourceIndex (decoders i)))

end World

/-! ## The tail -/

/-- `tailSource`: the read cursor of a source. -/
structure TailSource (σ : Type) where
  offset : Nat
  dec : σ
  info : Option Nat

/-- Where the tail's goroutine stands. -/
inductive Phase
  /-- In `positionSources`, about to open source `i`; `base` events are before it. -/
  | opening (i : Nat) (base : Int)
  /-- In `positionSources`, about to position source `i` by this snapshot. -/
  | positioning (i : Nat) (base : Int) (snap : IndexSnapshot)
  /-- In `sweep`, about to look at source `i`. -/
  | sweeping (i : Nat)
  /-- In `sweep`, about to read source `i`. -/
  | reading (i : Nat)
  /-- Waiting for the next tick. -/
  | waiting
  /-- An index out of range has ended the process. -/
  | crashed
  deriving DecidableEq

/-- A tail and the files it follows. `collected` and `sent` remember, for the statements only, the
    source and the ordinal of each event of the current batch and of the frames sent. -/
structure TailState (σ : Type) where
  world : World σ
  afterSeq : Int
  phase : Phase
  sources : Nat → TailSource σ
  ordinal : Int
  first : Nat
  attempt : Nat
  batch : Batch
  out : List Batch
  collected : List (Nat × Int × RuntimeEvent)
  sent : List (Nat × Int × RuntimeEvent)

/-- One round of the inner loop of `readFrom`. -/
def emit (afterSeq : Int) (acc : Int × Batch) (ev : RuntimeEvent) : Int × Batch :=
  if afterSeq < acc.1 + 1 then (acc.1 + 1, ⟨acc.1 + 1, acc.2.events ++ [ev]⟩)
  else (acc.1 + 1, acc.2)

/-- One line of `readFrom`. -/
def readLine {σ : Type} (decoder : SourceDecoder σ) (afterSeq : Int)
    (acc : TailSource σ × Int × Batch) (line : List UInt8) : TailSource σ × Int × Batch :=
  let out := decoder.step acc.1.dec line
  ({ acc.1 with offset := acc.1.offset + line.length, dec := out.1 },
    out.2.foldl (emit afterSeq) acc.2)

/-- `readFrom`: the complete lines from the offset on. -/
def readFrom {σ : Type} (decoder : SourceDecoder σ) (content : List UInt8) (afterSeq : Int)
    (acc : TailSource σ × Int × Batch) : TailSource σ × Int × Batch :=
  (lines newline (content.drop acc.1.offset)).foldl (readLine decoder afterSeq) acc

namespace TailState

variable {σ : Type} (count : Nat) (decoders : Nat → SourceDecoder σ) (payloads : PayloadReader)

/-- `reset`. -/
def freshSource (i : Nat) : TailSource σ := ⟨0, (decoders i).init, none⟩

def start (w : World σ) (afterSeq : Int) : TailState σ where
  world := w
  afterSeq := afterSeq
  phase := .opening 0 0
  sources := freshSource decoders
  ordinal := 0
  first := 0
  attempt := 0
  batch := .empty
  out := []
  collected := []
  sent := []

def setSource (t : TailState σ) (i : Nat) (s : TailSource σ) : TailState σ :=
  { t with sources := Function.update t.sources i s }

/-- `positionSources` returns; a second failed attempt waits for the next tick. -/
def positioned (t : TailState σ) (ordinal : Int) (first : Nat) : TailState σ :=
  { t with
    ordinal := ordinal, first := first, batch := .empty, collected := []
    phase := if t.attempt < 2 then .sweeping first else .waiting }

/-- The head of a round of `positionSources`. -/
def openSource (t : TailState σ) (i : Nat) (base : Int) : TailState σ :=
  if count ≤ i then t.positioned base count
  else
    match t.world.files i with
    -- not there yet: the sweep picks it up from the top
    | none => { t.setSource i (freshSource decoders i) with phase := .opening (i + 1) base }
    | some f =>
      let w := t.world.openIndexed decoders payloads i f
      { t with world := w, phase := .positioning i base ((w.indexes i).snapshot f) }

/-- The rest of the round. -/
def placeSource (t : TailState σ) (i : Nat) (base : Int) (snap : IndexSnapshot) : TailState σ :=
  if base + snap.events ≤ t.afterSeq then
    match (t.world.indexes i).position snap.events with
    | none => { t with phase := .crashed }
    | some cp =>
      { t.setSource i ⟨cp.offset, cp.dec, some snap.identity⟩ with
        phase := .opening (i + 1) (base + snap.events) }
  else
    match (t.world.indexes i).position (t.afterSeq - base) with
    | none => { t with phase := .crashed }
    | some cp =>
      let later := fun j => if i < j then freshSource decoders j else t.sources j
      positioned
        { t with sources := Function.update later i ⟨cp.offset, cp.dec, some snap.identity⟩ }
        (base + cp.events) i

/-- `resyncAll`, in a sweep that has to be given up. -/
def resync (t : TailState σ) : TailState σ :=
  { t with phase := .opening 0 0, attempt := t.attempt + 1 }

/-- A sweep has ended: its batch is sent. -/
def finishSweep (t : TailState σ) : TailState σ :=
  { t with
    first := 0, phase := .waiting, batch := .empty, collected := []
    out := t.out ++ (if t.batch.events = [] then [] else splitBatch t.batch)
    sent := t.sent ++ t.collected }

/-- The checks of `sweep` on a source. -/
def statSource (t : TailState σ) (i : Nat) : TailState σ :=
  if count ≤ i then t.finishSweep
  else
    match t.world.files i with
    | none => { t with phase := .sweeping (i + 1) }
    | some f =>
      let s := t.sources i
      if (s.info ≠ none ∧ s.info ≠ some f.ident) ∨ f.content.length < s.offset then t.resync
      else
        let t := t.setSource i { s with info := some f.ident }
        if f.content.length ≤ s.offset then { t with phase := .sweeping (i + 1) }
        -- `offsetOnLineBoundary`
        else if 0 < s.offset ∧ f.content[s.offset - 1]? ≠ some newline then t.resync
        else { t with phase := .reading i }

/-- `readFrom` in a sweep. -/
def readSource (t : TailState σ) (i : Nat) : TailState σ :=
  match t.world.files i with
  | none => { t with phase := .sweeping (i + 1) }
  | some f =>
    let next := readFrom (decoders i) f.content t.afterSeq (t.sources i, t.ordinal, t.batch)
    { t.setSource i next.1 with
      ordinal := next.2.1, batch := next.2.2, phase := .sweeping (i + 1)
      collected := t.collected ++
        (next.2.2.numbered.drop t.batch.events.length).map fun e => (i, e) }

/-- The next critical section of the tail. -/
def advance (t : TailState σ) : Option (TailState σ) :=
  match t.phase with
  | .opening i base => some (t.openSource count decoders payloads i base)
  | .positioning i base snap => some (t.placeSource decoders i base snap)
  | .sweeping i => some (t.statSource count i)
  | .reading i => some (t.readSource decoders i)
  | .waiting => some { t with attempt := 0, phase := .sweeping t.first }
  | .crashed => none

end TailState

inductive TailEvent
  | world (e : WorldEvent)
  | tail

/-- The index the tail holds while it positions a source. -/
def Phase.holds : Phase → Nat → Bool
  | .positioning i _ _, j => i = j
  | _, _ => false

/-- The transition of a tail and its surroundings. An index that is evicted while the tail holds it
    stays the tail's, and nobody changes it any more: that is a run without the eviction. -/
def TailState.step {σ : Type} (count : Nat) (decoders : Nat → SourceDecoder σ)
    (payloads : PayloadReader) (t : TailState σ) : TailEvent → Option (TailState σ)
  | .world (.evict i) =>
    if t.phase.holds i then none
    else (t.world.step decoders payloads (.evict i)).map fun w => { t with world := w }
  | .world e => (t.world.step decoders payloads e).map fun w => { t with world := w }
  | .tail => t.advance count decoders payloads

end AgentMultiplexer.RuntimeEvents
