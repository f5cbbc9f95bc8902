import AgentMultiplexer.Theory.Lines
import AgentMultiplexer.Theory.Transducer

set_option autoImplicit false

/-! # The index of a record file

A session's events are decoded from append-only record files, line by line, by a decoder that keeps
state from one line to the next. The index of a file remembers how far it was decoded, the decoder
state there, the permission requests open there, and sparse checkpoints: an offset, the number of
events before it and the decoder state at it. A reader that wants events from the middle starts
from the nearest checkpoint.

The decoder of a source is a parameter, a transducer from lines to events: nothing here depends on
what it computes. A decoder state is a value, so that its `clone` is the state itself. Errors of the
file system are left out. -/

namespace AgentMultiplexer.RuntimeEvents

/-! ## Events -/

structure RuntimeEvent where
  type : String
  itemID : String
  direction : String
  payload : List UInt8
  deriving DecidableEq

def typePermissionRequest : String := "permission_request"
def typePermissionResolved : String := "permission_resolved"

/-- What `applyPending` unmarshals from the payload of a request; `options` is raw JSON. -/
structure PermissionBody where
  requestID : String
  tool : String
  action : String
  options : List UInt8

/-- `Pending`: an open permission request. -/
structure Pending where
  requestID : String
  occurrence : String
  tool : String
  action : String
  options : List String

/-- The JSON `applyPending` reads: the body of a request, if it unmarshals, and `pendingOptions`. -/
structure PayloadReader where
  body : List UInt8 → Option PermissionBody
  pendingOptions : List UInt8 → List String

/-- One round of `applyPending`: a request opens, a resolution closes its occurrence. -/
def PayloadReader.applyEvent (payloads : PayloadReader) (pending : List Pending)
    (ev : RuntimeEvent) : List Pending :=
  if ev.type = typePermissionRequest then
    match payloads.body ev.payload with
    | none => pending
    | some body =>
      if body.requestID = "" then pending
      else
        pending ++ [⟨body.requestID, ev.itemID, body.tool, body.action,
          payloads.pendingOptions body.options⟩]
  else if ev.type = typePermissionResolved then
    pending.eraseP fun p => p.occurrence = ev.itemID
  else pending

def PayloadReader.applyPending (payloads : PayloadReader) (pending : List Pending)
    (events : List RuntimeEvent) : List Pending :=
  events.foldl payloads.applyEvent pending

/-! ## The index -/

def newline : UInt8 := 10

def indexCheckpointBytes : Nat := 256 * 2 ^ 10
def indexCheckpointEvents : Nat := 512
def indexAnchorBytes : Nat := 32

/-- A file as `Stat` and reads see it; `ident` is what `os.SameFile` compares. -/
structure FileState where
  ident : Nat
  content : List UInt8
  modTime : Int

/-- The decoder of a source: a state machine from complete lines to events. -/
abbrev SourceDecoder (σ : Type) := Transducer σ (List UInt8) RuntimeEvent

structure IndexCheckpoint (σ : Type) where
  /-- Just past a newline, or 0. -/
  offset : Nat
  /-- Events of every line before the offset. -/
  events : Nat
  dec : σ

structure SourceIndex (σ : Type) where
  identity : Option Nat
  size : Nat
  modTime : Int
  /-- `end`: just past the last complete, indexed line. -/
  endOffset : Nat
  anchor : List UInt8
  events : Nat
  /-- The decoder state at the end. -/
  dec : σ
  /-- `open`: the permission requests open at the end. -/
  pending : List Pending
  cps : List (IndexCheckpoint σ)
  sinceCP : Nat
  eventsCP : Nat

structure IndexSnapshot where
  identity : Nat
  endOffset : Nat
  events : Nat
  deriving DecidableEq

section Index

variable {σ : Type} (decoder : SourceDecoder σ) (payloads : PayloadReader)

/-- `newSourceIndex`, and what `resetLocked` leaves. -/
def newSourceIndex : SourceIndex σ where
  identity := none
  size := 0
  modTime := 0
  endOffset := 0
  anchor := []
  events := 0
  dec := decoder.init
  pending := []
  cps := [⟨0, 0, decoder.init⟩]
  sinceCP := 0
  eventsCP := 0

namespace SourceIndex

/-- The bytes before an offset that `ReadAt` finds, at most `n` of them. -/
def bytesBefore (content : List UInt8) (offset n : Nat) : List UInt8 :=
  (content.drop (offset - n)).take n

/-- `stillPrefixLocked`: the indexed bytes are still the start of the file. -/
def stillPrefix (ix : SourceIndex σ) (f : FileState) : Bool :=
  if ix.identity ≠ some f.ident ∨ f.content.length < ix.endOffset then false
  else if ix.anchor.length = 0 then ix.endOffset = 0
  else bytesBefore f.content ix.endOffset ix.anchor.length = ix.anchor

/-- A line has been decoded; a checkpoint follows where the last one is far enough. -/
def scanLine (ix : SourceIndex σ) (line : List UInt8) : SourceIndex σ :=
  let out := decoder.step ix.dec line
  let ix := { ix with
    dec := out.1
    pending := payloads.applyPending ix.pending out.2
    endOffset := ix.endOffset + line.length
    events := ix.events + out.2.length
    sinceCP := ix.sinceCP + line.length
    eventsCP := ix.eventsCP + out.2.length }
  if indexCheckpointBytes ≤ ix.sinceCP ∨ indexCheckpointEvents ≤ ix.eventsCP then
    { ix with cps := ix.cps ++ [⟨ix.endOffset, ix.events, ix.dec⟩], sinceCP := 0, eventsCP := 0 }
  else ix

/-- The anchor after a scan whose last line was `last`. -/
def scanAnchor (content last : List UInt8) (endOffset : Nat) : List UInt8 :=
  if indexAnchorBytes ≤ last.length then last.drop (last.length - indexAnchorBytes)
  else bytesBefore content endOffset (min indexAnchorBytes endOffset)

/-- `scanLocked`: decode the complete lines past the indexed end. -/
def scan (ix : SourceIndex σ) (content : List UInt8) : SourceIndex σ :=
  let new := Lines.lines newline (content.drop ix.endOffset)
  let ix := new.foldl (scanLine decoder payloads) ix
  match new.getLast? with
  | none => ix
  | some last => { ix with anchor := scanAnchor content last ix.endOffset }

/-- The start of `updateLocked`: an index of another file, or of a file that was cut or rewritten,
    is discarded. -/
def revalidate (ix : SourceIndex σ) (f : FileState) : SourceIndex σ :=
  match ix.identity with
  | none => ix
  | some ident =>
    if (ident = f.ident ∧ f.content.length = ix.size ∧ f.modTime = ix.modTime) ∨
        ix.stillPrefix f then ix
    else newSourceIndex decoder

/-- `updateLocked`, on the index. -/
def update (ix : SourceIndex σ) (f : FileState) : SourceIndex σ :=
  let ix := { ix.revalidate decoder f with
    identity := some f.ident, size := f.content.length, modTime := f.modTime }
  if ix.endOffset < f.content.length then ix.scan decoder payloads f.content else ix

/-- What `update` returns, from the index it leaves. -/
def snapshot (ix : SourceIndex σ) (f : FileState) : IndexSnapshot :=
  ⟨f.ident, ix.endOffset, ix.events⟩

/-- `checkpointForLocked`: the latest checkpoint with at most this many events before it. A negative
    count has none: the code indexes below the list. -/
def checkpointFor (ix : SourceIndex σ) (events : Int) : Option (IndexCheckpoint σ) :=
  match ix.cps.findIdx fun cp => events < cp.events with
  | 0 => none
  | i + 1 => ix.cps[i]?

/-- `position`: where to start reading to emit the events after the first `skip`. -/
def position (ix : SourceIndex σ) (skip : Int) : Option (IndexCheckpoint σ) :=
  if ix.events ≤ skip then some ⟨ix.endOffset, ix.events, ix.dec⟩ else ix.checkpointFor skip

/-- The events with ordinals in `[first, last)`, the head having ordinal `n`. -/
def keepRange (first last : Int) : Nat → List RuntimeEvent → List RuntimeEvent
  | _, [] => []
  | n, ev :: evs =>
    if first ≤ n ∧ n < last then ev :: keepRange first last (n + 1) evs
    else keepRange first last (n + 1) evs

/-- The loop of `readRange`; `none` when the lines end too early. -/
def readLoop (first last : Int) : List (List UInt8) → σ → Nat → Option (List RuntimeEvent)
  | [], _, n => if last ≤ n then some [] else none
  | line :: ls, dec, n =>
    if last ≤ n then some []
    else
      let out := decoder.step dec line
      (readLoop first last ls out.1 (n + out.2.length)).map (keepRange first last n out.2 ++ ·)

end SourceIndex

end Index

end AgentMultiplexer.RuntimeEvents
