import AgentMultiplexer.Daemon.EventRounds
import AgentMultiplexer.Theory.GoMap
import AgentMultiplexer.Theory.GoStrings
import AgentMultiplexer.Theory.Transition

set_option autoImplicit false

/-! # The cache of event cursors

`pageForRelease` prepares a page without the pager's lock and commits it under the lock, after the
caller was authorized again. A cursor that was handed out is an entry under its token. An entry is
what `computePage` returned; it keeps the page that moved it on, once one was committed. Entries are
told apart by where they were allocated: a commit is about the entry its page was prepared from,
not about another one that came under the same token meanwhile.

Requests run side by side: between preparing and committing one of them, others are prepared and
committed, files change and time passes. -/

namespace AgentMultiplexer.Daemon.EventPager

open RuntimeEvents

/-- `sessionEventPager`; `nextAddr` is the next allocation. -/
structure Pager (δ : Type) where
  entries : GoMap Token (Cursor δ)
  closed : Bool
  nextAddr : Nat

/-- `sessionEventPageAttempt`; `original` is the entry, by where it was allocated. -/
structure Attempt (δ : Type) where
  body : Page
  token : Option Token
  original : Option Nat
  successor : Option (Cursor δ)

/-- What `parseSessionEventFields` returns: a sequence to start after, or a cursor. -/
inductive Query
  | start (after : Nat)
  | cursor (token : Token)

/-- A query: whether its principal is a session, what the sources resolve to, its circumstances, and
    whether its context is cancelled at one of the checks outside `computePage`. -/
structure Request (β : Type) where
  isSession : Bool
  subject : String
  target : String
  query : Query
  resolved : Except PageError (SourceSet β)
  poll : Poll
  cancelled : Bool

/-- The loop of `validateCursorSources`. -/
def validateSources (view : Nat → World) : Nat → List Source → List SourceSpec → Bool
  | _, [], [] => true
  | op, src :: rest, spec :: specs =>
    if src.spec ≠ spec then false
    else
      match src.identity with
      | none => validateSources view op rest specs
      | some ident =>
        src.sameFile view op ident && src.anchorValid ((view (op + 2)).data ident) &&
          validateSources view (op + 3) rest specs
  | _, _, _ => false

section Cache

variable {δ β : Type} (lim : Limits) (dec : PageDecoder δ β) (enc : Encoding)

/-! ## Preparing -/

/-- A cursor that was not used for too long. -/
def Cursor.expired (c : Cursor δ) (now : Int) : Bool := lim.cursorTTL < now - c.lastUsed

/-- `cloneSessionEventCursor`. -/
def Cursor.clone (c : Cursor δ) (addr : Nat) : Cursor δ :=
  { c with addr := addr, page := none, nextCursor := none }

/-- `preparePage` for a cursor. -/
def Pager.prepareCursor (p : Pager δ) (req : Request β) (set : SourceSet β) (token : Token) :
    Except PageError (Attempt δ) :=
  if p.closed then .error .cursorInvalid
  else
    match p.entries.lookup token with
    | none => .error .cursorInvalid
    | some entry =>
      if entry.expired lim req.poll.now ∨ entry.subject ≠ req.subject ∨
          entry.target ≠ req.target ∨ entry.signature ≠ set.signature then
        .error .cursorInvalid
      else
        match entry.page with
        | some page =>
          if validateSources req.poll.view 0 entry.sources set.sources then
            .ok ⟨page, some token, some entry.addr, none⟩
          else .error .cursorInvalid
        | none =>
          (computePage lim dec enc req.poll (entry.clone p.nextAddr) set).map fun computed =>
            ⟨computed.1, some token, some entry.addr, some computed.2⟩

def Pager.preparePage (p : Pager δ) (req : Request β) : Except PageError (Attempt δ) :=
  if req.cancelled then .error .cancelled
  else if !req.isSession ∨ GoStrings.trimSpace req.subject = "" ∨
      GoStrings.trimSpace req.target = "" then .error .denied
  else
    match req.resolved with
    | .error err => .error err
    | .ok set =>
      if set.target ≠ req.target then .error .denied
      else
        match req.query with
        | .start after =>
          match newCursor dec p.nextAddr req.subject set after req.poll.now with
          | none => .error .unsupported
          | some state =>
            (computePage lim dec enc req.poll state set).map fun computed =>
              ⟨computed.1, none, none, some computed.2⟩
        | .cursor token => p.prepareCursor lim dec enc req set token

/-! ## Limits -/

def expire (entries : GoMap Token (Cursor δ)) (now : Int) : GoMap Token (Cursor δ) :=
  entries.filter fun _ entry => !entry.expired lim now

def entriesOf (entries : GoMap Token (Cursor δ)) (subject : String) : List (Cursor δ) :=
  (entries.entries.map fun e => e.2).filter fun entry => entry.subject = subject

/-- The subject has too many entries, or too large ones. -/
def subjectOver (entries : GoMap Token (Cursor δ)) (subject : String) : Bool :=
  lim.cursorPerSubject < (entriesOf entries subject).length ||
    lim.cursorSubjectBytes < ((entriesOf entries subject).map Cursor.bytes).sum

/-- The loop of `enforceLimitsLocked` goes on. -/
def overLimits (entries : GoMap Token (Cursor δ)) (subject : String) : Bool :=
  subjectOver lim entries subject || lim.cursorEntries < entries.len ||
    lim.cursorGlobalBytes < (entries.entries.map fun e => e.2.bytes).sum

/-- The entry that goes; the order of the list is that of one `range` over the map. -/
def oldest (entries : GoMap Token (Cursor δ)) (subject : String) : Option (Cursor δ) :=
  (if subjectOver lim entries subject then entriesOf entries subject
    else entries.entries.map fun e => e.2).foldl
    (fun best entry => some (best.elim entry fun b =>
      if entry.lastUsed < b.lastUsed then entry else b)) none

/-- The loop of `enforceLimitsLocked`; every round takes one entry away. -/
def evict (subject : String) : Nat → GoMap Token (Cursor δ) → GoMap Token (Cursor δ)
  | 0, entries => entries
  | fuel + 1, entries =>
    if overLimits lim entries subject then
      match (oldest lim entries subject).bind Cursor.token with
      | none => entries
      | some token => evict subject fuel (entries.erase token)
    else entries

def enforceLimits (now : Int) (entries : GoMap Token (Cursor δ)) (subject : String) :
    GoMap Token (Cursor δ) :=
  evict lim subject entries.len (expire lim entries now)

/-! ## Committing -/

/-- `admitLocked` before it enforces the limits, with the subject it enforces them for. -/
def place (entries : GoMap Token (Cursor δ)) (cursor : Cursor δ) (now : Int) :
    GoMap Token (Cursor δ) × List String :=
  let cursor := { cursor with bytes := cursor.memoryBytes dec enc }
  match cursor.token with
  | none => (entries, [])
  | some token =>
    if lim.cursorSubjectBytes < cursor.bytes then (entries, [])
    else
      match entries.lookup token with
      | some old => (entries.insert token { old with lastUsed := now }, [])
      | none => (entries.insert token { cursor with lastUsed := now }, [cursor.subject])

/-- What a commit answers, the entries before any limit is enforced, and the subjects for which
    limits then are. -/
structure Settled (δ : Type) where
  answer : Except PageError Page
  entries : GoMap Token (Cursor δ)
  subjects : List String

/-- `commitPage` for an entry that is still there and keeps no page yet. -/
def settleEntry (entries : GoMap Token (Cursor δ)) (attempt : Attempt δ) (token : Token)
    (entry : Cursor δ) (now : Int) : Settled δ :=
  match attempt.successor with
  | none => ⟨.error .cursorInvalid, entries, []⟩
  | some next =>
    if next.token = some token then
      ⟨.ok attempt.body, entries.insert token { entry with lastUsed := now }, []⟩
    else
      let entry := { entry with
        lastUsed := now, page := some attempt.body, nextCursor := next.token }
      let entry := { entry with bytes := entry.memoryBytes dec enc }
      let placed := place lim dec enc (entries.insert token entry) next now
      ⟨.ok attempt.body, placed.1, placed.2 ++ [entry.subject]⟩

/-- `commitPage`, up to the limits. -/
def Pager.settle (p : Pager δ) (attempt : Attempt δ) (now : Int) (cancelled : Bool) : Settled δ :=
  if cancelled then ⟨.error .cancelled, p.entries, []⟩
  else if p.closed then ⟨.error .cursorInvalid, p.entries, []⟩
  else
    let entries := expire lim p.entries now
    match attempt.original, attempt.token with
    | some original, some token =>
      match entries.lookup token with
      | none => ⟨.error .cursorInvalid, entries, []⟩
      | some entry =>
        if entry.addr ≠ original then ⟨.error .cursorInvalid, entries, []⟩
        else
          match entry.page with
          | some page => ⟨.ok page, entries.insert token { entry with lastUsed := now }, []⟩
          | none => settleEntry lim dec enc entries attempt token entry now
    | _, _ =>
      match attempt.successor with
      | none => ⟨.error .cursorInvalid, entries, []⟩
      | some next =>
        let placed := place lim dec enc entries next now
        ⟨.ok attempt.body, placed.1, placed.2⟩

def Pager.commitPage (p : Pager δ) (attempt : Attempt δ) (now : Int) (cancelled : Bool) :
    Except PageError Page × Pager δ :=
  let settled := p.settle lim dec enc attempt now cancelled
  (settled.answer,
    { p with entries := settled.subjects.foldl (enforceLimits lim now) settled.entries })

/-! ## Runs -/

/-- A page that was answered: the cursor it was asked for and the entry that answered. -/
structure Answer where
  asked : Option Token
  entry : Option Nat
  page : Page

/-- The pager, the requests in flight, and the answers, the last one first. -/
structure PagerState (δ β : Type) where
  pager : Pager δ
  attempts : GoMap Nat (Request β × Attempt δ)
  answers : List Answer

inductive PagerEvent (β : Type)
  | prepare (id : Nat) (req : Request β)
  | discard (id : Nat)
  | commit (id : Nat) (now : Int) (cancelled : Bool)
  | close

def PagerState.initial : PagerState δ β := ⟨⟨∅, false, 0⟩, ∅, []⟩

def PagerState.commit (s : PagerState δ β) (id : Nat) (attempt : Attempt δ) (now : Int)
    (cancelled : Bool) : PagerState δ β :=
  let committed := s.pager.commitPage lim dec enc attempt now cancelled
  { pager := committed.2
    attempts := s.attempts.erase id
    answers := match committed.1 with
      | .error _ => s.answers
      | .ok page => ⟨attempt.token, attempt.original, page⟩ :: s.answers }

def PagerState.step (s : PagerState δ β) : PagerEvent β → Option (PagerState δ β)
  | .prepare id req =>
    if (s.attempts.lookup id).isSome then none
    else
      let allocated := { s with pager := { s.pager with nextAddr := s.pager.nextAddr + 1 } }
      match s.pager.preparePage lim dec enc req with
      | .error _ => some allocated
      | .ok attempt => some { allocated with attempts := s.attempts.insert id (req, attempt) }
  | .discard id => some { s with attempts := s.attempts.erase id }
  | .commit id now cancelled =>
    (s.attempts.lookup id).map fun flight => s.commit lim dec enc id flight.2 now cancelled
  | .close => some { s with pager := { s.pager with closed := true, entries := ∅ } }

end Cache

end AgentMultiplexer.Daemon.EventPager
