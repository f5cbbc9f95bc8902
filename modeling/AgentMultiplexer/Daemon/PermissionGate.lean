import AgentMultiplexer.Daemon.KeyedLocks
import AgentMultiplexer.Theory.GoStrings

set_option autoImplicit false

/-! # The permission gate

`runtimePermissionGate` binds the decisions about permission requests to one runtime of a subject: a
runtime that is published gets a generation, a request is bound to the generation it was seen on, and
a decision names the generation and the request.

The machine below is the gate of one subject. A call holds the subject's lock across its callbacks
(one key of a `KeyedLocks`, so at most one call holds it), except `retireRequest`, which takes only
`mu`. What a call does under `mu` is one event; so is each callback, with its result. The record in
`runtimes` is copied, but its maps are shared by the copies: they are references into a heap.

The gate keeps no runtime alive: it keeps the text of a pointer. A runtime whose process ended and
that nothing refers to leaves its address to a later one. -/

namespace AgentMultiplexer.Daemon.Permission

/-- A runtime, as a value of an interface: its type, its address and which of the objects that have
    had the address it is. -/
structure Handle where
  type : String
  pointer : String
  serial : Nat
  deriving DecidableEq

/-- `permissionRuntimeIdentity`: the text of `%T:%p`. -/
def permissionRuntimeIdentity (handle : Handle) : String := handle.type ++ ":" ++ handle.pointer

abbrev MapRef := Nat

structure PermissionRuntime where
  identity : String
  generation : String
  requests : MapRef
  claimed : MapRef
  excluded : MapRef
  deriving DecidableEq

structure PermissionRuntimeToken where
  identity : String
  generation : String
  deriving DecidableEq

def blank (s : String) : Bool := GoStrings.trimSpace s = ""

/-! ## Calls -/

inductive Call
  /-- `publishWithBaseline`, with or without a baseline to capture. -/
  | publish (baseline : Bool)
  | observe (handle : Handle) (excluded : List String)
  | retire
  | retireAnd
  | retireTokenAnd (token : PermissionRuntimeToken)
  | bindRequest (requestID : String) (handle : Handle)
  | retireRequest (requestID : String) (handle : Handle)
  | consume (generation requestID : String) (handle : Handle)
  deriving DecidableEq

def Call.handle : Call → Option Handle
  | .observe handle _ | .bindRequest _ handle | .retireRequest _ handle | .consume _ _ handle =>
    some handle
  | .publish _ | .retire | .retireAnd | .retireTokenAnd _ => none

/-- The checks of the arguments, before anything is locked. -/
def Call.wellFormed : Call → Bool
  | .retireTokenAnd token => token.identity ≠ "" && token.generation ≠ ""
  | .bindRequest requestID _ | .retireRequest requestID _ => !blank requestID
  | .consume generation requestID _ => !blank generation && !blank requestID
  | .publish _ | .observe _ _ | .retire | .retireAnd => true

inductive Phase
  /-- At the subject's lock. -/
  | locking
  /-- At the baseline callback. -/
  | baseline
  /-- At the creation callback. -/
  | creating (excluded : List String)
  /-- At `observeLocked`. -/
  | observing (handle : Handle) (excluded : List String)
  /-- At the deletion of the record. -/
  | removing
  /-- At the stop callback. -/
  | stopping
  /-- At the checks of `bindRequest` and `consume`. -/
  | checking
  /-- At the validation callback, with the copy of the record. -/
  | validating (runtime : PermissionRuntime)
  /-- Where `bindRequest` adds the request. -/
  | binding (runtime : PermissionRuntime)
  /-- At the delivery callback. -/
  | delivering
  /-- `retireRequest`, which has no lock of the subject. -/
  | dropping
  | unlocking
  deriving DecidableEq

/-- The phase has the subject's lock. -/
def Phase.locked : Phase → Bool
  | .locking | .dropping => false
  | _ => true

structure Running where
  call : Call
  phase : Phase
  deriving DecidableEq

def Call.begin : Call → Phase
  | .retireRequest _ _ => .dropping
  | _ => .locking

/-- What a call does first under the subject's lock. -/
def Call.first : Call → Phase
  | .publish baseline => if baseline then .baseline else .creating []
  | .observe handle excluded => .observing handle excluded
  | .retire | .retireAnd | .retireTokenAnd _ => .removing
  | .bindRequest _ _ | .consume _ _ _ => .checking
  | .retireRequest _ _ => .unlocking

/-- The call still refers to the runtime. -/
def Running.uses (r : Running) (handle : Handle) : Bool :=
  r.call.handle = some handle ||
    match r.phase with
    | .observing h _ => h = handle
    | _ => false

/-! ## The machine -/

/-- What happened, for the record. -/
inductive Entry
  /-- A record was installed, for the runtime and with the baseline. -/
  | installed (generation : String) (handle : Handle) (excluded : List String)
  /-- The publication of the runtime returned the generation. -/
  | published (handle : Handle) (generation : String)
  | bound (generation requestID : String)
  /-- `consume` let the decision through to the runtime. -/
  | accepted (generation requestID : String) (handle : Handle)
  /-- `consume` called `deliver`. -/
  | delivered (generation requestID : String) (handle : Handle)
  deriving DecidableEq

/-- The gate of one subject. `runtime` is the subject's entry of `runtimes`; `live` are the runtimes
    something refers to, and `serial` numbers the next one. -/
structure State where
  runtime : Option PermissionRuntime
  maps : MapRef → Finset String
  next : MapRef
  holder : Option Caller
  calls : GoMap Caller Running
  live : List Handle
  serial : Nat
  log : List Entry

inductive Event
  /-- A runtime that no publication creates. -/
  | appear (handle : Handle)
  /-- Nothing refers to the runtime any more. -/
  | exit (handle : Handle)
  | call (c : Caller) (call : Call)
  | acquire (c : Caller)
  | snapshot (c : Caller) (excluded : Option (List String))
  | create (c : Caller) (handle : Option Handle)
  /-- `observeLocked`, with the generation made from the random bytes if they can be read. -/
  | observe (c : Caller) (generation : Option String)
  | remove (c : Caller)
  | stop (c : Caller)
  | check (c : Caller)
  | validate (c : Caller) (ok : Bool)
  | bind (c : Caller)
  | deliver (c : Caller) (ok : Bool)
  | drop (c : Caller)
  | release (c : Caller)

namespace State

def initial : State := ⟨none, fun _ => ∅, 0, none, ∅, [], 0, []⟩

def setCall (s : State) (c : Caller) (call : Call) (phase : Phase) : State :=
  { s with calls := s.calls.insert c ⟨call, phase⟩ }

/-- A new object may have the address of none that is live. -/
def allocates (s : State) (handle : Handle) : Bool :=
  handle.serial = s.serial &&
    s.live.all fun h => permissionRuntimeIdentity h ≠ permissionRuntimeIdentity handle

def allocate (s : State) (handle : Handle) : State :=
  { s with live := handle :: s.live, serial := s.serial + 1 }

def install (s : State) (handle : Handle) (excluded : List String) (generation : String) : State :=
  { s with
    runtime := some
      ⟨permissionRuntimeIdentity handle, generation, s.next, s.next + 1, s.next + 2⟩
    maps := Function.update (Function.update (Function.update s.maps s.next ∅) (s.next + 1) ∅)
      (s.next + 2) (excluded.filter fun id => !blank id).toFinset
    next := s.next + 3
    log := .installed generation handle excluded :: s.log }

def observeLocked (s : State) (handle : Handle) (excluded : List String)
    (generation : Option String) : State × Option String :=
  match s.runtime.filter fun rt => rt.identity = permissionRuntimeIdentity handle with
  | some current => (s, some current.generation)
  | none =>
    match generation with
    | none => (s, none)
    | some generation => (s.install handle excluded generation, some generation)

/-- What a publication returns is on the record. -/
def publishes (s : State) (call : Call) (handle : Handle) : Option String → State
  | some generation =>
    match call with
    | .publish _ => { s with log := .published handle generation :: s.log }
    | _ => s
  | none => s

/-- `retire`, `retireAnd`, `retireTokenAnd` under `mu`: what becomes of the record, and whether the
    stop callback follows. -/
def remove (s : State) : Call → State × Bool
  | .retireTokenAnd token =>
    match s.runtime with
    | some rt =>
      if rt.identity ≠ token.identity ∨ rt.generation ≠ token.generation then (s, false)
      else ({ s with runtime := none }, true)
    | none => (s, false)
  | .retireAnd => ({ s with runtime := none }, true)
  | _ => ({ s with runtime := none }, false)

/-- The checks of `bindRequest`; the copy of the record if they pass. -/
def bindCheck (s : State) (requestID : String) (handle : Handle) : Option PermissionRuntime := do
  let rt ← s.runtime
  if rt.identity ≠ permissionRuntimeIdentity handle then none
  else if requestID ∈ s.maps rt.excluded then none
  else if requestID ∈ s.maps rt.claimed then none
  else some rt

/-- The checks of `consume`. -/
def consumeCheck (s : State) (generation requestID : String) (handle : Handle) :
    Option PermissionRuntime := do
  let rt ← s.runtime
  if rt.generation ≠ generation ∨ rt.identity ≠ permissionRuntimeIdentity handle then none
  else if requestID ∉ s.maps rt.requests then none
  else if requestID ∈ s.maps rt.claimed then none
  else some rt

/-- `consume` claims the request before it delivers. -/
def claim (s : State) (rt : PermissionRuntime) (requestID : String) (handle : Handle) : State :=
  { s with
    runtime := some rt
    maps := Function.update s.maps rt.claimed (insert requestID (s.maps rt.claimed))
    log := .accepted rt.generation requestID handle :: s.log }

/-- The second half of `bindRequest`, on the copy of the record it has. -/
def bind (s : State) (rt : PermissionRuntime) (requestID : String) : State :=
  { s with
    runtime := some rt
    maps := Function.update s.maps rt.requests (insert requestID (s.maps rt.requests))
    log := .bound rt.generation requestID :: s.log }

def retireRequest (s : State) (requestID : String) (handle : Handle) : State :=
  match s.runtime with
  | some rt =>
    if rt.identity = permissionRuntimeIdentity handle then
      { s with
        runtime := some rt
        maps := Function.update s.maps rt.requests ((s.maps rt.requests).erase requestID) }
    else s
  | none => s

def step (s : State) : Event → Option State
  | .appear handle => if s.allocates handle then some (s.allocate handle) else none
  | .exit handle =>
    if s.calls.entries.all fun e => !e.2.uses handle then
      some { s with live := s.live.filter (· ≠ handle) }
    else none
  | .call c call =>
    match s.calls.lookup c with
    | some _ => none
    | none =>
      if call.wellFormed && call.handle.all (· ∈ s.live) then some (s.setCall c call call.begin)
      else none
  | .acquire c =>
    match s.calls.lookup c, s.holder with
    | some ⟨call, .locking⟩, none => some ({ s with holder := some c }.setCall c call call.first)
    | _, _ => none
  | .snapshot c excluded =>
    match s.calls.lookup c with
    | some ⟨call, .baseline⟩ => some (s.setCall c call (excluded.elim .unlocking .creating))
    | _ => none
  | .create c handle =>
    match s.calls.lookup c, handle with
    | some ⟨call, .creating _⟩, none => some (s.setCall c call .unlocking)
    | some ⟨call, .creating excluded⟩, some handle =>
      if handle ∈ s.live then some (s.setCall c call (.observing handle excluded))
      else if s.allocates handle then
        some ((s.allocate handle).setCall c call (.observing handle excluded))
      else none
    | _, _ => none
  | .observe c generation =>
    match s.calls.lookup c with
    | some ⟨call, .observing handle excluded⟩ =>
      let (s', result) := s.observeLocked handle excluded generation
      some ((s'.publishes call handle result).setCall c call .unlocking)
    | _ => none
  | .remove c =>
    match s.calls.lookup c with
    | some ⟨call, .removing⟩ =>
      let (s', stops) := s.remove call
      some (s'.setCall c call (if stops then .stopping else .unlocking))
    | _ => none
  | .stop c =>
    match s.calls.lookup c with
    | some ⟨call, .stopping⟩ => some (s.setCall c call .unlocking)
    | _ => none
  | .check c =>
    match s.calls.lookup c with
    | some ⟨.bindRequest requestID handle, .checking⟩ =>
      some (s.setCall c (.bindRequest requestID handle)
        ((s.bindCheck requestID handle).elim .unlocking .validating))
    | some ⟨.consume generation requestID handle, .checking⟩ =>
      match s.consumeCheck generation requestID handle with
      | some rt =>
        some ((s.claim rt requestID handle).setCall c (.consume generation requestID handle)
          (.validating rt))
      | none => some (s.setCall c (.consume generation requestID handle) .unlocking)
    | _ => none
  | .validate c ok =>
    match s.calls.lookup c with
    | some ⟨call, .validating rt⟩ =>
      some (s.setCall c call
        (if !ok then .unlocking
        else match call with
          | .bindRequest _ _ => .binding rt
          | _ => .delivering))
    | _ => none
  | .bind c =>
    match s.calls.lookup c with
    | some ⟨.bindRequest requestID handle, .binding rt⟩ =>
      some ((s.bind rt requestID).setCall c (.bindRequest requestID handle) .unlocking)
    | _ => none
  | .deliver c _ =>
    match s.calls.lookup c with
    | some ⟨.consume generation requestID handle, .delivering⟩ =>
      some ({ s with log := .delivered generation requestID handle :: s.log }.setCall c
        (.consume generation requestID handle) .unlocking)
    | _ => none
  | .drop c =>
    match s.calls.lookup c with
    | some ⟨.retireRequest requestID handle, .dropping⟩ =>
      some { s.retireRequest requestID handle with calls := s.calls.erase c }
    | _ => none
  | .release c =>
    match s.calls.lookup c with
    | some ⟨_, .unlocking⟩ => some { s with holder := none, calls := s.calls.erase c }
    | _ => none

end State

end AgentMultiplexer.Daemon.Permission
