import AgentMultiplexer.Theory.GoMap
import AgentMultiplexer.Theory.Transition
import Mathlib.Data.Finset.Card
import Mathlib.Data.List.Sort
import Mathlib.Data.String.Basic

set_option autoImplicit false

/-! # One lock per session id

`keyedLocks` keeps one mutex per key in a table, made on first use and counted by its users. A call
of `lock` runs in three parts: under the table's mutex it counts itself in at every distinct key,
then it locks the entries one after the other in ascending order of the keys, and the release it
returns unlocks them in the reverse order and counts itself out under the table's mutex again.
`tryLock` is the same for one key, with one attempt in place of the wait.

Each part is a critical section, so each is one step here; an entry is a cell of a heap, so that two
callers may hold pointers to different entries of one key. -/

namespace AgentMultiplexer.Daemon

open List

/-! ## Entries and calls -/

/-- A goroutine. -/
abbrev Caller := Nat

/-- A `*keyedLock`. -/
abbrev Pointer := Nat

/-- `keyedLock`: the mutex, with the goroutine that holds it, and the count of its users. -/
structure KeyedLock where
  holder : Option Caller
  refs : Nat

/-- Where a call of `lock` or `tryLock` is. -/
inductive LockPhase
  /-- `tryLock` before its attempt. -/
  | trying
  /-- `lock` while it locks its entries, and after it returned. -/
  | locking
  /-- In the release, or in the drop of a failed `tryLock`. -/
  | unlocking
  deriving DecidableEq

/-- A call in progress: its `names` and `held`, and how many of them, from the first, it has locked. -/
structure LockCall where
  held : List (String × Pointer)
  locked : Nat
  phase : LockPhase

def LockCall.names (call : LockCall) : List String := call.held.map Prod.fst

/-- The keys whose entries the call has locked. -/
def LockCall.owned (call : LockCall) : List String := (call.held.take call.locked).map Prod.fst

/-- `keyedLocks`, with the entries ever allocated and the calls in progress. -/
structure KeyedLocks where
  locks : GoMap String Pointer
  heap : GoMap Pointer KeyedLock
  next : Pointer
  calls : GoMap Caller LockCall

namespace KeyedLocks

def empty : KeyedLocks := ⟨∅, ∅, 0, ∅⟩

/-! ## The critical sections -/

/-- The loop over the sorted keys, which passes over a key equal to the one before it. -/
def distinctAfter : String → List String → List String
  | _, [] => []
  | prev, key :: rest =>
    if key = prev then distinctAfter key rest else key :: distinctAfter key rest

def distinct : List String → List String
  | [] => []
  | key :: rest => key :: distinctAfter key rest

/-- The keys a call of `lock` takes, in the order it takes them. -/
def lockNames (keys : List String) : List String := distinct (keys.insertionSort (· ≤ ·))

/-- `l.locks[key]`, made if it is nil. -/
def entryFor (l : KeyedLocks) (key : String) : KeyedLocks × Pointer :=
  match l.locks.lookup key with
  | some p => (l, p)
  | none =>
    ({ l with
        locks := l.locks.insert key l.next
        heap := l.heap.insert l.next ⟨none, 0⟩
        next := l.next + 1 }, l.next)

/-- A write through a pointer. -/
def modify (l : KeyedLocks) (p : Pointer) (f : KeyedLock → KeyedLock) : KeyedLocks :=
  match l.heap.lookup p with
  | none => l
  | some entry => { l with heap := l.heap.insert p (f entry) }

def setCall (l : KeyedLocks) (c : Caller) (call : LockCall) : KeyedLocks :=
  { l with calls := l.calls.insert c call }

/-- One round of the counting-in loop. -/
def ref (c : Caller) (l : KeyedLocks) (key : String) : KeyedLocks :=
  let (l', p) := l.entryFor key
  let l' := l'.modify p fun entry => { entry with refs := entry.refs + 1 }
  match l'.calls.lookup c with
  | none => l'
  | some call => l'.setCall c { call with held := call.held ++ [(key, p)] }

/-- The counting-in section: a new call that counts itself in at each of `names`. -/
def refAll (l : KeyedLocks) (c : Caller) (names : List String) (phase : LockPhase) : KeyedLocks :=
  names.foldl (ref c) (l.setCall c ⟨[], 0, phase⟩)

/-- One round of the counting-out loop; the last user deletes the key. -/
def unref (c : Caller) (l : KeyedLocks) (name : String × Pointer) : KeyedLocks :=
  match l.calls.lookup c, l.heap.lookup name.2 with
  | some call, some entry =>
    { l with
      heap := l.heap.insert name.2 { entry with refs := entry.refs - 1 }
      locks := if entry.refs - 1 = 0 then l.locks.erase name.1 else l.locks
      calls := l.calls.insert c { call with held := call.held.tail } }
  | _, _ => l

/-- The counting-out section, with which the call ends. -/
def unrefAll (l : KeyedLocks) (c : Caller) (held : List (String × Pointer)) : KeyedLocks :=
  let l' := held.foldl (unref c) l
  { l' with calls := l'.calls.erase c }

/-- The parts of the calls, in any interleaving. -/
inductive Event
  | lock (c : Caller) (keys : List String)
  | tryLock (c : Caller) (key : String)
  /-- The next `entry.mu.Lock()` of a `lock` goes through. -/
  | acquire (c : Caller)
  /-- The `entry.mu.TryLock()` of a `tryLock`. -/
  | attempt (c : Caller)
  /-- The release is called. -/
  | unlock (c : Caller)
  /-- The next `mu.Unlock()` of the release. -/
  | release (c : Caller)
  | drop (c : Caller)

def step (l : KeyedLocks) : Event → Option KeyedLocks
  | .lock c keys =>
    match l.calls.lookup c with
    | some _ => none
    | none => some (l.refAll c (lockNames keys) .locking)
  | .tryLock c key =>
    match l.calls.lookup c with
    | some _ => none
    | none => some (l.refAll c [key] .trying)
  | .acquire c => do
      let call ← l.calls.lookup c
      let name ← call.held[call.locked]?
      let entry ← l.heap.lookup name.2
      if call.phase = .locking ∧ entry.holder = none then
        some ((l.modify name.2 fun e => { e with holder := some c }).setCall c
          { call with locked := call.locked + 1 })
      else none
  | .attempt c => do
      let call ← l.calls.lookup c
      let name ← call.held[call.locked]?
      let entry ← l.heap.lookup name.2
      if call.phase ≠ .trying then none
      else if entry.holder = none then
        some ((l.modify name.2 fun e => { e with holder := some c }).setCall c
          { call with locked := call.locked + 1, phase := .locking })
      else some (l.setCall c { call with phase := .unlocking })
  | .unlock c => do
      let call ← l.calls.lookup c
      if call.phase = .locking ∧ call.locked = call.held.length then
        some (l.setCall c { call with phase := .unlocking })
      else none
  | .release c => do
      let call ← l.calls.lookup c
      match call.phase, call.locked with
      | .unlocking, n + 1 =>
        let name ← call.held[n]?
        some ((l.modify name.2 fun e => { e with holder := none }).setCall c
          { call with locked := n })
      | _, _ => none
  | .drop c => do
      let call ← l.calls.lookup c
      if call.phase = .unlocking ∧ call.locked = 0 then some (l.unrefAll c call.held) else none

/-! ## Who holds, waits for and uses a key -/

/-- The caller has locked the key's entry. -/
def Holds (l : KeyedLocks) (c : Caller) (key : String) : Prop :=
  ∃ call, l.calls.lookup c = some call ∧ key ∈ call.owned

/-- The next entry the caller's `lock` locks is the key's. -/
def WaitsFor (l : KeyedLocks) (c : Caller) (key : String) : Prop :=
  ∃ call, l.calls.lookup c = some call ∧ call.phase = .locking ∧
    call.names[call.locked]? = some key

/-- The caller is inside a call that names the key: it is counted in and not yet out. -/
def Uses (l : KeyedLocks) (c : Caller) (key : String) : Prop :=
  ∃ call, l.calls.lookup c = some call ∧ key ∈ call.names

/-- The caller waits for the key or will, once it has the entries before it. -/
def Queued (l : KeyedLocks) (c : Caller) (key : String) : Prop :=
  ∃ call, l.calls.lookup c = some call ∧ call.phase ≠ .unlocking ∧
    key ∈ (call.held.drop call.locked).map Prod.fst

/-- The caller has unlocked the key's entry, or did not get it, and is still to count itself out. -/
def Departing (l : KeyedLocks) (c : Caller) (key : String) : Prop :=
  ∃ call, l.calls.lookup c = some call ∧ call.phase = .unlocking ∧
    key ∈ (call.held.drop call.locked).map Prod.fst

/-! ## The keys of a call -/

variable {keys : List String}

theorem mem_distinctAfter {prev key : String} : key ∈ distinctAfter prev keys → key ∈ keys := by
  fun_induction distinctAfter prev keys with
  | case1 => exact id
  | case2 k rest ih => exact fun h => mem_cons_of_mem _ (ih h)
  | case3 prev k rest hne ih =>
    intro h
    rcases mem_cons.mp h with rfl | h
    · exact mem_cons_self
    · exact mem_cons_of_mem _ (ih h)

theorem mem_distinctAfter_or {prev key : String} (h : key ∈ keys) :
    key = prev ∨ key ∈ distinctAfter prev keys := by
  fun_induction distinctAfter prev keys with
  | case1 => exact absurd h not_mem_nil
  | case2 k rest ih =>
    rcases mem_cons.mp h with h | h
    · exact .inl h
    · exact ih h
  | case3 prev k rest hne ih =>
    rcases mem_cons.mp h with rfl | h
    · exact .inr mem_cons_self
    rcases ih h with rfl | h
    · exact .inr mem_cons_self
    · exact .inr (mem_cons_of_mem _ h)

theorem pairwise_distinctAfter {prev : String}
    (hprev : ∀ k ∈ keys, prev ≤ k) (hkeys : keys.Pairwise (· ≤ ·)) :
    (prev :: distinctAfter prev keys).Pairwise (· < ·) := by
  fun_induction distinctAfter prev keys with
  | case1 => exact pairwise_singleton _ _
  | case2 k rest ih => exact ih (pairwise_cons.mp hkeys).1 (pairwise_cons.mp hkeys).2
  | case3 prev k rest hne ih =>
    obtain ⟨hk, hrest⟩ := pairwise_cons.mp hkeys
    have hlt : prev < k := lt_of_le_of_ne (hprev k mem_cons_self) (.symm hne)
    refine pairwise_cons.mpr ⟨forall_mem_cons.mpr ⟨hlt, fun j hj => ?_⟩, ih hk hrest⟩
    exact lt_of_lt_of_le hlt (hk j (mem_distinctAfter hj))

/-- The entries of a call are locked in strictly ascending order of their keys. -/
theorem pairwise_lockNames (keys : List String) : (lockNames keys).Pairwise (· < ·) := by
  have hsorted := pairwise_insertionSort (· ≤ ·) keys
  rw [lockNames]
  cases h : keys.insertionSort (· ≤ ·) with
  | nil => exact .nil
  | cons k rest =>
    rw [h] at hsorted
    obtain ⟨hk, hrest⟩ := pairwise_cons.mp hsorted
    exact pairwise_distinctAfter hk hrest

@[simp] theorem mem_lockNames {key : String} : key ∈ lockNames keys ↔ key ∈ keys := by
  rw [← mem_insertionSort (· ≤ ·) (l := keys), lockNames]
  cases keys.insertionSort (· ≤ ·) with
  | nil => rfl
  | cons k rest =>
    rw [distinct, mem_cons, mem_cons]
    constructor
    · rintro (h | h)
      · exact .inl h
      · exact .inr (mem_distinctAfter h)
    · rintro (h | h)
      · exact .inl h
      · exact mem_distinctAfter_or h

end KeyedLocks

end AgentMultiplexer.Daemon
