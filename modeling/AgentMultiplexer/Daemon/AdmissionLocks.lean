import AgentMultiplexer.Daemon.Admission
import AgentMultiplexer.Daemon.KeyedLockRuns
import AgentMultiplexer.Theory.LockOrder

set_option autoImplicit false

/-! # Which locks a section holds

Where a section is says which locks it holds: the gate from `RLock` to `RUnlock`, its session locks
from the call of `lock` to the end of the release, `creationMu` in between, and the gate exclusively
or nothing else. With the order of the phases (the gate, then the session locks ascending, then
`creationMu`) this gives that no circle of waits is reachable. -/

namespace AgentMultiplexer.Daemon

open GoMap Option State Thread Phase

/-- The phase holds the gate shared. -/
def Phase.gated : Phase → Bool
  | .planning _ | .entering _ | .spinning | .alone => false
  | _ => true

/-- The phase holds the gate exclusively. -/
def Phase.solitary : Phase → Bool
  | .alone => true
  | _ => false

/-- The phase holds `creationMu`. -/
def Phase.creates : Phase → Bool
  | .checking _ _ | .uncreating _ _ => true
  | .inside (some plan) => plan.creation
  | _ => false

/-- The call of a section that has all its session locks. -/
def Plan.Admits (plan : Plan) (call : LockCall) : Prop :=
  call.phase = .locking ∧ call.locked = call.held.length ∧
    call.names = KeyedLocks.lockNames plan.keys

/-- The call in the table of session locks fits where the section is. -/
def CallFits : Option Phase → Option LockCall → Prop
  | some (.locking plan), o =>
    ∃ call, o = some call ∧ call.names = KeyedLocks.lockNames plan.keys
  | some (.creating plan), o | some (.checking plan _), o =>
    ∃ call, o = some call ∧ plan.creation = true ∧ plan.Admits call
  | some (.inside (some plan)), o | some (.uncreating plan _), o =>
    ∃ call, o = some call ∧ plan.Admits call
  | some (.unlocking _), o => ∃ call, o = some call
  | _, o => o = none

namespace State

variable {s s' : State} {t d : Caller} {th th' : Thread} {o' : Option Thread}

/-- What the locks are in every state: the owners the phases say. -/
structure LockInv (s : State) : Prop where
  table : s.locks.Inv
  calls : ∀ t, CallFits ((s.threads.lookup t).map Thread.phase) (s.locks.calls.lookup t)
  gate : ∀ t, t ∈ s.readers ↔ ∃ th, s.threads.lookup t = some th ∧ th.phase.gated = true
  writer : ∀ t, s.writer = some t ↔ ∃ th, s.threads.lookup t = some th ∧ th.phase.solitary = true
  creation : ∀ t, s.creationMu = some t ↔
    ∃ th, s.threads.lookup t = some th ∧ th.phase.creates = true
  apart : ∀ w, s.writer = some w → s.readers = []

theorem lockInv_initial : LockInv initial where
  table := KeyedLocks.inv_empty
  calls t := rfl
  gate t := by simp [initial]
  writer t := by simp [initial]
  creation t := by simp [initial]
  apart w h := by simp [initial] at h

/-! ## The owners of one lock -/

section owner

variable {f : Phase → Bool} {owner owner' : Caller → Prop}

/-- A step of `t` to `o'` passes the lock held in the phases `f` on: to `t`, from `t` or not at all. -/
def Passes (t : Caller) (o' : Option Thread) (f : Phase → Bool) (owner owner' : Caller → Prop) :
    Prop :=
  ∀ d, owner' d ↔ if d = t then o'.any (fun th => f th.phase) = true else owner d

theorem Passes.acquire (ho : o'.any (fun th => f th.phase) = true)
    (howner : ∀ d, owner' d ↔ d = t ∨ owner d) : Passes t o' f owner owner' := by
  intro d
  rw [howner, ho]
  by_cases hd : d = t
  · simp [hd]
  · simp [hd]

theorem Passes.release (ho : o'.any (fun th => f th.phase) = false)
    (howner : ∀ d, owner' d ↔ d ≠ t ∧ owner d) : Passes t o' f owner owner' := by
  intro d
  rw [howner, ho]
  by_cases hd : d = t
  · simp [hd]
  · simp [hd]

variable (howner : ∀ d, owner d ↔ ∃ th, s.threads.lookup d = some th ∧ f th.phase = true)

include howner

theorem owner_iff (hth : s.threads.lookup t = some th) : owner t ↔ f th.phase = true := by
  rw [howner, hth]
  simp

theorem Passes.keep (ho : o'.any (fun th => f th.phase) = (s.threads.lookup t).any (f ·.phase)) :
    Passes t o' f owner owner := by
  intro d
  split
  next heq => rw [heq, howner, ho, Option.any_eq_true]
  next => rfl

theorem Passes.stay {old : Phase} (hth : s.threads.lookup t = some th) (hphase : th.phase = old)
    (ho : o'.any (fun th => f th.phase) = f old) : Passes t o' f owner owner := by
  refine .keep howner ?_
  rw [hth, ho, ← hphase]
  rfl

theorem Passes.owners (h : Passes t o' f owner owner')
    (hthreads : ∀ d, s'.threads.lookup d = if d = t then o' else s.threads.lookup d) (d : Caller) :
    owner' d ↔ ∃ th, s'.threads.lookup d = some th ∧ f th.phase = true := by
  rw [h d, hthreads]
  split
  · rw [Option.any_eq_true]
  · exact howner d

end owner

theorem LockInv.move (h : LockInv s)
    (hthreads : ∀ d, s'.threads.lookup d = if d = t then o' else s.threads.lookup d)
    (htable : s'.locks.Inv)
    (hothers : ∀ d, d ≠ t → s'.locks.calls.lookup d = s.locks.calls.lookup d)
    (hcall : CallFits (o'.map phase) (s'.locks.calls.lookup t))
    (hgate : Passes t o' gated (· ∈ s.readers) (· ∈ s'.readers))
    (hwriter : Passes t o' solitary (s.writer = some ·) (s'.writer = some ·))
    (hcreation : Passes t o' creates (s.creationMu = some ·) (s'.creationMu = some ·))
    (hapart : ∀ w, s'.writer = some w → s'.readers = []) : LockInv s' where
  table := htable
  calls d := by
    rw [hthreads]
    split
    next heq => rw [heq]; exact hcall
    next hne => rw [hothers d hne]; exact h.calls d
  gate := hgate.owners h.gate hthreads
  writer := hwriter.owners h.writer hthreads
  creation := hcreation.owners h.creation hthreads
  apart := hapart

theorem LockInv.keep (h : LockInv s) {rows : Rows} {threads : GoMap Caller Thread}
    (hthreads : ∀ d, threads.lookup d = if d = t then o' else s.threads.lookup d)
    (ho : ∀ f ∈ [gated, solitary, creates],
      o'.any (fun th => f th.phase) = (s.threads.lookup t).any (f ·.phase))
    (hfits : CallFits (o'.map phase) (s.locks.calls.lookup t)) :
    LockInv { s with rows := rows, threads := threads } := by
  refine h.move hthreads h.table (fun d _ => rfl) hfits ?_ ?_ ?_ h.apart
  · exact .keep h.gate (ho gated (by simp))
  · exact .keep h.writer (ho solitary (by simp))
  · exact .keep h.creation (ho creates (by simp))

/-- Two phases hold the same locks besides the session locks. -/
def Alike (old new : Phase) : Prop :=
  new.gated = old.gated ∧ new.solitary = old.solitary ∧ new.creates = old.creates

section thread

variable (h : LockInv s) (hth : s.threads.lookup t = some th)

include h hth

theorem LockInv.call_fits : CallFits (some th.phase) (s.locks.calls.lookup t) := by
  have := h.calls t
  rwa [hth] at this

theorem LockInv.call_at {phase : Phase} (hphase : th.phase = phase) :
    CallFits (some phase) (s.locks.calls.lookup t) :=
  hphase ▸ h.call_fits hth

/-- A step inside the table of session locks, by a thread whose other locks stay. -/
theorem LockInv.lockStep {ev : KeyedLocks.Event} (hev : ev.caller = t)
    (halike : Alike th.phase th'.phase)
    (hfits : ∀ call call', KeyedLocks.CallMove s.locks t ev call call' →
      CallFits (some th.phase) call → CallFits (some th'.phase) call')
    (hstep : s.lockStep t th' ev = some s') : LockInv s' := by
  simp only [State.lockStep, bind_eq_bind, bind_eq_some_iff, pure_def, some.injEq] at hstep
  obtain ⟨locks, hlocks, rfl⟩ := hstep
  obtain ⟨hinv, hmove, hothers⟩ := h.table.step hlocks
  rw [hev] at hmove hothers
  refine h.move (t := t) (fun d => lookup_insert_ite) hinv hothers
    (hfits _ _ hmove (h.call_fits hth)) ?_ ?_ ?_ h.apart
  · exact .stay h.gate hth rfl halike.1
  · exact .stay h.writer hth rfl halike.2.1
  · exact .stay h.creation hth rfl halike.2.2

theorem LockInv.still {rows : Rows} (halike : Alike th.phase th'.phase)
    (hfits : CallFits (some th'.phase) (s.locks.calls.lookup t)) :
    LockInv ({ s with rows := rows }.setThread t th') := by
  refine h.keep (fun d => lookup_insert_ite) ?_ hfits
  rw [hth]
  simpa [Alike] using halike

end thread

/-! ## The phases, one after the other -/

variable {next : Next}

section phases

variable (h : LockInv s) (hth : s.threads.lookup t = some th)

include h hth

/-- `RLock`. -/
theorem LockInv.enter {what : Shared} (hphase : th.phase = .entering what)
    (hfree : s.writer = none) :
    LockInv ({ s with readers := t :: s.readers }.setThread t (th.at (afterGate what))) := by
  have hnone : s.locks.calls.lookup t = none := h.call_at hth hphase
  refine h.move (t := t) (fun d => lookup_insert_ite) h.table (fun d _ => rfl) ?_
    (.acquire ?_ fun d => List.mem_cons) (.stay h.writer hth hphase ?_)
    (.stay h.creation hth hphase ?_) (fun w hw => ?_)
  · show CallFits (some (afterGate what)) (s.locks.calls.lookup t)
    rw [hnone]
    cases what <;> rfl
  · cases what <;> rfl
  · cases what <;> rfl
  · cases what <;> rfl
  · have : s.writer = some w := hw
    rw [hfree] at this
    cases this

/-- `RUnlock`. -/
theorem LockInv.leave (hphase : th.phase = .leaving next) {threads : GoMap Caller Thread}
    (hthreads : ∀ d, threads.lookup d = if d = t then o' else s.threads.lookup d)
    (ho : ∀ th', o' = some th' → ∃ q, th'.phase = .planning q) :
    LockInv { s with readers := s.readers.filter (· ≠ t), threads := threads } := by
  have hnone : s.locks.calls.lookup t = none := h.call_at hth hphase
  have hfalse : ∀ f : Phase → Bool, (∀ q, f (.planning q) = false) →
      o'.any (fun th => f th.phase) = false := by
    intro f hf
    cases o' with
    | none => rfl
    | some th' =>
      obtain ⟨q, hq⟩ := ho th' rfl
      rw [any_some, hq, hf]
  refine h.move hthreads h.table (fun d _ => rfl) ?_
    (.release (hfalse gated fun _ => rfl) fun d => by simp [and_comm])
    (.stay h.writer hth hphase (hfalse solitary fun _ => rfl))
    (.stay h.creation hth hphase (hfalse creates fun _ => rfl)) (fun w hw => ?_)
  · rw [hnone]
    cases o' with
    | none => rfl
    | some th' =>
      obtain ⟨q, hq⟩ := ho th' rfl
      rw [map_some, hq]
      rfl
  · rw [h.apart w hw]
    rfl

/-- `creationMu.Lock`. -/
theorem LockInv.create {plan : Plan} {phase : Phase} (hphase : th.phase = .creating plan)
    (hfree : s.creationMu = none) (hg : phase.gated = true) (hs : phase.solitary = false)
    (hc : phase.creates = true) (hfits : CallFits (some phase) (s.locks.calls.lookup t)) :
    LockInv ({ s with creationMu := some t }.setThread t (th.at phase)) := by
  refine h.move (t := t) (fun d => lookup_insert_ite) h.table (fun d _ => rfl) hfits
    (.stay h.gate hth hphase hg) (.stay h.writer hth hphase hs) (.acquire hc fun d => ?_) h.apart
  simp [hfree, setThread, eq_comm]

/-- `creationMu.Unlock`. -/
theorem LockInv.uncreate {plan : Plan} (hphase : th.phase = .uncreating plan next) :
    LockInv ({ s with creationMu := none }.setThread t (th.at (.unlocking next))) := by
  have hmine : s.creationMu = some t := (owner_iff h.creation hth).mpr (by rw [hphase]; rfl)
  refine h.move (t := t) (fun d => lookup_insert_ite) h.table (fun d _ => rfl) ?_
    (.stay h.gate hth hphase rfl) (.stay h.writer hth hphase rfl) (.release rfl fun d => ?_) h.apart
  · obtain ⟨call, hcall, -⟩ := h.call_at hth hphase
    exact ⟨call, hcall⟩
  · simp [hmine, setThread, eq_comm]

/-- `lockEffectExclusive` gets the gate. -/
theorem LockInv.seize (hphase : th.phase = .spinning) (hreaders : s.readers = [])
    (hfree : s.writer = none) :
    LockInv ({ s with writer := some t }.setThread t (th.at .alone)) := by
  have hnone : s.locks.calls.lookup t = none := h.call_at hth hphase
  refine h.move (t := t) (fun d => lookup_insert_ite) h.table (fun d _ => rfl) hnone
    (.stay h.gate hth hphase rfl) (.acquire rfl fun d => ?_) (.stay h.creation hth hphase rfl)
    (fun _ _ => hreaders)
  simp [hfree, setThread, eq_comm]

theorem LockInv.unseize (hphase : th.phase = .alone) :
    LockInv ({ s with writer := none }.endThread t) := by
  have hmine : s.writer = some t := (owner_iff h.writer hth).mpr (by rw [hphase]; rfl)
  refine h.move (t := t) (fun d => lookup_erase_ite) h.table (fun d _ => rfl)
    (h.call_at hth hphase) (.stay h.gate hth hphase rfl) (.release rfl fun d => ?_)
    (.stay h.creation hth hphase rfl) nofun
  simp [hmine, endThread, eq_comm]

end phases

/-! ## Steps and runs -/

theorem LockInv.goto {old new : Phase} (h : LockInv s) (hth : s.threads.lookup t = some th)
    (hphase : th.phase = old) (halike : Alike old new)
    (hfits : CallFits (some new) (s.locks.calls.lookup t)) :
    LockInv (s.setThread t (th.at new)) := by
  subst hphase
  exact h.still hth halike hfits

section go

variable (h : LockInv s) (hth : s.threads.lookup t = some th) (hstep : s.go t th = some s')

include h hth hstep

theorem LockInv.go_planning {q : Resolve Admission} (hphase : th.phase = .planning q) :
    LockInv s' := by
  have hfits := h.call_at hth hphase
  rw [go, hphase] at hstep
  rcases q with admission | ⟨q, next⟩
  · rcases admission with _ | (_ | ⟨id, subject⟩ | plan)
    · cases hstep
      exact h.goto hth hphase ⟨rfl, rfl, rfl⟩ hfits
    · cases hstep
      exact h.still hth (by rw [hphase]; exact ⟨rfl, rfl, rfl⟩) hfits
    · cases hstep
      exact h.goto hth hphase ⟨rfl, rfl, rfl⟩ hfits
    · cases hstep
      exact h.goto hth hphase ⟨rfl, rfl, rfl⟩ hfits
  · cases hstep

theorem LockInv.go_entering {what : Shared} (hphase : th.phase = .entering what) : LockInv s' := by
  have hfits := h.call_at hth hphase
  rw [go, hphase] at hstep
  simp only at hstep
  split at hstep
  next hfree =>
    cases hstep
    exact h.enter hth hphase hfree
  split_ifs at hstep
  cases hstep
  refine h.keep (t := t) (fun d => lookup_erase_ite) ?_ hfits
  simp [hth, hphase, gated, solitary, creates]

theorem LockInv.go_resolving {subject : String} {q : Resolve (Option (List String))}
    (hphase : th.phase = .resolving subject q) : LockInv s' := by
  have hfits := h.call_at hth hphase
  rw [go, hphase] at hstep
  rcases q with (_ | ids) | ⟨q, next⟩
  · cases hstep
    exact h.goto hth hphase ⟨rfl, rfl, rfl⟩ hfits
  · simp only at hstep
    split at hstep
    · cases hstep
      exact h.goto hth hphase ⟨rfl, rfl, rfl⟩ hfits
    · cases hstep
      exact h.goto hth hphase ⟨rfl, rfl, rfl⟩ hfits
  · cases hstep

variable {plan : Plan}

theorem LockInv.go_keying (hphase : th.phase = .keying plan) : LockInv s' := by
  rw [go, hphase] at hstep
  refine h.lockStep hth ?_ (by rw [hphase]; exact ⟨rfl, rfl, rfl⟩) ?_ hstep
  · rw [lockEvent]
    split <;> rfl
  intro o o' hmove _
  rw [lockEvent] at hmove
  split at hmove
  next key htries hkeys =>
    cases hmove with
    | tryLock hnames => exact ⟨_, rfl, by rw [LockCall.names, hnames, hkeys]; rfl⟩
  · cases hmove with
    | lock hnames => exact ⟨_, rfl, hnames⟩

omit hstep in
theorem LockInv.go_keep {ev : KeyedLocks.Event} (hphase : th.phase = .locking plan)
    (hev : ev.caller = t) (hkeep : ∀ call o', KeyedLocks.CallMove s.locks t ev (some call) o' →
      ∃ call', o' = some call' ∧ call'.names = call.names)
    (hlock : s.lockStep t th ev = some s') : LockInv s' := by
  refine h.lockStep hth hev ⟨rfl, rfl, rfl⟩ ?_ hlock
  intro o o' hmove hfits
  rw [hphase] at hfits ⊢
  obtain ⟨call, rfl, hnames⟩ := hfits
  obtain ⟨call', rfl, hsame⟩ := hkeep call o' hmove
  exact ⟨call', rfl, hsame.trans hnames⟩

theorem LockInv.go_locking (hphase : th.phase = .locking plan) : LockInv s' := by
  have hgo := hstep
  obtain ⟨call, hcall, hnames⟩ := h.call_at hth hphase
  rw [go, hphase] at hgo
  simp only [hcall, bind_eq_bind, bind_some] at hgo
  split at hgo
  · refine h.go_keep hth hphase rfl (fun call₁ o' hmove => ?_) hgo
    cases hmove with
    | attempt | refuse => exact ⟨_, rfl, rfl⟩
  · cases hgo
    exact h.goto hth hphase ⟨rfl, rfl, rfl⟩ ⟨call, hcall⟩
  next hlocking =>
  split at hgo
  next hall =>
    cases hgo
    cases hcreation : plan.creation with
    | true =>
      exact h.goto hth hphase ⟨rfl, rfl, rfl⟩ ⟨call, hcall, hcreation, hlocking, hall, hnames⟩
    | false =>
      exact h.goto hth hphase ⟨rfl, rfl, hcreation⟩ ⟨call, hcall, hlocking, hall, hnames⟩
  · refine h.go_keep hth hphase rfl (fun call₁ o' hmove => ?_) hgo
    cases hmove with
    | acquire _ _ _ => exact ⟨_, rfl, rfl⟩

theorem LockInv.go_creating (hphase : th.phase = .creating plan) : LockInv s' := by
  obtain ⟨call, hcall, hcreation, hadmits⟩ := h.call_at hth hphase
  rw [go, hphase] at hstep
  simp only at hstep
  split at hstep
  next hfree =>
    cases hstep
    split
    · exact h.create hth hphase hfree rfl rfl rfl ⟨call, hcall, hcreation, hadmits⟩
    · exact h.create hth hphase hfree rfl rfl hcreation ⟨call, hcall, hadmits⟩
  · split_ifs at hstep
    cases hstep
    exact h.goto hth hphase ⟨rfl, rfl, rfl⟩ ⟨call, hcall⟩

theorem LockInv.go_checking {q : Resolve (Option (List String))}
    (hphase : th.phase = .checking plan q) : LockInv s' := by
  obtain ⟨call, hcall, hcreation, hadmits⟩ := h.call_at hth hphase
  rw [go, hphase] at hstep
  rcases q with (_ | current) | ⟨q, next⟩
  · cases hstep
    exact h.goto hth hphase ⟨rfl, rfl, rfl⟩ ⟨call, hcall, hadmits⟩
  · simp only at hstep
    split at hstep
    · cases hstep
      exact h.goto hth hphase ⟨rfl, rfl, hcreation⟩ ⟨call, hcall, hadmits⟩
    · cases hstep
      exact h.goto hth hphase ⟨rfl, rfl, rfl⟩ ⟨call, hcall, hadmits⟩
  · cases hstep

theorem LockInv.go_verdict (hphase : (∃ plan, th.phase = .inside plan) ∨ th.phase = .alone) :
    LockInv s' := by
  have hfits := h.call_fits hth
  have hverdict : ∃ passed, s' = s.setThread t { th with eval := none, passed := passed } := by
    rcases hphase with ⟨plan, hphase⟩ | hphase
    all_goals
      rw [go, hphase] at hstep
      simp only at hstep
      split at hstep
      next verdict _ _ =>
        cases hstep
        exact ⟨verdict.isOk, by rw [hphase]⟩
      · cases hstep
  obtain ⟨passed, rfl⟩ := hverdict
  exact h.still hth ⟨rfl, rfl, rfl⟩ hfits

theorem LockInv.go_unlocking (hphase : th.phase = .unlocking next) : LockInv s' := by
  obtain ⟨call, hcall⟩ := h.call_at hth hphase
  rw [go, hphase] at hstep
  simp only [hcall, bind_eq_bind, bind_some] at hstep
  have hstay : ∀ {ev : KeyedLocks.Event}, ev.caller = t →
      (∀ o o', KeyedLocks.CallMove s.locks t ev o o' → ∃ call, o' = some call) →
      s.lockStep t th ev = some s' → LockInv s' := by
    intro ev hev hmove hlock
    refine h.lockStep hth hev ⟨rfl, rfl, rfl⟩ ?_ hlock
    intro o o' ho _
    rw [hphase]
    exact hmove o o' ho
  split at hstep
  · refine h.lockStep hth rfl (by rw [hphase]; exact ⟨rfl, rfl, rfl⟩) ?_ hstep
    intro o o' hmove _
    cases hmove
    rfl
  · exact hstay rfl (fun o o' hmove => by cases hmove; exact ⟨_, rfl⟩) hstep
  · exact hstay rfl (fun o o' hmove => by cases hmove; exact ⟨_, rfl⟩) hstep

theorem LockInv.go_leaving (hphase : th.phase = .leaving next) : LockInv s' := by
  rw [go, hphase] at hstep
  cases next with
  | stop =>
    cases hstep
    refine h.leave hth hphase (fun d => lookup_erase_ite) fun th' heq => ?_
    cases heq
  | resume stage q =>
    cases hstep
    refine h.leave hth hphase (fun d => lookup_insert_ite) fun th' heq => ?_
    cases heq
    exact ⟨q, rfl⟩

end go

theorem LockInv.go (h : LockInv s) (hth : s.threads.lookup t = some th)
    (hstep : s.go t th = some s') : LockInv s' := by
  cases hphase : th.phase with
  | planning q => exact h.go_planning hth hstep hphase
  | entering what => exact h.go_entering hth hstep hphase
  | resolving subject q => exact h.go_resolving hth hstep hphase
  | keying plan => exact h.go_keying hth hstep hphase
  | locking plan => exact h.go_locking hth hstep hphase
  | creating plan => exact h.go_creating hth hstep hphase
  | checking plan q => exact h.go_checking hth hstep hphase
  | inside plan => exact h.go_verdict hth hstep (.inl ⟨plan, hphase⟩)
  | uncreating plan next =>
    rw [State.go, hphase] at hstep
    cases hstep
    exact h.uncreate hth hphase
  | unlocking next => exact h.go_unlocking hth hstep hphase
  | leaving next => exact h.go_leaving hth hstep hphase
  | spinning =>
    rw [State.go, hphase] at hstep
    split_ifs at hstep with hfree
    cases hstep
    exact h.seize hth hphase hfree.1 hfree.2
  | alone => exact h.go_verdict hth hstep (.inr hphase)

theorem LockInv.read {failure : Option String} (h : LockInv s)
    (hth : s.threads.lookup t = some th) (hstep : s.read t th failure = some s') : LockInv s' := by
  have hfits := h.call_fits hth
  have hstay : ∀ eval reads, LockInv (s.setThread t { th with eval := eval, reads := reads }) :=
    fun eval reads => h.still hth ⟨rfl, rfl, rfl⟩ hfits
  revert hstep
  fun_cases s.read t th failure with
  | case1 _ _ hphase | case2 _ _ _ hphase | case3 _ _ _ hphase =>
    rintro ⟨⟩
    rw [hphase] at hfits
    exact h.goto hth hphase ⟨rfl, rfl, rfl⟩ hfits
  | case4 | case5 =>
    intro hstep
    obtain ⟨ev, -, hstep⟩ := bind_eq_some_iff.mp hstep
    split at hstep
    · cases hstep
    · cases hstep
      exact hstay _ _
  | case6 => rintro ⟨⟩

theorem alike_afterBody (next : Next) (plan : Option Plan) :
    Alike (.inside plan) (afterBody next plan) := by
  cases plan with
  | none => exact ⟨rfl, rfl, rfl⟩
  | some plan =>
    rw [afterBody]
    split
    next hcreation => exact ⟨rfl, rfl, hcreation.symm⟩
    next hcreation => exact ⟨rfl, rfl, (Bool.not_eq_true _ ▸ hcreation).symm⟩

theorem callFits_afterBody {plan : Option Plan} {o : Option LockCall}
    (h : CallFits (some (.inside plan)) o) : CallFits (some (afterBody next plan)) o := by
  cases plan with
  | none => exact h
  | some plan =>
    obtain ⟨call, hcall, hadmits⟩ := h
    rw [afterBody]
    split
    · exact ⟨call, hcall, hadmits⟩
    · exact ⟨call, hcall⟩

theorem LockInv.step {e : Event} (h : LockInv s) (hstep : s.step e = some s') : LockInv s' := by
  cases e with
  | spawn t job =>
    simp only [State.step] at hstep
    split at hstep
    · cases hstep
    next hnone =>
    split at hstep
    on_goal 2 => cases hstep
    cases hstep
    have hfits := h.calls t
    rw [hnone] at hfits
    refine h.keep (t := t) (fun d => lookup_insert_ite) ?_ hfits
    simp [hnone, start, gated, solitary, creates]
  | go t =>
    obtain ⟨th, hth, hstep⟩ := bind_eq_some_iff.mp hstep
    exact h.go hth hstep
  | read t failure =>
    obtain ⟨th, hth, hstep⟩ := bind_eq_some_iff.mp hstep
    exact h.read hth hstep
  | evaluate t valid tables =>
    obtain ⟨th, hth, hstep⟩ := bind_eq_some_iff.mp hstep
    obtain ⟨guard, -, hstep⟩ := bind_eq_some_iff.mp hstep
    have hfits := h.call_fits hth
    split at hstep
    · cases hstep
      exact h.still hth ⟨rfl, rfl, rfl⟩ hfits
    · cases hstep
      exact h.still hth ⟨rfl, rfl, rfl⟩ hfits
    · cases hstep
  | list t =>
    obtain ⟨th, hth, hstep⟩ := bind_eq_some_iff.mp hstep
    obtain ⟨a, -, hstep⟩ := bind_eq_some_iff.mp hstep
    have hfits := h.call_fits hth
    split at hstep
    · split_ifs at hstep
      cases hstep
      exact h.still hth ⟨rfl, rfl, rfl⟩ hfits
    · cases hstep
  | write t w =>
    obtain ⟨th, hth, hstep⟩ := bind_eq_some_iff.mp hstep
    have hfits := h.call_fits hth
    split_ifs at hstep
    obtain ⟨rows, -, hstep⟩ := bind_eq_some_iff.mp hstep
    cases hstep
    exact h.still hth ⟨rfl, rfl, rfl⟩ hfits
  | leave t newID =>
    obtain ⟨th, hth, hstep⟩ := bind_eq_some_iff.mp hstep
    have hfits := h.call_fits hth
    split at hstep
    next hphase _ =>
      cases hstep
      exact h.unseize hth hphase
    next plan hphase _ =>
      obtain ⟨next, -, hstep⟩ := bind_eq_some_iff.mp hstep
      cases hstep
      rw [hphase] at hfits
      refine h.still hth ?_ (callFits_afterBody hfits)
      rw [hphase]
      exact alike_afterBody next plan
    · cases hstep

theorem lockInv_exec {events : List Event} (h : Transition.exec step initial events = some s) :
    LockInv s :=
  Transition.exec_invariant LockInv (fun _ _ _ hinv hstep => hinv.step hstep) lockInv_initial h

/-! ## No circle of waits -/

/-- The locks in the order they are taken: the gate, the session locks by their keys, `creationMu`. -/
abbrev Lock := WithBot (WithTop String)

def Lock.gate : Lock := ⊥
def Lock.session (key : String) : Lock := ((key : WithTop String) : WithBot (WithTop String))
def Lock.creationMu : Lock := ((⊤ : WithTop String) : WithBot (WithTop String))

/-- The section holds the lock; the gate in either mode. -/
inductive Holds (s : State) (t : Caller) : Lock → Prop
  | shared (h : t ∈ s.readers) : Holds s t .gate
  | exclusive (h : s.writer = some t) : Holds s t .gate
  | session {key : String} (h : s.locks.Holds t key) : Holds s t (.session key)
  | creationMu (h : s.creationMu = some t) : Holds s t .creationMu

/-- The section cannot go on while the lock is taken. `lockEffectExclusive` sleeps between its
    attempts and counts as waiting; an attempt that gives up does not. -/
inductive Waits (s : State) (t : Caller) : Lock → Prop
  | shared {th : Thread} {what : Shared} (hth : s.threads.lookup t = some th)
      (hphase : th.phase = .entering what) (htries : Shared.tries what = false) : Waits s t .gate
  | exclusive {th : Thread} (hth : s.threads.lookup t = some th) (hphase : th.phase = .spinning) :
      Waits s t .gate
  | session {th : Thread} {plan : Plan} {key : String} (hth : s.threads.lookup t = some th)
      (hphase : th.phase = .locking plan) (hwaits : s.locks.WaitsFor t key) :
      Waits s t (.session key)
  | creationMu {th : Thread} {plan : Plan} (hth : s.threads.lookup t = some th)
      (hphase : th.phase = .creating plan) (htries : plan.tries = false) : Waits s t .creationMu

/-- A section waits only for a lock above all it holds. -/
theorem LockInv.ordered (h : LockInv s) {l m : Lock} (hwaits : s.Waits t l) (hholds : s.Holds t m) :
    m < l := by
  cases hwaits with
  | shared hth hphase | exclusive hth hphase =>
    have hnone := h.call_fits hth
    rw [hphase] at hnone
    cases hholds with
    | shared hm => rw [owner_iff h.gate hth, hphase] at hm; cases hm
    | exclusive hm => rw [owner_iff h.writer hth, hphase] at hm; cases hm
    | session hm =>
      obtain ⟨call, hcall, -⟩ := hm
      rw [show s.locks.calls.lookup t = none from hnone] at hcall
      cases hcall
    | creationMu hm => rw [owner_iff h.creation hth, hphase] at hm; cases hm
  | session hth hphase hwait =>
    cases hholds with
    | shared | exclusive => exact WithBot.bot_lt_coe _
    | session hm => exact WithBot.coe_lt_coe.mpr (WithTop.coe_lt_coe.mpr (h.table.holds_lt hwait hm))
    | creationMu hm => rw [owner_iff h.creation hth, hphase] at hm; cases hm
  | creationMu hth hphase _ =>
    cases hholds with
    | shared | exclusive => exact WithBot.bot_lt_coe _
    | session _ => exact WithBot.coe_lt_coe.mpr (WithTop.coe_lt_top _)
    | creationMu hm => rw [owner_iff h.creation hth, hphase] at hm; cases hm

/-- **Session locks exclude and cannot deadlock.** In every interleaving of calls of `lock`, of
    `tryLock` and of their releases, a key has at most one holder, the callers inside a call that
    names it have the same entry for it, and the table has an entry for it exactly while some caller
    holds it, waits for it or has not yet counted itself out. In every interleaving of sections
    no section waits, through others, for itself. -/
theorem sessionLocks_exclude_without_deadlock :
    (∀ events l, Transition.exec KeyedLocks.step .empty events = some l →
      (∀ c d key, l.Holds c key → l.Holds d key → c = d) ∧
      (∀ c d callC callD key p q, l.calls.lookup c = some callC → l.calls.lookup d = some callD →
        (key, p) ∈ callC.held → (key, q) ∈ callD.held → p = q) ∧
      (∀ key, (∃ p, l.locks.lookup key = some p) ↔
        ∃ c, l.Holds c key ∨ l.Queued c key ∨ l.Departing c key)) ∧
    (∀ events s, Transition.exec step initial events = some s →
      ∀ t, ¬ LockOrder.Deadlocked s.Holds s.Waits t) := by
  refine ⟨fun events l hrun => ?_, fun events s hrun => ?_⟩
  · have hinv := KeyedLocks.inv_exec hrun
    refine ⟨fun c d key => hinv.exclusive, ?_, fun key => hinv.locks_iff⟩
    intro c d callC callD key p q hc hd hp hq
    have hentry := hinv.entry hc hp
    rw [hinv.entry hd hq] at hentry
    exact (some.inj hentry).symm
  · have hinv := lockInv_exec hrun
    exact LockOrder.not_deadlocked fun t l m => hinv.ordered

end State

end AgentMultiplexer.Daemon
