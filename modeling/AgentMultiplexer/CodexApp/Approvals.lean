import AgentMultiplexer.Theory.GoMap
import AgentMultiplexer.Theory.Transition
import Mathlib.Data.List.Infix

set_option autoImplicit false

/-! # Approvals of the Codex App Server

The server asks for an approval by a JSON-RPC request and reports later that it is resolved, whoever
answered it. The read loop keeps a tracker of the requests of the pinned thread; it emits an event
for a new request and one for its resolution, by the server's notice or by the end of the turn. It
takes a message when the events of the one before are out. A local `Resolve` marks the request under
the tracker's lock and writes the reply after it, so the read loop may go on in between. -/

namespace AgentMultiplexer.CodexApp

open GoMap List Transition

/-! ## The tracker -/

/-- A JSON-RPC id. -/
inductive RpcID
  | number (text : String)
  | string (s : String)
  deriving DecidableEq

def idKey : RpcID → String
  | .number text => text
  | .string s => s

inductive ApprovalState
  | pending
  | answered
  deriving DecidableEq

/-- `pendingApproval`, without its key. -/
structure PendingApproval where
  rawID : RpcID
  method : String
  threadID : String
  turnID : String
  itemID : String
  state : ApprovalState

/-- `approvalTracker`; `resolved` holds the keys of the map. -/
structure ApprovalTracker where
  live : GoMap String PendingApproval
  resolved : List String

inductive AnswerError
  | stale
  | duplicate

namespace ApprovalTracker

variable (a : ApprovalTracker)

/-- `register`; `none` stands for `false`. -/
def register (key : String) (p : PendingApproval) : Option ApprovalTracker :=
  if (a.live.lookup key).isSome ∨ key ∈ a.resolved then none
  else some { a with live := a.live.insert key { p with state := .pending } }

def answerLocally (requestID : String) :
    Except AnswerError (PendingApproval × ApprovalTracker) :=
  if requestID ∈ a.resolved then .error .duplicate
  else match a.live.lookup requestID with
    | none => .error .stale
    | some p =>
      if p.state = .answered then .error .duplicate
      else .ok (p, { a with live := a.live.insert requestID { p with state := .answered } })

/-- `serverResolved`; `none` stands for `false`. -/
def serverResolved (requestID : String) : Option ApprovalTracker :=
  if requestID ∈ a.resolved ∨ (a.live.lookup requestID).isNone then none
  else some ⟨a.live.erase requestID, requestID :: a.resolved⟩

/-- The ids `drainForTurn` returns, here in the order of the table; the source ranges over a map,
    whose order is arbitrary. -/
def raisedBy (turnID : String) : List String :=
  (a.live.filter fun _ p => p.turnID = turnID).keys

def drainForTurn (turnID : String) : ApprovalTracker :=
  ⟨a.live.filter fun _ p => p.turnID ≠ turnID, a.raisedBy turnID ++ a.resolved⟩

def openIDs : List String := (a.live.filter fun _ p => p.state = .pending).keys

end ApprovalTracker

/-! ## The supervisor -/

inductive Decision
  | allow
  | deny
  | cleared

/-- The payloads of the permission events; the options of a request are fixed. -/
inductive PermissionEvent
  | request (requestID tool action reason threadID turnID itemID : String)
  | resolved (requestID : String) (decision : Decision)

/-- The parameters of an approval request. -/
structure ApprovalParams where
  itemID : String
  threadID : String
  turnID : String
  command : String
  reason : String

/-- A reply that a `Resolve` has taken upon itself. -/
structure Reply where
  key : String
  rawID : RpcID
  result : String
  deriving DecidableEq

/-- What has happened to a request. -/
inductive Deed
  | registered (key : String)
  | answered (key : String)
  | resolved (key : String)
  | replied (key : String)
  deriving DecidableEq

/-- `Supervisor`: the tracker, the events the read loop is still to emit, the replies still to be
    written, and what was emitted and done, the latest deed first. -/
structure Supervisor where
  approvals : ApprovalTracker
  emitting : List PermissionEvent
  answering : List Reply
  emitted : List PermissionEvent
  done : List Deed

inductive Event
  | request (id : RpcID) (method : String) (params : ApprovalParams)
  | serverResolved (threadID : String) (id : RpcID) (decision : String)
  | turnCompleted (threadID turnID : String)
  | emit
  /-- `Resolve` up to its reply. -/
  | resolve (requestID decision : String)
  /-- The `respond` of one of the `Resolve` calls; the write may fail. -/
  | respond (i : Nat) (written : Bool)

/-- `normalize` trims and lowers, `allows` is the comparison with `allow` by `EqualFold`. -/
structure Texts where
  normalize : String → String
  allows : String → Bool

namespace Supervisor

variable (texts : Texts) (pinned : String) (s : Supervisor)

def start : Supervisor := ⟨⟨∅, []⟩, [], [], [], []⟩

/-- What a request is shown as. -/
def toolAction (method command : String) : String × String :=
  if "fileChange".toList <:+: method.toList then ("file_change", "apply patch")
  else ("command_execution", command)

def handleApproval (id : RpcID) (method : String) (p : ApprovalParams) : Supervisor :=
  if p.threadID = "" ∨ pinned = "" ∨ p.threadID ≠ pinned then s
  else
    let key := idKey id
    let shown := toolAction method p.command
    match s.approvals.register key ⟨id, method, p.threadID, p.turnID, p.itemID, .pending⟩ with
    | none => s
    | some a => { s with
        approvals := a
        emitting := [.request key shown.1 shown.2 p.reason p.threadID p.turnID p.itemID]
        done := .registered key :: s.done }

def winningDecision (decision : String) : Decision :=
  let text := texts.normalize decision
  if text = "accept" ∨ text = "allow" then .allow
  else if text = "decline" ∨ text = "reject" ∨ text = "deny" then .deny
  else .cleared

def handleServerResolved (threadID : String) (id : RpcID) (decision : String) : Supervisor :=
  if threadID = "" ∨ pinned = "" ∨ threadID ≠ pinned then s
  else match s.approvals.serverResolved (idKey id) with
    | none => s
    | some a => { s with
        approvals := a
        emitting := [.resolved (idKey id) (winningDecision texts decision)]
        done := .resolved (idKey id) :: s.done }

/-- `handleTurnCompleted` as far as it is about approvals, with `clearApprovalsForTurn`. -/
def handleTurnCompleted (threadID turnID : String) : Supervisor :=
  if pinned = "" ∨ threadID ≠ pinned ∨ turnID = "" then s
  else { s with
    approvals := s.approvals.drainForTurn turnID
    emitting := (s.approvals.raisedBy turnID).map (.resolved · .cleared)
    done := ((s.approvals.raisedBy turnID).map .resolved).reverse ++ s.done }

/-- `Resolve`, with `decisionToResult`. -/
def resolve (requestID decision : String) : Supervisor :=
  match s.approvals.answerLocally requestID with
  | .error _ => s
  | .ok (p, a) => { s with
      approvals := a
      answering := s.answering ++
        [⟨requestID, p.rawID, if texts.allows decision then "accept" else "decline"⟩]
      done := .answered requestID :: s.done }

def step : Event → Option Supervisor
  | .request id method p =>
    if s.emitting = [] then some (s.handleApproval pinned id method p) else none
  | .serverResolved threadID id decision =>
    if s.emitting = [] then some (s.handleServerResolved texts pinned threadID id decision)
    else none
  | .turnCompleted threadID turnID =>
    if s.emitting = [] then some (s.handleTurnCompleted pinned threadID turnID) else none
  | .emit =>
    match s.emitting with
    | [] => none
    | ev :: rest => some { s with emitting := rest, emitted := s.emitted ++ [ev] }
  | .resolve requestID decision => some (s.resolve texts requestID decision)
  | .respond i written =>
    match s.answering[i]? with
    | none => none
    | some reply => some { s with
        answering := s.answering.eraseIdx i
        done := if written then .replied reply.key :: s.done else s.done }

end Supervisor

/-! ## Orderly deeds -/

/-- A request is registered once, answered at most once while it is not resolved, and resolved once;
    a reply is written for an answer, and for each answer once. -/
def Allowed (past : List Deed) : Deed → Prop
  | .registered k => .registered k ∉ past
  | .answered k => .registered k ∈ past ∧ .answered k ∉ past ∧ .resolved k ∉ past
  | .resolved k => .registered k ∈ past ∧ .resolved k ∉ past
  | .replied k => .answered k ∈ past ∧ .replied k ∉ past

def Orderly : List Deed → Prop
  | [] => True
  | d :: past => Allowed past d ∧ Orderly past

/-- The permission event of a deed: whose, and whether it is the last one. -/
def Deed.mark : Deed → Option (String × Bool)
  | .registered k => some (k, false)
  | .resolved k => some (k, true)
  | _ => none

def PermissionEvent.mark : PermissionEvent → String × Bool
  | .request requestID .. => (requestID, false)
  | .resolved requestID _ => (requestID, true)

/-- The marks of a request in the order in which they were made. -/
def marksOf (key : String) (done : List Deed) : List (String × Bool) :=
  (done.reverse.filterMap Deed.mark).filter fun m => m.1 = key

theorem marksOf_cons {key : String} {d : Deed} {past : List Deed} :
    marksOf key (d :: past) = marksOf key past ++ (d.mark.toList.filter fun m => m.1 = key) := by
  cases hd : d.mark <;> simp [marksOf, filterMap_append, hd]

variable {done : List Deed}

theorem Orderly.allowed {d : Deed} (h : Orderly done) (hd : d ∈ done) :
    ∃ past, past ⊆ done ∧ Allowed past d := by
  induction done with
  | nil => cases hd
  | cons e past ih =>
    rcases mem_cons.mp hd with rfl | hd
    · exact ⟨past, subset_cons_self _ _, h.1⟩
    · obtain ⟨past', hsub, hallowed⟩ := ih h.2 hd
      exact ⟨past', subset_cons_of_subset _ hsub, hallowed⟩

theorem Orderly.registered {k : String} (h : Orderly done)
    (hk : .answered k ∈ done ∨ .resolved k ∈ done) : .registered k ∈ done := by
  rcases hk with hk | hk <;> (obtain ⟨past, hsub, hpast⟩ := h.allowed hk; exact hsub hpast.1)

theorem Orderly.marksOf (h : Orderly done) (k : String) :
    CodexApp.marksOf k done = (if .registered k ∈ done then [(k, false)] else []) ++
        if .resolved k ∈ done then [(k, true)] else [] := by
  induction done with
  | nil => rfl
  | cons d past ih =>
    rw [marksOf_cons, ih h.2]
    have hd := h.1
    cases d with
    | registered j =>
      by_cases hj : j = k
      · subst hj
        have hres : .resolved j ∉ past := fun hmem => hd (h.2.registered (.inr hmem))
        simp [Deed.mark, hres, show Deed.registered j ∉ past from hd]
      · simp [Deed.mark, hj, Ne.symm hj]
    | resolved j =>
      by_cases hj : j = k
      · subst hj
        simp [Deed.mark, hd.1, hd.2]
      · simp [Deed.mark, hj, Ne.symm hj]
    | answered j => simp [Deed.mark]
    | replied j => simp [Deed.mark]

theorem Orderly.resolveAll {past : List Deed} {keys : List String} (h : Orderly past)
    (hkeys : keys.Nodup) (hlive : ∀ k ∈ keys, .registered k ∈ past ∧ .resolved k ∉ past) :
    Orderly ((keys.map .resolved).reverse ++ past) := by
  induction keys generalizing past with
  | nil => exact h
  | cons k rest ih =>
    obtain ⟨hk, hrest⟩ := nodup_cons.mp hkeys
    rw [map_cons, reverse_cons, append_assoc]
    refine ih ⟨hlive k mem_cons_self, h⟩ hrest fun j hj => ?_
    have hne : j ≠ k := fun heq => hk (heq ▸ hj)
    simpa [hne] using hlive j (mem_cons_of_mem _ hj)

/-! ## The invariant -/

namespace Supervisor

structure Inv (s : Supervisor) : Prop where
  orderly : Orderly s.done
  events : (s.emitted ++ s.emitting).map PermissionEvent.mark = s.done.reverse.filterMap Deed.mark
  live : ∀ k, (∃ p, s.approvals.live.lookup k = some p) ↔
    .registered k ∈ s.done ∧ .resolved k ∉ s.done
  state : ∀ k p, s.approvals.live.lookup k = some p →
    (p.state = .answered ↔ .answered k ∈ s.done)
  resolved : ∀ k, k ∈ s.approvals.resolved ↔ .resolved k ∈ s.done
  answering : ∀ r ∈ s.answering, .answered r.key ∈ s.done ∧ .replied r.key ∉ s.done
  distinct : (s.answering.map Reply.key).Nodup

variable {texts : Texts} {pinned : String} {s s' : Supervisor}

theorem inv_start : start.Inv where
  orderly := trivial
  events := rfl
  live k := by simp [start]
  state k p h := by simp [start] at h
  resolved k := by simp [start]
  answering r h := by simp [start] at h
  distinct := nodup_nil

theorem Inv.handleApproval (h : s.Inv) (hidle : s.emitting = []) {id : RpcID} {method : String}
    {p : ApprovalParams} : (s.handleApproval pinned id method p).Inv := by
  rw [Supervisor.handleApproval]
  split
  · exact h
  dsimp only
  split
  · exact h
  next a hreg =>
  obtain ⟨hnew, ha⟩ := Option.ite_none_left_eq_some.mp hreg
  cases ha
  rw [not_or, Option.not_isSome_iff_eq_none, h.resolved] at hnew
  have hnone : .registered (idKey id) ∉ s.done := fun hmem => by
    obtain ⟨q, hq⟩ := (h.live _).mpr ⟨hmem, hnew.2⟩
    cases hnew.1.symm.trans hq
  have hevents := h.events
  rw [hidle, append_nil] at hevents
  refine ⟨⟨hnone, h.orderly⟩, ?_, fun k => ?_, fun k q hq => ?_, ?_, ?_, h.distinct⟩
  · simp [hevents, PermissionEvent.mark, Deed.mark]
  · simp only [lookup_insert_ite]
    by_cases hk : k = idKey id
    · simp [hk, hnew.2]
    · simpa [hk] using h.live k
  · rcases lookup_insert_eq_some.mp hq with ⟨rfl, rfl⟩ | ⟨-, hq⟩
    · have hno : .answered (idKey id) ∉ s.done := fun hmem =>
        hnone (h.orderly.registered (.inl hmem))
      simp [hno]
    · simpa using h.state k q hq
  · simpa using h.resolved
  · simpa using h.answering

variable {a : ApprovalTracker}

/-- Requests are resolved, one or all those of a turn. -/
theorem Inv.cleared (h : s.Inv) (hidle : s.emitting = []) {keys : List String}
    {evs : List PermissionEvent} (hkeys : keys.Nodup)
    (hlive : ∀ k ∈ keys, ∃ p, s.approvals.live.lookup k = some p)
    (hlook : ∀ k, a.live.lookup k = if k ∈ keys then none else s.approvals.live.lookup k)
    (hres : ∀ k, k ∈ a.resolved ↔ k ∈ keys ∨ k ∈ s.approvals.resolved)
    (hevs : evs.map PermissionEvent.mark = keys.map (·, true)) :
    Inv { s with
      approvals := a
      emitting := evs
      done := (keys.map .resolved).reverse ++ s.done } := by
  have hevents := h.events
  rw [hidle, append_nil] at hevents
  refine ⟨?_, ?_, fun k => ?_, fun k p hp => ?_, fun k => ?_, ?_, h.distinct⟩
  · exact h.orderly.resolveAll hkeys fun k hk => (h.live k).mp (hlive k hk)
  · simp [hevents, hevs, filterMap_append, filterMap_map, Function.comp_def, Deed.mark]
  · rw [hlook]
    by_cases hk : k ∈ keys
    · simp [hk]
    · simpa [hk] using h.live k
  · rw [hlook] at hp
    split_ifs at hp
    simpa using h.state k p hp
  · rw [hres, h.resolved]
    simp
  · simpa using h.answering

theorem Inv.handleServerResolved (h : s.Inv) (hidle : s.emitting = []) {threadID : String}
    {id : RpcID} {decision : String} :
    (s.handleServerResolved texts pinned threadID id decision).Inv := by
  rw [Supervisor.handleServerResolved]
  split
  · exact h
  split
  · exact h
  next a hres =>
  obtain ⟨hlive, ha⟩ := Option.ite_none_left_eq_some.mp hres
  cases ha
  rw [not_or, Option.isNone_iff_eq_none] at hlive
  refine h.cleared hidle (nodup_singleton _) (fun k hk => ?_) (fun k => ?_) (by simp) rfl
  · rw [mem_singleton.mp hk]
    exact Option.ne_none_iff_exists'.mp hlive.2
  · simp [lookup_erase_ite]

theorem mem_raisedBy {turnID k : String} :
    k ∈ a.raisedBy turnID ↔ ∃ p, a.live.lookup k = some p ∧ p.turnID = turnID := by
  rw [ApprovalTracker.raisedBy, ← AList.mem_keys, GoMap.mem_filter]
  simp

theorem lookup_drainForTurn {turnID : String} (k : String) : (a.drainForTurn turnID).live.lookup k =
      if k ∈ a.raisedBy turnID then none else a.live.lookup k := by
  refine Option.ext fun q => ?_
  rw [ApprovalTracker.drainForTurn, lookup_filter_eq_some, decide_eq_true_eq]
  split
  next hk =>
    obtain ⟨p, hp, hturn⟩ := mem_raisedBy.mp hk
    refine ⟨fun ⟨hq, hne⟩ => ?_, nofun⟩
    cases hp.symm.trans hq
    exact absurd hturn hne
  next hk => exact ⟨And.left, fun hq => ⟨hq, fun hturn => hk (mem_raisedBy.mpr ⟨q, hq, hturn⟩)⟩⟩

theorem Inv.handleTurnCompleted (h : s.Inv) (hidle : s.emitting = []) {threadID turnID : String} :
    (s.handleTurnCompleted pinned threadID turnID).Inv := by
  rw [Supervisor.handleTurnCompleted]
  split
  · exact h
  refine h.cleared hidle (AList.keys_nodup _) (fun k hk => ?_) lookup_drainForTurn (fun k => ?_) ?_
  · obtain ⟨p, hp, -⟩ := mem_raisedBy.mp hk
    exact ⟨p, hp⟩
  · exact mem_append
  · rw [List.map_map]
    rfl

theorem Inv.resolve (h : s.Inv) {requestID decision : String} :
    (s.resolve texts requestID decision).Inv := by
  rw [Supervisor.resolve]
  split
  · exact h
  next p a hans =>
  simp only [ApprovalTracker.answerLocally] at hans
  split at hans
  · cases hans
  next hnot =>
  split at hans
  · cases hans
  next q hq =>
  split_ifs at hans with hstate
  cases hans
  have hlive := (h.live requestID).mp ⟨p, hq⟩
  have hno : .answered requestID ∉ s.done := fun hmem =>
    hstate ((h.state _ p hq).mpr hmem)
  refine ⟨⟨⟨hlive.1, hno, hlive.2⟩, h.orderly⟩, ?_, fun k => ?_, fun k q hk => ?_, ?_, ?_, ?_⟩
  · simpa [filterMap_cons, Deed.mark] using h.events
  · simp only [lookup_insert_ite]
    by_cases hk : k = requestID
    · simp [hk, hlive]
    · simpa [hk] using h.live k
  · rcases lookup_insert_eq_some.mp hk with ⟨rfl, rfl⟩ | ⟨hne, hk⟩
    · simp
    · simpa [hne] using h.state k q hk
  · simpa using h.resolved
  · intro r hr
    have hrep : .replied requestID ∉ s.done := fun hmem => by
      obtain ⟨past, hsub, hans, -⟩ := h.orderly.allowed hmem
      exact hno (hsub hans)
    rcases mem_append.mp hr with hr | hr
    · simpa using ⟨.inr (h.answering r hr).1, (h.answering r hr).2⟩
    · rw [mem_singleton.mp hr]
      simpa using hrep
  · rw [map_append, nodup_append]
    refine ⟨h.distinct, nodup_singleton _, fun k hk j hj heq => hno ?_⟩
    obtain ⟨r, hr, rfl⟩ := mem_map.mp hk
    rw [map_singleton, mem_singleton] at hj
    have hans := (h.answering r hr).1
    rwa [heq, hj] at hans

theorem Inv.respond (h : s.Inv) {i : Nat} {reply : Reply} (hi : s.answering[i]? = some reply)
    (written : Bool) : Inv { s with
      answering := s.answering.eraseIdx i
      done := if written then .replied reply.key :: s.done else s.done } := by
  have hsub : (s.answering.eraseIdx i).Sublist s.answering := eraseIdx_sublist ..
  have hdistinct := h.distinct.sublist (hsub.map Reply.key)
  have hans := h.answering _ (mem_of_getElem? hi)
  cases written with
  | false =>
    exact { h with
      answering := fun r hr => h.answering r (hsub.subset hr)
      distinct := hdistinct }
  | true =>
    refine ⟨⟨hans, h.orderly⟩, ?_, ?_, ?_, ?_, fun r hr => ?_, hdistinct⟩
    · simpa [filterMap_cons, Deed.mark] using h.events
    · simpa using h.live
    · simpa using h.state
    · simpa using h.resolved
    have hold := h.answering r (hsub.subset hr)
    have hne : r.key ≠ reply.key := by
      obtain ⟨j, hji, hj⟩ := mem_eraseIdx_iff_getElem?.mp hr
      obtain ⟨hlt, -⟩ := List.getElem?_eq_some_iff.mp hj
      refine fun heq => hji ((getElem?_inj (by simpa using hlt) h.distinct).mp ?_)
      simp [hj, hi, heq]
    simpa [hne] using hold

theorem Inv.step {ev : Event} (h : s.Inv) (hstep : s.step texts pinned ev = some s') : s'.Inv := by
  revert hstep
  fun_cases s.step texts pinned ev with
  | case1 id method p hidle =>
    rintro ⟨⟩
    exact h.handleApproval hidle
  | case3 threadID id decision hidle =>
    rintro ⟨⟩
    exact h.handleServerResolved hidle
  | case5 threadID turnID hidle =>
    rintro ⟨⟩
    exact h.handleTurnCompleted hidle
  | case8 ev rest hemit =>
    rintro ⟨⟩
    have hevents := h.events
    rw [hemit] at hevents
    exact { h with events := by simpa using hevents }
  | case9 =>
    rintro ⟨⟩
    exact h.resolve
  | case11 i written reply hi =>
    rintro ⟨⟩
    exact h.respond hi written
  | _ => rintro ⟨⟩

theorem Inv.mem_openIDs (h : s.Inv) {k : String} : k ∈ s.approvals.openIDs ↔
    .registered k ∈ s.done ∧ .answered k ∉ s.done ∧ .resolved k ∉ s.done := by
  rw [ApprovalTracker.openIDs, ← AList.mem_keys, GoMap.mem_filter]
  constructor
  · rintro ⟨p, hp, hstate⟩
    obtain ⟨hreg, hres⟩ := (h.live k).mp ⟨p, hp⟩
    refine ⟨hreg, fun hans => ?_, hres⟩
    rw [decide_eq_true_eq, (h.state k p hp).mpr hans] at hstate
    cases hstate
  · rintro ⟨hreg, hans, hres⟩
    obtain ⟨p, hp⟩ := (h.live k).mpr ⟨hreg, hres⟩
    refine ⟨p, hp, ?_⟩
    rw [← h.state k p hp] at hans
    cases hstate : p.state with
    | pending => rfl
    | answered => exact absurd hstate hans

/-- **Approvals open once and close once**, whatever the order of requests, notices, turn ends and
    local answers: the events of an id are a request and then a resolution, or a part of that from
    the first; the deeds are orderly; the end of a turn leaves none of its requests and changes no
    other; and the open ids are those registered and neither answered nor resolved. -/
theorem approvals_open_and_close_once {events : List Event}
    (hrun : Transition.exec (Supervisor.step texts pinned) start events = some s) :
    (∀ k, (s.emitted.filter fun ev => ev.mark.1 = k).map PermissionEvent.mark <+:
      [(k, false), (k, true)]) ∧
    Orderly s.done ∧
    (∀ threadID turnID s', s.step texts pinned (.turnCompleted threadID turnID) = some s' →
      (pinned ≠ "" → threadID = pinned → turnID ≠ "" →
        ∀ k p, s'.approvals.live.lookup k = some p → p.turnID ≠ turnID) ∧
      ∀ k p, s.approvals.live.lookup k = some p → p.turnID ≠ turnID →
        s'.approvals.live.lookup k = some p ∧ k ∉ s'.approvals.resolved) ∧
    ∀ k, k ∈ s.approvals.openIDs ↔
      .registered k ∈ s.done ∧ .answered k ∉ s.done ∧ .resolved k ∉ s.done := by
  have h : s.Inv := exec_invariant Inv (fun _ _ _ hinv hstep => hinv.step hstep)
    inv_start hrun
  refine ⟨fun k => ?_, h.orderly, fun threadID turnID s' hstep => ?_, fun k => h.mem_openIDs⟩
  · have hall : ((s.emitted ++ s.emitting).filter fun ev => ev.mark.1 = k).map
        PermissionEvent.mark = marksOf k s.done := by
      rw [marksOf, ← h.events, filter_map]
      rfl
    have hpre : (s.emitted.filter fun ev => ev.mark.1 = k).map PermissionEvent.mark <+:
        marksOf k s.done := by
      rw [← hall, filter_append, map_append]
      exact prefix_append _ _
    refine hpre.trans ?_
    rw [h.orderly.marksOf]
    by_cases hreg : .registered k ∈ s.done
    · by_cases hres : .resolved k ∈ s.done <;> simp [hreg, hres]
    · have hres : .resolved k ∉ s.done := fun hmem => hreg (h.orderly.registered (.inr hmem))
      simp [hreg, hres]
  · obtain ⟨-, hs'⟩ := Option.ite_none_right_eq_some.mp hstep
    cases hs'
    have hlive : ∀ k p, s.approvals.live.lookup k = some p → k ∉ s.approvals.resolved :=
      fun k p hp hmem => ((h.live k).mp ⟨p, hp⟩).2 ((h.resolved k).mp hmem)
    rw [Supervisor.handleTurnCompleted]
    split
    next hforeign =>
      refine ⟨fun hp ht hne => ?_, fun k p hp _ => ⟨hp, hlive k p hp⟩⟩
      simp [hp, ht, hne] at hforeign
    refine ⟨fun _ _ _ k p hp hturn => ?_, fun k p hp hturn => ?_⟩
    · rw [lookup_drainForTurn] at hp
      split_ifs at hp with hout
      exact hout (mem_raisedBy.mpr ⟨p, hp, hturn⟩)
    have hout : k ∉ s.approvals.raisedBy turnID := fun hmem => by
      obtain ⟨q, hq, heq⟩ := mem_raisedBy.mp hmem
      cases hp.symm.trans hq
      exact hturn heq
    rw [lookup_drainForTurn, if_neg hout]
    exact ⟨hp, fun hmem => (mem_append.mp hmem).elim hout (hlive k p hp)⟩

/-- The words of a decision, for a run. -/
def plainTexts : Texts := ⟨id, (· = "allow")⟩

/-- A command is asked for in turn `t`, answered here, and resolved by the server before the reply is
    written. -/
def lateReply : List Event :=
  [.request (.string "r") "item/commandExecution/requestApproval" ⟨"i", "th", "t", "ls", ""⟩, .emit,
    .resolve "r" "allow", .serverResolved "th" (.string "r") "", .emit, .respond 0 true]

theorem approvals_open_and_close_once_lateReply :
    ∃ s, Transition.exec (Supervisor.step plainTexts "th") start lateReply = some s ∧
      s.emitted.map PermissionEvent.mark = [("r", false), ("r", true)] ∧
      s.approvals.openIDs = [] ∧
      (∀ k, (s.emitted.filter fun ev => ev.mark.1 = k).map PermissionEvent.mark <+:
        [(k, false), (k, true)]) ∧
      Orderly s.done ∧
      ∀ k, k ∈ s.approvals.openIDs ↔
        .registered k ∈ s.done ∧ .answered k ∉ s.done ∧ .resolved k ∉ s.done := by
  have ⟨s, hrun, hmarks, hopen⟩ : ∃ s, exec (Supervisor.step plainTexts "th") start lateReply =
      some s ∧ s.emitted.map PermissionEvent.mark = [("r", false), ("r", true)] ∧
        s.approvals.openIDs = [] := by decide +kernel
  obtain ⟨hevents, horderly, -, hids⟩ := approvals_open_and_close_once hrun
  exact ⟨s, hrun, hmarks, hopen, hevents, horderly, hids⟩

/-- The reply of a `Resolve` that was taken in time is written after the resolution. -/
theorem reply_after_resolution :
    ∃ s, Transition.exec (Supervisor.step plainTexts "th") start lateReply = some s ∧
      s.done = [.replied "r", .resolved "r", .answered "r", .registered "r"] := by
  decide +kernel

/-! ## Answers that are not sent -/

/-- Every answer that was taken is written, or its `Resolve` is still to write it. -/
def Sent (s : Supervisor) : Prop :=
  ∀ k, .answered k ∈ s.done → .replied k ∈ s.done ∨ ∃ r ∈ s.answering, r.key = k

theorem Sent.of_eq (h : s.Sent) (hans : s'.answering = s.answering)
    (hdone : ∀ k, (.answered k ∈ s'.done ↔ .answered k ∈ s.done) ∧
      (.replied k ∈ s'.done ↔ .replied k ∈ s.done)) : s'.Sent := by
  intro k hk
  rw [hans, (hdone k).2]
  exact h k ((hdone k).1.mp hk)

/-- **A step that loses no reply** leaves no answer unsent. -/
theorem Sent.step {ev : Event} (h : s.Sent) (hev : ∀ i, ev ≠ .respond i false)
    (hstep : s.step texts pinned ev = some s') : s'.Sent := by
  revert hstep
  fun_cases s.step texts pinned ev with
  | case1 id method p =>
    rintro ⟨⟩
    fun_cases s.handleApproval pinned id method p with
    | case1 | case2 => exact h
    | case3 => exact h.of_eq rfl (by simp)
  | case3 threadID id decision =>
    rintro ⟨⟩
    fun_cases s.handleServerResolved texts pinned threadID id decision with
    | case1 | case2 => exact h
    | case3 => exact h.of_eq rfl (by simp)
  | case5 threadID turnID =>
    rintro ⟨⟩
    fun_cases s.handleTurnCompleted pinned threadID turnID with
    | case1 => exact h
    | case2 => exact h.of_eq rfl (by simp)
  | case8 =>
    rintro ⟨⟩
    exact h
  | case9 requestID decision =>
    rintro ⟨⟩
    rw [Supervisor.resolve]
    split
    · exact h
    intro k hk
    rcases mem_cons.mp hk with heq | hk
    · cases heq
      exact .inr ⟨_, mem_append_right _ (mem_singleton.mpr rfl), rfl⟩
    · refine (h k hk).imp (mem_cons_of_mem _) ?_
      rintro ⟨r, hr, hkey⟩
      exact ⟨r, mem_append_left _ hr, hkey⟩
  | case11 i written reply hi =>
    cases written with
    | false => exact absurd rfl (hev i)
    | true =>
      rintro ⟨⟩ k hk
      rcases h k (by simpa using hk) with hold | ⟨r, hr, rfl⟩
      · exact .inl (mem_cons_of_mem _ hold)
      by_cases hreply : r = reply
      · subst hreply
        exact .inl mem_cons_self
      -- another call's reply is still to be written
      · obtain ⟨j, hj⟩ := mem_iff_getElem?.mp hr
        have hne : j ≠ i := fun heq => hreply (Option.mem_unique (heq ▸ hj) hi)
        exact .inr ⟨r, mem_eraseIdx_iff_getElem?.mpr ⟨j, hne, hj⟩, rfl⟩
  | _ => rintro ⟨⟩

/-- **An approval whose answer was not sent stays answerable** in every run in which no write of a
    reply fails: a live request for which no reply was written, and whose `Resolve` is not just about
    to write one, is open, and the next `Resolve` for it is taken. -/
theorem unsent_approval_open {events : List Event}
    (hrun : Transition.exec (Supervisor.step texts pinned) start events = some s)
    (hwritten : ∀ i, .respond i false ∉ events) {k : String} {p : PendingApproval}
    (hlive : s.approvals.live.lookup k = some p) (hunsent : .replied k ∉ s.done)
    (hidle : ∀ r ∈ s.answering, r.key ≠ k) :
    k ∈ s.approvals.openIDs ∧ ∃ q a, s.approvals.answerLocally k = .ok (q, a) := by
  have hinv : s.Inv := exec_invariant Inv (fun _ _ _ h hstep => h.step hstep) inv_start
    hrun
  have hno : ∀ ev ∈ events, ∀ i, ev ≠ .respond i false := by
    rintro _ hev i rfl
    exact hwritten i hev
  have hstart : start.Sent := fun k hk => by cases hk
  have hsent : s.Sent := exec_invariant_along (fun _ ev => ∀ i, ev ≠ .respond i false)
    Sent (fun _ _ _ h hev hstep => h.step hev hstep) hstart (.of_forall hno) hrun
  obtain ⟨hreg, hres⟩ := (hinv.live k).mp ⟨p, hlive⟩
  have hans : .answered k ∉ s.done := fun hk => (hsent k hk).elim hunsent fun ⟨r, hr, hkey⟩ =>
    hidle r hr hkey
  refine ⟨hinv.mem_openIDs.mpr ⟨hreg, hans, hres⟩, ?_⟩
  rw [← hinv.resolved] at hres
  rw [← hinv.state k p hlive] at hans
  simp [ApprovalTracker.answerLocally, hres, hlive, hans]

/-- A command is asked for in turn `t` and answered here; the write of the reply succeeds or not. -/
def answeredOnce (written : Bool) : List Event :=
  [.request (.string "r") "item/commandExecution/requestApproval" ⟨"i", "th", "t", "ls", ""⟩, .emit,
    .request (.string "q") "item/commandExecution/requestApproval" ⟨"j", "th", "t", "ls", ""⟩, .emit,
    .resolve "r" "allow", .respond 0 written]

theorem unsent_approval_open_answeredOnce :
    ∃ s, Transition.exec (Supervisor.step plainTexts "th") start (answeredOnce true) = some s ∧
      "q" ∈ s.approvals.openIDs := by
  refine reaches_imp (P := fun s => (s.approvals.live.lookup "q").isSome ∧
    .replied "q" ∉ s.done ∧ ∀ r ∈ s.answering, r.key ≠ "q") (by decide +kernel) ?_
  rintro s hs ⟨hlive, hunsent, hidle⟩
  obtain ⟨p, hp⟩ := Option.isSome_iff_exists.mp hlive
  exact (unsent_approval_open hs (by simp [answeredOnce]) hp hunsent hidle).1

/-- **The write of an answer fails and the approval is lost**: it is live, no reply was written for
    it, and it is not open; a further `Resolve` is refused as a duplicate. -/
theorem failed_reply_closes_approval :
    ∃ s, Transition.exec (Supervisor.step plainTexts "th") start (answeredOnce false) = some s ∧
      (s.approvals.live.lookup "r").isSome ∧ .replied "r" ∉ s.done ∧ s.answering = [] ∧
      "r" ∉ s.approvals.openIDs ∧
      (match s.approvals.answerLocally "r" with
        | .error .duplicate => true
        | _ => false) = true := by
  decide +kernel

end Supervisor

end AgentMultiplexer.CodexApp
