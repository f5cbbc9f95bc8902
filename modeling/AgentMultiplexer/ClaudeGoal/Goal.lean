import AgentMultiplexer.Theory.GoMap
import AgentMultiplexer.Theory.GoStrings
import AgentMultiplexer.Theory.Transition

set_option autoImplicit false

/-! # Claude goals

`internal/claudegoal` keeps the goal of a Claude coordinator in one file. The prompt hook, the Stop
hook, the model's own marks and the host's controls each read the file, compute the next state and
replace the file. Time stamps and the wording of the continuation prompt are left out: no decision
reads them.

Two questions are asked of it. In a sequential run, how many turns can amux force before the user is
asked again? And when the writers interleave, who can move a goal that was stopped? -/

namespace AgentMultiplexer.ClaudeGoal

open GoStrings List Transition Option

/-! ## The state and its transitions -/

inductive Status
  | active | paused | input | waiting | blocked | budgetLimited | complete
  deriving DecidableEq

def maxContinuations : Nat := 100

def maxObjectiveBytes : Nat := 4096

def resumeMarker : String := "[amux goal]"

def restartPrompt : String := resumeMarker ++ " This session was restarted." ++
  " If your goal is still active, continue working toward it from the existing conversation and " ++
  "current workspace state; any background wake-up you had armed died with the runtime, so " ++
  "re-check what you were waiting on and re-arm it if needed. Do not resume a goal the user " ++
  "paused or that is complete, blocked, or waiting for the user's input, and do not repeat work " ++
  "already completed."

/-- The persisted goal. The zero value, whose status is empty, means "no goal". -/
structure State where
  objective : String := ""
  status : Option Status := none
  continuations : Nat := 0
  note : String := ""
  deriving DecidableEq

/-- The whole characters among the first `room` bytes. -/
def takeBytes : Nat → List Char → List Char
  | _, [] => []
  | room, c :: cs => if c.utf8Size ≤ room then c :: takeBytes (room - c.utf8Size) cs else []

def truncate (s : String) : String :=
  if s.utf8ByteSize ≤ maxObjectiveBytes then s
  else String.ofList (takeBytes maxObjectiveBytes s.toList) ++ "…"

def hasPrefix (s start : String) : Bool := start.toList.isPrefixOf s.toList

def continueOnRestart (s : State) : Bool :=
  (s.status = some .active || s.status = some .waiting) && s.objective ≠ "" &&
    s.continuations < maxContinuations

def onRestart (s : State) : State :=
  if continueOnRestart s then
    { s with status := some .active, continuations := s.continuations + 1, note := "" }
  else s

def onPrompt (s : State) (text : String) : State :=
  let prompt := trimSpace text
  let resume := hasPrefix prompt resumeMarker
  if prompt = "" then s
  else if hasPrefix prompt restartPrompt then onRestart s
  else if s.status ≠ none && s.objective ≠ "" && (resume || s.status = some .input) then
    { objective :=
        if resume then s.objective else truncate (s.objective ++ "\n\nUser reply: " ++ prompt)
      status := some .active }
  else if resume then s
  else { objective := truncate prompt, status := some .active }

/-- The next state, and whether the turn goes on. -/
def onStop (s : State) : State × Bool :=
  match s.status with
  | some .waiting => ({ s with status := some .active }, false)
  | some .active =>
    if maxContinuations ≤ s.continuations then
      ({ s with
        status := some .budgetLimited
        note := "stopped after " ++ toString s.continuations ++
          " continuations without a user turn" }, false)
    else ({ s with continuations := s.continuations + 1 }, true)
  | _ => (s, false)

def mark (s : State) (status : Status) (note : String) : Option State :=
  if s.status = none then none
  else
    match status with
    | .complete | .input | .waiting | .blocked =>
      some { s with status := some status, note := truncate (trimSpace note) }
    | _ => none

/-- `amux agent goal complete|ask|wait|blocked`. -/
def goalMark (s : State) (status : Status) (note : String) : Option State :=
  if trimSpace note = "" && status ≠ .complete then none else mark s status note

/-- The statuses a control may ask for, the empty one for none. -/
def controls : List (String × Option Status) :=
  [("", none), ("active", some .active), ("paused", some .paused), ("complete", some .complete)]

/-- The next state, and whether the goal is active after not being active. -/
def control (s : State) (status objective : String) : Option (State × Bool) :=
  let status := trimSpace status
  let objective := trimSpace objective
  if status = "clear" then if objective ≠ "" then none else some ({}, false)
  else if status = "" && objective = "" then none
  else (controls.lookup status).bind fun wanted =>
    let goal : State := if objective = "" then s else
      { (if s.status = none then { status := some .active } else s) with
        objective := truncate objective }
    if goal.status = none then none
    else
      let status := wanted.or goal.status
      some ({ goal with
        status := status
        continuations := if status = some .active then 0 else goal.continuations
        note := "" }, status = some .active && s.status ≠ some .active)

def prWakeMarker : String := "[amux goal]"

def prWakeText (hookGoal : Bool) (lines : List String) : String :=
  (if hookGoal then prWakeMarker ++ " PR update" else "[amux] PR update") ++
    " (amux PR watcher wake-up, not a new task):" ++ String.join (lines.map ("\n- " ++ ·)) ++
    "\nCheck these PRs and act on them as your task requires."

/-- Who writes the goal file: a prompt or reply of the user, a control of the user, a wake-up typed
    by the PR watcher, the prompt of a restart, a mark of the model, and the Stop hook. -/
inductive Action
  | prompt (text : String)
  | control (status objective : String)
  | wake (lines : List String)
  | restart
  | mark (status : Status) (note : String)
  | stop
  deriving DecidableEq

def Action.byUser : Action → Bool
  | .prompt _ | .control .. => true
  | _ => false

/-- What the action writes over the state it read. A refused mark or control writes nothing, and
    the Stop hook writes only a change. -/
def Action.writes (s : State) : Action → Option State
  | .prompt text => some (onPrompt s text)
  | .control status objective => (ClaudeGoal.control s status objective).map Prod.fst
  | .wake lines => some (onPrompt s (prWakeText true lines))
  | .restart => some (onPrompt s restartPrompt)
  | .mark status note => goalMark s status note
  | .stop => if (onStop s).1 = s then none else some (onStop s).1

@[simp] theorem getD_writes_stop (s : State) : (Action.stop.writes s).getD s = (onStop s).1 := by
  simp only [Action.writes]
  split_ifs with hsame <;> simp [hsame]

/-- The restart prompt is recognised by its own text. -/
theorem onPrompt_restartPrompt (s : State) : onPrompt s restartPrompt = onRestart s := by
  have hfirst : resumeMarker.toList.head? = some '[' := by decide +kernel
  have hlast : "already completed.".toList.getLast? = some '.' := by decide +kernel
  have htrim : trimSpace restartPrompt = restartPrompt := by
    apply trimSpace_eq_self
    · simp only [restartPrompt, String.toList_append, head?_append, hfirst, some_or]
      decide
    · simp only [restartPrompt, String.toList_append, getLast?_append, hlast, some_or]
      decide
  have hne : restartPrompt ≠ "" := fun h => by simp [restartPrompt, String.append_eq_empty_iff] at h
  simp [onPrompt, htrim, hne, hasPrefix]

/-- A wake-up is taken for a resume by the user. -/
theorem onPrompt_wake {s : State} (hgoal : s.status ≠ none) (hobjective : s.objective ≠ "")
    (lines : List String) :
    onPrompt s (prWakeText true lines) = { objective := s.objective, status := some .active } := by
  have hfirst : prWakeMarker.toList.head? = some '[' := by decide +kernel
  have hlast : "\nCheck these PRs and act on them as your task requires.".toList.getLast? =
      some '.' := by decide +kernel
  have htrim : trimSpace (prWakeText true lines) = prWakeText true lines := by
    apply trimSpace_eq_self
    · simp only [prWakeText, if_true, String.toList_append, head?_append, hfirst, some_or]
      decide
    · simp only [prWakeText, String.toList_append, getLast?_append, hlast, some_or]
      decide
  have hne : prWakeText true lines ≠ "" := fun h => by simp [prWakeText] at h
  have hmarker : prWakeMarker = resumeMarker := rfl
  have hresume : hasPrefix (prWakeText true lines) resumeMarker = true := by
    simp [hasPrefix, prWakeText, hmarker]
  have hrestart : hasPrefix (prWakeText true lines) restartPrompt = false := by
    have hT : " This session was restarted.".toList =
        ' ' :: 'T' :: "his session was restarted.".toList := by decide +kernel
    have hP : " PR update".toList = ' ' :: 'P' :: "R update".toList := by decide +kernel
    rw [Bool.eq_false_iff]
    intro h
    simp only [hasPrefix, prWakeText, restartPrompt, hmarker, if_true, isPrefixOf_iff_prefix,
      String.toList_append, append_assoc, hT, hP, cons_append,
      prefix_append_right_inj, cons_prefix_cons] at h
    exact absurd h.2.1 (by decide)
  simp [onPrompt, htrim, hne, hresume, hrestart, hgoal, hobjective]

theorem goalMark_eq {s s' : State} {status : Status} {note : String}
    (h : goalMark s status note = some s') :
    s'.continuations = s.continuations ∧ s'.status = some status ∧ status ≠ .active := by
  simp only [goalMark, mark] at h
  split_ifs at h
  split at h
  all_goals simp at h
  all_goals simp [← h]

/-! ## The continuation budget -/

/-- The turn the action gives the coordinator without the user. -/
def Action.forces (s : State) : Action → Bool
  | .restart => continueOnRestart s
  | .stop => (onStop s).2
  | _ => false

/-- A goal, and the turns forced since the user last acted on it. -/
structure Attended where
  goal : State
  forced : Nat
  deriving DecidableEq

def Attended.step (s : Attended) (a : Action) : Option Attended :=
  some ⟨(a.writes s.goal).getD s.goal,
    if a.byUser then 0 else s.forced + (a.forces s.goal).toNat⟩

/-- A wake-up comes before any continuation is counted. -/
def Attended.unspent (s : Attended) : Action → Bool
  | .wake _ => s.goal.continuations = 0
  | _ => true

/-- Every forced turn since the user's last action is counted. -/
structure Attended.Counted (s : Attended) : Prop where
  counted : s.forced ≤ s.goal.continuations
  bounded : s.forced ≤ maxContinuations

theorem onStop_cases (s : State) :
    (onStop s).2 = false ∧ (onStop s).1.continuations = s.continuations ∨
      (onStop s).2 = true ∧ (onStop s).1.continuations = s.continuations + 1 ∧
        s.continuations < maxContinuations := by
  unfold onStop
  split
  next => simp
  next =>
    split_ifs with hspent
    · simp
    · exact .inr ⟨rfl, rfl, Nat.lt_of_not_le hspent⟩
  next => simp

theorem Attended.Counted.step {s s' : Attended} {a : Action} (h : s.Counted)
    (hunspent : s.unspent a = true) (hstep : s.step a = some s') : s'.Counted := by
  cases hstep
  obtain ⟨hcounted, hbounded⟩ := h
  cases a with
  | prompt | control => exact ⟨Nat.zero_le _, Nat.zero_le _⟩
  | wake lines =>
    -- the wake-up resets the count, so no turn may have been forced before it
    have hzero : s.goal.continuations = 0 := by simpa [unspent] using hunspent
    constructor <;> simp [Action.byUser, Action.forces] <;> omega
  | restart =>
    simp only [Action.writes, onPrompt_restartPrompt, onRestart, Action.byUser, Action.forces]
    by_cases hc : continueOnRestart s.goal
    · have hroom : s.goal.continuations < maxContinuations := by
        simp only [continueOnRestart, Bool.and_eq_true, decide_eq_true_eq] at hc
        exact hc.2
      constructor <;> simp [hc] <;> omega
    · constructor <;> simp [hc, hcounted, hbounded]
  | mark status note =>
    cases hm : goalMark s.goal status note with
    | none => constructor <;> simpa [Action.writes, hm, Action.byUser, Action.forces]
    | some g =>
      have hkept := (goalMark_eq hm).1
      constructor <;> simp [Action.writes, hm, Action.byUser, Action.forces] <;> omega
  | stop =>
    rcases onStop_cases s.goal with ⟨hcont, hsame⟩ | ⟨hcont, hmore, hroom⟩
    · constructor <;> simpa [Action.byUser, Action.forces, hcont, hsame]
    · constructor <;> simp [Action.byUser, Action.forces, hcont, hmore] <;> omega

/-- **The budget bounds unattended work**, in the runs where no wake-up finds a counted
    continuation: from any goal, amux never forces more turns than the budget between two actions of
    the user. -/
theorem forced_le_maxContinuations {goal : State} {actions : List Action} {s : Attended}
    (hunspent : Along Attended.step (fun s a => s.unspent a = true) ⟨goal, 0⟩ actions)
    (h : exec Attended.step ⟨goal, 0⟩ actions = some s) : s.forced ≤ maxContinuations :=
  (exec_invariant_along _ Attended.Counted (fun _ _ _ h hP hstep => h.step hP hstep)
    ⟨Nat.zero_le _, Nat.zero_le _⟩ hunspent h).bounded

def shipIt : State := { objective := "ship it", status := some .active }

theorem busy_forces_the_budget :
    ∃ s, exec Attended.step ⟨shipIt, 0⟩ (List.replicate 101 .stop) = some s ∧ s.forced = 100 ∧
      s.forced ≤ maxContinuations := by
  refine reaches_imp (P := fun s => s.forced = 100) (by decide +kernel) fun s hs hforced => ?_
  exact ⟨hforced, forced_le_maxContinuations (.of_check (fun _ _ h => h) (by decide +kernel)) hs⟩

/-- The goal waits, the Stop hook lets the turn end, and the wake-up that the waiting goal admits
    gives it a fresh budget. -/
theorem wake_renews_the_budget :
    ∃ s, exec Attended.step ⟨shipIt, 0⟩ (List.replicate 100 .stop ++
      [.mark .waiting "CI", .stop] ++ [.wake ["PR 1 merged"], .stop]) = some s ∧
      maxContinuations < s.forced := by
  have hspent : exec Attended.step ⟨shipIt, 0⟩ (List.replicate 100 .stop ++
      [.mark .waiting "CI", .stop]) =
      some ⟨{ shipIt with continuations := 100, note := "CI" }, 100⟩ := by decide +kernel
  refine ⟨⟨{ shipIt with continuations := 1 }, 101⟩, ?_, by decide⟩
  refine exec_append_eq_some.mpr ⟨_, hspent, exec_cons_eq_some.mpr ⟨⟨shipIt, 100⟩, ?_, ?_⟩⟩
  · simp [Attended.step, Action.writes, onPrompt_wake, shipIt, Action.byUser, Action.forces]
  · decide +kernel

/-! ## Stopped goals -/

/-- A writer between its first look at the goal file and its write: the PR watcher has admitted a
    wake-up, or the file has been read for an action. -/
inductive Writer
  | admitted (lines : List String)
  | read (goal : State) (a : Action)
  deriving DecidableEq

/-- The goal file, its writers, and whether the goal was stopped since the user last moved it. -/
structure Shared where
  goal : State
  writers : GoMap Nat Writer
  stopped : Bool

inductive Event
  | admits (w : Nat) (lines : List String)
  | read (w : Nat) (a : Action)
  | write (w : Nat)

/-- `coordinatorTakesWake`, as far as the goal decides it. -/
def coordinatorTakesWake (s : State) : Bool :=
  s.status = none || s.status = some .active || s.status = some .waiting

/-- Whether the goal counts as stopped once the action has written `next`: by a control that paused,
    completed or cleared it, or by a mark of the model other than waiting. -/
def Action.stops (stopped : Bool) (next : State) : Action → Bool
  | .prompt _ => false
  | .control .. =>
    next.status = none || next.status = some .paused || next.status = some .complete
  | .mark status _ => stopped || status ≠ .waiting
  | _ => stopped

def Shared.step (s : Shared) : Event → Option Shared
  | .admits w lines =>
    if s.writers.lookup w = none && coordinatorTakesWake s.goal then
      some { s with writers := s.writers.insert w (.admitted lines) }
    else none
  | .read w a =>
    let before := match a with
      | .wake lines => some (.admitted lines)
      | _ => none
    if s.writers.lookup w = before then
      some { s with writers := s.writers.insert w (.read s.goal a) }
    else none
  | .write w =>
    match s.writers.lookup w with
    | some (.read old a) =>
      match a.writes old with
      | none => some { s with writers := s.writers.erase w }
      | some next => some ⟨next, s.writers.erase w, a.stops s.stopped next⟩
    | _ => none

/-- The actions that are not the user's and yet move a stopped goal. -/
def Action.revives : Action → Bool
  | .wake _ | .mark .waiting _ => true
  | _ => false

/-- A write finds the file as it was read, and no stopped goal is woken or set to wait. -/
def Shared.calm (s : Shared) : Event → Bool
  | .write w =>
    match s.writers.lookup w with
    | some (.read old a) => old = s.goal && !(s.stopped && a.revives)
    | _ => true
  | _ => true

/-- The goal is not worked on, and no background wake-up will make it so. -/
structure State.Rests (s : State) : Prop where
  not_active : s.status ≠ some .active
  not_waiting : s.status ≠ some .waiting

theorem Action.writes_rests {a : Action} {s next : State} {stopped : Bool}
    (hw : a.writes s = some next) (hrests : stopped = true → s.Rests)
    (hrevives : stopped = true → a.revives = false) (h : a.stops stopped next = true) :
    next.Rests := by
  cases a with
  | prompt text => simp [stops] at h
  | control status objective =>
    simp only [stops, Bool.or_eq_true, decide_eq_true_eq] at h
    rcases h with (h | h) | h <;> constructor <;> simp [h]
  | wake lines =>
    simp only [revives, Bool.true_eq_false, imp_false] at hrevives
    exact absurd h hrevives
  | restart =>
    have hr := hrests h
    simp only [writes, onPrompt_restartPrompt, some.injEq] at hw
    rw [← hw, onRestart, if_neg (by simp [continueOnRestart, hr.not_active, hr.not_waiting])]
    exact hr
  | mark status note =>
    obtain ⟨-, hstatus, hactive⟩ := goalMark_eq hw
    refine ⟨by simp [hstatus, hactive], fun hwaiting => ?_⟩
    obtain rfl : status = .waiting := by simpa [hstatus] using hwaiting
    simp [stops] at h
    simp [revives, h] at hrevives
  | stop =>
    have hr := hrests h
    have hsame : (onStop s).1 = s := by
      unfold onStop
      split
      next hwaiting => exact absurd hwaiting hr.not_waiting
      next hactive => exact absurd hactive hr.not_active
      next => rfl
    simp [writes, hsame] at hw

theorem Shared.rests_step {s s' : Shared} {e : Event} (h : s.stopped = true → s.goal.Rests)
    (hcalm : s.calm e = true) (hstep : s.step e = some s') : s'.stopped = true → s'.goal.Rests := by
  cases e with
  | admits w lines | read w a =>
    simp only [step, ite_none_right_eq_some] at hstep
    cases hstep.2
    exact h
  | write w =>
    simp only [step] at hstep
    split at hstep
    next old a hread =>
      simp only [calm, hread, Bool.and_eq_true, decide_eq_true_eq] at hcalm
      obtain ⟨rfl, hrevives⟩ := hcalm
      split at hstep
      next =>
        cases hstep
        exact h
      next next hw =>
        cases hstep
        exact a.writes_rests hw h fun hs => by simpa [hs] using hrevives
    next => cases hstep

/-- **Only the user moves a stopped goal**, in the runs where each write finds the file as it was
    read and no stopped goal is woken by the PR watcher or set to wait by the model. -/
theorem stopped_goal_not_active {goal : State} {events : List Event} {s : Shared}
    (hcalm : Along Shared.step (fun s e => s.calm e = true) ⟨goal, ∅, false⟩ events)
    (h : exec Shared.step ⟨goal, ∅, false⟩ events = some s) (hstopped : s.stopped = true) :
    s.goal.status ≠ some .active :=
  (exec_invariant_along _ (fun s : Shared => s.stopped = true → s.goal.Rests)
    (fun _ _ _ h hP hstep => Shared.rests_step h hP hstep) (by simp) hcalm h hstopped).not_active

theorem paused_goal_not_active :
    ∃ s, exec Shared.step ⟨shipIt, ∅, false⟩ [.read 0 (.control "paused" ""), .write 0,
        .read 0 .stop, .write 0] = some s ∧ s.stopped = true ∧ s.goal.status ≠ some .active := by
  refine reaches_imp (P := fun s => s.stopped = true) (by decide +kernel) fun s hs hstopped => ?_
  exact ⟨hstopped,
    stopped_goal_not_active (.of_check (fun _ _ h => h) (by decide +kernel)) hs hstopped⟩

/-- The Stop hook read the goal before the user paused it, and writes it back. -/
theorem stop_hook_undoes_pause :
    ∃ s, exec Shared.step ⟨shipIt, ∅, false⟩ [.read 1 .stop, .read 0 (.control "paused" ""),
        .write 0, .write 1] = some s ∧
      s.stopped = true ∧ s.goal.status = some .active := by
  decide +kernel

end AgentMultiplexer.ClaudeGoal
