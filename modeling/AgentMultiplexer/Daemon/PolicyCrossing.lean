import AgentMultiplexer.Daemon.AdmissionSteps
import AgentMultiplexer.Daemon.SessionRows

set_option autoImplicit false

/-! # No policy change crosses a check

Between a guard's read of a row and the release of the admission it was read under, no other section
changes the row's archived flag or its root. The reader has the row's session locked, or a member of
the workgroup whose root it is, or `creationMu` and the row is a root's; the writer of a row has its
session locked, and for a root all the members and `creationMu`. One of the locks is common.

Three places of the code fall out of this scheme, and a check can be crossed there: the target of a
workgroup start and that of an agent's creation are not locked, and `admitArchive` takes a failed
read of the store for an unknown session and leaves out the members and `creationMu`. -/

namespace AgentMultiplexer.Daemon

open Access List Transition Eval Bool Thread State

/-! ## What an evaluation may read -/

theorem ruleFor_query {verb : String} {rule : Rule} (h : ruleFor .query verb = some rule)
    (hscope : rule.scope = .workgroup) : verb = queryRuntimeEvents := by
  have hall : ∀ entry ∈ rules .query, entry.2.scope = .workgroup →
      entry.1 = queryRuntimeEvents := by decide
  obtain ⟨before, after, heq, -⟩ := lookup_eq_some_iff.mp h
  exact hall (verb, rule) (by rw [heq]; simp) hscope

variable {job : Job}

/-- The guard of a section looks up its subject, and its target where it has one. -/
theorem guard_only {tables : Tables} {guard : Guard (Except PolicyError Unit)}
    (hrouted : job.routed = true) (h : job.guard tables = some guard) :
    guard.Only Names job.Wants := by
  have haction : ∀ {p a rule}, ruleFor (Action.request a).route a.request.verb = some rule →
      rule.scope = .workgroup → Job.target (.dispatch p a) = some a.id := by
    intro p a rule hrule hscope
    exact if_pos (ruleFor_workgroup hrule hscope)
  cases job with
  | report p =>
    cases h
    exact only_authorizeSessionReport (.inl ⟨rfl, rfl⟩)
  | query p req =>
    cases h
    simp only [Job.routed, and_eq_true, decide_eq_true_eq, bne_iff_ne] at hrouted
    refine only_authorize (.inl ⟨rfl, rfl⟩) fun rule hrule hscope => ?_
    rw [hrouted.1] at hrule
    exact absurd (ruleFor_query hrule hscope) hrouted.2
  | events p req =>
    cases h
    exact only_authorize (.inl ⟨rfl, rfl⟩) fun _ _ _ => .inr rfl
  | dispatch p a =>
    cases h
    exact only_authorize (.inl ⟨rfl, rfl⟩) fun _ hrule hscope => .inr (haction hrule hscope)
  | deferred p a =>
    cases p with
    | none => cases h
    | some p =>
      cases h
      exact only_authorize (.inl ⟨rfl, rfl⟩) fun _ hrule hscope =>
        .inr (haction (p := p) hrule hscope)
  | handle | reconcile | watch => cases h

variable {ev : Eval}

theorem Eval.read_only {P : String → Prop} (fetched : Fetch)
    (h : ev.guard.Only Names P) : (ev.read fetched).guard.Only Names P := by
  obtain ⟨guard, half⟩ := ev
  cases guard with
  | done v => exact h
  | ask id next =>
    obtain ⟨hid, hnext⟩ := h
    have hnone : (next (.ok none)).Only Names P := hnext _ nofun
    have herror : ∀ err, (next (.error err)).Only Names P := fun err => hnext _ nofun
    have hrow : ∀ row, (next (.ok (some (policyResource id row)))).Only Names P := by
      intro row
      refine hnext _ fun resource h => ?_
      cases h
      rfl
    cases half with
    | some row => rcases fetched with err | parent <;> simp only [read, herror, hrow]
    | none =>
      simp only [read]
      split
      · exact hnone
      split
      next hconsole =>
        refine hnext _ fun resource h => ?_
        cases h
        exact hconsole.symm
      · rcases fetched with err | _ | row
        · exact herror _
        · exact hnone
        simp only
        split
        · exact hrow row
        · exact ⟨hid, hnext⟩

/-- A row is kept for the read of its parent only when it was just read, of a member. -/
theorem Eval.read_half {fetched : Fetch} {row : Row}
    (h : (ev.read fetched).half = some row) : (∃ v, ev.guard = .done v ∧ ev.half = some row) ∨
      ∃ id next, ev.guard = .ask id next ∧ ev.half = none ∧ ev.wants = some id ∧
        fetched = .ok (some row) ∧ row.rootID ≠ "" ∧ ev.read fetched = ⟨.ask id next, some row⟩ := by
  obtain ⟨guard, half⟩ := ev
  cases guard with
  | done v => exact .inl ⟨v, rfl, h⟩
  | ask id next =>
    cases half with
    | some r => rcases fetched with err | parent <;> cases h
    | none =>
      simp only [read] at h
      split at h
      · cases h
      next hempty =>
      split_ifs at h with hconsole
      rcases fetched with err | _ | r
      · cases h
      · cases h
      simp only at h
      split_ifs at h with hdecides
      cases h
      have hwants : wants ⟨.ask id next, none⟩ = some id := by
        simp [wants, hempty, hconsole]
      have hmember : row.rootID ≠ "" := by
        intro h
        simp [Row.decides, Row.isRoot, h] at hdecides
      refine .inr ⟨id, next, rfl, rfl, hwants, rfl, hmember, ?_⟩
      simp only [read, if_neg hempty, if_neg hconsole]
      exact if_neg hdecides

/-! ## What protects a read row -/

theorem admitted_cases {phase : Phase} (h : phase.admitted = true) :
    (∃ plan, phase = .inside plan) ∨ phase = .alone := by
  cases phase with
  | inside plan => exact .inl ⟨plan, rfl⟩
  | alone => exact .inr rfl
  | _ => cases h

/-- Why no other section changes the row that was read. -/
inductive Cover (rows : Rows) (job : Job) (plan : Plan) (id : String) : Prop
  | locked (h : id ∈ plan.keys)
  | member {m : String} (hm : m ∈ plan.keys) (hroot : rootOf rows m = some id) (hne : id ≠ "")
  | root (hcreation : plan.creation = true) (hroot : rootOf rows id = some "")
  /-- A root the section itself deleted. -/
  | deleted (hcreation : plan.creation = true) (hnone : rootOf rows id = none)
      (hdeletes : job.action.any Action.deletes = true)

/-- An evaluation in progress looks up what it may, and the session whose parent it is about to read
    is locked. -/
structure EvalOk (rows : Rows) (job : Job) (plan : Plan) (ev : Eval) : Prop where
  only : ev.guard.Only Names job.Wants
  half : ∀ row, ev.half = some row → row.rootID ≠ "" ∧ ∃ id next, ev.guard = .ask id next ∧
    id ∈ plan.keys ∧ rootOf rows id = some row.rootID

/-- The second resolution of the members: whatever the store is at its reads, its result has every
    member the store has then. -/
def Rechecks (id : String) : Resolve (Option (List String)) → Rows → Prop
  | .done found, rows => ∀ ids, found = some ids → ∀ m, rootOf rows m = some id → m ∈ ids
  | .ask q next, _ => ∀ rows failure, Rooted rows → Rechecks id (next (answer rows failure q)) rows

variable {id : String}

theorem rootOf_of_lookup {rows : Rows} {row : Row} (h : rows.lookup id = some row) :
    rootOf rows id = some row.rootID := by
  rw [rootOf, h]
  rfl

theorem rechecks_sessionAndMembers (hid : id ≠ "") (rows : Rows) :
    Rechecks id (sessionAndMembers id) rows := by
  intro rows failure hrooted
  cases failure with
  | some err => nofun
  | none =>
    simp only [answer, Option.elim_none]
    cases hrow : rows.lookup id with
    | none => nofun
    | some row =>
      simp only
      split
      next =>
        intro rows failure _
        cases failure with
        | some err => nofun
        | none =>
          intro ids h m hm
          cases h
          exact mem_cons_of_mem _ (mem_children.mpr hm)
      next hmember =>
        intro ids h m hm
        exact absurd (isRoot_iff.mpr (hrooted.roots hm hid (rootOf_of_lookup hrow))) hmember

/-- What holds of a section in every state. -/
structure ThreadOk (rows : Rows) (th : Thread) : Prop where
  routed : th.job.routed = true
  fits : PhaseFits th.job th.stage th.phase
  idle : th.phase.admitted = false → th.reads = [] ∧ th.eval = none ∧ th.doomed = []
  checks : ∀ {plan q a}, th.phase = .checking plan q → th.job.action = some a → a.id ≠ "" →
    Rechecks a.id q rows
  members : ∀ {plan a}, th.phase = .inside (some plan) → plan.expect.isSome →
    th.job.action = some a → a.archives = true ∨ a.deletes = true → a.id ≠ "" →
    ∀ m, rootOf rows m = some a.id → m ∈ plan.keys
  doomed : ∀ {plan}, th.phase = .inside (some plan) → ∀ m ∈ th.doomed, ∃ a,
    th.job.action = some a ∧ a.deletes = true ∧ a.id ≠ "" ∧ plan.creation = true ∧
      m ∈ plan.keys ∧ ∀ r, rootOf rows m = some r → r = a.id
  covered : ∀ {plan}, th.phase = .inside (some plan) → ∀ id ∈ th.reads, Cover rows th.job plan id
  asks : ∀ {plan ev}, th.phase = .inside (some plan) → th.eval = some ev →
    EvalOk rows th.job plan ev

/-! ## The steps of the section itself -/

section own

variable {rows rows' : Rows} {th th' : Thread}

theorem ThreadOk.of_idle (hrouted : th.job.routed = true)
    (hfits : PhaseFits th.job th.stage th.phase)
    (hidle : th.reads = [] ∧ th.eval = none ∧ th.doomed = [])
    (hchecks : ∀ {plan q a}, th.phase = .checking plan q → th.job.action = some a → a.id ≠ "" →
      Rechecks a.id q rows)
    (hmembers : ∀ {plan a}, th.phase = .inside (some plan) → plan.expect.isSome →
      th.job.action = some a → a.archives = true ∨ a.deletes = true → a.id ≠ "" →
      ∀ m, rootOf rows m = some a.id → m ∈ plan.keys) : ThreadOk rows th where
  routed := hrouted
  fits := hfits
  idle := fun _ => hidle
  checks := hchecks
  members := hmembers
  doomed := fun _ m hm => by rw [hidle.2.2] at hm; exact absurd hm not_mem_nil
  covered := fun _ id hid => by rw [hidle.1] at hid; exact absurd hid not_mem_nil
  asks := fun _ h => by rw [hidle.2.1] at h; cases h

theorem threadOk_start (hrouted : job.routed = true) : ThreadOk rows (.start job) :=
  .of_idle hrouted ⟨nofun, admission_yields hrouted⟩ ⟨rfl, rfl, rfl⟩ nofun nofun

/-- A section that moves to a phase in which it neither checks its members nor is admitted after a
    check. -/
theorem ThreadOk.moveTo {phase : Phase} (h : ThreadOk rows th) (hold : th.phase.admitted = false)
    (hfits : PhaseFits th.job th.stage phase) (hnew : ∀ plan q, phase ≠ .checking plan q)
    (hnew' : ∀ plan, phase = .inside (some plan) → plan.expect = none) :
    ThreadOk rows (th.at phase) := by
  refine .of_idle h.routed hfits (h.idle hold) (fun hphase _ _ => absurd hphase (hnew _ _)) ?_
  intro plan a hphase hexpect
  rw [hnew' plan hphase] at hexpect
  cases hexpect

theorem ThreadOk.planFits {plan : Plan} (h : ThreadOk rows th)
    (hphase : th.phase = .inside (some plan)) : PlanFits th.job th.stage plan := by
  have hfits := h.fits
  rw [hphase] at hfits
  exact hfits.2

theorem EvalOk.read {plan : Plan} {fetched : Fetch}
    (h : EvalOk rows job plan ev) (hfetched : ∀ row, fetched ≠ .ok (some row)) :
    EvalOk rows job plan (ev.read fetched) := by
  refine ⟨read_only fetched h.only, fun row hrow => ?_⟩
  rcases read_half hrow with ⟨v, hguard, hhalf⟩ | ⟨id, next, -, -, -, hfound, -⟩
  · obtain ⟨-, id, next, hask, -⟩ := h.half row hhalf
    rw [hguard] at hask
    cases hask
  · exact absurd hfound (hfetched row)

theorem ThreadOk.evaluate {ev : Option Eval} {passed : Bool} (h : ThreadOk rows th)
    (hphase : th.phase.admitted = true)
    (hev : ∀ plan e, th.phase = .inside (some plan) → ev = some e → EvalOk rows th.job plan e) :
    ThreadOk rows { th with eval := ev, passed := passed } :=
  { h with
    idle := fun hnot => by cases hphase.symm.trans hnot
    asks := fun hphase heval => hev _ _ hphase heval }

theorem creation_of_expect {stage : Stage} {plan : Plan} (hfits : PlanFits job stage plan)
    (h : plan.expect.isSome) : plan.creation = true := by
  obtain ⟨ids, hids⟩ := Option.isSome_iff_exists.mp h
  exact (hfits.expects ids hids).1

theorem unadmitted_of {phase : Phase} (hphase : th.phase = phase) (hnot : phase.admitted = false) :
    th.phase.admitted = false := by
  rw [hphase]
  exact hnot

section

variable {plan : Plan} (h : ThreadOk rows th)

include h

theorem ThreadOk.locked (hphase : th.phase = .locking plan) (hfits : PhaseFits th.job th.stage
      (if plan.creation then .creating plan else .inside (some plan))) :
    ThreadOk rows (th.at (if plan.creation then .creating plan else .inside (some plan))) := by
  refine h.moveTo (unadmitted_of hphase rfl) hfits ?_ ?_
  · split <;> simp
  split
  · simp
  next hcreation =>
  intro plan' heq
  cases heq
  have hplan := h.fits
  rw [hphase] at hplan
  by_contra hexpect
  exact hcreation (creation_of_expect hplan.2 (Option.isSome_iff_ne_none.mpr hexpect))

theorem ThreadOk.created (hphase : th.phase = .creating plan) (hfits : PhaseFits th.job th.stage
      (if plan.expect.isSome then .checking plan th.recheck else .inside (some plan))) :
    ThreadOk rows
      (th.at (if plan.expect.isSome then .checking plan th.recheck else .inside (some plan))) := by
  refine .of_idle h.routed hfits (h.idle (unadmitted_of hphase rfl)) ?_ ?_
  · intro plan' q a heq haction hid
    simp only [Thread.at] at heq
    split_ifs at heq
    cases heq
    rw [recheck, show th.job.action = some a from haction]
    exact rechecks_sessionAndMembers hid rows
  · intro plan' a heq hexpect
    simp only [Thread.at] at heq
    split_ifs at heq with hnone
    cases heq
    exact absurd hexpect hnone

theorem ThreadOk.same {ids current : List String} (hrooted : Rooted rows)
    (hphase : th.phase = .checking plan (.done (some current))) (hexpect : plan.expect = some ids)
    (hsame : sameMembers ids current = true)
    (hfits : PhaseFits th.job th.stage (.inside (some plan))) :
    ThreadOk rows (th.at (.inside (some plan))) := by
  refine .of_idle h.routed hfits (h.idle (unadmitted_of hphase rfl)) (fun heq => by cases heq) ?_
  intro plan' a heq _ haction _ hid m hm
  cases heq
  have hplan := h.fits
  rw [hphase] at hplan
  have hmem := h.checks hphase haction hid current rfl m hm
  simp only [sameMembers, and_eq_true, all_eq_true, decide_eq_true_eq] at hsame
  refine (hplan.2.expects ids hexpect).2 m (hsame.2 m hmem) fun hempty => ?_
  rw [hempty, hrooted.named] at hm
  cases hm

/-- The members a deletion is about to remove are in its plan. -/
theorem ThreadOk.list {a : Action} (hrooted : Rooted rows) (hphase : th.phase = .inside (some plan))
    (hstage : th.stage = .main) (haction : th.job.action = some a) (hdeletes : a.deletes = true)
    (hroot : (rows.lookup a.id).any Row.isRoot = true) :
    ThreadOk rows { th with doomed := children rows a.id } := by
  refine { h with
    idle := fun hnot => (by cases (congrArg Phase.admitted hphase).symm.trans hnot)
    doomed := fun {plan'} hphase' m hm => ?_ }
  have hid : a.id ≠ "" := by
    intro hempty
    obtain ⟨row, hrow, -⟩ := (Option.any_eq_true _ _).mp hroot
    have hnamed := hrooted.named
    rw [← hempty, rootOf, hrow] at hnamed
    cases hnamed
  have hplan := h.planFits hphase
  have hm := mem_children.mp hm
  cases hphase.symm.trans hphase'
  have hexpect := (hplan.deletes a haction hdeletes hstage).2
  refine ⟨a, haction, hdeletes, hid, creation_of_expect hplan hexpect, ?_, fun r hr => ?_⟩
  · exact h.members hphase hexpect haction (.inr hdeletes) hid m hm
  · rw [hm] at hr
    exact (Option.some.inj hr).symm

end

theorem Moves.ok (hmove : Moves rows th th') (hrooted : Rooted rows) (h : ThreadOk rows th) :
    ThreadOk rows th' := by
  have hfits := hmove.fits h.routed h.fits
  cases hmove with
  | spin hphase | enter hphase | nobody hphase | agents hphase | key hphase | again hphase
  | gone hphase | uncreate hphase | drop hphase | seize hphase | plans hphase
  | resolves hphase => exact h.moveTo (unadmitted_of hphase rfl) hfits (by simp) (by simp)
  | precheck hphase | resume hphase =>
    exact .of_idle h.routed hfits (h.idle (unadmitted_of hphase rfl)) (by simp) (by simp)
  | @gate what hphase =>
    refine h.moveTo (unadmitted_of hphase rfl) hfits ?_ ?_
    · cases what <;> simp [afterGate]
    · cases what <;> simp [afterGate]
  | inTable hphase => exact h
  | giveUp hphase =>
    refine h.moveTo ?_ hfits (by simp) (by simp)
    rcases hphase with hphase | hphase
    · exact unadmitted_of hphase rfl
    · exact unadmitted_of hphase rfl
  | locked hphase => exact h.locked hphase hfits
  | created hphase => exact h.created hphase hfits
  | same hphase hexpect hsame => exact h.same hrooted hphase hexpect hsame hfits
  | verdict hphase heval => exact h.evaluate hphase (by simp)
  | @checks plan q next failure hphase =>
    refine .of_idle h.routed hfits (h.idle (unadmitted_of hphase rfl)) ?_ fun heq => by cases heq
    intro plan' q' a heq haction hid
    cases heq
    exact h.checks hphase haction hid rows failure hrooted
  | @evaluate tables guard guard' hphase heval hguard hguard' =>
    refine h.evaluate hphase fun plan e _ he => ?_
    cases he
    refine ⟨?_, (by simp)⟩
    rcases hguard' with rfl | ⟨err, rfl⟩
    · exact guard_only h.routed hguard
    · trivial
  | fails hphase heval | misses hphase heval =>
    refine h.evaluate hphase fun plan e hplan he => ?_
    cases he
    exact (h.asks hplan heval).read (by simp)
  | list hphase hstage haction hdeletes hroot =>
    exact h.list hrooted hphase hstage haction hdeletes hroot
  | @leave plan next newID hphase hnext =>
    refine .of_idle h.routed hfits ⟨rfl, rfl, rfl⟩ ?_ ?_
    all_goals
      rcases plan with _ | plan
      · simp [Thread.release, afterBody]
      · simp only [Thread.release, afterBody]
        split <;> simp

end own

/-! ## The condition -/

/-- The target a section is about to read, without having it locked. -/
def Thread.unlockedTarget (th : Thread) : Option (Plan × String) :=
  match th.phase, th.eval, th.job.action with
  | .inside (some plan), some ev, some a =>
    if ev.half = none ∧ ev.wants = some a.id ∧ a.id ∉ plan.keys then some (plan, a.id) else none
  | _, _, _ => none

/-- The locks of the plan keep a row from changing without being its session's: those of a member,
    or `creationMu` for a root. -/
def Plan.guards (plan : Plan) (rows : Rows) (id : String) : Bool :=
  plan.keys.any (fun m => rootOf rows m = some id) ||
    (plan.creation && rootOf rows id = some "")

/-- The steps on which no check is crossed: a root is archived under `creationMu`, the row of a
    target that is not locked is read under a lock that guards it, and a new member's id is not one
    that rows still name as their root. -/
def State.regular (s : State) : State.Event → Bool
  | .write _ (.create id row) => row.isRoot || (children s.rows id).isEmpty
  | .write t (.setArchived id _) =>
    (s.threads.lookup t).all fun th =>
      match th.phase with
      | .inside (some plan) => plan.creation || rootOf s.rows id ≠ some ""
      | _ => true
  | .read t none =>
    ((s.threads.lookup t).bind Thread.unlockedTarget).all fun (plan, id) =>
      (s.rows.lookup id).isNone || plan.guards s.rows id
  | _ => true

/-! ## A guard finds a row -/

section finds

variable {rows : Rows} {th : Thread} {plan : Plan} {ev : Eval} {id : String} {row : Row}

theorem cover_of_guards (hid : id ≠ "") (h : plan.guards rows id = true) :
    Cover rows job plan id := by
  simp only [Plan.guards, or_eq_true, List.any_eq_true, decide_eq_true_eq, and_eq_true] at h
  rcases h with ⟨m, hm, hroot⟩ | ⟨hcreation, hroot⟩
  · exact .member hm hroot hid
  · exact .root hcreation hroot

theorem root_of_guards (hrooted : Rooted rows) (hid : id ≠ "") (hrow : rows.lookup id = some row)
    (h : plan.guards rows id = true) : row.rootID = "" := by
  have hroot := rootOf_of_lookup hrow
  simp only [Plan.guards, or_eq_true, List.any_eq_true, decide_eq_true_eq, and_eq_true] at h
  rcases h with ⟨m, -, hm⟩ | ⟨-, h⟩
  · exact hrooted.roots hm hid hroot
  · rw [hroot] at h
    exact Option.some.inj h

theorem Eval.wants_half_none (hhalf : ev.half = none) (h : ev.wants = some id) :
    id ≠ "" ∧ ∃ next, ev.guard = .ask id next := by
  obtain ⟨guard, half⟩ := ev
  cases hhalf
  cases guard with
  | done v => cases h
  | ask q next =>
    simp only [wants] at h
    split_ifs at h with hid
    cases h
    exact ⟨fun hempty => hid (.inl hempty), next, rfl⟩

theorem unlockedTarget_wants (h : th.unlockedTarget = some (plan, id)) (heval : th.eval = some ev) :
    ev.wants = some id := by
  rw [unlockedTarget, heval] at h
  split at h
  next heq _ =>
    cases heq
    split_ifs at h with hcond
    cases h
    exact hcond.2.1
  · cases h

variable (h : ThreadOk rows th) (heval : th.eval = some ev) (hwants : ev.wants = some id)
  (hregular : ∀ plan' id', th.unlockedTarget = some (plan', id') → plan'.guards rows id' = true)

include h heval hwants hregular

/-- What the evaluation reads is locked, or guarded by the condition. -/
theorem ThreadOk.locked_or_guards (hphase : th.phase = .inside (some plan))
    (hhalf : ev.half = none) : id ∈ plan.keys ∨ plan.guards rows id = true := by
  obtain ⟨hid, next, hguard⟩ := wants_half_none hhalf hwants
  have honly := (h.asks hphase heval).only
  rw [hguard] at honly
  by_cases hkey : id ∈ plan.keys
  · exact .inl hkey
  obtain ⟨a, haction, rfl, -⟩ := ((h.planFits hphase).wanted id honly.1 hid).resolve_left hkey
  refine .inr (hregular plan a.id ?_)
  rw [unlockedTarget, hphase, heval, haction]
  exact if_pos ⟨hhalf, hwants, hkey⟩

theorem ThreadOk.cover_found (hphase : th.phase = .inside (some plan)) : Cover rows th.job plan id := by
  cases hhalf : ev.half with
  | none =>
    have hid := (wants_half_none hhalf hwants).1
    rcases h.locked_or_guards heval hwants hregular hphase hhalf with hkey | hguards
    · exact .locked hkey
    · exact cover_of_guards hid hguards
  | some r =>
    obtain ⟨hmember, q, next, hguard, hkey, hroot⟩ := (h.asks hphase heval).half r hhalf
    have hwants' : ev.wants = some r.rootID := by rw [wants, hguard, hhalf]
    rw [hwants'] at hwants
    cases hwants
    exact .member hkey hroot hmember

theorem ThreadOk.evalOk_found (hrooted : Rooted rows) (hphase : th.phase = .inside (some plan))
    (hrow : rows.lookup id = some row) : EvalOk rows th.job plan (ev.read (.ok (some row))) := by
  have hok := h.asks hphase heval
  refine ⟨read_only _ hok.only, fun row' hrow' => ?_⟩
  rcases read_half hrow' with ⟨v, hguard, -⟩ | ⟨q, next, hguard, hhalf, hq, hfound, hmember, hread⟩
  · rw [wants, hguard] at hwants
    cases hwants
  · cases hfound
    cases hq.symm.trans hwants
    have hid := (wants_half_none hhalf hwants).1
    refine ⟨hmember, id, next, by rw [hread], ?_, rootOf_of_lookup hrow⟩
    rcases h.locked_or_guards heval hwants hregular hphase hhalf with hkey | hguards
    · exact hkey
    · exact absurd (root_of_guards hrooted hid hrow hguards) hmember

theorem ThreadOk.finds (hrooted : Rooted rows) (hphase : th.phase.admitted = true)
    (hrow : rows.lookup id = some row) :
    ThreadOk rows { th with eval := some (ev.read (.ok (some row))), reads := th.reads ++ [id] } :=
  { h with
    idle := fun hnot => by cases hphase.symm.trans hnot
    covered := fun hplan id' hid' => by
      rcases mem_append.mp hid' with hid' | hid'
      · exact h.covered hplan id' hid'
      · rw [mem_singleton.mp hid']
        exact h.cover_found heval hwants hregular hplan
    asks := fun hplan hev => by
      cases hev
      exact h.evalOk_found heval hwants hregular hrooted hplan hrow }

end finds

/-! ## The writes of the others -/

/-- The plan whose locks a section has. -/
def Phase.plan : Phase → Option Plan
  | .inside plan => plan
  | .checking plan _ => some plan
  | _ => none

/-- The writes that other sections make while a section has the locks of a plan. -/
inductive Foreign (rows : Rows) (plan : Plan) : RowWrite → Prop
  | setRepo {id repo : String} : Foreign rows plan (.setRepo id repo)
  | create {id : String} {row : Row} (hcreation : plan.creation = false) :
      Foreign rows plan (.create id row)
  /-- An archive under `creationMu`, or a delete. -/
  | change {w : RowWrite} (hw : (∃ archived, w = .setArchived w.id archived) ∨ w = .delete w.id)
      (hkey : w.id ∉ plan.keys) (hcreation : plan.creation = false)
      (hmembers : ∀ m ∈ plan.keys, rootOf rows m ≠ some w.id) : Foreign rows plan w
  /-- An agent that completes itself. -/
  | complete {id : String} {archived : Bool} (hkey : id ∉ plan.keys)
      (hmember : rootOf rows id ≠ some "") : Foreign rows plan (.setArchived id archived)

section foreign

variable {rows rows' : Rows} {plan : Plan} {w : RowWrite} {id m r : String} {job : Job}

theorem kept_of_frame (h : w.apply rows = some rows') (hid : id ≠ w.id) : Kept rows rows' id :=
  fun row hrow => ⟨row, by rw [apply_frame h hid]; exact hrow, rfl, rfl⟩

variable (hw : Foreign rows plan w) (h : w.apply rows = some rows')

include hw h

theorem Foreign.kept (hrooted : Rooted rows) (hcover : Cover rows job plan id) :
    Kept rows rows' id := by
  by_cases hid : id = w.id
  · subst hid
    intro row hrow
    have hroot := rootOf_of_lookup hrow
    cases hw with
    | setRepo =>
      have hat := apply_at h
      rw [hrow] at hat
      generalize rows'.lookup (RowWrite.setRepo _ _).id = new at hat ⊢
      cases hat
      exact ⟨_, rfl, rfl, rfl⟩
    | create hcreation =>
      have hat := apply_at h
      rw [hrow] at hat
      cases hat
    | change hw hkey hcreation hmembers =>
      cases hcover with
      | locked hkey' => exact absurd hkey' hkey
      | member hm hm' _ => exact absurd hm' (hmembers _ hm)
      | root hcreation' | deleted hcreation' => rw [hcreation] at hcreation'; cases hcreation'
    | complete hkey hmember =>
      cases hcover with
      | locked hkey' => exact absurd hkey' hkey
      | member hm hm' hne =>
        rw [hrooted.roots hm' hne hroot] at hroot
        exact absurd hroot hmember
      | root _ hroot' => exact absurd hroot' hmember
      | deleted _ hnone _ => rw [hroot] at hnone; cases hnone
  · exact kept_of_frame h hid

omit h in
theorem Foreign.not_move (m root : String) : w ≠ .setRootID m root := by
  rintro rfl
  cases hw with
  | change hw _ _ _ => obtain ⟨_, hw⟩ | hw := hw <;> cases hw

theorem Foreign.rootOf_key (hm : m ∈ plan.keys) (hr : rootOf rows m = some r) :
    rootOf rows' m = some r := by
  refine rootOf_kept h hr ?_ (hw.not_move m)
  rintro rfl
  cases hw with
  | change _ hkey _ _ => exact hkey hm

theorem Foreign.rootOf_old (hcreation : plan.creation = true) (hr : rootOf rows' m = some r) :
    rootOf rows m = some r := by
  rcases rootOf_apply h hr with hold | ⟨row, rfl, -⟩ | ⟨root, rfl⟩
  · exact hold
  · cases hw with
    | create hcreation' => rw [hcreation] at hcreation'; cases hcreation'
    | change hw _ _ _ => obtain ⟨_, hw⟩ | hw := hw <;> cases hw
  · exact absurd rfl (hw.not_move m root)

theorem Foreign.cover (hcover : Cover rows job plan id) : Cover rows' job plan id := by
  cases hcover with
  | locked hkey => exact .locked hkey
  | member hm hroot hne => exact .member hm (hw.rootOf_key h hm hroot) hne
  | root hcreation hroot =>
    refine .root hcreation (rootOf_kept h hroot ?_ (hw.not_move id))
    rintro rfl
    cases hw with
    | change _ _ hcreation' _ => rw [hcreation] at hcreation'; cases hcreation'
  | deleted hcreation hnone hdeletes =>
    refine .deleted hcreation ?_ hdeletes
    cases hnew : rootOf rows' id with
    | none => rfl
    | some r =>
      rw [hw.rootOf_old h hcreation hnew] at hnone
      cases hnone

omit hw in
/-- What holds of a section holds after a write of another one. -/
theorem ThreadOk.foreign {th : Thread} (hok : ThreadOk rows th)
    (hw : ∀ plan, th.phase.plan = some plan → Foreign rows plan w)
    (hcreation : ∀ plan q, th.phase = .checking plan q → plan.creation = true) :
    ThreadOk rows' th := { hok with
  checks := by
    intro plan q a hphase haction hid
    have hw := hw plan (by rw [hphase]; rfl)
    have hold := hok.checks hphase haction hid
    cases q with
    | ask q next => exact hold
    | done found =>
      intro ids hids m hm
      exact hold ids hids m (hw.rootOf_old h (hcreation plan _ hphase) hm)
  members := by
    intro plan a hphase hexpect haction hkind hid m hm
    have hw := hw plan (by rw [hphase]; rfl)
    have hcreation := creation_of_expect (hok.planFits hphase) hexpect
    exact hok.members hphase hexpect haction hkind hid m (hw.rootOf_old h hcreation hm)
  doomed := by
    intro plan hphase m hm
    obtain ⟨a, haction, hdeletes, hid, hcreation, hkey, hroot⟩ := hok.doomed hphase m hm
    have hw := hw plan (by rw [hphase]; rfl)
    refine ⟨a, haction, hdeletes, hid, hcreation, hkey, fun r hr => hroot r ?_⟩
    exact hw.rootOf_old h hcreation hr
  covered := fun hphase id hid =>
    (hw _ (by rw [hphase]; rfl)).cover h (hok.covered hphase id hid)
  asks := by
    intro plan ev hphase heval
    have hw := hw plan (by rw [hphase]; rfl)
    have hold := hok.asks hphase heval
    refine ⟨hold.only, fun row hrow => ?_⟩
    obtain ⟨hmember, id, next, hguard, hkey, hroot⟩ := hold.half row hrow
    exact ⟨hmember, id, next, hguard, hkey, hw.rootOf_key h hkey hroot⟩ }

end foreign

/-! ## The writes of the section itself -/

section writer

variable {rows rows' : Rows} {th : Thread} {w : RowWrite} {plan : Plan} {a : Action}

/-- Where a section writes: alone, or under the locks of its plan what its action is about. -/
theorem Thread.allows_cases (h : th.allows w = true) : th.eval = none ∧
    (th.phase = .alone ∨ ∃ plan a, th.phase = .inside (some plan) ∧ th.stage = .main ∧
      th.job.action = some a ∧ a.allows th.doomed w = true) := by
  simp only [allows, and_eq_true, Option.isNone_iff_eq_none] at h
  obtain ⟨⟨heval, -⟩, h⟩ := h
  refine ⟨heval, ?_⟩
  split at h
  next hphase => exact .inl hphase
  next plan hphase hstage =>
    obtain ⟨a, haction, ha⟩ := (Option.any_eq_true _ _).mp h
    exact .inr ⟨plan, a, hphase, hstage, haction, ha⟩
  next => cases h

theorem rootOf_old_of_kind {doomed : List String} {m r : String}
    (hkind : a.archives = true ∨ a.deletes = true) (hallows : a.allows doomed w = true)
    (h : w.apply rows = some rows') (hr : rootOf rows' m = some r) : rootOf rows m = some r := by
  rcases rootOf_apply h hr with hold | ⟨row, rfl, -⟩ | ⟨root, rfl⟩
  · exact hold
  · simp only [Action.allows, and_eq_true] at hallows
    rcases hkind with hkind | hkind
    · rw [not_creates_of_archives hkind] at hallows
      cases hallows.1
    · rw [not_creates_of_deletes hkind] at hallows
      cases hallows.1
  · cases hallows

/-- A row the section has read stays protected under its own writes: a root it deletes itself it has
    deleted under `creationMu`. -/
theorem ThreadOk.cover_own (hok : ThreadOk rows th) (hrooted : Rooted rows)
    (hphase : th.phase = .inside (some plan)) (hstage : th.stage = .main)
    (haction : th.job.action = some a) (hallows : a.allows th.doomed w = true)
    (h : w.apply rows = some rows') (hcover : Cover rows th.job plan id) :
    Cover rows' th.job plan id := by
  have hfits := hok.planFits hphase
  have hmove : ∀ m root, w ≠ .setRootID m root := by
    rintro m root rfl
    cases hallows
  have hdelete : ∀ m, w = .delete m → a.deletes = true ∧ plan.creation = true := by
    rintro m rfl
    simp only [Action.allows, and_eq_true] at hallows
    exact ⟨hallows.1, creation_of_expect hfits (hfits.deletes a haction hallows.1 hstage).2⟩
  have hgone : ∀ {i}, w = .delete i → rootOf rows' i = none := by
    rintro i rfl
    have hat := apply_at h
    rw [rootOf]
    generalize rows.lookup (RowWrite.delete i).id = old at hat
    generalize hnew : rows'.lookup (RowWrite.delete i).id = new at hat
    cases hat
    have hnew : rows'.lookup i = none := hnew
    rw [hnew, Option.map_none]
  have hdeletes : a.deletes = true → th.job.action.any Action.deletes = true := fun hd => by
    rw [haction]
    exact hd
  cases hcover with
  | locked hkey => exact .locked hkey
  | @member m hm hroot hne =>
    by_cases hw : w = .delete m
    · obtain ⟨hd, hcreation⟩ := hdelete m hw
      have hmid : id ≠ m := by
        rintro rfl
        exact hne (hrooted.roots hroot hne hroot)
      have hframe : rootOf rows' id = rootOf rows id := by
        subst hw
        exact rootOf_frame h hmid
      cases hid : rootOf rows id with
      | none => exact .deleted hcreation (by rw [hframe, hid]) (hdeletes hd)
      | some p =>
        rw [hrooted.roots hroot hne hid] at hid
        exact .root hcreation (by rw [hframe, hid])
    · exact .member hm (rootOf_kept h hroot hw (hmove m)) hne
  | root hcreation hroot =>
    by_cases hw : w = .delete id
    · exact .deleted hcreation (hgone hw) (hdeletes (hdelete id hw).1)
    · exact .root hcreation (rootOf_kept h hroot hw (hmove id))
  | deleted hcreation hnone hdeletes' =>
    refine .deleted hcreation ?_ hdeletes'
    rw [haction] at hdeletes'
    cases hnew : rootOf rows' id with
    | none => rfl
    | some r =>
      rw [rootOf_old_of_kind (.inr hdeletes') hallows h hnew] at hnone
      cases hnone

theorem ThreadOk.writes {created : List String} (hok : ThreadOk rows th) (hrooted : Rooted rows)
    (hallows : th.allows w = true) (h : w.apply rows = some rows') :
    ThreadOk rows' { th with created := created } := by
  obtain ⟨heval, halone | ⟨plan, a, hphase, hstage, haction, hallows⟩⟩ := allows_cases hallows
  · have hnot : ∀ {phase}, phase ≠ .alone → th.phase ≠ phase := by
      rintro phase hne hphase
      exact hne (hphase.symm.trans halone)
    refine ⟨hok.routed, hok.fits, hok.idle, fun h => absurd h (hnot nofun),
      fun h => absurd h (hnot nofun), fun h => absurd h (hnot nofun),
      fun h => absurd h (hnot nofun), fun h => absurd h (hnot nofun)⟩
  · refine ⟨hok.routed, hok.fits, hok.idle, fun hc => ?_, ?_, ?_, ?_, fun _ hev => ?_⟩
    · rw [hphase] at hc
      cases hc
    · intro plan' a' hplan' hexpect haction' hkind hid m hm
      cases haction.symm.trans haction'
      exact hok.members hplan' hexpect haction hkind hid m (rootOf_old_of_kind hkind hallows h hm)
    · intro plan' hplan' m hm
      obtain ⟨a', haction', hdeletes, hid, hcreation, hkey, hroot⟩ := hok.doomed hplan' m hm
      cases haction.symm.trans haction'
      exact ⟨a, haction, hdeletes, hid, hcreation, hkey, fun r hr =>
        hroot r (rootOf_old_of_kind (.inr hdeletes) hallows h hr)⟩
    · intro plan' hplan' id hid
      cases hphase.symm.trans hplan'
      exact hok.cover_own hrooted hphase hstage haction hallows h (hok.covered hphase id hid)
    · rw [heval] at hev
      cases hev

end writer

/-! ## The locks two sections share -/

namespace State

variable {s s' : State} {t u : Caller} {th tu : Thread} {plan : Plan} {w : RowWrite}

/-- The locks of a plan, held. -/
structure Holding (s : State) (t : Caller) (plan : Plan) : Prop where
  gate : t ∈ s.readers
  keys : ∀ key ∈ plan.keys, s.locks.Holds t key
  creation : plan.creation = true → s.creationMu = some t

theorem Holding.key_apart {planU : Plan} (h : LockInv s) (ht : Holding s t plan)
    (hu : Holding s u planU) (hne : u ≠ t) {key : String} (hkey : key ∈ planU.keys) :
    key ∉ plan.keys :=
  fun hkey' => hne (h.table.exclusive (hu.keys key hkey) (ht.keys key hkey'))

theorem Holding.creation_apart {planU : Plan} (ht : Holding s t plan) (hu : Holding s u planU)
    (hne : u ≠ t) (hcreation : planU.creation = true) : plan.creation = false := by
  by_contra hnot
  have heq := (hu.creation hcreation).symm.trans (ht.creation (by simpa using hnot))
  exact hne (Option.some.inj heq)

theorem LockInv.holding_admits (h : LockInv s) (hth : s.threads.lookup t = some th)
    (hgated : th.phase.gated = true) (hcreates : th.phase.creates = plan.creation)
    {call : LockCall} (hcall : s.locks.calls.lookup t = some call) (hadmits : plan.Admits call) :
    Holding s t plan := by
  refine ⟨(owner_iff h.gate hth).mpr hgated, fun key hkey => ⟨call, hcall, ?_⟩, fun hcreation => ?_⟩
  · rw [LockCall.owned, hadmits.2.1, take_length]
    show key ∈ call.names
    rw [hadmits.2.2]
    exact KeyedLocks.mem_lockNames.mpr hkey
  · rw [owner_iff h.creation hth, hcreates, hcreation]

theorem LockInv.holding (h : LockInv s) (hth : s.threads.lookup t = some th)
    (hplan : th.phase.plan = some plan) : Holding s t plan := by
  have hcall := h.call_fits hth
  have hadmits : _ → _ → ∀ {call : LockCall}, _ → plan.Admits call → Holding s t plan :=
    h.holding_admits hth
  cases hphase : th.phase with
  | inside plan' =>
    rw [hphase] at hplan
    cases hplan
    rw [hphase] at hcall hadmits
    obtain ⟨call, hlookup, hcall⟩ := hcall
    exact hadmits rfl rfl hlookup hcall
  | checking plan' q =>
    rw [hphase] at hplan
    cases hplan
    rw [hphase] at hcall hadmits
    obtain ⟨call, hlookup, hcreation, hcall⟩ := hcall
    exact hadmits rfl hcreation.symm hlookup hcall
  | planning | entering | resolving | keying | locking | creating | uncreating | unlocking
  | leaving | spinning | alone => rw [hphase] at hplan; cases hplan

theorem LockInv.not_alone (h : LockInv s) (ht : t ∈ s.readers)
    (hu : s.threads.lookup u = some tu) : tu.phase ≠ .alone := by
  intro halone
  have hwriter : s.writer = some u := (owner_iff h.writer hu).mpr (by rw [halone]; rfl)
  rw [h.apart u hwriter] at ht
  exact absurd ht not_mem_nil

theorem LockInv.alone_excludes (h : LockInv s) (hne : u ≠ t) (hth : s.threads.lookup t = some th)
    (halone : th.phase = .alone) (hu : s.threads.lookup u = some tu)
    (hallows : tu.allows w = true) : False := by
  have hwriter : s.writer = some t := (owner_iff h.writer hth).mpr (by rw [halone]; rfl)
  obtain ⟨-, halone' | ⟨plan, a, hphase, -⟩⟩ := allows_cases hallows
  · have hwriter' : s.writer = some u := (owner_iff h.writer hu).mpr (by rw [halone']; rfl)
    exact hne (Option.mem_unique hwriter' hwriter)
  · have hreader : u ∈ s.readers := (owner_iff h.gate hu).mpr (by rw [hphase]; rfl)
    exact h.not_alone hreader hth halone

/-- **Two sections share a lock.** While a section holds the locks of its plan, another one writes
    no row those locks protect. -/
theorem LockInv.foreign (h : LockInv s) (hrooted : Rooted s.rows) (hne : u ≠ t)
    (ht : Holding s t plan) (hu : s.threads.lookup u = some tu) (hok : ThreadOk s.rows tu)
    (hallows : tu.allows w = true) {rows' : Rows} (happly : w.apply s.rows = some rows')
    (hregular : s.regular (.write u w) = true) : Foreign s.rows plan w := by
  obtain ⟨-, halone | ⟨planU, a, hphase, hstage, haction, hallows⟩⟩ := allows_cases hallows
  · exact absurd halone (h.not_alone ht.gate hu)
  have hheld : Holding s u planU := h.holding hu (by rw [hphase]; rfl)
  have hfits := hok.planFits hphase
  have hexists : (∀ row, w ≠ .create w.id row) → w.id ≠ "" := by
    intro hcreate hempty
    have hat := apply_at happly
    have hnamed : s.rows.lookup w.id = none := by
      have := hrooted.named
      rwa [← hempty, rootOf, Option.map_eq_none_iff] at this
    rw [hnamed] at hat
    generalize rows'.lookup w.id = new at hat
    cases hat
    exact hcreate _ rfl
  cases w with
  | setRootID id root => cases hallows
  | setRepo id repo => exact .setRepo
  | create id row =>
    simp only [Action.allows, and_eq_true] at hallows
    exact .create (ht.creation_apart hheld hne (hfits.creates a haction hallows.1 hstage))
  | setArchived id archived =>
    simp only [Action.allows, and_eq_true, decide_eq_true_eq] at hallows
    obtain ⟨⟨harchives, rfl⟩, -⟩ := hallows
    have hid : a.id ≠ "" := hexists (by simp)
    obtain ⟨hkey, hexpect⟩ := hfits.archives a haction harchives hstage
    have hapart := ht.key_apart h hheld hne (hkey hid)
    cases hcreation : planU.creation with
    | true =>
      refine .change (.inl ⟨archived, rfl⟩) hapart (ht.creation_apart hheld hne hcreation) ?_
      intro m hm hroot
      exact ht.key_apart h hheld hne
        (hok.members hphase (hexpect hcreation) haction (.inl harchives) hid m hroot) hm
    | false =>
      refine .complete hapart ?_
      simpa [regular, hu, hphase, hcreation] using hregular
  | delete id =>
    simp only [Action.allows, and_eq_true, or_eq_true, decide_eq_true_eq] at hallows
    obtain ⟨hdeletes, hid⟩ := hallows
    have hne' : id ≠ "" := hexists (by simp)
    obtain ⟨hkey, hexpect⟩ := hfits.deletes a haction hdeletes hstage
    have hcreation := ht.creation_apart hheld hne (creation_of_expect hfits hexpect)
    rcases hid with rfl | hdoomed
    · refine .change (.inr rfl) (ht.key_apart h hheld hne (hkey hne')) hcreation ?_
      intro m hm hroot
      exact ht.key_apart h hheld hne
        (hok.members hphase hexpect haction (.inr hdeletes) hne' m hroot) hm
    obtain ⟨a', haction', -, hid', -, hkey', hroot'⟩ := hok.doomed hphase id hdoomed
    refine .change (.inr rfl) (ht.key_apart h hheld hne hkey') hcreation ?_
    -- a listed member is no root, so nobody is its member
    intro m hm hroot
    have hat := apply_at happly
    cases hrow : s.rows.lookup id with
    | none =>
      have hrow : s.rows.lookup (RowWrite.delete id).id = none := hrow
      rw [hrow] at hat
      cases hat
    | some row =>
      have hrootID := rootOf_of_lookup hrow
      have hempty := hrooted.roots hroot hne' hrootID
      exact hid' ((hroot' _ hrootID).symm.trans hempty)

/-! ## Whole runs -/

/-- What holds in every state of a run whose steps are regular. -/
structure PolicyInv (s : State) : Prop where
  locks : LockInv s
  rooted : Rooted s.rows
  threads : ∀ {t th}, s.threads.lookup t = some th → ThreadOk s.rows th

theorem policyInv_initial : PolicyInv initial where
  locks := lockInv_initial
  rooted := ⟨rfl, nofun⟩
  threads := nofun

theorem fresh_of_regular (h : s.regular (.write t w) = true) (i : String) (row : Row)
    (hw : w = .create i row) (hmember : row.rootID ≠ "") (m : String) : rootOf s.rows m ≠ some i := by
  subst hw
  simp only [regular, or_eq_true, List.isEmpty_iff] at h
  intro hroot
  rcases h with h | h
  · exact hmember (isRoot_iff.mp h)
  have := mem_children.mpr hroot
  rw [h] at this
  exact absurd this not_mem_nil

theorem PolicyInv.step {e : Event} (h : PolicyInv s) (hregular : s.regular e = true)
    (hstep : s.step e = some s') : PolicyInv s' := by
  have hlocks := h.locks.step hstep
  have hinsert : ∀ {t : Caller} {th' : Thread}, s'.rows = s.rows →
      s'.threads = s.threads.insert t th' → ThreadOk s.rows th' → PolicyInv s' := by
    intro t th' hrows hthreads hok
    refine ⟨hlocks, by rw [hrows]; exact h.rooted, fun {d td} hd => ?_⟩
    rw [hthreads] at hd
    rw [hrows]
    rcases GoMap.lookup_insert_eq_some.mp hd with ⟨-, rfl⟩ | ⟨-, hd⟩
    · exact hok
    · exact h.threads hd
  cases step_steps hstep with
  | moves hth hmove hrows hthreads =>
    exact hinsert hrows hthreads (hmove.ok h.rooted (h.threads hth))
  | @finds t th ev id row hth hphase heval hwants hrow hrows hthreads =>
    refine hinsert hrows hthreads
      ((h.threads hth).finds heval hwants (fun plan' id' htarget => ?_) h.rooted hphase hrow)
    cases (unlockedTarget_wants htarget heval).symm.trans hwants
    simpa [regular, hth, htarget, hrow] using hregular
  | ends hrows hthreads =>
    refine ⟨hlocks, by rw [hrows]; exact h.rooted, fun {d td} hd => ?_⟩
    rw [hthreads, GoMap.lookup_erase_eq_some] at hd
    rw [hrows]
    exact h.threads hd.2
  | spawns hnone hjob hrows hthreads => exact hinsert hrows hthreads (threadOk_start hjob)
  | @writes t w th created hth hallows hrows hthreads =>
    have hok := h.threads hth
    refine ⟨hlocks, h.rooted.apply hrows (fresh_of_regular hregular), fun {d td} hd => ?_⟩
    rw [hthreads] at hd
    rcases GoMap.lookup_insert_eq_some.mp hd with ⟨-, rfl⟩ | ⟨hne, hd⟩
    · exact hok.writes h.rooted hallows hrows
    refine .foreign hrows (h.threads hd) (fun plan hplan => ?_) fun plan q hphase => ?_
    · exact h.locks.foreign h.rooted (.symm hne) (h.locks.holding hd hplan) hth hok hallows
        hrows hregular
    · obtain ⟨call, -, hcreation, -⟩ := h.locks.call_at hd hphase
      exact hcreation

/-- The step changes a row under a section that has read it: the section is still admitted with what
    it read, past the check that only sorts out denied callers. -/
def Crosses (s : State) (e : Event) (s' : State) : Prop :=
  ∃ t th id, s.threads.lookup t = some th ∧ e.thread ≠ t ∧ th.stage ≠ .precheck ∧
    id ∈ th.reads ∧ ¬ Kept s.rows s'.rows id

/-- **No policy change crosses a check**, in the runs whose steps are regular. -/
theorem not_crosses_of_regular {events : List Event} {e : Event}
    (hregular : Along step (fun s e => s.regular e = true) initial events)
    (hrun : exec step initial events = some s) (he : s.regular e = true)
    (hstep : s.step e = some s') : ¬ s.Crosses e s' := by
  have h : PolicyInv s := exec_invariant_along (fun s e => s.regular e = true) PolicyInv
    (fun s e s' h hregular hstep => h.step hregular hstep) policyInv_initial hregular hrun
  rintro ⟨t, th, id, hth, hne, hstage, hread, hnot⟩
  have hsame : s'.rows = s.rows → Kept s.rows s'.rows id := fun hrows row hrow =>
    ⟨row, by rw [hrows]; exact hrow, rfl, rfl⟩
  apply hnot
  cases step_steps hstep with
  | moves _ _ hrows | finds _ _ _ _ _ hrows | ends hrows | spawns _ _ hrows => exact hsame hrows
  | @writes u w tu created hu hallows hrows hthreads =>
    have hok := h.threads hth
    have hadmitted : th.phase.admitted = true := by
      by_contra hnot
      rw [(hok.idle (by simpa using hnot)).1] at hread
      exact not_mem_nil hread
    -- alone the reader excludes the writer, otherwise it has the locks of its plan
    rcases admitted_cases hadmitted with ⟨plan | plan, hphase⟩ | halone
    · have hfits := hok.fits
      rw [hphase] at hfits
      exact absurd hfits hstage
    · have hplan : Holding s t plan := h.locks.holding hth (by rw [hphase]; rfl)
      exact (h.locks.foreign h.rooted hne hplan hu (h.threads hu) hallows hrows he).kept
        hrows h.rooted (hok.covered hphase id hread)
    · exact (h.locks.alone_excludes hne hth halone hu hallows).elim

/-! ### Runs of a workgroup `R` with the one member `M` -/

/-- The host creates a session, from the start of the section to its end. -/
def hostCreates (t : Caller) (verb id : String) (row : Row) : List Event :=
  [.spawn t (.handle ⟨verb, "", ∅⟩)] ++ List.replicate 5 (.go t) ++
    [.write t (.create id row), .leave t none] ++ List.replicate 4 (.go t)

def workgroupCreated : List Event :=
  hostCreates 0 actionNewWorkgroup "R" ⟨"", false, "", "", ""⟩ ++
    hostCreates 0 actionAddAgent "M" ⟨"R", false, "", "", ""⟩

def noTables : Tables := ⟨fun _ _ => .ok false, fun _ _ => .ok false⟩

def archiveRoot : Action := ⟨actionSetArchived, "R", AList.insert "archived" "true" ∅⟩

/-- The member's report is admitted and has read both rows. -/
def memberReports : List Event :=
  workgroupCreated ++ [.spawn 1 (.report ⟨"", "M", .session, 1⟩)] ++ List.replicate 5 (.go 1) ++
    [.evaluate 1 true noTables, .read 1 none, .read 1 none, .go 1]

/-- Beside the report, the host is about to create another workgroup. -/
def besideCreation : List Event :=
  memberReports ++ [.spawn 2 (.handle ⟨actionNewWorkgroup, "", ∅⟩)] ++ List.replicate 5 (.go 2)

theorem not_crosses_besideCreation : ∃ s s',
    exec step initial besideCreation = some s ∧
      s.step (.write 2 (.create "Q" ⟨"", false, "", "", ""⟩)) = some s' ∧
      (s.threads.lookup 1).any (fun th => th.reads = ["M", "R"]) = true ∧
      ¬ s.Crosses (.write 2 (.create "Q" ⟨"", false, "", "", ""⟩)) s' := by
  simp only [exists_and_left]
  refine reaches_imp (P := fun s =>
    s.regular (.write 2 (.create "Q" ⟨"", false, "", "", ""⟩)) = true ∧
      (s.threads.lookup 1).any (fun th => th.reads = ["M", "R"]) = true ∧
      (s.step (.write 2 (.create "Q" ⟨"", false, "", "", ""⟩))).isSome) (by decide +kernel) ?_
  rintro s hs ⟨hregular, hreads, hstep⟩
  obtain ⟨s', hs'⟩ := Option.isSome_iff_exists.mp hstep
  exact ⟨s', hs', hreads, not_crosses_of_regular (Along.of_check (q := regular)
    (fun _ _ h => h) (by decide +kernel)) hs hregular hs'⟩

/-- A test for a crossing: the section `t` has read the row, and the step archives it. -/
def archivesUnder (events : List Event) (e : Event) (t : Caller) (id : String) : Bool :=
  (exec step initial events).any fun s =>
    (s.threads.lookup t).any (fun th => th.stage = .main && id ∈ th.reads) &&
      (s.rows.lookup id).any (fun row => !row.archived) &&
      (s.step e).any fun s' => (s'.rows.lookup id).any Row.archived

theorem crosses_of_archivesUnder {events : List Event} {e : Event}
    (hne : e.thread ≠ t) (h : archivesUnder events e t id = true) : ∃ s s',
    exec step initial events = some s ∧ s.step e = some s' ∧ s.Crosses e s' := by
  obtain ⟨s, hs, h⟩ := (Option.any_eq_true _ _).mp h
  simp only [and_eq_true] at h
  obtain ⟨⟨hread, hbefore⟩, hafter⟩ := h
  obtain ⟨s', hs', hafter⟩ := (Option.any_eq_true _ _).mp hafter
  obtain ⟨th, hth, hread⟩ := (Option.any_eq_true _ _).mp hread
  obtain ⟨row, hrow, hactive⟩ := (Option.any_eq_true _ _).mp hbefore
  obtain ⟨row', hrow', harchived⟩ := (Option.any_eq_true _ _).mp hafter
  simp only [and_eq_true, decide_eq_true_eq] at hread
  refine ⟨s, s', hs, hs', t, th, id, hth, hne, by rw [hread.1]; nofun, hread.2, fun hkept => ?_⟩
  obtain ⟨row'', hrow'', heq, -⟩ := hkept row hrow
  cases hrow'.symm.trans hrow''
  rw [heq] at harchived
  rw [harchived] at hactive
  cases hactive

def startResolves : List Event :=
  [.spawn 1 (.dispatch ⟨"", consoleID, .session, 1⟩ ⟨actionStart, "R", ∅⟩), .read 1 none,
    .read 1 none, .go 1, .go 1, .evaluate 1 true noTables, .read 1 none, .read 1 none, .go 1,
    .leave 1 none, .go 1, .read 1 none, .read 1 none, .go 1, .go 1, .read 1 none, .read 1 none,
    .go 1]

def memberDeleted : List Event :=
  [.spawn 2 (.handle ⟨actionDelete, "M", ∅⟩), .read 2 none, .go 2, .go 2, .go 2, .go 2, .go 2,
    .go 2, .read 2 none, .go 2, .write 2 (.delete "M"), .leave 2 none, .go 2, .go 2, .go 2, .go 2,
    .go 2]

def startAdmitted : List Event :=
  [.go 1, .go 1, .go 1, .go 1, .evaluate 1 true noTables, .read 1 none, .read 1 none, .go 1]

def archiveAdmitted : List Event :=
  [.spawn 2 (.handle archiveRoot), .read 2 none, .read 2 none, .go 2, .go 2, .go 2, .go 2, .go 2,
    .go 2, .read 2 none, .read 2 none, .go 2]

/-- The console starts the workgroup; its only member is deleted after the start resolved the
    members, so that no lock of the start is the root's or a member's; the guard reads the root. -/
def consoleStarts : List Event :=
  workgroupCreated ++ startResolves ++ memberDeleted ++ startAdmitted ++ archiveAdmitted

/-- The coordinator completes itself beside the report of its member, and the first read of the store
    fails. -/
def coordinatorCompletes : List Event :=
  memberReports ++
    [.spawn 2 (.dispatch ⟨"", "R", .session, 1⟩ archiveRoot), .read 2 (some "database is locked")] ++
    List.replicate 5 (.go 2) ++ [.evaluate 2 true noTables, .read 2 none, .go 2]

/-- Two runs in which the archive of the root crosses a check. -/
theorem archive_crosses_check :
    (∃ s s', exec step initial consoleStarts = some s ∧
      s.step (.write 2 (.setArchived "R" true)) = some s' ∧
      s.Crosses (.write 2 (.setArchived "R" true)) s') ∧
    ∃ s s', exec step initial coordinatorCompletes = some s ∧
      s.step (.write 2 (.setArchived "R" true)) = some s' ∧
      s.Crosses (.write 2 (.setArchived "R" true)) s' := by
  constructor
  · exact crosses_of_archivesUnder (t := 1) (by decide)
      (show archivesUnder consoleStarts _ 1 "R" = true by decide +kernel)
  · exact crosses_of_archivesUnder (t := 1) (by decide)
      (show archivesUnder coordinatorCompletes _ 1 "R" = true by decide +kernel)

end State

end AgentMultiplexer.Daemon
