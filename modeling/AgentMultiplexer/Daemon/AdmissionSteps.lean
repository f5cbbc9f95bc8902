import AgentMultiplexer.Daemon.AdmissionLocks

set_option autoImplicit false

/-! # What a section can do next

One inductive says how a section moves: from phase to phase, by a read of the store, by the parts of
an evaluation of its guard, to its release. A step of the machine is such a move of one section, its
beginning or its end, or a write of one row; everything about whole runs is derived from this list. -/

namespace AgentMultiplexer.Daemon

/-! ## What an admission covers

Before it holds anything a section decides what to lock, from reads of a store that moves on. What it
decides on is nevertheless fixed by what the section is: the locks include the session its guard acts
for and, with two exceptions, the session it acts on; a section that writes archived flags or deletes
rows has its target locked, and resolves the members of a workgroup again under `creationMu`; and
rows are created under `creationMu` only. The exceptions are the start of a workgroup, which locks the
members and not the root, and the creation of an agent, which has `creationMu` and not the root. -/

section

open Access List

/-- The session whose row the guard looks at as the target. -/
def Job.target : Job → Option String
  | .events _ req => some req.id
  | .dispatch _ a | .deferred (some _) a => if a.verb ∈ workgroupVerbs then some a.id else none
  | _ => none

/-- The guard of the section may look the session up. -/
def Job.Wants (job : Job) (id : String) : Prop :=
  (job.principal.isSome ∧ id = job.subject) ∨ job.target = some id

/-- The target of an action whose target need not be locked. -/
def Job.Unlocked (job : Job) (id : String) : Prop :=
  ∃ a, job.action = some a ∧ a.id = id ∧ (a.verb = actionStart ∨ a.verb = actionAddAgent)

/-- What a plan is good for. -/
structure PlanFits (job : Job) (stage : Stage) (plan : Plan) : Prop where
  wanted : ∀ id, job.Wants id → id ≠ "" → id ∈ plan.keys ∨ job.Unlocked id
  expects : ∀ ids, plan.expect = some ids → plan.creation = true ∧
    ∀ id ∈ ids, id ≠ "" → id ∈ plan.keys
  deletes : ∀ a, job.action = some a → a.deletes = true → stage = .main →
    (a.id ≠ "" → a.id ∈ plan.keys) ∧ plan.expect.isSome
  archives : ∀ a, job.action = some a → a.archives = true → stage = .main →
    (a.id ≠ "" → a.id ∈ plan.keys) ∧ (plan.creation = true → plan.expect.isSome)
  creates : ∀ a, job.action = some a → creationAction a || a.verb = actionAddRepo →
    stage = .main → plan.creation = true

/-- What an admission is good for. -/
def AdmissionFits (job : Job) (stage : Stage) : Admission → Prop
  | .exclusive | .shared .precheck => True
  | .shared (.workgroup _ subject) =>
    subject = job.subject ∧ ∃ a, job.action = some a ∧ a.verb = actionStart
  | .shared (.sessions plan) => PlanFits job stage plan

/-! ## The verbs do not overlap -/

section verbs

variable {a : Action}

theorem archives_verb (h : a.archives = true) : a.verb = actionSetArchived := by
  simp only [Action.archives, Bool.and_eq_true, decide_eq_true_eq] at h
  exact h.1

theorem deletes_verb (h : a.deletes = true) : a.verb = actionDelete ∨ a.verb = actionKill := by
  simpa [Action.deletes] using h

theorem creates_verb (h : (creationAction a || a.verb = actionAddRepo) = true) :
    a.verb = actionAddAgent ∨ a.verb = actionNewWorkgroup ∨ a.verb = actionCreateWorkspace ∨
      a.verb = actionAddRepo := by
  simp only [creationAction, Bool.or_eq_true, decide_eq_true_eq] at h
  tauto

theorem not_creates_of_archives (h : a.archives = true) :
    (creationAction a || a.verb = actionAddRepo) = false := by
  rw [creationAction, archives_verb h]
  decide

theorem not_creates_of_deletes (h : a.deletes = true) :
    (creationAction a || a.verb = actionAddRepo) = false := by
  rcases deletes_verb h with hv | hv <;> rw [creationAction, hv] <;> decide

theorem not_deletes_of_archives (h : a.archives = true) : a.deletes = false := by
  rw [Action.deletes, archives_verb h]
  decide

theorem no_effects (hverb : a.verb ∈ [actionStart, actionRestart, actionSessionRecreate,
      actionSteer, actionRename]) :
    a.deletes ≠ true ∧ a.archives ≠ true ∧ (creationAction a || a.verb = actionAddRepo) ≠ true := by
  refine ⟨fun h => ?_, fun h => ?_, fun h => ?_⟩
  · rcases deletes_verb h with hv | hv <;> rw [hv] at hverb <;> exact absurd hverb (by decide)
  · rw [archives_verb h] at hverb
    exact absurd hverb (by decide)
  · rcases creates_verb h with hv | hv | hv | hv <;> rw [hv] at hverb <;>
      exact absurd hverb (by decide)

end verbs

/-! ## What the resolutions come to -/

section resolutions

variable (a : Action)

theorem sessionScopedAction_yields : (sessionScopedAction a).Yields fun o => ∀ id, o = some id →
    id = a.id ∧ a.verb ∈ [actionStart, actionRestart, actionSessionRecreate, actionSteer] := by
  rw [sessionScopedAction]
  split
  · nofun
  next hverb =>
  split
  · nofun
  intro found
  rcases found with err | _ | row
  · nofun
  · nofun
  intro id hid
  split_ifs at hid
  cases hid
  exact ⟨rfl, not_not.mp hverb⟩

theorem workgroupMembers_yields (id : String) : (workgroupMembers id).Yields fun o =>
    ∀ ids root, o = some (ids, root) → id ∈ ids := by
  intro found
  rcases found with err | _ | row
  · nofun
  · nofun
  simp only
  split
  · intro kids
    rcases kids with err | kids
    · nofun
    intro ids root h
    cases h
    exact mem_cons_self
  · intro ids root h
    cases h
    exact mem_cons_self

theorem sessionAndMembers_yields (id : String) : (sessionAndMembers id).Yields fun o =>
    ∀ ids, o = some ids → id ∈ ids := by
  refine (workgroupMembers_yields id).bind fun o ho => ?_
  intro ids h
  obtain ⟨⟨ids', root⟩, rfl, rfl⟩ := Option.map_eq_some_iff.mp h
  exact ho ids' root rfl

theorem archiveScopedAction_yields : (archiveScopedAction a).Yields fun o => ∀ ids creation,
    o = some (ids, creation) → a.id ∈ ids ∧ a.id ≠ "" ∧ (creation = true ↔ a.verb ≠ actionRename) ∧
      (a.archives = true ∨ a.deletes = true ∨ a.verb = actionRename) := by
  rw [archiveScopedAction]
  split
  · nofun
  next hverb =>
  split
  · nofun
  next hid =>
  refine (sessionAndMembers_yields a.id).bind fun o ho => ?_
  intro ids creation h
  obtain ⟨ids', rfl, h⟩ := Option.map_eq_some_iff.mp h
  cases h
  refine ⟨ho ids rfl, fun h => hid (.inl h), by simp, ?_⟩
  by_contra hnot
  simp only [not_or] at hnot
  exact hverb ⟨by simpa using hnot.1, by simpa using hnot.2.1, hnot.2.2⟩

theorem repoScopedAction_yields : (repoScopedAction a).Yields fun o => ∀ ids, o = some ids →
    a.verb = actionAddRepo ∨ a.verb = actionAgentSetRepos := by
  rw [repoScopedAction]
  split
  next hverb => exact fun _ _ => .inl hverb
  split
  · nofun
  next hverb =>
  intro found
  have : a.verb = actionAgentSetRepos := by
    by_contra hne
    exact hverb (.inl hne)
  rcases found with err | _ | row
  · nofun
  · nofun
  · exact fun _ _ => .inr this

theorem workgroupStart_yields :
    (workgroupStart a).Yields fun b => b = true → a.verb = actionStart := by
  rw [workgroupStart]
  split
  · nofun
  next hverb =>
  intro found
  have : a.verb = actionStart := by
    by_contra hne
    exact hverb (.inl hne)
  rcases found with err | _ | row
  · nofun
  · nofun
  · exact fun _ => this

end resolutions

/-! ## What the admissions come to -/

variable {id : String}

theorem mem_admitSessions {ids : List String} (h : id ∈ ids) (hne : id ≠ "") :
    id ∈ (admitSessions ids).keys :=
  mem_filter.mpr ⟨h, by simpa using hne⟩

section admissions

variable {job : Job} {a : Action} {p : Principal}

theorem target_dispatch (h : Job.target (.dispatch p a) = some id) :
    id = a.id ∧ a.verb ∈ workgroupVerbs := by
  simp only [Job.target] at h
  split_ifs at h with hmem
  exact ⟨(Option.some.inj h).symm, hmem⟩

theorem target_action (haction : job.action = some a) (h : job.target = some id) :
    id = a.id ∧ a.verb ∈ workgroupVerbs := by
  cases job with
  | dispatch p a' =>
    cases haction
    exact target_dispatch h
  | deferred p a' =>
    cases haction
    cases p with
    | none => cases h
    | some p => exact target_dispatch (p := p) h
  | report | query | events | reconcile | watch => cases haction
  | handle a' => cases h

theorem PlanFits.of_verb {stage : Stage} {plan : Plan} (haction : job.action = some a)
    (hsubject : job.subject ≠ "" → job.subject ∈ plan.keys)
    (hwants : a.verb ∈ workgroupVerbs → a.id ≠ "" →
      a.id ∈ plan.keys ∨ a.verb = actionStart ∨ a.verb = actionAddAgent)
    (hexpects : ∀ ids, plan.expect = some ids → plan.creation = true ∧
      ∀ id ∈ ids, id ≠ "" → id ∈ plan.keys)
    (hdeletes : a.deletes = true → (a.id ≠ "" → a.id ∈ plan.keys) ∧ plan.expect.isSome)
    (harchives : a.archives = true → (a.id ≠ "" → a.id ∈ plan.keys) ∧
      (plan.creation = true → plan.expect.isSome))
    (hcreates : creationAction a || a.verb = actionAddRepo → plan.creation = true) :
    PlanFits job stage plan := by
  have hsame : ∀ a', job.action = some a' → a' = a := by
    intro a' ha'
    rw [haction] at ha'
    exact (Option.some.inj ha').symm
  refine ⟨fun id hid hne => ?_, hexpects, fun a' ha' h _ => ?_, fun a' ha' h _ => ?_,
    fun a' ha' h _ => ?_⟩
  · rcases hid with ⟨-, rfl⟩ | hid
    · exact .inl (hsubject hne)
    · obtain ⟨rfl, hverb⟩ := target_action haction hid
      exact (hwants hverb hne).imp_right fun hv => ⟨a, haction, rfl, hv⟩
  · rw [hsame a' ha'] at h ⊢
    exact hdeletes h
  · rw [hsame a' ha'] at h ⊢
    exact harchives h
  · rw [hsame a' ha'] at h
    exact hcreates h

theorem handleAdmission_yields (haction : job.action = some a) :
    (handleAdmission job.subject a).Yields (AdmissionFits job .main) := by
  refine (sessionScopedAction_yields a).bind fun o ho => ?_
  cases o with
  | some id =>
    obtain ⟨rfl, hverb⟩ := ho id rfl
    obtain ⟨hdel, harch, hnew⟩ := no_effects (mem_append_left [actionRename] hverb)
    refine .of_verb haction ?_ ?_ nofun (absurd · hdel) (absurd · harch) (absurd · hnew)
    · exact mem_admitSessions (by simp)
    · exact fun _ hne => .inl (mem_admitSessions (by simp) hne)
  | none =>
    refine (archiveScopedAction_yields a).bind fun o ho => ?_
    cases o with
    | some found =>
      obtain ⟨ids, creation⟩ := found
      obtain ⟨hmem, hid, hcreation, hkind⟩ := ho ids creation rfl
      cases creation with
      | true =>
        refine .of_verb haction ?_ ?_ ?_ ?_ ?_ (fun _ => rfl)
        · exact mem_admitSessions (by simp)
        · exact fun _ hne => .inl (mem_admitSessions (by simp [hmem]) hne)
        · intro ids' h
          cases h
          exact ⟨rfl, fun id hid hne => mem_admitSessions (mem_append_left _ hid) hne⟩
        · exact fun _ => ⟨mem_admitSessions (by simp [hmem]), rfl⟩
        · exact fun _ => ⟨mem_admitSessions (by simp [hmem]), fun _ => rfl⟩
      | false =>
        have hverb : a.verb = actionRename := by
          by_contra hne
          exact absurd (hcreation.mpr hne) (by simp)
        obtain ⟨hdel, harch, hnew⟩ := no_effects (a := a) (by simp [hverb])
        refine .of_verb haction ?_ ?_ nofun (absurd · hdel) (absurd · harch) (absurd · hnew)
        · exact mem_admitSessions (by simp)
        · exact fun _ hne => .inl (mem_admitSessions (by simp [hmem]) hne)
    | none =>
      refine (repoScopedAction_yields a).bind fun o ho => ?_
      cases o with
      | some ids =>
        have hverb := ho ids rfl
        refine .of_verb haction ?_ ?_ nofun ?_ ?_ (fun _ => rfl)
        · exact mem_admitSessions (by simp)
        · intro h
          rcases hverb with hv | hv <;> rw [hv] at h <;> exact absurd h (by decide)
        · intro h
          rcases hverb with hv | hv <;> rw [Action.deletes, hv] at h <;>
            exact absurd h (by decide)
        · intro h
          rcases hverb with hv | hv <;> rw [archives_verb h] at hv <;>
            exact absurd hv (by decide)
      | none =>
        refine (workgroupStart_yields a).bind fun b hb => ?_
        split
        next hstart => exact ⟨rfl, a, haction, hb hstart⟩
        split
        next hcreation =>
          refine .of_verb haction ?_ ?_ nofun ?_ ?_ (fun _ => rfl)
          · exact mem_admitSessions (by simp)
          · intro h _
            rcases creates_verb (by rw [hcreation]; rfl) with hv | hv | hv | hv
            · exact .inr (.inr hv)
            all_goals rw [hv] at h; exact absurd h (by decide)
          · intro h
            have := not_creates_of_deletes h
            rw [hcreation] at this
            cases this
          · intro h
            have := not_creates_of_archives h
            rw [hcreation] at this
            cases this
        next => trivial

theorem admitArchive_yields (hshape : selfCompletionShape p a = true) :
    (admitArchive a.id).Yields (AdmissionFits (.dispatch p a) .main) := by
  simp only [selfCompletionShape, Bool.and_eq_true, decide_eq_true_eq] at hshape
  obtain ⟨⟨-, hself⟩, harchives⟩ := hshape
  have hfits : ∀ plan : Plan, (a.id ≠ "" → a.id ∈ plan.keys) →
      (∀ ids, plan.expect = some ids → plan.creation = true ∧
        ∀ id ∈ ids, id ≠ "" → id ∈ plan.keys) →
      (plan.creation = true → plan.expect.isSome) → PlanFits (.dispatch p a) .main plan := by
    intro plan hkeys hexpects hcreation
    refine .of_verb rfl (fun hne => ?_) (fun _ hne => .inl (hkeys hne)) hexpects ?_ ?_ ?_
    · have : Job.subject (.dispatch p a) = a.id := hself
      rw [this] at hne ⊢
      exact hkeys hne
    · intro h
      rw [not_deletes_of_archives harchives] at h
      cases h
    · exact fun _ => ⟨hkeys, hcreation⟩
    · intro h
      rw [not_creates_of_archives harchives] at h
      cases h
  refine (workgroupMembers_yields a.id).bind fun o ho => ?_
  rcases o with _ | ⟨ids, _ | _⟩
  · exact hfits _ (mem_admitSessions (by simp)) nofun nofun
  · exact hfits _ (mem_admitSessions (ho ids false rfl)) nofun nofun
  refine hfits _ (mem_admitSessions (ho ids true rfl)) ?_ (fun _ => rfl)
  intro ids' h
  cases h
  exact ⟨rfl, fun id hid hne => mem_admitSessions hid hne⟩

theorem dispatchAdmission_yields :
    (dispatchAdmission p a).Yields (AdmissionFits (.dispatch p a) .main) := by
  rw [dispatchAdmission]
  split
  next hshape => exact admitArchive_yields hshape
  refine (Ask.Yields.trivial _).bind fun split _ => ?_
  cases split <;> trivial

theorem PlanFits.of_no_action {stage : Stage} {plan : Plan} (haction : job.action = none)
    (hwanted : ∀ id, job.Wants id → id ≠ "" → id ∈ plan.keys) (hexpect : plan.expect = none) :
    PlanFits job stage plan := by
  have hnot : ∀ a, job.action ≠ some a := by
    intro a h
    rw [haction] at h
    cases h
  refine ⟨fun id hid hne => .inl (hwanted id hid hne), fun ids h => ?_, fun a h => absurd h (hnot a),
    fun a h => absurd h (hnot a), fun a h => absurd h (hnot a)⟩
  rw [hexpect] at h
  cases h

/-- **What a section decides to lock fits what it is.** -/
theorem admission_yields (hrouted : job.routed = true) :
    job.admission.Yields (AdmissionFits job .main) := by
  cases job with
  | report p =>
    refine .of_no_action rfl (fun id hid _ => ?_) rfl
    rcases hid with ⟨-, rfl⟩ | hid
    · exact mem_singleton.mpr rfl
    · cases hid
  | query p req =>
    refine .of_no_action rfl (fun id hid hne => ?_) rfl
    rcases hid with ⟨-, rfl⟩ | hid
    · exact mem_admitSessions (mem_singleton.mpr rfl) hne
    · cases hid
  | events p req =>
    refine .of_no_action rfl (fun id hid hne => ?_) rfl
    rcases hid with ⟨-, rfl⟩ | hid
    · exact mem_admitSessions mem_cons_self hne
    · cases hid
      exact mem_admitSessions (by simp) hne
  | dispatch p a => exact dispatchAdmission_yields
  | handle a => exact handleAdmission_yields rfl
  | deferred p a =>
    have hverb : a.verb = actionSteer := by simpa [Job.routed] using hrouted
    obtain ⟨hdel, harch, hnew⟩ := no_effects (a := a) (by simp [hverb])
    refine .of_verb rfl ?_ ?_ nofun (absurd · hdel) (absurd · harch) (absurd · hnew)
    · exact mem_admitSessions (by simp [Job.subject, Job.principal])
    · exact fun _ hne => .inl (mem_admitSessions (by simp) hne)
  | reconcile id | watch =>
    refine .of_no_action rfl (fun id hid _ => ?_) rfl
    rcases hid with ⟨h, -⟩ | hid
    · cases h
    · cases hid

theorem planFits_start (haction : job.action = some a) (hcreation : creationAction a) :
    PlanFits job (.start id) (admitSessions [id, job.subject]) := by
  refine ⟨fun id' hid hne => ?_, nofun, nofun, nofun, nofun⟩
  rcases hid with ⟨-, rfl⟩ | hid
  · exact .inl (mem_admitSessions (by simp) hne)
  obtain ⟨rfl, hverb⟩ := target_action haction hid
  refine .inr ⟨a, haction, rfl, .inr ?_⟩
  rcases creates_verb (by rw [hcreation]; rfl) with hv | hv | hv | hv
  · exact hv
  all_goals rw [hv] at hverb; exact absurd hverb (by decide)

theorem planFits_workgroup {stage : Stage} {ids : List String} (haction : job.action = some a)
    (hverb : a.verb = actionStart) :
    PlanFits job stage ⟨ids ++ [job.subject], false, none, false, false⟩ := by
  obtain ⟨hdel, harch, hnew⟩ := no_effects (a := a) (by simp [hverb])
  refine .of_verb haction ?_ ?_ nofun (absurd · hdel) (absurd · harch) (absurd · hnew)
  · exact fun _ => mem_append_right _ (mem_singleton.mpr rfl)
  · exact fun _ _ => .inr (.inl hverb)

end admissions

end

open Access Option State

/-- The phases in which a section is admitted. -/
def Phase.admitted : Phase → Bool
  | .inside _ | .alone => true
  | _ => false

/-- A move of a section, over the rows of the store it reads. -/
inductive Moves (rows : Rows) (th : Thread) : Thread → Prop
  | spin (hphase : th.phase = .planning (.done .exclusive)) : Moves rows th (th.at .spinning)
  | precheck (hphase : th.phase = .planning (.done (.shared .precheck))) :
      Moves rows th { th with stage := .precheck, phase := .entering .precheck }
  | enter {what : Shared} (hphase : th.phase = .planning (.done (.shared what)))
      (hwhat : what ≠ .precheck) : Moves rows th (th.at (.entering what))
  | gate {what : Shared} (hphase : th.phase = .entering what) :
      Moves rows th (th.at (State.afterGate what))
  | nobody {subject : String} {found : Option (List String)}
      (hphase : th.phase = .resolving subject (.done found)) : Moves rows th (th.at (.leaving .stop))
  | agents {subject : String} {ids : List String}
      (hphase : th.phase = .resolving subject (.done (some ids))) :
      Moves rows th (th.at (.keying ⟨ids ++ [subject], false, none, false, false⟩))
  | key {plan : Plan} (hphase : th.phase = .keying plan) : Moves rows th (th.at (.locking plan))
  /-- A step inside the table of session locks. -/
  | inTable (hphase : (∃ plan, th.phase = .locking plan) ∨ ∃ next, th.phase = .unlocking next) :
      Moves rows th th
  | giveUp {plan : Plan} (hphase : th.phase = .locking plan ∨ th.phase = .creating plan) :
      Moves rows th (th.at (.unlocking .stop))
  | locked {plan : Plan} (hphase : th.phase = .locking plan) :
      Moves rows th (th.at (if plan.creation then .creating plan else .inside (some plan)))
  | created {plan : Plan} (hphase : th.phase = .creating plan) :
      Moves rows th
        (th.at (if plan.expect.isSome then .checking plan th.recheck else .inside (some plan)))
  | same {plan : Plan} {ids current : List String}
      (hphase : th.phase = .checking plan (.done (some current))) (hexpect : plan.expect = some ids)
      (hsame : sameMembers ids current = true) : Moves rows th (th.at (.inside (some plan)))
  | again {plan : Plan} {found : Option (List String)}
      (hphase : th.phase = .checking plan (.done found)) :
      Moves rows th (th.at (.uncreating plan (.resume .main th.replan)))
  | gone {plan : Plan} {found : Option (List String)}
      (hphase : th.phase = .checking plan (.done found)) :
      Moves rows th (th.at (.uncreating plan .stop))
  | verdict {v : Except PolicyError Unit} {half : Option Row}
      (hphase : th.phase.admitted = true) (heval : th.eval = some ⟨.done v, half⟩) :
      Moves rows th { th with eval := none, passed := v.isOk }
  | uncreate {plan : Plan} {next : Next} (hphase : th.phase = .uncreating plan next) :
      Moves rows th (th.at (.unlocking next))
  | drop {next : Next} (hphase : th.phase = .unlocking next) : Moves rows th (th.at (.leaving next))
  | resume {stage : Stage} {q : Resolve Admission} (hphase : th.phase = .leaving (.resume stage q)) :
      Moves rows th { th with stage := stage, phase := .planning q }
  | seize (hphase : th.phase = .spinning) : Moves rows th (th.at .alone)
  | plans {q : StoreQuery} {next : q.Answer → Resolve Admission} {failure : Option String}
      (hphase : th.phase = .planning (.ask q next)) :
      Moves rows th (th.at (.planning (next (answer rows failure q))))
  | resolves {subject : String} {q : StoreQuery} {next : q.Answer → Resolve (Option (List String))}
      {failure : Option String} (hphase : th.phase = .resolving subject (.ask q next)) :
      Moves rows th (th.at (.resolving subject (next (answer rows failure q))))
  | checks {plan : Plan} {q : StoreQuery} {next : q.Answer → Resolve (Option (List String))}
      {failure : Option String} (hphase : th.phase = .checking plan (.ask q next)) :
      Moves rows th (th.at (.checking plan (next (answer rows failure q))))
  | evaluate {tables : Tables} {guard guard' : Guard (Except PolicyError Unit)}
      (hphase : th.phase.admitted = true) (heval : th.eval = none)
      (hguard : th.job.guard tables = some guard)
      (hguard' : guard' = guard ∨ ∃ err, guard' = .done (.error err)) :
      Moves rows th { th with eval := some ⟨guard', none⟩ }
  /-- A read of the guard that fails. -/
  | fails {ev : Eval} {err : String} (hphase : th.phase.admitted = true) (heval : th.eval = some ev) :
      Moves rows th { th with eval := some (ev.read (.error err)) }
  /-- A lookup of the guard that reads no row, or finds none. -/
  | misses {ev : Eval} (hphase : th.phase.admitted = true) (heval : th.eval = some ev)
      (hwants : ∀ id, ev.wants = some id → rows.lookup id = none) :
      Moves rows th { th with eval := some (ev.read (.ok none)) }
  | list {plan : Plan} {a : Action} (hphase : th.phase = .inside (some plan))
      (hstage : th.stage = .main)
      (haction : th.job.action = some a) (hdeletes : a.deletes = true)
      (hroot : (rows.lookup a.id).any Row.isRoot = true) :
      Moves rows th { th with doomed := children rows a.id }
  | leave {plan : Option Plan} {next : Next} {newID : Option String}
      (hphase : th.phase = .inside plan) (hnext : State.nextOf th newID = some next) :
      Moves rows th (th.release (State.afterBody next plan))

/-! ## The plan a section follows -/

/-- What follows a release fits the section. -/
def NextFits (job : Job) : Next → Prop
  | .stop => True
  | .resume stage q => stage ≠ .precheck ∧ q.Yields (AdmissionFits job stage)

/-- The locks a section is at, has or will take fit what it is. -/
def PhaseFits (job : Job) (stage : Stage) : Phase → Prop
  | .planning q => stage ≠ .precheck ∧ q.Yields (AdmissionFits job stage)
  | .entering .precheck | .inside none => stage = .precheck
  | .entering what => stage ≠ .precheck ∧ AdmissionFits job stage (.shared what)
  | .resolving subject _ => stage ≠ .precheck ∧ subject = job.subject ∧
      ∃ a, job.action = some a ∧ a.verb = actionStart
  | .keying plan | .locking plan | .creating plan | .checking plan _ | .inside (some plan) =>
    stage ≠ .precheck ∧ PlanFits job stage plan
  | .uncreating _ next | .unlocking next | .leaving next => NextFits job next
  | .spinning | .alone => True

theorem replan_yields {th : Thread} (hrouted : th.job.routed = true) :
    th.replan.Yields (AdmissionFits th.job .main) := by
  rw [Thread.replan]
  split
  next p a hjob =>
    rw [hjob]
    split
    next hshape => exact admitArchive_yields hshape
    exact handleAdmission_yields (show (Job.dispatch p a).action = some a from rfl)
  next => exact admission_yields hrouted

theorem nextOf_fits {th : Thread} {newID : Option String} {next : Next}
    (h : nextOf th newID = some next) : NextFits th.job next := by
  unfold nextOf at h
  split at h
  · split at h
    next p a hjob =>
      cases h
      rw [hjob]
      split
      · exact ⟨nofun, handleAdmission_yields (show (Job.dispatch p a).action = some a from rfl)⟩
      · trivial
    · cases h
  · split_ifs at h with hcond
    cases h
    obtain ⟨a, haction, hcreation⟩ := (Option.any_eq_true _ _).mp hcond.2
    exact ⟨nofun, planFits_start haction hcreation⟩
  all_goals
    cases h
    try trivial

theorem Moves.fits {rows : Rows} {th th' : Thread} (h : Moves rows th th')
    (hrouted : th.job.routed = true) (hfits : PhaseFits th.job th.stage th.phase) :
    PhaseFits th'.job th'.stage th'.phase := by
  cases h with
  | spin | nobody | giveUp | gone | seize => trivial
  | precheck hphase => rfl
  | @enter what hphase hwhat =>
    rw [hphase] at hfits
    cases what with
    | precheck => exact absurd rfl hwhat
    | workgroup | sessions => exact hfits
  | @gate what hphase =>
    rw [hphase] at hfits
    cases what with
    | precheck | workgroup | sessions => exact hfits
  | agents hphase =>
    rw [hphase] at hfits
    obtain ⟨hstage, rfl, a, haction, hverb⟩ := hfits
    exact ⟨hstage, planFits_workgroup haction hverb⟩
  | key hphase | same hphase | uncreate hphase | drop hphase | resume hphase | resolves hphase
  | checks hphase =>
    rw [hphase] at hfits
    exact hfits
  | inTable | verdict | evaluate | fails | misses | list => exact hfits
  | locked hphase | created hphase =>
    rw [hphase] at hfits
    split <;> exact hfits
  | again hphase => exact ⟨(by simp), replan_yields hrouted⟩
  | plans hphase =>
    rw [hphase] at hfits
    exact ⟨hfits.1, hfits.2 _⟩
  | @leave plan next newID hphase hnext =>
    have hnext' := nextOf_fits hnext
    cases plan with
    | none => exact hnext'
    | some plan =>
      rw [afterBody]
      split <;> exact hnext'

namespace State

variable {s s' : State} {t : Caller} {th : Thread}

/-- A step of the machine, by what becomes of the rows and of the threads. -/
inductive Steps (s : State) (s' : State) : Event → Prop
  | moves {e : Event} {th th' : Thread} (hth : s.threads.lookup e.thread = some th)
      (hmove : Moves s.rows th th') (hrows : s'.rows = s.rows)
      (hthreads : s'.threads = s.threads.insert e.thread th') : Steps s s' e
  /-- A read of the guard that finds a row. -/
  | finds {t : Caller} {th : Thread} {ev : Eval} {id : String} {row : Row}
      (hth : s.threads.lookup t = some th) (hphase : th.phase.admitted = true)
      (heval : th.eval = some ev) (hwants : ev.wants = some id) (hrow : s.rows.lookup id = some row)
      (hrows : s'.rows = s.rows)
      (hthreads : s'.threads = s.threads.insert t
        { th with eval := some (ev.read (.ok (some row))), reads := th.reads ++ [id] }) :
      Steps s s' (.read t none)
  | ends {e : Event} (hrows : s'.rows = s.rows)
      (hthreads : s'.threads = s.threads.erase e.thread) : Steps s s' e
  | spawns {t : Caller} {job : Job} (hnone : s.threads.lookup t = none) (hjob : job.routed = true)
      (hrows : s'.rows = s.rows) (hthreads : s'.threads = s.threads.insert t (.start job)) :
      Steps s s' (.spawn t job)
  | writes {t : Caller} {w : RowWrite} {th : Thread} {created : List String}
      (hth : s.threads.lookup t = some th) (hallows : th.allows w = true)
      (hrows : w.apply s.rows = some s'.rows)
      (hthreads : s'.threads = s.threads.insert t { th with created := created }) :
      Steps s s' (.write t w)

theorem lockStep_eq {th' : Thread} {ev : KeyedLocks.Event} (h : s.lockStep t th' ev = some s') :
    s'.rows = s.rows ∧ s'.threads = s.threads.insert t th' := by
  simp only [lockStep, bind_eq_bind, bind_eq_some_iff, pure_def, some.injEq] at h
  obtain ⟨locks, -, rfl⟩ := h
  exact ⟨rfl, rfl⟩

theorem go_steps (hth : s.threads.lookup t = some th) (h : s.go t th = some s') :
    Steps s s' (.go t) := by
  have htable : ∀ {th' ev}, s.lockStep t th' ev = some s' → Moves s.rows th th' →
      Steps s s' (.go t) := by
    intro th' ev hlock hmove
    obtain ⟨hrows, hthreads⟩ := lockStep_eq hlock
    exact .moves hth hmove hrows hthreads
  revert h
  fun_cases s.go t th with
  | case1 hphase => rintro ⟨⟩; exact .moves hth (.spin hphase) rfl rfl
  | case2 hphase => rintro ⟨⟩; exact .moves hth (.precheck hphase) rfl rfl
  | case3 what hwhat hphase => rintro ⟨⟩; exact .moves hth (.enter hphase hwhat) rfl rfl
  | case5 what hphase => rintro ⟨⟩; exact .moves hth (.gate hphase) rfl rfl
  | case6 | case27 => rintro ⟨⟩; exact .ends rfl rfl
  | case8 _ hphase | case10 _ hphase => rintro ⟨⟩; exact .moves hth (.nobody hphase) rfl rfl
  | case9 subject ids hphase => rintro ⟨⟩; exact .moves hth (.agents hphase) rfl rfl
  | case12 plan hphase => exact fun h => htable h (.key hphase)
  | case13 plan hphase =>
    intro h
    obtain ⟨call, -, h⟩ := bind_eq_some_iff.mp h
    split at h
    · exact htable h (.inTable (.inl ⟨plan, hphase⟩))
    · cases h
      exact .moves hth (.giveUp (.inl hphase)) rfl rfl
    · split at h
      · cases h
        exact .moves hth (.locked hphase) rfl rfl
      · exact htable h (.inTable (.inl ⟨plan, hphase⟩))
  | case14 plan hphase => rintro ⟨⟩; exact .moves hth (.created hphase) rfl rfl
  | case15 plan hphase => rintro ⟨⟩; exact .moves hth (.giveUp (.inr hphase)) rfl rfl
  | case17 plan current hexpect hphase =>
    rintro ⟨⟩
    obtain ⟨ids, hids, hsame⟩ := (Option.any_eq_true _ _).mp hexpect
    exact .moves hth (.same hphase hids hsame) rfl rfl
  | case18 plan current _ hphase => rintro ⟨⟩; exact .moves hth (.again hphase) rfl rfl
  | case19 plan hphase =>
    rintro ⟨⟩
    split
    · exact .moves hth (.again hphase) rfl rfl
    · exact .moves hth (.gone hphase) rfl rfl
  | case21 _ hphase v half heval | case23 hphase v half heval =>
    rintro ⟨⟩
    exact .moves hth (.verdict (by rw [hphase]; rfl) heval) rfl rfl
  | case25 plan next hphase => rintro ⟨⟩; exact .moves hth (.uncreate hphase) rfl rfl
  | case26 next hphase =>
    intro h
    obtain ⟨call, -, h⟩ := bind_eq_some_iff.mp h
    split at h
    · exact htable h (.drop hphase)
    · exact htable h (.inTable (.inr ⟨next, hphase⟩))
    · exact htable h (.inTable (.inr ⟨next, hphase⟩))
  | case28 _ stage q hphase => rintro ⟨⟩; exact .moves hth (.resume hphase) rfl rfl
  | case29 hphase => rintro ⟨⟩; exact .moves hth (.seize hphase) rfl rfl
  | _ => rintro ⟨⟩

theorem evalRead_steps {failure : Option String} {ev : Eval} (hth : s.threads.lookup t = some th)
    (hphase : th.phase.admitted = true) (heval : th.eval = some ev) :
    Steps s (s.setThread t { th with
      eval := some (ev.read (failure.elim (.ok (ev.wants.bind fun id => s.rows.lookup id)) .error))
      reads := th.reads ++ (if failure.isNone then
        ev.wants.toList.filter (fun id => (s.rows.lookup id).isSome) else []) })
      (.read t failure) := by
  cases failure with
  | some err =>
    simp only [elim_some, isNone_some, Bool.false_eq_true, if_false, List.append_nil]
    exact .moves hth (.fails hphase heval) rfl rfl
  | none =>
    simp only [elim_none, isNone_none, if_true]
    cases hwants : ev.wants with
    | none =>
      simp only [bind_none, toList_none, List.filter_nil, List.append_nil]
      refine .moves hth (.misses hphase heval fun id hid => ?_) rfl rfl
      rw [hwants] at hid
      cases hid
    | some id =>
      cases hrow : s.rows.lookup id with
      | none =>
        simp only [bind_some, toList_some, hrow, isSome_none,
          List.filter_cons, Bool.false_eq_true, if_false, List.filter_nil, List.append_nil]
        refine .moves hth (.misses hphase heval fun id' hid' => ?_) rfl rfl
        rw [hwants] at hid'
        cases hid'
        exact hrow
      | some row =>
        simp only [bind_some, toList_some, hrow, isSome_some,
          List.filter_cons, if_true, List.filter_nil]
        exact .finds hth hphase heval hwants hrow rfl rfl

theorem read_steps {failure : Option String} (hth : s.threads.lookup t = some th)
    (h : s.read t th failure = some s') : Steps s s' (.read t failure) := by
  revert h
  fun_cases s.read t th failure with
  | case1 _ _ hphase => rintro ⟨⟩; exact .moves hth (.plans hphase) rfl rfl
  | case2 _ _ _ hphase => rintro ⟨⟩; exact .moves hth (.resolves hphase) rfl rfl
  | case3 _ _ _ hphase => rintro ⟨⟩; exact .moves hth (.checks hphase) rfl rfl
  | case4 _ hphase | case5 hphase =>
    intro h
    obtain ⟨ev, hev, h⟩ := bind_eq_some_iff.mp h
    split at h
    · cases h
    · cases h
      exact evalRead_steps hth (by rw [hphase]; rfl) hev
  | case6 => rintro ⟨⟩

theorem step_steps {e : Event} (h : s.step e = some s') : Steps s s' e := by
  cases e with
  | spawn t job =>
    simp only [step] at h
    split at h
    · cases h
    next hnone =>
    split at h
    next hjob =>
      cases h
      exact .spawns hnone hjob rfl rfl
    · cases h
  | go t =>
    obtain ⟨th, hth, h⟩ := bind_eq_some_iff.mp h
    exact go_steps hth h
  | read t failure =>
    obtain ⟨th, hth, h⟩ := bind_eq_some_iff.mp h
    exact read_steps hth h
  | evaluate t valid tables =>
    obtain ⟨th, hth, h⟩ := bind_eq_some_iff.mp h
    obtain ⟨guard, hguard, h⟩ := bind_eq_some_iff.mp h
    have hguard' : (if valid then guard else .done (.error .denied)) = guard ∨
        ∃ err, (if valid then guard else .done (.error .denied)) =
          (.done (.error err) : Guard (Except PolicyError Unit)) := by
      cases valid with
      | true => exact .inl rfl
      | false => exact .inr ⟨_, rfl⟩
    split at h
    next hphase heval =>
      cases h
      exact .moves hth (.evaluate (by rw [hphase]; rfl) heval hguard hguard') rfl rfl
    next hphase heval =>
      cases h
      exact .moves hth (.evaluate (by rw [hphase]; rfl) heval hguard hguard') rfl rfl
    · cases h
  | list t =>
    obtain ⟨th, hth, h⟩ := bind_eq_some_iff.mp h
    obtain ⟨a, haction, h⟩ := bind_eq_some_iff.mp h
    split at h
    next plan hphase hstage =>
      split_ifs at h with hcond
      cases h
      exact .moves hth (.list hphase hstage haction hcond.1 hcond.2) rfl rfl
    · cases h
  | write t w =>
    obtain ⟨th, hth, h⟩ := bind_eq_some_iff.mp h
    split_ifs at h with hallows
    obtain ⟨rows, hrows, h⟩ := bind_eq_some_iff.mp h
    cases h
    exact .writes hth hallows hrows rfl
  | leave t newID =>
    obtain ⟨th, hth, h⟩ := bind_eq_some_iff.mp h
    split at h
    · cases h
      exact .ends rfl rfl
    next plan hphase heval =>
      obtain ⟨next, hnext, h⟩ := bind_eq_some_iff.mp h
      cases h
      exact .moves hth (.leave hphase hnext) rfl rfl
    · cases h

end State

end AgentMultiplexer.Daemon
