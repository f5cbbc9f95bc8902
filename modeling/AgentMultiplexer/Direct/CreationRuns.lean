import AgentMultiplexer.Direct.CreationJobs

set_option autoImplicit false

/-! # Runs of creations

The invariant that ties the jobs of the running process to the records, in memory and on the disk,
and to what was answered and sent so far. -/

namespace AgentMultiplexer.Direct

open AList DirectState GoMap List Transition Set

/-! ## What was seen -/

/-- Two answers about one creation: they are about one key, and no request of the key was let proceed
    between them. -/
def Answer.SameCreation (a b : Answer) : Prop :=
  a.clientID = b.clientID ∧ a.key = b.key ∧ a.admissions = b.admissions

/-- The version of an answer. -/
def Answer.stage (a : Answer) : Nat := Direct.stage a.view.record a.view.running

theorem Answer.status_version (a : Answer) : a.status.version = a.stage := by
  refine Eq.trans ?_ (statusOf_version a.view a.now)
  unfold Answer.status writeCreation
  dsimp only
  split
  · split <;> rfl
  · rfl

/-- What an entry may be after an earlier one: the version of a creation does not decrease, a
    creation the daemon was called for is not said not to have run, and one that was said not to have
    run is not sent any more. -/
def Entry.Coherent : Entry → Entry → Prop
  | .answered a, .answered b => a.SameCreation b → a.status.version ≤ b.status.version
  | .called c k _, .answered b => b.clientID = c → b.key = k → ¬ b.status.NotRun
  | .answered a, .called c k n =>
    a.clientID = c → a.key = k → a.admissions = n → ¬ a.status.NotRun
  | .called .., .called .. => True

namespace CreationState

/-! ## The invariant -/

/-- A job and the record of its key. -/
structure JobInv (p : Process) (c k : String) (j : Job) : Prop where
  running : runKey c k ∈ p.running
  admitted : ∀ r, p.registry.recordAt c k = some r →
    r.state = .admitted ∧ r.async = j.creation.isSome
  unmarked : ∀ r, p.registry.recordAt c k = some r → j.creation.isSome = true →
    j.phase = .begun → r.dispatchedAt = 0

structure Inv (spentKey : String → String) (s : CreationState) : Prop where
  sound : s.direct.Sound Set.univ
  minted : ∀ c ∈ s.direct.history.created, '\x00' ∉ c.toList
  idle : s.direct.process = none → ∀ x, s.jobs.lookup x = none
  running : ∀ p, s.direct.process = some p → ∀ x ∈ p.running,
    ∃ c k j, x = runKey c k ∧ s.jobs.lookup (c, k) = some j
  job : ∀ p, s.direct.process = some p → ∀ c k j, s.jobs.lookup (c, k) = some j → JobInv p c k j
  secured : ∀ c k j, s.jobs.lookup (c, k) = some j →
    Secured spentKey Set.univ c k (fun _ => True) s.direct
  sendable : ∀ c k j, s.jobs.lookup (c, k) = some j → j.calling = true ∨ j.phase = .sent →
    ∀ st ∈ s.direct.contents, ∀ r, st.recordAt c k = some r → Sendable r
  calledSecured : ∀ c k n, .called c k n ∈ s.log →
    Secured spentKey Set.univ c k (fun _ => True) s.direct
  calledJob : ∀ c k n, .called c k n ∈ s.log → ∀ j, s.jobs.lookup (c, k) = some j →
    j.phase = .sent
  called : ∀ c k n, .called c k n ∈ s.log →
    ∀ st ∈ s.direct.contents, ∀ r, st.recordAt c k = some r → ¬ ClaimsNotRun r
  counted : ∀ a, .answered a ∈ s.log → a.admissions ≤ s.admissions a.clientID a.key
  /-- A creation with a terminal answer has no job. -/
  terminal : ∀ a, .answered a ∈ s.log → a.admissions = s.admissions a.clientID a.key →
    a.stage = 3 → s.jobs.lookup (a.clientID, a.key) = none
  version : ∀ a, .answered a ∈ s.log → a.admissions = s.admissions a.clientID a.key →
    ∀ p r, s.direct.process = some p → p.registry.recordAt a.clientID a.key = some r →
      a.stage ≤ stage r (decide (runKey a.clientID a.key ∈ p.running))
  coherent : s.log.Pairwise Entry.Coherent

variable {call : BeginCall} {j : Job}

theorem admission_state (boot : String) (call : BeginCall) :
    (admission boot call).state = .admitted ∧ (admission boot call).dispatchedAt = 0 := by
  unfold admission
  cases call.creation <;> exact ⟨rfl, rfl⟩

theorem admission_async {act : DirectAction} (h : stamps call act = true) (boot : String) :
    (admission boot call).async = (launch call act).creation.isSome := by
  unfold admission launch
  unfold stamps at h
  cases hcreation : call.creation with
  | none => rfl
  | some c =>
    rw [hcreation, Option.all_some, Bool.and_eq_true] at h
    exact h.1

/-! ## Jobs and events -/

/-- The event is one of the key's job, or the end of all jobs. -/
def Touches (c k : String) : DirectEvent → Prop
  | .finish c' k' _ _ _ => c' = c ∧ k' = k
  | .markDispatched c' k' _ _ _ => c' = c ∧ k' = k
  | .abort c' k' _ => c' = c ∧ k' = k
  | .crash => True
  | _ => False

/-- Where a job comes from. -/
inductive JobOrigin (spentKey : String → String) (s : CreationState) (e : DirectEvent)
    (c k : String) (j' : Job) : Prop
  | old (hj : s.jobs.lookup (c, k) = some j') (he : ¬ Touches c k e)
  | marked {j : Job} {p : Process} {leaseEnded : Bool} {now : Instant} {commit : Commit}
      (he : e = .markDispatched c k leaseEnded now commit) (hj : s.jobs.lookup (c, k) = some j)
      (hphase : j.phase = .begun) (hasync : j.creation.isSome = true)
      (hp : s.direct.process = some p)
      (hj' : j' = { j with
        phase := match markError p c k leaseEnded commit with
          | none => .dispatching
          | some err => .unmarked err })
  | launched {call : BeginCall} {act : DirectAction} (he : e = .begin call)
      (hc : call.clientID = c) (hk : call.key = k) (hstamps : stamps call act = true)
      (hpeek : call.peek = false)
      (hproceed : s.direct.verdict spentKey call = some (.ok .proceed))
      (hj' : j' = launch call act)

variable {spentKey : String → String} {s : CreationState} {e : DirectEvent}
  {jobs : GoMap (String × String) Job} {admitted : List (String × String)}

variable {c k : String}

theorem Drives.origin (hd : Drives spentKey s e jobs admitted) {j' : Job}
    (hj' : jobs.lookup (c, k) = some j') : JobOrigin spentKey s e c k j' := by
  cases hd with
  | launched hstamps hpeek hproceed =>
    rcases lookup_insert_eq_some.mp hj' with ⟨heq, rfl⟩ | ⟨-, hj'⟩
    · cases heq
      exact .launched rfl rfl rfl hstamps hpeek hproceed rfl
    · exact .old hj' id
  | begun | named => exact .old hj' id
  | finished | aborted =>
    obtain ⟨hne, hj'⟩ := lookup_erase_eq_some.mp hj'
    exact .old hj' fun h => hne (by rw [h.1, h.2])
  | marked hj hphase hasync hp =>
    rcases lookup_insert_eq_some.mp hj' with ⟨heq, rfl⟩ | ⟨hne, hj'⟩
    · cases heq
      exact .marked rfl hj hphase hasync hp rfl
    · exact .old hj' fun h => hne (by rw [h.1, h.2])
  | crashed => cases (lookup_empty (c, k)).symm.trans hj'
  | aside haside =>
    refine .old hj' fun h => ?_
    cases e <;> first | exact h | cases haside

/-- The admissions of a key are those there were, or one more. -/
theorem Drives.admissions_cases (hd : Drives spentKey s e jobs admitted) (c k : String) :
    admitted.count (c, k) = s.admissions c k ∨
      (admitted.count (c, k) = s.admissions c k + 1 ∧
        ∃ call, e = .begin call ∧ call.clientID = c ∧ call.key = k ∧ call.peek = false ∧
          s.direct.verdict spentKey call = some (.ok .proceed)) := by
  cases hd with
  | @launched call act hstamps hpeek hproceed =>
    by_cases hkey : (call.clientID, call.key) = (c, k)
    · cases hkey
      exact .inr ⟨count_cons_self, call, rfl, rfl, rfl, hpeek, hproceed⟩
    · exact .inl (count_cons_of_ne hkey)
  | _ => exact .inl rfl

variable {commit : Commit}

section

variable (hd : Drives spentKey s e jobs admitted)

include hd

theorem Drives.ends {ending : Ending} {now : Int} (he : e = .finish c k ending now commit) :
    ∃ j, s.jobs.lookup (c, k) = some j ∧
      (j.phase = .sent → ∀ r, ¬ ClaimsNotRun (ending.record now r)) := by
  cases hd with
  | finished hj hsent => cases he; exact ⟨_, hj, hsent⟩
  | aside haside => subst he; cases haside
  | _ => cases he

theorem Drives.marks {leaseEnded : Bool}
    {now : Int} (he : e = .markDispatched c k leaseEnded now commit) :
    now ≠ 0 ∧ ∃ j, s.jobs.lookup (c, k) = some j ∧ j.phase = .begun ∧ j.creation.isSome = true := by
  cases hd with
  | marked hj hphase hasync hp =>
    cases he
    exact ⟨LT.lt.ne' (Subtype.property _), _, hj, hphase, hasync⟩
  | aside haside => subst he; cases haside
  | _ => cases he

theorem Drives.aborts (he : e = .abort c k commit) :
    ∃ j, s.jobs.lookup (c, k) = some j ∧ j.phase = .begun ∧ jobs.lookup (c, k) = none := by
  cases hd with
  | aborted hj hphase => cases he; exact ⟨_, hj, hphase, lookup_erase _ _⟩
  | aside haside => subst he; cases haside
  | _ => cases he

end

/-! ## A step of the authority -/

section Driven

variable {d : DirectState}

variable {p : Process}

theorem Inv.registry_mem (hp : d.process = some p) : p.registry ∈ d.contents :=
  mem_contents.mpr (.inl ⟨p, hp, rfl⟩)

variable {c k : String}

theorem Inv.not_admitted (h : Inv spentKey s)
    (hsec : Secured spentKey .univ c k (fun _ => True) s.direct) (hp : s.direct.process = some p) :
    ¬ ∀ h B, Good .univ h p.registry → ¬ Held spentKey .univ h p.registry c k B :=
  fun hnew => hnew _ _ (h.sound _ (registry_mem hp)) (hsec.held _ (registry_mem hp))

theorem Inv.not_proceed (h : Inv spentKey s)
    (hsec : Secured spentKey .univ call.clientID call.key (fun _ => True) s.direct) :
    s.direct.verdict spentKey call ≠ some (.ok .proceed) := by
  intro hproceed
  obtain ⟨p, hp, hverdict⟩ := Option.map_eq_some_iff.mp hproceed
  exact (beginAction_of_held (hsec.held _ (registry_mem hp)) (mem_univ _)
    (h.sound _ (registry_mem hp)) s.direct.disk).1 hverdict

/-- A call that proceeds secures its key. -/
theorem Inv.secured_of_proceed (h : Inv spentKey s)
    (hproceed : s.direct.verdict spentKey call = some (.ok .proceed)) (hpeek : call.peek = false)
    (hstep : s.direct.step spentKey (.begin call) = some d) :
    Secured spentKey .univ call.clientID call.key (fun _ => True) d := by
  have hsec := Secured.of_proceed h.sound (mem_univ _) hproceed hpeek hstep
  refine ⟨hsec.sound, hsec.created, fun st hst => ?_⟩
  rcases (hsec.held st hst).records with hrec | hgone
  · exact .of_records hrec
  · exact .inr hgone

theorem Inv.created_of_job (h : Inv spentKey s)
    (hp : s.direct.process = some p) (hj : s.jobs.lookup (c, k) = some j) :
    c ∈ s.direct.history.created :=
  (h.secured c k j hj).created _ (registry_mem hp)

/-- An event that does not touch a key may name its record, and no more. -/
theorem Inv.record_of_untouched (h : Inv spentKey s)
    {r' : IdemRecord} (hsec : Secured spentKey .univ c k (fun _ => True) s.direct)
    (hp : s.direct.process = some p) (he : ¬ Touches c k e)
    (hmove : RecordMove spentKey p e c k (p.registry.recordAt c k) (some r')) :
    ∃ r id verb, p.registry.recordAt c k = some r ∧
      r' = { r with creationID := id, verb := verb } := by
  generalize ho : p.registry.recordAt c k = o at hmove ⊢
  cases hmove with
  | same => exact ⟨r', r'.creationID, r'.verb, rfl, rfl⟩
  | admitted _ _ _ _ hnew => exact (h.not_admitted hsec hp hnew).elim
  | ended he' | marked he' | unmarked he' => exact (he (he' ▸ ⟨rfl, rfl⟩)).elim
  | named | unnamed => exact ⟨_, _, _, rfl, rfl⟩

variable (h : Inv spentKey s) (hd : Drives spentKey s e jobs admitted)
  (hstep : s.direct.step spentKey e = some d)
include h hd hstep

theorem Inv.minted_step : ∀ c ∈ d.history.created, '\x00' ∉ c.toList := by
  intro c hc
  rcases step_created hstep hc with hc | ⟨now, commit, rfl⟩
  · exact h.minted c hc
  cases hd with
  | aside haside =>
    intro hmem
    simp [DirectEvent.aside, GoStrings.containsRune, hmem] at haside

omit hstep in
/-- Nothing happens to a job of a process that is not there. -/
theorem Inv.process_of_job {j' : Job} (hj' : jobs.lookup (c, k) = some j') :
    ∃ p, s.direct.process = some p := by
  cases hp : s.direct.process with
  | some p => exact ⟨p, rfl⟩
  | none =>
    exfalso
    cases hd.origin hj' with
    | old hj | marked _ hj => cases (h.idle hp (c, k)).symm.trans hj
    | launched he hc hk hstamps hpeek hproceed hj' =>
      simp only [verdict, hp, Option.map_none, reduceCtorEq] at hproceed

theorem Inv.idle_step : d.process = none → ∀ x, jobs.lookup x = none := by
  rintro hnone ⟨c, k⟩
  cases hj' : jobs.lookup (c, k) with
  | none => rfl
  | some j' =>
    obtain ⟨p, hp⟩ := h.process_of_job hd hj'
    by_cases he : e = .crash
    · subst he
      cases hd with
      | crashed => cases (lookup_empty (c, k)).symm.trans hj'
      | aside haside => cases haside
    · obtain ⟨q, hq, -⟩ := step_moves hp hstep he
      cases hnone.symm.trans hq

omit h in
/-- A job that starts has the record of its admission in memory, and the disk has nothing else. -/
theorem launched_record {q : Process} (he : e = .begin call)
    (hpeek : call.peek = false) (hproceed : s.direct.verdict spentKey call = some (.ok .proceed))
    (hq : d.process = some q) :
    ∃ p, s.direct.process = some p ∧ runKey call.clientID call.key ∈ q.running ∧
      ∀ st ∈ d.contents, st.recordAt call.clientID call.key = some (admission p.boot call) := by
  subst he
  obtain ⟨p, hp, hverdict⟩ := Option.map_eq_some_iff.mp hproceed
  simp only [DirectState.step, hp] at hstep
  cases hstep
  cases hq
  obtain ⟨hdisk, g, hg, hr⟩ := beginAction_proceed hpeek hverdict
  refine ⟨p, hp, ?_, fun st hst => ?_⟩
  · rcases beginAction_running spentKey s.direct.disk call with ⟨hrunning, -⟩ | ⟨-, hpeek'⟩
    · exact hrunning ▸ mem_cons_self
    · cases hpeek.symm.trans (hpeek' hverdict)
  · rw [mem_contents_moved hdisk hst]
    exact (recordAt_of_lookup hg _).trans hr

omit h in
/-- What an event does to the keys that run: nothing, and no job ends; or it ends a job; or it starts
    one. -/
theorem Drives.running {p q : Process} (hp : s.direct.process = some p) (hq : d.process = some q) :
    (q.running = p.running ∧ ∀ y j, s.jobs.lookup y = some j → ∃ j', jobs.lookup y = some j') ∨
      (∃ c k j, s.jobs.lookup (c, k) = some j ∧ Touches c k e ∧ jobs = s.jobs.erase (c, k) ∧
        q.running = p.running.filter (fun x => x ≠ runKey c k)) ∨
      ∃ c k j, jobs = s.jobs.insert (c, k) j ∧ q.running = runKey c k :: p.running := by
  cases hd with
  | @launched call act hstamps hpeek hproceed =>
    simp only [DirectState.step, hp] at hstep
    cases hstep
    cases hq
    rcases beginAction_running spentKey s.direct.disk call with ⟨hrunning, -⟩ | ⟨hrunning, -⟩
    · exact .inr (.inr ⟨_, _, _, rfl, hrunning⟩)
    · exact .inl ⟨hrunning, fun _ _ => exists_lookup_insert⟩
  | @begun call hproceed =>
    simp only [DirectState.step, hp] at hstep
    cases hstep
    cases hq
    rcases beginAction_running spentKey s.direct.disk call with
      ⟨-, hverdict, hpeek⟩ | ⟨hrunning, -⟩
    · have := hproceed (Option.map_eq_some_iff.mpr ⟨p, hp, hverdict⟩)
      cases hpeek.symm.trans this
    · exact .inl ⟨hrunning, fun y j hj => ⟨j, hj⟩⟩
  | finished hj hsent =>
    simp only [DirectState.step, hp] at hstep
    cases hstep
    cases hq
    exact .inr (.inl ⟨_, _, _, hj, ⟨rfl, rfl⟩, rfl, updateRecord_running ..⟩)
  | marked hj hphase hasync hp' =>
    exact .inl ⟨step_running hp hstep hq trivial, fun _ _ => exists_lookup_insert⟩
  | aborted hj hphase =>
    simp only [DirectState.step, hp] at hstep
    cases hstep
    cases hq
    exact .inr (.inl ⟨_, _, _, hj, ⟨rfl, rfl⟩, rfl, abortAction_running ..⟩)
  | named => exact .inl ⟨step_running hp hstep hq trivial, fun y j hj => ⟨j, hj⟩⟩
  | crashed =>
    rw [crash_eq hp hstep] at hq
    cases hq
  | aside haside =>
    refine .inl ⟨step_running hp hstep hq ?_, fun y j hj => ⟨j, hj⟩⟩
    cases e <;> trivial

theorem Inv.running_step : ∀ q, d.process = some q → ∀ x ∈ q.running,
    ∃ c k j, x = runKey c k ∧ jobs.lookup (c, k) = some j := by
  intro q hq x hx
  cases hp : s.direct.process with
  | none =>
    rw [(load_loads hp hstep).2 q hq] at hx
    cases hx
  | some p =>
    rcases hd.running hstep hp hq with ⟨hrunning, hjobs⟩ | ⟨c₀, k₀, j₀, -, -, rfl, hrunning⟩ |
      ⟨c₀, k₀, j₀, rfl, hrunning⟩
    · obtain ⟨c, k, j, hxk, hj⟩ := h.running p hp x (hrunning ▸ hx)
      obtain ⟨j', hj'⟩ := hjobs _ _ hj
      exact ⟨c, k, j', hxk, hj'⟩
    · rw [hrunning, List.mem_filter, decide_eq_true_eq] at hx
      obtain ⟨c, k, j, rfl, hj⟩ := h.running p hp x hx.1
      refine ⟨c, k, j, rfl, lookup_erase_eq_some.mpr ⟨fun heq => ?_, hj⟩⟩
      cases heq
      exact hx.2 rfl
    · rcases mem_cons.mp (hrunning ▸ hx) with rfl | hx
      · exact ⟨_, _, _, rfl, lookup_insert _⟩
      · obtain ⟨c, k, j, rfl, hj⟩ := h.running p hp x hx
        obtain ⟨j', hj'⟩ := exists_lookup_insert hj
        exact ⟨c, k, j', rfl, hj'⟩

theorem Inv.secured_step : ∀ c k j, jobs.lookup (c, k) = some j →
    Secured spentKey .univ c k (fun _ => True) d := by
  intro c k j' hj'
  have hold : ∀ {j}, s.jobs.lookup (c, k) = some j →
      Secured spentKey .univ c k (fun _ => True) d := by
    intro j hj
    refine (h.secured c k j hj).step hstep (fun _ _ => mem_univ _) (mem_univ _) ?_
    rintro ⟨commit, he, -⟩
    obtain ⟨-, -, -, hnone⟩ := hd.aborts he
    cases hnone.symm.trans hj'
  cases hd.origin hj' with
  | old hj | marked _ hj => exact hold hj
  | launched he hc hk hstamps hpeek hproceed hj' =>
    subst he hc hk
    exact h.secured_of_proceed hproceed hpeek hstep

theorem Inv.running_kept {p q : Process} (hj : s.jobs.lookup (c, k) = some j) (he : ¬ Touches c k e)
    (hp : s.direct.process = some p) (hq : d.process = some q) : runKey c k ∈ q.running := by
  have hmem := (h.job p hp c k j hj).running
  rcases hd.running hstep hp hq with ⟨hrunning, -⟩ | ⟨c₀, k₀, j₀, hj₀, htouches, -, hrunning⟩ |
    ⟨c₀, k₀, j₀, -, hrunning⟩
  · exact hrunning ▸ hmem
  · rw [hrunning, List.mem_filter, decide_eq_true_eq]
    refine ⟨hmem, fun hkey => he ?_⟩
    obtain ⟨rfl, rfl⟩ := runKey_inj (h.minted _ (h.created_of_job hp hj))
      (h.minted _ (h.created_of_job hp hj₀)) hkey
    exact htouches
  · exact hrunning ▸ mem_cons_of_mem _ hmem

theorem Inv.job_step : ∀ q, d.process = some q → ∀ c k j, jobs.lookup (c, k) = some j →
    JobInv q c k j := by
  intro q hq c k j' hj'
  obtain ⟨p, hp⟩ := h.process_of_job hd hj'
  cases hd.origin hj' with
  | old hj he =>
    have hinv := h.job p hp c k j' hj
    refine ⟨h.running_kept hd hstep hj he hp hq, fun r' hr' => ?_, fun r' hr' hasync hphase => ?_⟩
    · obtain ⟨r, id, verb, hr, rfl⟩ :=
        h.record_of_untouched (h.secured c k j' hj) hp he (memory_move hp hstep hq hr')
      exact hinv.admitted r hr
    · obtain ⟨r, id, verb, hr, rfl⟩ :=
        h.record_of_untouched (h.secured c k j' hj) hp he (memory_move hp hstep hq hr')
      exact hinv.unmarked r hr hasync hphase
  | marked he hj hphase hasync hp' heq =>
    subst he heq
    have hinv := h.job p hp c k _ hj
    have hrecord : ∀ r', q.registry.recordAt c k = some r' →
        ∃ r at', p.registry.recordAt c k = some r ∧ r' = { r with dispatchedAt := at' } := by
      intro r' hr'
      have hmove := memory_move hp hstep hq hr'
      generalize ho : p.registry.recordAt c k = o at hmove ⊢
      cases hmove with
      | same => exact ⟨r', r'.dispatchedAt, rfl, rfl⟩
      | admitted _ he | ended he | named he | unnamed he => cases he
      | marked | unmarked => exact ⟨_, _, rfl, rfl⟩
    refine ⟨?_, fun r' hr' => ?_, fun r' hr' _ hbegun => ?_⟩
    · exact step_running hp hstep hq trivial ▸ hinv.running
    · obtain ⟨r, at', hr, rfl⟩ := hrecord r' hr'
      exact hinv.admitted r hr
    · split at hbegun <;> cases hbegun
  | launched he hc hk hstamps hpeek hproceed heq =>
    subst hc hk heq
    obtain ⟨p', hp', hrunning, hrecord⟩ := launched_record hd hstep he hpeek hproceed hq
    have hadmission := hrecord _ (registry_mem hq)
    refine ⟨hrunning, fun r hr => ?_, fun r hr _ _ => ?_⟩
    · cases hadmission.symm.trans hr
      exact ⟨(admission_state ..).1, admission_async hstamps _⟩
    · cases hadmission.symm.trans hr
      exact (admission_state ..).2

theorem Inv.sendable_step : ∀ c k j, jobs.lookup (c, k) = some j →
    j.calling = true ∨ j.phase = .sent →
    ∀ st ∈ d.contents, ∀ r, st.recordAt c k = some r → Sendable r := by
  intro c k j' hj' hphase' st' hst' r' hr'
  obtain ⟨p, hp⟩ := h.process_of_job hd hj'
  cases hd.origin hj' with
  | old hj he =>
    have hold := h.sendable c k j' hj hphase'
    cases step_origin hstep hst' hr' with
    | old hst hr => exact hold _ hst _ hr
    | settled hp' => cases hp.symm.trans hp'
    | moved hp' hmove =>
      obtain ⟨r, id, verb, hr, rfl⟩ :=
        h.record_of_untouched (h.secured c k j' hj) hp' he hmove
      have hr := hold _ (registry_mem hp') r hr
      exact ⟨hr.1, hr.2⟩
  | @marked j p' leaseEnded now commit he hj hphase hasync hp' heq =>
    cases hp.symm.trans hp'
    subst he heq
    -- the marker was committed: the disk has nothing else
    have hok : markError p c k leaseEnded commit = none := by
      cases herr : markError p c k leaseEnded commit with
      | none => rfl
      | some err => simp [Job.calling, herr] at hphase'
    obtain ⟨-, r, hr, hadmitted, hrecord, hdisk⟩ :=
      markDispatched_ok s.direct.disk now hok
    simp only [DirectState.step, hp] at hstep
    cases hstep
    cases (mem_contents_moved hdisk hst' ▸ hr').symm.trans hrecord
    refine ⟨hadmitted, ?_⟩
    have hnow : (now : Int) ≠ 0 := LT.lt.ne' now.property
    simp [undispatched, hnow]
  | @launched call act he hc hk hstamps hpeek hproceed heq =>
    subst he hc hk heq
    obtain ⟨q, hq, -⟩ := step_moves hp hstep (by simp)
    obtain ⟨p', -, -, hrecord⟩ := launched_record hd hstep rfl hpeek hproceed hq
    cases (hrecord st' hst').symm.trans hr'
    have hasync := admission_async hstamps p'.boot
    -- only a synchronous action is called at once
    have hnone : (launch call act).creation.isSome = false := by
      rcases hphase' with hcalling | hsent
      · simpa [Job.calling, launch] using hcalling
      · cases hsent
    refine ⟨(admission_state ..).1, ?_⟩
    simp [undispatched, hasync, hnone]

omit hstep in
theorem Inv.calledJob_step : ∀ c k n, .called c k n ∈ s.log → ∀ j, jobs.lookup (c, k) = some j →
    j.phase = .sent := by
  intro c k n hcalled j' hj'
  cases hd.origin hj' with
  | old hj he => exact h.calledJob c k n hcalled j' hj
  | marked he hj hphase hasync hp heq =>
    cases (h.calledJob c k n hcalled _ hj).symm.trans hphase
  | launched he hc hk hstamps hpeek hproceed heq =>
    subst hc hk
    exact (h.not_proceed (h.calledSecured _ _ n hcalled) hproceed).elim

theorem Inv.calledSecured_step : ∀ c k n, .called c k n ∈ s.log →
    Secured spentKey .univ c k (fun _ => True) d := by
  intro c k n hcalled
  refine (h.calledSecured c k n hcalled).step hstep (fun _ _ => mem_univ _) (mem_univ _) ?_
  rintro ⟨commit, he, -⟩
  obtain ⟨j, hj, hphase, -⟩ := hd.aborts he
  cases (h.calledJob c k n hcalled j hj).symm.trans hphase

theorem Inv.called_step : ∀ c k n, .called c k n ∈ s.log →
    ∀ st ∈ d.contents, ∀ r, st.recordAt c k = some r → ¬ ClaimsNotRun r := by
  intro c k n hcalled st' hst' r' hr'
  have hold := h.called c k n hcalled
  cases step_origin hstep hst' hr' with
  | old hst hr => exact hold _ hst _ hr
  | settled hp hst hr hun heq => exact (hold _ hst _ hr (.inl hun)).elim
  | moved hp hmove =>
    generalize ho : StoreState.recordAt _ c k = o at hmove
    cases hmove with
    | same => exact hold _ (registry_mem hp) _ ho
    | admitted _ _ _ _ hnew =>
      exact (h.not_admitted (h.calledSecured c k n hcalled) hp hnew).elim
    | ended he =>
      obtain ⟨j, hj, hsent⟩ := hd.ends he
      exact hsent (h.calledJob c k n hcalled j hj) _
    | marked he | unmarked he =>
      obtain ⟨-, j, hj, hphase, -⟩ := hd.marks he
      cases (h.calledJob c k n hcalled j hj).symm.trans hphase
    | named | unnamed => exact fun hclaims => hold _ (registry_mem hp) _ ho hclaims

omit hstep in
theorem Inv.counted_step : ∀ a, .answered a ∈ s.log →
    a.admissions ≤ admitted.count (a.clientID, a.key) := by
  intro a ha
  have hle := h.counted a ha
  rcases hd.admissions_cases a.clientID a.key with heq | ⟨heq, -⟩ <;> omega

omit hstep in
/-- An answer about the creation of a key that has a job is about that job, which was there. -/
theorem Inv.job_of_answer {a : Answer} (ha : .answered a ∈ s.log)
    (hsame : a.admissions = admitted.count (a.clientID, a.key)) {j' : Job}
    (hj' : jobs.lookup (a.clientID, a.key) = some j') :
    a.admissions = s.admissions a.clientID a.key ∧
      ∃ j, s.jobs.lookup (a.clientID, a.key) = some j := by
  have hle := h.counted a ha
  rcases hd.admissions_cases a.clientID a.key with heq | ⟨heq, -⟩
  · refine ⟨hsame.trans heq, ?_⟩
    cases hd with
    | launched hstamps hpeek hproceed =>
      rcases lookup_insert_eq_some.mp hj' with ⟨hkey, -⟩ | ⟨-, hj⟩
      · unfold admissions at heq
        rw [hkey, count_cons_self] at heq
        exact absurd heq (Nat.succ_ne_self _)
      · exact ⟨_, hj⟩
    | begun | named | aside => exact ⟨_, hj'⟩
    | finished | aborted => exact ⟨_, (lookup_erase_eq_some.mp hj').2⟩
    | marked hj =>
      rcases lookup_insert_eq_some.mp hj' with ⟨hkey, -⟩ | ⟨-, hj⟩
      · exact ⟨_, hkey ▸ hj⟩
      · exact ⟨_, hj⟩
    | crashed => cases (lookup_empty _).symm.trans hj'
  · omega

omit hstep in
theorem Inv.terminal_step : ∀ a, .answered a ∈ s.log →
    a.admissions = admitted.count (a.clientID, a.key) → a.stage = 3 →
    jobs.lookup (a.clientID, a.key) = none := by
  intro a ha hsame hstage
  cases hj' : jobs.lookup (a.clientID, a.key) with
  | none => rfl
  | some j' =>
    obtain ⟨hsame, j, hj⟩ := h.job_of_answer hd ha hsame hj'
    cases (h.terminal a ha hsame hstage).symm.trans hj

theorem Inv.version_step : ∀ a, .answered a ∈ s.log →
    a.admissions = admitted.count (a.clientID, a.key) →
    ∀ q r, d.process = some q → q.registry.recordAt a.clientID a.key = some r →
      a.stage ≤ stage r (decide (runKey a.clientID a.key ∈ q.running)) := by
  intro a ha hsame q r' hq hr'
  by_cases hrunning : runKey a.clientID a.key ∈ q.running
  swap
  · have hstage : stage r' (decide (runKey a.clientID a.key ∈ q.running)) = 3 := by
      simp [stage, hrunning]
    exact hstage ▸ stage_le _ _
  -- a key that runs has a job
  obtain ⟨c, k, j', hkey, hj'⟩ := h.running_step hd hstep q hq _ hrunning
  have hsound' : d.Sound univ := h.sound.step hstep fun _ _ => mem_univ _
  have hmem : q.registry ∈ d.contents := registry_mem hq
  have hcreated : a.clientID ∈ d.history.created := by
    obtain ⟨g, hg, -⟩ := Option.bind_eq_some_iff.mp hr'
    exact (hsound' _ hmem).known _ (mem_of_lookup hg)
  have hcreated' : c ∈ d.history.created :=
    (h.secured_step hd hstep c k j' hj').created _ hmem
  have hminted := h.minted_step hd hstep
  obtain ⟨rfl, rfl⟩ := runKey_inj (hminted _ hcreated) (hminted _ hcreated') hkey
  obtain ⟨hsame', j, hj⟩ := h.job_of_answer hd ha hsame hj'
  have hnot : a.stage ≤ 2 := by
    have hle := stage_le a.view.record a.view.running
    by_contra hgt
    have hstage : a.stage = 3 := by unfold Answer.stage at hgt ⊢; omega
    cases (h.terminal a ha hsame' hstage).symm.trans hj
  rw [decide_eq_true hrunning]
  obtain ⟨p, hp⟩ := h.process_of_job hd hj'
  have hver : ∀ r, p.registry.recordAt a.clientID a.key = some r → a.stage ≤ stage r true := by
    intro r hr
    have := h.version a ha hsame' p r hp hr
    rwa [decide_eq_true (h.job p hp _ _ j hj).running] at this
  have hmove := memory_move hp hstep hq hr'
  generalize ho : p.registry.recordAt a.clientID a.key = o at hmove
  cases hmove with
  | same => exact hver r' ho
  | admitted _ _ _ _ hnew => exact (h.not_admitted (h.secured _ _ j hj) hp hnew).elim
  | ended he =>
    have hstage : ∀ r : IdemRecord, r.state ≠ .admitted → stage r true = 3 := by
      intro r hr
      simp [stage, hr]
    rw [hstage _ (Ending.record_state _ _ _)]
    omega
  | marked he =>
    obtain ⟨hnow, -⟩ := hd.marks he
    refine hnot.trans ?_
    unfold stage
    simp only [hnow, and_false, if_false]
    split <;> omega
  | @unmarked r _ _ he =>
    obtain ⟨-, j₀, hj₀, hphase, hasync⟩ := hd.marks he
    have hzero := (h.job p hp _ _ j₀ hj₀).unmarked r ho hasync hphase
    have hver := hver r ho
    unfold stage at hver ⊢
    rwa [hzero] at hver
  | named | unnamed =>
    have hver := hver _ ho
    exact hver

theorem Inv.driven {t : CreationState} (ht : t = ⟨d, jobs, admitted, s.log⟩) : Inv spentKey t := by
  subst ht
  exact {
    sound := h.sound.step hstep fun _ _ => mem_univ _
    minted := h.minted_step hd hstep
    idle := h.idle_step hd hstep
    running := h.running_step hd hstep
    job := h.job_step hd hstep
    secured := h.secured_step hd hstep
    sendable := h.sendable_step hd hstep
    calledSecured := h.calledSecured_step hd hstep
    calledJob := h.calledJob_step hd
    called := h.called_step hd hstep
    counted := h.counted_step hd
    terminal := h.terminal_step hd
    version := h.version_step hd hstep
    coherent := h.coherent }

end Driven

/-! ## Calls and answers -/

theorem mem_see {x y : Entry} : x ∈ (s.see y).log ↔ x ∈ s.log ∨ x = y := by
  simp [see]

theorem Inv.sent (h : Inv spentKey s) {c k : String}
    (hj : s.jobs.lookup (c, k) = some j) (hcalling : j.calling = true) :
    Inv spentKey ((s.setJob c k { j with phase := .sent }).see (.called c k (s.admissions c k))) := by
  -- the jobs are the same but for the phase of this one
  have hjobs : ∀ {c' k' j'}, (s.jobs.insert (c, k) { j with phase := .sent }).lookup (c', k') =
      some j' → (∃ j₀, s.jobs.lookup (c', k') = some j₀ ∧ j₀.creation = j'.creation ∧
        (j' = j₀ ∨ (c' = c ∧ k' = k ∧ j'.phase = .sent))) := by
    intro c' k' j' hj'
    rcases lookup_insert_eq_some.mp hj' with ⟨heq, rfl⟩ | ⟨-, hj'⟩
    · cases heq
      exact ⟨j, hj, rfl, .inr ⟨rfl, rfl, rfl⟩⟩
    · exact ⟨j', hj', rfl, .inl rfl⟩
  have hanswered : ∀ {a : Answer}, .answered a ∈ (s.see (.called c k (s.admissions c k))).log →
      .answered a ∈ s.log := fun ha => (mem_see.mp ha).resolve_right nofun
  have hcalled : ∀ {c' k' n}, .called c' k' n ∈ (s.see (.called c k (s.admissions c k))).log →
      .called c' k' n ∈ s.log ∨ (c' = c ∧ k' = k) := fun hmem =>
    (mem_see.mp hmem).imp_right fun heq => by cases heq; exact ⟨rfl, rfl⟩
  have hsendable := h.sendable c k j hj (.inl hcalling)
  exact { h with
    idle := fun hnone => by cases (h.idle hnone (c, k)).symm.trans hj
    running := fun p hp x hx => by
      obtain ⟨c', k', j', hxk, hj'⟩ := h.running p hp x hx
      by_cases heq : (c', k') = (c, k)
      · exact ⟨c', k', { j with phase := .sent }, hxk, by rw [heq]; exact lookup_insert _⟩
      · exact ⟨c', k', j', hxk, (lookup_insert_ne heq).trans hj'⟩
    job := fun p hp c' k' j' hj' => by
      obtain ⟨j₀, hj₀, heq, hphase⟩ := hjobs hj'
      have hinv := h.job p hp c' k' j₀ hj₀
      refine ⟨hinv.running, fun r hr => heq ▸ hinv.admitted r hr, fun r hr hsome hbegun => ?_⟩
      rcases hphase with rfl | ⟨-, -, hsent⟩
      · exact hinv.unmarked r hr hsome hbegun
      · cases hsent.symm.trans hbegun
    secured := fun c' k' j' hj' => by
      obtain ⟨j₀, hj₀, -⟩ := hjobs hj'
      exact h.secured c' k' j₀ hj₀
    sendable := fun c' k' j' hj' hphase' => by
      obtain ⟨j₀, hj₀, -, rfl | ⟨rfl, rfl, -⟩⟩ := hjobs hj'
      · exact h.sendable c' k' j' hj₀ hphase'
      · exact hsendable
    calledSecured := fun c' k' n hmem => by
      rcases hcalled hmem with hmem | ⟨rfl, rfl⟩
      · exact h.calledSecured c' k' n hmem
      · exact h.secured _ _ j hj
    calledJob := fun c' k' n hmem j' hj' => by
      obtain ⟨j₀, hj₀, -, rfl | ⟨-, -, hsent⟩⟩ := hjobs hj'
      · rcases hcalled hmem with hmem | ⟨rfl, rfl⟩
        · exact h.calledJob c' k' n hmem j' hj₀
        · cases (lookup_insert _).symm.trans hj'
          rfl
      · exact hsent
    called := fun c' k' n hmem => by
      rcases hcalled hmem with hmem | ⟨rfl, rfl⟩
      · exact h.called c' k' n hmem
      · exact fun st hst r hr => (hsendable st hst r hr).not_claimsNotRun
    counted := fun a ha => h.counted a (hanswered ha)
    terminal := fun a ha hsame hstage => by
      cases hj' : (s.jobs.insert (c, k) { j with phase := .sent }).lookup (a.clientID, a.key) with
      | none => exact hj'
      | some j' =>
        obtain ⟨j₀, hj₀, -⟩ := hjobs hj'
        cases (h.terminal a (hanswered ha) hsame hstage).symm.trans hj₀
    version := fun a ha => h.version a (hanswered ha)
    coherent := by
      refine pairwise_append.mpr ⟨h.coherent, pairwise_singleton _ _,
        fun x hx => forall_mem_singleton.mpr ?_⟩
      cases x with
      | called => trivial
      | answered a =>
        -- the job would be one of a creation that was answered for good
        rintro rfl rfl hsame hnot
        cases (h.terminal a hx hsame (claimsNotRun_of_status hnot).2).symm.trans hj }

theorem Inv.answered (h : Inv spentKey s) {p : Process} {a : Answer}
    (hp : s.direct.process = some p)
    (hrecord : p.registry.recordAt a.clientID a.key = some a.view.record)
    (hrunning : a.view.running = decide (runKey a.clientID a.key ∈ p.running))
    (hadmissions : a.admissions = s.admissions a.clientID a.key) :
    Inv spentKey (s.see (.answered a)) := by
  have hmem : p.registry ∈ s.direct.contents := registry_mem hp
  have hcalled : ∀ {c k n}, .called c k n ∈ (s.see (.answered a)).log →
      .called c k n ∈ s.log := fun hmem => (mem_see.mp hmem).resolve_right nofun
  have hold : ∀ {b : Answer}, .answered b ∈ (s.see (.answered a)).log →
      .answered b ∈ s.log ∨ b = a := fun hmem =>
    (mem_see.mp hmem).imp_right fun heq => by cases heq; rfl
  exact { h with
    calledSecured := fun c k n hmem => h.calledSecured c k n (hcalled hmem)
    calledJob := fun c k n hmem => h.calledJob c k n (hcalled hmem)
    called := fun c k n hmem => h.called c k n (hcalled hmem)
    counted := fun b hb => by
      rcases hold hb with hb | rfl
      · exact h.counted b hb
      · exact hadmissions.le
    terminal := fun b hb hsame hstage => by
      rcases hold hb with hb | rfl
      · exact h.terminal b hb hsame hstage
      cases hj : s.jobs.lookup (b.clientID, b.key) with
      | none => exact hj
      | some j =>
        -- the record of a job is admitted and runs
        have hinv := h.job p hp _ _ j hj
        have hadmitted := (hinv.admitted _ hrecord).1
        unfold Answer.stage at hstage
        rw [hrunning, decide_eq_true hinv.running] at hstage
        unfold stage at hstage
        rw [if_pos ⟨hadmitted, rfl⟩] at hstage
        split at hstage <;> cases hstage
    version := fun b hb hsame q r hq hr => by
      rcases hold hb with hb | rfl
      · exact h.version b hb hsame q r hq hr
      cases hp.symm.trans hq
      cases hrecord.symm.trans hr
      exact (congrArg _ hrunning).le
    coherent := by
      refine pairwise_append.mpr ⟨h.coherent, pairwise_singleton _ _,
        fun x hx => forall_mem_singleton.mpr ?_⟩
      cases x with
      | called c k n =>
        rintro rfl rfl hnot
        exact h.called _ _ n hx _ hmem _ hrecord (claimsNotRun_of_status hnot).1
      | answered b =>
        rintro ⟨hc, hk, hsame⟩
        rw [Answer.status_version, Answer.status_version]
        have hver := h.version b hx (by rw [hsame, hadmissions, hc, hk]) p a.view.record hp
          (hc ▸ hk ▸ hrecord)
        rwa [hc, hk, ← hrunning] at hver }

theorem Inv.step (h : Inv spentKey s) {t : CreationState} {ev : CreationEvent}
    (hstep : s.step spentKey ev = some t) : Inv spentKey t := by
  cases step_steps hstep with
  | driven hdrives hdirect hlog => exact h.driven hdrives hdirect (by rw [← hlog])
  | sent hj hcalling ht => exact ht ▸ h.sent hj hcalling
  | read hp hrecord hrunning hadmissions ht =>
    exact ht ▸ h.answered hp hrecord hrunning hadmissions
  | unread ht => exact ht ▸ h

theorem inv_blank : Inv spentKey blank := by
  have hjobs : ∀ x, blank.jobs.lookup x = none := lookup_empty
  have hlog : ∀ x, x ∉ blank.log := fun _ => not_mem_nil
  have hprocess : ∀ p, blank.direct.process ≠ some p := fun p hp => by cases hp
  exact {
    sound := sound_blank
    minted := fun _ hc => absurd hc not_mem_nil
    idle := fun _ => hjobs
    running := fun p hp => absurd hp (hprocess p)
    job := fun p hp => absurd hp (hprocess p)
    secured := fun c k j hj => by cases (hjobs (c, k)).symm.trans hj
    sendable := fun c k j hj => by cases (hjobs (c, k)).symm.trans hj
    calledSecured := fun _ _ _ hmem => absurd hmem (hlog _)
    calledJob := fun _ _ _ hmem => absurd hmem (hlog _)
    called := fun _ _ _ hmem => absurd hmem (hlog _)
    counted := fun _ ha => absurd ha (hlog _)
    terminal := fun _ ha => absurd ha (hlog _)
    version := fun _ ha => absurd ha (hlog _)
    coherent := List.Pairwise.nil }

end CreationState

end AgentMultiplexer.Direct
