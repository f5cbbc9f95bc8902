import AgentMultiplexer.Direct.CreationRuns

set_option autoImplicit false

/-! # The status of a creation is truthful

The version of a status never decreases, and "did not run" is said only of a creation the daemon was
not called for, whatever the commits do. A terminal status stays what it is as long as no admission,
creation id, dispatch marker and outcome of a record is left uncertain on the disk: then every
content has the same record of a creation. An outcome whose commit is uncertain is answered all the
same, and a crash may bring back the record without it. -/

namespace AgentMultiplexer.Direct

open Transition DirectState List

/-! ## Terminal statuses -/

theorem phaseOf_elapsedMS (v : CreationView) : (phaseOf v).elapsedMS = 0 := by
  unfold phaseOf
  dsimp only
  split_ifs <;> rfl

theorem statusOf_core (v : CreationView) (now : Int) : (statusOf v now).core = phaseOf v := by
  obtain ⟨elapsed, h⟩ := statusOf_eq v now
  rw [h]
  have hzero := phaseOf_elapsedMS v
  unfold CreationStatus.core
  cases hst : phaseOf v
  simp_all

/-- A terminal status does not depend on whether the action runs. -/
theorem phaseOf_of_stage {v : CreationView} (h : stage v.record v.running = 3) :
    phaseOf v = phaseOf ⟨v.record, false⟩ := by
  have hrun : ¬ (v.record.state = .admitted ∧ v.running = true) := by
    intro hrun
    unfold stage at h
    rw [if_pos hrun] at h
    split at h <;> cases h
  have hqueued : ¬ (v.record.state = .admitted ∧ v.running = true ∧ v.record.async = true ∧
      v.record.dispatchedAt = 0) := fun hq => hrun ⟨hq.1, hq.2.1⟩
  unfold phaseOf
  rw [if_neg hqueued, if_neg hrun]
  simp only [Bool.false_eq_true, false_and, and_false, if_false]

/-- A ready creation was found as it was created. -/
def Answer.Confirmed (a : Answer) : Prop :=
  (statusOf a.view a.now).phase = .ready → verifyCreated a.current a.view.record = .verified

theorem Answer.status_of_confirmed {a : Answer} (h : a.Confirmed) :
    a.status = statusOf a.view a.now := by
  unfold Answer.status writeCreation
  dsimp only
  split
  · next hready => rw [h hready]
  · rfl

/-- A terminal status of a creation does not change: nothing but the elapsed time does, and that not
    either once the outcome and its time are recorded. -/
def Entry.Unchanged : Entry → Entry → Prop
  | .answered a, .answered b =>
    a.SameCreation b → a.creationID ≠ "" → a.status.version = 3 → a.Confirmed → b.Confirmed →
      b.status.core = a.status.core ∧
        (a.view.record.state ≠ .admitted → a.view.record.endedAt ≠ 0 → b.status = a.status)
  | _, _ => True

/-! ## The disk agrees -/

namespace CreationState

variable {spentKey : String → String} {s t : CreationState}

/-- The record of a terminal answer, or its settlement by a later start. -/
def SettledAs (r₀ r : IdemRecord) : Prop :=
  r = r₀ ∨ (undispatched r₀ = true ∧ ∃ now, r = settleUndispatched now r₀)

structure AgreeInv (s : CreationState) : Prop where
  /-- Every content has the same record of a key, once it has a creation id. -/
  agree : ∀ st ∈ s.direct.contents, ∀ st' ∈ s.direct.contents, ∀ c k r r',
    st.recordAt c k = some r → st'.recordAt c k = some r' → r.creationID ≠ "" → r' = r
  recorded : ∀ st ∈ s.direct.contents, ∀ c k r, st.recordAt c k = some r → (c, k) ∈ s.admitted
  admitted : ∀ a, .answered a ∈ s.log → a.admissions ≠ 0
  answers : ∀ a, .answered a ∈ s.log → a.admissions = s.admissions a.clientID a.key →
    a.creationID ≠ "" → a.stage = 3 → ∀ st ∈ s.direct.contents, ∀ r,
      st.recordAt a.clientID a.key = some r → SettledAs a.view.record r
  unchanged : s.log.Pairwise Entry.Unchanged

section Driven

variable {e : DirectEvent} {jobs : GoMap (String × String) Job}
  {admitted : List (String × String)} {d : DirectState}

theorem finish_ok {c k : String} {ending : Ending} {now : Int} {p q : Process} {r : IdemRecord}
    (hp : s.direct.process = some p) (hr : p.registry.recordAt c k = some r)
    (hstep : s.direct.step spentKey (.finish c k ending now .ok) = some d)
    (hq : d.process = some q) {st : StoreState} (hst : st ∈ d.contents) : st = q.registry := by
  simp only [DirectState.step, hp] at hstep
  cases hstep
  cases hq
  have hdisk : (endAction p s.direct.disk c k ending now .ok).2 =
      [(endAction p s.direct.disk c k ending now .ok).1.registry] := by
    unfold endAction
    exact updateRecord_ok _ _ _ hr
  exact mem_contents_moved hdisk hst

/-- A change that is refused leaves the registry; one that is durable is all the disk has. -/
theorem moved_ok {p q : Process} {next : Process × List StoreState}
    (hnext : next.1.registry = p.registry ∨ next.2 = [next.1.registry])
    (hd : s.direct.moved next = d) (hq : d.process = some q) :
    q.registry = p.registry ∨ ∀ st ∈ d.contents, st = q.registry := by
  subst hd
  cases hq
  exact hnext.imp_right fun hdisk st hst => mem_contents_moved hdisk hst

theorem mark_ok {c k : String} {leaseEnded : Bool} {now : Int} {p q : Process}
    (hp : s.direct.process = some p)
    (hstep : s.direct.step spentKey (.markDispatched c k leaseEnded now .ok) = some d)
    (hq : d.process = some q) : q.registry = p.registry ∨ ∀ st ∈ d.contents, st = q.registry := by
  simp only [DirectState.step, hp] at hstep
  refine moved_ok ?_ (Option.some.inj hstep) hq
  fun_cases markDispatched with
  | case4 g hg r hr => exact .inr (updateRecord_ok _ _ _ ((recordAt_of_lookup hg k).trans hr))
  | _ => exact .inl rfl

theorem ensure_ok {c k creationID verb : String} {p q : Process} (hp : s.direct.process = some p)
    (hstep : s.direct.step spentKey (.ensureCreationID c k creationID verb .ok) = some d)
    (hq : d.process = some q) : q.registry = p.registry ∨ ∀ st ∈ d.contents, st = q.registry := by
  simp only [DirectState.step, hp] at hstep
  refine moved_ok ?_ (Option.some.inj hstep) hq
  fun_cases Direct.ensureCreationID with
  | case4 g hg r hr => exact .inr (updateRecord_ok _ _ _ ((recordAt_of_lookup hg k).trans hr))
  | _ => exact .inl rfl

theorem commit_ok {commit : Commit} (hne : commit ≠ .notCommitted)
    (hdurable : decide (commit ≠ .ambiguous) = true) : commit = .ok := by
  cases commit with
  | ok => rfl
  | notCommitted => exact absurd rfl hne
  | ambiguous => cases hdurable

variable (h : Inv spentKey s) (ha : AgreeInv s) (hd : Drives spentKey s e jobs admitted)
  (hstep : s.direct.step spentKey e = some d) (hdurable : e.durable = true)
include h ha hd hstep hdurable

omit h ha in
/-- A durable admission is the one record of its key, and counts. -/
theorem Drives.admission {p q : Process} {call : BeginCall} (hp : s.direct.process = some p)
    (hq : d.process = some q) (he : e = .begin call)
    (hsure : call.commit ≠ .ambiguous → Proceeds spentKey p call) :
    admitted = (call.clientID, call.key) :: s.admitted ∧
      ∀ st ∈ d.contents, st.recordAt call.clientID call.key = some (Direct.admission p.boot call) := by
  subst he
  obtain ⟨hpeek, hproceed⟩ := hsure (of_decide_eq_true hdurable)
  have hverdict : s.direct.verdict spentKey call = some (.ok .proceed) := by
    rw [verdict, hp, Option.map_some, hproceed]
  obtain ⟨p', hp', -, hrecord⟩ := launched_record hd hstep rfl hpeek hverdict hq
  cases hp.symm.trans hp'
  refine ⟨?_, hrecord⟩
  cases hd with
  | launched => rfl
  | begun hpeek' => cases hpeek.symm.trans (hpeek' hverdict)
  | aside haside => cases haside

/-- A record that the step left in memory is the one of any content that has the creation. -/
theorem AgreeInv.memory {p q : Process} {st : StoreState} {c k : String} {r r' : IdemRecord}
    (hp : s.direct.process = some p) (hq : d.process = some q) (hst : st ∈ s.direct.contents)
    (hst' : st ∈ d.contents) (hr : st.recordAt c k = some r)
    (hr' : q.registry.recordAt c k = some r') (hne : r.creationID ≠ "" ∨ r'.creationID ≠ "") :
    r' = r := by
  have hmem := Inv.registry_mem hp
  have hold : ∀ {r₀}, p.registry.recordAt c k = some r₀ → r.creationID ≠ "" ∨ r₀.creationID ≠ "" →
      r₀ = r := by
    rintro r₀ hr₀ (hne | hne)
    · exact ha.agree _ hst _ hmem c k _ _ hr hr₀ hne
    · exact (ha.agree _ hmem _ hst c k _ _ hr₀ hr hne).symm
  have hmoved : (q.registry = p.registry ∨ ∀ st ∈ d.contents, st = q.registry) → r' = r := by
    rintro (heq | hall)
    · exact hold (heq ▸ hr') hne
    · cases hall _ hst'
      exact Option.mem_unique hr' hr
  have hmove := memory_move hp hstep hq hr'
  generalize ho : p.registry.recordAt c k = o at hmove
  cases hmove with
  | same => exact hold ho hne
  | admitted _ he hc hk hnew hsure =>
    subst hc hk
    have hrecord := (hd.admission hstep hdurable hp hq he hsure).2 st hst'
    exact Option.some.inj (hrecord.symm.trans hr)
  | ended he hcommit =>
    subst he
    cases commit_ok hcommit hdurable
    exact hmoved (.inr fun _ => finish_ok hp ho hstep hq)
  | marked he hcommit =>
    subst he
    cases commit_ok hcommit hdurable
    exact hmoved (mark_ok hp hstep hq)
  | @unmarked r₀ _ _ he =>
    -- what is rolled back was not set
    obtain ⟨-, j, hj, hphase, hasync⟩ := hd.marks he
    have hzero := (h.job p hp c k j hj).unmarked r₀ ho hasync hphase
    have hsame : { r₀ with dispatchedAt := 0 } = r₀ := by rw [← hzero]
    exact hsame.trans (hold ho hne)
  | named he hr₀ hcommit =>
    subst he
    cases commit_ok hcommit hdurable
    exact hmoved (ensure_ok hp hstep hq)
  | unnamed he hr₀ =>
    -- the record of the key has no id in any content
    rcases hne with hne | hne
    · exact absurd (hold ho (.inl hne) ▸ hr₀) hne
    · exact absurd rfl hne

theorem AgreeInv.agree_step : ∀ st ∈ d.contents, ∀ st' ∈ d.contents, ∀ c k r r',
    st.recordAt c k = some r → st'.recordAt c k = some r' → r.creationID ≠ "" → r' = r := by
  intro st hst st' hst' c k r r' hr hr' hne
  have hsources : (∀ st ∈ d.contents, ∃ st₀ ∈ s.direct.contents, st.SameRecords st₀) → r' = r := by
    intro hsource
    obtain ⟨st₁, hst₁, hsame₁⟩ := hsource st hst
    obtain ⟨st₂, hst₂, hsame₂⟩ := hsource st' hst'
    exact ha.agree st₁ hst₁ st₂ hst₂ c k r r' (hsame₁ c k ▸ hr) (hsame₂ c k ▸ hr') hne
  cases hp : s.direct.process with
  | none =>
    have hdisk : ∀ {st₀}, st₀ ∈ s.direct.disk → st₀ ∈ s.direct.contents := fun h =>
      mem_contents.mpr (.inr h)
    obtain ⟨⟨st₀, hst₀, _, _, now, settle, _, _, rfl, hloads⟩, -⟩ := load_loads hp hstep
    cases hloads with
    | read hcontents =>
      refine hsources fun st hst => ?_
      rcases hcontents st hst with hmem | hsame
      · exact ⟨st, hdisk hmem, fun _ _ => rfl⟩
      · exact ⟨st₀, hdisk hst₀, hsame⟩
    | settled hsettle hcontents =>
      rw [hcontents st hst] at hr
      rw [hcontents st' hst'] at hr'
      exact Option.mem_unique hr' hr
    | failed hsettle hprocess hcontents =>
      refine hsources fun st hst => ?_
      rcases hcontents st hst with hmem | ⟨rfl, -⟩
      · exact ⟨st, hdisk hmem, fun _ _ => rfl⟩
      · cases hdurable
  | some p =>
    by_cases he : e = .crash
    · subst he
      obtain rfl := crash_eq hp hstep
      refine hsources fun st hst => ?_
      rcases mem_contents.mp hst with ⟨q, hq, -⟩ | hst
      · cases hq
      · exact ⟨st, mem_contents.mpr (.inr hst), fun _ _ => rfl⟩
    · obtain ⟨q, hq, hmoves⟩ := step_moves hp hstep he
      rcases mem_contents_of_moves hq hmoves hst with hold | hsame
      · rcases mem_contents_of_moves hq hmoves hst' with hold' | hsame'
        · exact ha.agree st hold st' hold' c k r r' hr hr' hne
        · exact ha.memory h hd hstep hdurable hp hq hold hst hr (hsame' c k ▸ hr') (.inl hne)
      · rcases mem_contents_of_moves hq hmoves hst' with hold' | hsame'
        · exact (ha.memory h hd hstep hdurable hp hq hold' hst' hr' (hsame c k ▸ hr)
            (.inr hne)).symm
        · rw [hsame c k] at hr
          rw [hsame' c k] at hr'
          exact Option.mem_unique hr' hr

omit h in
theorem AgreeInv.recorded_step : ∀ st ∈ d.contents, ∀ c k r, st.recordAt c k = some r →
    (c, k) ∈ admitted := by
  intro st' hst' c k r' hr'
  have hold : ∀ {st r}, st ∈ s.direct.contents → st.recordAt c k = some r → (c, k) ∈ admitted := by
    intro st r hst hr
    have hmem := ha.recorded st hst c k r hr
    cases hd with
    | launched => exact mem_cons_of_mem _ hmem
    | _ => exact hmem
  cases step_origin hstep hst' hr' with
  | old hst hr | settled _ hst hr => exact hold hst hr
  | @moved p hp hmove =>
    generalize ho : p.registry.recordAt c k = o at hmove
    cases hmove with
    | admitted _ he hc hk hnew hsure =>
      subst he hc hk
      obtain ⟨q, hq, -⟩ := step_moves hp hstep (by simp)
      rw [(hd.admission hstep hdurable hp hq rfl hsure).1]
      exact mem_cons_self
    | _ => exact hold (Inv.registry_mem hp) ho

theorem AgreeInv.answers_step : ∀ a, .answered a ∈ s.log →
    a.admissions = admitted.count (a.clientID, a.key) → a.creationID ≠ "" → a.stage = 3 →
    ∀ st ∈ d.contents, ∀ r, st.recordAt a.clientID a.key = some r →
      SettledAs a.view.record r := by
  intro a hans hsame hne hstage st' hst' r' hr'
  have hle := h.counted a hans
  have hsame' : a.admissions = s.admissions a.clientID a.key := by
    rcases hd.admissions_cases a.clientID a.key with heq | ⟨heq, -⟩ <;> omega
  have hold := ha.answers a hans hsame' hne hstage
  cases step_origin hstep hst' hr' with
  | old hst hr => exact hold _ hst _ hr
  | settled hp hst hr hun heq =>
    subst heq
    rcases hold _ hst _ hr with rfl | ⟨-, now, rfl⟩
    · exact .inr ⟨hun, _, rfl⟩
    · cases hun
  | @moved p hp hmove =>
    -- the key has no job
    have hnone := h.terminal a hans hsame' hstage
    have hnamed : ∀ {r}, p.registry.recordAt a.clientID a.key = some r → r.creationID ≠ "" := by
      intro r hr
      rcases hold _ (Inv.registry_mem hp) _ hr with rfl | ⟨-, now, rfl⟩ <;> exact hne
    generalize ho : p.registry.recordAt a.clientID a.key = o at hmove
    cases hmove with
    | same => exact hold _ (Inv.registry_mem hp) _ ho
    | admitted _ he hc hk hnew hsure =>
      subst he
      obtain ⟨q, hq, -⟩ := step_moves hp hstep (by simp)
      rw [(hd.admission hstep hdurable hp hq rfl hsure).1, hc, hk, count_cons_self] at hsame
      unfold admissions at hsame'
      omega
    | ended he =>
      obtain ⟨j, hj, -⟩ := hd.ends he
      cases hnone.symm.trans hj
    | marked he | unmarked he =>
      obtain ⟨-, j, hj, -⟩ := hd.marks he
      cases hnone.symm.trans hj
    | named he hr | unnamed he hr => exact absurd hr (hnamed ho)

end Driven

/-! ## Answers -/

/-- What a later answer says about a creation that was answered for good. -/
theorem SettledAs.unchanged {a b : Answer} (h : SettledAs a.view.record b.view.record)
    (hstage : a.stage = 3) (hstage' : b.stage = 3) (hconfirmed : a.Confirmed)
    (hconfirmed' : b.Confirmed) : b.status.core = a.status.core ∧
      (a.view.record.state ≠ .admitted → a.view.record.endedAt ≠ 0 → b.status = a.status) := by
  rw [Answer.status_of_confirmed hconfirmed, Answer.status_of_confirmed hconfirmed', statusOf_core,
    statusOf_core]
  have hphase := phaseOf_of_stage hstage
  have hphase' := phaseOf_of_stage hstage'
  rcases h with heq | ⟨hun, now, heq⟩
  · have hsame : phaseOf b.view = phaseOf a.view := by rw [hphase', hphase, heq]
    refine ⟨hsame, fun _ hended => ?_⟩
    have hversion : (phaseOf a.view).version = 3 := by
      rw [phaseOf_version]
      exact hstage
    unfold statusOf
    rw [hsame, heq]
    simp only [hversion, hended, ne_eq, not_false_eq_true, and_self, if_true]
  · refine ⟨?_, fun hstate => absurd ?_ hstate⟩
    · simp only [undispatched, Bool.and_eq_true, decide_eq_true_eq] at hun
      have hcode : codeUnavailable ≠ "" := by decide
      rw [hphase', hphase, heq]
      simp [phaseOf, settleUndispatched, hun.1.1, hun.1.2, hun.2, hcode]
    · simp only [undispatched, Bool.and_eq_true, decide_eq_true_eq] at hun
      exact hun.1.1

theorem AgreeInv.answered (ha : AgreeInv s) (h : Inv spentKey s) {p : Process} {a : Answer}
    (hp : s.direct.process = some p)
    (hrecord : p.registry.recordAt a.clientID a.key = some a.view.record)
    (hrunning : a.view.running = decide (runKey a.clientID a.key ∈ p.running))
    (hadmissions : a.admissions = s.admissions a.clientID a.key) :
    AgreeInv (s.see (.answered a)) := by
  have hmem : p.registry ∈ s.direct.contents := Inv.registry_mem hp
  refine ⟨ha.agree, ha.recorded, fun b hb => ?_, fun b hb hsame hne hstage st hst r hr => ?_, ?_⟩
  · rcases mem_see.mp hb with hb | heq
    · exact ha.admitted b hb
    · cases heq
      rw [hadmissions]
      exact (count_pos_iff.mpr (ha.recorded _ hmem _ _ _ hrecord)).ne'
  · rcases mem_see.mp hb with hb | heq
    · exact ha.answers b hb hsame hne hstage st hst r hr
    · cases heq
      exact .inl (ha.agree _ hmem st hst _ _ _ r hrecord hr hne)
  refine pairwise_append.mpr ⟨ha.unchanged, pairwise_singleton _ _,
    fun x hx => forall_mem_singleton.mpr ?_⟩
  cases x with
  | called => trivial
  | answered b =>
    rintro ⟨hc, hk, hsame⟩ hne hversion hconfirmed hconfirmed'
    rw [Answer.status_version] at hversion
    have hsame' : b.admissions = s.admissions b.clientID b.key := by
      rw [hsame, hadmissions, hc, hk]
    have hrecord' : p.registry.recordAt b.clientID b.key = some a.view.record := by
      rw [hc, hk]
      exact hrecord
    -- the version does not decrease
    have hstage' : a.stage = 3 := by
      have hver := h.version b hx hsame' p _ hp hrecord'
      rw [hversion, hc, hk, ← hrunning] at hver
      exact le_antisymm (stage_le _ _) hver
    exact (ha.answers b hx hsame' hne hversion _ hmem _ hrecord').unchanged hversion hstage'
      hconfirmed hconfirmed'

theorem AgreeInv.step (ha : AgreeInv s) (h : Inv spentKey s) {ev : CreationEvent}
    (hdurable : ev.durable = true) (hstep : s.step spentKey ev = some t) : AgreeInv t := by
  cases step_steps hstep with
  | driven hdrives hdirect hlog hdurable' =>
    have hsure := hdurable' hdurable
    exact {
      agree := ha.agree_step h hdrives hdirect hsure
      recorded := ha.recorded_step hdrives hdirect hsure
      admitted := fun a hans => ha.admitted a (hlog ▸ hans)
      answers := fun a hans => ha.answers_step h hdrives hdirect hsure a (hlog ▸ hans)
      unchanged := hlog ▸ ha.unchanged }
  | sent hj hcalling ht =>
    subst ht
    have hold : ∀ {a n c k}, .answered a ∈ s.log ++ [.called c k n] → .answered a ∈ s.log :=
      fun hans => (mem_append.mp hans).resolve_right (by simp)
    refine ⟨ha.agree, ha.recorded, fun a hans => ha.admitted a (hold hans),
      fun a hans => ha.answers a (hold hans), ?_⟩
    refine pairwise_append.mpr ⟨ha.unchanged, pairwise_singleton _ _,
      fun x _ => forall_mem_singleton.mpr ?_⟩
    cases x <;> trivial
  | read hp hrecord hrunning hadmissions ht =>
    exact ht ▸ ha.answered h hp hrecord hrunning hadmissions
  | unread ht => exact ht ▸ ha

theorem agreeInv_blank : AgreeInv blank := by
  have hnone : ∀ st ∈ blank.direct.contents, ∀ c k r, st.recordAt c k ≠ some r := by
    intro st hst c k r hr
    obtain rfl : st = ⟨∅⟩ := by simpa [contents, blank, DirectState.blank] using hst
    cases (StoreState.recordAt_of_none (AList.lookup_empty c) k).symm.trans hr
  exact ⟨fun st hst _ _ c k r _ hr => absurd hr (hnone st hst c k r),
    fun st hst c k r hr => absurd hr (hnone st hst c k r), fun _ hans => absurd hans not_mem_nil,
    fun _ hans => absurd hans not_mem_nil, .nil⟩

/-! ## One admission of a key -/

/-- A key whose actions are not aborted is admitted once at most, and held from then on. -/
def AdmittedOnce (spentKey : String → String) (c k : String) (s : CreationState) : Prop :=
  s.admissions c k = 0 ∨
    (s.admissions c k = 1 ∧ Secured spentKey Set.univ c k (fun _ => True) s.direct)

theorem AdmittedOnce.step {c k : String} {ev : CreationEvent} (ho : AdmittedOnce spentKey c k s)
    (h : Inv spentKey s) (habort : ∀ commit, ev ≠ .abort c k commit)
    (hstep : s.step spentKey ev = some t) : AdmittedOnce spentKey c k t := by
  cases step_steps hstep with
  | @driven e hdrives hdirect hlog hdurable haborts =>
    have hkept : Secured spentKey Set.univ c k (fun _ => True) s.direct →
        Secured spentKey Set.univ c k (fun _ => True) t.direct := fun hsec => by
      refine hsec.step hdirect (fun _ _ => Set.mem_univ _) (Set.mem_univ _) ?_
      rintro ⟨commit, he, -⟩
      exact habort commit (haborts c k commit he)
    rcases hdrives.admissions_cases c k with heq | ⟨heq, call, he, rfl, rfl, hpeek, hproceed⟩
    · exact ho.imp heq.trans fun hone => ⟨heq.trans hone.1, hkept hone.2⟩
    · rcases ho with hzero | ⟨-, hsec⟩
      · subst he
        refine .inr ⟨?_, h.secured_of_proceed hproceed hpeek hdirect⟩
        rw [admissions, heq, hzero]
      · exact (h.not_proceed hsec hproceed).elim
  | sent hj hcalling ht | read _ _ _ _ ht | unread ht => exact ht ▸ ho

/-- **The status of a creation.** Over every run, with any commit outcomes, crashes, starts and
    readings between any two steps: the version of a creation's status never decreases, and a status
    that says the creation did not run is given only if the daemon was not called for it, and it is
    not called later. In a run in which no admission, creation id, dispatch marker, outcome or
    settlement of a record is left uncertain on the disk, a terminal status never changes while the
    created session exists as created: nothing but the elapsed time does, and that not either once
    the outcome and its time are recorded. All answers about a key are then about one creation,
    unless an action of the key was aborted. -/
theorem creation_status_truthful {es : List CreationEvent}
    (hexec : exec (CreationState.step spentKey) blank es = some t) :
    t.log.Pairwise Entry.Coherent ∧
      ((∀ ev ∈ es, ev.durable = true) → t.log.Pairwise Entry.Unchanged ∧
        ∀ a, .answered a ∈ t.log → (∀ commit, .abort a.clientID a.key commit ∉ es) →
          a.admissions = 1) := by
  have hinv : Inv spentKey t := exec_invariant _ (fun _ _ _ h hstep => h.step hstep) inv_blank hexec
  refine ⟨hinv.coherent, fun hdurable => ?_⟩
  have hagree : Inv spentKey t ∧ AgreeInv t :=
    exec_invariant_along (fun _ ev => ev.durable = true) (fun s => Inv spentKey s ∧ AgreeInv s)
      (fun _ _ _ h hdurable hstep => ⟨h.1.step hstep, h.2.step h.1 hdurable hstep⟩)
      ⟨inv_blank, agreeInv_blank⟩ (.of_forall hdurable) hexec
  refine ⟨hagree.2.unchanged, fun a hans habort => ?_⟩
  have hkept : ∀ ev ∈ es, ∀ commit, ev ≠ .abort a.clientID a.key commit :=
    fun ev hev commit heq => habort commit (heq ▸ hev)
  have honce : Inv spentKey t ∧ AdmittedOnce spentKey a.clientID a.key t :=
    exec_invariant_along (fun _ ev => ∀ commit, ev ≠ .abort a.clientID a.key commit)
      (fun s => Inv spentKey s ∧ AdmittedOnce spentKey a.clientID a.key s)
      (fun _ _ _ h hne hstep => ⟨h.1.step hstep, h.2.step h.1 hne hstep⟩) ⟨inv_blank, .inl rfl⟩
      (.of_forall hkept) hexec
  have hne := hagree.2.admitted a hans
  have hle := hinv.counted a hans
  rcases honce.2 with hzero | ⟨hone, -⟩ <;> omega

/-! ## Runs -/

/-- An asynchronous `new-workgroup` of the key `k`. -/
def sampleCreation : CreationEvent :=
  .begin ⟨"c_1", "k", "body", false, some ("crt_1", "new-workgroup", true), false, 10, [], .ok⟩
    .newWorkgroup

/-- The daemon creates the session `w1`, and how the outcome is committed. -/
def sampleSettle (commit : Commit) : CreationEvent :=
  .settle "c_1" "k" (.ok ⟨"w1", "i1", "w1", "i1"⟩) 20 commit

/-- The key is read, while the session `w1` exists. -/
def sampleRead (now : Int) : CreationEvent :=
  .readKey "c_1" "k" now ((∅ : GoMap String SessionIdentity).insert "w1" ⟨"i1", ""⟩)

/-- A client is enrolled and its creation sent; the outcome is committed and read, and the server
    crashes and starts again from the content at this position. -/
def createAndRestart (commit : Commit) (content : Nat) : List CreationEvent :=
  [.other (.load 0 "boot1" 1 .ok false .ok), .other (.redeem "c_1" 2 .ok), sampleCreation,
    .mark "c_1" "k" false ⟨12, by decide⟩ .ok, .send "c_1" "k", sampleSettle commit, sampleRead 30,
    .crash, .other (.load content "boot2" 40 .ok false .ok), sampleRead 50]

/-- The statuses that were answered. -/
def statuses (s : CreationState) : List CreationStatus :=
  s.log.filterMap fun
    | .answered a => some a.status
    | .called .. => none

theorem creation_status_truthful_restart :
    ∃ t, exec (CreationState.step id) blank (createAndRestart .ok 0) = some t ∧
      (statuses t).map CreationStatus.phase = [.ready, .ready] ∧
      t.log.Pairwise Entry.Coherent ∧ t.log.Pairwise Entry.Unchanged ∧
      ∀ a, .answered a ∈ t.log → (∀ commit, .abort a.clientID a.key commit ∉ createAndRestart .ok 0) →
        a.admissions = 1 := by
  refine reaches_imp (P := fun t => (statuses t).map CreationStatus.phase = [.ready, .ready])
    (by decide +kernel) fun t ht hphases => ?_
  obtain ⟨hcoherent, hunchanged⟩ := creation_status_truthful ht
  exact ⟨hphases, hcoherent, hunchanged (by decide)⟩

/-- Two statuses of one creation: it is ready, and then its outcome is unknown. -/
def turnsUncertain : List CreationStatus → Bool
  | [a, b] => a.creationID = b.creationID ∧ a.version = 3 ∧ a.phase = .ready ∧
      b.version = 3 ∧ b.phase = .failed ∧ b.code = codeIdemAmbiguous ∧ b.uncertain = true
  | _ => false

/-- **A terminal status changes** when the commit of the outcome is uncertain: the client reads that
    its creation is ready, and after a crash that brings back what was on the disk before, that its
    outcome is unknown. -/
theorem uncertain_outcome_unsettles_ready :
    ∃ t a b, exec (CreationState.step id) blank (createAndRestart .ambiguous 1) = some t ∧
      statuses t = [a, b] ∧ a.creationID = b.creationID ∧ a.version = 3 ∧ a.phase = .ready ∧
      b.version = 3 ∧ b.phase = .failed ∧ b.code = codeIdemAmbiguous ∧ b.uncertain = true := by
  have hrun : (exec (CreationState.step id) blank (createAndRestart .ambiguous 1)).any (fun t =>
      turnsUncertain (statuses t)) = true := by
    decide +kernel
  obtain ⟨t, ht, hstatuses⟩ := (Option.any_eq_true _ _).mp hrun
  rw [turnsUncertain.eq_def] at hstatuses
  split at hstatuses
  next a b heq => exact ⟨t, a, b, ht, heq, of_decide_eq_true hstatuses⟩
  next => cases hstatuses

/-! ## Ahead of the daemon -/

/-- **The disk is ahead of the daemon.** Once the daemon was called for a key, no record of the key
    that is in memory, or that a crash may bring back, says that the action did not run. -/
theorem called_not_forgotten {es : List CreationEvent} {c k : String} {n : Nat}
    (hexec : exec (CreationState.step spentKey) blank es = some t)
    (hcalled : .called c k n ∈ t.log) :
    ∀ st ∈ t.direct.contents, ∀ r, st.recordAt c k = some r → ¬ ClaimsNotRun r := by
  have hinv : Inv spentKey t := exec_invariant _ (fun _ _ _ h hstep => h.step hstep) inv_blank hexec
  exact hinv.called c k n hcalled

theorem called_not_forgotten_restart :
    ∃ t, exec (CreationState.step id) blank (createAndRestart .ok 0) = some t ∧
      ∀ st ∈ t.direct.contents, ∀ r, st.recordAt "c_1" "k" = some r → ¬ ClaimsNotRun r := by
  have hlog : (exec (CreationState.step id) blank (createAndRestart .ok 0)).map (·.log.head?) =
      some (some (.called "c_1" "k" 1)) := by rfl
  obtain ⟨t, ht, hhead⟩ := Option.map_eq_some_iff.mp hlog
  exact ⟨t, ht, called_not_forgotten ht (mem_of_mem_head? hhead)⟩

end CreationState

end AgentMultiplexer.Direct
