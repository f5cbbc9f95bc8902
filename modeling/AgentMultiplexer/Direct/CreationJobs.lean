import AgentMultiplexer.Direct.Creations
import AgentMultiplexer.Direct.RecordMoves

set_option autoImplicit false

/-! # Jobs and what their statuses say

At most one job exists for a key, and it exists exactly as long as the key runs: its record is
admitted, and an asynchronous creation is called only once its marker is in every content the disk
may have. So the version of a status only grows, and a status that says "did not run" is given only
for a creation the daemon was not called for. -/

namespace AgentMultiplexer.Direct

open DirectState Option Transition

/-! ## Statuses -/

/-- The version of a status. -/
def stage (r : IdemRecord) (running : Bool) : Nat :=
  if r.state = .admitted ∧ running then (if r.async ∧ r.dispatchedAt = 0 then 1 else 2) else 3

theorem phaseOf_version (v : CreationView) : (phaseOf v).version = stage v.record v.running := by
  unfold phaseOf stage
  grind

theorem statusOf_eq (v : CreationView) (now : Int) :
    ∃ elapsed, statusOf v now = { phaseOf v with elapsedMS := elapsed } := by
  unfold statusOf
  dsimp only
  split <;> split <;> exact ⟨_, rfl⟩

theorem statusOf_version (v : CreationView) (now : Int) :
    (statusOf v now).version = stage v.record v.running := by
  obtain ⟨elapsed, h⟩ := statusOf_eq v now
  rw [h, ← phaseOf_version]

theorem stage_le (r : IdemRecord) (running : Bool) : stage r running ≤ 3 := by
  unfold stage
  grind

/-- The record says, once it is not running, that the action did not run. -/
def ClaimsNotRun (r : IdemRecord) : Prop :=
  undispatched r = true ∨ (r.state = .done ∧ r.ok = false ∧ r.code ∈ notSentCodes)

theorem claimsNotRun_of_status {current : GoMap String SessionIdentity} {v : CreationView}
    {now : Int} (h : (writeCreation current v now).NotRun) :
    ClaimsNotRun v.record ∧ stage v.record v.running = 3 := by
  obtain ⟨elapsed, hst⟩ := statusOf_eq v now
  have hphase : (phaseOf v).phase = .failed ∧ (phaseOf v).code ∈ notSentCodes := by
    unfold writeCreation CreationStatus.NotRun at h
    dsimp only at h
    rw [hst] at h
    split at h
    · next hready =>
      -- the codes of the identity check prove nothing
      split at h
      · exact h
      · exact absurd h.2 (show codeCreatedTargetUnavailable ∉ notSentCodes by decide)
      · exact absurd h.2 (show codeCreatedIdentityUnverifiable ∉ notSentCodes by decide)
    · exact h
  rw [← phaseOf_version]
  unfold phaseOf at hphase ⊢
  unfold ClaimsNotRun undispatched
  dsimp only at hphase ⊢
  split_ifs at hphase ⊢ with h₁ h₂ h₃ h₄ h₅
  · exact absurd hphase.1 (by decide)
  · exact absurd hphase.1 (by decide)
  · exact ⟨.inl (by simp [h₃]), rfl⟩
  · exact absurd hphase.1 (by decide)
  · exact ⟨.inr ⟨h₅.1, by simpa using h₅.2.1, hphase.2⟩, rfl⟩
  · exact absurd hphase.2 (show codeIdemAmbiguous ∉ notSentCodes by decide)

/-! ## Records -/

theorem Ending.record_eq (ending : Ending) (now : Int) (r : IdemRecord) :
    ∃ endedAt, ending.record now r = { ending.set r with endedAt := endedAt } := by
  unfold Ending.record
  dsimp only
  split <;> exact ⟨_, rfl⟩

theorem Ending.record_state (ending : Ending) (now : Int) (r : IdemRecord) :
    (ending.record now r).state ≠ .admitted := by
  obtain ⟨endedAt, h⟩ := ending.record_eq now r
  rw [h]
  cases ending <;> exact nofun

/-- What is recorded of a call that sent the action does not say that it did not run. -/
theorem settle_not_claimsNotRun {result : CallResult} (hsent : result.sent = true)
    (act : DirectAction) (now : Int) (r : IdemRecord) :
    ¬ ClaimsNotRun ((settle act result).record now r) := by
  rintro (h | ⟨hdone, hok, hcode⟩)
  · simp only [undispatched, Bool.and_eq_true, decide_eq_true_eq] at h
    exact (settle act result).record_state now r h.1.1
  obtain ⟨endedAt, h⟩ := (settle act result).record_eq now r
  rw [h] at hdone hok hcode
  cases result with
  | ok ident =>
    have hknown : (settle act (.ok ident)).set r = { r with state := .unknown } ∨
        ((settle act (.ok ident)).set r).ok = true := by
      unfold settle
      cases act with
      | control affected => exact .inr rfl
      | addAgent | newWorkgroup =>
        dsimp only
        split
        · exact .inr rfl
        · exact .inl rfl
    rcases hknown with hunknown | htrue
    · rw [hunknown] at hdone
      cases hdone
    · cases htrue.symm.trans hok
  | rejected => exact absurd hcode (show codeRejected ∉ notSentCodes by decide)
  | lost => cases hdone
  | upgradeRequired => cases hsent
  | unavailable => cases hsent

/-- The record of an action that goes to the daemon: its status would be an unknown outcome. -/
def Sendable (r : IdemRecord) : Prop := r.state = .admitted ∧ undispatched r = false

theorem Sendable.not_claimsNotRun {r : IdemRecord} (h : Sendable r) : ¬ ClaimsNotRun r := by
  rintro (hun | ⟨hdone, -⟩)
  · cases h.2.symm.trans hun
  · cases h.1.symm.trans hdone

theorem runKey_inj {c c' k k' : String} (hc : '\x00' ∉ c.toList) (hc' : '\x00' ∉ c'.toList)
    (h : runKey c k = runKey c' k') : c = c' ∧ k = k' := by
  have hlist : c.toList ++ '\x00' :: k.toList = c'.toList ++ '\x00' :: k'.toList := by
    have := congrArg String.toList h
    simpa [runKey, String.toList_append] using this
  obtain ⟨hcs, hks⟩ := GoStrings.append_sep_inj hc hc' hlist
  exact ⟨String.toList_inj.mp hcs, String.toList_inj.mp hks⟩

/-- **A marker that is set** is all the disk has. -/
theorem markDispatched_ok {p : Process} {clientID key : String} {leaseEnded : Bool}
    {commit : Commit} (disk : List StoreState) (now : Int)
    (h : markError p clientID key leaseEnded commit = none) :
    commit = .ok ∧ ∃ r, p.registry.recordAt clientID key = some r ∧ r.state = .admitted ∧
      (markDispatched p disk clientID key leaseEnded now commit).1.registry.recordAt clientID key =
        some { r with dispatchedAt := now } ∧
      (markDispatched p disk clientID key leaseEnded now commit).2 =
        [(markDispatched p disk clientID key leaseEnded now commit).1.registry] := by
  revert h
  fun_cases markError with
  | case7 hlease g hg hlive r hr hadmitted hdegraded =>
    intro _
    have hrec : p.registry.recordAt clientID key = some r :=
      (recordAt_of_lookup hg key).trans hr
    have hmark : markDispatched p disk clientID key leaseEnded now .ok =
        updateRecord p disk clientID key (fun r => { r with dispatchedAt := now })
          (fun r => { r with dispatchedAt := 0 }) .ok := by
      simp only [markDispatched, hg, hr]
      rw [if_neg]
      rintro (h | h | h | h)
      · exact hlease h
      · exact hlive h
      · exact hadmitted h
      · exact hdegraded h
    refine ⟨rfl, r, hrec, not_not.mp hadmitted, ?_, ?_⟩
    · obtain ⟨g', hg', hupdate⟩ := updateRecord_of_some disk
        (fun r => { r with dispatchedAt := now })
        (fun r => { r with dispatchedAt := 0 }) .ok hrec
      rw [hmark, hupdate]
      exact (recordAt_replace hg' _ clientID key).trans (if_pos ⟨rfl, rfl⟩)
    · rw [hmark]
      exact updateRecord_ok disk _ _ hrec
  | _ => rintro ⟨⟩

/-! ## What the server does -/

/-- No admission, creation id, dispatch marker, outcome or settlement of a record is left uncertain
    on the disk. -/
def DirectEvent.durable : DirectEvent → Bool
  | .begin call => call.commit ≠ .ambiguous
  | .ensureCreationID _ _ _ _ outcome => outcome ≠ .ambiguous
  | .finish _ _ _ _ outcome => outcome ≠ .ambiguous
  | .markDispatched _ _ _ _ outcome => outcome ≠ .ambiguous
  | .load _ _ _ settle _ _ => settle ≠ .ambiguous
  | _ => true

def CreationEvent.durable : CreationEvent → Bool
  | .begin call _ => call.commit ≠ .ambiguous
  | .ensureCreationID _ _ _ _ outcome => outcome ≠ .ambiguous
  | .refuse _ _ _ _ outcome => outcome ≠ .ambiguous
  | .mark _ _ _ _ outcome => outcome ≠ .ambiguous
  | .settle _ _ _ _ outcome => outcome ≠ .ambiguous
  | .other e => e.durable
  | _ => true

namespace CreationState

/-- The authority performs `e` for the server in state `s`, and the jobs and the admitted keys become
    `jobs` and `admitted`. -/
inductive Drives (spentKey : String → String) (s : CreationState) :
    DirectEvent → GoMap (String × String) Job → List (String × String) → Prop
  /-- A call that proceeds starts a job. -/
  | launched {call : BeginCall} {act : DirectAction} (hstamps : stamps call act = true)
      (hpeek : call.peek = false)
      (hproceed : s.direct.verdict spentKey call = some (.ok .proceed)) :
      Drives spentKey s (.begin call)
        (s.jobs.insert (call.clientID, call.key) (launch call act))
        ((call.clientID, call.key) :: s.admitted)
  | begun {call : BeginCall}
      (hproceed : s.direct.verdict spentKey call = some (.ok .proceed) → call.peek = true) :
      Drives spentKey s (.begin call) s.jobs s.admitted
  | finished {c k : String} {j : Job} {ending : Ending} {now : Int} {commit : Commit}
      (hj : s.jobs.lookup (c, k) = some j)
      (hsent : j.phase = .sent → ∀ r, ¬ ClaimsNotRun (ending.record now r)) :
      Drives spentKey s (.finish c k ending now commit) (s.jobs.erase (c, k)) s.admitted
  | marked {c k : String} {j : Job} {p : Process} {leaseEnded : Bool} {now : Instant}
      {commit : Commit} (hj : s.jobs.lookup (c, k) = some j) (hphase : j.phase = .begun)
      (hasync : j.creation.isSome = true) (hp : s.direct.process = some p) :
      Drives spentKey s (.markDispatched c k leaseEnded now commit)
        (s.jobs.insert (c, k)
          { j with
            phase := match markError p c k leaseEnded commit with
              | none => .dispatching
              | some err => .unmarked err }) s.admitted
  | aborted {c k : String} {j : Job} {commit : Commit} (hj : s.jobs.lookup (c, k) = some j)
      (hphase : j.phase = .begun) :
      Drives spentKey s (.abort c k commit) (s.jobs.erase (c, k)) s.admitted
  | named {c k creationID verb : String} {commit : Commit} :
      Drives spentKey s (.ensureCreationID c k creationID verb commit) s.jobs s.admitted
  | crashed : Drives spentKey s .crash ∅ s.admitted
  | aside {e : DirectEvent} (haside : e.aside = true) : Drives spentKey s e s.jobs s.admitted

inductive Steps (spentKey : String → String) (s : CreationState) (ev : CreationEvent)
    (t : CreationState) : Prop
  | driven {e : DirectEvent} (hdrives : Drives spentKey s e t.jobs t.admitted)
      (hstep : s.direct.step spentKey e = some t.direct) (hlog : t.log = s.log)
      (hdurable : ev.durable = true → e.durable = true)
      (habort : ∀ c k commit, e = .abort c k commit → ev = .abort c k commit)
  | sent {c k : String} {j : Job} (hj : s.jobs.lookup (c, k) = some j)
      (hcalling : j.calling = true)
      (ht : t = (s.setJob c k { j with phase := .sent }).see (.called c k (s.admissions c k)))
  | read {p : Process} {a : Answer} (hp : s.direct.process = some p)
      (hrecord : p.registry.recordAt a.clientID a.key = some a.view.record)
      (hrunning : a.view.running = decide (runKey a.clientID a.key ∈ p.running))
      (hadmissions : a.admissions = s.admissions a.clientID a.key) (ht : t = s.see (.answered a))
  | unread (ht : t = s)

variable {spentKey : String → String} {s t : CreationState} {ev : CreationEvent}

theorem perform_eq_some {e : DirectEvent} (h : s.perform spentKey e = some t) :
    ∃ direct, s.direct.step spentKey e = some direct ∧ t = { s with direct := direct } := by
  obtain ⟨direct, hdirect, rfl⟩ := map_eq_some_iff.mp h
  exact ⟨direct, hdirect, rfl⟩

theorem map_perform_eq_some {e : DirectEvent} {f : CreationState → CreationState}
    (h : (s.perform spentKey e).map f = some t) :
    ∃ direct, s.direct.step spentKey e = some direct ∧ t = f { s with direct := direct } := by
  obtain ⟨t', ht', rfl⟩ := map_eq_some_iff.mp h
  obtain ⟨direct, hstep, rfl⟩ := perform_eq_some ht'
  exact ⟨direct, hstep, rfl⟩

theorem answer_steps {p : Process} {c k : String} {now : Int}
    {current : GoMap String SessionIdentity} {view : Option CreationView}
    (hp : s.direct.process = some p)
    (hview : ∀ v, view = some v → p.registry.recordAt c k = some v.record ∧
      v.running = decide (runKey c k ∈ p.running)) :
    Steps spentKey s ev (s.answer c k now current view) := by
  cases view with
  | none => exact .unread rfl
  | some v =>
    obtain ⟨hrecord, hrunning⟩ := hview v rfl
    exact .read (a := ⟨c, k, s.admissions c k, v, now, current⟩) hp hrecord hrunning rfl rfl

theorem step_steps (h : s.step spentKey ev = some t) : Steps spentKey s ev t := by
  cases ev with
  | begin call act =>
    simp only [step] at h
    split_ifs at h with hstamps hproceed
    · obtain ⟨direct, hstep, rfl⟩ := map_perform_eq_some h
      exact .driven (.launched hstamps (by simpa using hproceed.2) hproceed.1) hstep rfl id (by simp)
    · obtain ⟨direct, hstep, rfl⟩ := map_perform_eq_some h
      refine .driven (.begun fun hverdict => ?_) hstep rfl id (by simp)
      by_contra hpeek
      exact hproceed ⟨hverdict, hpeek⟩
  | refuse c k why now commit =>
    obtain ⟨j, hj, h⟩ := bind_eq_some_iff.mp h
    split_ifs at h with hrefusable
    obtain ⟨direct, hstep, rfl⟩ := map_perform_eq_some h
    refine .driven (.finished hj fun hsent => ?_) hstep rfl id (by simp)
    simp [Job.refusable, hsent] at hrefusable
  | mark c k leaseEnded now commit =>
    obtain ⟨j, hj, h⟩ := bind_eq_some_iff.mp h
    split_ifs at h with hready
    obtain ⟨p, hp, h⟩ := bind_eq_some_iff.mp h
    obtain ⟨direct, hstep, rfl⟩ := map_perform_eq_some h
    exact .driven (.marked hj hready.1 hready.2 hp) hstep rfl id (by simp)
  | send c k =>
    obtain ⟨j, hj, h⟩ := bind_eq_some_iff.mp h
    split_ifs at h with hcalling
    exact .sent hj hcalling (some.inj h).symm
  | settle c k result now commit =>
    obtain ⟨j, hj, h⟩ := bind_eq_some_iff.mp h
    split_ifs at h with hresult
    obtain ⟨direct, hstep, rfl⟩ := map_perform_eq_some h
    refine .driven (.finished hj fun hsent => ?_) hstep rfl id (by simp)
    rcases hresult with ⟨hcalling, -⟩ | ⟨-, hsent⟩
    · simp [Job.calling, hsent] at hcalling
    · exact settle_not_claimsNotRun hsent j.act now
  | abort c k commit =>
    obtain ⟨j, hj, h⟩ := bind_eq_some_iff.mp h
    split_ifs at h with hready
    obtain ⟨direct, hstep, rfl⟩ := map_perform_eq_some h
    exact .driven (.aborted hj hready.1) hstep rfl (fun _ => rfl) (by rintro _ _ _ ⟨⟩; rfl)
  | ensureCreationID c k creationID verb commit =>
    obtain ⟨direct, hstep, rfl⟩ := perform_eq_some h
    exact .driven .named hstep rfl id (by simp)
  | readKey c k now current =>
    obtain ⟨p, hp, rfl⟩ := map_eq_some_iff.mp h
    refine answer_steps hp fun v hv => ?_
    obtain ⟨g, hg, hv⟩ := bind_eq_some_iff.mp hv
    obtain ⟨r, hr, rfl⟩ := map_eq_some_iff.mp hv
    exact ⟨(recordAt_of_lookup hg k).trans hr, rfl⟩
  | readID c id k now current =>
    obtain ⟨p, hp, rfl⟩ := map_eq_some_iff.mp h
    refine answer_steps hp fun v hv => ?_
    revert hv
    fun_cases creation with
    | case5 g hg _ r hr =>
      rintro ⟨⟩
      exact ⟨(recordAt_of_lookup hg k).trans hr, rfl⟩
    | _ => rintro ⟨⟩
  | crash =>
    obtain ⟨direct, hstep, rfl⟩ := map_perform_eq_some h
    exact .driven .crashed hstep rfl (fun _ => rfl) (by simp)
  | other e =>
    simp only [step] at h
    split_ifs at h with haside
    obtain ⟨direct, hstep, rfl⟩ := perform_eq_some h
    refine .driven (.aside haside) hstep rfl id fun c k commit he => ?_
    subst he
    cases haside

end CreationState

end AgentMultiplexer.Direct
