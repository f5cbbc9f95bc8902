import AgentMultiplexer.Access.Policy

set_option autoImplicit false

/-! # Policy confinement

What a nil error of `Authorize` says about a session principal's request, for every resolver: each
branch of the decision that returns nil is read back as the facts it checked. The rules with a
narrowing of their own (`allowSteer`, `allowArchive`, `allowAddAgent`) are reached only through
their verbs, so the facts are stated per verb. -/

namespace AgentMultiplexer.Access

variable {ρ τ : Type}

/-! ## What a session sees of a snapshot -/

/-- Whether the subject may see the row with this id. -/
def visible (r : Resolver) (subject : Resource) (id : String) : Bool :=
  match r.lookup id with
  | .ok (some target) => inWorkgroupScope subject target
  | _ => false

variable {r : Resolver} {subject : Resource}

/-- The loop keeps the visible rows, in order, blanked. -/
theorem filterSessions_eq {rows kept : List (Session ρ)}
    (h : filterSessions r subject rows = .ok kept) :
    kept = (rows.filter fun s => visible r subject s.id).map .blanked := by
  induction rows generalizing kept with
  | nil =>
    cases h
    rfl
  | cons s rest ih =>
    unfold filterSessions at h
    split at h
    · cases h
    next found hfound =>
    split at h
    · cases h
    next kept' hrest =>
    have hvis : visible r subject s.id = found.any (inWorkgroupScope subject) := by
      cases found <;> simp [visible, hfound]
    cases h
    rw [List.filter_cons, hvis, ih hrest]
    split <;> rfl

/-! ## Confinement -/

/-- The request of a subject that is not the console stays in its own scope: `target` is the row
    the request is for. An agent is added to the subject's own row, which is a coordinator's; where
    the resolver files every row under its own id, that is the subject's role. -/
structure Confined (r : Resolver) (subject : Resource) (req : Request) (target : Resource) :
    Prop where
  exists_target : lookupTarget r subject req = .ok (some target)
  own : target.id = subject.id ∨ subject.role = .coordinator ∧ target.rootID = subject.id
  live : req.route = .action → target.archived = false
  noOwnPermission : req.verb = actionSteer → req.field steerVerb = steerPermission →
    target.id ≠ subject.id
  noOwnForce : req.verb = actionSetArchived → req.field "force" = "true" → target.id ≠ subject.id
  addAgent : req.verb = actionAddAgent → target.id = subject.id ∧ target.role = .coordinator ∧
    ((∀ id row, r.lookup id = .ok (some row) → row.id = id) → subject.role = .coordinator) ∧
    (∀ key ∈ req.fields.keys, key ∈ addAgentFields) ∧
    ∀ repo ∈ splitList (req.field "repos"), r.repoGranted subject.id repo = .ok true

theorem inWorkgroupScope_own {subject target : Resource} (hrole : subject.role ≠ .console)
    (h : inWorkgroupScope subject target = true) :
    target.id = subject.id ∨ subject.role = .coordinator ∧ target.rootID = subject.id := by
  unfold inWorkgroupScope at h
  split at h
  · next hc => exact absurd hc hrole
  · next hc =>
    rw [Bool.or_eq_true, decide_eq_true_eq, decide_eq_true_eq] at h
    exact h.imp_right fun hroot => ⟨hc, hroot⟩
  · exact .inl (of_decide_eq_true h)
  · exact .inl (of_decide_eq_true h)
  · cases h

theorem checkGrants_ok {repos : List String} (h : checkGrants r subject repos = .ok ()) :
    ∀ repo ∈ repos, r.repoGranted subject.id repo = .ok true := by
  induction repos with
  | nil => simp
  | cons repo rest ih =>
    unfold checkGrants at h
    split at h
    · cases h
    · cases h
    next hgranted => exact List.forall_mem_cons.mpr ⟨hgranted, ih h⟩

variable {req : Request}

theorem authorizeAddAgent_ok (h : authorizeAddAgent r subject req = .ok ()) :
    (∀ key ∈ req.fields.keys, key ∈ addAgentFields) ∧
      ∀ repo ∈ splitList (req.field "repos"), r.repoGranted subject.id repo = .ok true := by
  unfold authorizeAddAgent at h
  split_ifs at h with hfields
  refine ⟨fun key hkey => ?_, checkGrants_ok h⟩
  by_contra hno
  exact hfields (List.any_eq_true.mpr ⟨key, hkey, by simpa using hno⟩)

variable {rule : Rule}

/-- A workgroup rule lets a subject that is not the console act within its scope only, and only as
    the rule's own narrowing allows. -/
theorem authorizeWorkgroup_ok
    (hrole : subject.role ≠ .console) (h : authorizeWorkgroup r subject rule req = .ok ()) :
    ∃ target, lookupTarget r subject req = .ok (some target) ∧
      inWorkgroupScope subject target = true ∧ (req.route = .action → target.archived = false) ∧
      (∀ allow, rule.allow = some allow → allow req (target.id = subject.id) target = true) ∧
      (req.verb = actionAddAgent → authorizeAddAgent r subject req = .ok ()) := by
  unfold authorizeWorkgroup at h
  split at h
  · cases h
  split at h
  · cases h
  · cases h
  next target htarget =>
  rw [if_neg fun hc => hrole hc.1] at h
  split at h
  · cases h
  next hscope =>
  split at h
  · cases h
  next hlive =>
  split at h
  · cases h
  next hallow =>
  refine ⟨target, htarget, by simpa using hscope, ?_, ?_, ?_⟩
  · intro hroute
    by_contra harch
    exact hlive ⟨hroute, by simpa using harch⟩
  · intro allow hsome
    rw [hsome] at hallow
    simpa using hallow
  · intro hverb
    rwa [if_pos ⟨hverb, hrole⟩] at h

/-- The three verbs with a narrowing of their own are classified as actions, once. -/
theorem ruleFor_narrowed {route : Route} :
    (ruleFor route actionSteer = some rule → rule.allow = some allowSteer) ∧
    (ruleFor route actionSetArchived = some rule → rule.allow = some allowArchive) ∧
    (ruleFor route actionAddAgent = some rule → rule.allow = some allowAddAgent) := by
  refine ⟨?_, ?_, ?_⟩ <;>
  · intro h
    cases route <;> cases h
    rfl

theorem confined_of_workgroup
    (hrule : ruleFor req.route req.verb = some rule) (hrole : subject.role ≠ .console)
    (h : authorizeWorkgroup r subject rule req = .ok ()) :
    ∃ target, Confined r subject req target := by
  obtain ⟨target, htarget, hscope, hlive, hallow, hadd⟩ := authorizeWorkgroup_ok hrole h
  refine ⟨target, htarget, inWorkgroupScope_own hrole hscope, hlive, ?_, ?_, ?_⟩
  · intro hverb hperm
    have hsteer := hallow _ (ruleFor_narrowed.1 (hverb ▸ hrule))
    unfold allowSteer at hsteer
    rw [hperm, if_neg (by decide), if_pos rfl, Bool.and_eq_true, Bool.and_eq_true] at hsteer
    simpa using hsteer.1.1
  · intro hverb hforce hself
    have harchive := hallow _ (ruleFor_narrowed.2.1 (hverb ▸ hrule))
    unfold allowArchive at harchive
    split at harchive
    · cases harchive
    simp [hforce, hself] at harchive
  intro hverb
  have hown := hallow _ (ruleFor_narrowed.2.2 (hverb ▸ hrule))
  simp only [allowAddAgent, Bool.and_eq_true, decide_eq_true_eq] at hown
  refine ⟨hown.1, hown.2, fun hfiled => ?_, authorizeAddAgent_ok (hadd hverb)⟩
  rw [lookupTarget] at htarget
  split at htarget
  · cases htarget
    exact hown.2
  · next hother => exact absurd ((hfiled _ _ htarget).symm.trans hown.1) hother

/-- **Policy confinement.** A request of a session principal that `Authorize` lets through is
    classified, and its subject exists, is not archived and has a known role. Unless the subject is
    the console, the request is session-scoped or filtered, opens a workgroup in exactly the repo
    home's own repository, or is confined to a target of the subject's own. What `FilterSnapshot`
    returns to a session principal is the rows in its scope, blanked. -/
theorem authorize_confined (resolver : Option Resolver) (p : Principal)
    (hkind : p.kind = .session) :
    (∀ req, authorize resolver p req = .ok () →
      ∃ r rule subject, resolver = some r ∧ ruleFor req.route req.verb = some rule ∧
        r.lookup p.subjectID = .ok (some subject) ∧ subject.archived = false ∧
        knownRole subject.role = true ∧
        (subject.role ≠ .console →
          rule.scope = .session ∨ rule.scope = .filtered ∨
          (subject.role = .repo ∧ req.verb = actionNewWorkgroup ∧
            splitList (req.field "repos") = [subject.repo]) ∨
          ∃ target, Confined r subject req target)) ∧
    ∀ (snap out : Snapshot ρ τ), filterSnapshot resolver p snap = .ok out →
      ∃ r subject, resolver = some r ∧ r.lookup p.subjectID = .ok (some subject) ∧
        subject.archived = false ∧ out.rest = snap.rest ∧
        out.sessions =
          (snap.sessions.filter fun s => visible r subject s.id).map Session.blanked := by
  refine ⟨?_, ?_⟩
  · intro req h
    simp only [authorize, hkind] at h
    cases resolver with
    | none => cases h
    | some r =>
      simp only [authorizeSession] at h
      split at h
      · cases h
      next rule hrule =>
      split at h
      · cases h
      · cases h
      next subject hsubject =>
      split at h
      · cases h
      next hlive =>
      simp only [Bool.or_eq_true, Bool.not_eq_true', not_or, Bool.not_eq_true,
        Bool.not_eq_false] at hlive
      refine ⟨r, rule, subject, rfl, hrule, hsubject, hlive.1, hlive.2, fun hrole => ?_⟩
      split at h
      · next hscope => exact .inl hscope
      · next hscope => exact .inr (.inl hscope)
      · rw [if_neg fun hc => hrole hc.1] at h
        split_ifs at h with hopen
        obtain ⟨hrepo, hverb, -, hrepos⟩ := hopen
        exact .inr (.inr (.inl ⟨hrepo, hverb, of_decide_eq_true hrepos⟩))
      · exact .inr (.inr (.inr (confined_of_workgroup hrule hrole h)))
  · intro snap out h
    simp only [filterSnapshot, hkind] at h
    cases resolver with
    | none => cases h
    | some r =>
      dsimp only at h
      split at h
      · cases h
      · cases h
      next subject hsubject =>
      split_ifs at h with hlive
      cases hkept : filterSessions r subject snap.sessions with
      | error err =>
        rw [hkept] at h
        cases h
      | ok kept =>
        rw [hkept] at h
        cases h
        exact ⟨r, subject, rfl, hsubject, by simpa using hlive, rfl, filterSessions_eq hkept⟩

/-- A coordinator with one member, and no other row. -/
def sampleResolver : Resolver where
  lookup id :=
    if id = "c1" then .ok (some ⟨"c1", "", .coordinator, "", false⟩)
    else if id = "a1" then .ok (some ⟨"a1", "c1", .agent, "", false⟩)
    else .ok none
  repoGranted _ repo := .ok (repo = "amux")
  providerAllows _ _ := .ok false

/-- The coordinator answers a permission prompt of its member. -/
def sampleRequest : Request where
  route := .action
  verb := actionSteer
  id := "a1"
  fields := ((AList.insert "runtime_generation" "g1" ∅).insert "request_id" "r1").insert "verb"
    "permission"

theorem authorize_confined_sample :
    authorize (some sampleResolver) ⟨"k", "c1", .session, 1⟩ sampleRequest = .ok () ∧
      ∃ r rule subject, some sampleResolver = some r ∧
        ruleFor sampleRequest.route sampleRequest.verb = some rule ∧
        r.lookup "c1" = .ok (some subject) ∧ subject.archived = false ∧
        knownRole subject.role = true ∧
        (subject.role ≠ .console →
          rule.scope = .session ∨ rule.scope = .filtered ∨
          (subject.role = .repo ∧ sampleRequest.verb = actionNewWorkgroup ∧
            splitList (sampleRequest.field "repos") = [subject.repo]) ∨
          ∃ target, Confined r subject sampleRequest target) := by
  have hauth : authorize (some sampleResolver) ⟨"k", "c1", .session, 1⟩ sampleRequest = .ok () := by
    rfl
  have hconfined := authorize_confined (ρ := Unit) (τ := Unit) (some sampleResolver)
    ⟨"k", "c1", .session, 1⟩ rfl
  exact ⟨hauth, hconfined.1 sampleRequest hauth⟩

end AgentMultiplexer.Access
