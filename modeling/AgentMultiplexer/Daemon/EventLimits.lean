import Mathlib.Data.List.MinMax
import AgentMultiplexer.Daemon.EventRepeats
import AgentMultiplexer.Theory.Totals

set_option autoImplicit false

/-! # The limits of the cursor cache

Numbers and sizes of entries are totals over the cache, so they do not grow when entries go or are
used again (`total_le_total`). What a commit writes beside that is for subjects whose limits it then
enforces, and enforcing ends within the limits. An entry goes while a limit is exceeded, and then it
is the least recently used one; among entries used at one reading of the clock it may be the
successor that was just admitted. -/

namespace AgentMultiplexer.Daemon.EventPager

open GoMap List Option Transition

section Limits

variable {δ β : Type} {lim : Limits} {dec : PageDecoder δ β} {enc : Encoding}
  {m m' : GoMap Token (Cursor δ)} {subject : String} {subjects : List String} {now : Int}
  {token : Token} {c : Cursor δ}

/-! ## Totals -/

/-- The entry was in the map, used at another time. -/
def Cursor.Was (c : Cursor δ) (m : GoMap Token (Cursor δ)) (token : Token) : Prop :=
  ∃ c₀, m.lookup token = some c₀ ∧ c.Touched c₀

theorem Within.was (h : Within m m') (hc : m.lookup token = some c) : c.Was m' token :=
  ⟨c, h token c hc, .refl c⟩

/-- Entries that were there before are no more and no larger than they were. -/
theorem over_of_was {n b : Nat} (h : ∀ token c, m.lookup token = some c → c.Was m' token)
    (hover : (decide (n < m'.len) || decide (b < total Cursor.bytes m')) = false) :
    (decide (n < m.len) || decide (b < total Cursor.bytes m)) = false := by
  have hle {f : Cursor δ → Nat} (hf : ∀ c time, f { c with lastUsed := time } = f c) :
      total f m ≤ total f m' := by
    refine total_le_total fun token c hc => ?_
    obtain ⟨c₀, hold, time, rfl⟩ := h token c hc
    exact ⟨c₀, hold, (hf c₀ time).le⟩
  have hcount := hle (f := fun _ => 1) fun _ _ => rfl
  have hbytes := hle (f := Cursor.bytes) fun _ _ => rfl
  rw [← len_eq_total, ← len_eq_total] at hcount
  simp only [Bool.or_eq_false_iff, decide_eq_false_iff_not, not_lt] at hover ⊢
  exact ⟨hcount.trans hover.1, hbytes.trans hover.2⟩

theorem subjectOver_eq (m : GoMap Token (Cursor δ)) (subject : String) :
    subjectOver lim m subject =
      (decide (lim.cursorPerSubject < (m.filter fun _ c => c.subject = subject).len) ||
        decide (lim.cursorSubjectBytes < total Cursor.bytes
          (m.filter fun _ c => c.subject = subject))) := by
  rw [subjectOver, entriesOf, List.filter_map, length_map, List.map_map]
  rfl

theorem subjectOver_of_was
    (h : ∀ token c, m.lookup token = some c → c.subject = subject → c.Was m' token)
    (hover : subjectOver lim m' subject = false) : subjectOver lim m subject = false := by
  rw [subjectOver_eq] at hover ⊢
  refine over_of_was (fun token c hc => ?_) hover
  obtain ⟨hc, hsubject⟩ := lookup_filter_eq_some.mp hc
  obtain ⟨c₀, hold, time, rfl⟩ := h token c hc (of_decide_eq_true hsubject)
  exact ⟨c₀, lookup_filter_eq_some.mpr ⟨hold, hsubject⟩, time, rfl⟩

theorem overLimits_of_was (h : ∀ token c, m.lookup token = some c → c.Was m' token)
    (hover : overLimits lim m' subject = false) : overLimits lim m subject = false := by
  rw [overLimits, Bool.or_assoc, Bool.or_eq_false_iff] at hover ⊢
  exact ⟨subjectOver_of_was (fun token c hc _ => h token c hc) hover.1, over_of_was h hover.2⟩

/-! ## Evicting -/

/-- Every entry is under its own token. -/
def Named (m : GoMap Token (Cursor δ)) : Prop :=
  ∀ token c, m.lookup token = some c → c.token = some token

theorem Named.within (h : Named m') (hm : Within m m') : Named m :=
  fun token c hc => h token c (hm token c hc)

variable (lim) in
/-- The entries one of which goes. -/
def candidates (m : GoMap Token (Cursor δ)) (subject : String) : List (Cursor δ) :=
  if subjectOver lim m subject then entriesOf m subject else m.entries.map fun e => e.2

theorem mem_candidates : c ∈ candidates lim m subject ↔ (∃ token, m.lookup token = some c) ∧
    (subjectOver lim m subject = true → c.subject = subject) := by
  rw [candidates]
  split
  next hsubject => simp [entriesOf, ← mem_entries_iff, hsubject]
  next hsubject => simp [← mem_entries_iff, hsubject]

variable (lim) in
/-- A limit is exceeded while the entry is there, and no candidate was used before it. -/
structure Cursor.Least (c : Cursor δ) (subject : String) (m : GoMap Token (Cursor δ)) : Prop where
  exceeds : overLimits lim m subject = true
  candidate : c ∈ candidates lim m subject
  least : ∀ c' ∈ candidates lim m subject, c.lastUsed ≤ c'.lastUsed

variable (lim) in
/-- **Why an entry goes** while the limits of some subjects are enforced and `kept` is left of `m`:
    in what was still there of `m`, it was least recently used while a limit was exceeded. -/
def Cursor.Evicted (c : Cursor δ) (token : Token) (subjects : List String)
    (m kept : GoMap Token (Cursor δ)) : Prop :=
  ∃ subject ∈ subjects, ∃ left, Within kept left ∧ Within left m ∧ left.lookup token = some c ∧
    c.Least lim subject left

theorem Cursor.Evicted.mono {subjects' : List String} {left kept : GoMap Token (Cursor δ)}
    (h : c.Evicted lim token subjects m' left) (hsubjects : subjects ⊆ subjects')
    (hm : Within m' m) (hkept : Within kept left) : c.Evicted lim token subjects' m kept := by
  obtain ⟨subject, hsubject, there, hleft, hthere, hc, hleast⟩ := h
  exact ⟨subject, hsubjects hsubject, there, hkept.trans hleft, hthere.trans hm, hc, hleast⟩

/-- **Over the limits there is an entry to evict**, the least recently used one. -/
theorem oldest_least (hover : overLimits lim m subject = true) :
    ∃ token c, oldest lim m subject = some c ∧ m.lookup token = some c ∧
      c.Least lim subject m := by
  have hargmin : oldest lim m subject = argmin Cursor.lastUsed (candidates lim m subject) := by
    rw [oldest, argmin, ← candidates]
    congr 1
    funext best entry
    cases best with
    | none => rfl
    | some b =>
      simp only [argAux, Option.elim_some]
      split <;> rfl
  rw [hargmin]
  cases hc : argmin Cursor.lastUsed (candidates lim m subject) with
  | none =>
    rw [argmin_eq_none, candidates] at hc
    split at hc
    next hsubject => simp [subjectOver, hc] at hsubject
    next hsubject => simp_all [overLimits, GoMap.len]
  | some c =>
    obtain ⟨⟨token, htoken⟩, -⟩ := mem_candidates.mp (argmin_mem hc)
    exact ⟨token, c, rfl, htoken, hover, argmin_mem hc, fun c' hc' => le_of_mem_argmin hc' hc⟩

variable (lim) in
/-- **Evicting** ends within the limits, and what goes is least recently used. -/
theorem evict_spec (subject : String) (fuel : Nat) (hnamed : Named m) (hfuel : m.len ≤ fuel) :
    overLimits lim (evict lim subject fuel m) subject = false ∧
      ∀ token c, m.lookup token = some c → (evict lim subject fuel m).lookup token = none →
        c.Evicted lim token [subject] m (evict lim subject fuel m) := by
  induction fuel generalizing m with
  | zero =>
    have hnil : m.entries = [] := length_eq_zero_iff.mp (Nat.le_zero.mp hfuel)
    refine ⟨by simp [evict, overLimits, subjectOver, entriesOf, GoMap.len, hnil], ?_⟩
    intro token c hc hgone
    cases hc.symm.trans hgone
  | succ fuel ih =>
    rw [evict]
    split
    next hover =>
      obtain ⟨token, c, holdest, hc, hleast⟩ := oldest_least hover
      have hone := total_erase_add (f := fun _ => 1) hc
      rw [← len_eq_total, ← len_eq_total] at hone
      have herase := erase_within m token
      obtain ⟨hends, hrest⟩ := ih (hnamed.within herase) (by omega)
      rw [holdest, bind_some, hnamed token c hc]
      refine ⟨hends, fun token' c' hc' hgone => ?_⟩
      by_cases heq : token' = token
      · subst heq
        cases hc.symm.trans hc'
        exact ⟨subject, mem_cons_self, m, (evict_within _ _ _).trans herase, .refl m, hc, hleast⟩
      · refine (hrest token' c' ?_ hgone).mono (Subset.refl _) herase (.refl _)
        rw [lookup_erase_ite, if_neg heq, hc']
    next hover =>
      refine ⟨Bool.eq_false_of_not_eq_true hover, fun token c hc hgone => ?_⟩
      cases hc.symm.trans hgone

variable (lim) in
theorem enforceLimits_spec (now : Int) (subjects : List String) (hnamed : Named m) :
    (∀ subject ∈ subjects,
      overLimits lim (subjects.foldl (enforceLimits lim now) m) subject = false) ∧
    ∀ token c, m.lookup token = some c →
      (subjects.foldl (enforceLimits lim now) m).lookup token = none →
      c.expired lim now = true ∨
        c.Evicted lim token subjects m (subjects.foldl (enforceLimits lim now) m) := by
  induction subjects generalizing m with
  | nil => exact ⟨by simp, fun token c hc hgone => by cases hc.symm.trans hgone⟩
  | cons first subjects ih =>
    have hfirst : Within (enforceLimits lim now m first) m := enforceLimits_within now [first] m
    have hlater : Within (subjects.foldl (enforceLimits lim now) (enforceLimits lim now m first))
      (enforceLimits lim now m first) := enforceLimits_within now subjects _
    obtain ⟨hends, hevicted⟩ := evict_spec lim first m.len
      (hnamed.within (expire_within m now)) (length_filter_le _ _)
    obtain ⟨hrest, hgoes⟩ := ih (hnamed.within hfirst)
    refine ⟨forall_mem_cons.mpr ⟨?_, hrest⟩, fun token c hc hgone => ?_⟩
    · exact overLimits_of_was (fun token c hc => hlater.was hc) hends
    cases hfresh : c.expired lim now with
    | true => exact .inl rfl
    | false =>
      cases hheld : (enforceLimits lim now m first).lookup token with
      | none =>
        have hgoes := hevicted token c (expire_lookup hc hfresh) hheld
        exact .inr (hgoes.mono (by simp) (expire_within m now) hlater)
      | some c' =>
        cases hc.symm.trans (hfirst token c' hheld)
        refine hfresh ▸ (hgoes token c hheld hgone).imp_right fun hgoes => ?_
        exact hgoes.mono (subset_cons_self _ _) hfirst (.refl _)

/-! ## What a commit writes -/

variable (lim dec enc) in
/-- **Entries expire, are used again, or are written** with their size for a listed subject. -/
structure Edits (now : Int) (subjects : List String) (m m' : GoMap Token (Cursor δ)) : Prop where
  entry : ∀ token c, m'.lookup token = some c →
    c.Was m token ∨ (c.subject ∈ subjects ∧ c.bytes = c.memoryBytes dec enc)
  gone : ∀ token c, m.lookup token = some c → m'.lookup token = none → c.expired lim now = true

theorem Edits.refl (m : GoMap Token (Cursor δ)) : Edits lim dec enc now subjects m m :=
  ⟨fun _ _ hc => .inl ((Within.refl m).was hc), fun _ _ hc hgone => by cases hc.symm.trans hgone⟩

theorem Edits.expire (m : GoMap Token (Cursor δ)) :
    Edits lim dec enc now subjects m (expire lim m now) := by
  refine ⟨fun _ _ hc => .inl ((expire_within m now).was hc), fun token c hc hgone => ?_⟩
  cases hfresh : c.expired lim now with
  | true => rfl
  | false => cases (expire_lookup hc hfresh).symm.trans hgone

theorem Edits.insert (h : Edits lim dec enc now subjects m m')
    (hc : c.Was m' token ∨ (c.subject ∈ subjects ∧ c.bytes = c.memoryBytes dec enc)) :
    Edits lim dec enc now subjects m (m'.insert token c) := by
  refine ⟨forall_insert ?_ h.entry, fun token' c' hc' hgone => h.gone token' c' hc' ?_⟩
  · rcases hc with ⟨c₀, hold, time, rfl⟩ | hc
    on_goal 2 => exact .inr hc
    refine (h.entry _ c₀ hold).imp_left ?_
    rintro ⟨c₁, hc₁, time', rfl⟩
    exact ⟨c₁, hc₁, time, rfl⟩
  · rw [lookup_insert_ite] at hgone
    split_ifs at hgone
    exact hgone

theorem Edits.place (h : Edits lim dec enc now subjects m m') {next : Cursor δ}
    (hsubjects : (place lim dec enc m' next now).2 ⊆ subjects) :
    Edits lim dec enc now subjects m (place lim dec enc m' next now).1 := by
  revert hsubjects
  rw [EventPager.place]
  split
  next => exact fun _ => h
  split
  next => exact fun _ => h
  split
  next old hold => exact fun _ => h.insert (.inl ⟨old, hold, now, rfl⟩)
  next => exact fun hsubjects => h.insert (.inr ⟨hsubjects mem_cons_self, rfl⟩)

theorem Settles.edits {p : Pager δ} {a : Attempt δ} {settled : Settled δ}
    (h : Settles lim dec enc p a now settled) :
    Edits lim dec enc now settled.subjects p.entries settled.entries := by
  cases h with
  | refused hkept =>
    rcases hkept with rfl | rfl
    · exact .refl _
    · exact .expire _
  | started => exact (Edits.expire _).place (Subset.refl _)
  | cached _ _ _ hentry | unmoved _ _ _ hentry =>
    exact (Edits.expire _).insert (.inl ⟨_, hentry, now, rfl⟩)
  | moved _ _ _ _ _ _ _ _ hbytes =>
    exact ((Edits.expire _).insert (.inr ⟨by simp, hbytes⟩)).place (by simp)

variable (dec enc) in
/-- Every entry has the size that is recorded. -/
def Measured (m : GoMap Token (Cursor δ)) : Prop :=
  ∀ token c, m.lookup token = some c → c.bytes = c.memoryBytes dec enc

theorem Edits.enforced (h : Edits lim dec enc now subjects m m') (hnamed : Named m')
    (hlimits : ∀ subject, overLimits lim m subject = false) (hm : Measured dec enc m) :
    (∀ subject, overLimits lim (subjects.foldl (enforceLimits lim now) m') subject = false) ∧
      Measured dec enc (subjects.foldl (enforceLimits lim now) m') := by
  obtain ⟨hends, -⟩ := enforceLimits_spec lim now subjects hnamed
  have hwithin : Within (subjects.foldl (enforceLimits lim now) m') m' :=
    enforceLimits_within now subjects m'
  have hentry token c hc := h.entry token c (hwithin token c hc)
  refine ⟨fun subject => ?_, fun token c hc => ?_⟩
  · by_cases hsubject : subject ∈ subjects
    · exact hends subject hsubject
    have hover := hlimits subject
    cases subjects with
    | nil =>
      refine overLimits_of_was (fun token c hc => ?_) hover
      exact (hentry token c hc).resolve_right (by simp)
    | cons first rest =>
      have hfirst := hends first mem_cons_self
      rw [overLimits, Bool.or_assoc, Bool.or_eq_false_iff] at hfirst hover ⊢
      refine ⟨subjectOver_of_was (fun token c hc heq => ?_) hover.1, hfirst.2⟩
      exact (hentry token c hc).resolve_right fun hin => hsubject (heq ▸ hin.1)
  · rcases hentry token c hc with ⟨c₀, hold, time, rfl⟩ | hnew
    · exact hm token c₀ hold
    · exact hnew.2

/-! ## The successor -/

/-- Placing a cursor that is not too large: its token stands for the entry that is there, or else for
    the cursor, used now. -/
theorem place_stands {next : Cursor δ} (htoken : next.token = some token)
    (hsize : next.memoryBytes dec enc ≤ lim.cursorSubjectBytes) {d : Cursor δ}
    (hd : (m.lookup token).or (some next) = some d) :
    ∃ e, (place lim dec enc m next now).1.lookup token = some e ∧ e.sources = d.sources ∧
      e.lastUsed = now := by
  rw [place]
  simp only [htoken, Nat.not_lt_of_le hsize, if_false]
  cases hlook : m.lookup token with
  | some | none =>
    rw [hlook] at hd
    cases hd
    exact ⟨_, AList.lookup_insert _, rfl, rfl⟩

/-- Limits are enforced only after the successor was admitted at the commit's reading of the clock. -/
theorem Settles.successor {p : Pager δ} {a : Attempt δ} {settled : Settled δ}
    (h : Settles lim dec enc p a now settled) {next : Cursor δ} (hnext : a.successor = some next)
    (htoken : next.token = some token)
    (hsize : next.memoryBytes dec enc ≤ lim.cursorSubjectBytes) :
    settled.subjects = [] ∨ ∃ e, settled.entries.lookup token = some e ∧ e.lastUsed = now := by
  have hplaced (m : GoMap Token (Cursor δ)) :
      ∃ e, (place lim dec enc m next now).1.lookup token = some e ∧ e.lastUsed = now := by
    obtain ⟨d, hd⟩ : ∃ d, (m.lookup token).or (some next) = some d := by
      cases m.lookup token <;> exact ⟨_, rfl⟩
    obtain ⟨e, he, -, hused⟩ := place_stands htoken hsize hd
    exact ⟨e, he, hused⟩
  cases h with
  | refused | cached | unmoved => exact .inl rfl
  | started _ _ hsucc | moved _ _ _ _ _ hsucc =>
    cases hnext.symm.trans hsucc
    exact .inr (hplaced _)

theorem Prepares.sized {p : Pager δ} {req : Request β} {set : SourceSet β} {a : Attempt δ}
    (h : Prepares lim dec enc p req set a) {next : Cursor δ} (hnext : a.successor = some next) :
    next.memoryBytes dec enc ≤ lim.cursorSubjectBytes := by
  have hcomputed {c c' : Cursor δ} {page : Page}
      (hcompute : computePage lim dec enc req.poll c set = .ok (page, c')) :
      c'.memoryBytes dec enc ≤ lim.cursorSubjectBytes := by
    obtain ⟨-, -, -, y, -, hreturns⟩ := computePage_returns hcompute
    rw [← hreturns.bytes.1]
    exact hreturns.bytes.2
  cases h with
  | started _ _ hcompute | computed _ _ _ _ _ _ hcompute =>
    cases hnext
    exact hcomputed hcompute
  | cached => cases hnext

theorem PagerState.sized_run {s : PagerState δ β} {es : List (PagerEvent β)}
    (hrun : exec (PagerState.step lim dec enc) .initial es = some s) :
    s.Successors fun next => next.memoryBytes dec enc ≤ lim.cursorSubjectBytes :=
  exec_invariant _ (fun _ _ _ h hstep => Successors.step h
      (fun _ _ _ _ _ _ hprepares hnext => hprepares.sized hnext) hstep)
    (fun _ _ _ _ h => by simp [PagerState.initial] at h) hrun

/-! ## Runs -/

variable (lim dec enc) in
/-- The cache is within its limits, with the recorded sizes. -/
structure PagerState.Limited (s : PagerState δ β) : Prop where
  inv : s.Inv
  within : ∀ subject, overLimits lim s.pager.entries subject = false
  measured : Measured dec enc s.pager.entries

variable {s s' : PagerState δ β} {id : Nat} {req : Request β} {a : Attempt δ}

theorem PagerState.Inv.settle_named (h : s.Inv) (ha : s.attempts.lookup id = some (req, a))
    (now : Int) (cancelled : Bool) :
    Named (s.pager.settle lim dec enc a now cancelled).entries := by
  obtain ⟨moved, horigin, -⟩ :=
    commit_origin (s.pager.settle_settles lim dec enc a now cancelled) (.refl _)
  exact fun token c hc => (h.origin_stored ha (horigin token c hc)).named

theorem PagerState.Limited.commit (h : s.Limited lim dec enc)
    (ha : s.attempts.lookup id = some (req, a)) (now : Int) (cancelled : Bool) :
    (s.commit lim dec enc id a now cancelled).Limited lim dec enc := by
  obtain ⟨hwithin, hmeasured⟩ := (s.pager.settle_settles lim dec enc a now cancelled).edits.enforced
    (h.inv.settle_named ha now cancelled) h.within h.measured
  exact ⟨h.inv.commit ha now cancelled, hwithin, hmeasured⟩

theorem PagerState.Limited.step {e : PagerEvent β} (h : s.Limited lim dec enc)
    (hstep : s.step lim dec enc e = some s') : s'.Limited lim dec enc := by
  rcases step_entries hstep with ⟨hwithin, -⟩ | ⟨id, now, cancelled, req, a, -, ha, rfl⟩
  · refine ⟨h.inv.step hstep, fun subject => ?_, fun token c hc => ?_⟩
    · exact overLimits_of_was (fun token c hc => hwithin.was hc) (h.within subject)
    · exact h.measured token c (hwithin token c hc)
  · exact h.commit ha now cancelled

variable (lim dec enc) in
/-- **The cursor cache after every commit** of a run: every subject and the whole cache are within
    their limits, and every entry has its recorded size. What the commit drops before it enforces
    limits is expired. What goes then is expired, or it was least recently used while a limit was
    exceeded; so the successor goes only when no candidate was used before the commit. -/
theorem commit_within_limits {es : List (PagerEvent β)}
    (hrun : exec (PagerState.step lim dec enc) .initial es = some s)
    (ha : s.attempts.lookup id = some (req, a)) (now : Int) (cancelled : Bool)
    {settled : Settled δ} (hsettled : s.pager.settle lim dec enc a now cancelled = settled)
    {kept : GoMap Token (Cursor δ)}
    (hkept : (s.pager.commitPage lim dec enc a now cancelled).2.entries = kept) :
    (∀ subject, overLimits lim kept subject = false) ∧ Measured dec enc kept ∧
      (∀ token c, s.pager.entries.lookup token = some c → settled.entries.lookup token = none →
        c.expired lim now = true) ∧
      (∀ token c, settled.entries.lookup token = some c → kept.lookup token = none →
        c.expired lim now = true ∨ c.Evicted lim token settled.subjects settled.entries kept) ∧
      ∀ next token c, a.successor = some next → next.token = some token →
        settled.entries.lookup token = some c → kept.lookup token = none →
        lim.cursorTTL < 0 ∨ ∃ subject ∈ settled.subjects, ∃ left, Within kept left ∧
          Within left settled.entries ∧ overLimits lim left subject = true ∧
          c ∈ candidates lim left subject ∧ ∀ c' ∈ candidates lim left subject, now ≤ c'.lastUsed := by
  subst hsettled hkept
  have hlimited : s.Limited lim dec enc := by
    refine exec_invariant (PagerState.Limited lim dec enc) (fun _ _ _ h hs => h.step hs) ?_ hrun
    refine ⟨PagerState.inv_initial, fun subject => ?_, fun token c hc => ?_⟩
    · simp [PagerState.initial, overLimits, subjectOver, entriesOf, GoMap.len]
    · simp [PagerState.initial] at hc
  have hcommit := hlimited.commit ha now cancelled
  obtain ⟨-, hgoes⟩ := enforceLimits_spec lim now
    (s.pager.settle lim dec enc a now cancelled).subjects
    (hlimited.inv.settle_named ha now cancelled)
  have hsettles := s.pager.settle_settles lim dec enc a now cancelled
  refine ⟨hcommit.within, hcommit.measured, hsettles.edits.gone, hgoes,
    fun next token c hnext htoken hc hgone => ?_⟩
  -- limits were enforced, so the successor was used now
  have hused : c.lastUsed = now := by
    rcases hsettles.successor hnext htoken
        (PagerState.sized_run hrun id req a next ha hnext) with hnone | ⟨e, he, hused⟩
    · rw [Pager.commitPage, hnone] at hgone
      cases hc.symm.trans hgone
    · cases he.symm.trans hc
      exact hused
  rcases hgoes token c hc hgone with hexpired | ⟨subject, hsubject, left, hleft, hwithin, -, hleast⟩
  · rw [Cursor.expired, hused, sub_self] at hexpired
    exact .inl (of_decide_eq_true hexpired)
  · exact .inr ⟨subject, hsubject, left, hleft, hwithin, hleast.exceeds, hleast.candidate,
      hused ▸ hleast.least⟩

/-- A session starts to read nine times at one reading of the clock; the last start is not committed
    yet. -/
def ninthStart : List (PagerEvent Unit) :=
  ((range 8).flatMap fun i => [.prepare i (requestAt (fileOf []) (.start i)), .commit i 0 false]) ++
    [.prepare 8 (requestAt (fileOf []) (.start 8))]

theorem commit_within_limits_ninthStart : ∃ s : PagerState Nat Unit,
    exec (PagerState.step limits lineEvents shortEncoding) .initial ninthStart = some s ∧
      ∃ req a, s.attempts.lookup 8 = some (req, a) ∧ ∀ subject, overLimits limits
        (s.pager.commitPage limits lineEvents shortEncoding a 0 false).2.entries subject = false := by
  refine reaches_imp (P := fun s => (s.attempts.lookup 8).isSome) (by decide +kernel) ?_
  intro s hs hsome
  obtain ⟨⟨req, a⟩, ha⟩ := isSome_iff_exists.mp hsome
  exact ⟨req, a, ha, (commit_within_limits limits lineEvents shortEncoding hs ha 0 false rfl rfl).1⟩

/-- **A successor that is evicted as it is admitted.** -/
theorem admitted_successor_evicted : ∃ s : PagerState Nat Unit,
    exec (PagerState.step limits lineEvents shortEncoding) .initial ninthStart = some s ∧
      ∃ a page token, (s.attempts.lookup 8).map Prod.snd = some a ∧
        (s.pager.commitPage limits lineEvents shortEncoding a 0 false).1 = .ok page ∧
        page.nextCursor = some token ∧
        ((s.pager.settle limits lineEvents shortEncoding a 0 false).entries.lookup token).isSome ∧
        ((s.pager.commitPage limits lineEvents shortEncoding a 0 false).2.entries.lookup
          token).isSome = false := by
  simp only [exists_and_left]
  decide +kernel

end Limits

end AgentMultiplexer.Daemon.EventPager
