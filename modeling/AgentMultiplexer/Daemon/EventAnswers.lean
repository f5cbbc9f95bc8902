import AgentMultiplexer.Daemon.EventCursors

set_option autoImplicit false

/-! # Answers of the event pager

What a commit can do to the cache is said once, `Settles`. From it follows, by induction over the
steps of a run, that an entry stands for the token it is kept under, that entries are told apart by
where they were allocated, and that an entry that keeps a page answers with that page for as long as
it is there. -/

namespace AgentMultiplexer.Daemon.EventPager

open GoMap List Option RuntimeEvents Transition Nat

section Answers

variable {δ β : Type} {lim : Limits} {dec : PageDecoder δ β} {enc : Encoding}

/-! ## Entries that go -/

/-- Every entry of `m` is one of `m'`. -/
def Within (m m' : GoMap Token (Cursor δ)) : Prop :=
  ∀ token c, m.lookup token = some c → m'.lookup token = some c

theorem Within.refl (m : GoMap Token (Cursor δ)) : Within m m := fun _ _ h => h

theorem Within.trans {m m' m'' : GoMap Token (Cursor δ)} (h : Within m m') (h' : Within m' m'') :
    Within m m'' := fun token c hc => h' token c (h token c hc)

theorem expire_within (m : GoMap Token (Cursor δ)) (now : Int) : Within (expire lim m now) m :=
  fun _ _ h => (lookup_filter_eq_some.mp h).1

variable {m : GoMap Token (Cursor δ)} {c : Cursor δ} {now : Int} {token : Token}

theorem expire_lookup (h : m.lookup token = some c) (hfresh : c.expired lim now = false) :
    (expire lim m now).lookup token = some c :=
  lookup_filter_eq_some.mpr ⟨h, by simp [hfresh]⟩

theorem erase_within (m : GoMap Token (Cursor δ)) (token : Token) : Within (m.erase token) m := by
  intro token' c h
  exact lookup_of_erase h

theorem evict_within (subject : String) (fuel : Nat) (m : GoMap Token (Cursor δ)) :
    Within (evict lim subject fuel m) m := by
  induction fuel generalizing m with
  | zero => exact .refl m
  | succ fuel ih =>
    rw [evict]
    split
    next =>
      split
      next => exact .refl m
      next token _ => exact (ih _).trans (erase_within m token)
    next => exact .refl m

theorem enforceLimits_within (now : Int) (subjects : List String) (m : GoMap Token (Cursor δ)) :
    Within (subjects.foldl (enforceLimits lim now) m) m := by
  induction subjects generalizing m with
  | nil => exact .refl m
  | cons subject subjects ih =>
    exact (ih _).trans ((evict_within subject _ _).trans (expire_within m now))

/-! ## What a commit does -/

variable (lim dec enc) in
/-- **What a commit answers and does to the entries**, before any limit is enforced. -/
inductive Settles (p : Pager δ) (attempt : Attempt δ) (now : Int) : Settled δ → Prop
  | refused {err : PageError} {m : GoMap Token (Cursor δ)}
      (hkept : m = p.entries ∨ m = expire lim p.entries now) :
      Settles p attempt now ⟨.error err, m, []⟩
  | started {next : Cursor δ} (hopen : p.closed = false)
      (hnew : attempt.original = none ∨ attempt.token = none)
      (hnext : attempt.successor = some next) :
      Settles p attempt now ⟨.ok attempt.body,
        (place lim dec enc (expire lim p.entries now) next now).1,
        (place lim dec enc (expire lim p.entries now) next now).2⟩
  | cached {token : Token} {entry : Cursor δ} {page : Page} (hopen : p.closed = false)
      (htoken : attempt.token = some token) (horiginal : attempt.original = some entry.addr)
      (hentry : (expire lim p.entries now).lookup token = some entry)
      (hpage : entry.page = some page) :
      Settles p attempt now
        ⟨.ok page, (expire lim p.entries now).insert token { entry with lastUsed := now }, []⟩
  | unmoved {token : Token} {entry next : Cursor δ} (hopen : p.closed = false)
      (htoken : attempt.token = some token) (horiginal : attempt.original = some entry.addr)
      (hentry : (expire lim p.entries now).lookup token = some entry) (hpage : entry.page = none)
      (hnext : attempt.successor = some next) (hsame : next.token = some token) :
      Settles p attempt now ⟨.ok attempt.body,
        (expire lim p.entries now).insert token { entry with lastUsed := now }, []⟩
  | moved {token : Token} {entry next moved : Cursor δ} {bytes : Nat} (hopen : p.closed = false)
      (htoken : attempt.token = some token) (horiginal : attempt.original = some entry.addr)
      (hentry : (expire lim p.entries now).lookup token = some entry) (hpage : entry.page = none)
      (hnext : attempt.successor = some next) (hmoved : next.token ≠ some token)
      (hkept : moved = { entry with
        lastUsed := now, page := some attempt.body, nextCursor := next.token, bytes := bytes })
      (hbytes : moved.bytes = moved.memoryBytes dec enc) :
      Settles p attempt now ⟨.ok attempt.body,
        (place lim dec enc ((expire lim p.entries now).insert token moved) next now).1,
        (place lim dec enc ((expire lim p.entries now).insert token moved) next now).2 ++
          [moved.subject]⟩

variable (lim dec enc) in
theorem Pager.settle_settles (p : Pager δ) (attempt : Attempt δ) (now : Int) (cancelled : Bool) :
    Settles lim dec enc p attempt now (p.settle lim dec enc attempt now cancelled) := by
  rw [Pager.settle]
  split
  next => exact .refused (.inl rfl)
  split
  next => exact .refused (.inl rfl)
  next hopen =>
  have hopen : p.closed = false := Bool.eq_false_of_not_eq_true hopen
  dsimp only
  split
  next original token horiginal htoken =>
    split
    next => exact .refused (.inr rfl)
    next entry hentry =>
    split
    next => exact .refused (.inr rfl)
    next haddr =>
    have haddr : entry.addr = original := not_not.mp haddr
    subst haddr
    split
    next page hpage => exact .cached hopen htoken horiginal hentry hpage
    next hpage =>
    rw [settleEntry]
    split
    next => exact .refused (.inr rfl)
    next next hnext =>
    split
    next hsame => exact .unmoved hopen htoken horiginal hentry hpage hnext hsame
    next hmoved => exact .moved hopen htoken horiginal hentry hpage hnext hmoved rfl rfl
  next hnot =>
    have hnew : attempt.original = none ∨ attempt.token = none := by
      cases horiginal : attempt.original with
      | none => exact .inl rfl
      | some original =>
        cases htoken : attempt.token with
        | none => exact .inr rfl
        | some token => exact absurd htoken (hnot original token horiginal)
    split
    next => exact .refused (.inr rfl)
    next next hnext => exact .started hopen hnew hnext

/-! ## Where an entry comes from -/

/-- The entry is another one, used at another time. -/
def Cursor.Touched (c c₀ : Cursor δ) : Prop := ∃ time, c = { c₀ with lastUsed := time }

theorem Cursor.Touched.refl (c : Cursor δ) : c.Touched c := ⟨c.lastUsed, rfl⟩

theorem place_lookup {next c : Cursor δ}
    (h : (place lim dec enc m next now).1.lookup token = some c) :
    (∃ c₀, m.lookup token = some c₀ ∧ c.Touched c₀) ∨
      (m.lookup token = none ∧ next.token = some token ∧
        c = { next with bytes := next.memoryBytes dec enc, lastUsed := now }) := by
  rw [place] at h
  split at h
  next => exact .inl ⟨c, h, .refl c⟩
  next token' htoken' =>
  split at h
  next => exact .inl ⟨c, h, .refl c⟩
  split at h
  next old hold =>
    rcases lookup_insert_eq_some.mp h with ⟨rfl, rfl⟩ | ⟨-, h⟩
    · exact .inl ⟨old, hold, now, rfl⟩
    · exact .inl ⟨c, h, .refl c⟩
  next hfree =>
    rcases lookup_insert_eq_some.mp h with ⟨rfl, rfl⟩ | ⟨-, h⟩
    · exact .inr ⟨hfree, htoken', rfl⟩
    · exact .inl ⟨c, h, .refl c⟩

/-! ## What is prepared -/

/-- The cursor is about the sources its signature names. -/
structure Cursor.Sourced (c : Cursor δ) : Prop where
  runtime : c.runtime = c.signature.runtime
  specs : c.sources.map Source.spec = c.signature.sources
  unopened : c.Unopened

variable {set : SourceSet β}

theorem newCursor_sourced {addr : Nat} {subject : String} {after : Nat}
    (h : newCursor dec addr subject set after now = some c) :
    c.Sourced ∧ c.addr = addr ∧ c.page = none ∧ c.subject = subject ∧ c.target = set.target ∧
      c.signature = set.signature := by
  obtain ⟨decoder, -, rfl⟩ := map_eq_some_iff.mp h
  refine ⟨⟨rfl, ?_, ?_⟩, rfl, rfl, rfl, rfl, rfl⟩
  · simp [SourceSet.signature, Function.comp_def]
  intro i src hsrc _
  rw [getElem?_map] at hsrc
  obtain ⟨spec, -, rfl⟩ := map_eq_some_iff.mp hsrc
  rfl

theorem Cursor.Onward.specs {c c' : Cursor δ} (h : c.Onward c') :
    c'.sources.map Source.spec = c.sources.map Source.spec := by
  refine ext_getElem? fun i => ?_
  rw [getElem?_map, getElem?_map]
  cases hsrc : c.sources[i]? with
  | none =>
    have hnone : c'.sources[i]? = none := by
      rw [List.getElem?_eq_none_iff] at hsrc ⊢
      rw [h.length]
      exact hsrc
    rw [hnone]
  | some src =>
    have hlt : i < c'.sources.length := by
      rw [h.length]
      exact (List.getElem?_eq_some_iff.mp hsrc).1
    have hsrc' : c'.sources[i]? = some c'.sources[i] := getElem?_eq_getElem hlt
    rw [hsrc', map_some, map_some, (h.sources i _ _ hsrc hsrc').spec]

theorem computePage_sourced {poll : Poll} {c c' : Cursor δ} {page : Page}
    (hsourced : c.Sourced) (h : computePage lim dec enc poll c set = .ok (page, c')) :
    c'.Sourced := by
  have honward := computePage_onward h
  refine ⟨?_, ?_, (computePage_keeps h).unopened hsourced.unopened⟩
  · rw [honward.runtime, honward.signature]
    exact hsourced.runtime
  · rw [honward.specs, honward.signature]
    exact hsourced.specs

variable (lim dec enc) in
/-- **What `preparePage` returns.** -/
inductive Prepares (p : Pager δ) (req : Request β) (set : SourceSet β) : Attempt δ → Prop
  | started {after : Nat} {state next : Cursor δ} {page : Page} (hquery : req.query = .start after)
      (hnew : newCursor dec p.nextAddr req.subject set after req.poll.now = some state)
      (hcompute : computePage lim dec enc req.poll state set = .ok (page, next)) :
      Prepares p req set ⟨page, none, none, some next⟩
  | cached {token : Token} {entry : Cursor δ} {page : Page} (hquery : req.query = .cursor token)
      (hentry : p.entries.lookup token = some entry) (hsubject : entry.subject = req.subject)
      (htarget : entry.target = req.target) (hsignature : entry.signature = set.signature)
      (hpage : entry.page = some page) :
      Prepares p req set ⟨page, some token, some entry.addr, none⟩
  | computed {token : Token} {entry next : Cursor δ} {page : Page}
      (hquery : req.query = .cursor token) (hentry : p.entries.lookup token = some entry)
      (hsubject : entry.subject = req.subject) (htarget : entry.target = req.target)
      (hsignature : entry.signature = set.signature) (hpage : entry.page = none)
      (hcompute : computePage lim dec enc req.poll (entry.clone p.nextAddr) set = .ok (page, next)) :
      Prepares p req set ⟨page, some token, some entry.addr, some next⟩

variable {req : Request β}

theorem Pager.preparePage_prepares {p : Pager δ} {attempt : Attempt δ}
    (h : p.preparePage lim dec enc req = .ok attempt) :
    ∃ set, req.resolved = .ok set ∧ set.target = req.target ∧
      Prepares lim dec enc p req set attempt := by
  rw [Pager.preparePage] at h
  split at h
  next => cases h
  split_ifs at h
  split at h
  next => cases h
  next set hset =>
  split_ifs at h with htarget
  refine ⟨set, hset, not_not.mp htarget, ?_⟩
  split at h
  next after hquery =>
    split at h
    next => cases h
    next state hnew =>
    obtain ⟨⟨page, next⟩, hcompute, rfl⟩ := map_eq_ok h
    exact .started hquery hnew hcompute
  next token hquery =>
    rw [Pager.prepareCursor] at h
    split_ifs at h
    split at h
    next => cases h
    next entry hentry =>
    split at h
    next => cases h
    next hsame =>
    simp only [not_or, not_not] at hsame
    obtain ⟨-, hsubject, htarget, hsignature⟩ := hsame
    split at h
    next page hpage =>
      split_ifs at h
      cases h
      exact .cached hquery hentry hsubject htarget hsignature hpage
    next hpage =>
      obtain ⟨⟨page, next⟩, hcompute, rfl⟩ := map_eq_ok h
      exact .computed hquery hentry hsubject htarget hsignature hpage hcompute

/-! ## The invariant -/

/-- A token that goes on from another one. -/
structure Token.Continues (token next : Token) : Prop where
  subject : next.subject = token.subject
  target : next.target = token.target
  signature : next.signature = token.signature

/-- An entry stands for its token; a page it keeps moved it on. -/
structure Cursor.Stored (c : Cursor δ) (token : Token) (nextAddr : Nat) : Prop where
  sourced : c.Sourced
  named : c.token = some token
  tokenFor : c.tokenFor = token
  addr : c.addr < nextAddr
  page : ∀ page, c.page = some page →
    ∃ next, page.nextCursor = some next ∧ next ≠ token ∧ token.Continues next

/-- An attempt is about its request. -/
structure Attempt.Ready (a : Attempt δ) (req : Request β) (nextAddr : Nat) : Prop where
  successor : ∀ next, a.successor = some next → next.Stored next.tokenFor nextAddr ∧
    next.page = none ∧ a.body.nextCursor = some next.tokenFor ∧ next.subject = req.subject ∧
    next.target = req.target ∧ ∃ set, req.resolved = .ok set ∧ next.signature = set.signature
  asked : ∀ token, a.token = some token → req.query = .cursor token ∧
    token.subject = req.subject ∧ token.target = req.target ∧
    ∃ set, req.resolved = .ok set ∧ token.signature = set.signature
  original : ∀ addr, a.original = some addr → addr < nextAddr
  both : a.original = none ↔ a.token = none

/-- What holds in every state the pager reaches. -/
structure PagerState.Inv (s : PagerState δ β) : Prop where
  stored : ∀ token c, s.pager.entries.lookup token = some c → c.Stored token s.pager.nextAddr
  apart : ∀ token token' c c', s.pager.entries.lookup token = some c →
    s.pager.entries.lookup token' = some c' → c.addr = c'.addr → token = token'
  ready : ∀ id req a, s.attempts.lookup id = some (req, a) → a.Ready req s.pager.nextAddr
  unplaced : ∀ id req a next, s.attempts.lookup id = some (req, a) → a.successor = some next →
    ∀ token c, s.pager.entries.lookup token = some c → c.addr ≠ next.addr
  distinct : ∀ id id' req req' a a' next next', s.attempts.lookup id = some (req, a) →
    s.attempts.lookup id' = some (req', a') → a.successor = some next → a'.successor = some next' →
    next.addr = next'.addr → id = id'
  unanswered : ∀ id req a next, s.attempts.lookup id = some (req, a) → a.successor = some next →
    ∀ x ∈ s.answers, x.entry ≠ some next.addr
  answered : ∀ x ∈ s.answers, ∀ addr, x.entry = some addr → addr < s.pager.nextAddr
  kept : ∀ x ∈ s.answers, ∀ token addr, x.asked = some token → x.entry = some addr →
    x.page.nextCursor ≠ some token → ∀ token' c, s.pager.entries.lookup token' = some c →
      c.addr = addr → c.page = some x.page
  same : s.answers.Pairwise fun later earlier => ∀ token addr, earlier.asked = some token →
    earlier.entry = some addr → later.entry = some addr → earlier.page.nextCursor ≠ some token →
      later.page = earlier.page

theorem Cursor.Stored.mono {n n' : Nat} (h : c.Stored token n) (hle : n ≤ n') : c.Stored token n' :=
  { h with addr := lt_of_lt_of_le h.addr hle }

variable {a : Attempt δ}

theorem Attempt.Ready.mono {n n' : Nat} (h : a.Ready req n) (hle : n ≤ n') : a.Ready req n' :=
  { h with
    successor := fun next hnext => ⟨(h.successor next hnext).1.mono hle, (h.successor next hnext).2⟩
    original := fun addr haddr => lt_of_lt_of_le (h.original addr haddr) hle }

theorem Cursor.Stored.touched {c c₀ : Cursor δ} {n : Nat} (h : c₀.Stored token n)
    (ht : c.Touched c₀) : c.Stored token n := by
  obtain ⟨time, rfl⟩ := ht
  exact ⟨{ h.sourced with }, h.named, h.tokenFor, h.addr, h.page⟩

theorem Cursor.Touched.addr {c c₀ : Cursor δ} (h : c.Touched c₀) : c.addr = c₀.addr := by
  obtain ⟨time, rfl⟩ := h
  rfl

theorem Cursor.Touched.page {c c₀ : Cursor δ} (h : c.Touched c₀) : c.page = c₀.page := by
  obtain ⟨time, rfl⟩ := h
  rfl

theorem PagerState.inv_initial : (.initial : PagerState δ β).Inv where
  stored _ _ h := by simp [initial] at h
  apart _ _ _ _ h := by simp [initial] at h
  ready _ _ _ h := by simp [initial] at h
  unplaced _ _ _ _ h := by simp [initial] at h
  distinct _ _ _ _ _ _ _ _ h := by simp [initial] at h
  unanswered _ _ _ _ h := by simp [initial] at h
  answered _ h := by simp [initial] at h
  kept _ h := by simp [initial] at h
  same := .nil

/-! ## Preparing keeps the invariant -/

variable {s : PagerState δ β}

theorem PagerState.Inv.allocate (h : s.Inv) :
    ({ s with pager := { s.pager with nextAddr := s.pager.nextAddr + 1 } } : PagerState δ β).Inv :=
  { h with
    stored := fun token c hc => (h.stored token c hc).mono (le_succ _)
    ready := fun id req a ha => (h.ready id req a ha).mono (le_succ _)
    answered := fun x hx addr haddr => lt_succ_of_lt (h.answered x hx addr haddr) }

theorem computePage_stored {poll : Poll} {c c' : Cursor δ} {page : Page}
    {n : Nat} (hsourced : c.Sourced) (hpage : c.page = none) (haddr : c.addr = n)
    (h : computePage lim dec enc poll c set = .ok (page, c')) :
    c'.Stored c'.tokenFor (n + 1) ∧ c'.page = none ∧ page.nextCursor = some c'.tokenFor ∧
      c'.addr = n := by
  obtain ⟨-, -, -, x, -, hreturns⟩ := computePage_returns h
  have hkeeps := computePage_keeps h
  have hnone : c'.page = none := hkeeps.page.trans hpage
  have haddr' : c'.addr = n := hkeeps.addr.trans haddr
  refine ⟨⟨computePage_sourced hsourced h, hreturns.token, rfl, haddr' ▸ lt_succ_self _, ?_⟩,
    hnone, hreturns.nextCursor, haddr'⟩
  intro page' hpage'
  rw [hnone] at hpage'
  cases hpage'

/-- **A prepared attempt is about its request**, and its successor is new. -/
theorem PagerState.Inv.prepares (h : s.Inv) (hset : req.resolved = .ok set)
    (htarget : set.target = req.target) (hprepares : Prepares lim dec enc s.pager req set a) :
    a.Ready req (s.pager.nextAddr + 1) ∧
      ∀ next, a.successor = some next → next.addr = s.pager.nextAddr := by
  cases hprepares with
  | started hquery hnew hcompute =>
    obtain ⟨hsourced, haddr, hpage, hsubject, htarget', hsignature⟩ := newCursor_sourced hnew
    obtain ⟨hstored, hnone, hbody, hplace⟩ := computePage_stored hsourced hpage haddr hcompute
    have honward := computePage_onward hcompute
    refine ⟨⟨?_, by simp, by simp, by simp⟩, ?_⟩
    · intro next hnext
      cases hnext
      exact ⟨hstored, hnone, hbody, honward.subject.trans hsubject,
        (honward.target.trans htarget').trans htarget, set, hset,
        honward.signature.trans hsignature⟩
    · intro next hnext
      cases hnext
      exact hplace
  | @cached token entry page hquery hentry hsubject htarget' hsignature hpage =>
    have hstored := h.stored token entry hentry
    refine ⟨⟨by simp, ?_, ?_, by simp⟩, by simp⟩
    · intro token' htoken'
      cases htoken'
      rw [← hstored.tokenFor]
      exact ⟨hstored.tokenFor ▸ hquery, hsubject, htarget', set, hset, hsignature⟩
    · intro addr haddr
      cases haddr
      exact lt_succ_of_lt hstored.addr
  | @computed token entry next page hquery hentry hsubject htarget' hsignature hpage hcompute =>
    have hstored := h.stored token entry hentry
    have hsourced : (entry.clone s.pager.nextAddr).Sourced :=
      { hstored.sourced with }
    obtain ⟨hstored', hnone, hbody, hplace⟩ := computePage_stored hsourced rfl rfl hcompute
    have honward := computePage_onward hcompute
    refine ⟨⟨?_, ?_, ?_, by simp⟩, ?_⟩
    · intro next' hnext
      cases hnext
      exact ⟨hstored', hnone, hbody, honward.subject.trans hsubject,
        honward.target.trans htarget', set, hset, honward.signature.trans hsignature⟩
    · intro token' htoken'
      cases htoken'
      rw [← hstored.tokenFor]
      exact ⟨hstored.tokenFor ▸ hquery, hsubject, htarget', set, hset, hsignature⟩
    · intro addr haddr
      cases haddr
      exact lt_succ_of_lt hstored.addr
    · intro next' hnext
      cases hnext
      exact hplace

theorem PagerState.Inv.prepare (h : s.Inv) {id : Nat} (hready : a.Ready req (s.pager.nextAddr + 1))
    (hnew : ∀ next, a.successor = some next → next.addr = s.pager.nextAddr) : ({ s with
      pager := { s.pager with nextAddr := s.pager.nextAddr + 1 }
      attempts := s.attempts.insert id (req, a) } : PagerState δ β).Inv := by
  have hback {id' : Nat} {req' : Request β} {a' : Attempt δ}
      (hlook : (s.attempts.insert id (req, a)).lookup id' = some (req', a')) :
      (id' = id ∧ a' = a ∧ req' = req) ∨ s.attempts.lookup id' = some (req', a') := by
    rcases lookup_insert_eq_some.mp hlook with ⟨heq, hpair⟩ | ⟨-, hlook⟩
    · cases hpair
      exact .inl ⟨heq, rfl, rfl⟩
    · exact .inr hlook
  have hold {id' : Nat} {req' : Request β} {a' : Attempt δ} {next' : Cursor δ}
      (hlook : s.attempts.lookup id' = some (req', a')) (hnext : a'.successor = some next') :
      next'.addr < s.pager.nextAddr :=
    ((h.ready id' req' a' hlook).successor next' hnext).1.addr
  refine { h.allocate with ready := ?_, unplaced := ?_, distinct := ?_, unanswered := ?_ }
  · intro id' req' a' hlook
    rcases hback hlook with ⟨-, rfl, rfl⟩ | hlook
    · exact hready
    · exact (h.ready id' req' a' hlook).mono (le_succ _)
  · intro id' req' a' next' hlook hnext token c hc
    rcases hback hlook with ⟨-, rfl, rfl⟩ | hlook
    · rw [hnew next' hnext]
      exact Nat.ne_of_lt (h.stored token c hc).addr
    · exact h.unplaced id' req' a' next' hlook hnext token c hc
  · intro id₁ id₂ req₁ req₂ a₁ a₂ next₁ next₂ hlook₁ hlook₂ hnext₁ hnext₂ heq
    rcases hback hlook₁ with ⟨rfl, rfl, rfl⟩ | hold₁
    · rcases hback hlook₂ with ⟨rfl, rfl, rfl⟩ | hold₂
      · rfl
      · exact absurd (heq.symm.trans (hnew next₁ hnext₁)) (Nat.ne_of_lt (hold hold₂ hnext₂))
    · rcases hback hlook₂ with ⟨rfl, rfl, rfl⟩ | hold₂
      · exact absurd (heq.trans (hnew next₂ hnext₂)) (Nat.ne_of_lt (hold hold₁ hnext₁))
      · exact h.distinct id₁ id₂ req₁ req₂ a₁ a₂ next₁ next₂ hold₁ hold₂ hnext₁ hnext₂ heq
  · intro id' req' a' next' hlook hnext x hx hentry
    rcases hback hlook with ⟨-, rfl, rfl⟩ | hlook
    · rw [hnew next' hnext] at hentry
      exact absurd (h.answered x hx _ hentry) (lt_irrefl _)
    · exact h.unanswered id' req' a' next' hlook hnext x hx hentry

theorem PagerState.Inv.discard (h : s.Inv) (id : Nat) :
    ({ s with attempts := s.attempts.erase id } : PagerState δ β).Inv := by
  have hback {id' : Nat} {flight : Request β × Attempt δ} :=
    @lookup_of_erase _ _ _ id' id flight s.attempts
  exact { h with
    ready := fun id' req a hlook => h.ready id' req a (hback hlook)
    unplaced := fun id' req a next hlook => h.unplaced id' req a next (hback hlook)
    distinct := fun id₁ id₂ req₁ req₂ a₁ a₂ next₁ next₂ hlook₁ hlook₂ =>
      h.distinct id₁ id₂ req₁ req₂ a₁ a₂ next₁ next₂ (hback hlook₁) (hback hlook₂)
    unanswered := fun id' req a next hlook => h.unanswered id' req a next (hback hlook) }

/-! ## Committing keeps the invariant -/

variable (lim) in
/-- Where an entry comes from that is there after a commit: it was there, or it was there and now
    keeps the attempt's page (`moved`), or it is the attempt's successor. -/
inductive PagerState.Origin (s : PagerState δ β) (a : Attempt δ) (now : Int) (moved : Bool)
    (token : Token) (c : Cursor δ) : Prop
  | old {c₀ : Cursor δ} (hold : s.pager.entries.lookup token = some c₀) (htouched : c.Touched c₀)
      (hother : moved = true → a.token ≠ some token)
  | paged {c₀ next : Cursor δ} {bytes : Nat} (hmoved : moved = true)
      (htoken : a.token = some token) (hold : s.pager.entries.lookup token = some c₀)
      (hpage : c₀.page = none) (hnext : a.successor = some next)
      (hdiff : next.token ≠ some token)
      (hc : ∃ time, c = { c₀ with
        lastUsed := time, page := some a.body, nextCursor := next.token, bytes := bytes })
  | placed {next : Cursor δ} {bytes : Nat} (hnext : a.successor = some next)
      (htoken : next.token = some token) (hc : c = { next with bytes := bytes, lastUsed := now })
      (hnew : a.token = some token → a.original = none)
      (hfree : (expire lim s.pager.entries now).lookup token = none)

/-- What a commit answers with: the page of a new cursor, the page an entry keeps, or the page that
    was prepared from an entry, which moved it or not. -/
inductive PagerState.Replies (s : PagerState δ β) (a : Attempt δ) (moved : Bool) : Page → Prop
  | started (hmoved : moved = false) (hnew : a.original = none ∨ a.token = none) :
      Replies s a moved a.body
  | cached {token : Token} {entry : Cursor δ} {page : Page} (hmoved : moved = false)
      (htoken : a.token = some token) (horiginal : a.original = some entry.addr)
      (hentry : s.pager.entries.lookup token = some entry) (hpage : entry.page = some page) :
      Replies s a moved page
  | computed {token : Token} {entry next : Cursor δ} (htoken : a.token = some token)
      (horiginal : a.original = some entry.addr)
      (hentry : s.pager.entries.lookup token = some entry) (hpage : entry.page = none)
      (hnext : a.successor = some next) (hmoved : moved = false ↔ next.token = some token) :
      Replies s a moved a.body

variable {token' : Token}

theorem PagerState.Origin.of_touch {now time : Int} {entry : Cursor δ}
    (hentry : (expire lim s.pager.entries now).lookup token = some entry)
    (hc : ((expire lim s.pager.entries now).insert token
      { entry with lastUsed := time }).lookup token' = some c) : s.Origin lim a now false token' c := by
  rcases lookup_insert_eq_some.mp hc with ⟨rfl, rfl⟩ | ⟨-, hc⟩
  · exact .old (expire_within _ _ _ _ hentry) ⟨time, rfl⟩ (by simp)
  · exact .old (expire_within _ _ _ _ hc) (.refl c) (by simp)

theorem PagerState.commit_origin
    {settled : Settled δ} (h : Settles lim dec enc s.pager a now settled)
    (hwithin : Within m settled.entries) :
    ∃ moved, (∀ token c, m.lookup token = some c → s.Origin lim a now moved token c) ∧
      ∀ page, settled.answer = .ok page → s.Replies a moved page := by
  cases h with
  | @refused _ kept hkept =>
    have hold : Within kept s.pager.entries := by
      rcases hkept with rfl | rfl
      · exact .refl _
      · exact expire_within _ _
    refine ⟨false, fun token c hc => ?_, fun page hpage => by cases hpage⟩
    exact .old (hold token c (hwithin token c hc)) (.refl c) (by simp)
  | started _ hnew hnext =>
    refine ⟨false, fun token c hc => ?_, fun page hpage => ?_⟩
    · rcases place_lookup (hwithin token c hc) with ⟨c₀, hold, ht⟩ | ⟨hfree, htoken, hplaced⟩
      · exact .old (expire_within _ _ _ _ hold) ht (by simp)
      · refine .placed hnext htoken hplaced (fun hsome => ?_) hfree
        exact hnew.resolve_right (by simp [hsome])
    · cases hpage
      exact .started rfl hnew
  | cached _ htoken horiginal hentry hpage =>
    refine ⟨false, fun token' c hc => .of_touch hentry (hwithin _ _ hc), fun page' hpage' => ?_⟩
    cases hpage'
    exact .cached rfl htoken horiginal (expire_within _ _ _ _ hentry) hpage
  | unmoved _ htoken horiginal hentry hpage hnext hsame =>
    refine ⟨false, fun token' c hc => .of_touch hentry (hwithin _ _ hc), fun page' hpage' => ?_⟩
    cases hpage'
    exact .computed htoken horiginal (expire_within _ _ _ _ hentry) hpage hnext (by simp [hsame])
  | @moved token entry next paged bytes _ htoken horiginal hentry hpage hnext hmoved hkept =>
    subst hkept
    have hentry' := expire_within _ _ _ _ hentry
    refine ⟨true, fun token' c hc => ?_, fun page' hpage' => ?_⟩
    · rcases place_lookup (hwithin token' c hc) with ⟨c₀, hold, ht⟩ | ⟨hfree, htoken', hplaced⟩
      · rcases lookup_insert_eq_some.mp hold with ⟨rfl, rfl⟩ | ⟨hne, hold⟩
        · obtain ⟨time, rfl⟩ := ht
          exact .paged rfl htoken hentry' hpage hnext hmoved ⟨time, rfl⟩
        · refine .old (expire_within _ _ _ _ hold) ht fun _ heq => hne ?_
          exact mem_unique heq htoken
      · have hne : token' ≠ token := fun heq => hmoved (heq ▸ htoken')
        rw [lookup_insert_ite, if_neg hne] at hfree
        refine .placed hnext htoken' hplaced (fun hsome => ?_) hfree
        exact absurd (mem_unique hsome htoken) hne
    · cases hpage'
      exact .computed htoken horiginal hentry' hpage hnext (by simp [hmoved])

section Commit

variable {s : PagerState δ β} {id : Nat} {req : Request β} {a : Attempt δ} {now : Int}
  {moved : Bool} {token : Token} {c : Cursor δ}

/-- An entry after a commit was there before, or it is the successor. -/
theorem PagerState.Origin.addr (horigin : s.Origin lim a now moved token c) :
    (∃ c₀, s.pager.entries.lookup token = some c₀ ∧ c.addr = c₀.addr) ∨
      ∃ next, a.successor = some next ∧ next.token = some token ∧ c.addr = next.addr ∧
        (a.token = some token → a.original = none) ∧
        (expire lim s.pager.entries now).lookup token = none := by
  cases horigin with
  | old hold htouched => exact .inl ⟨_, hold, htouched.addr⟩
  | paged _ _ hold _ _ _ hc =>
    obtain ⟨time, rfl⟩ := hc
    exact .inl ⟨_, hold, rfl⟩
  | placed hnext htoken hc hnew hfree => exact .inr ⟨_, hnext, htoken, by rw [hc], hnew, hfree⟩

variable {addr : Nat}

/-- A reply about an entry is about one that is there, and is the page it keeps, if any. -/
theorem PagerState.Replies.entry {page : Page} (h : s.Replies a moved page)
    (hboth : a.original = none ↔ a.token = none) (horiginal : a.original = some addr) :
    ∃ token entry, s.pager.entries.lookup token = some entry ∧ entry.addr = addr ∧
      ∀ kept, entry.page = some kept → page = kept := by
  cases h with
  | started _ hnone =>
    rcases hnone with hnone | hnone
    · cases hnone.symm.trans horiginal
    · cases (hboth.mpr hnone).symm.trans horiginal
  | cached _ _ hplace hlook hpage =>
    exact ⟨_, _, hlook, mem_unique hplace horiginal, fun kept => mem_unique hpage⟩
  | computed _ hplace hlook hnone =>
    exact ⟨_, _, hlook, mem_unique hplace horiginal, by simp [hnone]⟩

theorem PagerState.Inv.replies_same (h : s.Inv) {page : Page} (hreplies : s.Replies a moved page)
    {x : Answer} (hx : x ∈ s.answers) (hasked : x.asked = some token)
    (hentry : x.entry = some addr) (horiginal : a.original = some addr)
    (hready : a.original = none ↔ a.token = none) (hmoved : x.page.nextCursor ≠ some token) :
    page = x.page := by
  obtain ⟨token', entry, hlook, haddr, hpage⟩ := hreplies.entry hready horiginal
  exact hpage _ (h.kept x hx token addr hasked hentry hmoved token' entry hlook haddr)

variable (h : s.Inv) (ha : s.attempts.lookup id = some (req, a))

include h ha

theorem PagerState.Inv.origin_stored (horigin : s.Origin lim a now moved token c) :
    c.Stored token s.pager.nextAddr := by
  have hready := h.ready id req a ha
  cases horigin with
  | old hold htouched => exact (h.stored token _ hold).touched htouched
  | @paged c₀ next bytes _ htoken hold _ hnext hdiff hc =>
    have hstored := h.stored token c₀ hold
    obtain ⟨hnextStored, -, hbody, hsubject, htarget, set, hset, hsignature⟩ :=
      hready.successor next hnext
    obtain ⟨-, hsubject', htarget', set', hset', hsignature'⟩ := hready.asked token htoken
    obtain rfl := Except.ok.inj (hset.symm.trans hset')
    obtain ⟨time, rfl⟩ := hc
    refine ⟨{ hstored.sourced with },
      hstored.named, hstored.tokenFor, hstored.addr, fun page hpage => ?_⟩
    cases hpage
    refine ⟨next.tokenFor, hbody, fun heq => hdiff (heq ▸ hnextStored.named), ?_⟩
    exact ⟨hsubject.trans hsubject'.symm, htarget.trans htarget'.symm,
      hsignature.trans hsignature'.symm⟩
  | @placed next bytes hnext htoken hc =>
    obtain ⟨hnextStored, hnone, -⟩ := hready.successor next hnext
    have heq := some.inj (hnextStored.named.symm.trans htoken)
    subst hc heq
    refine ⟨{ hnextStored.sourced with }, hnextStored.named, rfl, hnextStored.addr,
      fun page hpage => ?_⟩
    cases hnone.symm.trans hpage

theorem PagerState.Inv.origin_apart {token : Token} {c c' : Cursor δ}
    (horigin : s.Origin lim a now moved token c) (horigin' : s.Origin lim a now moved token' c')
    (heq : c.addr = c'.addr) : token = token' := by
  rcases horigin.addr with ⟨c₀, hold, haddr⟩ | ⟨next, hnext, htoken, haddr, -⟩
  · rcases horigin'.addr with ⟨c₀', hold', haddr'⟩ | ⟨next', hnext', -, haddr', -⟩
    · exact h.apart token token' c₀ c₀' hold hold' (haddr.symm.trans (heq.trans haddr'))
    · exact absurd (haddr.symm.trans (heq.trans haddr')) (h.unplaced id req a _ ha hnext' _ _ hold)
  · rcases horigin'.addr with ⟨c₀', hold', haddr'⟩ | ⟨next', hnext', htoken', haddr', -⟩
    · exact absurd (haddr'.symm.trans (heq.symm.trans haddr))
        (h.unplaced id req a _ ha hnext _ _ hold')
    · cases hnext.symm.trans hnext'
      exact mem_unique htoken htoken'

/-- Another attempt's successor is not among the entries after a commit. -/
theorem PagerState.Inv.origin_unplaced {id' : Nat} {req' : Request β} {a' : Attempt δ}
    {next' : Cursor δ} (hne : id' ≠ id) (ha' : s.attempts.lookup id' = some (req', a'))
    (hnext' : a'.successor = some next') (horigin : s.Origin lim a now moved token c) :
    c.addr ≠ next'.addr := by
  intro heq
  rcases horigin.addr with ⟨c₀, hold, haddr⟩ | ⟨next, hnext, -, haddr, -⟩
  · exact h.unplaced id' req' a' next' ha' hnext' token c₀ hold (haddr.symm.trans heq)
  · exact hne (h.distinct id' id req' req a' a next' next ha' ha hnext' hnext
      (heq.symm.trans haddr))

/-- An entry that keeps a page, by an earlier answer, keeps it. -/
theorem PagerState.Inv.origin_kept {x : Answer} (hx : x ∈ s.answers) (hasked : x.asked = some token)
    (hentry : x.entry = some addr) (hmoved : x.page.nextCursor ≠ some token)
    (horigin : s.Origin lim a now moved token' c) (haddr : c.addr = addr) :
    c.page = some x.page := by
  have hkept := h.kept x hx token addr hasked hentry hmoved
  cases horigin with
  | old hold htouched =>
    rw [htouched.page]
    exact hkept token' _ hold (htouched.addr.symm.trans haddr)
  | paged _ _ hold hnone _ _ hc =>
    obtain ⟨time, rfl⟩ := hc
    cases hnone.symm.trans (hkept token' _ hold haddr)
  | placed hnext _ hc =>
    subst hc
    exact absurd (haddr ▸ hentry) (h.unanswered id req a _ ha hnext x hx)

theorem PagerState.Inv.replies_kept {page : Page} (hreplies : s.Replies a moved page)
    (hasked : a.token = some token) (hentry : a.original = some addr)
    (hnext : page.nextCursor ≠ some token)
    (horigin : s.Origin lim a now moved token' c) (haddr : c.addr = addr) : c.page = some page := by
  -- an entry that was there at the address is the one that answered
  have hown {entry c₀ : Cursor δ} (hlook : s.pager.entries.lookup token = some entry)
      (hplace : a.original = some entry.addr) (hold : s.pager.entries.lookup token' = some c₀)
      (hat : c₀.addr = addr) : token' = token ∧ c₀ = entry := by
    have heq : c₀.addr = entry.addr := hat.trans (mem_unique hentry hplace)
    obtain rfl := h.apart token' token c₀ entry hold hlook heq
    exact ⟨rfl, mem_unique hold hlook⟩
  -- and the successor has another one
  have hnew {entry next : Cursor δ} (hlook : s.pager.entries.lookup token = some entry)
      (hplace : a.original = some entry.addr) (hsucc : a.successor = some next)
      (hat : next.addr = addr) : False :=
    h.unplaced id req a next ha hsucc token entry hlook (mem_unique hplace hentry |>.trans hat.symm)
  cases hreplies with
  | started _ hnone =>
    rcases hnone with hnone | hnone
    · cases hnone.symm.trans hentry
    · cases hnone.symm.trans hasked
  | cached hmoved htoken horiginal hlook hpage =>
    cases htoken.symm.trans hasked
    cases horigin with
    | old hold htouched =>
      obtain ⟨-, rfl⟩ := hown hlook horiginal hold (htouched.addr.symm.trans haddr)
      rw [htouched.page, hpage]
    | paged htrue => cases hmoved.symm.trans htrue
    | placed hsucc _ hc =>
      subst hc
      exact (hnew hlook horiginal hsucc haddr).elim
  | computed htoken horiginal hlook hpage hsucc hmoved =>
    cases htoken.symm.trans hasked
    cases horigin with
    | old hold htouched hother =>
      obtain ⟨rfl, -⟩ := hown hlook horiginal hold (htouched.addr.symm.trans haddr)
      cases moved with
      | true => exact absurd htoken (hother rfl)
      | false =>
        obtain ⟨hstored, -, hbody, -⟩ := (h.ready id req a ha).successor _ hsucc
        exact absurd (hbody.trans (hstored.named.symm.trans (hmoved.mp rfl))) hnext
    | paged _ _ _ _ _ _ hc =>
      obtain ⟨time, rfl⟩ := hc
      rfl
    | placed hsucc' _ hc =>
      subst hc
      exact (hnew hlook horiginal hsucc' haddr).elim

theorem PagerState.Inv.commit_entries {m : GoMap Token (Cursor δ)}
    (horigin : ∀ token c, m.lookup token = some c → s.Origin lim a now moved token c)
    (closed : Bool) :
    (⟨⟨m, closed, s.pager.nextAddr⟩, s.attempts.erase id, s.answers⟩ : PagerState δ β).Inv := by
  have hback {id' : Nat} {flight : Request β × Attempt δ}
      (hlook : (s.attempts.erase id).lookup id' = some flight) :
      id' ≠ id ∧ s.attempts.lookup id' = some flight :=
    lookup_erase_eq_some.mp hlook
  exact { h with
    stored := fun token c hc => h.origin_stored ha (horigin token c hc)
    apart := fun token token' c c' hc hc' =>
      h.origin_apart ha (horigin token c hc) (horigin token' c' hc')
    ready := (h.discard id).ready
    unplaced := fun id' req' a' next' ha' hnext' token c hc =>
      h.origin_unplaced ha (hback ha').1 (hback ha').2 hnext' (horigin token c hc)
    distinct := (h.discard id).distinct
    unanswered := (h.discard id).unanswered
    kept := fun x hx token addr hasked hentry hmoved token' c hc =>
      h.origin_kept ha hx hasked hentry hmoved (horigin token' c hc) }

theorem PagerState.Inv.commit (now : Int) (cancelled : Bool) :
    (s.commit lim dec enc id a now cancelled).Inv := by
  obtain ⟨moved, horigin, hreplies⟩ :=
    commit_origin (s.pager.settle_settles lim dec enc a now cancelled) (enforceLimits_within now _ _)
  have hentries := h.commit_entries ha horigin
    (s.pager.commitPage lim dec enc a now cancelled).2.closed
  rw [PagerState.commit]
  split
  next => exact hentries
  next page hpage =>
  have hreply := hreplies page hpage
  have hready := h.ready id req a ha
  refine { hentries with unanswered := ?_, answered := ?_, kept := ?_, same := ?_ }
  · intro id' req' a' next' ha' hnext'
    refine forall_mem_cons.mpr ⟨fun hentry => ?_, hentries.unanswered id' req' a' next' ha' hnext'⟩
    obtain ⟨token, entry, hlook, haddr, -⟩ := hreply.entry hready.both hentry
    exact (h.discard id).unplaced id' req' a' next' ha' hnext' token entry hlook haddr
  · exact forall_mem_cons.mpr ⟨hready.original, h.answered⟩
  · refine forall_mem_cons.mpr ⟨fun token addr hasked hentry hmoved token' c hc => ?_, hentries.kept⟩
    exact h.replies_kept ha hreply hasked hentry hmoved (horigin token' c hc)
  · refine pairwise_cons.mpr ⟨fun x hx token addr hasked hentry hentry' hmoved => ?_, h.same⟩
    exact h.replies_same hreply hx hasked hentry hentry' hready.both hmoved

end Commit

/-! ## Steps -/

variable {s s' : PagerState δ β} {e : PagerEvent β}

/-- Only a commit writes entries or answers. -/
theorem PagerState.step_entries (hstep : s.step lim dec enc e = some s') :
    (Within s'.pager.entries s.pager.entries ∧ s'.answers = s.answers) ∨
      ∃ id now cancelled req a, e = .commit id now cancelled ∧
        s.attempts.lookup id = some (req, a) ∧ s' = s.commit lim dec enc id a now cancelled := by
  cases e with
  | prepare id req =>
    rw [PagerState.step] at hstep
    split_ifs at hstep
    split at hstep <;> cases hstep <;> exact .inl ⟨.refl _, rfl⟩
  | discard id =>
    cases hstep
    exact .inl ⟨.refl _, rfl⟩
  | commit id now cancelled =>
    obtain ⟨⟨req, a⟩, ha, rfl⟩ := map_eq_some_iff.mp hstep
    exact .inr ⟨id, now, cancelled, req, a, rfl, ha, rfl⟩
  | close =>
    cases hstep
    exact .inl ⟨fun _ _ hc => by simp at hc, rfl⟩

/-- Every successor that may be placed is like this. -/
def PagerState.Successors (P : Cursor δ → Prop) (s : PagerState δ β) : Prop :=
  ∀ id req a next, s.attempts.lookup id = some (req, a) → a.successor = some next → P next

theorem PagerState.Successors.step {P : Cursor δ → Prop} (h : s.Successors P)
    (hnew : ∀ id req set a next, e = .prepare id req → Prepares lim dec enc s.pager req set a →
      a.successor = some next → P next)
    (hstep : s.step lim dec enc e = some s') : s'.Successors P := by
  have herase (id : Nat) : PagerState.Successors P { s with attempts := s.attempts.erase id } :=
    fun id' req a next hlook => h id' req a next (lookup_of_erase hlook)
  cases e with
  | prepare id req =>
    rw [PagerState.step] at hstep
    split_ifs at hstep
    split at hstep
    next =>
      cases hstep
      exact h
    next attempt hprepare =>
    cases hstep
    obtain ⟨set, -, -, hprepares⟩ := Pager.preparePage_prepares hprepare
    intro id' req' a next hlook hnext
    rcases lookup_insert_eq_some.mp hlook with ⟨-, heq⟩ | ⟨-, hlook⟩
    · cases heq
      exact hnew id req set attempt next rfl hprepares hnext
    · exact h id' req' a next hlook hnext
  | discard id =>
    cases hstep
    exact herase id
  | commit id now cancelled =>
    obtain ⟨⟨req, a⟩, -, rfl⟩ := map_eq_some_iff.mp hstep
    exact herase id
  | close =>
    cases hstep
    exact h

theorem PagerState.Inv.step (h : s.Inv) (hstep : s.step lim dec enc e = some s') : s'.Inv := by
  cases e with
  | prepare id req =>
    rw [PagerState.step] at hstep
    split_ifs at hstep
    split at hstep
    next =>
      cases hstep
      exact h.allocate
    next attempt hprepare =>
      cases hstep
      obtain ⟨set, hset, htarget, hprepares⟩ := Pager.preparePage_prepares hprepare
      obtain ⟨hready, hnew⟩ := h.prepares hset htarget hprepares
      exact h.prepare hready hnew
  | discard id =>
    cases hstep
    exact h.discard id
  | commit id now cancelled =>
    obtain ⟨⟨req, a⟩, ha, rfl⟩ := map_eq_some_iff.mp hstep
    exact h.commit ha now cancelled
  | close =>
    cases hstep
    exact { h with
      stored := fun _ _ hc => by simp at hc
      apart := fun _ _ _ _ hc => by simp at hc
      unplaced := fun _ _ _ _ _ _ _ _ hc => by simp at hc
      kept := fun _ _ _ _ _ _ _ _ _ hc => by simp at hc }

theorem PagerState.Inv.run {es : List (PagerEvent β)} (h : s.Inv)
    (hrun : exec (PagerState.step lim dec enc) s es = some s') : s'.Inv :=
  exec_invariant PagerState.Inv (fun _ _ _ hinv hstep => hinv.step hstep) h hrun

end Answers

end AgentMultiplexer.Daemon.EventPager
