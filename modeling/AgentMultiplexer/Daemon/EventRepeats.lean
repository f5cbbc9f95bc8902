import AgentMultiplexer.Daemon.EventAnswers
import AgentMultiplexer.Daemon.EventSweeps

set_option autoImplicit false

/-! # One cursor, one page

A cursor may be presented any number of times, by requests that run side by side while the sources
grow. The first page that moves the cursor and is committed is kept, and every answer after it is
that page. A page that did not move the cursor met the end of every source; it is never kept, so a
request after the sources grew goes on from the same place. -/

namespace AgentMultiplexer.Daemon.EventPager

open GoMap RuntimeEvents Transition Nat PagerState List Option

section Repeats

variable {δ β : Type} {lim : Limits} {dec : PageDecoder δ β} {enc : Encoding}

/-! ## A page that does not move the cursor -/

/-- A page may read a byte, complete a record and deliver an event. -/
structure Limits.Positive (lim : Limits) : Prop where
  readBytes : 0 < lim.pageReadBytes
  records : 0 < lim.pageRecords
  events : 0 < lim.pageEvents

/-- The cursor went past an event or a byte. -/
def Cursor.Moved (c c' : Cursor δ) : Prop :=
  c.sequence < c'.sequence ∨ ∃ (i : Nat) (src src' : Source), c.sources[i]? = some src ∧
    c'.sources[i]? = some src' ∧ src.offset < src'.offset

theorem Cursor.Moved.onward {c c' c'' : Cursor δ} (h : c.Moved c') (honward : c'.Onward c'') :
    c.Moved c'' := by
  rcases h with hsequence | ⟨i, src, src', hsrc, hsrc', hlt⟩
  · exact .inl (lt_of_lt_of_le hsequence honward.sequence)
  have hi : i < c''.sources.length := by
    rw [honward.length]
    exact (List.getElem?_eq_some_iff.mp hsrc').1
  have hsrc'' : c''.sources[i]? = some c''.sources[i] := getElem?_eq_getElem hi
  exact .inr ⟨i, src, _, hsrc, hsrc'',
    lt_of_lt_of_le hlt (honward.sources i _ _ hsrc' hsrc'').offset⟩

/-- Nothing was spent on the page. -/
structure Paging.Unmoved (x : Paging δ) : Prop where
  spent : x.readBytes = 0 ∧ x.records = 0 ∧ x.processed = 0
  blank : x.page.events = [] ∧ x.page.oversized = none

section Page

variable {view : Nat → World} {bindings : β} {c : Cursor δ} {x y : Paging δ}

/-- A read moves the cursor, or it takes no byte. -/
theorem Paging.Unmoved.reads (hpos : lim.Positive) (h : x.Unmoved)
    (honward : c.Onward x.state) {src src' : Source} {ident : Nat} {result : ReadResult δ}
    (hreads : x.Reads lim dec view bindings src ident result src' y) :
    c.Moved y.state ∨ y.Unmoved := by
  obtain ⟨ctx, hloop⟩ := hreads.loop
  obtain ⟨anchor, hsrc'⟩ := Source.updateAnchor_eq hreads.anchored
  have hoffset : src'.offset = result.reading.source.offset := by rw [hsrc']
  obtain ⟨src₀, hsrc₀, honward₀⟩ := honward.source_back hreads.found
  rw [h.spent.1, h.spent.2.1] at hloop
  rcases readLoop_fresh rfl ⟨rfl, hpos.readBytes⟩ ⟨rfl, hpos.records⟩ hloop with
    hgrown | ⟨hbytes, hrecords, hsame⟩
  · refine .inl (.inr ⟨x.state.source, src₀, src', hsrc₀, ?_, ?_⟩)
    · rw [hreads.after]
      exact (Cursor.setSource_getElem? src' hreads.found _).trans (if_pos rfl)
    · rw [hoffset]
      exact lt_of_le_of_lt honward₀.offset hgrown
  · rw [hreads.after]
    exact .inr ⟨⟨by rw [hbytes, h.spent.1], by rw [hrecords, h.spent.2.1], h.spent.2.2⟩, h.blank⟩

theorem Paging.Unmoved.goOn (hpos : lim.Positive) (h : x.Unmoved) (honward : c.Onward x.state)
    (hdoes : x.Does lim dec enc view bindings (.goOn y)) : c.Moved y.state ∨ y.Unmoved := by
  have hcounted : c.sequence < x.state.sequence + 1 := lt_succ_of_le honward.sequence
  cases hdoes with
  | skip | carry => exact .inl (.inl hcounted)
  | missing => exact .inr ⟨h.spent, h.blank⟩
  | skipRaw hreads =>
    refine .inl (.inl ?_)
    exact lt_succ_of_le (honward.trans hreads.onward.2).sequence
  | next hreads =>
    refine (h.reads hpos honward hreads).imp ?_ fun hun => ⟨hun.spent, hun.blank⟩
    exact fun hmoved => hmoved.onward { Cursor.Onward.refl _ with }
  | stay hreads => exact h.reads hpos honward hreads

theorem Paging.Unmoved.stop (h : x.Unmoved) (honward : c.Onward x.state)
    (hdoes : x.Does lim dec enc view bindings (.stop y)) :
    c.Moved y.state ∨ y.sweepComplete = true := by
  have hcounted : c.sequence < x.state.sequence + 1 := lt_succ_of_le honward.sequence
  cases hdoes with
  | wrap => exact .inr rfl
  | full _ _ hpage =>
    rcases hpage with hevents | hoversized
    · exact absurd h.blank.1 hevents
    · exact absurd h.blank.2 hoversized
  | mark => exact .inl (.inl hcounted)
  | markRaw hreads =>
    refine .inl (.inl ?_)
    exact lt_succ_of_le (honward.trans hreads.onward.2).sequence

end Page

variable {page : Page} {c c' : Cursor δ}

/-- **A page moves the cursor, or it met the end of every source from the cursor's on.** -/
theorem computePage_moved (hpos : lim.Positive) {poll : Poll} (hgrow : Growing poll.view)
    {set : SourceSet β} (hempty : c.sources = [] → c.source = 0)
    (h : computePage lim dec enc poll c set = .ok (page, c')) :
    c.Moved c' ∨ (c'.source = 0 ∧ c'.Swept (poll.view 0) c.source c'.sources.length) := by
  obtain ⟨-, -, -, x, hloop, hreturns⟩ := computePage_returns h
  have hover : c.Moved x.state ∨ x.sweepComplete = true := by
    refine pageLoop_induction (fun y => c.Onward y.state ∧ (c.Moved y.state ∨ y.Unmoved))
      (fun y => c.Moved y.state ∨ y.sweepComplete = true) ?_ ?_ ?_ ?_ hloop
    · rintro y ⟨_, hmoved | hun⟩ hexit
      · exact .inl hmoved
      · -- nothing was spent, so no limit ended the loop
        obtain ⟨hbytes, hrecords, hprocessed⟩ := hun.spent
        rcases hexit with hsweep | hfull | hfull | hfull
        · exact .inr hsweep
        · exact absurd hpos.readBytes (by omega)
        · exact absurd hpos.records (by omega)
        · exact absurd hpos.events (by omega)
    · rintro y z ⟨honward, hy⟩ _ hdoes
      refine ⟨honward.trans hdoes.onward, ?_⟩
      rcases hy with hmoved | hun
      · exact .inl (hmoved.onward hdoes.onward)
      · exact hun.goOn hpos honward hdoes
    · rintro y z ⟨honward, hmoved | hun⟩ _ hdoes
      · exact .inl (hmoved.onward hdoes.onward)
      · exact hun.stop honward hdoes
    · exact ⟨.refl c, .inr ⟨⟨rfl, rfl, rfl⟩, rfl, rfl⟩⟩
  refine hover.imp (fun hmoved => hmoved.onward hreturns.onward) fun hsweep => ⟨?_, ?_⟩
  · exact hreturns.source.trans (pageLoop_source hempty hloop hsweep)
  · rw [hreturns.onward.length]
    exact ((pageLoop_swept (.refl _) hgrow (fun i _ hk hl => absurd hk (Nat.not_le_of_lt hl))
      hloop).2 hsweep).onward hreturns.onward

theorem Cursor.Moved.tokenFor_ne (h : c.Moved c') : c'.tokenFor ≠ c.tokenFor := by
  intro heq
  rcases h with hsequence | ⟨i, src, src', hsrc, hsrc', hlt⟩
  · exact absurd (congrArg Token.sequence heq) (ne_of_gt hsequence)
  have hsources := congrArg (fun t => t.sources[i]?) heq
  simp only [Cursor.tokenFor, getElem?_map, hsrc, hsrc', map_some,
    some.injEq, Prod.mk.injEq] at hsources
  exact absurd hsources.1 (ne_of_gt hlt)

/-! ## What a later request sees -/

variable (lim dec enc) in
/-- The cursor stands behind some records, with what was shown of them, while the sources grow into
    `w`. -/
def Cursor.Decoded (w : World) (c : Cursor δ) : Prop :=
  (c.sources = [] → c.source = 0) ∧ ∃ init done records items shown,
    c.Stands lim dec init w done records ∧ c.Shown lim dec enc init records items shown

/-- What the cache notes beside does not matter. -/
theorem Cursor.Decoded.noted {w : World} (h : c.Decoded lim dec enc w) (addr bytes : Nat)
    (token nextCursor : Option Token) (lastUsed : Int) (kept : Option Page) :
    ({ c with
      addr := addr, token := token, lastUsed := lastUsed, bytes := bytes, page := kept,
      nextCursor := nextCursor } : Cursor δ).Decoded lim dec enc w := by
  obtain ⟨hempty, init, done, records, items, shown, hstands, hshown⟩ := h
  exact ⟨hempty, init, done, records, items, shown, { hstands with }, { hshown with }⟩

variable (lim dec enc) in
/-- **What a page sees from a cursor**, in sources that were as in `w₀` when it began and grow into
    `w`. One decode goes through the records before it and those it read, and the page shows what
    comes after what was shown before. It leaves the cursor where it is only at the end of every
    source. Where it has no more, every complete line that the sources from the cursor's on had when
    it began is among the records, and all that the records yield was shown. -/
structure Cursor.Sees (w₀ w : World) (c : Cursor δ) (page : Page) (next : Cursor δ) : Prop where
  unmoved : next.tokenFor = c.tokenFor → c.source = 0 ∧ ∀ src ∈ c.sources, src.AtEnd w₀
  moved : ∀ (i : Nat) (src : Source), c.source ≤ i → c.sources[i]? = some src → ¬ src.AtEnd w₀ →
    c.Moved next
  decoded : ∃ init done records items shown done' fresh items',
    c.Stands lim dec init w done records ∧ c.Shown lim dec enc init records items shown ∧
    next.Stands lim dec init w done' (records ++ fresh) ∧
    next.Shown lim dec enc init (records ++ fresh) items' (shown ++ page.items) ∧
    (page.hasMore = false → items' = (lineDecoder lim dec init).output (records ++ fresh) ∧
      ∀ (i : Nat) (src : Source), c.source ≤ i → next.sources[i]? = some src →
        Lines.lines newline (w₀.content src.spec.path) <+: linesOf i (records ++ fresh))

variable {w : World}

theorem Cursor.Sees.of_clone {w₀ : World} {addr : Nat} {next : Cursor δ}
    (h : (c.clone addr).Sees lim dec enc w₀ w page next) : c.Sees lim dec enc w₀ w page next := by
  obtain ⟨init, done, records, items, shown, done', fresh, items', hstands, hshown, hdecoded⟩ :=
    h.decoded
  exact ⟨h.unmoved, h.moved, init, done, records, items, shown, done', fresh, items',
    { hstands with }, { hshown with }, hdecoded⟩

/-- **A page sees what was appended.** -/
theorem computePage_sees (hpos : lim.Positive) {poll : Poll} (hgrow : Growing poll.view)
    (hend : ∀ n, (poll.view n).Grows w) {set : SourceSet β} (hdecoded : c.Decoded lim dec enc w)
    (h : computePage lim dec enc poll c set = .ok (page, c')) :
    c.Sees lim dec enc (poll.view 0) w page c' := by
  obtain ⟨hempty, init, done, records, items, shown, hstands, hshown⟩ := hdecoded
  have hover := computePage_moved hpos hgrow hempty h
  have hmoved : ∀ (i : Nat) (src : Source), c.source ≤ i → c.sources[i]? = some src →
      ¬ src.AtEnd (poll.view 0) → c.Moved c' := by
    intro i src hi hsrc hmore
    rcases hover with hmoved | ⟨-, hswept⟩
    · exact hmoved
    -- the page read the source to its end, which is further than the cursor was
    have hlt : i < c'.sources.length := by
      rw [(computePage_onward h).length]
      exact (List.getElem?_eq_some_iff.mp hsrc).1
    have hsrc' : c'.sources[i]? = some c'.sources[i] := getElem?_eq_getElem hlt
    refine .inr ⟨i, src, _, hsrc, hsrc', Nat.lt_of_not_le fun hle => hmore fun ident hident => ?_⟩
    rw [← ((computePage_onward h).sources i _ _ hsrc hsrc').spec] at hident
    exact (hswept i _ hi hlt hsrc' ident hident).trans hle
  refine ⟨fun hsame => ?_, hmoved, ?_⟩
  · rcases hover with hmoved | ⟨hsource, -⟩
    · exact absurd hsame hmoved.tokenFor_ne
    have hzero : c.source = 0 := (congrArg Token.source hsame).symm.trans hsource
    refine ⟨hzero, fun src hsrc => by_contra fun hmore => ?_⟩
    obtain ⟨i, hi⟩ := mem_iff_getElem?.mp hsrc
    exact (hmoved i src (hzero ▸ zero_le i) hi hmore).tokenFor_ne hsame
  obtain ⟨done', fresh, items', hstands', hshown', -⟩ :=
    computePage_follows hstands hshown hgrow hend h
  refine ⟨init, done, records, items, shown, done', fresh, items', hstands, hshown, hstands', hshown',
    fun hmore => ?_⟩
  obtain ⟨hswept, hidle⟩ := (computePage_swept (k := c.source) (.refl _) hgrow
    (fun i _ hk hl => absurd hk (Nat.not_le_of_lt hl)) h).2 hmore
  refine ⟨?_, fun i src hi hsrc => ?_⟩
  · rw [hshown'.output, hidle]
    simp
  · exact hstands'.isPrefix_linesOf hsrc (hend 0)
      (hswept i src hi (List.getElem?_eq_some_iff.mp hsrc).1 hsrc)

theorem computePage_decoded {poll : Poll} (hgrow : Growing poll.view)
    (hend : ∀ n, (poll.view n).Grows w) {set : SourceSet β} (hdecoded : c.Decoded lim dec enc w)
    (h : computePage lim dec enc poll c set = .ok (page, c')) : c'.Decoded lim dec enc w := by
  obtain ⟨hempty, init, done, records, items, shown, hstands, hshown⟩ := hdecoded
  obtain ⟨done', fresh, items', hstands', hshown', -⟩ :=
    computePage_follows hstands hshown hgrow hend h
  exact ⟨(computePage_source_of_not_hasMore hempty h).1, init, done', _, items', _, hstands', hshown'⟩

/-- The sources that a request sees grow into `w`. -/
def PagerEvent.Grown (w : World) : PagerEvent β → Prop
  | .prepare _ req => Growing req.poll.view ∧ ∀ n, (req.poll.view n).Grows w
  | _ => True

variable (lim dec enc) in
/-- Every entry, and every successor that may become one, is decoded. -/
structure PagerState.Decoded (w : World) (s : PagerState δ β) : Prop where
  entries : ∀ token c, s.pager.entries.lookup token = some c → c.Decoded lim dec enc w
  successors : s.Successors fun next => next.Decoded lim dec enc w

section Decoded

variable {s s' : PagerState δ β} {id : Nat} {req : Request β} {a : Attempt δ}

theorem Prepares.decoded {p : Pager δ} {set : SourceSet β} (h : Prepares lim dec enc p req set a)
    (hentries : ∀ token c, p.entries.lookup token = some c → c.Decoded lim dec enc w)
    (hgrow : Growing req.poll.view) (hend : ∀ n, (req.poll.view n).Grows w) {next : Cursor δ}
    (hnext : a.successor = some next) : next.Decoded lim dec enc w := by
  cases h with
  | started _ hnew hcompute =>
    cases hnext
    obtain ⟨hstands, hshown, -, hsource, -⟩ := newCursor_stands lim enc hnew w
    exact computePage_decoded hgrow hend ⟨fun _ => hsource, _, _, _, _, _, hstands, hshown⟩ hcompute
  | cached => cases hnext
  | computed _ hentry _ _ _ _ hcompute =>
    cases hnext
    exact computePage_decoded hgrow hend ((hentries _ _ hentry).noted ..) hcompute

theorem PagerState.Origin.decoded {now : Int} {moved : Bool} {token : Token}
    (horigin : s.Origin lim a now moved token c) (h : s.Decoded lim dec enc w)
    (ha : s.attempts.lookup id = some (req, a)) : c.Decoded lim dec enc w := by
  cases horigin with
  | old hold htouched =>
    obtain ⟨time, rfl⟩ := htouched
    exact (h.entries _ _ hold).noted ..
  | paged _ _ hold _ _ _ hc =>
    obtain ⟨time, rfl⟩ := hc
    exact (h.entries _ _ hold).noted ..
  | placed hnext _ hc =>
    subst hc
    exact (h.successors _ _ _ _ ha hnext).noted ..

theorem PagerState.Decoded.step {e : PagerEvent β} (h : s.Decoded lim dec enc w) (he : e.Grown w)
    (hstep : s.step lim dec enc e = some s') : s'.Decoded lim dec enc w := by
  refine ⟨fun token c hc => ?_, h.successors.step (fun id req set a next heq hprepares => ?_) hstep⟩
  · rcases step_entries hstep with ⟨hwithin, -⟩ | ⟨id, now, cancelled, req, a, -, ha, rfl⟩
    · exact h.entries token c (hwithin token c hc)
    · obtain ⟨moved, horigin, -⟩ := commit_origin
        (s.pager.settle_settles lim dec enc a now cancelled) (enforceLimits_within now _ _)
      exact (horigin token c hc).decoded h ha
  · subst heq
    exact hprepares.decoded h.entries he.1 he.2

/-- **Every cursor of a run is decoded**, while the sources that the requests see grow into `w`. -/
theorem PagerState.decoded_run {es : List (PagerEvent β)} (hgrown : ∀ e ∈ es, e.Grown w)
    (hrun : exec (PagerState.step lim dec enc) .initial es = some s) : s.Decoded lim dec enc w :=
  exec_invariant_along (fun _ e => e.Grown w) (PagerState.Decoded lim dec enc w)
    (fun _ _ _ h he hstep => h.step he hstep)
    ⟨fun _ _ hc => by simp [initial] at hc, fun _ _ _ _ ha => by simp [initial] at ha⟩
    (.of_forall hgrown) hrun

end Decoded

/-! ## Answers to one cursor -/

variable (lim) in
/-- A request about another cursor, or about none, is committed and hands this one out, which is no
    longer held. A request that presents the cursor never does. -/
def PagerState.reissues (token : Token) (s : PagerState δ β) : PagerEvent β → Bool
  | .commit id now _ => ((expire lim s.pager.entries now).lookup token).isNone &&
      (s.attempts.lookup id).any fun flight =>
        flight.2.token ≠ some token && flight.2.successor.any fun next => next.token = some token
  | _ => false

/-- Since the answers `before`, the cursor has stood for one entry, the one at `addr`, and that one
    has answered whenever the cursor was asked for. -/
structure PagerState.Standing (token : Token) (addr : Option Nat) (before : List Answer)
    (s : PagerState δ β) : Prop where
  entry : ∀ c, s.pager.entries.lookup token = some c → addr = some c.addr
  answers : ∃ new, s.answers = new ++ before ∧ ∀ x ∈ new, x.asked = some token →
    ∃ own, addr = some own ∧ x.entry = some own

variable {before : List Answer} {token : Token} {addr : Option Nat}

variable {s s' : PagerState δ β}

variable {s : PagerState δ β} {a : Attempt δ}

theorem PagerState.Replies.asked {moved : Bool}
    (h : s.Replies a moved page) (hboth : a.original = none ↔ a.token = none)
    (htoken : a.token = some token) :
    ∃ entry, s.pager.entries.lookup token = some entry ∧ a.original = some entry.addr := by
  cases h with
  | started _ hnone =>
    rcases hnone with hnone | hnone
    · cases (hboth.mp hnone).symm.trans htoken
    · cases hnone.symm.trans htoken
  | cached _ hsome horiginal hentry | computed hsome horiginal hentry =>
    cases hsome.symm.trans htoken
    exact ⟨_, hentry, horiginal⟩

theorem PagerState.Standing.commit {id : Nat} {req : Request β} {now : Int} {cancelled : Bool}
    (hinv : s.Inv) (h : s.Standing token addr before) (ha : s.attempts.lookup id = some (req, a))
    (hquiet : s.reissues lim token (.commit id now cancelled) = false) :
    (s.commit lim dec enc id a now cancelled).Standing token addr before := by
  have hboth := (hinv.ready id req a ha).both
  obtain ⟨moved, horigin, hreplies⟩ :=
    commit_origin (s.pager.settle_settles lim dec enc a now cancelled) (enforceLimits_within now _ _)
  have hentry : ∀ c, (s.pager.commitPage lim dec enc a now cancelled).2.entries.lookup token =
      some c → addr = some c.addr := by
    intro c hc
    rcases (horigin token c hc).addr with ⟨c₀, hold, haddr⟩ | ⟨next, hnext, htoken, -, hnew, hfree⟩
    · rw [haddr]
      exact h.entry c₀ hold
    · -- a cursor under the token is placed only by a request about another one
      by_cases hown : a.token = some token
      · cases (hboth.mp (hnew hown)).symm.trans hown
      · simp [reissues, ha, hown, hnext, htoken, hfree] at hquiet
  obtain ⟨new, hnew, hall⟩ := h.answers
  refine ⟨hentry, ?_⟩
  rw [PagerState.commit]
  split
  next => exact ⟨new, hnew, hall⟩
  next page hpage =>
  refine ⟨⟨a.token, a.original, page⟩ :: new, by rw [hnew]; rfl,
    forall_mem_cons.mpr ⟨fun hasked => ?_, hall⟩⟩
  obtain ⟨entry, hlook, horiginal⟩ := (hreplies page hpage).asked hboth hasked
  exact ⟨entry.addr, h.entry entry hlook, horiginal⟩

theorem PagerState.Standing.step {e : PagerEvent β} (hinv : s.Inv) (h : s.Standing token addr before)
    (hquiet : s.reissues lim token e = false) (hstep : s.step lim dec enc e = some s') :
    s'.Standing token addr before := by
  rcases step_entries hstep with ⟨hwithin, hanswers⟩ | ⟨id, now, cancelled, req, a, rfl, ha, rfl⟩
  · exact ⟨fun c hc => h.entry c (hwithin token c hc), hanswers ▸ h.answers⟩
  · exact h.commit hinv ha hquiet

/-- Who answers an attempt: its own page, or the one that its entry keeps. -/
theorem PagerState.commit_page (s : PagerState δ β) (htoken : a.token = some token) {now : Int}
    {cancelled : Bool} (h : (s.pager.commitPage lim dec enc a now cancelled).1 = .ok page) :
    page = a.body ∨ ∃ c, s.pager.entries.lookup token = some c ∧ c.page = some page := by
  have hsettles := s.pager.settle_settles lim dec enc a now cancelled
  change (s.pager.settle lim dec enc a now cancelled).answer = .ok page at h
  generalize s.pager.settle lim dec enc a now cancelled = settled at h hsettles
  cases hsettles with cases h
  | started | unmoved | moved => exact .inl rfl
  | cached _ hsome _ hentry hpage =>
    cases hsome.symm.trans htoken
    exact .inr ⟨_, expire_within _ _ _ _ hentry, hpage⟩

/-- **Same cursor, same page.** Along every run in which a cursor that was lost is not handed out
    anew, however the requests for it and others interleave: once it was answered with a page that
    moved it, every later answer to it is that page. A page that is kept for it did move it. Where
    none is kept, a request sees what the sources have got since; and when its attempt is answered,
    then with the page it computed or with one that is kept by then. -/
theorem same_cursor_same_page (lim : Limits) (dec : PageDecoder δ β) (enc : Encoding)
    (hpos : lim.Positive) (token : Token) {s s' : PagerState δ β} {es fs : List (PagerEvent β)}
    (hreach : exec (PagerState.step lim dec enc) .initial es = some s)
    (hrun : exec (PagerState.step lim dec enc) s fs = some s')
    (hquiet : Along (PagerState.step lim dec enc) (fun s e => s.reissues lim token e = false) s fs) :
    (∃ new, s'.answers = new ++ s.answers ∧ new.Pairwise fun later earlier =>
      earlier.asked = some token → later.asked = some token →
        earlier.page.nextCursor ≠ some token → later.page = earlier.page) ∧
    (∀ c page, s'.pager.entries.lookup token = some c → c.page = some page →
      page.nextCursor ≠ some token) ∧
    ∀ w, (∀ e ∈ es ++ fs, e.Grown w) → ∀ c req a, s'.pager.entries.lookup token = some c →
      c.page = none → req.query = .cursor token → Growing req.poll.view →
      (∀ n, (req.poll.view n).Grows w) → s'.pager.preparePage lim dec enc req = .ok a →
      (∃ next, a.successor = some next ∧ a.body.nextCursor = some next.tokenFor ∧
        c.Sees lim dec enc (req.poll.view 0) w a.body next) ∧
      ∀ gs s'' now cancelled page, exec (PagerState.step lim dec enc) s' gs = some s'' →
        (s''.pager.commitPage lim dec enc a now cancelled).1 = .ok page →
        page = a.body ∨ (page.nextCursor ≠ some token ∧
          ∃ c', s''.pager.entries.lookup token = some c' ∧ c'.page = some page) := by
  have hinv : s.Inv := inv_initial.run hreach
  have hinv' : s'.Inv := hinv.run hrun
  have hkept {s : PagerState δ β} (hinv : s.Inv) : ∀ c page, s.pager.entries.lookup token = some c →
      c.page = some page → page.nextCursor ≠ some token := by
    intro c page hc hpage
    obtain ⟨next, hnext, hne, -⟩ := (hinv.stored token c hc).page page hpage
    rw [hnext]
    exact fun heq => hne (some.inj heq)
  refine ⟨?_, hkept hinv', ?_⟩
  · have hstanding := (exec_invariant_along _ (fun s'' => s''.Inv ∧ s''.Standing token
      ((s.pager.entries.lookup token).map Cursor.addr) s.answers)
      (fun _ _ _ h hP hstep => ⟨h.1.step hstep, h.2.step h.1 hP hstep⟩)
      ⟨hinv, fun c hc => by rw [hc]; rfl, [], rfl, by simp⟩ hquiet hrun).2
    obtain ⟨new, hnew, hall⟩ := hstanding.answers
    refine ⟨new, hnew, ?_⟩
    have hsame := hinv'.same
    rw [hnew] at hsame
    refine (pairwise_append.mp hsame).1.imp_of_mem fun
      {later earlier} hl he h hearlier hlater => ?_
    obtain ⟨own, hown, hentry⟩ := hall earlier he hearlier
    obtain ⟨own', hown', hentry'⟩ := hall later hl hlater
    cases hown.symm.trans hown'
    exact h token own hearlier hentry hentry'
  · intro w hgrown c req a hc hnone hquery hgrow hend hprepare
    have hdecoded := (decoded_run hgrown (exec_append_eq_some.mpr ⟨s, hreach, hrun⟩)).entries
    obtain ⟨set, -, -, hprepares⟩ := Pager.preparePage_prepares hprepare
    cases hprepares with
    | started hstart => cases hstart.symm.trans hquery
    | cached hcursor hentry _ _ _ hpage =>
      cases hcursor.symm.trans hquery
      cases hc.symm.trans hentry
      cases hnone.symm.trans hpage
    | @computed token' entry next body hcursor hentry _ _ _ _ hcompute =>
      cases hcursor.symm.trans hquery
      cases hc.symm.trans hentry
      obtain ⟨-, -, -, x, -, hreturns⟩ := computePage_returns hcompute
      have hsees := computePage_sees hpos hgrow hend ((hdecoded token c hc).noted ..) hcompute
      refine ⟨⟨next, rfl, hreturns.nextCursor, hsees.of_clone⟩, ?_⟩
      intro gs s'' now cancelled page hgs hcommit
      refine (s''.commit_page rfl hcommit).imp_right fun ⟨c', hc', hpage⟩ => ?_
      exact ⟨hkept (hinv'.run hgs) c' page hc' hpage, c', hc', hpage⟩

def requestAt (w : World) (query : Query) : Request Unit :=
  ⟨true, "subject", "target", query, .ok oneSource, (pollAt w).1, false⟩

/-- The cursor a session gets while its file is empty. -/
def emptyToken : Token := ⟨"subject", "target", oneSource.signature, 0, 0, 0, [(0, 0, [])]⟩

def emptyStarted : List (PagerEvent Unit) :=
  [.prepare 0 (requestAt (fileOf []) (.start 0)), .commit 0 0 false]

/-- The cursor is presented while the file is still empty, and twice side by side while the file
    grows; the later of the two is committed first. -/
def emptyPresented : List (PagerEvent Unit) :=
  [.prepare 1 (requestAt (fileOf []) (.cursor emptyToken)), .commit 1 0 false,
    .prepare 2 (requestAt (fileOf [97, newline]) (.cursor emptyToken)),
    .prepare 3 (requestAt (fileOf [97, newline, 98, newline]) (.cursor emptyToken)),
    .commit 3 0 false, .commit 2 0 false]

/-- The cursor is presented once the file has a line. -/
def grownRequest : Request Unit := requestAt (fileOf [97, newline]) (.cursor emptyToken)

theorem same_cursor_same_page_emptyPresented : ∃ s s' : PagerState Nat Unit,
    exec (PagerState.step limits lineEvents shortEncoding) .initial emptyStarted = some s ∧
      exec (PagerState.step limits lineEvents shortEncoding) s emptyPresented = some s' ∧
      s'.answers.map (fun x => (x.asked, x.page.events.length)) =
        [(some emptyToken, 2), (some emptyToken, 2), (some emptyToken, 0), (none, 0)] ∧
      (∃ new, s'.answers = new ++ s.answers ∧ new.Pairwise fun later earlier =>
        earlier.asked = some emptyToken → later.asked = some emptyToken →
          earlier.page.nextCursor ≠ some emptyToken → later.page = earlier.page) ∧
      ∃ c a next, s.pager.entries.lookup emptyToken = some c ∧
        s.pager.preparePage limits lineEvents shortEncoding grownRequest = .ok a ∧
        a.successor = some next ∧ a.body.nextCursor ≠ some emptyToken ∧
        c.Sees limits lineEvents shortEncoding (fileOf [97, newline]) (fileOf [97, newline])
          a.body next := by
  have hpos : limits.Positive := ⟨by decide, by decide, by decide⟩
  simp only [exists_and_left]
  refine reaches_imp (P := fun s => check (step limits lineEvents shortEncoding)
      (fun s e => !s.reissues limits emptyToken e) s emptyPresented = true ∧
    (∃ s', exec (step limits lineEvents shortEncoding) s emptyPresented = some s' ∧
      s'.answers.map (fun x => (x.asked, x.page.events.length)) =
        [(some emptyToken, 2), (some emptyToken, 2), (some emptyToken, 0), (none, 0)]) ∧
    (∃ c, s.pager.entries.lookup emptyToken = some c ∧ c.page = none) ∧
    ∃ a, s.pager.preparePage limits lineEvents shortEncoding grownRequest = .ok a ∧
      a.body.nextCursor ≠ some emptyToken)
    (by decide +kernel) ?_
  rintro s hs ⟨hcheck, ⟨s', hs', hanswers⟩, ⟨c, hc, hnone⟩, a, ha, hmoved⟩
  have hgrown : ∀ e ∈ emptyStarted ++ [], e.Grown (fileOf [97, newline]) := by
    have hgrows : (fileOf []).Grows (fileOf [97, newline]) := ⟨fun _ _ h => h, fun _ => nil_prefix⟩
    simpa [emptyStarted, PagerEvent.Grown] using ⟨fun _ => .refl _, fun _ => hgrows⟩
  have hstay : exec (step limits lineEvents shortEncoding) s [] = some s := rfl
  obtain ⟨⟨next, hnext, -, hsees⟩, -⟩ := (same_cursor_same_page limits lineEvents shortEncoding hpos
    emptyToken hs hstay trivial).2.2 _ hgrown c grownRequest a hc hnone rfl (fun _ => .refl _)
    (fun _ => .refl _) ha
  exact ⟨s', hs', hanswers, (same_cursor_same_page limits lineEvents shortEncoding hpos emptyToken hs
    hs' (.of_check (fun _ _ h => by simpa using h) hcheck)).1, c, hc, a, ha, next, hnext, hmoved, hsees⟩

/-- A page carries one of these events, not two. -/
def largeEvents : Encoding := ⟨fun page => some (40000 * page.events.length), fun _ => 40000⟩

def twoLines : Bytes := [97, newline, 98, newline]

/-- The cursor behind the first event of two lines. -/
def secondEvent : Token := ⟨"subject", "target", oneSource.signature, 1, 0, 0, [(4, 0, twoLines)]⟩

/-- The request, six minutes later. -/
def Request.later (req : Request Unit) : Request Unit :=
  { req with poll := { req.poll with now := 6 * 60 * 10 ^ 9 } }

/-- A session reads two lines in two pages. Six minutes later a third line is there, and it reads two
    pages from the start again. -/
def readAgain : List (PagerEvent Unit) :=
  [.prepare 0 (requestAt (fileOf twoLines) (.start 0)), .commit 0 0 false,
    .prepare 1 (requestAt (fileOf twoLines) (.cursor secondEvent)), .commit 1 0 false,
    .prepare 2 (requestAt (fileOf (twoLines ++ [99, newline])) (.start 0)).later,
    .commit 2 (6 * 60 * 10 ^ 9) false,
    .prepare 3 (requestAt (fileOf (twoLines ++ [99, newline])) (.cursor secondEvent)).later,
    .commit 3 (6 * 60 * 10 ^ 9) false]

/-- **A lost cursor that is handed out anew.** The entry under the cursor has expired; the second
    start ends its page at the same place and gets the same token, for a new entry. The page that is
    then answered says that there is more, the first one did not. -/
theorem reissued_cursor_other_page :
    (∀ e ∈ readAgain, e.Grown (fileOf (twoLines ++ [99, newline]))) ∧
      ∃ s : PagerState Nat Unit,
        exec (PagerState.step limits lineEvents largeEvents) .initial readAgain = some s ∧
        s.answers.map (fun x => (x.asked, x.page.hasMore)) =
          [(some secondEvent, true), (none, true), (some secondEvent, false), (none, true)] ∧
        ¬ s.answers.Pairwise fun later earlier =>
          earlier.asked = some secondEvent → later.asked = some secondEvent →
            earlier.page.nextCursor ≠ some secondEvent → later.page = earlier.page := by
  constructor
  · have hgrows : (fileOf twoLines).Grows (fileOf (twoLines ++ [99, newline])) :=
      ⟨fun _ _ h => h, fun _ => prefix_append _ _⟩
    intro e he
    simp only [readAgain, mem_cons, not_mem_nil, or_false] at he
    rcases he with rfl | rfl | rfl | rfl | rfl | rfl | rfl | rfl
    on_goal 1 => exact ⟨fun _ => .refl _, fun _ => hgrows⟩
    on_goal 2 => exact ⟨fun _ => .refl _, fun _ => hgrows⟩
    on_goal 3 => exact ⟨fun _ => .refl _, fun _ => .refl _⟩
    on_goal 4 => exact ⟨fun _ => .refl _, fun _ => .refl _⟩
    all_goals trivial
  · decide +kernel

end Repeats

end AgentMultiplexer.Daemon.EventPager
