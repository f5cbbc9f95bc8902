import AgentMultiplexer.Daemon.EventLimits

set_option autoImplicit false

/-! # Cursors that were just handed out

A token is derived from where a cursor stands, not from which files it read; and a successor whose
token is already held is dropped for the entry that is there. So a cursor that was just handed out
may be an older one that read a file which has since been replaced, and a request with it is then
refused although nothing changed since. Where the entry that the token stands for is about the files
that are there, the request is not refused. -/

namespace AgentMultiplexer.Daemon.EventPager

open GoMap List RuntimeEvents Transition Source Pager Nat PagerState

/-! ## Sources that are as they were read -/

/-- The file that was read is the one behind the name, is long enough, and still ends with the anchor
    where the source was left. -/
structure Source.Current (src : Source) (w : World) : Prop where
  opened : ∀ ident, src.identity = some ident → w.dir src.spec.path = some ident
  long : ∀ ident, src.identity = some ident → src.offset ≤ (w.data ident).length
  anchored : ∀ ident, src.identity = some ident → src.anchorValid (w.data ident) = true

variable {data : Bytes}

theorem readAt_grow {data' bytes : Bytes} {pos len : Nat} (h : readAt data pos len = some bytes)
    (hgrow : data <+: data') : readAt data' pos len = some bytes := by
  obtain ⟨more, rfl⟩ := hgrow
  rw [readAt] at h ⊢
  split_ifs at h with hfits
  rw [if_pos (le_trans hfits (by simp)), ← h, drop_append_of_le_length (by omega),
    take_append_of_le_length (by rw [length_drop]; omega)]

theorem readAt_length {bytes : Bytes} {pos len : Nat} (h : readAt data pos len = some bytes) :
    bytes.length = len ∧ pos + len ≤ data.length := by
  rw [readAt] at h
  split_ifs at h with hfits
  cases h
  rw [length_take, length_drop]
  omega

variable {src : Source}

theorem Source.anchorValid_grow {data' : Bytes}
    (h : src.anchorValid data = true) (hgrow : data <+: data') : src.anchorValid data' = true := by
  rw [anchorValid] at h ⊢
  split
  next => rfl
  next hread =>
  rw [if_neg hread] at h
  split
  next hlt => simp [hlt] at h
  next hlt =>
  rw [if_neg hlt] at h
  exact decide_eq_true (readAt_grow (of_decide_eq_true h) hgrow)

theorem Source.anchorValid_of_offset (data : Bytes) (h : src.offset = 0) :
    src.anchorValid data = true := by
  simp [anchorValid, h]

theorem Source.Current.grow {w w' : World} (h : src.Current w)
    (hgrow : w.Grows w') : src.Current w' where
  opened ident hident := hgrow.dir _ _ (h.opened ident hident)
  long ident hident := le_trans (h.long ident hident) (hgrow.data ident).length_le
  anchored ident hident := anchorValid_grow (h.anchored ident hident) (hgrow.data ident)

theorem Source.updateAnchor_valid {n : Nat} {src' : Source}
    (h : src.updateAnchor n data = some src') :
    src'.offset ≤ data.length ∧ src'.anchorValid data = true := by
  rw [updateAnchor] at h
  split at h
  next hzero =>
    cases h
    exact ⟨by rw [hzero]; exact Nat.zero_le _, anchorValid_of_offset data hzero⟩
  obtain ⟨anchor, hread, rfl⟩ := Option.map_eq_some_iff.mp h
  obtain ⟨hlength, hfits⟩ := readAt_length hread
  have hle : anchor.length ≤ src.offset := by
    rw [hlength]
    exact Nat.min_le_right _ _
  refine ⟨by dsimp only; omega, ?_⟩
  rw [anchorValid]
  split
  next => rfl
  rw [if_neg (Nat.not_lt_of_le hle), hlength, hread]
  simp

theorem Source.updateAnchor_isSome (n : Nat)
    (h : src.offset ≤ data.length) : ∃ src', src.updateAnchor n data = some src' := by
  rw [updateAnchor]
  split
  next => exact ⟨_, rfl⟩
  have hfits : src.offset - min n src.offset + min n src.offset ≤ data.length := by omega
  simp only [readAt, hfits, if_true, Option.map_some]
  exact ⟨_, rfl⟩

section Handouts

variable {δ β : Type} {lim : Limits} {dec : PageDecoder δ β} {enc : Encoding}

/-- The cursor is about the files that are there. -/
def Cursor.Current (c : Cursor δ) (w : World) : Prop := ∀ src ∈ c.sources, src.Current w

variable {c : Cursor δ}

theorem Cursor.Current.grow {w w' : World} (h : c.Current w) (hgrow : w.Grows w') :
    c.Current w' := fun src hsrc => (h src hsrc).grow hgrow

theorem Cursor.Current.of_sources {c c' : Cursor δ} {w : World} (h : c.Current w)
    (hsources : c'.sources = c.sources) : c'.Current w := by
  intro src hsrc
  rw [hsources] at hsrc
  exact h src hsrc

theorem Cursor.Current.setSource {w : World} (h : c.Current w)
    (hsrc : src.Current w) : (c.setSource src).Current w := by
  intro src' hsrc'
  rcases mem_or_eq_of_mem_set hsrc' with hold | rfl
  · exact h src' hold
  · exact hsrc

/-! ## A page of a current cursor -/

variable {view : Nat → World} {bindings : β} {x : Paging δ}

/-- Every source of the page is as it was read. -/
structure Paging.Sound (view : Nat → World) (x : Paging δ) : Prop where
  current : x.state.Current (view x.op)
  unopened : x.state.Unopened

/-- What is read from a file is current when the read is over. -/
theorem Paging.Reads.current (hgrow : Growing view) {src' : Source} {ident : Nat}
    {result : ReadResult δ} {y : Paging δ}
    (h : x.Reads lim dec view bindings src ident result src' y) :
    x.op ≤ y.op ∧ src'.Current (view y.op) := by
  obtain ⟨ctx, hloop⟩ := h.loop
  obtain ⟨hspec, hident, -, hop⟩ := readLoop_frame hloop
  obtain ⟨anchor, hsrc'⟩ := updateAnchor_eq h.anchored
  obtain ⟨hlong, hvalid⟩ := updateAnchor_valid h.anchored
  have hop : x.op + 3 ≤ result.reading.op := hop
  have hy : y.op = result.reading.op + 1 := by rw [h.after]
  have hlater : (view result.reading.op).Grows (view y.op) := by
    rw [hy]
    exact hgrow _
  -- the source's identity is the inode that was opened
  have hown : ∀ ident', src'.identity = some ident' → ident = ident' := by
    intro ident' hident'
    rw [hsrc'] at hident'
    exact Option.mem_unique hident hident'
  refine ⟨by omega, ⟨?_, ?_, ?_⟩⟩
  · intro ident' hident'
    obtain rfl := hown ident' hident'
    rw [hsrc', show result.reading.source.spec = src.spec from hspec]
    exact (hgrow.le (by omega)).dir _ _ h.opened
  · intro ident' hident'
    obtain rfl := hown ident' hident'
    exact le_trans hlong (hlater.data ident).length_le
  · intro ident' hident'
    obtain rfl := hown ident' hident'
    exact anchorValid_grow hvalid (hlater.data ident)

theorem Paging.Sound.does (hgrow : Growing view) (h : x.Sound view) {r : Round δ}
    (hdoes : x.Does lim dec enc view bindings r) : r.paging.Sound view := by
  have hunopened := hdoes.keeps.unopened h.unopened
  have hspend {src : Source} {rest : List RuntimeEvent}
      (hsrc : x.state.sources[x.state.source]? = some src) :
      (x.spend src rest).state.Current (view x.op) := by
    have hcurrent := h.current src (mem_of_getElem? hsrc)
    exact (h.current.setSource ({ hcurrent with } :
        Source.Current { src with pending := rest } _)).of_sources rfl
  have hread {src src' : Source} {ident : Nat} {result : ReadResult δ} {z : Paging δ}
      (hreads : x.Reads lim dec view bindings src ident result src' z) :
      z.state.Current (view z.op) := by
    obtain ⟨hle, hcurrent⟩ := hreads.current hgrow
    have hsources : z.state.sources = (x.state.setSource src').sources := by rw [hreads.after]
    exact ((h.current.grow (hgrow.le hle)).setSource hcurrent).of_sources hsources
  cases hdoes with
  | wrap => exact ⟨h.current.of_sources rfl, hunopened⟩
  | skip hsrc | carry hsrc | mark hsrc => exact ⟨hspend hsrc, hunopened⟩
  | full => exact h
  | missing => exact ⟨(h.current.grow (hgrow _)).of_sources rfl, hunopened⟩
  | skipRaw hreads | markRaw hreads | next hreads =>
    exact ⟨(hread hreads).of_sources rfl, hunopened⟩
  | stay hreads => exact ⟨hread hreads, hunopened⟩

theorem readLoop_ne_cursorInvalid {data : Nat → Bytes} {i byteBudget recordBudget ctx : Nat}
    {y : Reading δ} :
    readLoop lim dec data i bindings byteBudget recordBudget ctx y ≠ .error .cursorInvalid := by
  fun_induction readLoop with
  | case6 | case8 => assumption
  | _ => simp

/-- A round on a current source does not find the cursor invalid. -/
theorem Paging.Sound.readSource (hgrow : Growing view) (h : x.Sound view) {ctx : Nat}
    (hsrc : x.state.sources[x.state.source]? = some src) :
    x.readSource lim dec view bindings ctx src ≠ .error .cursorInvalid := by
  have hcurrent := h.current src (mem_of_getElem? hsrc)
  rw [Paging.readSource]
  split
  next hdir =>
    split
    next hsome =>
      obtain ⟨ident, hident⟩ := Option.isSome_iff_exists.mp hsome
      cases hdir.symm.trans (hcurrent.opened ident hident)
    next => simp
  next ident hdir =>
    -- what was read is what is opened now
    have hsame : ∀ ident', src.identity = some ident' → ident' = ident := fun ident' hident' =>
      Option.mem_unique (hcurrent.opened ident' hident') hdir
    have hvalid : anchorValid { src with identity := some ident }
        ((view (x.op + 2)).data ident) = true := by
      cases hident : src.identity with
      | none => exact anchorValid_of_offset _ (h.unopened _ src hsrc hident)
      | some ident' =>
        obtain rfl := hsame ident' hident
        exact anchorValid_grow (hcurrent.anchored ident' hident) ((hgrow.le (by omega)).data ident')
    dsimp only
    split
    next hbad =>
      obtain ⟨hsome, hbad⟩ := hbad
      obtain ⟨ident', hident'⟩ := Option.isSome_iff_exists.mp hsome
      obtain rfl := hsame ident' hident'
      rcases hbad with hne | hshort
      · exact absurd hident' hne
      have hlong := le_trans (hcurrent.long ident' hident')
        ((hgrow.le (le_succ x.op)).data ident').length_le
      exact absurd hshort (Nat.not_lt_of_le hlong)
    next =>
      split
      next hinvalid => simp [hvalid] at hinvalid
      split
      next err herr => exact error_ne_of_eq readLoop_ne_cursorInvalid herr
      split
      next => simp
      split
      next => split <;> simp
      split
      next => simp
      next => split <;> simp

theorem Paging.Sound.round (hgrow : Growing view) (h : x.Sound view) {ctx : Nat} :
    x.round lim dec enc view bindings ctx ≠ .error .cursorInvalid := by
  rw [Paging.round]
  split
  next => simp
  next src hsrc =>
  split
  next => simp
  next => exact h.readSource hgrow hsrc

theorem Paging.Sound.pageLoop (hgrow : Growing view) (h : x.Sound view) {ctx : List Nat} :
    pageLoop lim dec enc view bindings ctx x ≠ .error .cursorInvalid := by
  fun_induction EventPager.pageLoop with
  | case1 | case2 | case4 => simp
  | case3 x _ checks ctx err herr => exact error_ne_of_eq (h.round hgrow) herr
  | case5 x _ checks ctx y hround ih => exact ih (h.does hgrow (Paging.round_does hround))

theorem refreshAnchors_ne_cursorInvalid (hgrow : Growing view) {op : Nat} {sources : List Source}
    (h : ∀ src ∈ sources, src.Current (view op)) :
    refreshAnchors lim view op sources ≠ .error .cursorInvalid := by
  induction sources generalizing op with
  | nil => simp [refreshAnchors]
  | cons src rest ih =>
    have hcurrent := h src mem_cons_self
    -- the rest of the sources is refreshed later
    have hrest {op' : Nat} (src' : Source) (hle : op ≤ op') :
        (refreshAnchors lim view op' rest).map (src' :: ·) ≠ .error .cursorInvalid :=
      map_ne_error _ (ih fun s hs => (h s (mem_cons_of_mem _ hs)).grow (hgrow.le hle))
    rw [refreshAnchors]
    split
    next => exact hrest src (le_refl op)
    next ident hident =>
    split
    next => exact hrest src (le_refl op)
    have hlong : ∀ k, src.offset ≤ ((view (op + k)).data ident).length := fun k =>
      le_trans (hcurrent.long ident hident) ((hgrow.le (le_add_right op k)).data ident).length_le
    have hfile : src.sameFile view op ident = true := by
      simp [sameFile, hcurrent.opened ident hident, hlong 1]
    obtain ⟨src', hanchor⟩ := updateAnchor_isSome lim.anchorBytes (hlong 2)
    simp only [hfile, Bool.not_true, Bool.false_eq_true, if_false, hanchor]
    exact hrest src' (le_add_right op 3)

/-- **A page of a current cursor**, computed from the sources the cursor is about, does not find the
    cursor invalid. -/
theorem computePage_ne_cursorInvalid {poll : Poll} (hgrow : Growing poll.view)
    {set : SourceSet β} (hsourced : c.Sourced) (hcurrent : c.Current (poll.view 0))
    (hsignature : c.signature = set.signature) (htarget : c.target = set.target) :
    computePage lim dec enc poll c set ≠ .error .cursorInvalid := by
  have hruntime : c.runtime = set.runtime := by
    rw [hsourced.runtime, hsignature]
    rfl
  have hsound : c.paging.Sound poll.view := ⟨hcurrent, hsourced.unopened⟩
  rw [computePage, if_neg (by simp [hsignature, htarget, hruntime])]
  split
  next err herr => exact error_ne_of_eq (hsound.pageLoop hgrow) herr
  next y hloop =>
  have hover : y.Sound poll.view :=
    pageLoop_induction (Paging.Sound poll.view) (Paging.Sound poll.view) (fun _ hz _ => hz)
      (fun _ _ hz _ hdoes => hz.does hgrow hdoes) (fun _ _ hz _ hdoes => hz.does hgrow hdoes)
      hsound hloop
  rw [Paging.finish]
  split
  next err herr => exact error_ne_of_eq (refreshAnchors_ne_cursorInvalid hgrow hover.current) herr
  dsimp only
  split
  next => simp
  split
  next => simp
  next => split <;> simp

theorem validateSources_of_current (hgrow : Growing view) {op : Nat} {sources : List Source}
    {specs : List SourceSpec} (hspecs : sources.map spec = specs)
    (h : ∀ src ∈ sources, src.Current (view op)) : validateSources view op sources specs = true := by
  induction sources generalizing op specs with
  | nil =>
    subst hspecs
    rfl
  | cons src rest ih =>
    subst hspecs
    have hcurrent := h src mem_cons_self
    have hrest {op' : Nat} (hle : op ≤ op') :
        validateSources view op' rest (rest.map spec) = true :=
      ih rfl fun s hs => (h s (mem_cons_of_mem _ hs)).grow (hgrow.le hle)
    rw [map_cons, validateSources, if_neg (by simp)]
    split
    next => exact hrest (le_refl op)
    next ident hident =>
    have hlater : ∀ k, (view op).Grows (view (op + k)) := fun k => hgrow.le (le_add_right op k)
    have hlong : src.offset ≤ ((view (op + 1)).data ident).length :=
      le_trans (hcurrent.long ident hident) ((hlater 1).data ident).length_le
    have hvalid := anchorValid_grow (hcurrent.anchored ident hident) ((hlater 2).data ident)
    rw [hvalid, hrest (le_add_right op 3)]
    simp [sameFile, hcurrent.opened ident hident, hlong]

/-! ## What a token stands for -/

variable (lim) in
/-- The successor, where the commit places it: the cursor that was asked for keeps no page yet. -/
def Pager.placed (p : Pager δ) (a : Attempt δ) (now : Int) : Option (Cursor δ) :=
  if (a.token.bind (expire lim p.entries now).lookup).any fun entry => entry.page.isSome then none
  else a.successor

variable (lim) in
/-- What a token stands for once the attempt is committed: the entry held under it, or else the
    successor. -/
def Pager.denoted (p : Pager δ) (a : Attempt δ) (now : Int) (token : Token) : Option (Cursor δ) :=
  ((expire lim p.entries now).lookup token).or (p.placed lim a now)

variable {token : Token} {now : Int} {a : Attempt δ}

section Commit

variable {s : PagerState δ β} {id : Nat} {req : Request β} {a : Attempt δ} {now : Int}
  {settled : Settled δ} {page : Page} (hinv : s.Inv) (ha : s.attempts.lookup id = some (req, a))
  (hsettles : Settles lim dec enc s.pager a now settled) (hpage : settled.answer = .ok page)
  (hnext : page.nextCursor = some token)

include hinv ha hsettles hpage hnext

/-- The token of a page that a commit answers with is about the request. -/
theorem PagerState.Inv.next_token :
    token.subject = req.subject ∧ token.target = req.target ∧
      ∃ set, req.resolved = .ok set ∧ token.signature = set.signature := by
  have hready := hinv.ready id req a ha
  have hbody {next : Cursor δ} (hsucc : a.successor = some next)
      (hcursor : a.body.nextCursor = some token) :
      token.subject = req.subject ∧ token.target = req.target ∧
        ∃ set, req.resolved = .ok set ∧ token.signature = set.signature := by
    obtain ⟨-, -, hnextCursor, hsubject, htarget, set, hset, hsignature⟩ :=
      hready.successor next hsucc
    cases hnextCursor.symm.trans hcursor
    exact ⟨hsubject, htarget, set, hset, hsignature⟩
  cases hsettles with
  | refused => cases hpage
  | started _ _ hsucc | unmoved _ _ _ _ _ hsucc | moved _ _ _ _ _ hsucc =>
    cases hpage
    exact hbody hsucc hnext
  | cached _ htoken _ hentry hkept =>
    cases hpage
    obtain ⟨next, hcursor, -, hcontinues⟩ :=
      (hinv.stored _ _ (expire_within _ _ _ _ hentry)).page _ hkept
    cases hcursor.symm.trans hnext
    obtain ⟨-, hsubject, htarget, set, hset, hsignature⟩ := hready.asked _ htoken
    exact ⟨hcontinues.subject.trans hsubject, hcontinues.target.trans htarget, set, hset,
      hcontinues.signature.trans hsignature⟩

/-- **What a token stands for after a commit**, before any limit is enforced. -/
theorem PagerState.Inv.settle_denoted 
    (hsized : s.Successors fun next => next.memoryBytes dec enc ≤ lim.cursorSubjectBytes)
    {d : Cursor δ}
    (hd : s.pager.denoted lim a now token = some d) : s.pager.closed = false ∧
      ∃ e, settled.entries.lookup token = some e ∧ e.sources = d.sources := by
  have hready := hinv.ready id req a ha
  have hbody {next : Cursor δ} (hsucc : a.successor = some next)
      (hcursor : a.body.nextCursor = some token) : next.token = some token := by
    obtain ⟨hstored, -, hnextCursor, -⟩ := hready.successor next hsucc
    exact hstored.named.trans (hnextCursor.symm.trans hcursor)
  cases hsettles with
  | refused => cases hpage
  | @started next hopen hnew hsucc =>
    cases hpage
    have htoken : a.token = none := hnew.elim (fun h => hready.both.mp h) fun h => h
    have hstands : ((expire lim s.pager.entries now).lookup token).or (some next) = some d := by
      simpa [denoted, placed, htoken, hsucc] using hd
    obtain ⟨e, he, hsources, -⟩ :=
      place_stands (hbody hsucc hnext) (hsized id req a next ha hsucc) hstands
    exact ⟨hopen, e, he, hsources⟩
  | @cached token' entry page hopen htoken _ hentry hkept =>
    cases hpage
    obtain ⟨next, hcursor, hne, -⟩ :=
      (hinv.stored _ _ (expire_within _ _ _ _ hentry)).page _ hkept
    cases hcursor.symm.trans hnext
    refine ⟨hopen, d, ?_, rfl⟩
    rw [lookup_insert_ite, if_neg hne]
    simpa [denoted, placed, htoken, hentry, hkept] using hd
  | @unmoved token' entry next hopen htoken _ hentry _ hsucc hsame =>
    cases hpage
    cases hsame.symm.trans (hbody hsucc hnext)
    rw [denoted, hentry] at hd
    cases hd
    exact ⟨hopen, _, AList.lookup_insert _, rfl⟩
  | @moved token' entry next moved bytes hopen htoken _ hentry hnone hsucc hmoved hkept =>
    cases hpage
    have hown := hbody hsucc hnext
    have hne : token ≠ token' := fun heq => hmoved (heq ▸ hown)
    have hstands : (((expire lim s.pager.entries now).insert token' moved).lookup token).or
        (some next) = some d := by
      rw [lookup_insert_ite, if_neg hne]
      simpa [denoted, placed, htoken, hentry, hnone, hsucc] using hd
    obtain ⟨e, he, hsources, -⟩ := place_stands hown (hsized id req a next ha hsucc) hstands
    exact ⟨hopen, e, he, hsources⟩

end Commit

/-! ## An entry that is spared -/

variable (lim) in
/-- As long as the token's entry is there and a limit is exceeded, some candidate was used before
    it. -/
def Settled.Spares (settled : Settled δ) (token : Token) : Prop :=
  ∀ left subject e, Within left settled.entries → subject ∈ settled.subjects →
    left.lookup token = some e → overLimits lim left subject = true →
      ∃ c ∈ candidates lim left subject, c.lastUsed < e.lastUsed

theorem Settled.spares_of_within {settled : Settled δ}
    (h : ∀ subject ∈ settled.subjects, overLimits lim settled.entries subject = false)
    (token : Token) : settled.Spares lim token := by
  intro left subject e hleft hsubject _ hover
  rw [overLimits_of_was (fun token c hc => hleft.was hc) (h subject hsubject)] at hover
  cases hover

theorem Settled.Spares.kept {settled : Settled δ} (h : settled.Spares lim token)
    (hnamed : Named settled.entries) {e : Cursor δ} (he : settled.entries.lookup token = some e)
    (hfresh : e.expired lim now = false) :
    (settled.subjects.foldl (enforceLimits lim now) settled.entries).lookup token = some e := by
  cases hkept : (settled.subjects.foldl (enforceLimits lim now) settled.entries).lookup token with
  | some e' => exact (enforceLimits_within now _ _ token e' hkept).symm.trans he
  | none =>
    rcases (enforceLimits_spec lim now _ hnamed).2 token e he hkept with
      hexpired | ⟨subject, hsubject, left, -, hleft, hthere, hleast⟩
    · cases hfresh.symm.trans hexpired
    · obtain ⟨c, hc, hlt⟩ := h left subject e hleft hsubject hthere hleast.exceeds
      exact absurd hlt (not_lt.mpr (hleast.least c hc))

/-! ## The next request -/

variable (lim dec enc) in
/-- `page`: a request that is prepared and committed with nothing in between. -/
def Pager.page (p : Pager δ) (req : Request β) (now : Int) (cancelled : Bool) :
    Except PageError Page :=
  match p.preparePage lim dec enc req with
  | .error err => .error err
  | .ok attempt => (Pager.commitPage lim dec enc { p with nextAddr := p.nextAddr + 1 } attempt now
      cancelled).1

section Request

variable {p : Pager δ} {token : Token} {e : Cursor δ} {n : Nat} {req : Request β}
  {set : SourceSet β} (hopen : p.closed = false) (he : p.entries.lookup token = some e)

include hopen he

/-- What was prepared from an entry that is still there is answered. -/
theorem Pager.commitPage_ne_cursorInvalid {cancelled : Bool}
    (hfresh : e.expired lim now = false) (htoken : a.token = some token)
    (horiginal : a.original = some e.addr) (hsuccessor : e.page = none → a.successor ≠ none) :
    (p.commitPage lim dec enc a now cancelled).1 ≠ .error .cursorInvalid := by
  rw [commitPage]
  rw [settle]
  split
  next => simp
  simp only [hopen, Bool.false_eq_true, if_false, horiginal, htoken, expire_lookup he hfresh,
    ne_eq, not_true_eq_false]
  split
  next => simp
  next hnone =>
  obtain ⟨next, hnext⟩ := Option.ne_none_iff_exists'.mp (hsuccessor hnone)
  simp only [settleEntry, hnext]
  split <;> simp

variable (hstored : e.Stored token n) (hquery : req.query = .cursor token)
  (hsubject : token.subject = req.subject) (htarget : token.target = req.target)
  (hset : req.resolved = .ok set) (hsignature : token.signature = set.signature)
  (hgrow : Growing req.poll.view) (hcurrent : e.Current (req.poll.view 0))

include hstored hquery hsubject htarget hset hsignature hgrow hcurrent

/-- A request that presents the token of a current entry is prepared, or refused for something
    else. -/
theorem Pager.preparePage_ne_cursorInvalid (hfresh : e.expired lim req.poll.now = false) :
    p.preparePage lim dec enc req ≠ .error .cursorInvalid := by
  have hown : e.subject = req.subject ∧ e.target = req.target ∧ e.signature = set.signature := by
    have htoken := hstored.tokenFor
    subst htoken
    exact ⟨hsubject, htarget, hsignature⟩
  rw [preparePage]
  split
  next => simp
  split
  next => simp
  simp only [hset]
  split
  next => simp
  next hresolved =>
  have hresolved : set.target = req.target := not_not.mp hresolved
  simp only [hquery]
  rw [prepareCursor]
  simp only [hopen, Bool.false_eq_true, if_false, he, hfresh, hown, ne_eq, not_true_eq_false,
    or_self]
  split
  next page hpage =>
    have hspecs : e.sources.map spec = set.sources := by
      rw [hstored.sourced.specs, hown.2.2]
      rfl
    rw [if_pos (validateSources_of_current hgrow hspecs hcurrent)]
    simp
  next =>
    apply map_ne_error
    exact computePage_ne_cursorInvalid hgrow { hstored.sourced with }
      (hcurrent.of_sources rfl) hown.2.2 (hown.2.1.trans hresolved.symm)

/-- **A request for a current entry is not refused for its cursor.** -/
theorem Pager.page_ne_cursorInvalid {cancelled : Bool}
    (hfresh : e.expired lim req.poll.now = false ∧ e.expired lim now = false) :
    p.page lim dec enc req now cancelled ≠ .error .cursorInvalid := by
  rw [page]
  split
  next err herr =>
    exact error_ne_of_eq (preparePage_ne_cursorInvalid hopen he hstored hquery hsubject htarget hset
      hsignature hgrow hcurrent hfresh.1) herr
  next a hprepare =>
  obtain ⟨set', -, -, hprepares⟩ := preparePage_prepares hprepare
  have hlook : ({ p with nextAddr := p.nextAddr + 1 } : Pager δ).entries.lookup token = some e := he
  have hopen' : ({ p with nextAddr := p.nextAddr + 1 } : Pager δ).closed = false := hopen
  cases hprepares with
  | started hstart => cases hstart.symm.trans hquery
  | cached hcursor hentry _ _ _ hpage =>
    cases hcursor.symm.trans hquery
    cases he.symm.trans hentry
    refine commitPage_ne_cursorInvalid hopen' hlook hfresh.2 ?_ ?_ ?_
    · rfl
    · rfl
    · simp [hpage]
  | computed hcursor hentry =>
    cases hcursor.symm.trans hquery
    cases he.symm.trans hentry
    refine commitPage_ne_cursorInvalid hopen' hlook hfresh.2 ?_ ?_ ?_
    · rfl
    · rfl
    · simp

end Request

/-- **A cursor that was just handed out works**, if what its token stands for is about the files that
    are there and the commit spares it. A commit answers with a page; at that moment the entry that is
    held under the page's next cursor, or else the successor that the commit places, is current, and
    as long as a limit is exceeded there is an older candidate. Then a request with that cursor for
    the same subject and target, for which neither the cursor expired nor a source changed other than
    by growing, is not answered with `cursor_invalid`. -/
theorem handed_out_cursor_works (lim : Limits) (dec : PageDecoder δ β) (enc : Encoding)
    {es : List (PagerEvent β)} {s : PagerState δ β}
    (hreach : exec (PagerState.step lim dec enc) .initial es = some s) {id : Nat} {req : Request β}
    {a : Attempt δ} (ha : s.attempts.lookup id = some (req, a)) {now : Int} {cancelled : Bool}
    {page : Page} (hcommit : (s.pager.commitPage lim dec enc a now cancelled).1 = .ok page)
    {token : Token} (hnext : page.nextCursor = some token) {w : World}
    (hcurrent : ∃ d, s.pager.denoted lim a now token = some d ∧ d.Current w)
    (hspares : (s.pager.settle lim dec enc a now cancelled).Spares lim token)
    {req' : Request β} {now' : Int} (cancelled' : Bool) (hquery : req'.query = .cursor token)
    (hsubject : req'.subject = req.subject) (htarget : req'.target = req.target)
    (hresolved : req'.resolved = req.resolved)
    (hexpired : ∀ e, (s.pager.settle lim dec enc a now cancelled).entries.lookup token = some e →
      e.expired lim now = false ∧ e.expired lim req'.poll.now = false ∧ e.expired lim now' = false)
    (hgrow : w.Grows (req'.poll.view 0) ∧ Growing req'.poll.view) :
    (s.pager.commitPage lim dec enc a now cancelled).2.page lim dec enc req' now' cancelled' ≠
      .error .cursorInvalid := by
  have hinv : s.Inv := inv_initial.run hreach
  have hsized := sized_run hreach
  obtain ⟨d, hd, hcurrent⟩ := hcurrent
  have hsettles := s.pager.settle_settles lim dec enc a now cancelled
  obtain ⟨hopen, e, he, hsources⟩ := hinv.settle_denoted ha hsettles hcommit hnext hsized hd
  obtain ⟨hsubject', htarget', set, hset, hsignature⟩ := hinv.next_token ha hsettles hcommit hnext
  have hheld : (s.pager.commitPage lim dec enc a now cancelled).2.entries.lookup token = some e :=
    hspares.kept (hinv.settle_named ha now cancelled) he (hexpired e he).1
  have hstored := (hinv.commit ha now cancelled).stored token e hheld
  have hopen' : (s.pager.commitPage lim dec enc a now cancelled).2.closed = false := hopen
  exact page_ne_cursorInvalid hopen' hheld hstored hquery (hsubject'.trans hsubject.symm)
    (htarget'.trans htarget.symm) (hresolved.trans hset) hsignature hgrow.2
    ((hcurrent.of_sources hsources).grow hgrow.1) (hexpired e he).2

def fileAs (ident : Nat) (bytes : Bytes) : World := ⟨fun _ => some ident, fun _ => bytes⟩

/-- A session starts to read an empty file; then, the file behind the name being the one of inode
    `ident`, it starts again. -/
def startedTwice (ident : Nat) : List (PagerEvent Unit) :=
  [.prepare 0 (requestAt (fileAs 0 []) (.start 0)), .commit 0 0 false,
    .prepare 1 (requestAt (fileAs ident []) (.start 0))]

theorem fileAs_current (ident : Nat) {c : Cursor Nat}
    (h : c.sources = [⟨⟨"codex", "root", "rel"⟩, 0, some ident, [], [], false, 0, []⟩]) :
    c.Current (fileAs ident []) := by
  intro src hsrc
  rw [h, mem_singleton] at hsrc
  subst hsrc
  exact ⟨fun ident' h' => h', fun _ _ => zero_le _, fun _ _ => rfl⟩

theorem PagerState.step_prepare_lookup {s s' : PagerState δ β} {id : Nat} {req req' : Request β}
    (h : s.step lim dec enc (.prepare id req) = some s')
    (ha : s'.attempts.lookup id = some (req', a)) : req' = req := by
  rw [step] at h
  split_ifs at h with hnew
  split at h
  next =>
    cases h
    simp [ha] at hnew
  next =>
    cases h
    rw [AList.lookup_insert] at ha
    cases ha
    rfl

theorem handed_out_cursor_works_startedTwice : ∃ s : PagerState Nat Unit,
    exec (PagerState.step limits lineEvents shortEncoding) .initial (startedTwice 0) = some s ∧
      ∃ a page, s.attempts.lookup 1 = some (requestAt (fileAs 0 []) (.start 0), a) ∧
        (s.pager.commitPage limits lineEvents shortEncoding a 0 false).1 = .ok page ∧
        page.nextCursor = some emptyToken ∧
        (s.pager.commitPage limits lineEvents shortEncoding a 0 false).2.page limits lineEvents
          shortEncoding (requestAt (fileAs 0 []) (.cursor emptyToken)) 0 false ≠
          .error .cursorInvalid := by
  simp only [exists_and_left]
  refine reaches_imp (P := fun s => ∃ flight, s.attempts.lookup 1 = some flight ∧
    ∃ page, (s.pager.commitPage limits lineEvents shortEncoding flight.2 0 false).1 = .ok page ∧
      page.nextCursor = some emptyToken ∧
      (∃ d, s.pager.denoted limits flight.2 0 emptyToken = some d ∧
        d.sources = [⟨⟨"codex", "root", "rel"⟩, 0, some 0, [], [], false, 0, []⟩]) ∧
      (∀ subject ∈ (s.pager.settle limits lineEvents shortEncoding flight.2 0 false).subjects,
        overLimits limits (s.pager.settle limits lineEvents shortEncoding flight.2 0 false).entries
          subject = false) ∧
      ∀ e ∈ (s.pager.settle limits lineEvents shortEncoding flight.2 0 false).entries.lookup
        emptyToken, e.expired limits 0 = false) (by decide +kernel) ?_
  rintro s hs ⟨⟨req, a⟩, ha, page, hcommit, hnext, ⟨d, hd, hsources⟩, hwithin, hfresh⟩
  obtain ⟨s₀, -, hlast⟩ := exec_append_eq_some.mp
    (show exec _ _ ([PagerEvent.prepare 0 (requestAt (fileAs 0 []) (.start 0)), .commit 0 0 false] ++
      [.prepare 1 (requestAt (fileAs 0 []) (.start 0))]) = some s from hs)
  obtain ⟨s₁, hstep, hnil⟩ := exec_cons_eq_some.mp hlast
  cases hnil
  obtain rfl := step_prepare_lookup hstep ha
  refine ⟨a, ha, page, hcommit, hnext, handed_out_cursor_works limits lineEvents shortEncoding hs ha
    hcommit hnext ⟨d, hd, fileAs_current 0 hsources⟩ (Settled.spares_of_within hwithin _) false rfl
    rfl rfl rfl (fun e he => ⟨hfresh e he, hfresh e he, hfresh e he⟩) ⟨.refl _, fun _ => .refl _⟩⟩

/-- **A cursor that is refused right after it was handed out.** An empty file was read and then
    replaced by another empty one. A reader that starts again gets the token it got before; the entry
    under it recorded the file that is gone. -/
theorem handed_out_cursor_refused : ∃ s : PagerState Nat Unit,
    exec (PagerState.step limits lineEvents shortEncoding) .initial (startedTwice 1) = some s ∧
      ∃ a page, (s.attempts.lookup 1).map Prod.snd = some a ∧
        (s.pager.commitPage limits lineEvents shortEncoding a 0 false).1 = .ok page ∧
        page.nextCursor = some emptyToken ∧
        ((s.pager.commitPage limits lineEvents shortEncoding a 0 false).2.entries.lookup
          emptyToken).any (fun e => !e.expired limits 0) = true ∧
        (s.pager.commitPage limits lineEvents shortEncoding a 0 false).2.page limits lineEvents
          shortEncoding (requestAt (fileAs 1 []) (.cursor emptyToken)) 0 false =
          .error .cursorInvalid := by
  simp only [exists_and_left]
  decide +kernel

end Handouts

end AgentMultiplexer.Daemon.EventPager
