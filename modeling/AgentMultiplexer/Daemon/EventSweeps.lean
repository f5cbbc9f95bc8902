import AgentMultiplexer.Daemon.EventPages

set_option autoImplicit false

/-! # When a page says that there is no more

A page has no more when its sweep came to the end of the last source. A sweep that started after the
sources stopped growing then has read all of them. A sweep that started before may have passed a
source that grew behind it: the page that ends it says that there is no more all the same, and what
was appended comes with the next sweep. -/

namespace AgentMultiplexer.Daemon.EventPager

open Lines List RuntimeEvents SliceReader Option Cursor Nat

/-- What is behind a name. -/
def World.content (w : World) (path : String × String) : Bytes := (w.dir path).elim [] w.data

/-- Everything behind the name is consumed. -/
def Source.AtEnd (src : Source) (w : World) : Prop :=
  ∀ ident, w.dir src.spec.path = some ident → (w.data ident).length ≤ src.offset

theorem Source.AtEnd.onward {src src' : Source} {w : World} (h : src.AtEnd w)
    (honward : src.Onward src') : src'.AtEnd w := by
  intro ident hident
  rw [honward.spec] at hident
  exact (h ident hident).trans honward.offset

section Sweeps

variable {δ β : Type}

/-- The sources from the `k`-th up to the `l`-th have been read to their ends. -/
def Cursor.Swept (w : World) (k l : Nat) (c : Cursor δ) : Prop :=
  ∀ (i : Nat) (src : Source), k ≤ i → i < l → c.sources[i]? = some src → src.AtEnd w

variable {lim : Limits} {dec : PageDecoder δ β} {enc : Encoding} {init : δ} {bindings : β}
  {w : World} {view : Nat → World} {k l : Nat}

/-! ## The end of a sweep -/

variable {x y : Paging δ}

/-- The loop goes on inside one sweep. -/
theorem Paging.Does.sweepComplete_goOn
    (h : x.Does lim dec enc view bindings (.goOn y)) : y.sweepComplete = x.sweepComplete := by
  cases h with
  | skip | carry | missing => rfl
  | skipRaw hreads | next hreads | stay hreads => rw [hreads.after]

/-- A sweep that is over has come back to the first source. -/
theorem Paging.Does.source_stop
    (h : x.Does lim dec enc view bindings (.stop y)) (hsweep : x.sweepComplete = false)
    (hover : y.sweepComplete = true) : y.state.source = 0 ∧ y.state.sources = x.state.sources ∧
      x.state.sources[x.state.source]? = none := by
  cases h with
  | wrap hnone => exact ⟨rfl, rfl, hnone⟩
  | full => simp [hsweep] at hover
  | mark => simp [Paging.spend, hsweep] at hover
  | markRaw hreads => simp [hreads.after, hsweep] at hover

variable {set : SourceSet β} {page : Page}

theorem pageLoop_source {ctx : List Nat} {c : Cursor δ} (hempty : c.sources = [] → c.source = 0)
    (hloop : pageLoop lim dec enc view bindings ctx c.paging = .ok x)
    (hsweep : x.sweepComplete = true) : x.state.source = 0 := by
  refine pageLoop_induction (fun y => y.sweepComplete = true → y.state.source = 0)
    (fun y => y.sweepComplete = true → y.state.source = 0) (fun _ hy _ => hy) ?_ ?_ ?_ hloop hsweep
  · intro y z _ hsweep hdoes hover
    simp [hdoes.sweepComplete_goOn, hsweep] at hover
  · exact fun y z _ hsweep hdoes hover => (hdoes.source_stop hsweep hover).1
  · intro hsweep
    exact hempty (by simpa [paging] using hsweep)

theorem computePage_source_of_not_hasMore {poll : Poll} {c c' : Cursor δ}
    (hempty : c.sources = [] → c.source = 0)
    (h : computePage lim dec enc poll c set = .ok (page, c')) :
    (c'.sources = [] → c'.source = 0) ∧ (page.hasMore = false → c'.source = 0) := by
  obtain ⟨-, -, -, x, hloop, hreturns⟩ := computePage_returns h
  have hsource := pageLoop_source hempty hloop
  constructor
  · intro hnil
    have hx : c.sources = [] := by
      have hlen := (computePage_onward h).length
      rw [hnil] at hlen
      exact eq_nil_of_length_eq_zero hlen.symm
    have hdone : c.paging.sweepComplete = true := by simp [paging, hx]
    have hx : x = c.paging := by
      cases hctx : poll.ctx with
      | nil | cons =>
        rw [hctx, pageLoop, if_pos (.inl hdone)] at hloop
        exact (Except.ok.inj hloop).symm
    rw [hreturns.source]
    exact hsource (hx ▸ hdone)
  · intro hmore
    rw [hreturns.hasMore, Bool.or_eq_false_iff] at hmore
    rw [hreturns.source]
    exact hsource (by simpa using hmore.1)

/-! ## Sources that were passed -/

variable {c c' : Cursor δ}

theorem Cursor.Onward.source_back (h : c.Onward c') {i : Nat} {src' : Source}
    (hsrc' : c'.sources[i]? = some src') : ∃ src, c.sources[i]? = some src ∧ src.Onward src' := by
  have hi : i < c.sources.length := by
    rw [← h.length]
    exact (List.getElem?_eq_some_iff.mp hsrc').1
  have hsrc : c.sources[i]? = some c.sources[i] := getElem?_eq_getElem hi
  exact ⟨_, hsrc, h.sources i _ _ hsrc hsrc'⟩

theorem Cursor.Swept.onward (h : c.Swept w k l) (honward : c.Onward c') : c'.Swept w k l := by
  intro i src' hk hl hsrc'
  obtain ⟨src, hsrc, hsource⟩ := honward.source_back hsrc'
  exact (h i src hk hl hsrc).onward hsource

/-- **A round goes past a source at the end** that the source had in an earlier world. -/
theorem Cursor.Swept.goOn (hstart : w.Grows (view 0)) (hgrow : Growing view)
    (h : x.state.Swept w k x.state.source) (hdoes : x.Does lim dec enc view bindings (.goOn y)) :
    y.state.Swept w k y.state.source := by
  have hlater (n : Nat) : w.Grows (view n) := hstart.trans (hgrow.le (Nat.zero_le n))
  have hold := h.onward hdoes.onward
  cases hdoes with
  | skip | carry => exact hold
  | skipRaw hreads | stay hreads =>
    obtain rfl := hreads.after
    exact hold
  | missing hsrc _ hdir =>
    intro i src' hk hl hsrc'
    rcases Nat.lt_succ_iff_lt_or_eq.mp hl with hlt | rfl
    · exact hold i src' hk hlt hsrc'
    -- a name that leads nowhere now led nowhere before
    cases hsrc.symm.trans hsrc'
    intro ident hident
    cases hdir.symm.trans ((hlater x.op).dir _ _ hident)
  | @next src src₁ ident result z hreads _ _ hend =>
    obtain rfl := hreads.after
    intro i src' hk hl hsrc'
    rcases Nat.lt_succ_iff_lt_or_eq.mp hl with hlt | rfl
    · exact hold i src' hk hlt hsrc'
    obtain rfl : src' = src₁ := by
      simpa [setSource_getElem? _ hreads.found] using hsrc'.symm
    intro ident' hident'
    rw [hreads.onward.1.spec] at hident'
    obtain rfl : ident' = ident := mem_unique ((hlater x.op).dir _ _ hident') hreads.opened
    exact ((hlater (x.op + 1)).data ident').length_le.trans hend

theorem Cursor.Swept.stop (h : x.state.Swept w k x.state.source)
    (hdoes : x.Does lim dec enc view bindings (.stop y)) : y.state.Swept w k y.state.source := by
  have hold := h.onward hdoes.onward
  cases hdoes with
  | wrap => exact fun i _ _ hi => absurd hi (not_lt_zero i)
  | full | mark => exact hold
  | markRaw hreads =>
    obtain rfl := hreads.after
    exact hold

/-- **The loop of a page in a sweep**: the sources it went past were read to their ends. -/
theorem pageLoop_swept (hstart : w.Grows (view 0)) (hgrow : Growing view) {ctx : List Nat}
    (hswept : c.Swept w k c.source)
    (hloop : pageLoop lim dec enc view bindings ctx c.paging = .ok x) :
    x.state.Swept w k x.state.source ∧
      (x.sweepComplete = true → x.state.Swept w k x.state.sources.length) := by
  refine pageLoop_induction
    (fun y => y.state.Swept w k y.state.source ∧
      (y.sweepComplete = true → y.state.Swept w k y.state.sources.length))
    (fun y => y.state.Swept w k y.state.source ∧
      (y.sweepComplete = true → y.state.Swept w k y.state.sources.length))
    (fun _ hy _ => hy) ?_ ?_ ?_ hloop
  · intro y z ⟨hswept, _⟩ hsweep hdoes
    refine ⟨hswept.goOn hstart hgrow hdoes, fun hdone => ?_⟩
    simp [hdoes.sweepComplete_goOn, hsweep] at hdone
  · intro y z ⟨hswept, _⟩ hsweep hdoes
    refine ⟨hswept.stop hdoes, fun hdone => ?_⟩
    -- the sweep came past the last source
    obtain ⟨-, hsources, hnone⟩ := hdoes.source_stop hsweep hdone
    rw [hsources]
    intro i src hk hl hsrc
    rw [List.getElem?_eq_none_iff] at hnone
    exact hswept i src hk (lt_of_lt_of_le hl hnone) (hsources ▸ hsrc)
  · refine ⟨hswept, fun hdone i src _ hi => ?_⟩
    have hnil : c.sources = [] := by simpa [paging] using hdone
    simp [paging, hnil] at hi

/-- **One page of a sweep.** A page that has no more went past the last source, and nothing that it
    read waits. -/
theorem computePage_swept {poll : Poll} (hstart : w.Grows (poll.view 0)) (hgrow : Growing poll.view)
    (hswept : c.Swept w k c.source) (h : computePage lim dec enc poll c set = .ok (page, c')) :
    c'.Swept w k c'.source ∧
      (page.hasMore = false → c'.Swept w k c'.sources.length ∧ c'.waiting = []) := by
  obtain ⟨-, -, -, x, hloop, hreturns⟩ := computePage_returns h
  have hover := pageLoop_swept hstart hgrow hswept hloop
  refine ⟨?_, fun hmore => ?_⟩
  · rw [hreturns.source]
    exact hover.1.onward hreturns.onward
  rw [hreturns.hasMore, Bool.or_eq_false_iff] at hmore
  refine ⟨?_, ?_⟩
  · rw [hreturns.onward.length]
    exact (hover.2 (by simpa using hmore.1)).onward hreturns.onward
  rw [waiting]
  cases hsrc : c'.sources[c'.source]? with
  | none => rfl
  | some src =>
    have hidle := any_eq_false.mp hmore.2 src (mem_of_getElem? hsrc)
    simp only [Bool.or_eq_true, not_or, decide_eq_true_eq, not_not] at hidle
    exact eq_nil_of_length_eq_zero hidle.1

variable {polls : List (Poll × SourceSet β)}

theorem follow_of_no_pages
    (h : (follow lim dec enc c polls).1 = []) : (follow lim dec enc c polls).2 = c := by
  induction polls with
  | nil => rfl
  | cons p rest ih =>
    rw [follow] at h ⊢
    split at h
    next => exact ih h
    next => simp at h

/-- What every page keeps, and a page that has no more adds to, holds at the end of a chain whose last
    page has no more. -/
theorem follow_last {P Q : Cursor δ → Prop} (hkeep : ∀ p ∈ polls, ∀ {c page next}, P c →
      computePage lim dec enc p.1 c p.2 = .ok (page, next) →
      P next ∧ (page.hasMore = false → Q next)) (hc : P c)
    (hlast : (follow lim dec enc c polls).1.getLast? = some page) (hmore : page.hasMore = false) :
    Q (follow lim dec enc c polls).2 := by
  fun_induction follow lim dec enc c polls with
  | case1 => cases hlast
  | case2 c poll set rest err herr ih =>
    exact ih (fun p hp => hkeep p (mem_cons_of_mem _ hp)) hc hlast
  | case3 c poll set rest page₁ next hpage ih =>
    obtain ⟨hnext, hdone⟩ := hkeep _ mem_cons_self hc hpage
    cases hpages : (follow lim dec enc next rest).1 with
    | nil =>
      rw [hpages] at hlast
      obtain rfl : page₁ = page := by simpa using hlast
      rw [follow_of_no_pages hpages]
      exact hdone hmore
    | cons page₂ pages =>
      rw [hpages, getLast?_cons_cons, ← hpages] at hlast
      exact ih (fun p hp => hkeep p (mem_cons_of_mem _ hp)) hnext hlast

theorem follow_swept (hstill : ∀ p ∈ polls, ∀ n, p.1.view n = w) (hswept : c.Swept w 0 c.source)
    (hlast : (follow lim dec enc c polls).1.getLast? = some page) (hmore : page.hasMore = false) :
    (follow lim dec enc c polls).2.Swept w 0 (follow lim dec enc c polls).2.sources.length ∧
      (follow lim dec enc c polls).2.waiting = [] := by
  refine follow_last (P := fun c => c.Swept w 0 c.source)
    (Q := fun c => c.Swept w 0 c.sources.length ∧ c.waiting = [])
    (fun p hp c page next hc hpage => ?_) hswept hlast hmore
  refine computePage_swept ?_ (fun n => ?_) hc hpage
  · rw [hstill p hp]
    exact .refl w
  · rw [hstill p hp, hstill p hp]
    exact .refl w

/-! ## Paging refines the whole decode -/

variable (lim enc) in
theorem newCursor_stands {addr : Nat} {subject : String} {after : Nat} {now : Int}
    (h : newCursor dec addr subject set after now = some c) (w : World) :
    c.Stands lim dec c.decoder w (fun _ => []) [] ∧ c.Shown lim dec enc c.decoder [] [] [] ∧
      (c.after = after ∧ c.target = set.target ∧ c.runtime = set.runtime) ∧ c.source = 0 ∧ c.sources.length = set.sources.length ∧
      ∀ (i : Nat) (src : Source), c.sources[i]? = some src → set.sources[i]? = some src.spec := by
  obtain ⟨decoder, -, rfl⟩ := map_eq_some_iff.mp h
  have hsrc : ∀ (i : Nat) (src : Source), (set.sources.map fun spec =>
      (⟨spec, 0, none, [], [], false, 0, []⟩ : Source))[i]? = some src →
      ∃ spec, set.sources[i]? = some spec ∧ src = ⟨spec, 0, none, [], [], false, 0, []⟩ := by
    intro i src hi
    rw [getElem?_map] at hi
    obtain ⟨spec, hspec, rfl⟩ := map_eq_some_iff.mp hi
    exact ⟨spec, hspec, rfl⟩
  have hidle : ∀ (i : Nat) (src : Source), (set.sources.map fun spec =>
      (⟨spec, 0, none, [], [], false, 0, []⟩ : Source))[i]? = some src → src.pending = [] := by
    intro i src hi
    obtain ⟨spec, -, rfl⟩ := hsrc i src hi
    rfl
  refine ⟨⟨?_, ?_, fun i src hi _ => hidle i src hi, by simp, rfl⟩, ⟨?_, rfl, ?_⟩, ⟨rfl, rfl, rfl⟩,
    rfl, by simp, ?_⟩
  · intro i src hi
    obtain ⟨spec, -, rfl⟩ := hsrc i src hi
    exact ⟨⟨rfl, rfl, by simp, by simp⟩, fun _ => rfl, fun _ hident => by cases hident⟩
  · intro i src _
    rfl
  · rw [waiting]
    dsimp only
    cases hzero : (set.sources.map fun spec =>
        (⟨spec, 0, none, [], [], false, 0, []⟩ : Source))[0]? with
    | none => rfl
    | some src =>
      simp only [elim_some, hidle 0 src hzero]
      rfl
  · simp [numbered]
  · intro i src hi
    obtain ⟨spec, hspec, rfl⟩ := hsrc i src hi
    exact hspec

theorem forall₂_shows_numbers {target runtime : String} {numberedItems : List (Item × Nat)}
    {shown : List (Nat × EventPager.Shown)}
    (h : List.Forall₂ (Shows lim enc target runtime) numberedItems shown) :
    shown.map Prod.fst = numberedItems.map Prod.snd := by
  induction h with
  | nil => rfl
  | cons hshows _ ih =>
    rw [map_cons, map_cons, ih]
    cases hshows <;> rfl

variable (lim dec enc) in
/-- **The pages decode the sources**: there is one sweep of records for each page, in the order of
    the sources, under the bindings of one of the requests; the lines of a source among all records
    are its first complete lines; and the pages show, numbered from the one after `after` on, the
    first of the items that one decoder yields for all records. -/
structure Decodes (init : δ) (set : SourceSet β) (after : Nat) (polls : List (Poll × SourceSet β))
    (w : World) (pages : List Page) (sweeps : List (List (Record β))) (items : List Item) :
    Prop where
  onePerPage : sweeps.length = pages.length
  sorted : ∀ sweep ∈ sweeps, (sweep.Pairwise fun a b => a.source ≤ b.source) ∧
    ∃ p ∈ polls, ∀ r ∈ sweep, r.bindings = p.2.bindings
  known : ∀ r ∈ sweeps.flatten, r.source < set.sources.length
  lines : ∀ (i : Nat) (spec : SourceSpec), set.sources[i]? = some spec →
    linesOf i sweeps.flatten <+: Lines.lines newline (w.content spec.path)
  first : items <+: (lineDecoder lim dec init).output sweeps.flatten
  shown : List.Forall₂ (Shows lim enc set.target set.runtime) (numbered after items)
    (pages.flatMap Page.items)
  numbers : (pages.flatMap Page.items).map Prod.fst = List.range' (after + 1) (items.length - after)

variable (lim dec enc) in
/-- The pages have delivered every complete line. -/
structure Delivers (init : δ) (set : SourceSet β) (after : Nat) (polls : List (Poll × SourceSet β))
    (w : World) (pages : List Page) (sweeps : List (List (Record β))) (items : List Item) : Prop
    extends Decodes lim dec enc init set after polls w pages sweeps items where
  all : items = (lineDecoder lim dec init).output sweeps.flatten
  whole : ∀ (i : Nat) (spec : SourceSpec), set.sources[i]? = some spec →
    linesOf i sweeps.flatten = Lines.lines newline (w.content spec.path)

variable {items : List Item} {done : Nat → Bytes}

section Lines

variable {records : List (Record β)} {i : Nat} {src : Source}
  (h : c.Stands lim dec init w done records) (hsrc : c.sources[i]? = some src)

include h hsrc

/-- The lines of a source among the records are its first complete lines. -/
theorem Cursor.Stands.linesOf_isPrefix :
    linesOf i records <+: Lines.lines newline (w.content src.spec.path) := by
  have htracks := h.sources i src hsrc
  rw [← h.lines i src hsrc]
  cases hident : src.identity with
  | none =>
    rw [htracks.unopened hident]
    exact List.nil_prefix
  | some ident =>
    obtain ⟨hdir, hbehind⟩ := htracks.behind ident hident
    rw [World.content, hdir, elim_some]
    exact lines_isPrefix hbehind

/-- A source that was read to the end it had has all the complete lines it had among the records. -/
theorem Cursor.Stands.isPrefix_linesOf {w₀ : World} (hgrow : w₀.Grows w) (hend : src.AtEnd w₀) :
    Lines.lines newline (w₀.content src.spec.path) <+: linesOf i records := by
  have htracks := h.sources i src hsrc
  rw [← h.lines i src hsrc, World.content]
  cases hdir : w₀.dir src.spec.path with
  | none => exact List.nil_prefix
  | some ident =>
    have hsize := hend ident hdir
    rw [htracks.read.offset] at hsize
    refine lines_isPrefix ?_
    cases hident : src.identity with
    | none =>
      rw [htracks.unopened hident] at hsize ⊢
      rw [elim_some, eq_nil_of_length_eq_zero (Nat.le_zero.mp hsize)]
    | some ident' =>
      obtain ⟨hdir', hbehind⟩ := htracks.behind ident' hident
      obtain rfl : ident' = ident := mem_unique hdir' (hgrow.dir _ _ hdir)
      exact prefix_of_prefix_length_le (hgrow.data ident') hbehind hsize

end Lines

/-- The chain from a new cursor, in the terms of the whole decode. -/
theorem decodes_of_stands {after : Nat} {pages : List Page} {sweeps : List (List (Record β))}
    (hstands : c.Stands lim dec init w done sweeps.flatten)
    (hshown : c.Shown lim dec enc init sweeps.flatten items (pages.flatMap Page.items))
    (hsession : c.after = after ∧ c.target = set.target ∧ c.runtime = set.runtime)
    (hlen : sweeps.length = pages.length)
    (hsorted : ∀ sweep ∈ sweeps, (sweep.Pairwise fun a b => a.source ≤ b.source) ∧
      ∃ p ∈ polls, ∀ r ∈ sweep, r.bindings = p.2.bindings)
    (hlength : c.sources.length = set.sources.length)
    (hspecs : ∀ (i : Nat) (src : Source), c.sources[i]? = some src →
      set.sources[i]? = some src.spec) :
    Decodes lim dec enc init set after polls w pages sweeps items ∧
      (c.Swept w 0 c.sources.length → c.waiting = [] →
        Delivers lim dec enc init set after polls w pages sweeps items) := by
  have hsource {i : Nat} {spec : SourceSpec} (hspec : set.sources[i]? = some spec) :
      ∃ src, c.sources[i]? = some src ∧ src.spec = spec := by
    have hlt : i < c.sources.length := by
      rw [hlength]
      exact (List.getElem?_eq_some_iff.mp hspec).1
    refine ⟨c.sources[i], getElem?_eq_getElem hlt, ?_⟩
    exact mem_unique (hspecs i _ (getElem?_eq_getElem hlt)) hspec
  have hshows := hshown.shows
  rw [hsession.1, hsession.2.1, hsession.2.2] at hshows
  have hdecodes : Decodes lim dec enc init set after polls w pages sweeps items := by
    refine ⟨hlen, hsorted, ?_, ?_, ⟨_, hshown.output.symm⟩, hshows, ?_⟩
    · exact fun r hr => hlength ▸ hstands.known r hr
    · intro i spec hspec
      obtain ⟨src, hsrc, rfl⟩ := hsource hspec
      exact hstands.linesOf_isPrefix hsrc
    · rw [forall₂_shows_numbers hshows, numbered, map_drop, zipIdx_map_snd, drop_range',
        Nat.mul_one, Nat.add_comm]
  refine ⟨hdecodes, fun hswept hidle => ⟨hdecodes, ?_, ?_⟩⟩
  · rw [hshown.output, hidle]
    simp
  · intro i spec hspec
    obtain ⟨src, hsrc, rfl⟩ := hsource hspec
    have hend := hswept i src i.zero_le (List.getElem?_eq_some_iff.mp hsrc).1 hsrc
    exact antisymm_of (· <+: ·) (hstands.linesOf_isPrefix hsrc)
      (hstands.isPrefix_linesOf hsrc (.refl w) hend)

theorem follow_append (c : Cursor δ) (polls polls' : List (Poll × SourceSet β)) :
    follow lim dec enc c (polls ++ polls') = ((follow lim dec enc c polls).1 ++
        (follow lim dec enc (follow lim dec enc c polls).2 polls').1,
      (follow lim dec enc (follow lim dec enc c polls).2 polls').2) := by
  induction polls generalizing c with
  | nil => rfl
  | cons p rest ih =>
    obtain ⟨poll, set⟩ := p
    rw [cons_append, follow, follow]
    cases computePage lim dec enc poll c set with
    | error err => exact ih c
    | ok returned =>
      dsimp only
      rw [ih, cons_append]

theorem Growth.append {w w₁ w' : World} {polls polls' : List (Poll × SourceSet β)}
    (h : Growth w polls w₁) (h' : Growth w₁ polls' w') : Growth w (polls ++ polls') w' := by
  induction polls generalizing w with
  | nil =>
    cases polls' with
    | nil => exact .trans h h'
    | cons p rest => exact ⟨.trans h h'.1, h'.2⟩
  | cons p rest ih =>
    obtain ⟨hstart, hgrow, w₂, hend, hrest⟩ := h
    exact ⟨hstart, hgrow, w₂, hend, ih hrest⟩

theorem growth_of_still (h : ∀ p ∈ polls, ∀ n, p.1.view n = w) : Growth w polls w := by
  induction polls with
  | nil => exact .refl w
  | cons p rest ih =>
    have hp := h p mem_cons_self
    refine ⟨by rw [hp]; exact .refl w, fun n => by rw [hp, hp]; exact .refl w, w,
      fun n => by rw [hp]; exact .refl w, ih fun q hq => h q (mem_cons_of_mem _ hq)⟩

/-- A chain that ends with a page that has no more stands at the start of a sweep. -/
theorem follow_source (hempty : c.sources = [] → c.source = 0)
    (hlast : (follow lim dec enc c polls).1.getLast? = some page) (hmore : page.hasMore = false) :
    (follow lim dec enc c polls).2.source = 0 :=
  follow_last (P := fun c => c.sources = [] → c.source = 0) (Q := fun c => c.source = 0)
    (fun _ _ _ _ _ => computePage_source_of_not_hasMore) hempty hlast hmore

/-- **Paging refines the whole decode.** However the sources grow and whenever the client asks, the
    pages it obtains from a new cursor decode the sources. A page that has no more ends a sweep;
    and where the sources stand still from the start of a sweep on, a page that has no more has
    delivered every complete line. -/
theorem paging_refines_decode (lim : Limits) (dec : PageDecoder δ β) (enc : Encoding) {addr : Nat}
    {subject : String} {set : SourceSet β} {after : Nat} {now : Int} {c : Cursor δ}
    (hnew : newCursor dec addr subject set after now = some c)
    {polls : List (Poll × SourceSet β)} {w w' : World} (hgrowth : Growth w polls w') :
    (∃ sweeps items, Decodes lim dec enc c.decoder set after polls w'
      (follow lim dec enc c polls).1 sweeps items) ∧
    (∀ page, (follow lim dec enc c polls).1.getLast? = some page → page.hasMore = false →
      (follow lim dec enc c polls).2.source = 0) ∧
    ∀ later : List (Poll × SourceSet β), (follow lim dec enc c polls).2.source = 0 →
      (∀ p ∈ later, ∀ n, p.1.view n = w') →
      ∀ page, (follow lim dec enc (follow lim dec enc c polls).2 later).1.getLast? = some page →
        page.hasMore = false →
        ∃ sweeps items, Delivers lim dec enc c.decoder set after (polls ++ later) w'
          (follow lim dec enc c (polls ++ later)).1 sweeps items := by
  obtain ⟨hstands, hshown, ⟨hafter, htarget, hruntime⟩, hsource, hlength, hspecs⟩ :=
    newCursor_stands lim enc hnew w'
  -- what the chain keeps of the new cursor
  have hkept {c' : Cursor δ} (honward : c.Onward c') :
      (c'.after = after ∧ c'.target = set.target ∧ c'.runtime = set.runtime) ∧
      c'.sources.length = set.sources.length ∧ ∀ (i : Nat) (src : Source), c'.sources[i]? = some src → set.sources[i]? = some src.spec := by
    refine ⟨⟨honward.after.trans hafter, honward.target.trans htarget,
      honward.runtime.trans hruntime⟩, honward.length.trans hlength, fun i src hsrc => ?_⟩
    have hlt : i < c.sources.length := by
      rw [← honward.length]
      exact (List.getElem?_eq_some_iff.mp hsrc).1
    have hfirst : c.sources[i]? = some c.sources[i] := getElem?_eq_getElem hlt
    rw [(honward.sources i _ _ hfirst hsrc).spec]
    exact hspecs i _ hfirst
  refine ⟨?_, ?_, ?_⟩
  · obtain ⟨done', sweeps, items, hs, hsh, hlen, hsweeps, honward⟩ :=
      follow_follows hstands hshown hgrowth
    obtain ⟨hsession, hlength', hspecs'⟩ := hkept honward
    exact ⟨sweeps, items, (decodes_of_stands hs hsh hsession hlen hsweeps hlength' hspecs').1⟩
  · exact fun page hlast hmore => follow_source (fun _ => hsource) hlast hmore
  intro later hzero hstill page hlast hmore
  obtain ⟨hswept, hidle⟩ := follow_swept hstill
    (fun i _ _ hi => absurd (hzero ▸ hi) (not_lt_zero i)) hlast hmore
  obtain ⟨done', sweeps, items, hs, hsh, hlen, hsweeps, honward⟩ :=
    follow_follows hstands hshown (hgrowth.append (growth_of_still hstill))
  have hend : (follow lim dec enc c (polls ++ later)).2 =
      (follow lim dec enc (follow lim dec enc c polls).2 later).2 := by rw [follow_append]
  obtain ⟨hsession, hlength', hspecs'⟩ := hkept honward
  refine ⟨sweeps, items,
    (decodes_of_stands hs hsh hsession hlen hsweeps hlength' hspecs').2 ?_ ?_⟩
  · rw [hend]
    exact hswept
  · rw [hend]
    exact hidle

/-! ## A line that is completed behind the sweep -/

/-- Pages that read at most `readBytes` bytes each. -/
def smallPages (readBytes : Nat) : Limits := { limits with pageReadBytes := readBytes }

/-- One event for each line; the state counts them. -/
def lineEvents : PageDecoder Nat Unit where
  init _ _ := some 0
  map n _ line _ := (n + 1, [⟨"line", "", "", line⟩])
  memoryBytes _ := 0

/-- Everything fits. -/
def shortEncoding : Encoding := ⟨fun _ => some 0, fun _ => 0⟩

/-- A session with one source. -/
def oneSource : SourceSet Unit := ⟨"target", [], "codex", [⟨"codex", "root", "rel"⟩], ()⟩

/-- One file with these bytes. -/
def fileOf (bytes : Bytes) : World := ⟨fun _ => some 0, fun _ => bytes⟩

/-- A request while the world is this one. -/
def pollAt (w : World) : Poll × SourceSet Unit := (⟨fun _ => w, [9, 9, 9, 9, 9, 9], 0⟩, oneSource)

def firstCursor : Cursor Nat :=
  ⟨0, none, "subject", "target", oneSource.signature, "codex",
    [⟨⟨"codex", "root", "rel"⟩, 0, none, [], [], false, 0, []⟩], 0, 0, 0, 0, 0, 0, none, none⟩

/-- The start of a line, and the line. -/
def lineStart : Bytes := [97, 98, 99, 100]

theorem fileOf_grows : (fileOf lineStart).Grows (fileOf (lineStart ++ [newline])) :=
  ⟨fun _ _ h => h, fun _ => prefix_append _ _⟩

theorem growth_pollAt :
    Growth (fileOf lineStart) [pollAt (fileOf lineStart)] (fileOf (lineStart ++ [newline])) :=
  ⟨.refl _, fun _ => .refl _, _, fun _ => .refl _, fileOf_grows⟩

theorem paging_refines_decode_oneLine :
    (follow (smallPages 64) lineEvents shortEncoding firstCursor
        [pollAt (fileOf lineStart)]).2.source = 0 ∧
      ∃ sweeps items, Delivers (smallPages 64) lineEvents shortEncoding 0 oneSource 0
        [pollAt (fileOf lineStart), pollAt (fileOf (lineStart ++ [newline]))]
        (fileOf (lineStart ++ [newline]))
        (follow (smallPages 64) lineEvents shortEncoding firstCursor
          [pollAt (fileOf lineStart), pollAt (fileOf (lineStart ++ [newline]))]).1 sweeps items := by
  have hnew : newCursor lineEvents 0 "subject" oneSource 0 0 = some firstCursor := rfl
  have hzero : (follow (smallPages 64) lineEvents shortEncoding firstCursor
      [pollAt (fileOf lineStart)]).2.source = 0 := by decide +kernel
  have hlast : ((follow (smallPages 64) lineEvents shortEncoding (follow (smallPages 64) lineEvents
      shortEncoding firstCursor [pollAt (fileOf lineStart)]).2
      [pollAt (fileOf (lineStart ++ [newline]))]).1.getLast?).any (fun page => !page.hasMore) =
        true := by decide +kernel
  obtain ⟨page, hpage, hmore⟩ := (any_eq_true _ _).mp hlast
  exact ⟨hzero, (paging_refines_decode
    (smallPages 64) lineEvents shortEncoding hnew growth_pollAt).2.2
    [pollAt (fileOf (lineStart ++ [newline]))] hzero (by simp [pollAt]) page hpage
    (by simpa using hmore)⟩

/-- **No more, before the last line.** The first page ends right behind the start of a line, at its
    limit and past the source; the line is completed; the page after it, for which nothing changes
    any more, only ends the sweep and says that there is no more. -/
theorem no_more_before_the_last_line :
    Growth (fileOf lineStart) [pollAt (fileOf lineStart), pollAt (fileOf (lineStart ++ [newline]))]
        (fileOf (lineStart ++ [newline])) ∧
      newCursor lineEvents 0 "subject" oneSource 0 0 = some firstCursor ∧
      (follow (smallPages 4) lineEvents shortEncoding firstCursor
        [pollAt (fileOf lineStart), pollAt (fileOf (lineStart ++ [newline]))]).1.map
          (fun page => (page.hasMore, page.items)) = [(true, []), (false, [])] ∧
      Lines.lines newline ((fileOf (lineStart ++ [newline])).content ("root", "rel")) =
        [lineStart ++ [newline]] := by
  refine ⟨growth_pollAt.append (growth_of_still (by simp [pollAt])), rfl, ?_, ?_⟩
  · decide +kernel
  · decide +kernel

end Sweeps

end AgentMultiplexer.Daemon.EventPager
