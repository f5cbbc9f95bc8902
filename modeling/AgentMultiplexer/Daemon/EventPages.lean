import AgentMultiplexer.Daemon.EventRounds

set_option autoImplicit false

/-! # Following the pages of a session

A client that follows `next_cursor` from the start reads the sources as one continuous decode would:
there is a list of records, the lines of all sources in the order in which the pages swept them, and
the pages show what the decoder yields for that list, item by item, numbered from the first. A page
may stop anywhere, inside a file, a line or the events of one line; the cursor keeps what is needed
to go on: the bytes consumed of each source, the decoder, and the events that wait. -/

namespace AgentMultiplexer.Daemon.EventPager

open RuntimeEvents Lines SliceReader Cursor Function Page Nat

/-! ## What pages show -/

/-- An event, or the marker of what could not be carried. -/
inductive Shown
  | event (ev : RuntimeEvent)
  | oversized (marker : Oversized)
  deriving DecidableEq

/-- What a page shows, with its sequence numbers. -/
def Page.items (page : Page) : List (Nat × Shown) :=
  page.events.map (fun e => (e.1, .event e.2)) ++
    page.oversized.toList.map fun marker => (marker.sequence, .oversized marker)

/-- The items from the one after `after` on, numbered from 1. -/
def numbered (after : Nat) (items : List Item) : List (Item × Nat) := (items.zipIdx 1).drop after

theorem numbered_concat_of_le {after : Nat} {items : List Item} (item : Item)
    (h : items.length + 1 ≤ after) : numbered after (items ++ [item]) = numbered after items := by
  rw [numbered, numbered, List.drop_eq_nil_of_le (by simpa using h),
    List.drop_eq_nil_of_le (by simpa using le_of_succ_le h)]

theorem numbered_concat {after : Nat} {items : List Item} (item : Item)
    (h : after < items.length + 1) :
    numbered after (items ++ [item]) = numbered after items ++ [(item, items.length + 1)] := by
  rw [numbered, numbered, List.zipIdx_append, List.drop_append_of_le_length (by simp; omega)]
  simp [add_comm]

/-- The lines of one source among the records. -/
def linesOf {β : Type} (i : Nat) (records : List (Record β)) : List Bytes :=
  (records.filter fun r => r.source = i).map Record.line

theorem linesOf_append {β : Type} (i j : Nat) (records : List (Record β)) (ls : List Bytes)
    (bindings : β) : linesOf j (records ++ ls.map fun l => ⟨i, l, bindings⟩) =
      linesOf j records ++ if j = i then ls else [] := by
  rw [linesOf, linesOf, List.filter_append, List.map_append]
  by_cases hj : j = i
  · subst hj
    simp [List.filter_map, comp_def]
  · simp [List.filter_map, comp_def, Ne.symm hj, hj]

section Pages

variable {δ β : Type} (lim : Limits) (dec : PageDecoder δ β) (enc : Encoding)

/-- How the pages of a session show an item: an event as itself or, where a page that was empty
    before it cannot carry it, by its marker; a record that is too long by its marker. -/
inductive Shows (target runtime : String) : Item × Nat → Nat × Shown → Prop
  | event (ev : RuntimeEvent) (n : Nat) : Shows target runtime (.event ev, n) (n, .event ev)
  | oversized (ev : RuntimeEvent) {n sequence : Nat} {type : String} (hsequence : sequence < n)
      (hlarge : pageFits lim enc
        { emptyPage target runtime sequence with events := [(n, ev)] } = false)
      (htype : type = boundedOversizedEventType lim ev.type ∨ type = "type_omitted") :
      Shows target runtime (.event ev, n) (n, .oversized (.event n type (enc.event ev)))
  | rawRecord (size n : Nat) :
      Shows target runtime (.rawRecord size, n) (n, .oversized (.rawRecord n size))

/-! ## The invariant -/

/-- The events that wait at the source the cursor is at. -/
def Cursor.waiting (c : Cursor δ) : List RuntimeEvent :=
  (c.sources[c.source]?).elim [] Source.pending

/-- The source has consumed `done` of its file. -/
structure Source.Tracks (w : World) (src : Source) (done : Bytes) : Prop where
  read : src.Read lim done
  unopened : src.identity = none → done = []
  behind : ∀ ident, src.identity = some ident →
    w.dir src.spec.path = some ident ∧ done <+: w.data ident

/-- The cursor stands behind `records`: each source has consumed its lines among them and the start
    of the next, the decoder has decoded them, and events wait only at the current source. -/
structure Cursor.Stands (init : δ) (w : World) (c : Cursor δ) (done : Nat → Bytes)
    (records : List (Record β)) : Prop where
  sources : ∀ (i : Nat) (src : Source), c.sources[i]? = some src → src.Tracks lim w (done i)
  lines : ∀ (i : Nat) (src : Source), c.sources[i]? = some src →
    Lines.lines newline (done i) = linesOf i records
  idle : ∀ (i : Nat) (src : Source), c.sources[i]? = some src → i ≠ c.source → src.pending = []
  known : ∀ r ∈ records, r.source < c.sources.length
  decoder : c.decoder = (lineDecoder lim dec init).state records

/-- What was shown is what the decoder yields for the records, up to the events that wait. -/
structure Cursor.Shown (init : δ) (c : Cursor δ) (records : List (Record β)) (items : List Item)
    (shown : List (Nat × EventPager.Shown)) : Prop where
  output : (lineDecoder lim dec init).output records = items ++ c.waiting.map .event
  sequence : items.length = c.sequence
  shows : List.Forall₂ (Shows lim enc c.target c.runtime) (numbered c.after items) shown

variable {lim dec enc}

variable {src : Source}

variable {w : World} {init : δ} {records : List (Record β)} {done : Nat → Bytes} {c : Cursor δ}

variable {src src' : Source}

/-! ## Moving on without reading -/

/-- Where nothing waits the cursor may turn to any source. -/
theorem Cursor.Stands.turn (h : c.Stands lim dec init w done records)
    (hidle : c.waiting = []) (k : Nat) :
    ({ c with source := k } : Cursor δ).Stands lim dec init w done records ∧
      ({ c with source := k } : Cursor δ).waiting = [] := by
  have hall : ∀ (i : Nat) (src : Source), c.sources[i]? = some src → src.pending = [] := by
    intro i src hsrc
    by_cases hi : i = c.source
    · subst hi
      simpa [waiting, hsrc] using hidle
    · exact h.idle i src hsrc hi
  refine ⟨{ h with idle := fun i src hsrc _ => hall i src hsrc }, ?_⟩
  simp only [waiting]
  cases hk : c.sources[k]? with
  | none => rfl
  | some src => exact hall k src hk

theorem Cursor.waiting_of_idle
    (hsrc : c.sources[c.source]? = some src) (hidle : src.pending = []) : c.waiting = [] := by
  simp [waiting, hsrc, hidle]

theorem Cursor.waiting_of_none (hnone : c.sources[c.source]? = none) : c.waiting = [] := by
  simp [waiting, hnone]

theorem Cursor.Stands.setPending (h : c.Stands lim dec init w done records)
    (hsrc : c.sources[c.source]? = some src) (rest : List RuntimeEvent) (n : Nat) :
    ({ c.setSource { src with pending := rest } with sequence := n } : Cursor δ).Stands lim dec init
      w done records := by
  refine ⟨?_, ?_, ?_, by simpa using h.known, h.decoder⟩
  · intro i src' hsrc'
    rw [setSource_getElem? _ hsrc] at hsrc'
    split at hsrc'
    next hi =>
      cases hsrc'
      have hold := h.sources i src (hi ▸ hsrc)
      exact { hold with read := { hold.read with } }
    next => exact h.sources i src' hsrc'
  · intro i src' hsrc'
    rw [setSource_getElem? _ hsrc] at hsrc'
    split at hsrc'
    next hi => exact h.lines i src (hi ▸ hsrc)
    next => exact h.lines i src' hsrc'
  · intro i src' hsrc' (hi : i ≠ c.source)
    rw [setSource_getElem? _ hsrc, if_neg hi] at hsrc'
    exact h.idle i src' hsrc' hi

/-! ## Reading on -/

variable {x y : Paging δ}

/-- **A read goes on where the cursor stands.** -/
theorem Cursor.Stands.read {view : Nat → World} {bindings : β} {ident : Nat}
    {result : ReadResult δ} (h : x.state.Stands lim dec init w done records)
    (hgrow : Growing view) (hend : ∀ n, (view n).Grows w)
    (hreads : x.Reads lim dec view bindings src ident result src' y) :
    ∃ (done' : Nat → Bytes) (ls : List Bytes), y.state.Stands lim dec init w done'
        (records ++ ls.map fun l => ⟨x.state.source, l, bindings⟩) ∧
      (lineDecoder lim dec init).output (records ++ ls.map fun l => ⟨x.state.source, l, bindings⟩) =
        (lineDecoder lim dec init).output records ++ outcome src' result.rawOversized ∧
      (result.rawOversized.isSome → src'.pending = []) ∧
      (result.hitEOF = true → src'.pending = []) ∧ y.state.waiting = src'.pending := by
  obtain ⟨hsrc, hidle, hopened, hsame, ⟨ctx, hloop⟩, hanchor, rfl⟩ := hreads
  have htracks := h.sources _ src hsrc
  -- the file that was opened is as long as what was consumed before, so it begins with that
  have hbehind : done x.state.source <+: (view (x.op + 3)).data ident := by
    cases hident : src.identity with
    | none =>
      rw [htracks.unopened hident]
      exact List.nil_prefix
    | some ident' =>
      obtain ⟨rfl, hlong⟩ := hsame ident' hident
      rw [htracks.read.offset] at hlong
      have hbegins := List.prefix_of_prefix_length_le (htracks.behind _ hident).2
        ((hend (x.op + 1)).data _) hlong
      exact hbegins.trans ((hgrow.le (by omega)).data _)
  have hat : (⟨[], false, src.offset, lim.pageReadBytes - x.readBytes, 0⟩ : Reader UInt8).At
      ((view (x.op + 3)).data ident) (done x.state.source) := by
    rw [htracks.read.offset]
    exact ⟨by simpa using hbehind, by simp⟩
  have hread : ({ src with identity := some ident } : Source).Read lim (done x.state.source) :=
    { htracks.read with }
  obtain ⟨done₁, ls, hadv⟩ :=
    readLoop_advances init (fun n => (hgrow n).data ident) hread hidle hat hloop
  obtain ⟨anchor, rfl⟩ := Source.updateAnchor_eq hanchor
  have hget := setSource_getElem? { result.reading.source with anchor := anchor } hsrc
  have hspec : result.reading.source.spec = src.spec := hadv.spec
  have hident : result.reading.source.identity = some ident := hadv.identity
  refine ⟨update done x.state.source done₁, ls, ?_, ?_, hadv.marked, hadv.ended, ?_⟩
  · refine ⟨?_, ?_, ?_, ?_, ?_⟩
    · intro i s hs
      rw [hget] at hs
      split at hs
      next hi =>
        cases hs
        subst hi
        rw [update_self]
        refine ⟨{ hadv.read with }, ?_, ?_⟩
        · intro hnone
          rw [hident] at hnone
          cases hnone
        · intro ident' hident'
          obtain rfl : ident = ident' := Option.mem_unique hident hident'
          rw [hspec]
          exact ⟨(hend _).dir _ _ hopened, hadv.within.trans ((hend _).data _)⟩
      next hi =>
        rw [update_of_ne hi]
        exact h.sources i s hs
    · intro i s hs
      rw [hget] at hs
      rw [linesOf_append]
      split at hs
      next hi =>
        subst hi
        rw [update_self, if_pos rfl, hadv.lines, h.lines _ src hsrc]
      next hi => rw [update_of_ne hi, if_neg hi, List.append_nil, h.lines i s hs]
    · intro i s hs (hi : i ≠ x.state.source)
      rw [hget, if_neg hi] at hs
      exact h.idle i s hs hi
    · intro r hr
      rw [setSource_length]
      rcases List.mem_append.mp hr with hr | hr
      · exact h.known r hr
      · obtain ⟨l, -, rfl⟩ := List.mem_map.mp hr
        exact (List.getElem?_eq_some_iff.mp hsrc).1
    · rw [Transducer.state_append, ← h.decoder, hadv.decoded]
  · rw [Transducer.output_append, ← h.decoder, hadv.decoded]
    cases result.rawOversized <;> rfl
  · simp only [waiting, setSource_source, hget, if_true]
    rfl

/-! ## Showing items -/

variable {page : Page}

theorem Page.items_mark (hnone : page.oversized = none) (marker : Oversized) :
    ({ page with truncated := true, oversized := some marker } : Page).items =
      page.items ++ [(marker.sequence, .oversized marker)] := by
  simp [items, hnone]

variable {items : List Item} {shown : List (Nat × EventPager.Shown)}

variable {c c' : Cursor δ}

/-- The cursors are of one session, and show its items from one on. -/
def Cursor.Session (c' c : Cursor δ) : Prop :=
  c'.after = c.after ∧ c'.target = c.target ∧ c'.runtime = c.runtime

/-- Nothing waits before and after: the cursor turned to another source. -/
theorem Cursor.Shown.turn
    (h : c.Shown lim dec enc init records items shown) (hwaiting : c'.waiting = c.waiting)
    (hsequence : c'.sequence = c.sequence) (hsession : c'.Session c) :
    c'.Shown lim dec enc init records items shown := by
  obtain ⟨hafter, htarget, hruntime⟩ := hsession
  refine ⟨by rw [hwaiting]; exact h.output, h.sequence.trans hsequence.symm, ?_⟩
  rw [hafter, htarget, hruntime]
  exact h.shows

section next

variable {records records' : List (Record β)} {item : Item} {entry : Nat × EventPager.Shown}
  (h : c.Shown lim dec enc init records items shown)
  (houtput : (lineDecoder lim dec init).output records' = items ++ item :: c'.waiting.map .event)
  (hsequence : c'.sequence = c.sequence + 1) (hsession : c'.Session c)

include h houtput hsequence hsession

theorem Cursor.Shown.skip (hskip : c.sequence + 1 ≤ c.after) :
    c'.Shown lim dec enc init records' (items ++ [item]) shown := by
  obtain ⟨hafter, htarget, hruntime⟩ := hsession
  refine ⟨by simpa using houtput, by simp [h.sequence, hsequence], ?_⟩
  rw [hafter, htarget, hruntime, numbered_concat_of_le item (by rw [h.sequence]; exact hskip)]
  exact h.shows

theorem Cursor.Shown.push (hnew : c.after < c.sequence + 1)
    (hshows : Shows lim enc c.target c.runtime (item, c.sequence + 1) entry) :
    c'.Shown lim dec enc init records' (items ++ [item]) (shown ++ [entry]) := by
  obtain ⟨hafter, htarget, hruntime⟩ := hsession
  refine ⟨by simpa using houtput, by simp [h.sequence, hsequence], ?_⟩
  rw [hafter, htarget, hruntime, numbered_concat item (by rw [h.sequence]; exact hnew), h.sequence]
  exact List.rel_append h.shows (.cons hshows .nil)

end next

/-! ## One page -/

variable (lim dec enc) in
/-- The page goes on from `records₀` and `shown₀`: it has consumed the records `fresh`. -/
structure Paging.Follows (init : δ) (w : World) (bindings : β)
    (records₀ : List (Record β)) (shown₀ : List (Nat × EventPager.Shown)) (x : Paging δ)
    (done : Nat → Bytes) (fresh : List (Record β)) (items : List Item) : Prop where
  stands : x.state.Stands lim dec init w done (records₀ ++ fresh)
  shown : x.state.Shown lim dec enc init (records₀ ++ fresh) items (shown₀ ++ x.page.items)
  sorted : fresh.Pairwise fun a b => a.source ≤ b.source
  bound : ∀ r ∈ fresh, r.bindings = bindings

/-- A page that is not over shows events only. -/
def Paging.Unmarked (x : Paging δ) : Prop :=
  ∃ sequence ≤ x.state.sequence,
    x.page = { emptyPage x.state.target x.state.runtime sequence with events := x.page.events }

theorem Paging.Unmarked.oversized {x : Paging δ} (h : x.Unmarked) : x.page.oversized = none := by
  obtain ⟨sequence, -, hpage⟩ := h
  rw [hpage]
  rfl

theorem Paging.Unmarked.onward {x y : Paging δ} (h : x.Unmarked) (honward : x.state.Onward y.state)
    (hpage : y.page = { x.page with events := y.page.events }) : y.Unmarked := by
  obtain ⟨sequence, hle, hx⟩ := h
  refine ⟨sequence, hle.trans honward.sequence, ?_⟩
  rw [honward.target, honward.runtime, hpage, hx]

variable (lim dec enc) in
/-- A page that is not over shows no marker, and its sweep has come to the current source. -/
def Paging.Sweeps (init : δ) (w : World) (bindings : β)
    (records₀ : List (Record β)) (shown₀ : List (Nat × EventPager.Shown)) (x : Paging δ) : Prop :=
  x.Unmarked ∧ ∃ done fresh items,
    x.Follows lim dec enc init w bindings records₀ shown₀ done fresh items ∧
      ∀ r ∈ fresh, r.source ≤ x.state.source

variable {init : δ} {view : Nat → World} {bindings : β} {records₀ : List (Record β)}
  {shown₀ : List (Nat × EventPager.Shown)}

variable {fresh : List (Record β)}

theorem sorted_read {i : Nat} (ls : List Bytes)
    (hsorted : fresh.Pairwise fun a b => a.source ≤ b.source) (hupTo : ∀ r ∈ fresh, r.source ≤ i) :
    (fresh ++ ls.map fun l => (⟨i, l, bindings⟩ : Record β)).Pairwise
      (fun a b => a.source ≤ b.source) := by
  rw [List.pairwise_append]
  refine ⟨hsorted, ?_, ?_⟩
  · rw [List.pairwise_map]
    exact List.pairwise_of_forall fun _ _ => le_refl i
  · intro a ha b hb
    obtain ⟨l, -, rfl⟩ := List.mem_map.mp hb
    exact hupTo a ha

theorem Paging.Follows.spend {x : Paging δ} {event : RuntimeEvent} {rest : List RuntimeEvent}
    (h : x.Follows lim dec enc init w bindings records₀ shown₀ done fresh items)
    (hsrc : x.state.sources[x.state.source]? = some src) (hpending : src.pending = event :: rest) :
    (x.spend src rest).state.Stands lim dec init w done (records₀ ++ fresh) ∧
      (lineDecoder lim dec init).output (records₀ ++ fresh) =
        items ++ .event event :: (x.spend src rest).state.waiting.map .event := by
  refine ⟨h.stands.setPending hsrc rest _, ?_⟩
  have hafter : (x.spend src rest).state.waiting = rest := by
    simp only [Paging.spend, waiting, setSource_source, setSource_getElem? _ hsrc, if_true]
    rfl
  have hbefore : x.state.waiting = event :: rest := by
    simp [waiting, hsrc, hpending]
  rw [hafter, h.shown.output, hbefore]
  rfl

theorem Paging.Follows.read {ident : Nat} {result : ReadResult δ}
    (h : x.Follows lim dec enc init w bindings records₀ shown₀ done fresh items)
    (hupTo : ∀ r ∈ fresh, r.source ≤ x.state.source) (hgrow : Growing view)
    (hend : ∀ n, (view n).Grows w)
    (hreads : x.Reads lim dec view bindings src ident result src' y) :
    ∃ done' fresh', y.state.Stands lim dec init w done' (records₀ ++ fresh') ∧
      (lineDecoder lim dec init).output (records₀ ++ fresh') =
        items ++ outcome src' result.rawOversized ∧
      (result.rawOversized.isSome → src'.pending = []) ∧
      (result.hitEOF = true → src'.pending = []) ∧ y.state.waiting = src'.pending ∧
      (fresh'.Pairwise fun a b => a.source ≤ b.source) ∧ (∀ r ∈ fresh', r.bindings = bindings) ∧
      ∀ r ∈ fresh', r.source ≤ x.state.source := by
  obtain ⟨done', ls, hstands, houtput, hmarked, hended, hwaiting⟩ :=
    h.stands.read hgrow hend hreads
  have hidle := waiting_of_idle hreads.found hreads.idle
  refine ⟨done', fresh ++ ls.map fun l => ⟨x.state.source, l, bindings⟩, ?_, ?_, hmarked, hended,
    hwaiting, sorted_read ls h.sorted hupTo, ?_, ?_⟩
  · simpa using hstands
  · rw [List.append_assoc] at houtput
    rw [houtput, h.shown.output, hidle]
    simp
  · intro r hr
    rcases List.mem_append.mp hr with hr | hr
    · exact h.bound r hr
    · obtain ⟨l, -, rfl⟩ := List.mem_map.mp hr
      rfl
  · intro r hr
    rcases List.mem_append.mp hr with hr | hr
    · exact hupTo r hr
    · obtain ⟨l, -, rfl⟩ := List.mem_map.mp hr
      exact le_refl _

/-- **A round keeps the page in step with the whole decode.** -/
theorem Paging.Sweeps.goOn
    (h : x.Sweeps lim dec enc init w bindings records₀ shown₀) (hgrow : Growing view)
    (hend : ∀ n, (view n).Grows w) (hdoes : x.Does lim dec enc view bindings (.goOn y)) :
    y.Sweeps lim dec enc init w bindings records₀ shown₀ := by
  obtain ⟨hunmarked, done, fresh, items, hf, hupTo⟩ := h
  have hpage (hpage : y.page = { x.page with events := y.page.events }) : y.Unmarked :=
    hunmarked.onward hdoes.onward hpage
  cases hdoes with
  | @skip src event rest hsrc hpending hafter =>
    obtain ⟨hstands, houtput⟩ := hf.spend hsrc hpending
    exact ⟨hpage rfl, done, fresh, items ++ [.event event],
      ⟨hstands, hf.shown.skip houtput rfl ⟨rfl, rfl, rfl⟩ hafter, hf.sorted, hf.bound⟩, hupTo⟩
  | @carry src event rest hsrc hpending hafter =>
    obtain ⟨hstands, houtput⟩ := hf.spend hsrc hpending
    refine ⟨hpage rfl, done, fresh, items ++ [.event event], ⟨hstands, ?_, hf.sorted, hf.bound⟩,
      hupTo⟩
    have hshown := hf.shown.push houtput rfl ⟨rfl, rfl, rfl⟩ hafter (.event _ _)
    simpa [Page.items, hunmarked.oversized] using hshown
  | missing hsrc hidle hdir hnew =>
    have hwaiting := waiting_of_idle hsrc hidle
    obtain ⟨hstands, hturned⟩ := hf.stands.turn hwaiting (x.state.source + 1)
    exact ⟨hpage rfl, done, fresh, items,
      ⟨hstands, hf.shown.turn (hturned.trans hwaiting.symm) rfl ⟨rfl, rfl, rfl⟩, hf.sorted,
        hf.bound⟩, fun r hr => le_succ_of_le (hupTo r hr)⟩
  | @skipRaw src src' ident size result y hreads hraw hafter =>
    obtain ⟨done', fresh', hstands, houtput, hmarked, -, hwaiting, hsorted, hbound, hupTo'⟩ :=
      hf.read hupTo hgrow hend hreads
    have hnil := hmarked (by simp [hraw])
    obtain rfl := hreads.after
    refine ⟨hpage rfl, done', fresh', items ++ [.rawRecord size], ⟨{ hstands with }, ?_, hsorted,
      hbound⟩, hupTo'⟩
    refine hf.shown.skip ?_ rfl ⟨rfl, rfl, rfl⟩ hafter
    rw [houtput, hraw]
    exact congrArg (items ++ _ :: .map .event ·) (hnil.symm.trans hwaiting.symm)
  | @next src src' ident result y hreads hraw heof =>
    obtain ⟨done', fresh', hstands, houtput, -, hended, hwaiting, hsorted, hbound, hupTo'⟩ :=
      hf.read hupTo hgrow hend hreads
    have hidle := hwaiting.trans (hended heof)
    obtain ⟨hturned, hnone⟩ := hstands.turn hidle (y.state.source + 1)
    obtain rfl := hreads.after
    refine ⟨hpage rfl, done', fresh', items, ⟨hturned, ⟨?_, hf.shown.sequence, hf.shown.shows⟩,
      hsorted, hbound⟩, fun r hr => le_succ_of_le (hupTo' r hr)⟩
    rw [houtput, hraw, hnone, outcome, hended heof]
  | stay hreads hraw =>
    obtain ⟨done', fresh', hstands, houtput, -, -, hwaiting, hsorted, hbound, hupTo'⟩ :=
      hf.read hupTo hgrow hend hreads
    obtain rfl := hreads.after
    refine ⟨hpage rfl, done', fresh', items, ⟨hstands, ⟨?_, hf.shown.sequence, hf.shown.shows⟩,
      hsorted, hbound⟩, hupTo'⟩
    rw [houtput, hraw, hwaiting]
    rfl

theorem Paging.Sweeps.stop
    (h : x.Sweeps lim dec enc init w bindings records₀ shown₀) (hgrow : Growing view)
    (hend : ∀ n, (view n).Grows w) (hdoes : x.Does lim dec enc view bindings (.stop y)) :
    ∃ done fresh items, y.Follows lim dec enc init w bindings records₀ shown₀ done fresh items := by
  obtain ⟨hunmarked, done, fresh, items, hf, hupTo⟩ := h
  cases hdoes with
  | wrap hnone =>
    have hwaiting := waiting_of_none hnone
    obtain ⟨hstands, hturned⟩ := hf.stands.turn hwaiting 0
    exact ⟨done, fresh, items, hstands,
      hf.shown.turn (hturned.trans hwaiting.symm) rfl ⟨rfl, rfl, rfl⟩, hf.sorted, hf.bound⟩
  | full => exact ⟨done, fresh, items, hf⟩
  | @mark src event rest type hsrc hpending hafter hevents hlarge htype =>
    obtain ⟨hstands, houtput⟩ := hf.spend hsrc hpending
    refine ⟨done, fresh, items ++ [.event event], hstands, ?_, hf.sorted, hf.bound⟩
    rw [items_mark hunmarked.oversized, ← List.append_assoc]
    -- the page that could not carry the event was empty
    obtain ⟨sequence, hle, hpage⟩ := hunmarked
    rw [hpage] at hlarge
    exact hf.shown.push houtput rfl ⟨rfl, rfl, rfl⟩ hafter
      (.oversized event (lt_succ_of_le hle) hlarge htype)
  | @markRaw src src' ident size result y hreads hraw hafter =>
    obtain ⟨done', fresh', hstands, houtput, hmarked, -, hwaiting, hsorted, hbound, -⟩ :=
      hf.read hupTo hgrow hend hreads
    have hnil := hmarked (by simp [hraw])
    obtain rfl := hreads.after
    refine ⟨done', fresh', items ++ [.rawRecord size], { hstands with }, ?_, hsorted, hbound⟩
    rw [items_mark hunmarked.oversized, ← List.append_assoc]
    refine hf.shown.push ?_ rfl ⟨rfl, rfl, rfl⟩ hafter (.rawRecord size _)
    rw [houtput, hraw]
    exact congrArg (items ++ _ :: .map .event ·) (hnil.symm.trans hwaiting.symm)

/-! ## The end of a page -/

theorem Cursor.Stands.refreshed (h : c.Stands lim dec init w done records)
    (hsame : SameButAnchors c.sources c'.sources) (hsource : c'.source = c.source)
    (hdecoder : c'.decoder = c.decoder) : c'.Stands lim dec init w done records := by
  refine ⟨?_, ?_, ?_, ?_, hdecoder.trans h.decoder⟩
  · intro i src' hsrc'
    obtain ⟨src, anchor, hsrc, rfl⟩ := hsame.getElem? hsrc'
    have hold := h.sources i src hsrc
    exact { hold with read := { hold.read with } }
  · intro i src' hsrc'
    obtain ⟨src, anchor, hsrc, rfl⟩ := hsame.getElem? hsrc'
    exact h.lines i src hsrc
  · intro i src' hsrc' hi
    obtain ⟨src, anchor, hsrc, rfl⟩ := hsame.getElem? hsrc'
    exact h.idle i src hsrc (hsource ▸ hi)
  · intro r hr
    rw [← hsame.length_eq]
    exact h.known r hr

theorem SameButAnchors.waiting (h : SameButAnchors c.sources c'.sources)
    (hsource : c'.source = c.source) : c'.waiting = c.waiting := by
  rw [Cursor.waiting, Cursor.waiting, hsource]
  cases hsrc' : c'.sources[c.source]? with
  | none =>
    have hnone : c.sources[c.source]? = none := by
      rw [List.getElem?_eq_none_iff] at hsrc' ⊢
      rw [h.length_eq]
      exact hsrc'
    rw [hnone]
  | some src' =>
    obtain ⟨src, anchor, hsrc, rfl⟩ := h.getElem? hsrc'
    rw [hsrc]
    rfl

theorem Paging.Follows.returns {x : Paging δ} {poll : Poll}
    (h : x.Follows lim dec enc init w bindings records₀ shown₀ done fresh items)
    (hreturns : x.Returns lim dec enc poll page c) :
    c.Stands lim dec init w done (records₀ ++ fresh) ∧
      c.Shown lim dec enc init (records₀ ++ fresh) items (shown₀ ++ page.items) := by
  have hsame := refreshAnchors_same hreturns.refreshed
  have hitems : page.items = x.page.items := by
    rw [Page.items, Page.items, hreturns.events, hreturns.oversized]
  refine ⟨h.stands.refreshed hsame hreturns.source hreturns.decoder, ?_⟩
  rw [hitems]
  exact h.shown.turn (hsame.waiting hreturns.source) hreturns.sequence
    ⟨hreturns.onward.after, hreturns.onward.target, hreturns.onward.runtime⟩

theorem Cursor.Stands.paging (h : c.Stands lim dec init w done records₀)
    (hshown : c.Shown lim dec enc init records₀ items shown₀) :
    c.paging.Sweeps lim dec enc init w bindings records₀ shown₀ := by
  refine ⟨⟨c.sequence, le_refl _, rfl⟩, done, [], items, ⟨?_, ?_, .nil, by simp⟩, by simp⟩
  · simpa [Cursor.paging] using h
  · simpa [Cursor.paging, Page.items, Cursor.blankPage, emptyPage] using hshown

/-- **One page goes on with the whole decode**, however the files grow while it is computed. -/
theorem computePage_follows {poll : Poll} {set : SourceSet β}
    (hstands : c.Stands lim dec init w done records₀)
    (hshown : c.Shown lim dec enc init records₀ items shown₀) (hgrow : Growing poll.view)
    (hend : ∀ n, (poll.view n).Grows w) (h : computePage lim dec enc poll c set = .ok (page, c')) :
    ∃ (done' : Nat → Bytes) (fresh : List (Record β)) (items' : List Item),
      c'.Stands lim dec init w done' (records₀ ++ fresh) ∧
      c'.Shown lim dec enc init (records₀ ++ fresh) items' (shown₀ ++ page.items) ∧
      (fresh.Pairwise fun a b => a.source ≤ b.source) ∧ ∀ r ∈ fresh, r.bindings = set.bindings := by
  obtain ⟨-, -, -, x, hloop, hreturns⟩ := computePage_returns h
  have hover : ∃ done fresh items, x.Follows lim dec enc init w set.bindings records₀ shown₀ done
      fresh items := by
    refine pageLoop_induction (Paging.Sweeps lim dec enc init w set.bindings records₀ shown₀)
      (fun y => ∃ done fresh items, y.Follows lim dec enc init w set.bindings records₀ shown₀ done
        fresh items) ?_ ?_ ?_ (hstands.paging hshown) hloop
    · intro y ⟨_, done, fresh, items, hf, _⟩ _
      exact ⟨done, fresh, items, hf⟩
    · exact fun y z hy _ hdoes => hy.goOn hgrow hend hdoes
    · exact fun y z hy _ hdoes => hy.stop hgrow hend hdoes
  obtain ⟨done', fresh, items', hf⟩ := hover
  obtain ⟨hstands', hshown'⟩ := hf.returns hreturns
  exact ⟨done', fresh, items', hstands', hshown', hf.sorted, hf.bound⟩

/-! ## Following the cursors -/

/-- The pages a client obtains from a cursor, each from the cursor the one before returned; a request
    that is refused is made again. -/
def follow (lim : Limits) (dec : PageDecoder δ β) (enc : Encoding) (c : Cursor δ) :
    List (Poll × SourceSet β) → List Page × Cursor δ
  | [] => ([], c)
  | (poll, set) :: rest =>
    match computePage lim dec enc poll c set with
    | .error _ => follow lim dec enc c rest
    | .ok (page, next) =>
      (page :: (follow lim dec enc next rest).1, (follow lim dec enc next rest).2)

/-- The sources grow from `w` to `w'` while the requests are made. -/
def Growth : World → List (Poll × SourceSet β) → World → Prop
  | w, [], w' => w.Grows w'
  | w, (poll, _) :: rest, w' =>
    w.Grows (poll.view 0) ∧ Growing poll.view ∧
      ∃ w₁, (∀ n, (poll.view n).Grows w₁) ∧ Growth w₁ rest w'

theorem Growth.grows {w w' : World} {polls : List (Poll × SourceSet β)} (h : Growth w polls w') :
    w.Grows w' := by
  induction polls generalizing w with
  | nil => exact h
  | cons p rest ih =>
    obtain ⟨hstart, -, w₁, hend, hrest⟩ := h
    exact (hstart.trans (hend 0)).trans (ih hrest)

/-- **The pages of a chain are in step with one decode**: one list of records for each page. -/
theorem follow_follows {polls : List (Poll × SourceSet β)} {w w' : World}
    (hstands : c.Stands lim dec init w' done records)
    (hshown : c.Shown lim dec enc init records items shown) (hgrowth : Growth w polls w') :
    ∃ (done' : Nat → Bytes) (sweeps : List (List (Record β))) (items' : List Item),
      (follow lim dec enc c polls).2.Stands lim dec init w' done' (records ++ sweeps.flatten) ∧
      (follow lim dec enc c polls).2.Shown lim dec enc init (records ++ sweeps.flatten) items'
        (shown ++ (follow lim dec enc c polls).1.flatMap Page.items) ∧
      sweeps.length = (follow lim dec enc c polls).1.length ∧
      (∀ sweep ∈ sweeps, (sweep.Pairwise fun a b => a.source ≤ b.source) ∧
        ∃ p ∈ polls, ∀ r ∈ sweep, r.bindings = p.2.bindings) ∧
      c.Onward (follow lim dec enc c polls).2 := by
  induction polls generalizing w c records shown done items with
  | nil =>
    refine ⟨done, [], items, ?_, ?_, rfl, by simp, .refl c⟩
    · simpa [follow] using hstands
    · simpa [follow] using hshown
  | cons p rest ih =>
    obtain ⟨poll, set⟩ := p
    obtain ⟨hstart, hview, w₁, hend, hrest⟩ := hgrowth
    cases hpage : computePage lim dec enc poll c set with
    | error err =>
      obtain ⟨done', sweeps, items', hs, hsh, hlen, hsweeps, honward⟩ := ih hstands hshown hrest
      simp only [follow, hpage]
      refine ⟨done', sweeps, items', hs, hsh, hlen, ?_, honward⟩
      intro sweep hsweep
      obtain ⟨hsorted, p, hp, hbound⟩ := hsweeps sweep hsweep
      exact ⟨hsorted, p, List.mem_cons_of_mem _ hp, hbound⟩
    | ok returned =>
      obtain ⟨done₁, fresh, items₁, hstands₁, hshown₁, hsorted₁, hbound₁⟩ :=
        computePage_follows hstands hshown hview (fun n => (hend n).trans hrest.grows) hpage
      obtain ⟨done', sweeps, items', hs, hsh, hlen, hsweeps, honward⟩ :=
        ih hstands₁ hshown₁ hrest
      simp only [follow, hpage]
      refine ⟨done', fresh :: sweeps, items', ?_, ?_, by simp [hlen], ?_,
        (computePage_onward hpage).trans honward⟩
      · simpa using hs
      · simpa using hsh
      refine List.forall_mem_cons.mpr ⟨?_, fun sweep hsweep => ?_⟩
      · exact ⟨hsorted₁, (poll, set), List.mem_cons_self, hbound₁⟩
      · obtain ⟨hsorted, p, hp, hbound⟩ := hsweeps sweep hsweep
        exact ⟨hsorted, p, List.mem_cons_of_mem _ hp, hbound⟩

end Pages

end AgentMultiplexer.Daemon.EventPager
