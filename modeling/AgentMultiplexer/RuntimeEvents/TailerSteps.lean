import Mathlib.Algebra.Order.BigOperators.Group.Finset
import AgentMultiplexer.RuntimeEvents.IndexRefinement
import AgentMultiplexer.RuntimeEvents.Tailer

set_option autoImplicit false

/-! # What the sections of a tail do

The cursor of each source is described by the lines it has consumed, a prefix of the complete lines
of its file. A tail only ever places a cursor with the help of the index, or reads to the end of a
file; what it has emitted are the events of the lines read, numbered by the shared ordinal, past
the resume point. -/

namespace AgentMultiplexer.RuntimeEvents

open Function Lines List TailState Batch Option Nat

/-! ## Numbered events -/

theorem number_append (n : Int) (xs ys : List RuntimeEvent) :
    number n (xs ++ ys) = number n xs ++ number (n + xs.length) ys := by
  induction xs generalizing n with
  | nil => simp [number]
  | cons x xs ih =>
    simp only [cons_append, number, ih, length_cons]
    rw [show n + 1 + (xs.length : Int) = n + (xs.length + 1 : Nat) by omega]

theorem map_snd_number (n : Int) (evs : List RuntimeEvent) : (number n evs).map Prod.snd = evs := by
  induction evs generalizing n with
  | nil => rfl
  | cons ev evs ih => simp [number, ih]

@[simp] theorem length_number (n : Int) (evs : List RuntimeEvent) :
    (number n evs).length = evs.length := by
  rw [← length_map Prod.snd, map_snd_number]

theorem filter_number (a n : Int) (evs : List RuntimeEvent) :
    (number n evs).filter (fun e => a < e.1) =
      number (max n (a + 1)) (evs.drop (a + 1 - n).toNat) := by
  induction evs generalizing n with
  | nil => simp [number]
  | cons ev evs ih =>
    rw [number, filter_cons]
    by_cases han : a < n
    · rw [if_pos (by simpa using han), ih, show (a + 1 - n).toNat = 0 by omega,
        show (a + 1 - (n + 1)).toNat = 0 by omega, show max n (a + 1) = n by omega,
        show max (n + 1) (a + 1) = n + 1 by omega]
      rfl
    · rw [if_neg (by simpa using han), ih,
        show (a + 1 - n).toNat = (a + 1 - (n + 1)).toNat + 1 by omega, drop_succ_cons,
        show max (n + 1) (a + 1) = max n (a + 1) by omega]

/-- The events of a batch are consecutive up to the ordinal, and all past the resume point. -/
def Contiguous (afterSeq ordinal : Int) (b : Batch) : Prop :=
  b.events = [] ∨ (b.seq = ordinal ∧ afterSeq ≤ ordinal - b.events.length)

variable {b : Batch}

theorem numbered_of_events_nil (h : b.events = []) : b.numbered = [] := by
  rw [numbered, h]
  rfl

theorem emit_contiguous {a n : Int} (h : Contiguous a n b) (ev : RuntimeEvent) :
    (emit a (n, b) ev).1 = n + 1 ∧ Contiguous a (emit a (n, b) ev).1 (emit a (n, b) ev).2 ∧
      (emit a (n, b) ev).2.numbered =
        b.numbered ++ (number (n + 1) [ev]).filter (fun e => a < e.1) := by
  unfold emit
  split
  · next hlt =>
    have hfilter : (number (n + 1) [ev]).filter (fun e => decide (a < e.1)) = [(n + 1, ev)] := by
      simp [number, hlt]
    rw [hfilter]
    rcases h with hnil | ⟨hseq, hle⟩
    · refine ⟨rfl, .inr ⟨rfl, ?_⟩, ?_⟩
      · simp [hnil]
        omega
      · rw [numbered_of_events_nil hnil, numbered, hnil]
        simp [number]
    · refine ⟨rfl, .inr ⟨rfl, ?_⟩, ?_⟩
      · simp
        omega
      · rw [numbered, numbered, hseq, number_append]
        simp [number]
        omega
  · next hge =>
    have hnil : b.events = [] := by
      rcases h with hnil | ⟨-, hle⟩
      · exact hnil
      · -- an event already kept is past the resume point, and so is every later one
        exact length_eq_zero_iff.mp (by omega)
    refine ⟨rfl, .inl hnil, ?_⟩
    simp [number, hge]

theorem foldl_emit {a : Int} (evs : List RuntimeEvent) {n : Int}
    (h : Contiguous a n b) :
    (evs.foldl (emit a) (n, b)).1 = n + evs.length ∧
      Contiguous a (evs.foldl (emit a) (n, b)).1 (evs.foldl (emit a) (n, b)).2 ∧
      (evs.foldl (emit a) (n, b)).2.numbered =
        b.numbered ++ (number (n + 1) evs).filter (fun e => a < e.1) := by
  induction evs generalizing n b with
  | nil => exact ⟨by simp, h, by simp [number]⟩
  | cons ev evs ih =>
    obtain ⟨hn, hcont, hnum⟩ := emit_contiguous h ev
    have heta : emit a (n, b) ev = (n + 1, (emit a (n, b) ev).2) := Prod.ext hn rfl
    rw [hn] at hcont
    rw [foldl_cons, heta]
    obtain ⟨hn', hcont', hnum'⟩ := ih hcont
    refine ⟨?_, hcont', ?_⟩
    · rw [hn', length_cons]
      omega
    · rw [hnum', hnum, append_assoc, ← filter_append]
      rfl

variable {i : Nat}

theorem splitLoop_numbered {seq firstSeq : Int} (evs : List RuntimeEvent)
    {frame : List RuntimeEvent} {bytes : Nat}
    (hseq : seq = firstSeq + i + evs.length - 1) (hframe : frame.length ≤ i) :
    (splitLoop seq firstSeq frame bytes i evs).flatMap numbered =
      number (firstSeq + i - frame.length) (frame ++ evs) := by
  induction evs generalizing frame bytes i with
  | nil =>
    simp only [splitLoop, flatMap_cons, flatMap_nil, append_nil, numbered]
    congr 1
    simp at hseq
    omega
  | cons ev evs ih =>
    rw [length_cons] at hseq
    rw [splitLoop]
    split
    · rw [flatMap_cons, ih (by push_cast at hseq ⊢; omega) (by simp), singleton_append,
        number_append _ frame, numbered]
      congr 2
      · dsimp only
        omega
      · push_cast [length_singleton]
        omega
    · rw [ih (by push_cast at hseq ⊢; omega) (by simp; omega), append_assoc, singleton_append]
      congr 1
      simp
      omega

theorem splitBatch_numbered (b : Batch) : (splitBatch b).flatMap numbered = b.numbered := by
  rw [splitBatch, splitLoop_numbered b.events (by simp; omega) (by simp)]
  simp [numbered]

/-- A frame is not too long, and only a single event may exceed the size. -/
structure Framed (evs : List RuntimeEvent) : Prop where
  count : evs.length ≤ maxBatchEvents
  size : maxBatchPayloadBytes < (evs.map eventSize).sum → evs.length = 1

theorem Framed.singleton (ev : RuntimeEvent) : Framed [ev] :=
  ⟨by simp [maxBatchEvents], fun _ => rfl⟩

/-- An event joins the frame where the loop does not cut. -/
theorem Framed.concat {frame : List RuntimeEvent} {ev : RuntimeEvent}
    (hcut : ¬ (0 < frame.length ∧ (maxBatchEvents ≤ frame.length ∨
      maxBatchPayloadBytes < (frame.map eventSize).sum + eventSize ev))) :
    Framed (frame ++ [ev]) := by
  by_cases hpos : 0 < frame.length
  · rw [not_and, not_or, Nat.not_le, Nat.not_lt] at hcut
    obtain ⟨hcount, hsize⟩ := hcut hpos
    refine ⟨by rwa [length_append], fun hlt => absurd hlt ?_⟩
    simpa using hsize
  · rw [length_eq_zero_iff.mp (Nat.eq_zero_of_not_pos hpos)]
    exact .singleton ev

theorem splitLoop_framed {seq firstSeq : Int} (evs : List RuntimeEvent)
    {frame : List RuntimeEvent} (h : Framed frame) :
    ∀ f ∈ splitLoop seq firstSeq frame (frame.map eventSize).sum i evs,
      Framed f.events ∧ (f.events = [] → frame ++ evs = []) := by
  induction evs generalizing frame i with
  | nil => exact forall_mem_singleton.mpr ⟨h, by simp⟩
  | cons ev evs ih =>
    rw [splitLoop]
    split
    · next hcut =>
      have hrest := @ih (i + 1) [ev] (.singleton ev)
      rw [map_singleton, sum_singleton] at hrest
      refine forall_mem_cons.mpr ⟨⟨h, fun hnil => ?_⟩, fun f hf => ?_⟩
      · exact absurd hnil (ne_nil_of_length_pos hcut.1)
      · exact (hrest f hf).imp_right fun hne hnil => absurd (hne hnil) (cons_ne_nil _ _)
    · next hcut =>
      have hrest := @ih (i + 1) (frame ++ [ev]) (.concat hcut)
      rwa [map_append, sum_append_nat, map_singleton, sum_singleton, append_assoc,
        singleton_append] at hrest

theorem getLast?_numbered (h : b.events ≠ []) :
    ∃ ev, b.events.getLast? = some ev ∧ b.numbered.getLast? = some (b.seq, ev) := by
  obtain ⟨evs, ev, hevs⟩ := (eq_nil_or_concat' b.events).resolve_left h
  refine ⟨ev, by rw [hevs, getLast?_concat], ?_⟩
  rw [numbered, hevs, number_append, number, number, getLast?_concat]
  simp
  omega

/-- **Splitting a sweep keeps the numbering**: the frames are the batch, each with the ordinal of
    its own last event, and counting back from it gives every event its ordinal. -/
theorem splitBatch_keeps_numbering (b : Batch) :
    (splitBatch b).flatMap events = b.events ∧ (splitBatch b).flatMap numbered = b.numbered ∧
    ∀ frame ∈ splitBatch b, Framed frame.events ∧ (b.events ≠ [] →
      ∃ ev, frame.events.getLast? = some ev ∧ frame.numbered.getLast? = some (frame.seq, ev)) := by
  refine ⟨?_, splitBatch_numbered b, fun frame hframe => ?_⟩
  · have hevents := congrArg (map Prod.snd) (splitBatch_numbered b)
    rw [map_flatMap] at hevents
    simpa only [numbered, map_snd_number] using hevents
  · have hempty : Framed [] := ⟨by simp, by simp⟩
    obtain ⟨hframed, hne⟩ := splitLoop_framed b.events hempty frame hframe
    exact ⟨hframed, fun hb => getLast?_numbered (mt hne hb)⟩

/-! ## Cursors -/

/-- The content of a file that may not be there yet. -/
def contentOf (file : Option FileState) : List UInt8 := (file.map FileState.content).getD []

/-- A file appears, or grows. -/
def FileGrows (file file' : Option FileState) : Prop :=
  ∀ f, file = some f → ∃ f', file' = some f' ∧ f'.ident = f.ident ∧ f.content <+: f'.content

theorem FileGrows.refl (file : Option FileState) : FileGrows file file :=
  fun f hf => ⟨f, hf, rfl, prefix_rfl⟩

theorem FileGrows.content {file file' : Option FileState} (h : FileGrows file file') :
    contentOf file <+: contentOf file' := by
  cases file with
  | none => exact nil_prefix
  | some f =>
    obtain ⟨f', rfl, -, hprefix⟩ := h f rfl
    exact hprefix

section Cursor

variable {σ : Type} {decoder : SourceDecoder σ} {file file' : Option FileState}
  {s : TailSource σ} {ls : List (List UInt8)}

/-- The cursor stands after these lines of the file. -/
structure CursorAt (decoder : SourceDecoder σ) (file : Option FileState) (s : TailSource σ)
    (ls : List (List UInt8)) : Prop where
  offset : s.offset = ls.flatten.length
  dec : s.dec = decoder.state ls
  consumed : ls <+: lines newline (contentOf file)
  info : ∀ ident, s.info = some ident → ∃ f, file = some f ∧ f.ident = ident

theorem CursorAt.grows (h : CursorAt decoder file s ls) (hgrow : FileGrows file file') :
    CursorAt decoder file' s ls :=
  { h with
    consumed := h.consumed.trans (lines_isPrefix hgrow.content)
    info := fun ident hident => by
      obtain ⟨f, hf, rfl⟩ := h.info ident hident
      obtain ⟨f', hf', hid, -⟩ := hgrow f hf
      exact ⟨f', hf', hid⟩ }

variable {f : FileState}

/-- The checks of a sweep find a cursor on a growing file in order. -/
theorem CursorAt.checks (h : CursorAt decoder (some f) s ls) :
    ¬ ((s.info ≠ none ∧ s.info ≠ some f.ident) ∨ f.content.length < s.offset) ∧
      ¬ (0 < s.offset ∧ f.content[s.offset - 1]? ≠ some newline) := by
  constructor
  · rintro (⟨hsome, hne⟩ | hlt)
    · obtain ⟨ident, hident⟩ := ne_none_iff_exists'.mp hsome
      obtain ⟨f', hf', rfl⟩ := h.info ident hident
      cases hf'
      exact hne hident
    · rw [h.offset] at hlt
      exact Nat.not_le_of_lt hlt (length_flatten_le h.consumed)
  · rintro ⟨hpos, hne⟩
    rw [h.offset] at hpos hne
    exact hne (getElem?_pred_length_flatten h.consumed hpos)

theorem CursorAt.eq_lines (h : CursorAt decoder (some f) s ls)
    (hend : f.content.length ≤ s.offset) : ls = lines newline f.content := by
  have := lines_eq_append_drop h.consumed
  rw [h.offset] at hend
  rw [show contentOf (some f) = f.content from rfl, drop_eq_nil_of_le hend, lines_nil,
    append_nil] at this
  exact this.symm

theorem foldl_readLine (afterSeq : Int) (new : List (List UInt8)) (acc : TailSource σ × Int × Batch) :
    new.foldl (readLine decoder afterSeq) acc = ({ acc.1 with
          offset := acc.1.offset + new.flatten.length, dec := (decoder.run acc.1.dec new).1 },
        (decoder.run acc.1.dec new).2.foldl (emit afterSeq) acc.2) := by
  induction new generalizing acc with
  | nil => rfl
  | cons line new ih =>
    rw [foldl_cons, ih, decoder.run_cons, foldl_append, flatten_cons,
      length_append, ← add_assoc]
    rfl

/-- **`readFrom`** moves the cursor after the last complete line and emits the events of the lines
    between, numbered on from the ordinal. -/
theorem readFrom_spec (h : CursorAt decoder (some f) s ls) {afterSeq n : Int}
    (hb : Contiguous afterSeq n b) :
    ∃ s' n' b' evs, readFrom decoder f.content afterSeq (s, n, b) = (s', n', b') ∧
      CursorAt decoder (some f) s' (lines newline f.content) ∧
      decoder.output (lines newline f.content) = decoder.output ls ++ evs ∧
      n' = n + evs.length ∧ Contiguous afterSeq n' b' ∧
      b'.numbered = b.numbered ++ (number (n + 1) evs).filter (fun e => afterSeq < e.1) := by
  have hlines := lines_eq_append_drop h.consumed
  rw [show contentOf (some f) = f.content from rfl, ← h.offset] at hlines
  generalize hnew : lines newline (f.content.drop s.offset) = new at hlines
  obtain ⟨hn, hcont, hnum⟩ := foldl_emit (decoder.run s.dec new).2 hb
  refine ⟨{ s with offset := s.offset + new.flatten.length, dec := (decoder.run s.dec new).1 },
    _, _, (decoder.run s.dec new).2, ?_, ?_, ?_, hn, hcont, hnum⟩
  · rw [readFrom, hnew, foldl_readLine]
  · rw [hlines]
    exact
      { offset := by rw [flatten_append, length_append, h.offset]
        dec := by rw [decoder.state_append, h.dec]
        consumed := by
          rw [← hlines]
          exact prefix_rfl
        info := h.info }
  · rw [hlines, decoder.output_append, h.dec]

end Cursor

/-! ## The world -/

section World

variable {σ : Type} {decoders : Nat → SourceDecoder σ} {payloads : PayloadReader} {w w' : World σ}

/-- Every index is one of its file. -/
def WorldOk (decoders : Nat → SourceDecoder σ) (payloads : PayloadReader) (w : World σ) : Prop :=
  ∀ i, (∀ f, w.files i = some f → ∃ ls, Tracks (decoders i) payloads f (w.indexes i) ls) ∧
    (w.files i = none → w.indexes i = newSourceIndex (decoders i))

theorem worldOk_blank : WorldOk decoders payloads (.blank decoders) :=
  fun _ => ⟨nofun, fun _ => rfl⟩

variable {f : FileState}

section

variable (h : WorldOk decoders payloads w)

include h

theorem WorldOk.setFile (hf : ∃ ls, Tracks (decoders i) payloads f (w.indexes i) ls) :
    WorldOk decoders payloads (w.setFile i f) := by
  intro j
  by_cases hj : j = i
  · subst hj
    simp only [World.setFile, update_self]
    exact ⟨fun f' hf' => some.inj hf' ▸ hf, nofun⟩
  · simp only [World.setFile, update_of_ne hj]
    exact h j

theorem WorldOk.setIndex {ix : SourceIndex σ}
    (hix : ∀ f, w.files i = some f → ∃ ls, Tracks (decoders i) payloads f ix ls)
    (hnone : w.files i = none → ix = newSourceIndex (decoders i)) :
    WorldOk decoders payloads (w.setIndex i ix) := by
  intro j
  by_cases hj : j = i
  · subst hj
    simp only [World.setIndex, update_self]
    exact ⟨hix, hnone⟩
  · simp only [World.setIndex, update_of_ne hj]
    exact h j

/-- **`openIndexed`** indexes every complete line. -/
theorem WorldOk.tracks_openIndexed (hf : w.files i = some f) :
    Tracks (decoders i) payloads f ((w.openIndexed decoders payloads i f).indexes i)
      (lines newline f.content) := by
  obtain ⟨ls, hls⟩ := (h i).1 f hf
  simpa only [World.openIndexed, World.setIndex, update_self] using hls.update

theorem WorldOk.openIndexed
    (hf : w.files i = some f) : WorldOk decoders payloads (w.openIndexed decoders payloads i f) := by
  obtain ⟨ls, hls⟩ := (h i).1 f hf
  refine h.setIndex (fun f' hf' => ?_) fun hnone => by cases hf.symm.trans hnone
  cases hf.symm.trans hf'
  exact ⟨_, hls.update⟩

/-- **One step beside the tail**: the files grow and the indexes stay indexes of them. -/
theorem world_step {e : WorldEvent} (hstep : w.step decoders payloads e = some w') :
    WorldOk decoders payloads w' ∧ ∀ i, FileGrows (w.files i) (w'.files i) := by
  cases e with
  | create i ident modTime =>
    simp only [World.step] at hstep
    split at hstep
    · cases hstep
    next hnone =>
    cases hstep
    refine ⟨h.setFile ⟨[], (h i).2 hnone ▸ tracks_newSourceIndex _⟩, fun j f hf => ?_⟩
    have hj : j ≠ i := fun hj => by cases hnone.symm.trans (hj ▸ hf)
    simp only [World.setFile, update_of_ne hj]
    exact FileGrows.refl _ f hf
  | append i bytes modTime =>
    obtain ⟨f, hf, rfl⟩ := map_eq_some_iff.mp hstep
    obtain ⟨ls, hls⟩ := (h i).1 f hf
    refine ⟨h.setFile ⟨ls, hls.append bytes modTime⟩, fun j f' hf' => ?_⟩
    by_cases hj : j = i
    · subst hj
      cases hf.symm.trans hf'
      simp only [World.setFile, update_self]
      exact ⟨_, rfl, rfl, prefix_append _ _⟩
    · simp only [World.setFile, update_of_ne hj]
      exact FileGrows.refl _ f' hf'
  | update i =>
    obtain ⟨f, hf, rfl⟩ := map_eq_some_iff.mp hstep
    exact ⟨h.openIndexed hf, fun j => .refl _⟩
  | evict i =>
    cases hstep
    refine ⟨h.setIndex (fun f _ => ⟨[], tracks_newSourceIndex f⟩) fun _ => rfl, fun j => ?_⟩
    exact .refl _

end

end World

/-! ## The tail -/

section Tail

variable {σ : Type} {count : Nat} {decoders : Nat → SourceDecoder σ} {payloads : PayloadReader}
  {t t' : TailState σ} {lss lss' : Nat → List (List UInt8)}

/-- The number of events of the lines consumed of the first `n` sources. -/
def total (decoders : Nat → SourceDecoder σ) (lss : Nat → List (List UInt8)) (n : Nat) : Int :=
  ∑ j ∈ Finset.range n, (((decoders j).output (lss j)).length : Int)

theorem total_succ (n : Nat) : total decoders lss (n + 1) =
    total decoders lss n + ((decoders n).output (lss n)).length :=
  Finset.sum_range_succ _ _

theorem total_congr {n : Nat} (h : ∀ j, j < n → lss' j = lss j) :
    total decoders lss' n = total decoders lss n :=
  Finset.sum_congr rfl fun j hj => by rw [h j (Finset.mem_range.mp hj)]

theorem total_eq_of_nil {k n : Nat} (hkn : k ≤ n) (h : ∀ j, k ≤ j → lss j = []) :
    total decoders lss n = total decoders lss k := by
  induction n, hkn using le_induction with
  | base => rfl
  | succ n hn ih =>
    rw [total_succ, ih, h n hn]
    simp

theorem total_update {n : Nat} (hi : i < n) (ls : List (List UInt8)) :
    total decoders (update lss i ls) n = total decoders lss n +
      ((decoders i).output ls).length - ((decoders i).output (lss i)).length := by
  have hmem : i ∈ Finset.range n := Finset.mem_range.mpr hi
  rw [total, total, ← Finset.add_sum_erase _ _ hmem, ← Finset.add_sum_erase _ _ hmem]
  have hrest : ∑ j ∈ (Finset.range n).erase i,
      (((decoders j).output (update lss i ls j)).length : Int) =
      ∑ j ∈ (Finset.range n).erase i, (((decoders j).output (lss j)).length : Int) :=
    Finset.sum_congr rfl fun j hj => by rw [update_of_ne (Finset.ne_of_mem_erase hj)]
  rw [hrest, update_self]
  omega

/-- The tail has not swept yet. -/
structure Unswept (t : TailState σ) : Prop where
  attempt : t.attempt = 0
  batch : t.batch = .empty
  out : t.out = []
  collected : t.collected = []
  sent : t.sent = []

/-- The ordinal counts the events consumed; while sources are positioned, `base` counts those of the
    sources done, and nothing was consumed of the others. -/
def Counted (count : Nat) (decoders : Nat → SourceDecoder σ) (t : TailState σ)
    (lss : Nat → List (List UInt8)) : Prop :=
  match t.phase with
  | .opening i base =>
    i ≤ count ∧ base = total decoders lss i ∧ base ≤ max t.afterSeq 0 ∧
      (∀ j, i ≤ j → lss j = []) ∧ Unswept t
  | .positioning i base snap =>
    i < count ∧ base = total decoders lss i ∧ base ≤ max t.afterSeq 0 ∧
      (∀ j, i ≤ j → lss j = []) ∧ Unswept t ∧
      ∃ f, t.world.files i = some f ∧ f.ident = snap.identity
  | .crashed => False
  | .sweeping i => i ≤ count ∧ t.ordinal = total decoders lss count
  | .reading i => i < count ∧ t.ordinal = total decoders lss count
  | .waiting => t.first = 0 ∧ t.collected = [] ∧ t.ordinal = total decoders lss count

/-- The invariant of a tail whose cursors stand after the lines `lss`. -/
structure TailInv (count : Nat) (decoders : Nat → SourceDecoder σ) (payloads : PayloadReader)
    (t : TailState σ) (lss : Nat → List (List UInt8)) : Prop where
  world : WorldOk decoders payloads t.world
  cursors : ∀ i, CursorAt (decoders i) (t.world.files i) (t.sources i) (lss i)
  batch : Contiguous t.afterSeq t.ordinal t.batch
  collected : t.collected.map Prod.snd = t.batch.numbered
  sent : t.sent.map Prod.snd = t.out.flatMap Batch.numbered
  counted : Counted count decoders t lss

/-- What is counted, in the phase the tail is in. -/
theorem TailInv.counted_at {p : Phase} (h : TailInv count decoders payloads t lss)
    (hphase : t.phase = p) : Counted count decoders { t with phase := p } lss := by
  subst hphase
  exact h.counted

def TailState.emitted (t : TailState σ) : List (Nat × Int × RuntimeEvent) := t.sent ++ t.collected

/-- The state before a step of the tail is one in which positioning goes right: the resume point is
    not negative, and if the events counted by the snapshot do not reach past it, then their number
    is still that of the end of the index or of one of its checkpoints. -/
def Fits (t : TailState σ) : Prop :=
  ∀ i base snap, t.phase = .positioning i base snap →
    0 ≤ t.afterSeq ∧
      (base + snap.events ≤ t.afterSeq →
        snap.events = (t.world.indexes i).events ∨
          ∃ cp ∈ (t.world.indexes i).cps, cp.events = snap.events)

/-- What a step of the tail does to the cursors and to what was emitted. -/
inductive Moves (decoders : Nat → SourceDecoder σ) (t t' : TailState σ)
    (lss lss' : Nat → List (List UInt8)) : Prop
  | kept (hlss : lss' = lss) (hemitted : t'.emitted = t.emitted)
  /-- A source is positioned, not past the resume point. -/
  | placed {i : Nat} {base : Int} {snap : IndexSnapshot} {ls : List (List UInt8)}
      (hphase : t.phase = .positioning i base snap) (hlss : lss' = Function.update lss i ls)
      (hle : ((decoders i).output ls).length ≤ t.afterSeq - base)
      (hnone : t.emitted = []) (hnone' : t'.emitted = [])
  /-- A source is read to its last complete line. -/
  | read {i : Nat} {f : FileState} {evs : List RuntimeEvent} (hphase : t.phase = .reading i)
      (hf : t.world.files i = some f)
      (hlss : lss' = Function.update lss i (lines newline f.content))
      (hevs : (decoders i).output (lines newline f.content) = (decoders i).output (lss i) ++ evs)
      (hemitted : t'.emitted = t.emitted ++
        ((number (t.ordinal + 1) evs).filter fun e => t.afterSeq < e.1).map fun e => (i, e))

variable {i : Nat} {sources : Nat → TailSource σ}

theorem cursors_update {files : Nat → Option FileState}
    (h : ∀ j, CursorAt (decoders j) (files j) (sources j) (lss j)) {s : TailSource σ}
    {ls : List (List UInt8)} (hi : CursorAt (decoders i) (files i) s ls) (j : Nat) :
    CursorAt (decoders j) (files j) (update sources i s j) (update lss i ls j) := by
  by_cases hj : j = i
  · subst hj
    rwa [update_self, update_self]
  · rw [update_of_ne hj, update_of_ne hj]
    exact h j

theorem cursorAt_fresh (decoder : SourceDecoder σ) (file : Option FileState) :
    CursorAt decoder file ⟨0, decoder.init, none⟩ [] where
  offset := rfl
  dec := rfl
  consumed := nil_prefix
  info _ h := nomatch h

theorem positioned_phase (hfresh : Unswept t) {ordinal : Int} {first : Nat} :
    (({ t with sources := sources } : TailState σ).positioned ordinal first).phase =
      .sweeping first := by
  simp [positioned, hfresh.attempt]

/-- `positionSources` returns for the first time. -/
theorem positioned_inv (hinv : TailInv count decoders payloads t lss) (hfresh : Unswept t)
    {ordinal : Int} {first : Nat} (hfirst : first ≤ count)
    (hcursors : ∀ j, CursorAt (decoders j) (t.world.files j) (sources j) (lss' j))
    (hordinal : ordinal = total decoders lss' count) :
    TailInv count decoders payloads ({ t with sources := sources }.positioned ordinal first) lss' ∧
      ({ t with sources := sources }.positioned ordinal first).emitted = [] := by
  refine ⟨⟨hinv.world, hcursors, .inl rfl, rfl, hinv.sent, ?_⟩, ?_⟩
  · rw [Counted, positioned_phase hfresh]
    exact ⟨hfirst, hordinal⟩
  · simp [emitted, positioned, hfresh.sent]

theorem Unswept.emitted (h : Unswept t) : t.emitted = [] := by
  rw [TailState.emitted, h.sent, h.collected]
  rfl

variable {base : Int}

section

variable (hinv : TailInv count decoders payloads t lss)

include hinv

theorem openSource_phase (hphase : t.phase = .opening i base) :
    (i = count ∧ (t.openSource count decoders payloads i base).phase = .sweeping count ∧
        (t.openSource count decoders payloads i base).ordinal = base) ∨
      (i < count ∧ t.world.files i = none ∧
        (t.openSource count decoders payloads i base).phase = .opening (i + 1) base) ∨
      ∃ f snap, i < count ∧ t.world.files i = some f ∧
        (t.openSource count decoders payloads i base).phase = .positioning i base snap ∧
        snap.events = ((t.openSource count decoders payloads i base).world.indexes i).events ∧
        snap.events = ((decoders i).output (lines newline f.content)).length := by
  obtain ⟨hile, -, -, -, hfresh⟩ := hinv.counted_at hphase
  unfold openSource
  split
  · next hcount => exact .inl ⟨le_antisymm hile hcount, positioned_phase { hfresh with }, rfl⟩
  next hcount =>
  split
  · next hf => exact .inr (.inl ⟨by omega, hf, rfl⟩)
  next f hf =>
  exact .inr (.inr ⟨f, _, by omega, hf, rfl, rfl,
    (hinv.world.tracks_openIndexed hf).indexes.events⟩)

theorem openSource_moves (hphase : t.phase = .opening i base) :
    TailInv count decoders payloads (t.openSource count decoders payloads i base) lss ∧
      (t.openSource count decoders payloads i base).emitted = t.emitted := by
  obtain ⟨hile, hbase, hmax, hnil, hfresh⟩ : _ ∧ _ := by
    have := hinv.counted
    rwa [Counted, hphase] at this
  unfold openSource
  split
  · next hcount =>
    obtain rfl : i = count := le_antisymm hile hcount
    obtain ⟨hinv', hemitted⟩ := positioned_inv hinv hfresh hile hinv.cursors hbase
    exact ⟨hinv', hemitted.trans hfresh.emitted.symm⟩
  next hcount =>
  split
  · refine ⟨{ hinv with cursors := fun j => ?_, counted := ?_ }, rfl⟩
    · have := cursors_update hinv.cursors (cursorAt_fresh (decoders i) (t.world.files i)) j
      rwa [← hnil i (le_refl i), update_eq_self] at this
    · refine ⟨by omega, ?_, hmax, fun j hj => hnil j (by omega), { hfresh with }⟩
      rw [hbase, total_succ, hnil i (le_refl i)]
      simp
  · next f hf =>
    refine ⟨{ hinv with world := hinv.world.openIndexed hf, counted := ?_ }, rfl⟩
    exact ⟨by omega, hbase, hmax, hnil, { hfresh with }, f, hf, rfl⟩

/-- **The rest of the round**: the source is placed not past the resume point; the round after it
    starts if all its events are before, and the sweep if not. -/
theorem placeSource_spec (hfit : Fits t)
    {snap : IndexSnapshot} (hphase : t.phase = .positioning i base snap) :
    ∃ ls, TailInv count decoders payloads (t.placeSource decoders i base snap)
        (update lss i ls) ∧
      ((decoders i).output ls).length ≤ t.afterSeq - base ∧ t.emitted = [] ∧
      (t.placeSource decoders i base snap).emitted = [] ∧
      ((base + snap.events ≤ t.afterSeq ∧ ((decoders i).output ls).length = snap.events ∧
          (t.placeSource decoders i base snap).phase = .opening (i + 1) (base + snap.events)) ∨
        (t.afterSeq < base + snap.events ∧
          (t.placeSource decoders i base snap).phase = .sweeping i ∧
          (t.placeSource decoders i base snap).ordinal =
            base + ((decoders i).output ls).length)) := by
  obtain ⟨hi, hbase, hmax, hnil, hfresh, f, hf, hident⟩ : _ ∧ _ := by
    have := hinv.counted
    rwa [Counted, hphase] at this
  obtain ⟨hnonneg, hcount⟩ := hfit i base snap hphase
  obtain ⟨il, htracks⟩ := (hinv.world i).1 f hf
  -- a point of the index is one of the file
  have hcursor : ∀ ls, ls <+: il → CursorAt (decoders i) (t.world.files i)
      ⟨(pointAt (decoders i) ls).offset, (pointAt (decoders i) ls).dec, some snap.identity⟩ ls :=
    fun ls hls =>
      { offset := rfl
        dec := rfl
        consumed := by
          rw [hf]
          exact hls.trans htracks.consumed
        info := fun ident h => ⟨f, hf, hident.trans (some.inj h)⟩ }
  have hbelow : ∀ (ls : List (List UInt8)) j, j < i → update lss i ls j = lss j :=
    fun ls j hj => update_of_ne (by omega) _ _
  have habove : ∀ (ls : List (List UInt8)) j, i + 1 ≤ j → update lss i ls j = [] :=
    fun ls j hj => (update_of_ne (by omega) _ _).trans (hnil j (by omega))
  have htotal : ∀ ls, total decoders (update lss i ls) (i + 1) =
      base + ((decoders i).output ls).length := fun ls => by
    rw [total_succ, total_congr (hbelow ls), hbase, update_self]
  unfold placeSource
  split
  · next hle =>
    obtain ⟨ls, hls, hpos, hevents, hnearest⟩ :=
      htracks.indexes.position (Int.natCast_nonneg snap.events)
    have heq : ((decoders i).output ls).length = snap.events := by
      refine le_antisymm (by exact_mod_cast hevents) ?_
      rcases hcount hle with hend | ⟨cp, hcp, hcpe⟩
      · have := hnearest _ mem_cons_self (by rw [hend])
        rw [hend]
        exact this
      · have := hnearest cp (mem_cons_of_mem _ hcp) (by rw [hcpe])
        rwa [hcpe] at this
    rw [hpos]
    refine ⟨ls,
      { hinv with cursors := cursors_update hinv.cursors (hcursor ls hls), counted := ?_ },
      by omega, hfresh.emitted, hfresh.emitted ▸ rfl, .inl ⟨hle, heq, rfl⟩⟩
    refine ⟨by omega, ?_, ?_, habove ls, { hfresh with }⟩
    · rw [htotal, heq]
    · show base + snap.events ≤ max t.afterSeq 0
      omega
  · next hgt =>
    obtain ⟨ls, hls, hpos, hevents, -⟩ :=
      htracks.indexes.position (show 0 ≤ t.afterSeq - base by omega)
    rw [hpos]
    have hlater : ∀ j, CursorAt (decoders j) (t.world.files j)
        (if i < j then freshSource decoders j else t.sources j) (lss j) := by
      intro j
      split
      · next hij =>
        rw [hnil j (by omega)]
        exact cursorAt_fresh _ _
      · exact hinv.cursors j
    have hordinal : base + ((pointAt (decoders i) ls).events : Int) =
        total decoders (update lss i ls) count := by
      rw [total_eq_of_nil hi (habove ls), htotal]
      rfl
    obtain ⟨hinv', hemitted⟩ :=
      positioned_inv hinv hfresh hi.le (cursors_update hlater (hcursor ls hls)) hordinal
    exact ⟨ls, hinv', hevents, hfresh.emitted, hemitted,
      .inr ⟨by omega, positioned_phase hfresh, rfl⟩⟩

theorem finishSweep_inv (hordinal : t.ordinal = total decoders lss count) :
    TailInv count decoders payloads t.finishSweep lss ∧ t.finishSweep.emitted = t.emitted := by
  have hframes : (if t.batch.events = [] then [] else splitBatch t.batch).flatMap numbered =
      t.batch.numbered := by
    split
    · next hnil => rw [numbered_of_events_nil hnil, flatMap_nil]
    · exact splitBatch_numbered t.batch
  refine ⟨{ hinv with batch := .inl rfl, collected := rfl, sent := ?_, counted := ⟨rfl, rfl,
    hordinal⟩ }, ?_⟩
  · simp only [finishSweep, map_append, flatMap_append]
    rw [hframes, hinv.sent, hinv.collected]
  · simp [emitted, finishSweep]

/-- **The checks of `sweep`** on a growing file never resynchronise. -/
theorem statSource_moves (hphase : t.phase = .sweeping i) :
    TailInv count decoders payloads (t.statSource count i) lss ∧
      (t.statSource count i).emitted = t.emitted := by
  obtain ⟨-, hordinal⟩ := hinv.counted_at hphase
  unfold statSource
  split
  · exact finishSweep_inv hinv hordinal
  next hcount =>
  split
  · exact ⟨{ hinv with counted := ⟨by omega, hordinal⟩ }, rfl⟩
  next f hf =>
  have hcursor := hinv.cursors i
  rw [hf] at hcursor
  obtain ⟨hsame, hboundary⟩ := hcursor.checks
  dsimp only
  rw [if_neg hsame, if_neg hboundary]
  have hinfo : CursorAt (decoders i) (t.world.files i)
      { t.sources i with info := some f.ident } (lss i) :=
    { hinv.cursors i with info := fun ident h => ⟨f, hf, some.inj h⟩ }
  have hcursors := cursors_update hinv.cursors hinfo
  rw [update_eq_self] at hcursors
  split
  · exact ⟨{ hinv with cursors := hcursors, counted := ⟨by omega, hordinal⟩ }, rfl⟩
  · exact ⟨{ hinv with cursors := hcursors, counted := ⟨by omega, hordinal⟩ }, rfl⟩

theorem statSource_phase (i : Nat) : (t.statSource count i).ordinal = t.ordinal ∧
      ((count ≤ i ∧ (t.statSource count i).phase = .waiting) ∨
        (i < count ∧ (t.statSource count i).phase = .sweeping (i + 1) ∧
          lss i = lines newline (contentOf (t.world.files i))) ∨
        ∃ f, i < count ∧ (t.statSource count i).phase = .reading i ∧ t.world.files i = some f) := by
  have hcursor := hinv.cursors i
  unfold statSource
  split
  · next hcount => exact ⟨rfl, .inl ⟨hcount, rfl⟩⟩
  next hcount =>
  split
  · next hf =>
    rw [hf] at hcursor ⊢
    exact ⟨rfl, .inr (.inl ⟨by omega, rfl, prefix_nil.mp hcursor.consumed⟩)⟩
  next f hf =>
  rw [hf] at hcursor ⊢
  obtain ⟨hsame, hboundary⟩ := hcursor.checks
  dsimp only
  rw [if_neg hsame, if_neg hboundary]
  split
  · next hend => exact ⟨rfl, .inr (.inl ⟨by omega, rfl, hcursor.eq_lines hend⟩)⟩
  · exact ⟨rfl, .inr (.inr ⟨f, by omega, rfl, rfl⟩)⟩

theorem readSource_inv {f : FileState}
    (hphase : t.phase = .reading i) (hf : t.world.files i = some f) :
    TailInv count decoders payloads (t.readSource decoders i)
        (update lss i (lines newline f.content)) ∧
      ∃ evs, (decoders i).output (lines newline f.content) = (decoders i).output (lss i) ++ evs ∧
        (t.readSource decoders i).ordinal = t.ordinal + evs.length ∧
        (t.readSource decoders i).emitted = t.emitted ++
          ((number (t.ordinal + 1) evs).filter fun e => t.afterSeq < e.1).map fun e => (i, e) := by
  obtain ⟨hi, hordinal⟩ := hinv.counted_at hphase
  have hcursor := hinv.cursors i
  rw [hf] at hcursor
  obtain ⟨s', n', b', evs, hread, hcursor', hevs, hn, hcont, hnum⟩ :=
    readFrom_spec hcursor hinv.batch
  simp only [readSource, hf, hread]
  have hlen : t.batch.numbered.length = t.batch.events.length := length_number _ _
  have hnew : (b'.numbered.drop t.batch.events.length) =
      (number (t.ordinal + 1) evs).filter fun e => t.afterSeq < e.1 := by
    rw [hnum, ← hlen, drop_left]
  refine ⟨{ hinv with cursors := ?_, batch := hcont, collected := ?_, counted := ?_ },
    evs, hevs, hn, ?_⟩
  · exact cursors_update hinv.cursors (hf ▸ hcursor')
  · rw [map_append, hinv.collected, hnew, hnum, List.map_map]
    congr 1
    exact map_id _
  · refine ⟨hi, show n' = total decoders (update lss i
      (lines newline f.content)) count from ?_⟩
    rw [total_update hi, hn, hordinal, hevs, length_append]
    omega
  · rw [emitted, emitted, hnew, append_assoc]
    rfl

theorem readSource_moves (hphase : t.phase = .reading i) :
    ∃ lss', TailInv count decoders payloads (t.readSource decoders i) lss' ∧
      Moves decoders t (t.readSource decoders i) lss lss' := by
  cases hf : t.world.files i with
  | none =>
    obtain ⟨hi, hordinal⟩ := hinv.counted_at hphase
    simp only [readSource, hf]
    exact ⟨lss, { hinv with counted := ⟨hi, hordinal⟩ }, .kept rfl rfl⟩
  | some f =>
    obtain ⟨hinv', evs, hevs, -, hemitted⟩ := readSource_inv hinv hphase hf
    exact ⟨_, hinv', .read hphase hf rfl hevs hemitted⟩

theorem advance_moves (hfit : Fits t) (hstep : t.advance count decoders payloads = some t') :
    ∃ lss', TailInv count decoders payloads t' lss' ∧ Moves decoders t t' lss lss' := by
  unfold advance at hstep
  cases hphase : t.phase with rw [hphase] at hstep
  | opening i base =>
    cases hstep
    obtain ⟨hinv', hemitted⟩ := openSource_moves hinv hphase
    exact ⟨lss, hinv', .kept rfl hemitted⟩
  | positioning i base snap =>
    cases hstep
    obtain ⟨ls, hinv', hle, hbefore, hemitted, -⟩ := placeSource_spec hinv hfit hphase
    exact ⟨_, hinv', .placed hphase rfl hle hbefore hemitted⟩
  | sweeping i =>
    cases hstep
    obtain ⟨hinv', hemitted⟩ := statSource_moves hinv hphase
    exact ⟨lss, hinv', .kept rfl hemitted⟩
  | reading i =>
    cases hstep
    exact readSource_moves hinv hphase
  | waiting =>
    cases hstep
    obtain ⟨hfirst, -, hordinal⟩ := hinv.counted_at hphase
    exact ⟨lss, { hinv with counted := ⟨hfirst.le.trans (zero_le _), hordinal⟩ }, .kept rfl rfl⟩
  | crashed =>
    cases hstep

end

theorem advance_frame (hstep : t.advance count decoders payloads = some t') :
    t'.world.files = t.world.files ∧ t'.afterSeq = t.afterSeq := by
  unfold advance at hstep
  split at hstep
  · cases hstep
    unfold openSource
    repeat' split
    all_goals exact ⟨rfl, rfl⟩
  · cases hstep
    unfold placeSource
    repeat' split
    all_goals exact ⟨rfl, rfl⟩
  · cases hstep
    unfold statSource
    dsimp only
    repeat' split
    all_goals exact ⟨rfl, rfl⟩
  · cases hstep
    unfold readSource
    split <;> exact ⟨rfl, rfl⟩
  · cases hstep
    exact ⟨rfl, rfl⟩
  · cases hstep

/-- **A step beside the tail** leaves its cursors where they are. -/
theorem worldStep_inv (hinv : TailInv count decoders payloads t lss) {e : WorldEvent}
    {w : World σ} (hstep : t.world.step decoders payloads e = some w) :
    TailInv count decoders payloads { t with world := w } lss := by
  obtain ⟨hworld, hgrow⟩ := world_step hinv.world hstep
  refine { hinv with
    world := hworld, cursors := fun i => (hinv.cursors i).grows (hgrow i), counted := ?_ }
  have hcounted := hinv.counted
  unfold Counted at hcounted ⊢
  cases hphase : t.phase with
  | opening i base =>
    rw [hphase] at hcounted
    obtain ⟨hi, hbase, hmax, hnil, hfresh⟩ := hcounted
    exact ⟨hi, hbase, hmax, hnil, { hfresh with }⟩
  | positioning i base snap =>
    rw [hphase] at hcounted
    obtain ⟨hi, hbase, hmax, hnil, hfresh, f, hf, hident⟩ := hcounted
    obtain ⟨f', hf', hident', -⟩ := hgrow i f hf
    exact ⟨hi, hbase, hmax, hnil, { hfresh with }, f', hf', hident'.trans hident⟩
  | sweeping | reading | waiting | crashed => rwa [hphase] at hcounted

theorem step_cases {e : TailEvent} (hstep : t.step count decoders payloads e = some t') :
    (e = .tail ∧ t.advance count decoders payloads = some t') ∨
      ∃ we w, e = .world we ∧ t.world.step decoders payloads we = some w ∧
        t' = { t with world := w } := by
  cases e with
  | tail => exact .inl ⟨rfl, hstep⟩
  | world we =>
    have hmap : (t.world.step decoders payloads we).map (fun w => { t with world := w }) =
        some t' := by
      cases we with
      | evict i =>
        simp only [step] at hstep
        split_ifs at hstep
        exact hstep
      | _ => exact hstep
    obtain ⟨w, hw, rfl⟩ := map_eq_some_iff.mp hmap
    exact .inr ⟨we, w, rfl, hw, rfl⟩

theorem tailInv_start {w : World σ} (hworld : WorldOk decoders payloads w) (afterSeq : Int) :
    TailInv count decoders payloads (.start decoders w afterSeq) fun _ => [] where
  world := hworld
  cursors i := cursorAt_fresh (decoders i) (w.files i)
  batch := .inl rfl
  collected := rfl
  sent := rfl
  counted := ⟨zero_le _, rfl, Int.le_max_right _ _, fun _ _ => rfl, ⟨rfl, rfl, rfl, rfl, rfl⟩⟩

end Tail

end AgentMultiplexer.RuntimeEvents
