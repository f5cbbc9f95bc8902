import AgentMultiplexer.Theory.Transition
import AgentMultiplexer.RuntimeEvents.Index

set_option autoImplicit false

/-! # The index refines a decode from the top

An index that has seen a growing file is described by the lines it has indexed, a prefix of the
file's complete lines: its end, its event count, its decoder state and its open requests are those
of a decode of these lines from the top, and each checkpoint is the same for a prefix of them. An
update extends the indexed lines to all complete lines of the file. -/

namespace AgentMultiplexer.RuntimeEvents

open Lines List Transition SourceIndex

variable {σ : Type} {decoder : SourceDecoder σ} {payloads : PayloadReader}

/-- The point a decode from the top reaches after these lines. -/
def pointAt (decoder : SourceDecoder σ) (ls : List (List UInt8)) : IndexCheckpoint σ :=
  ⟨ls.flatten.length, (decoder.output ls).length, decoder.state ls⟩

/-- The index has indexed these lines. -/
structure Indexes (decoder : SourceDecoder σ) (payloads : PayloadReader) (ix : SourceIndex σ)
    (ls : List (List UInt8)) : Prop where
  endOffset : ix.endOffset = ls.flatten.length
  events : ix.events = (decoder.output ls).length
  dec : ix.dec = decoder.state ls
  pending : ix.pending = payloads.applyPending [] (decoder.output ls)
  cps : ∀ cp ∈ ix.cps, ∃ ls', ls' <+: ls ∧ cp = pointAt decoder ls'
  sorted : ix.cps.Pairwise fun cp cp' => cp.events ≤ cp'.events
  head : ix.cps.head? = some (pointAt decoder [])

theorem indexes_newSourceIndex : Indexes decoder payloads (newSourceIndex decoder) [] where
  endOffset := rfl
  events := rfl
  dec := rfl
  pending := rfl
  cps _ hcp := ⟨[], prefix_rfl, mem_singleton.mp hcp⟩
  sorted := pairwise_singleton _ _
  head := rfl

theorem Indexes.cps_le {ix : SourceIndex σ} {ls : List (List UInt8)}
    (h : Indexes decoder payloads ix ls) : ∀ cp ∈ ix.cps, cp.events ≤ ix.events := by
  intro cp hcp
  obtain ⟨ls', hls', rfl⟩ := h.cps cp hcp
  rw [h.events]
  exact (decoder.output_isPrefix hls').length_le

/-! ## Scanning -/

section Scan

variable {ix : SourceIndex σ} {ls : List (List UInt8)}

/-- The index at the end of the lines, and whatever of the rest does not depend on them. -/
theorem Indexes.checkpoint (h : Indexes decoder payloads ix ls) : Indexes decoder payloads { ix with
      cps := ix.cps ++ [⟨ix.endOffset, ix.events, ix.dec⟩], sinceCP := 0, eventsCP := 0 } ls := by
  refine { h with cps := ?_, sorted := ?_, head := ?_ }
  · refine forall_mem_append.mpr ⟨h.cps, forall_mem_singleton.mpr ⟨ls, prefix_rfl, ?_⟩⟩
    rw [pointAt, h.endOffset, h.events, h.dec]
  · refine pairwise_append.mpr ⟨h.sorted, pairwise_singleton _ _, fun cp hcp cp' hcp' => ?_⟩
    rw [mem_singleton.mp hcp']
    exact h.cps_le cp hcp
  · rw [head?_append, h.head, Option.some_or]

theorem Indexes.scanLine (h : Indexes decoder payloads ix ls) (line : List UInt8) :
    Indexes decoder payloads (ix.scanLine decoder payloads line) (ls ++ [line]) := by
  have hline : Indexes decoder payloads { ix with
      dec := (decoder.step ix.dec line).1
      pending := payloads.applyPending ix.pending (decoder.step ix.dec line).2
      endOffset := ix.endOffset + line.length
      events := ix.events + (decoder.step ix.dec line).2.length
      sinceCP := ix.sinceCP + line.length
      eventsCP := ix.eventsCP + (decoder.step ix.dec line).2.length } (ls ++ [line]) :=
    { h with
      endOffset := by simp [h.endOffset]
      events := by rw [decoder.output_concat, length_append, h.events, h.dec]
      dec := by rw [decoder.state_concat, h.dec]
      pending := by
        rw [decoder.output_concat, PayloadReader.applyPending, PayloadReader.applyPending,
          foldl_append, h.pending, h.dec]
        rfl
      cps := fun cp hcp => by
        obtain ⟨ls', hls', hcp⟩ := h.cps cp hcp
        exact ⟨ls', hls'.trans (prefix_append _ _), hcp⟩ }
  unfold SourceIndex.scanLine
  dsimp only
  split
  · exact hline.checkpoint
  · exact hline

theorem Indexes.scanLines (h : Indexes decoder payloads ix ls) (new : List (List UInt8)) :
    Indexes decoder payloads (new.foldl (.scanLine decoder payloads) ix) (ls ++ new) := by
  induction new generalizing ix ls with
  | nil => rwa [append_nil]
  | cons line new ih =>
    have := ih (h.scanLine line)
    rwa [append_assoc, singleton_append] at this

end Scan

/-! ## Updates -/

section Update

variable {ix : SourceIndex σ} {ls : List (List UInt8)} {f : FileState}

/-- The index has indexed these lines of this file; its anchor is the end of them. -/
structure Tracks (decoder : SourceDecoder σ) (payloads : PayloadReader) (f : FileState)
    (ix : SourceIndex σ) (ls : List (List UInt8)) : Prop where
  indexes : Indexes decoder payloads ix ls
  consumed : ls <+: lines newline f.content
  identity : ∀ ident, ix.identity = some ident → ident = f.ident
  anchor : ix.anchor <:+ ls.flatten
  anchored : ix.anchor = [] → ls.flatten = []

theorem tracks_newSourceIndex (f : FileState) :
    Tracks decoder payloads f (newSourceIndex decoder) [] where
  indexes := indexes_newSourceIndex
  consumed := nil_prefix
  identity _ h := nomatch h
  anchor := suffix_rfl
  anchored _ := rfl

theorem Tracks.append (h : Tracks decoder payloads f ix ls) (bytes : List UInt8) (modTime : Int) :
    Tracks decoder payloads { f with content := f.content ++ bytes, modTime := modTime } ix ls :=
  { h with consumed := h.consumed.trans (lines_prefix_append _ _) }

theorem bytesBefore_suffix {content pre : List UInt8} (hpre : pre <+: content) {n : Nat}
    (hn : n ≤ pre.length) : bytesBefore content pre.length n <:+ pre := by
  obtain ⟨v, rfl⟩ := hpre
  have hdrop : ((pre ++ v).drop (pre.length - n)).take n = pre.drop (pre.length - n) := by
    rw [drop_append_of_le_length (by omega), take_append_of_le_length (by simp; omega),
      take_of_length_le (by simp; omega)]
  rw [bytesBefore, hdrop]
  exact drop_suffix _ _

/-- An append-only file is never taken for another one. -/
theorem Tracks.revalidate (h : Tracks decoder payloads f ix ls) : ix.revalidate decoder f = ix := by
  unfold SourceIndex.revalidate
  split
  · rfl
  next ident hident =>
  have hprefix : ix.stillPrefix f = true := by
    have hlen : ix.endOffset ≤ f.content.length :=
      h.indexes.endOffset ▸ length_flatten_le h.consumed
    unfold stillPrefix
    rw [if_neg (by simp [hident, h.identity ident hident, hlen])]
    split
    · next hanchor =>
      simp [h.indexes.endOffset, h.anchored (length_eq_zero_iff.mp hanchor)]
    · rw [h.indexes.endOffset, decide_eq_true_eq]
      obtain ⟨v, hv⟩ := flatten_isPrefix h.consumed
      obtain ⟨u, hu⟩ := h.anchor
      rw [← hv, ← hu]
      simp [bytesBefore]
  rw [if_pos (.inr hprefix)]

theorem scanLines_frame (decoder : SourceDecoder σ) (payloads : PayloadReader)
    (new : List (List UInt8)) (ix : SourceIndex σ) :
    (new.foldl (scanLine decoder payloads) ix).identity = ix.identity ∧
      (new.foldl (scanLine decoder payloads) ix).anchor = ix.anchor := by
  induction new generalizing ix with
  | nil => exact ⟨rfl, rfl⟩
  | cons line new ih =>
    have hline : (ix.scanLine decoder payloads line).identity = ix.identity ∧
        (ix.scanLine decoder payloads line).anchor = ix.anchor := by
      unfold scanLine
      dsimp only
      split <;> exact ⟨rfl, rfl⟩
    rw [foldl_cons, (ih _).1, (ih _).2]
    exact hline

/-- The anchor a scan leaves is the end of what it scanned, and is not empty. -/
theorem scanAnchor_suffix {content last : List UInt8} {ms : List (List UInt8)}
    (hms : ms <+: lines newline content) (hlast : ms.getLast? = some last) :
    scanAnchor content last ms.flatten.length <:+ ms.flatten ∧
      scanAnchor content last ms.flatten.length ≠ [] := by
  obtain ⟨ls, rfl⟩ := getLast?_eq_some_iff.mp hlast
  have hpos : 0 < last.length := by
    obtain ⟨body, -, rfl⟩ : IsLine newline last := isLine_of_mem (hms.subset (by simp))
    simp
  have hsuffix : last <:+ (ls ++ [last]).flatten := ⟨ls.flatten, by simp⟩
  have hle : last.length ≤ (ls ++ [last]).flatten.length := hsuffix.length_le
  unfold scanAnchor
  split
  · next hlong =>
    refine ⟨(drop_suffix _ _).trans hsuffix, ne_nil_of_length_pos ?_⟩
    rw [length_drop]
    simp only [indexAnchorBytes] at hlong ⊢
    omega
  · refine ⟨bytesBefore_suffix (flatten_isPrefix hms) (Nat.min_le_right _ _), ?_⟩
    refine ne_nil_of_length_pos ?_
    have hlen := length_flatten_le hms
    simp only [bytesBefore, length_take, length_drop, indexAnchorBytes]
    omega

/-- **A scan** reaches the last complete line. -/
theorem Tracks.scan (h : Tracks decoder payloads f ix ls) :
    Tracks decoder payloads f (ix.scan decoder payloads f.content) (lines newline f.content) := by
  have hlines : lines newline f.content = ls ++ lines newline (f.content.drop ix.endOffset) := by
    rw [h.indexes.endOffset]
    exact lines_eq_append_drop h.consumed
  generalize hnew : lines newline (f.content.drop ix.endOffset) = new at hlines
  have hscan := h.indexes.scanLines new
  rw [← hlines] at hscan
  obtain ⟨hid, hanchor⟩ := scanLines_frame decoder payloads new ix
  unfold SourceIndex.scan
  dsimp only
  rw [hnew]
  split
  · next hnone =>
    rw [getLast?_eq_none_iff.mp hnone] at hlines hscan hid hanchor ⊢
    rw [hlines, append_nil] at hscan ⊢
    exact h
  next last hlast =>
  have hlast' : (lines newline f.content).getLast? = some last := by
    rw [hlines, getLast?_append, hlast, Option.some_or]
  obtain ⟨hsuffix, hne⟩ := scanAnchor_suffix prefix_rfl hlast'
  rw [← hscan.endOffset] at hsuffix hne
  exact
    { indexes := { hscan with }
      consumed := prefix_rfl
      identity := fun ident hident => h.identity ident (hid ▸ hident)
      anchor := hsuffix
      anchored := fun hnil => absurd hnil hne }

/-- **An update** indexes every complete line of the file. -/
theorem Tracks.update (h : Tracks decoder payloads f ix ls) :
    Tracks decoder payloads f (ix.update decoder payloads f) (lines newline f.content) := by
  have hstamp : Tracks decoder payloads f { ix with
      identity := some f.ident, size := f.content.length, modTime := f.modTime } ls :=
    { h with
      indexes := { h.indexes with }
      identity := fun ident hident => (Option.some.inj hident).symm }
  unfold SourceIndex.update
  rw [h.revalidate]
  dsimp only
  split
  · exact hstamp.scan
  next hend =>
  -- nothing follows the indexed end
  have hlines := lines_eq_append_drop h.consumed
  rw [← h.indexes.endOffset, drop_eq_nil_of_le (Nat.le_of_not_lt hend), lines_nil,
    append_nil] at hlines
  rwa [hlines]

end Update

/-! ## Reading from the index -/

section Read

variable {ix : SourceIndex σ} {ls : List (List UInt8)}

/-- **The nearest checkpoint** is the point of a prefix of the lines, at most `skip` events in, and
    none that is at most `skip` events in is past it. -/
theorem Indexes.checkpointFor (h : Indexes decoder payloads ix ls) {skip : Int} (hskip : 0 ≤ skip) :
    ∃ ls', ls' <+: ls ∧ ix.checkpointFor skip = some (pointAt decoder ls') ∧
      (decoder.output ls').length ≤ skip ∧
      ∀ cp ∈ ix.cps, cp.events ≤ skip → cp.events ≤ (decoder.output ls').length := by
  have hmono : ∀ (i j : Nat) (hi : i < ix.cps.length) (hj : j < ix.cps.length), i ≤ j →
      ix.cps[i].events ≤ ix.cps[j].events := by
    intro i j hi hj hij
    rcases Nat.lt_or_eq_of_le hij with hlt | rfl
    · exact pairwise_iff_getElem.mp h.sorted i j hi hj hlt
    · exact Nat.le_refl _
  unfold SourceIndex.checkpointFor
  cases hidx : ix.cps.findIdx fun cp => decide (skip < cp.events) with
  | zero =>
    -- the first checkpoint has no event before it
    obtain ⟨tail, htail⟩ := head?_eq_some_iff.mp h.head
    have hneg : ¬ skip < 0 := Int.not_lt.mpr hskip
    rw [htail, findIdx_cons] at hidx
    simp [pointAt, hneg] at hidx
  | succ i =>
    have hfound : ix.cps.findIdx (fun cp => decide (skip < cp.events)) ≤ ix.cps.length :=
      findIdx_le_length
    have hi : i < ix.cps.length := by omega
    have hle : ix.cps[i].events ≤ skip := by
      have hbefore : i < ix.cps.findIdx (fun cp => decide (skip < cp.events)) := by omega
      simpa using not_of_lt_findIdx hbefore
    obtain ⟨ls', hls', hcp⟩ := h.cps ix.cps[i] (getElem_mem hi)
    refine ⟨ls', hls', ?_, ?_, fun cp hmem hcple => ?_⟩
    · rw [← hcp]
      exact getElem?_eq_getElem hi
    · rw [hcp] at hle
      exact hle
    obtain ⟨j, hj, rfl⟩ := getElem_of_mem hmem
    have hji : j ≤ i := by
      by_contra hlt
      -- the checkpoint after the one found has more than `skip` events before it
      have hlen : ix.cps.findIdx (fun cp => decide (skip < cp.events)) < ix.cps.length := by
        omega
      have hnext : skip < ix.cps[i + 1].events := by
        have := findIdx_getElem (w := hlen)
        simpa [hidx] using this
      have := hmono (i + 1) j (by omega) hj (by omega)
      omega
    have hle := hmono j i hj hi hji
    rw [hcp] at hle
    exact hle

/-- **`position`** gives the point of a prefix of the lines: the end, or one at most `skip` events
    in. -/
theorem Indexes.position (h : Indexes decoder payloads ix ls) {skip : Int} (hskip : 0 ≤ skip) :
    ∃ ls', ls' <+: ls ∧ ix.position skip = some (pointAt decoder ls') ∧
      (decoder.output ls').length ≤ skip ∧
      ∀ cp ∈ ⟨ix.endOffset, ix.events, ix.dec⟩ :: ix.cps, cp.events ≤ skip →
        cp.events ≤ (decoder.output ls').length := by
  unfold SourceIndex.position
  split
  · next hend =>
    rw [h.endOffset, h.dec, h.events]
    exact ⟨ls, prefix_rfl, rfl, h.events ▸ hend, forall_mem_cons.mpr
      ⟨fun _ => Nat.le_refl _, fun cp hcp _ => h.events ▸ h.cps_le cp hcp⟩⟩
  · next hend =>
    obtain ⟨ls', hls', hcp, hle, hnearest⟩ := h.checkpointFor hskip
    exact ⟨ls', hls', hcp, hle, forall_mem_cons.mpr ⟨fun h => absurd h hend, hnearest⟩⟩

end Read

/-! ## Runs -/

/-- A record file and its index. -/
structure IndexedFile (σ : Type) where
  file : FileState
  index : SourceIndex σ

inductive IndexEvent
  /-- The file grows. -/
  | append (bytes : List UInt8) (modTime : Int)
  /-- Some reader brings the index up to date. -/
  | update

def IndexedFile.step (decoder : SourceDecoder σ) (payloads : PayloadReader) (s : IndexedFile σ) :
    IndexEvent → Option (IndexedFile σ)
  | .append bytes modTime =>
    some { s with
      file := { s.file with content := s.file.content ++ bytes, modTime := modTime } }
  | .update => some { s with index := s.index.update decoder payloads s.file }

/-- A decoder for examples: each line is one event, numbered by the decoder. -/
def countingDecoder : SourceDecoder Nat where
  init := 0
  step n line := (n + 1, [⟨"line", toString n, "out", line⟩])

/-- A reader of payloads that carry nothing. -/
def emptyPayloads : PayloadReader := ⟨fun _ => none, fun _ => []⟩

end AgentMultiplexer.RuntimeEvents
