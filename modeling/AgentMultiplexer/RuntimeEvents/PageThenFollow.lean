import Mathlib.Algebra.BigOperators.Ring.Finset
import AgentMultiplexer.RuntimeEvents.Resume

set_option autoImplicit false

/-! # Following a session after a history page

A subscription that resumes after the head of a page delivers, of each source, the events the page
has not counted, as long as no source that comes before the last one with counted events has grown:
the ordinals are given source by source, so an event added to an earlier source pushes those of the
later ones past the resume point, and takes the place of one of them itself. -/

namespace AgentMultiplexer.RuntimeEvents

/-! ## The head of a history page

`historyPage` opens the sources of a session in order, each with its index brought up to date, and
numbers their events one source after the other: the head of the page is the number of events of all
of them. The sources are opened one by one, so that files may grow in between. -/

/-- `openSource`: a source opened for a page, the ordinal before its first event, and the number of
    its events. -/
structure OpenedSource where
  source : Nat
  base : Nat
  n : Nat

/-- A page that is being read: `next` is the source to open next. -/
structure HistoryState (σ : Type) where
  world : World σ
  next : Nat
  opened : List OpenedSource
  head : Nat

inductive HistoryEvent
  | world (e : WorldEvent)
  /-- The next round of the loop that opens the sources. -/
  | openNext

namespace HistoryState

variable {σ : Type} (count : Nat) (decoders : Nat → SourceDecoder σ) (payloads : PayloadReader)

def start (w : World σ) : HistoryState σ := ⟨w, 0, [], 0⟩

/-- A round of the loop; a file that is not there is passed over. -/
def openNext (h : HistoryState σ) : HistoryState σ :=
  match h.world.files h.next with
  | none => { h with next := h.next + 1 }
  | some f =>
    let w := h.world.openIndexed decoders payloads h.next f
    let n := ((w.indexes h.next).snapshot f).events
    ⟨w, h.next + 1, h.opened ++ [⟨h.next, h.head, n⟩], h.head + n⟩

def step (h : HistoryState σ) : HistoryEvent → Option (HistoryState σ)
  | .world e => (h.world.step decoders payloads e).map fun w => { h with world := w }
  | .openNext => if h.next < count then some (h.openNext decoders payloads) else none

/-- The number of events of a source that the page has counted. -/
def counted (h : HistoryState σ) (i : Nat) : Nat :=
  ((h.opened.find? fun o => o.source = i).map OpenedSource.n).getD 0

end HistoryState

open Function Lines List Transition TailState Nat Phase

variable {σ : Type} {count : Nat} {decoders : Nat → SourceDecoder σ} {payloads : PayloadReader}

/-! ## The page -/

/-- The number of events in the complete lines of a file. -/
def eventCount (decoder : SourceDecoder σ) (file : Option FileState) : Nat :=
  (decoder.output (lines newline (contentOf file))).length

theorem eventCount_mono {decoder : SourceDecoder σ} {file file' : Option FileState}
    (h : FileGrows file file') : eventCount decoder file ≤ eventCount decoder file' :=
  (decoder.output_isPrefix (lines_isPrefix h.content)).length_le

theorem eventCount_none {decoder : SourceDecoder σ} : eventCount decoder none = 0 := rfl

/-- The page has opened the sources before `next`; each has at least the events counted. -/
structure HistoryInv (decoders : Nat → SourceDecoder σ) (payloads : PayloadReader)
    (h : HistoryState σ) : Prop where
  world : WorldOk decoders payloads h.world
  head : h.head = ∑ j ∈ Finset.range h.next, h.counted j
  opened : ∀ o ∈ h.opened, o.source < h.next
  counted : ∀ i, h.counted i ≤ eventCount (decoders i) (h.world.files i)

variable {h : HistoryState σ}

theorem counted_eq_zero {i : Nat} (hopened : ∀ o ∈ h.opened, o.source ≠ i) : h.counted i = 0 := by
  rw [HistoryState.counted, find?_eq_none.mpr (by simpa using hopened)]
  rfl

theorem counted_append {h h' : HistoryState σ} {o : OpenedSource}
    (heq : h'.opened = h.opened ++ [o]) (hnew : ∀ p ∈ h.opened, p.source ≠ o.source) (i : Nat) :
    h'.counted i = if i = o.source then o.n else h.counted i := by
  rw [HistoryState.counted, heq, find?_append]
  by_cases hi : i = o.source
  · subst hi
    rw [if_pos rfl, find?_eq_none.mpr (by simpa using hnew)]
    simp
  · rw [if_neg hi, find?_singleton, if_neg (by simpa using Ne.symm hi), Option.or_none]
    rfl

theorem HistoryInv.openNext (hinv : HistoryInv decoders payloads h) :
    HistoryInv decoders payloads (h.openNext decoders payloads) := by
  have hnew : ∀ o ∈ h.opened, o.source ≠ h.next := fun o ho => Nat.ne_of_lt (hinv.opened o ho)
  generalize hh' : h.openNext decoders payloads = h'
  unfold HistoryState.openNext at hh'
  split at hh'
  · subst hh'
    refine { hinv with head := ?_, opened := fun o ho => lt_succ_of_lt (hinv.opened o ho) }
    rw [Finset.sum_range_succ]
    show h.head = _ + h.counted h.next
    rw [counted_eq_zero hnew]
    exact hinv.head
  · next f hf =>
    have hn := (hinv.world.tracks_openIndexed hf).indexes.events
    have happend := congrArg HistoryState.opened hh'.symm
    have hcounted := counted_append happend hnew
    have hsum : ∑ j ∈ Finset.range h.next, h'.counted j = h.head := by
      rw [hinv.head]
      refine Finset.sum_congr rfl fun j hj => ?_
      rw [hcounted, if_neg (Nat.ne_of_lt (Finset.mem_range.mp hj))]
    subst hh'
    refine ⟨hinv.world.openIndexed hf, ?_, ?_, fun i => ?_⟩
    · rw [Finset.sum_range_succ, hsum, hcounted, if_pos rfl]
    · exact forall_mem_append.mpr ⟨fun o ho => lt_succ_of_lt (hinv.opened o ho),
        forall_mem_singleton.mpr (lt_succ_self _)⟩
    rw [hcounted]
    split
    · next hi =>
      subst hi
      show _ ≤ eventCount (decoders h.next) (h.world.files h.next)
      rw [hf]
      exact hn.le
    · exact hinv.counted i

theorem historyInv_of_run {w : World σ} (hworld : WorldOk decoders payloads w)
    {es : List HistoryEvent}
    (hrun : exec (HistoryState.step count decoders payloads) (HistoryState.start w) es = some h) :
    HistoryInv decoders payloads h := by
  refine exec_invariant (HistoryInv decoders payloads) (fun h e h' hinv hstep => ?_)
    ⟨hworld, rfl, (fun _ ho => absurd ho not_mem_nil), fun _ => zero_le _⟩ hrun
  cases e with
  | world e =>
    obtain ⟨w', hw', rfl⟩ := Option.map_eq_some_iff.mp hstep
    obtain ⟨hworld', hgrow⟩ := world_step hinv.world hw'
    exact { hinv with
      world := hworld', counted := fun i => (hinv.counted i).trans (eventCount_mono (hgrow i)) }
  | openNext =>
    simp only [HistoryState.step] at hstep
    split_ifs at hstep
    cases hstep
    exact hinv.openNext

/-! ## The subscription -/

section Follow

variable {counts : Nat → Nat} {t t' : TailState σ} {lss : Nat → List (List UInt8)}

/-- The head of a page that has counted these events. -/
def headOf (counts : Nat → Nat) (n : Nat) : Int := ∑ j ∈ Finset.range n, (counts j : Int)

theorem headOf_succ (n : Nat) : headOf counts (n + 1) = headOf counts n + counts n :=
  Finset.sum_range_succ _ _

theorem headOf_eq_of_zero {k n : Nat} (hkn : k ≤ n) (h : ∀ j, k ≤ j → j < n → counts j = 0) :
    headOf counts n = headOf counts k := by
  induction n, hkn using le_induction with
  | base => rfl
  | succ n hn ih =>
    rw [headOf_succ, ih fun j hj hjn => h j hj (by omega), h n hn (lt_succ_self n)]
    simp

/-- `positionSources` has not opened the source yet. -/
def Phase.unopened : Phase → Nat → Bool
  | .opening k _, i => k ≤ i
  | .positioning k _ _, i => k < i
  | _, _ => false

/-- No source that is still to be opened and has grown past the events counted comes before one of
    which events were counted. -/
def GrownLast (count : Nat) (decoders : Nat → SourceDecoder σ) (counts : Nat → Nat)
    (t : TailState σ) : Prop :=
  ∀ i, t.phase.unopened i → counts i < eventCount (decoders i) (t.world.files i) →
    ∀ j, i < j → j < count → counts j = 0

/-- Every source is read past what was counted, and the ordinal is past the resume point. -/
structure Level (count : Nat) (decoders : Nat → SourceDecoder σ) (counts : Nat → Nat)
    (t : TailState σ) (lss : Nat → List (List UInt8)) : Prop where
  ordinal : t.afterSeq ≤ t.ordinal
  counts_le : ∀ j, j < count → counts j ≤ ((decoders j).output (lss j)).length

/-- The same but for the source to be read next, which lacks as many events as the ordinal. -/
structure Behind (count : Nat) (decoders : Nat → SourceDecoder σ) (counts : Nat → Nat)
    (t : TailState σ) (lss : Nat → List (List UInt8)) (i : Nat) : Prop where
  lt : i < count
  ordinal : t.ordinal - ((decoders i).output (lss i)).length = t.afterSeq - counts i
  le_counts : ((decoders i).output (lss i)).length ≤ counts i
  counts_le : ∀ j, j < count → j ≠ i → counts j ≤ ((decoders j).output (lss j)).length

variable {i : Nat}

/-- Once its source is read past what was counted, nothing is behind. -/
theorem Behind.level (h : Behind count decoders counts t lss i)
    (hle : counts i ≤ ((decoders i).output (lss i)).length) :
    Level count decoders counts t lss where
  ordinal := by
    have := h.ordinal
    omega
  counts_le j hj := by
    by_cases hji : j = i
    · exact hji ▸ hle
    · exact h.counts_le j hj hji

/-- How the cursors stand to the counts. -/
def Aligned (count : Nat) (decoders : Nat → SourceDecoder σ) (counts : Nat → Nat)
    (t : TailState σ) (lss : Nat → List (List UInt8)) : Prop :=
  match t.phase with
  | .opening i base =>
    base = headOf counts i ∧ ∀ j, j < i → ((decoders j).output (lss j)).length = counts j
  | .positioning i base snap =>
    base = headOf counts i ∧ (∀ j, j < i → ((decoders j).output (lss j)).length = counts j) ∧
      counts i ≤ snap.events ∧ (counts i < snap.events → ∀ j, i < j → j < count → counts j = 0)
  | .sweeping i => Level count decoders counts t lss ∨ Behind count decoders counts t lss i
  | .reading i => Level count decoders counts t lss ∨ Behind count decoders counts t lss i
  | .waiting => Level count decoders counts t lss
  | .crashed => True

/-- The events of a source among those emitted. -/
def TailState.emittedOf (t : TailState σ) (i : Nat) : List RuntimeEvent :=
  (t.emitted.filter fun e => e.1 = i).map fun e => e.2.2

/-- The invariant: of each source, the events consumed past those counted were emitted. -/
structure Followed (count : Nat) (decoders : Nat → SourceDecoder σ) (payloads : PayloadReader)
    (counts : Nat → Nat) (t : TailState σ) (lss : Nat → List (List UInt8)) : Prop where
  inv : TailInv count decoders payloads t lss
  afterSeq : t.afterSeq = headOf counts count
  counts_le : ∀ i, counts i ≤ eventCount (decoders i) (t.world.files i)
  emitted : ∀ i, t.emittedOf i = ((decoders i).output (lss i)).drop (counts i)
  origin : ∀ e ∈ t.emitted, e.1 < count
  aligned : Aligned count decoders counts t lss

theorem Followed.openSource (h : Followed count decoders payloads counts t lss)
    {base : Int} (hphase : t.phase = .opening i base) (hlast : GrownLast count decoders counts t)
    (hstep : t.advance count decoders payloads = some (t.openSource count decoders payloads i base)) :
    Followed count decoders payloads counts (t.openSource count decoders payloads i base) lss := by
  obtain ⟨hinv', hemitted⟩ := openSource_moves h.inv hphase
  obtain ⟨hfiles, hseq⟩ := advance_frame hstep
  obtain ⟨hbase, hdone⟩ : _ ∧ _ := by
    have := h.aligned
    rwa [Aligned, hphase] at this
  obtain ⟨-, -, -, hnil, -⟩ := h.inv.counted_at hphase
  refine ⟨hinv', hseq.trans h.afterSeq, fun j => hfiles ▸ h.counts_le j, fun j => ?_,
    hemitted ▸ h.origin, ?_⟩
  · rw [emittedOf, hemitted]
    exact h.emitted j
  · rcases openSource_phase h.inv hphase with
      ⟨rfl, hsweep, hordinal⟩ | ⟨hi, hf, hopen⟩ | ⟨f, snap, hi, hf, hpos, -, hsnap⟩
    · rw [Aligned, hsweep]
      refine .inl ⟨?_, fun j hj => (hdone j hj).ge⟩
      rw [hseq, hordinal, h.afterSeq, hbase]
    · have hzero : counts i = 0 := by
        have := h.counts_le i
        rwa [hf, eventCount_none, le_zero] at this
      rw [Aligned, hopen]
      refine ⟨by rw [headOf_succ, hzero, hbase]; simp, fun j hj => ?_⟩
      rcases Nat.lt_succ_iff_lt_or_eq.mp hj with hj | rfl
      · exact hdone j hj
      · rw [hnil j (le_refl j), hzero]
        rfl
    · have hcount : eventCount (decoders i) (t.world.files i) = snap.events := by
        rw [hf, hsnap]
        rfl
      rw [Aligned, hpos]
      refine ⟨hbase, hdone, hcount ▸ h.counts_le i, fun hlt => hlast i ?_ (hcount ▸ hlt)⟩
      simp [hphase, unopened]

/-- **The rest of the round**: nothing that was not counted is passed over. -/
theorem Followed.placeSource (h : Followed count decoders payloads counts t lss) (hfit : Fits t)
    {base : Int} {snap : IndexSnapshot} (hphase : t.phase = .positioning i base snap)
    (hstep : t.advance count decoders payloads = some (t.placeSource decoders i base snap)) :
    ∃ lss', Followed count decoders payloads counts (t.placeSource decoders i base snap) lss' := by
  obtain ⟨ls, hinv', hle, hbefore, hemitted, hnext⟩ := placeSource_spec h.inv hfit hphase
  obtain ⟨hfiles, hseq⟩ := advance_frame hstep
  obtain ⟨hbase, hdone, hsnap, hlast⟩ : _ ∧ _ := by
    have := h.aligned
    rwa [Aligned, hphase] at this
  have hi : i < count := (h.inv.counted_at hphase).1
  -- what comes after a source with more events than counted counts nothing
  have hhead : counts i < snap.events → t.afterSeq = base + counts i := fun hlt => by
    rw [h.afterSeq, hbase, ← headOf_succ]
    exact headOf_eq_of_zero hi fun j hj hjn => hlast hlt j (by omega) hjn
  have hnonneg : base + counts i ≤ t.afterSeq := by
    rw [h.afterSeq, hbase, ← headOf_succ]
    exact Finset.sum_le_sum_of_subset_of_nonneg
      (Finset.range_subset_range.mpr hi) fun _ _ _ => Int.natCast_nonneg _
  have hcounts : ((decoders i).output ls).length ≤ counts i := by
    rcases hnext with ⟨hreach, hlen, -⟩ | ⟨hlt, -⟩
    · by_contra hgt
      have := hhead (by omega)
      omega
    · have := hhead (by omega)
      omega
  refine ⟨Function.update lss i ls, hinv', hseq.trans h.afterSeq, fun j => hfiles ▸ h.counts_le j,
    fun j => ?_, fun e he => absurd (hemitted ▸ he) not_mem_nil, ?_⟩
  · have hempty : t.emittedOf j = [] := by
      rw [emittedOf, hbefore]
      rfl
    rw [emittedOf, hemitted]
    by_cases hj : j = i
    · subst hj
      rw [update_self, drop_eq_nil_of_le hcounts]
      rfl
    · rw [update_of_ne hj, ← h.emitted, hempty]
      rfl
  · have hbelow : ∀ j, j < i → ((decoders j).output (Function.update lss i ls j)).length =
        counts j := fun j hj => by
      rw [update_of_ne (by omega)]
      exact hdone j hj
    rcases hnext with ⟨hreach, hlen, hopen⟩ | ⟨hlt, hsweep, hordinal⟩
    · have heq : counts i = snap.events := by omega
      rw [Aligned, hopen]
      refine ⟨by rw [headOf_succ, hbase, heq], fun j hj => ?_⟩
      rcases Nat.lt_succ_iff_lt_or_eq.mp hj with hj | rfl
      · exact hbelow j hj
      · rw [update_self, hlen, heq]
    · have hmore : counts i < snap.events := by omega
      rw [Aligned, hsweep]
      refine .inr ⟨hi, ?_, ?_, fun j hj hji => ?_⟩
      · rw [hordinal, hseq, hhead hmore, update_self]
        omega
      · rwa [update_self]
      · rcases lt_or_gt_of_ne hji with hlt' | hgt
        · exact (hbelow j hlt').ge
        · rw [hlast hmore j hgt hj]
          exact zero_le _

theorem Followed.statSource (h : Followed count decoders payloads counts t lss)
    (hphase : t.phase = .sweeping i)
    (hstep : t.advance count decoders payloads = some (t.statSource count i)) :
    Followed count decoders payloads counts (t.statSource count i) lss := by
  obtain ⟨hinv', hemitted⟩ := statSource_moves h.inv hphase
  obtain ⟨hfiles, hseq⟩ := advance_frame hstep
  obtain ⟨hordinal, hnext⟩ := statSource_phase h.inv i
  -- the alignment does not depend on what the checks change
  have hlevel : Level count decoders counts t lss →
      Level count decoders counts (t.statSource count i) lss :=
    fun hl => ⟨by rw [hseq, hordinal]; exact hl.ordinal, hl.counts_le⟩
  have haligned := h.aligned
  rw [Aligned, hphase] at haligned
  refine ⟨hinv', hseq.trans h.afterSeq, fun j => hfiles ▸ h.counts_le j, fun j => ?_,
    hemitted ▸ h.origin, ?_⟩
  · rw [emittedOf, hemitted]
    exact h.emitted j
  · rcases hnext with ⟨hcount, hwait⟩ | ⟨hi, hsweep, hcaught⟩ | ⟨f, hi, hread, -⟩
    · rw [Aligned, hwait]
      rcases haligned with hl | hb
      · exact hlevel hl
      · exact absurd hb.lt (not_lt.mpr hcount)
    · rw [Aligned, hsweep]
      rcases haligned with hl | hb
      · exact .inl (hlevel hl)
      refine .inl (hlevel (hb.level ?_))
      rw [hcaught]
      exact h.counts_le i
    · rw [Aligned, hread]
      rcases haligned with hl | hb
      · exact .inl (hlevel hl)
      · exact .inr { hb with ordinal := by rw [hseq, hordinal]; exact hb.ordinal }

/-- What a read from this ordinal on emits, source by source. -/
theorem filter_emitted_read (a n : Int) (evs : List RuntimeEvent) (i j : Nat) :
    ((((number (n + 1) evs).filter fun e => a < e.1).map fun e => (i, e)).filter
        fun e => e.1 = j).map (fun e => e.2.2) = if j = i then evs.drop (a - n).toNat else [] := by
  rw [filter_map]
  split
  · next hji =>
    subst hji
    rw [filter_eq_self.mpr (by simp), List.map_map, filter_number,
      show (a + 1 - (n + 1)).toNat = (a - n).toNat by omega]
    exact map_snd_number _ _
  · next hji =>
    rw [filter_eq_nil_iff.mpr (by simp [Ne.symm hji])]
    rfl

/-- **`readFrom` in a sweep** emits the events of its source past those counted. -/
theorem Followed.readSource (h : Followed count decoders payloads counts t lss)
    (hphase : t.phase = .reading i)
    (hstep : t.advance count decoders payloads = some (t.readSource decoders i)) :
    ∃ lss', Followed count decoders payloads counts (t.readSource decoders i) lss' := by
  obtain ⟨hfiles, hseq⟩ := advance_frame hstep
  have hcounted := h.inv.counted_at hphase
  have haligned := h.aligned
  rw [Aligned, hphase] at haligned
  cases hf : t.world.files i with
  | none =>
    simp only [TailState.readSource, hf] at hfiles hseq ⊢
    refine ⟨lss, { h with inv := { h.inv with counted := ⟨hcounted.1, hcounted.2⟩ }, aligned := ?_ }⟩
    have hzero := h.counts_le i
    rw [hf, eventCount_none] at hzero
    refine .inl ?_
    rcases haligned with hl | hb
    · exact { hl with }
    · exact { hb.level (by omega) with }
  | some f =>
    obtain ⟨hinv', evs, hevs, hordinal, hemitted⟩ := readSource_inv h.inv hphase hf
    have hcounts : counts i ≤ ((decoders i).output (lines newline f.content)).length := by
      have := h.counts_le i
      rwa [hf] at this
    have hlen : ((decoders i).output (lines newline f.content)).length =
        ((decoders i).output (lss i)).length + evs.length := by
      rw [hevs, length_append]
    -- as many events are passed over as the page has counted of them
    have hskip : (t.afterSeq - t.ordinal).toNat =
        counts i - ((decoders i).output (lss i)).length := by
      rcases haligned with hl | hb
      · have := hl.ordinal
        have := hl.counts_le i hcounted.1
        omega
      · have := hb.ordinal
        omega
    have hphase' : (t.readSource decoders i).phase = .sweeping (i + 1) := by
      simp [TailState.readSource, hf]
    refine ⟨_, hinv', hseq.trans h.afterSeq, fun j => hfiles ▸ h.counts_le j, fun j => ?_, ?_, ?_⟩
    · rw [emittedOf, hemitted, filter_append, map_append, filter_emitted_read, hskip]
      have hold := h.emitted j
      rw [emittedOf] at hold
      rw [hold]
      by_cases hj : j = i
      · subst hj
        rw [if_pos rfl, update_self, hevs, drop_append]
      · rw [if_neg hj, update_of_ne hj, append_nil]
    · intro e he
      rw [hemitted] at he
      rcases mem_append.mp he with he | he
      · exact h.origin e he
      · obtain ⟨_, -, rfl⟩ := mem_map.mp he
        exact hcounted.1
    · rw [Aligned, hphase']
      refine .inl ⟨?_, fun j hj => ?_⟩
      · rw [hseq, hordinal]
        rcases haligned with hl | hb
        · have := hl.ordinal
          omega
        · have := hb.ordinal
          omega
      · by_cases hji : j = i
        · subst hji
          rwa [update_self]
        · rw [update_of_ne hji]
          rcases haligned with hl | hb
          · exact hl.counts_le j hj
          · exact hb.counts_le j hj hji

/-- The condition on a step: positioning goes right, and no source grew but the last ones. -/
def FollowFits (count : Nat) (decoders : Nat → SourceDecoder σ) (counts : Nat → Nat)
    (t : TailState σ) (e : TailEvent) : Prop :=
  StepFits t e ∧ (e = .tail → GrownLast count decoders counts t)

theorem Followed.step (h : Followed count decoders payloads counts t lss) {e : TailEvent}
    (hfit : FollowFits count decoders counts t e)
    (hstep : t.step count decoders payloads e = some t') :
    ∃ lss', Followed count decoders payloads counts t' lss' := by
  rcases step_cases hstep with ⟨rfl, hadvance⟩ | ⟨we, w, rfl, hworld, rfl⟩
  · have hfits : Fits t := hfit.1 rfl
    have hlast : GrownLast count decoders counts t := hfit.2 rfl
    have hsection := hadvance
    unfold advance at hsection
    cases hphase : t.phase with rw [hphase] at hsection
    | opening i base =>
      cases hsection
      exact ⟨lss, h.openSource hphase hlast hadvance⟩
    | positioning i base snap =>
      cases hsection
      exact h.placeSource hfits hphase hadvance
    | sweeping i =>
      cases hsection
      exact ⟨lss, h.statSource hphase hadvance⟩
    | reading i =>
      cases hsection
      exact h.readSource hphase hadvance
    | waiting =>
      cases hsection
      have haligned := h.aligned
      rw [Aligned, hphase] at haligned
      obtain ⟨hfirst, -, hordinal⟩ := h.inv.counted_at hphase
      exact ⟨lss, { h with
        inv := { h.inv with counted := ⟨hfirst.le.trans (zero_le _), hordinal⟩ }
        aligned := .inl { haligned with } }⟩
    | crashed =>
      cases hsection
  · obtain ⟨-, hgrow⟩ := world_step h.inv.world hworld
    refine ⟨lss, { h with
      inv := worldStep_inv h.inv hworld
      counts_le := fun i => (h.counts_le i).trans (eventCount_mono (hgrow i))
      aligned := ?_ }⟩
    have haligned := h.aligned
    unfold Aligned at haligned ⊢
    cases hphase : t.phase with
    | opening | positioning => rwa [hphase] at haligned
    | sweeping | reading =>
      rw [hphase] at haligned
      exact haligned.imp (fun hl => { hl with }) fun hb => { hb with }
    | waiting =>
      rw [hphase] at haligned
      exact { haligned with }
    | crashed => trivial

/-- The tail's own steps open sources and do not go back. -/
theorem unopened_of_advance (hinv : TailInv count decoders payloads t lss) (hfit : Fits t)
    (hstep : t.advance count decoders payloads = some t') (h : t'.phase.unopened i) :
    t.phase.unopened i := by
  unfold advance at hstep
  cases hphase : t.phase with rw [hphase] at hstep
  | opening k base =>
    cases hstep
    rcases openSource_phase hinv hphase with
      ⟨-, hnext, -⟩ | ⟨-, -, hnext⟩ | ⟨f, snap, -, -, hnext, -⟩
    all_goals
      simp only [hnext, unopened, decide_eq_true_eq, reduceCtorEq] at h ⊢
      try omega
  | positioning k base snap =>
    cases hstep
    obtain ⟨ls, -, -, -, -, ⟨-, -, hnext⟩ | ⟨-, hnext, -⟩⟩ := placeSource_spec hinv hfit hphase
    · simp only [hnext, unopened, decide_eq_true_eq] at h ⊢
      omega
    · simp [hnext, unopened] at h
  | sweeping k =>
    cases hstep
    obtain ⟨-, ⟨-, hnext⟩ | ⟨-, hnext, -⟩ | ⟨f, -, hnext, -⟩⟩ := statSource_phase hinv k
    all_goals simp [hnext, unopened] at h
  | reading k =>
    cases hstep
    have hnext : (t.readSource decoders k).phase = .sweeping (k + 1) := by
      unfold readSource
      split <;> rfl
    simp [hnext, unopened] at h
  | waiting =>
    cases hstep
    simp [unopened] at h
  | crashed =>
    cases hstep

/-- So they keep the condition on the sources not opened yet. -/
theorem followFits_along {n : Nat} (hinv : TailInv count decoders payloads t lss)
    (hlast : GrownLast count decoders counts t)
    (hfits : Along (step count decoders payloads) StepFits t (List.replicate n .tail)) :
    Along (step count decoders payloads) (FollowFits count decoders counts) t
      (.replicate n .tail) := by
  induction n generalizing t lss with
  | zero => trivial
  | succ n ih =>
    refine ⟨⟨hfits.1, fun _ => hlast⟩, fun m hm => ?_⟩
    obtain ⟨lss', hinv', -⟩ := advance_moves hinv (hfits.1 rfl) hm
    refine ih hinv' (fun i hi hgrown => ?_) (hfits.2 m hm)
    rw [(advance_frame hm).1] at hgrown
    exact hlast i (unopened_of_advance hinv (hfits.1 rfl) hm hi) hgrown

theorem followed_of_run {w : World σ} {es : List TailEvent} (hworld : WorldOk decoders payloads w)
    (hcounts : ∀ i, counts i ≤ eventCount (decoders i) (w.files i))
    (hrun : exec (step count decoders payloads)
      (.start decoders w (headOf counts count)) es = some t)
    (hfit : Along (step count decoders payloads) (FollowFits count decoders counts)
      (.start decoders w (headOf counts count)) es) :
    ∃ lss, Followed count decoders payloads counts t lss := by
  refine exec_invariant_along (FollowFits count decoders counts)
    (fun t => ∃ lss, Followed count decoders payloads counts t lss) ?_ ?_ hfit hrun
  · rintro s e s' ⟨lss, hs⟩ hP hstep
    exact hs.step hP hstep
  · refine ⟨fun _ => [], tailInv_start hworld _, rfl, hcounts, fun i => ?_,
      (fun e he => absurd he not_mem_nil), rfl, fun j hj => absurd hj (not_lt_zero j)⟩
    exact (drop_nil).symm

end Follow

/-- The frames are an interleaving of these events of the sources. -/
def Interleaves (count : Nat) (out : List Batch) (evs : Nat → List RuntimeEvent) : Prop :=
  ∃ origin : List (Nat × RuntimeEvent), origin.map Prod.snd = out.flatMap Batch.events ∧
    (∀ e ∈ origin, e.1 < count) ∧
    ∀ i, i < count → (origin.filter fun e => e.1 = i).map Prod.snd = evs i

/-- The events of a source's complete lines that the page has not counted. -/
def uncounted (decoders : Nat → SourceDecoder σ) (counts : Nat → Nat) (w : World σ) (i : Nat) :
    List RuntimeEvent :=
  ((decoders i).output (lines newline (contentOf (w.files i)))).drop (counts i)

theorem interleaves_sent {t : TailState σ} {lss : Nat → List (List UInt8)}
    (hinv : TailInv count decoders payloads t lss) (horigin : ∀ e ∈ t.emitted, e.1 < count) :
    Interleaves count t.out fun i => (t.sent.filter fun e => e.1 = i).map fun e => e.2.2 := by
  refine ⟨t.sent.map fun e => (e.1, e.2.2), ?_, fun e he => ?_, fun i _ => ?_⟩
  · have hnumbered : ∀ b : Batch, b.numbered.map Prod.snd = b.events :=
      fun b => map_snd_number _ _
    have hsent := congrArg (List.map Prod.snd) hinv.sent
    rw [List.map_map, map_flatMap] at hsent
    simp only [hnumbered] at hsent
    rw [List.map_map]
    exact hsent
  · obtain ⟨e', he', rfl⟩ := mem_map.mp he
    exact horigin e' (mem_append_left _ he')
  · rw [filter_map, List.map_map]
    rfl

/-- **A page, then a subscription from its head**, in every run whose steps position where that goes
    right and in which, of the sources still to be opened, none that has grown comes before one that
    events were counted of: the events delivered are, of each source, a beginning of those the page
    has not counted; and from every state reached the tail's own steps lead to one where it has
    delivered exactly those of all sources. -/
theorem page_then_follow {before between : List WorldEvent} {page : List HistoryEvent}
    {es : List TailEvent} {w₀ w : World σ} {h : HistoryState σ} {t : TailState σ}
    (hbefore : exec (World.step decoders payloads) (World.blank decoders) before = some w₀)
    (hpage : exec (HistoryState.step count decoders payloads) (HistoryState.start w₀) page = some h)
    (hdone : h.next = count)
    (hbetween : exec (World.step decoders payloads) h.world between = some w)
    (hrun : exec (TailState.step count decoders payloads)
      (TailState.start decoders w h.head) es = some t)
    (hfit : Along (TailState.step count decoders payloads) (FollowFits count decoders h.counted)
      (TailState.start decoders w h.head) es) :
    (∃ evs, Interleaves count t.out evs ∧
        ∀ i, i < count → evs i <+: uncounted decoders h.counted t.world i) ∧
      (Fits t → GrownLast count decoders h.counted t → ∃ n t',
        exec (TailState.step count decoders payloads) t (List.replicate n .tail) = some t' ∧
        t'.world.files = t.world.files ∧
        Interleaves count t'.out (uncounted decoders h.counted t.world)) := by
  have hinv := historyInv_of_run (worldOk_run hbefore) hpage
  have hhead : (h.head : Int) = headOf h.counted count := by
    rw [hinv.head, hdone, headOf, cast_sum]
  obtain ⟨hworld, hcounts⟩ : WorldOk decoders payloads w ∧
      ∀ i, h.counted i ≤ eventCount (decoders i) (w.files i) := by
    refine exec_invariant (fun w => WorldOk decoders payloads w ∧
      ∀ i, h.counted i ≤ eventCount (decoders i) (w.files i)) ?_ ⟨hinv.world, hinv.counted⟩ hbetween
    rintro w e w' ⟨hw, hle⟩ hstep
    obtain ⟨hw', hgrow⟩ := world_step hw hstep
    exact ⟨hw', fun i => (hle i).trans (eventCount_mono (hgrow i))⟩
  rw [hhead] at hrun hfit
  obtain ⟨lss, hfollowed⟩ := followed_of_run hworld hcounts hrun hfit
  constructor
  · refine ⟨_, interleaves_sent hfollowed.inv hfollowed.origin, fun i hi => ?_⟩
    calc (t.sent.filter fun e => e.1 = i).map (fun e => e.2.2)
      _ <+: t.emittedOf i := by
        rw [emittedOf, emitted, filter_append, map_append]
        exact prefix_append _ _
      _ = ((decoders i).output (lss i)).drop (h.counted i) := hfollowed.emitted i
      _ <+: uncounted decoders h.counted t.world i :=
        ((decoders i).output_isPrefix (hfollowed.inv.cursors i).consumed).drop _
  · intro hfits hlast
    have hseq : 0 ≤ t.afterSeq := by
      rw [hfollowed.afterSeq, ← hhead]
      exact Int.natCast_nonneg _
    obtain ⟨t', lss', ⟨⟨n, hreach⟩, hinv', hfiles, -⟩, hphase, hcaught⟩ :=
      catches_up hfollowed.inv hseq hfits
    refine ⟨n, t', hreach.run, hfiles, ?_⟩
    -- the longer run, in which the tail is waiting and has collected nothing
    obtain ⟨lss₂, hfollowed'⟩ := followed_of_run hworld hcounts
      (exec_append_eq_some.mpr ⟨t, hrun, hreach.run⟩)
      (hfit.append hrun (followFits_along hfollowed.inv hlast hreach.fits))
    have hcollected : t'.collected = [] := (hinv'.counted_at hphase).2.1
    obtain ⟨origin, hout, hlt, horigin⟩ := interleaves_sent hfollowed'.inv hfollowed'.origin
    refine ⟨origin, hout, hlt, fun i hi => ?_⟩
    have hlines : lss₂ i = lines newline (contentOf (t.world.files i)) := by
      rw [← hfiles, ← hcaught i hi]
      exact (hfollowed'.inv.cursors i).unique (hinv'.cursors i)
    have hemitted := hfollowed'.emitted i
    rw [emittedOf, emitted, hcollected, append_nil, hlines] at hemitted
    exact (horigin i hi).trans hemitted

/-! ## A last source that grows, and a first one -/

/-- The test of `FollowFits`. -/
def followFits {σ : Type} (count : Nat) (decoders : Nat → SourceDecoder σ) (counts : Nat → Nat)
    (t : TailState σ) (e : TailEvent) : Bool :=
  stepFits t e && (List.range count).all fun i =>
    !t.phase.unopened i || decide (eventCount (decoders i) (t.world.files i) ≤ counts i) ||
      (List.range count).all fun j => decide (j ≤ i) || decide (counts j = 0)

theorem followFits_of_test {counts : Nat → Nat} (t : TailState σ) (e : TailEvent)
    (h : followFits count decoders counts t e = true) : FollowFits count decoders counts t e := by
  rw [followFits, Bool.and_eq_true] at h
  refine ⟨stepFits_of_test t e h.1, fun _ i hi hgrown j hij hj => ?_⟩
  have hat := all_eq_true.mp h.2 i (mem_range.mpr (by omega))
  simp only [hi, Bool.not_true, Bool.false_or, Bool.or_eq_true, decide_eq_true_eq] at hat
  rcases hat with hle | hzero
  · omega
  have := all_eq_true.mp hzero j (mem_range.mpr hj)
  simp only [Bool.or_eq_true, decide_eq_true_eq] at this
  omega

/-- Two record files of one line each. -/
def twoFiles : List WorldEvent :=
  [.create 0 7 0, .append 0 [97, 10] 1, .create 1 8 0, .append 1 [98, 10] 1]

/-- The page of two sources, and a subscription from its head after these appends. -/
def pageThenFollow (between : List WorldEvent) (es : List TailEvent) :
    Option (HistoryState Nat × World Nat × TailState Nat) :=
  (exec (World.step (fun _ => countingDecoder) emptyPayloads) (World.blank fun _ => countingDecoder)
    twoFiles).bind fun w₀ =>
  (exec (HistoryState.step 2 (fun _ => countingDecoder) emptyPayloads) (HistoryState.start w₀)
    [.openNext, .openNext]).bind fun h =>
  (exec (World.step (fun _ => countingDecoder) emptyPayloads) h.world between).bind fun w =>
  (exec (TailState.step 2 (fun _ => countingDecoder) emptyPayloads)
    (TailState.start (fun _ => countingDecoder) w h.head) es).map fun t => (h, w, t)

/-- The second source gets a second line, before and while the subscription positions. -/
theorem page_then_follow_last_grows :
    ∃ h w t n t', pageThenFollow [.append 1 [99, 10] 2]
        [.tail, .tail, .world (.append 1 [100, 10] 3), .tail, .tail] = some (h, w, t) ∧
      exec (TailState.step 2 (fun _ => countingDecoder) emptyPayloads) t
        (List.replicate n .tail) = some t' ∧
      Interleaves 2 t'.out (uncounted (fun _ => countingDecoder) h.counted t.world) ∧
      uncounted (fun _ => countingDecoder) h.counted t.world 0 = [] ∧
      uncounted (fun _ => countingDecoder) h.counted t.world 1 =
        [sampleEvent 1 99, sampleEvent 2 100] := by
  have ⟨⟨h, w, t⟩, heq, hnext, hcheck, hphase, hfacts⟩ : ∃ r, pageThenFollow [.append 1 [99, 10] 2]
      [.tail, .tail, .world (.append 1 [100, 10] 3), .tail, .tail] = some r ∧ r.1.next = 2 ∧
      check (step 2 (fun _ => countingDecoder) emptyPayloads)
        (followFits 2 (fun _ => countingDecoder) r.1.counted)
        (.start (fun _ => countingDecoder) r.2.1 r.1.head)
        [.tail, .tail, .world (.append 1 [100, 10] 3), .tail, .tail] = true ∧
      r.2.2.phase = .sweeping 1 ∧
      uncounted (fun _ => countingDecoder) r.1.counted r.2.2.world 0 = [] ∧
      uncounted (fun _ => countingDecoder) r.1.counted r.2.2.world 1 =
        [sampleEvent 1 99, sampleEvent 2 100] := by
    decide +kernel
  obtain ⟨w₀, hw₀, hpages⟩ := Option.bind_eq_some_iff.mp heq
  obtain ⟨h', hh', hworlds⟩ := Option.bind_eq_some_iff.mp hpages
  obtain ⟨w', hw', htails⟩ := Option.bind_eq_some_iff.mp hworlds
  obtain ⟨t', ht', hmk⟩ := Option.map_eq_some_iff.mp htails
  cases hmk
  change t.phase = .sweeping 1 at hphase
  obtain ⟨n, t'', hexec, -, hout⟩ :=
    (page_then_follow hw₀ hh' hnext hw' ht' (.of_check followFits_of_test hcheck)).2
      (fits_of_phase (by simp [hphase])) (fun i hi => by simp [hphase, unopened] at hi)
  exact ⟨h, w, t, n, t'', heq, hexec, hout, hfacts⟩

/-- **The first source grows after the page.** Its new record takes the last ordinal of the head, and
    is not delivered; the record of the second source, counted in the page, is delivered again. -/
theorem earlier_source_grown_swaps :
    ∃ h w t, pageThenFollow [.append 0 [99, 10] 2] (List.replicate 7 .tail) = some (h, w, t) ∧
      h.next = 2 ∧ t.phase = .waiting ∧
      t.out.flatMap Batch.events = [sampleEvent 0 98] ∧
      uncounted (fun _ => countingDecoder) h.counted t.world 0 = [sampleEvent 1 99] ∧
      uncounted (fun _ => countingDecoder) h.counted t.world 1 = [] := by
  have ⟨⟨h, w, t⟩, hrun⟩ : ∃ r, pageThenFollow [.append 0 [99, 10] 2] (.replicate 7 .tail) =
        some r ∧
      r.1.next = 2 ∧ r.2.2.phase = .waiting ∧
      r.2.2.out.flatMap Batch.events = [sampleEvent 0 98] ∧
      uncounted (fun _ => countingDecoder) r.1.counted r.2.2.world 0 = [sampleEvent 1 99] ∧
      uncounted (fun _ => countingDecoder) r.1.counted r.2.2.world 1 = [] := by
    decide +kernel
  exact ⟨h, w, t, hrun⟩

end AgentMultiplexer.RuntimeEvents
