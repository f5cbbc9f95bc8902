import AgentMultiplexer.RuntimeEvents.TailerSteps

set_option autoImplicit false

/-! # Resuming after an ordinal

With a single source, the events a subscription emits are those of a full replay whose ordinal is
past the resume point, under the ordinals of the full replay, as long as positioning goes right: the
number of events the snapshot counted has to be one the index can still position by. Another reader
that advances the index between the two sections can take that away. -/

namespace AgentMultiplexer.RuntimeEvents

/-! ## A tail left alone catches up

While nothing else happens, the steps of a tail finish the positioning and the sweep it is in, and
a sweep from the first source reads every source to its last complete line. -/

section

open Transition Lines TailState

variable {σ : Type} {count : Nat} {decoders : Nat → SourceDecoder σ} {payloads : PayloadReader}
  {t t' t'' : TailState σ} {lss lss' : Nat → List (List UInt8)}

/-- The condition on a step: the tail positions only where that goes right. -/
def StepFits (t : TailState σ) (e : TailEvent) : Prop := e = .tail → Fits t

/-- The tail gets from one state to the other by its own steps. -/
structure Reaches (count : Nat) (decoders : Nat → SourceDecoder σ) (payloads : PayloadReader)
    (t t' : TailState σ) (steps : Nat) : Prop where
  run : exec (TailState.step count decoders payloads) t (List.replicate steps .tail) = some t'
  fits : Along (TailState.step count decoders payloads) StepFits t (List.replicate steps .tail)

/-- By its own steps, which change neither the files nor the resume point, the tail gets to a state
    whose cursors stand after `lss`. -/
structure Leads (count : Nat) (decoders : Nat → SourceDecoder σ) (payloads : PayloadReader)
    (t t' : TailState σ) (lss : Nat → List (List UInt8)) : Prop where
  reaches : ∃ n, Reaches count decoders payloads t t' n
  inv : TailInv count decoders payloads t' lss
  files : t'.world.files = t.world.files
  afterSeq : t'.afterSeq = t.afterSeq

theorem Leads.refl (hinv : TailInv count decoders payloads t lss) :
    Leads count decoders payloads t t lss :=
  ⟨⟨0, rfl, trivial⟩, hinv, rfl, rfl⟩

theorem Leads.step (hfit : Fits t) (hstep : t.advance count decoders payloads = some t')
    (hinv : TailInv count decoders payloads t' lss) : Leads count decoders payloads t t' lss where
  reaches := ⟨1, exec_cons_eq_some.mpr ⟨t', hstep, rfl⟩, .cons (fun _ => hfit) hstep trivial⟩
  inv := hinv
  files := (advance_frame hstep).1
  afterSeq := (advance_frame hstep).2

theorem Leads.trans (h : Leads count decoders payloads t t' lss)
    (h' : Leads count decoders payloads t' t'' lss') : Leads count decoders payloads t t'' lss' where
  reaches := by
    obtain ⟨m, hm⟩ := h.reaches
    obtain ⟨n, hn⟩ := h'.reaches
    refine ⟨m + n, ?_, ?_⟩
    · rw [← List.replicate_append_replicate]
      exact exec_append_eq_some.mpr ⟨t', hm.run, hn.run⟩
    · rw [← List.replicate_append_replicate]
      exact hm.fits.append hm.run hn.fits
  inv := h'.inv
  files := h'.files.trans h.files
  afterSeq := h'.afterSeq.trans h.afterSeq

theorem fits_of_phase (h : ∀ i base snap, t.phase ≠ .positioning i base snap) : Fits t :=
  fun i base snap hphase => absurd hphase (h i base snap)

theorem CursorAt.unique {decoder : SourceDecoder σ} {file : Option FileState} {s : TailSource σ}
    {ls ls' : List (List UInt8)} (h : CursorAt decoder file s ls)
    (h' : CursorAt decoder file s ls') : ls = ls' :=
  consumed_unique h.consumed h'.consumed (h.offset.symm.trans h'.offset)

/-- The cursor of the source stands after its last complete line. -/
def CaughtUp (t : TailState σ) (lss : Nat → List (List UInt8)) (j : Nat) : Prop :=
  lss j = lines newline (contentOf (t.world.files j))

variable (count decoders payloads t) in
/-- The tail's own steps lead to a state where it waits and has caught up with every source. -/
def CatchesUp : Prop :=
  ∃ t' lss', Leads count decoders payloads t t' lss' ∧ t'.phase = .waiting ∧
    ∀ j, j < count → CaughtUp t' lss' j

section

variable (hinv : TailInv count decoders payloads t lss)

include hinv

variable {i : Nat}

/-- **A look at one source** of a sweep leaves its cursor after the last complete line. -/
theorem source_leads (hphase : t.phase = .sweeping i) (hi : i < count) :
    ∃ t' lss', Leads count decoders payloads t t' lss' ∧ t'.phase = .sweeping (i + 1) ∧
      (∀ j, j ≠ i → lss' j = lss j) ∧ CaughtUp t' lss' i := by
  have hstep : t.advance count decoders payloads = some (t.statSource count i) := by
    simp [advance, hphase]
  have hstat := Leads.step (fits_of_phase (by simp [hphase])) hstep (statSource_moves hinv hphase).1
  obtain ⟨-, ⟨hcount, -⟩ | ⟨-, hphase', hcaught⟩ | ⟨f, -, hreading, hf⟩⟩ := statSource_phase hinv i
  · omega
  · refine ⟨_, lss, hstat, hphase', fun _ _ => rfl, ?_⟩
    rwa [CaughtUp, hstat.files]
  have hstep' : (t.statSource count i).advance count decoders payloads =
      some ((t.statSource count i).readSource decoders i) := by
    simp [advance, hreading]
  have hf' : (t.statSource count i).world.files i = some f := by rw [hstat.files, hf]
  have hread := Leads.step (fits_of_phase (by simp [hreading])) hstep'
    (readSource_inv hstat.inv hreading hf').1
  refine ⟨_, _, hstat.trans hread, ?_, fun j hj => Function.update_of_ne hj _ _, ?_⟩
  · simp [readSource, hf']
  · rw [CaughtUp, Function.update_self, hread.files, hf']
    rfl

/-- **The rest of a sweep** catches up with the sources left. -/
theorem sweep_leads (hphase : t.phase = .sweeping i) :
    ∃ t' lss', Leads count decoders payloads t t' lss' ∧ t'.phase = .waiting ∧
      (∀ j, j < i → lss' j = lss j) ∧ ∀ j, i ≤ j → j < count → CaughtUp t' lss' j := by
  obtain ⟨d, hd⟩ := Nat.exists_eq_add_of_le (hinv.counted_at hphase).1
  induction d generalizing t lss i with
  | zero =>
    have hstep : t.advance count decoders payloads = some (t.statSource count i) := by
      simp [advance, hphase]
    obtain ⟨hinv', -⟩ := statSource_moves hinv hphase
    have hlast : t.statSource count i = t.finishSweep := by
      rw [statSource, if_pos (by omega)]
    rw [hlast] at hstep hinv'
    exact ⟨_, lss, .step (fits_of_phase (by simp [hphase])) hstep hinv', rfl, fun _ _ => rfl,
      fun j hij hj => by omega⟩
  | succ d ih =>
    obtain ⟨t₁, lss₁, hlook, hphase₁, hother, hcaught⟩ := source_leads hinv hphase (by omega)
    obtain ⟨t₂, lss₂, hrest, hphase₂, hbelow, hcaught'⟩ := ih hlook.inv hphase₁ (by omega)
    refine ⟨t₂, lss₂, hlook.trans hrest, hphase₂,
      fun j hj => (hbelow j (by omega)).trans (hother j (by omega)), fun j hij hj => ?_⟩
    rcases Nat.lt_or_eq_of_le hij with hlt | rfl
    · exact hcaught' j hlt hj
    · rw [CaughtUp, hbelow i (by omega), hrest.files]
      exact hcaught

/-- **A tick** catches up with every source. -/
theorem tick_leads (hphase : t.phase = .waiting) : CatchesUp count decoders payloads t := by
  obtain ⟨hfirst, -, hordinal⟩ := hinv.counted_at hphase
  have hstep : t.advance count decoders payloads =
      some { t with attempt := 0, phase := .sweeping 0 } := by
    simpa [advance, hphase] using hfirst
  have hinv' : TailInv count decoders payloads { t with attempt := 0, phase := .sweeping 0 } lss :=
    { hinv with counted := ⟨Nat.zero_le _, hordinal⟩ }
  obtain ⟨t', lss', hsweep, hphase', -, hcaught⟩ := sweep_leads hinv' rfl
  exact ⟨t', lss', .trans (.step (fits_of_phase (by simp [hphase])) hstep hinv') hsweep, hphase',
    fun j hj => hcaught j (Nat.zero_le _) hj⟩

variable {base : Int}

/-- **The rest of a round of `positionSources`** leads to the next one, or to a sweep. -/
theorem place_leads {snap : IndexSnapshot}
    (hphase : t.phase = .positioning i base snap) (hfit : Fits t) :
    ∃ t' lss', Leads count decoders payloads t t' lss' ∧
      ((∃ base', t'.phase = .opening (i + 1) base') ∨ t'.phase = .sweeping i) := by
  have hstep : t.advance count decoders payloads = some (t.placeSource decoders i base snap) := by
    simp [advance, hphase]
  obtain ⟨ls, hinv', -, -, -, hnext⟩ := placeSource_spec hinv hfit hphase
  refine ⟨_, _, .step hfit hstep hinv', ?_⟩
  rcases hnext with ⟨-, -, hopen⟩ | ⟨-, hsweep, -⟩
  · exact .inl ⟨_, hopen⟩
  · exact .inr hsweep

theorem open_leads (hphase : t.phase = .opening i base) :
    Leads count decoders payloads t (t.openSource count decoders payloads i base) lss :=
  .step (fits_of_phase (by simp [hphase])) (by simp [advance, hphase])
    (openSource_moves hinv hphase).1

/-- **The rest of `positionSources`** leads to a sweep. -/
theorem opening_leads (hphase : t.phase = .opening i base) (hseq : 0 ≤ t.afterSeq) :
    ∃ t' lss' k, Leads count decoders payloads t t' lss' ∧ t'.phase = .sweeping k := by
  obtain ⟨d, hd⟩ := Nat.exists_eq_add_of_le (hinv.counted_at hphase).1
  induction d generalizing t lss i base with
  | zero =>
    rcases openSource_phase hinv hphase with ⟨-, hsweep, -⟩ | ⟨hlt, -⟩ | ⟨f, snap, hlt, -⟩
    · exact ⟨_, lss, count, open_leads hinv hphase, hsweep⟩
    · omega
    · omega
  | succ d ih =>
    have hopen := open_leads hinv hphase
    -- the next round, from a state in which it is about to start
    have hnext : ∀ {t₁ lss₁ base₁}, Leads count decoders payloads t t₁ lss₁ →
        t₁.phase = .opening (i + 1) base₁ →
        ∃ t' lss' k, Leads count decoders payloads t t' lss' ∧ t'.phase = .sweeping k := by
      intro t₁ lss₁ base₁ hround hphase₁
      obtain ⟨t', lss', k, hrest, hsweep⟩ :=
        ih hround.inv hphase₁ (hround.afterSeq ▸ hseq) (by omega)
      exact ⟨t', lss', k, hround.trans hrest, hsweep⟩
    rcases openSource_phase hinv hphase with
      ⟨hcount, -⟩ | ⟨-, -, hphase'⟩ | ⟨f, snap, -, -, hphase₁, hsnap, -⟩
    · omega
    · exact hnext hopen hphase'
    -- nobody has come between: the snapshot is the index
    have hfit : Fits (t.openSource count decoders payloads i base) := by
      intro i' base' snap' hphase'
      obtain ⟨rfl, rfl, rfl⟩ := Phase.positioning.inj (hphase₁.symm.trans hphase')
      exact ⟨hopen.afterSeq ▸ hseq, fun _ => .inl hsnap⟩
    obtain ⟨t₂, lss₂, hplace, ⟨base₂, hphase₂⟩ | hsweep⟩ := place_leads hopen.inv hphase₁ hfit
    · exact hnext (hopen.trans hplace) hphase₂
    · exact ⟨t₂, lss₂, i, hopen.trans hplace, hsweep⟩

/-- **A tail left alone catches up** with every source, from every state in which positioning goes
    right. -/
theorem catches_up (hseq : 0 ≤ t.afterSeq) (hfit : Fits t) :
    CatchesUp count decoders payloads t := by
  -- from a sweep to its end, and one more sweep
  have hsweep : ∀ {t₁ lss₁ k}, Leads count decoders payloads t t₁ lss₁ → t₁.phase = .sweeping k →
      CatchesUp count decoders payloads t := by
    intro t₁ lss₁ k hlead hphase₁
    obtain ⟨t₂, lss₂, hrest, hphase₂, -⟩ := sweep_leads hlead.inv hphase₁
    obtain ⟨t₃, lss₃, htick, hcaught⟩ := tick_leads hrest.inv hphase₂
    exact ⟨t₃, lss₃, (hlead.trans hrest).trans htick, hcaught⟩
  have hopening : ∀ {t₁ lss₁ i base}, Leads count decoders payloads t t₁ lss₁ →
      t₁.phase = .opening i base → CatchesUp count decoders payloads t := by
    intro t₁ lss₁ i base hlead hphase₁
    obtain ⟨t₂, lss₂, k, hopen, hphase₂⟩ :=
      opening_leads hlead.inv hphase₁ (hlead.afterSeq ▸ hseq)
    exact hsweep (hlead.trans hopen) hphase₂
  cases hphase : t.phase with
  | opening i base => exact hopening (.refl hinv) hphase
  | positioning i base snap =>
    obtain ⟨t₁, lss₁, hplace, ⟨base₁, hphase₁⟩ | hphase₁⟩ := place_leads hinv hphase hfit
    · exact hopening hplace hphase₁
    · exact hsweep hplace hphase₁
  | sweeping i => exact hsweep (.refl hinv) hphase
  | reading i =>
    have hstep : t.advance count decoders payloads = some (t.readSource decoders i) := by
      simp [advance, hphase]
    obtain ⟨lss₁, hinv₁, -⟩ := readSource_moves hinv hphase
    have hphase₁ : (t.readSource decoders i).phase = .sweeping (i + 1) := by
      unfold readSource
      split <;> rfl
    exact hsweep (.step (fits_of_phase (by simp [hphase])) hstep hinv₁) hphase₁
  | waiting => exact tick_leads hinv hphase
  | crashed => exact (hinv.counted_at hphase).elim

end

end

open Transition Lines TailState List

variable {σ : Type} {decoder : SourceDecoder σ} {payloads : PayloadReader}

/-- A full replay of these lines, numbered from 1, past the resume point. -/
def replayAfter (decoder : SourceDecoder σ) (afterSeq : Int) (ls : List (List UInt8)) :
    List (Int × RuntimeEvent) :=
  (number 1 (decoder.output ls)).filter fun e => afterSeq < e.1

variable {afterSeq : Int}

theorem replayAfter_append {ls ls' : List (List UInt8)} {evs : List RuntimeEvent}
    (h : decoder.output ls' = decoder.output ls ++ evs) :
    replayAfter decoder afterSeq ls' = replayAfter decoder afterSeq ls ++
      (number ((decoder.output ls).length + 1) evs).filter fun e => afterSeq < e.1 := by
  rw [replayAfter, h, number_append, filter_append, Int.add_comm 1]
  rfl

/-- The invariant with one source: what was emitted is the replay of the lines consumed. -/
structure Resumed (decoder : SourceDecoder σ) (payloads : PayloadReader) (t : TailState σ)
    (lss : Nat → List (List UInt8)) : Prop where
  inv : TailInv 1 (fun _ => decoder) payloads t lss
  emitted : t.emitted.map Prod.snd = replayAfter decoder t.afterSeq (lss 0)

theorem Resumed.step {t t' : TailState σ} {lss : Nat → List (List UInt8)} {e : TailEvent}
    (h : Resumed decoder payloads t lss) (hfit : StepFits t e)
    (hstep : t.step 1 (fun _ => decoder) payloads e = some t') :
    ∃ lss', Resumed decoder payloads t' lss' := by
  rcases step_cases hstep with ⟨rfl, hadvance⟩ | ⟨we, w, rfl, hworld, rfl⟩
  · obtain ⟨lss', hinv', hmoves⟩ := advance_moves h.inv (hfit rfl) hadvance
    obtain ⟨-, hseq⟩ := advance_frame hadvance
    refine ⟨lss', hinv', ?_⟩
    rw [hseq]
    cases hmoves with
    | kept hlss hemitted => rw [hlss, hemitted, h.emitted]
    | @placed i base snap ls hphase hlss hle hnone hnone' =>
      obtain ⟨hi, hbase, -⟩ := h.inv.counted_at hphase
      obtain rfl : i = 0 := by omega
      have hzero : base = 0 := hbase
      -- nothing is past the resume point yet
      rw [hnone', hlss, Function.update_self, replayAfter, filter_number,
        drop_eq_nil_of_le (by omega)]
      rfl
    | @read i f evs hphase hf hlss hevs hemitted =>
      obtain ⟨hi, hordinal⟩ := h.inv.counted_at hphase
      obtain rfl : i = 0 := by omega
      have hordinal' : t.ordinal = (decoder.output (lss 0)).length := by
        rw [hordinal, total_succ]
        simp [total]
      rw [hemitted, hlss, Function.update_self, replayAfter_append hevs, map_append,
        h.emitted, map_map, hordinal']
      congr 1
      exact map_id _
  · exact ⟨lss, worldStep_inv h.inv hworld, h.emitted⟩

theorem worldOk_run {decoders : Nat → SourceDecoder σ} {before : List WorldEvent} {w : World σ}
    (h : exec (World.step decoders payloads) (World.blank decoders) before = some w) :
    WorldOk decoders payloads w :=
  exec_invariant (WorldOk decoders payloads) (fun _ _ _ hw hstep => (world_step hw hstep).1)
    worldOk_blank h

theorem resumed_of_run {before : List WorldEvent} {es : List TailEvent} {w : World σ}
    {t : TailState σ}
    (hworld : exec (World.step (fun _ => decoder) payloads) (World.blank fun _ => decoder) before =
      some w) (hrun : exec (step 1 (fun _ => decoder) payloads)
      (start (fun _ => decoder) w afterSeq) es = some t)
    (hfit : Along (step 1 (fun _ => decoder) payloads) StepFits
      (start (fun _ => decoder) w afterSeq) es) :
    t.afterSeq = afterSeq ∧ ∃ lss, Resumed decoder payloads t lss := by
  refine exec_invariant_along StepFits
    (fun t => t.afterSeq = afterSeq ∧ ∃ lss, Resumed decoder payloads t lss) ?_ ?_ hfit hrun
  · rintro s e s' ⟨hseq, lss, hs⟩ hP hstep
    refine ⟨?_, hs.step hP hstep⟩
    rcases step_cases hstep with ⟨-, hadvance⟩ | ⟨we, w, -, -, rfl⟩
    · exact (advance_frame hadvance).2.trans hseq
    · exact hseq
  · exact ⟨rfl, _, tailInv_start (worldOk_run hworld) afterSeq, rfl⟩

/-- **A subscription resumes exactly after its resume point**, in every run whose steps position
    where that goes right, of a single source that only grows, with other readers updating the
    shared index at any time: what it has sent is, in order and under the ordinals of a full replay,
    a beginning of the events of a full replay past the resume point; and from every state reached,
    the tail's own steps lead to one where it has sent all of them. -/
theorem resume_exact {before : List WorldEvent} {es : List TailEvent} {w : World σ}
    {t : TailState σ} {afterSeq : Int}
    (hworld : exec (World.step (fun _ => decoder) payloads) (World.blank fun _ => decoder) before =
      some w)
    (hrun : exec (TailState.step 1 (fun _ => decoder) payloads)
      (TailState.start (fun _ => decoder) w afterSeq) es = some t)
    (hfit : Along (TailState.step 1 (fun _ => decoder) payloads) StepFits
      (TailState.start (fun _ => decoder) w afterSeq) es) :
    t.out.flatMap Batch.numbered <+:
        replayAfter decoder afterSeq (lines newline (contentOf (t.world.files 0))) ∧
      (0 ≤ afterSeq → Fits t → ∃ n t',
        exec (TailState.step 1 (fun _ => decoder) payloads) t (List.replicate n .tail) = some t' ∧
        t'.world.files = t.world.files ∧
        t'.out.flatMap Batch.numbered =
          replayAfter decoder afterSeq (lines newline (contentOf (t.world.files 0)))) := by
  obtain ⟨hseq, lss, hres⟩ := resumed_of_run hworld hrun hfit
  constructor
  · obtain ⟨ms, hms⟩ := (hres.inv.cursors 0).consumed
    rw [← hms, replayAfter_append (decoder.output_append _ ms)]
    refine List.IsPrefix.trans ?_ (prefix_append _ _)
    rw [← hseq, ← hres.emitted, emitted, map_append, hres.inv.sent]
    exact prefix_append _ _
  intro hnonneg hfits
  obtain ⟨t', lss', ⟨⟨n, hreach⟩, hinv', hfiles, -⟩, hphase, hcaught⟩ :=
    catches_up hres.inv (hseq ▸ hnonneg) hfits
  refine ⟨n, t', hreach.run, hfiles, ?_⟩
  -- the longer run, in which the tail is waiting and has collected nothing
  obtain ⟨hseq', lss₂, hres'⟩ := resumed_of_run hworld
    (exec_append_eq_some.mpr ⟨t, hrun, hreach.run⟩) (hfit.append hrun hreach.fits)
  have hcollected : t'.collected = [] := (hinv'.counted_at hphase).2.1
  have hlines : lss₂ 0 = lines newline (contentOf (t.world.files 0)) := by
    rw [← hfiles, ← hcaught 0 Nat.one_pos]
    exact (hres'.inv.cursors 0).unique (hinv'.cursors 0)
  rw [← hlines, ← hseq', ← hres'.emitted, emitted, hcollected, append_nil, hres'.inv.sent]

/-! ## Runs in which positioning goes right, and wrong -/

/-- A record of one line. -/
def sampleBefore : List WorldEvent := [.create 0 7 0, .append 0 [97, 10] 1]

/-- What a replay of the record with a second line gives. -/
def sampleEvent (n : Nat) (letter : UInt8) : RuntimeEvent := ⟨"line", toString n, "out", [letter, 10]⟩

/-- The test of `StepFits`. -/
def stepFits {σ : Type} (t : TailState σ) (e : TailEvent) : Bool :=
  match e, t.phase with
  | .tail, .positioning i base snap =>
    0 ≤ t.afterSeq && (t.afterSeq < base + snap.events ||
      snap.events = (t.world.indexes i).events ||
      (t.world.indexes i).cps.any fun cp => cp.events = snap.events)
  | _, _ => true

theorem stepFits_of_test (t : TailState σ) (e : TailEvent) (h : stepFits t e = true) :
    StepFits t e := by
  rintro rfl i base snap hphase
  simp only [stepFits, hphase, Bool.and_eq_true, Bool.or_eq_true, decide_eq_true_eq,
    any_eq_true] at h
  refine ⟨h.1, fun hle => ?_⟩
  rcases h.2 with (hlt | hend) | hcp
  · omega
  · exact .inl hend
  · exact .inr hcp

/-- The second line is written after the subscription has positioned. -/
def sampleSteps : List TailEvent :=
  [.tail, .tail, .tail, .tail, .world (.append 0 [98, 10] 2), .tail]

/-- The second line comes after the subscription has positioned: it is the second event. -/
theorem resume_exact_second_line :
    ∃ w t, exec (World.step (fun _ => countingDecoder) emptyPayloads)
        (World.blank fun _ => countingDecoder) sampleBefore = some w ∧
      exec (TailState.step 1 (fun _ => countingDecoder) emptyPayloads)
        (TailState.start (fun _ => countingDecoder) w 1) sampleSteps = some t ∧
      ∃ n t', exec (TailState.step 1 (fun _ => countingDecoder) emptyPayloads) t
          (List.replicate n .tail) = some t' ∧
        t'.out.flatMap Batch.numbered = [(2, sampleEvent 1 98)] := by
  simp only [exists_and_left]
  refine reaches_imp (P := fun w =>
    check (step 1 (fun _ => countingDecoder) emptyPayloads) stepFits
      (start (fun _ => countingDecoder) w 1) sampleSteps = true ∧
    ∃ t, exec (step 1 (fun _ => countingDecoder) emptyPayloads)
      (start (fun _ => countingDecoder) w 1) sampleSteps = some t ∧
      t.phase = .sweeping 0 ∧
      replayAfter countingDecoder 1 (lines newline (contentOf (t.world.files 0))) =
        [(2, sampleEvent 1 98)]) (by decide +kernel) ?_
  rintro w hw ⟨hcheck, t, hexec, hphase, hreplay⟩
  obtain ⟨n, t', hcatch, -, hout⟩ :=
    (resume_exact hw hexec (.of_check stepFits_of_test hcheck)).2 (by decide)
      (fits_of_phase (by simp [hphase]))
  exact ⟨t, hexec, n, t', hcatch, hout.trans hreplay⟩

/-- **The index moves on between the two sections.** The snapshot counts one event; another reader
    then indexes the second line, and the index positions the tail at its first checkpoint, before
    the first event. The tail sends the first event again, under the ordinal of the second. A
    negative resume point ends the process. -/
theorem index_advanced_renumbers :
    ∃ w t u, exec (World.step (fun _ => countingDecoder) emptyPayloads)
        (World.blank fun _ => countingDecoder) sampleBefore = some w ∧
      exec (TailState.step 1 (fun _ => countingDecoder) emptyPayloads)
        (TailState.start (fun _ => countingDecoder) w 1)
        ([.tail, .world (.append 0 [98, 10] 2), .world (.update 0)] ++ List.replicate 7 .tail) =
          some t ∧
      t.out.flatMap Batch.numbered = [(2, sampleEvent 0 97), (3, sampleEvent 1 98)] ∧
      replayAfter countingDecoder 1 (lines newline (contentOf (t.world.files 0))) =
        [(2, sampleEvent 1 98)] ∧
      exec (TailState.step 1 (fun _ => countingDecoder) emptyPayloads)
        (TailState.start (fun _ => countingDecoder) w (-1)) [.tail, .tail] = some u ∧
      u.phase = .crashed := by
  simp only [exists_and_left]
  decide +kernel

end AgentMultiplexer.RuntimeEvents
