import Mathlib.Data.List.Induction
import Mathlib.Algebra.Order.Ring.Nat

set_option autoImplicit false

/-! # The pending output of a pane

A client's write loop and the pumps of its panes meet in a buffer, one for each pane. A pump puts the
frames of its primary pane stream there and never waits; the write loop takes what is pending and
writes it: a reset if one is pending, then the bytes, then the exit. Bytes and the reset are
coalesced apart from each other, so a reset that comes while bytes are pending is written before
them. -/

namespace AgentMultiplexer.Mux

open List

/-- `core.PaneFrame`. -/
inductive Frame (α : Type)
  | output (data : List α)
  | reset
  | exit (error : String)
  deriving DecidableEq

/-- `paneOut`, for bytes `α`, without the routes that asked for the reset and the exit; `modes` is
    what the mode tracker has followed since it was new. -/
structure PaneOut (α : Type) where
  data : List α
  reset : Bool
  exit : Option String
  modes : List α

/-- `paneOutCap`, `paneOutKeep` and the tracker's `Preamble`. -/
structure Coalescing (α : Type) where
  cap : Nat
  keep : Nat
  preamble : List α → List α

/-- The constants of the source. -/
def coalescing {α : Type} (preamble : List α → List α) : Coalescing α :=
  ⟨4 * 2 ^ 20, 256 * 2 ^ 10, preamble⟩

section Buffer

variable {α : Type} (lim : Coalescing α)

/-- The buffer of a pane, made where there is none. -/
def PaneOut.own (b : Option (PaneOut α)) : PaneOut α := b.getD ⟨[], false, none, []⟩

def paneOutputFor (b : Option (PaneOut α)) (data : List α) : PaneOut α :=
  let b := PaneOut.own b
  let b := { b with modes := b.modes ++ data, data := b.data ++ data }
  if lim.cap < b.data.length then
    { b with
      data := lim.preamble b.modes ++ b.data.drop (b.data.length - lim.keep)
      reset := true }
  else b

/-- `paneResetFor`; the tracker starts anew with what is pending. -/
def paneResetFor (b : Option (PaneOut α)) : PaneOut α :=
  let b := PaneOut.own b
  { b with reset := true, modes := b.data }

/-- The frames that `drainPanes` writes for what is pending. -/
def PaneOut.frames (b : PaneOut α) : List (Frame α) :=
  (if b.reset then [.reset] else []) ++ (if b.data.isEmpty then [] else [.output b.data]) ++
    b.exit.toList.map .exit

/-- What `drainPanes` leaves. -/
def PaneOut.drained (b : PaneOut α) : Option (PaneOut α) :=
  if b.exit.isSome then none else some { b with reset := false, data := [] }

end Buffer

/-! ## Emulators -/

/-- A terminal: any machine over bytes with a state to which a reset returns. -/
structure Emulator (σ α : Type) where
  init : σ
  step : σ → α → σ

variable {σ α : Type}

def Emulator.apply (M : Emulator σ α) (s : σ) : Frame α → σ
  | .output data => data.foldl M.step s
  | .reset => M.init
  | .exit _ => s

/-- The state after some frames. -/
def Emulator.run (M : Emulator σ α) (s : σ) (frames : List (Frame α)) : σ :=
  frames.foldl M.apply s

theorem Emulator.run_append (M : Emulator σ α) (s : σ) (frames frames' : List (Frame α)) :
    M.run s (frames ++ frames') = M.run (M.run s frames) frames' :=
  foldl_append

/-! ## One pane's relay -/

/-- What happens to the buffer of a pane: a frame comes from upstream, or the write loop drains. -/
inductive PaneEvent (α : Type)
  | output (data : List α)
  | reset
  | drain
  deriving DecidableEq

/-- The buffer, and the frames that were written. -/
structure Relayed (α : Type) where
  buffer : Option (PaneOut α)
  written : List (Frame α)

section Relay

variable (lim : Coalescing α)

def Relayed.initial : Relayed α := ⟨none, []⟩

def Relayed.step (s : Relayed α) : PaneEvent α → Relayed α
  | .output data => { s with buffer := some (paneOutputFor lim s.buffer data) }
  | .reset => { s with buffer := some (paneResetFor s.buffer) }
  | .drain =>
    match s.buffer with
    | none => s
    | some b => ⟨b.drained, s.written ++ b.frames⟩

/-- The relay after some frames and drains. -/
def relay (es : List (PaneEvent α)) : Relayed α := es.foldl (Relayed.step lim) .initial

/-- The bytes that wait to be written. -/
def Relayed.pending (s : Relayed α) : List α := s.buffer.elim [] PaneOut.data

/-- The frames as they came. -/
def upstream (es : List (PaneEvent α)) : List (Frame α) :=
  es.filterMap fun
    | .output data => some (.output data)
    | .reset => some .reset
    | .drain => none

/-- The pending bytes never exceed the cap. -/
def BelowCap (es : List (PaneEvent α)) : Prop :=
  ∀ pre data post, es = pre ++ .output data :: post →
    (relay lim pre).pending.length + data.length ≤ lim.cap

variable {lim}

theorem relay_concat (es : List (PaneEvent α)) (e : PaneEvent α) :
    relay lim (es ++ [e]) = (relay lim es).step lim e := by
  rw [relay, foldl_append, foldl_cons, foldl_nil, ← relay]

theorem upstream_append (es fs : List (PaneEvent α)) :
    upstream (es ++ fs) = upstream es ++ upstream fs := filterMap_append

/-- The bytes of an event. -/
def PaneEvent.size : PaneEvent α → Nat
  | .output data => data.length
  | _ => 0

theorem Relayed.own_data (s : Relayed α) : (PaneOut.own s.buffer).data = s.pending := by
  cases hbuf : s.buffer <;> simp [PaneOut.own, Relayed.pending, hbuf]

variable {es : List (PaneEvent α)}

theorem pending_le_size (h : (es.map PaneEvent.size).sum ≤ lim.cap) :
    (relay lim es).pending.length ≤ (es.map PaneEvent.size).sum := by
  induction es using List.reverseRecOn with
  | nil => exact Nat.le_refl 0
  | append_singleton es e ih =>
    rw [map_append, sum_append] at h ⊢
    have hes := ih (Nat.le_trans (Nat.le_add_right _ _) h)
    have hown := congrArg length (relay lim es).own_data
    rw [relay_concat]
    cases e with
    | output data =>
      have hsize : ((PaneOut.own (relay lim es).buffer).data ++ data).length ≤
          (es.map PaneEvent.size).sum + data.length := by
        rw [length_append, hown]
        exact Nat.add_le_add_right hes _
      have hshort : ¬ lim.cap < ((PaneOut.own (relay lim es).buffer).data ++ data).length :=
        Nat.not_lt_of_le (Nat.le_trans hsize (by simpa [PaneEvent.size] using h))
      simp only [Relayed.step, Relayed.pending, paneOutputFor, hshort, if_false, Option.elim_some]
      simpa [PaneEvent.size] using hsize
    | reset =>
      simp only [Relayed.step, Relayed.pending, paneResetFor, Option.elim_some, hown]
      exact Nat.le_trans hes (Nat.le_add_right _ _)
    | drain =>
      refine Nat.le_trans ?_ (Nat.le_trans hes (Nat.le_add_right _ _))
      rw [Relayed.step]
      split
      next => exact Nat.le_refl _
      next b hb =>
      rw [PaneOut.drained]
      split <;> simp [Relayed.pending]

theorem BelowCap.of_size (h : (es.map PaneEvent.size).sum ≤ lim.cap) : BelowCap lim es := by
  rintro pre data post rfl
  simp only [map_append, map_cons, sum_append, sum_cons, PaneEvent.size] at h
  have hpre := pending_le_size (Nat.le_trans (Nat.le_add_right _ _) h)
  omega

/-- What will have been written once the buffer is drained. -/
def Relayed.flushed (s : Relayed α) : List (Frame α) :=
  s.written ++ s.buffer.elim [] PaneOut.frames

/-- No pane ends here: only outputs and resets come from upstream. -/
def Relayed.Open (s : Relayed α) : Prop := ∀ b, s.buffer = some b → b.exit = none

variable {s : Relayed α}

theorem Relayed.Open.own (h : s.Open) : (PaneOut.own s.buffer).exit = none := by
  cases hbuf : s.buffer with
  | none => rfl
  | some b => exact h b hbuf

theorem Relayed.Open.step (h : s.Open) (e : PaneEvent α) : (s.step lim e).Open := by
  intro b hb
  cases e with
  | output data =>
    cases hb
    rw [paneOutputFor]
    split <;> exact h.own
  | reset =>
    cases hb
    exact h.own
  | drain =>
    rw [Relayed.step] at hb
    split at hb
    next hnone => cases hnone.symm.trans hb
    next b' hb' =>
    simp only [PaneOut.drained, h b' hb', Option.isSome_none, Bool.false_eq_true, if_false,
      Option.some.injEq] at hb
    rw [← hb]

theorem relay_open (es : List (PaneEvent α)) : (relay lim es).Open := by
  induction es using List.reverseRecOn with
  | nil =>
    intro b hb
    cases hb
  | append_singleton es e ih =>
    rw [relay_concat]
    exact ih.step e

theorem Relayed.flushed_drain (h : s.Open) :
    (s.step lim .drain).flushed = s.flushed ∧ (s.step lim .drain).written = s.flushed ∧
      (s.step lim .drain).pending = [] := by
  cases hbuf : s.buffer with
  | none => simp [Relayed.step, Relayed.flushed, Relayed.pending, hbuf]
  | some b =>
    simp [Relayed.step, Relayed.flushed, Relayed.pending, hbuf, PaneOut.drained, h b hbuf,
      PaneOut.frames]

theorem Emulator.run_frames (M : Emulator σ α) (s : σ) {b : PaneOut α}
    (h : b.exit = none) :
    M.run s b.frames = b.data.foldl M.step (if b.reset then M.init else s) := by
  cases hreset : b.reset with
  | false | true =>
    cases hdata : b.data <;> simp [PaneOut.frames, hreset, hdata, h, Emulator.run, Emulator.apply]

/-- What is pending is applied after a reset or to what was written. -/
theorem Relayed.run_flushed (M : Emulator σ α) (s₀ : σ) (h : s.Open) :
    M.run s₀ s.flushed = s.pending.foldl M.step
      (if (PaneOut.own s.buffer).reset then M.init else M.run s₀ s.written) := by
  rw [Relayed.flushed, Emulator.run_append]
  cases hbuf : s.buffer with
  | none => simp [Relayed.pending, PaneOut.own, hbuf, Emulator.run]
  | some b =>
    rw [Option.elim_some, Emulator.run_frames M _ (h b hbuf), Relayed.pending, hbuf]
    rfl

/-- Output below the cap is applied after everything that is pending. -/
theorem Relayed.run_output (M : Emulator σ α) (s₀ : σ) (h : s.Open)
    {data : List α} (hcap : s.pending.length + data.length ≤ lim.cap) :
    M.run s₀ (s.step lim (.output data)).flushed = data.foldl M.step (M.run s₀ s.flushed) := by
  have hshort : ¬ lim.cap < ((PaneOut.own s.buffer).data ++ data).length := by
    rw [own_data, length_append]
    exact Nat.not_lt_of_le hcap
  rw [run_flushed M s₀ (h.step _), run_flushed M s₀ h, ← foldl_append, ← own_data, ← own_data]
  simp only [Relayed.step, paneOutputFor, hshort, if_false]
  rfl

/-- A reset is applied before everything that is pending. -/
theorem Relayed.run_reset (M : Emulator σ α) (s₀ : σ) (h : s.Open) :
    M.run s₀ (s.step lim .reset).flushed = s.pending.foldl M.step M.init := by
  rw [run_flushed M s₀ (h.step _), ← s.own_data]
  rfl

/-- **Between resets the relay is faithful**: whatever was applied before, the frames that follow are
    applied as they came. -/
theorem run_relay_append (M : Emulator σ α) (s₀ : σ) {es fs : List (PaneEvent α)}
    (hbelow : BelowCap lim (es ++ fs)) (hfs : .reset ∉ fs) :
    M.run s₀ (relay lim (es ++ fs)).flushed =
      M.run (M.run s₀ (relay lim es).flushed) (upstream fs) := by
  induction fs using List.reverseRecOn with
  | nil => simp [upstream, Emulator.run]
  | append_singleton fs f ih =>
    have hbelow' : BelowCap lim (es ++ fs) := fun pre data post heq =>
      hbelow pre data (post ++ [f]) (by rw [← append_assoc, heq]; simp)
    have hfs' : .reset ∉ fs := fun hmem => hfs (mem_append_left _ hmem)
    rw [← append_assoc, relay_concat, upstream_append, Emulator.run_append, ← ih hbelow' hfs']
    cases f with
    | output data =>
      have hcap := hbelow (es ++ fs) data [] (by rw [append_assoc])
      rw [Relayed.run_output M s₀ (relay_open _) hcap]
      rfl
    | reset => simp at hfs
    | drain =>
      rw [(Relayed.flushed_drain (relay_open _)).1]
      rfl

/-- A terminal that keeps every byte. -/
def recorder : Emulator (List α) α := ⟨[], fun s a => s ++ [a]⟩

theorem foldl_recorder (s data : List α) : data.foldl recorder.step s = s ++ data := by
  induction data generalizing s with
  | nil => simp
  | cons a data ih =>
    rw [foldl_cons, ih]
    simp [recorder]

theorem run_recorder (hes : .reset ∉ es) (s : List α) :
    recorder.run s (upstream es) = s ++ recorder.run [] (upstream es) := by
  induction es generalizing s with
  | nil => simp [upstream, Emulator.run]
  | cons e es ih =>
    have hes' : .reset ∉ es := fun hmem => hes (mem_cons_of_mem _ hmem)
    cases e with
    | output data =>
      have hcons (t : List α) : recorder.run t (upstream (.output data :: es)) =
          recorder.run (t ++ data) (upstream es) := by
        rw [← foldl_recorder]
        rfl
      rw [hcons, hcons, ih hes', ih hes' ([] ++ data), nil_append, append_assoc]
    | reset => simp at hes
    | drain => exact ih hes' s

theorem exists_last_reset (h : .reset ∈ es) :
    ∃ pre post, es = pre ++ .reset :: post ∧ .reset ∉ post := by
  obtain ⟨post, pre, heq, hnot⟩ := eq_append_cons_of_mem (mem_reverse.mpr h)
  refine ⟨pre.reverse, post.reverse, ?_, by simpa using hnot⟩
  simpa using congrArg List.reverse heq

/-- What follows the last reset is applied to what was pending when it came. -/
theorem run_relay_last_reset (M : Emulator σ α) (s₀ : σ) {pre post : List (PaneEvent α)}
    (hbelow : BelowCap lim (pre ++ .reset :: post)) (hpost : .reset ∉ post) :
    M.run s₀ (relay lim (pre ++ .reset :: post)).flushed =
      M.run ((relay lim pre).pending.foldl M.step M.init) (upstream post) := by
  have hsplit : pre ++ .reset :: post = (pre ++ [.reset]) ++ post := by simp
  rw [hsplit] at hbelow ⊢
  rw [run_relay_append M s₀ hbelow hpost, relay_concat, Relayed.run_reset M s₀ (relay_open pre)]

theorem run_upstream_last_reset (M : Emulator σ α) (s₀ : σ) (pre post : List (PaneEvent α)) :
    M.run s₀ (upstream (pre ++ .reset :: post)) = M.run M.init (upstream post) := by
  rw [upstream_append, Emulator.run_append]
  rfl

/-- **Resets keep their place exactly when the last one found nothing pending.** Below the cap, and
    with everything drained at the end, every terminal that applies what was written to the client
    ends as one that applies the upstream frames in their order, from whatever state both start, if
    and only if no bytes were pending when the last reset came. -/
theorem resets_keep_place_iff (lim : Coalescing α) {es : List (PaneEvent α)}
    (hbelow : BelowCap lim es) :
    (∀ (σ : Type) (M : Emulator σ α) (s₀ : σ),
      M.run s₀ (relay lim (es ++ [.drain])).written = M.run s₀ (upstream es)) ↔
    ∀ pre post, es = pre ++ .reset :: post → .reset ∉ post → (relay lim pre).pending = [] := by
  have hwritten : (relay lim (es ++ [.drain])).written = (relay lim es).flushed := by
    rw [relay_concat, (Relayed.flushed_drain (relay_open es)).2.1]
  rw [hwritten]
  constructor
  · -- the recorder tells the pending bytes
    intro h pre post heq hpost
    subst heq
    have hrec := h (List α) recorder []
    rw [run_relay_last_reset recorder [] hbelow hpost, run_upstream_last_reset, foldl_recorder,
      run_recorder hpost] at hrec
    simpa [recorder] using hrec
  · intro h σ M s₀
    by_cases hreset : .reset ∈ es
    · obtain ⟨pre, post, rfl, hpost⟩ := exists_last_reset hreset
      rw [run_relay_last_reset M s₀ hbelow hpost, run_upstream_last_reset, h pre post rfl hpost,
        foldl_nil]
    · exact run_relay_append M s₀ (show BelowCap lim ([] ++ es) from hbelow) hreset

theorem resets_keep_place_iff_drained :
    BelowCap (coalescing id) [.output [(1 : UInt8)], .drain, .reset, .output [2]] ∧
      ∀ (σ : Type) (M : Emulator σ UInt8) (s₀ : σ),
        M.run s₀ (relay (coalescing id)
            ([.output [1], .drain, .reset, .output [2]] ++ [.drain])).written =
          M.run s₀ (upstream [.output [1], .drain, .reset, .output [2]]) := by
  refine ⟨.of_size (by decide),
    (resets_keep_place_iff (coalescing id) (.of_size (by decide))).mpr ?_⟩
  intro pre post heq _
  rcases pre with _ | ⟨a, _ | ⟨b, _ | ⟨c, _ | ⟨d, pre⟩⟩⟩⟩
  · simp at heq
  · simp at heq
  · simp only [cons_append, nil_append, List.cons.injEq] at heq
    obtain ⟨rfl, rfl, -⟩ := heq
    decide
  · simp at heq
  · simp at heq

/-- **A reset that overtakes.** A byte is pending when the reset comes: the client is told to clear
    its terminal first and then shows the byte that upstream had cleared. -/
theorem reset_overtakes_output :
    BelowCap (coalescing id) [.output [(1 : UInt8)], .reset] ∧
      (relay (coalescing id) ([.output [(1 : UInt8)], .reset] ++ [.drain])).written =
        [.reset, .output [1]] ∧
      recorder.run [] (relay (coalescing id) ([.output [(1 : UInt8)], .reset] ++ [.drain])).written ≠
        recorder.run [] (upstream [.output [1], .reset]) :=
  ⟨.of_size (by decide), by decide, by decide⟩

end Relay

end AgentMultiplexer.Mux
