import AgentMultiplexer.Mux.PaneBuffer
import AgentMultiplexer.Theory.GoMap

set_option autoImplicit false

/-! # Terminal modes of a trimmed replay

A full-screen program sets the modes of its terminal once and then only draws. When the output that
waits for a client outgrows the buffer, the client is told to clear its emulator and gets the end of
the output alone, after a preamble that states the modes again. A tracker follows the whole stream
for that. The preamble states the modes at the end of the stream and not at the cut: what was kept is
applied over the modes it leads to.

A stream is what the parser reports of it, which tracker and emulator share. An operation takes any
number of bytes, so how many of them the buffer holds and an overflow keeps is free: every chunk comes
with limits of its own. -/

namespace AgentMultiplexer.Mux.TermModes

open GoMap List Relayed

/-- `CSI ? Pm h` or `CSI ? Pm l`, with -1 for a parameter that is not given; `ESC c`; all else. -/
inductive Op
  | privateModes (on : Bool) (params : List Int)
  | fullReset
  | other

def altScreenModes : List Int := [1049, 1047]

def tracked : List Int := [1, 25, 1000, 1002, 1003, 1004, 1005, 1006, 1007, 1015, 1016, 2004]

/-! ## The tracker -/

/-- `Tracker` without its parser. -/
structure Tracker where
  set : GoMap Int Bool
  alt : Int
  alt_screen : alt = 0 ∨ alt ∈ altScreenModes

namespace Tracker

def zero : Tracker := ⟨∅, 0, .inl rfl⟩

/-- One parameter of `csi`. -/
def setMode (on : Bool) (t : Tracker) (mode : Int) : Tracker :=
  if h : mode ∈ altScreenModes then
    { t with alt := if on then mode else 0, alt_screen := by cases on <;> simp [h] }
  else if mode ∈ tracked then { t with set := t.set.insert mode on }
  else t

/-- `csi` and `esc`. -/
def write (t : Tracker) : Op → Tracker
  | .privateModes on params => params.foldl (setMode on) t
  | .fullReset => zero
  | .other => t

def preamble (t : Tracker) : List Op :=
  (if t.alt ≠ 0 then [.privateModes true [t.alt]] else []) ++
    tracked.filterMap fun m => (t.set.lookup m).map fun on => .privateModes on [m]

end Tracker

/-- The tracker after a stream. -/
def track (ops : List Op) : Tracker := ops.foldl Tracker.write .zero

/-! ## The emulator -/

/-- What is to be restored: the screen that is shown, and the tracked modes. -/
inductive Register
  | altScreen
  | mode (m : Int)
  deriving DecidableEq

/-- What a mode is about; either alternate-screen mode switches the screen. -/
def register (mode : Int) : Option Register :=
  if mode ∈ altScreenModes then some .altScreen
  else if mode ∈ tracked then some (.mode mode)
  else none

abbrev Modes := Register → Bool

def setMode (on : Bool) (s : Modes) (mode : Int) : Modes :=
  (register mode).elim s fun r => Function.update s r on

/-- The modes of an emulator that was reset: those it starts with, on the primary screen. -/
def Modes.default (defaults : Int → Bool) : Modes
  | .altScreen => false
  | .mode m => defaults m

def emulator (defaults : Int → Bool) : Emulator Modes Op where
  init := .default defaults
  step s
    | .privateModes on params => params.foldl (setMode on) s
    | .fullReset => .default defaults
    | .other => s

/-! ## Replaying a suffix

An operation overwrites some registers and leaves the others. So does a list of operations, and
applying it once more changes nothing. -/

/-- `f` writes fixed values to some registers. -/
def Overwrites (f : Modes → Modes) : Prop :=
  ∃ w : Register → Option Bool, ∀ s, f s = fun r => (w r).getD (s r)

theorem Overwrites.idem {f : Modes → Modes} (h : Overwrites f) (s : Modes) : f (f s) = f s := by
  obtain ⟨w, hw⟩ := h
  simp only [hw]
  funext r
  cases w r <;> rfl

theorem Overwrites.foldl {ι : Type} {step : Modes → ι → Modes}
    (hstep : ∀ i, Overwrites (step · i)) (l : List ι) : Overwrites (l.foldl step ·) := by
  induction l with
  | nil => exact ⟨fun _ => none, fun s => rfl⟩
  | cons i l ih =>
    obtain ⟨w, hw⟩ := hstep i
    obtain ⟨w', hw'⟩ := ih
    refine ⟨fun r => (w' r).or (w r), fun s => ?_⟩
    simp only [foldl_cons, hw, hw']
    funext r
    cases w' r <;> simp

theorem setMode_overwrites (on : Bool) (mode : Int) : Overwrites (setMode on · mode) := by
  cases hr : register mode with
  | none => exact ⟨fun _ => none, fun s => by simp [setMode, hr]⟩
  | some r₀ =>
    refine ⟨fun r => if r = r₀ then some on else none, fun s => funext fun r => ?_⟩
    by_cases h : r = r₀ <;> simp [setMode, hr, h]

variable {defaults : Int → Bool}

theorem step_overwrites (op : Op) : Overwrites ((emulator defaults).step · op) := by
  cases op with
  | privateModes on params => exact .foldl (setMode_overwrites on) params
  | fullReset => exact ⟨fun r => some (Modes.default defaults r), fun s => rfl⟩
  | other => exact ⟨fun _ => none, fun s => rfl⟩

/-- **A suffix of a stream, replayed over the modes at its end, changes none of them.** -/
theorem foldl_suffix {ops kept : List Op} (h : kept <:+ ops) (s : Modes) :
    kept.foldl (emulator defaults).step (ops.foldl (emulator defaults).step s) =
      ops.foldl (emulator defaults).step s := by
  obtain ⟨cut, rfl⟩ := h
  rw [foldl_append]
  exact (Overwrites.foldl step_overwrites kept).idem _

/-! ## The preamble -/

/-- The modes of an emulator, as the tracker knows them. -/
def Tracker.modes (defaults : Int → Bool) (t : Tracker) : Modes
  | .altScreen => t.alt ≠ 0
  | .mode m => if m ∈ tracked then (t.set.lookup m).getD (defaults m) else defaults m

theorem Tracker.modes_setMode (on : Bool) (t : Tracker) (mode : Int) :
    (t.setMode on mode).modes defaults = TermModes.setMode on (t.modes defaults) mode := by
  have hzero : (0 : Int) ∉ altScreenModes := by decide
  rw [Tracker.setMode, TermModes.setMode, register]
  split
  next halt =>
    funext r
    cases r <;> cases on <;> simp [modes, ne_of_mem_of_not_mem halt hzero]
  split
  next hmode =>
    funext r
    cases r with
    | altScreen => simp [modes]
    | mode m => rcases eq_or_ne m mode with rfl | hm <;> simp [modes, *]
  next => rfl

theorem Tracker.modes_write (t : Tracker) (op : Op) :
    (t.write op).modes defaults = (emulator defaults).step (t.modes defaults) op := by
  cases op with
  | privateModes on params =>
    simp only [write, emulator]
    induction params generalizing t with
    | nil => rfl
    | cons mode params ih => rw [foldl_cons, ih, modes_setMode, foldl_cons]
  | fullReset => funext r; cases r <;> simp [write, zero, modes, emulator, Modes.default]
  | other => rfl

/-- The tracker knows the modes of an emulator that follows the stream. -/
theorem modes_track (ops : List Op) :
    (track ops).modes defaults = ops.foldl (emulator defaults).step (.default defaults) := by
  induction ops using List.reverseRecOn with
  | nil => funext r; cases r <;> simp [track, Tracker.zero, Tracker.modes, Modes.default]
  | append_singleton ops op ih =>
    rw [track, foldl_append, foldl_append, ← ih]
    exact Tracker.modes_write _ op

/-- Modes that are restated one after the other. -/
theorem foldl_restated (set : GoMap Int Bool) {modes : List Int} (h : modes ⊆ tracked) (s : Modes)
    (r : Register) :
    (modes.filterMap fun m => (set.lookup m).map (.privateModes · [m])).foldl
        (emulator defaults).step s r =
      match r with
      | .altScreen => s r
      | .mode m => if m ∈ modes then (set.lookup m).getD (s r) else s r := by
  induction modes generalizing s with
  | nil => cases r <;> simp
  | cons mode modes ih =>
    obtain ⟨hmode, hmodes⟩ := cons_subset.mp h
    have halt : ∀ m ∈ tracked, m ∉ altScreenModes := by decide
    have hreg : register mode = some (.mode mode) := by simp [register, hmode, halt mode hmode]
    cases hset : set.lookup mode with
    | none =>
      rw [filterMap_cons_none (by simp [hset]), ih hmodes]
      cases r with
      | altScreen => rfl
      | mode m => rcases eq_or_ne m mode with rfl | hm <;> simp [*]
    | some on =>
      rw [filterMap_cons_some (by rw [hset, Option.map_some]), foldl_cons, ih hmodes]
      cases r with
      | altScreen => simp [emulator, setMode, hreg]
      | mode m => rcases eq_or_ne m mode with rfl | hm <;> simp [emulator, setMode, *]

/-- **The preamble restores what the tracker knows.** -/
theorem foldl_preamble (t : Tracker) :
    t.preamble.foldl (emulator defaults).step (.default defaults) = t.modes defaults := by
  funext r
  rw [Tracker.preamble, foldl_append, foldl_restated t.set (Subset.refl _)]
  rcases t.alt_screen with halt | halt
  · cases r <;> simp [halt, Tracker.modes, Modes.default]
  · have hne : t.alt ≠ 0 := ne_of_mem_of_not_mem halt (by decide)
    have hreg : register t.alt = some .altScreen := by simp [register, halt]
    cases r <;> simp [hne, Tracker.modes, emulator, setMode, hreg, Modes.default]

/-! ## The buffer of a pane -/

/-- A chunk of output with the cap of the buffer and what an overflow keeps, in operations, or a
    drain. -/
inductive ViewEvent
  | output (cap keep : Nat) (ops : List Op)
  | drain

def viewStep (s : Relayed Op) : ViewEvent → Relayed Op
  | .output cap keep ops => s.step ⟨cap, keep, fun ops => (track ops).preamble⟩ (.output ops)
  | .drain => s.step (coalescing id) .drain

/-- The operations of the whole stream. -/
def streamed (es : List ViewEvent) : List Op :=
  es.flatMap fun
    | .output _ _ ops => ops
    | .drain => []

/-- The tracker has followed the stream, and what is pending takes the client to its end. -/
structure Viewed (defaults : Int → Bool) (s : Relayed Op) (ops : List Op) : Prop where
  still_open : s.Open
  modes : (PaneOut.own s.buffer).modes = ops
  shown : (emulator defaults).run (.default defaults) s.flushed =
    ops.foldl (emulator defaults).step (.default defaults)

variable {s : Relayed Op} {ops : List Op}

theorem Viewed.output (h : Viewed defaults s ops) (cap keep : Nat) (chunk : List Op) :
    Viewed defaults (viewStep s (.output cap keep chunk)) (ops ++ chunk) := by
  have hmodes := congrArg (· ++ chunk) h.modes
  have hend := congrArg (chunk.foldl (emulator defaults).step) h.shown
  rw [run_flushed _ _ h.still_open, ← s.own_data, ← foldl_append, ← foldl_append] at hend
  rw [viewStep]
  refine ⟨h.still_open.step _, ?_, ?_⟩
  · simp only [step, paneOutputFor]
    split <;> exact hmodes
  rw [run_flushed _ _ (h.still_open.step _)]
  simp only [step, pending, paneOutputFor]
  split
  next =>
    change foldl _ (Modes.default defaults) (_ ++ _) = _
    rw [foldl_append, foldl_preamble, modes_track, hmodes, ← hend]
    exact foldl_suffix (drop_suffix _ _) _
  next => exact hend

theorem Viewed.drain (h : Viewed defaults s ops) : Viewed defaults (viewStep s .drain) ops := by
  refine ⟨h.still_open.step _, ?_, ?_⟩
  · rw [← h.modes]
    cases hbuf : s.buffer with
    | none => simp [viewStep, step, hbuf]
    | some b => simp [viewStep, step, hbuf, PaneOut.own, PaneOut.drained, h.still_open b hbuf]
  · rw [viewStep, (flushed_drain h.still_open).1]
    exact h.shown

variable (defaults) in
/-- **A trimmed replay restores the modes.** Whatever operations come in whatever chunks, whenever the
    buffer is drained, and however much of it every overflow keeps, after a drain the client's
    emulator has the modes of one that applied the whole stream. -/
theorem trimmed_replay_restores_modes (es : List ViewEvent) :
    (emulator defaults).run (.default defaults)
        ((es ++ [ViewEvent.drain]).foldl viewStep .initial).written =
      (streamed es).foldl (emulator defaults).step (.default defaults) := by
  have hview : Viewed defaults (es.foldl viewStep .initial) (streamed es) := by
    induction es using List.reverseRecOn with
    | nil => exact ⟨nofun, rfl, rfl⟩
    | append_singleton es e ih =>
      rw [foldl_append, streamed, flatMap_append]
      cases e with
      | output cap keep ops => simpa [streamed] using ih.output cap keep ops
      | drain => simpa [streamed] using ih.drain
  rw [foldl_append, foldl_cons, foldl_nil, viewStep, (flushed_drain hview.still_open).2.1]
  exact hview.shown

end AgentMultiplexer.Mux.TermModes
