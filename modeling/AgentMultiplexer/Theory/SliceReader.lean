import AgentMultiplexer.Theory.Lines

set_option autoImplicit false

/-! # Reading a growing source in slices

A buffered reader takes slices off a source that may grow between two reads: a slice ends with the
delimiter, or it is the whole buffer, or it is what was left when the source had no more to give.
Each read sees the source of its own moment, `data n` at the `n`-th. Where the source only ever
grows, a reader that has consumed a text stands right behind it: what it holds in its buffer follows
that text in the source at every later moment. -/

namespace SliceReader

open Lines List Nat

/-- A buffer over a limited source: what is buffered, whether the source had no more, the position
    in the source, how much of it may still be read, and how much was. -/
structure Reader (α : Type) where
  buf : List α
  eof : Bool
  pos : Nat
  left : Nat
  read : Nat

/-- What comes with a slice. -/
inductive ReadError
  | none
  | bufferFull
  | eof
  deriving DecidableEq

/-- A slice, its error, the reader and the next moment. -/
structure Slice (α : Type) where
  fragment : List α
  error : ReadError
  reader : Reader α
  op : Nat

variable {α : Type} (delim : α) (size : Nat)

/-- One read into the free part of the buffer. -/
def Reader.fill (r : Reader α) (data : List α) : Reader α :=
  let got := (data.drop r.pos).take (min (size - r.buf.length) r.left)
  if got.length = 0 then { r with eof := true }
  else { r with
    buf := r.buf ++ got
    pos := r.pos + got.length
    left := r.left - got.length
    read := r.read + got.length }

/-- The text up to the first delimiter, and what follows it. -/
def cut [DecidableEq α] : List α → Option (List α × List α)
  | [] => none
  | a :: t =>
    if a = delim then some ([a], t)
    else (cut t).map fun c => (a :: c.1, c.2)

/-- The next slice. A read adds to the buffer or meets the end, so a few more rounds than the buffer
    is long are enough. -/
def Reader.readSlice [DecidableEq α] (data : Nat → List α) : Nat → Nat → Reader α → Slice α
  | 0, op, r => ⟨[], .bufferFull, r, op⟩
  | fuel + 1, op, r =>
    match cut delim r.buf with
    | some (line, rest) => ⟨line, .none, { r with buf := rest }, op⟩
    | none =>
      if r.eof then ⟨r.buf, .eof, { r with buf := [], eof := false }, op⟩
      else if size ≤ r.buf.length then ⟨r.buf, .bufferFull, { r with buf := [] }, op⟩
      else readSlice data fuel (op + 1) (r.fill size (data op))

variable {delim size}

/-! ## Where a reader stands -/

/-- The reader has consumed `done` of the source: its buffer comes next. -/
structure Reader.At (r : Reader α) (data done : List α) : Prop where
  buffered : done ++ r.buf <+: data
  pos : r.pos = (done ++ r.buf).length

variable {r : Reader α}

theorem Reader.At.grow {data data' done : List α} (h : r.At data done)
    (hgrow : data <+: data') : r.At data' done :=
  ⟨h.buffered.trans hgrow, h.pos⟩

theorem Reader.At.consume {data done line rest : List α} (h : r.At data done)
    (hbuf : r.buf = line ++ rest) (eof : Bool) :
    ({ r with buf := rest, eof := eof } : Reader α).At data (done ++ line) := by
  constructor
  · simpa [hbuf] using h.buffered
  · simpa [hbuf] using h.pos

theorem Reader.At.fill {data done : List α} (h : r.At data done) :
    (r.fill size data).At data done := by
  rw [Reader.fill]
  split
  next => exact ⟨h.buffered, h.pos⟩
  obtain ⟨more, rfl⟩ := h.buffered
  constructor
  · -- the read goes on right behind the buffer
    simp only [h.pos, drop_left]
    rw [← append_assoc]
    exact prefix_append_right_inj _ |>.mpr ( take_prefix _ _)
  · simp only [h.pos, length_append, add_assoc]

variable [DecidableEq α]

/-! ## Slices -/

theorem cut_eq_some {t l r : List α} (h : cut delim t = some (l, r)) :
    IsLine delim l ∧ t = l ++ r := by
  induction t generalizing l with
  | nil => simp [cut] at h
  | cons a t ih =>
    rw [cut] at h
    split at h
    next ha =>
      cases h
      exact ⟨⟨[], by simp, by simp [ha]⟩, rfl⟩
    next ha =>
      obtain ⟨⟨l', r'⟩, hcut, hl⟩ := Option.map_eq_some_iff.mp h
      cases hl
      obtain ⟨⟨body, hbody, rfl⟩, rfl⟩ := ih hcut
      exact ⟨⟨a :: body, by simp [hbody, Ne.symm ha], rfl⟩, rfl⟩

theorem notMem_of_cut_eq_none {t : List α} (h : cut delim t = none) : delim ∉ t := by
  induction t with
  | nil => simp
  | cons a t ih =>
    rw [cut] at h
    split_ifs at h with ha
    simp [Ne.symm ha, ih (Option.map_eq_none_iff.mp h)]

variable {data : Nat → List α}

variable (delim size) in
/-- **What a slice is**: it is consumed off a source that grows, and it is a line or holds no
    delimiter. -/
theorem Reader.At.readSlice (hgrow : ∀ n, data n <+: data (n + 1))
    {op : Nat} {done : List α} (h : r.At (data op) done) (fuel : Nat) :
    let s := r.readSlice delim size data fuel op
    s.reader.At (data s.op) (done ++ s.fragment) ∧ op ≤ s.op ∧
      (s.error = .none → IsLine delim s.fragment) ∧
      (s.error ≠ .none → delim ∉ s.fragment) := by
  induction fuel generalizing op r with
  | zero => simpa [Reader.readSlice] using h
  | succ fuel ih =>
    simp only [Reader.readSlice]
    split
    next line rest hcut =>
      obtain ⟨hline, hbuf⟩ := cut_eq_some hcut
      exact ⟨h.consume hbuf r.eof, le_refl _, fun _ => hline, fun hne => absurd rfl hne⟩
    next hcut =>
    have hno := notMem_of_cut_eq_none hcut
    have hall : r.buf = r.buf ++ [] := by simp
    split
    next => exact ⟨h.consume hall false, le_refl _, nofun, fun _ => hno⟩
    split
    next => exact ⟨h.consume hall r.eof, le_refl _, nofun, fun _ => hno⟩
    obtain ⟨hat, hle, hrest⟩ := ih (h.fill.grow (hgrow op))
    exact ⟨hat, le_trans (le_succ op) hle, hrest⟩

theorem Reader.readSlice_le_op (data : Nat → List α) (fuel op : Nat) (r : Reader α) :
    op ≤ (r.readSlice delim size data fuel op).op := by
  fun_induction Reader.readSlice with
  | case1 | case2 | case3 | case4 => exact le_refl _
  | case5 fuel op r _ _ _ ih => exact le_trans (le_succ op) ih

/-- A slice off a buffer that holds something is not empty, given enough rounds: a read fills the
    buffer further or meets the end. -/
theorem Reader.readSlice_ne_nil (data : Nat → List α) {fuel : Nat} (op : Nat)
    (hbuf : r.buf ≠ []) (hfuel : size - r.buf.length + (if r.eof then 0 else 1) < fuel) :
    (r.readSlice delim size data fuel op).fragment ≠ [] := by
  induction fuel generalizing op r with
  | zero => omega
  | succ fuel ih =>
    simp only [Reader.readSlice]
    split
    next line rest hcut =>
      obtain ⟨⟨body, -, rfl⟩, -⟩ := cut_eq_some hcut
      simp
    split
    next => exact hbuf
    next heof =>
    split
    next => exact hbuf
    next hroom =>
    rw [if_neg heof] at hfuel
    apply ih
    · rw [Reader.fill]
      split <;> simp [hbuf]
    · rw [Reader.fill]
      split
      next => simp only [if_true]; omega
      next => simp only [length_append]; omega

theorem Reader.readSlice_fresh_ne_nil {pos left fuel : Nat} (op : Nat)
    (hmore : pos < (data op).length) (hleft : 0 < left) (hsize : 0 < size)
    (hfuel : size + 1 < fuel) :
    ((⟨[], false, pos, left, 0⟩ : Reader α).readSlice delim size data fuel op).fragment ≠ [] := by
  obtain ⟨fuel, rfl⟩ : ∃ n, fuel = n + 1 := ⟨fuel - 1, by omega⟩
  have hgot : (((data op).drop pos).take (min size left)).length ≠ 0 := by
    rw [length_take, length_drop]
    omega
  simp only [Reader.readSlice, cut, Bool.false_eq_true, if_false, length_nil,
    Nat.le_zero, (Nat.ne_of_gt hsize)]
  apply Reader.readSlice_ne_nil
  · simp only [Reader.fill, length_nil, Nat.sub_zero, if_neg hgot, nil_append]
    exact fun hnil => hgot (by rw [hnil]; rfl)
  · simp only [Reader.fill, length_nil, Nat.sub_zero, if_neg hgot, nil_append]
    simp only [Bool.false_eq_true, if_false]
    omega

theorem Reader.readSlice_fresh_nil {pos left fuel : Nat} (op : Nat)
    (hend : (data op).length ≤ pos) (hsize : 0 < size) (hfuel : 1 < fuel) :
    (⟨[], false, pos, left, 0⟩ : Reader α).readSlice delim size data fuel op =
      ⟨[], .eof, ⟨[], false, pos, left, 0⟩, op + 1⟩ := by
  obtain ⟨fuel, rfl⟩ : ∃ n, fuel = n + 2 := ⟨fuel - 2, by omega⟩
  have hgot : (((data op).drop pos).take (min size left)).length = 0 := by
    rw [length_take, length_drop]
    omega
  simp [Reader.readSlice, cut, ne_of_gt hsize, Reader.fill, hgot]

end SliceReader
