import Mathlib.Algebra.Order.Ring.Nat

set_option autoImplicit false

/-! # Lines of a growing text

A text over any alphabet falls into its complete lines, each with the delimiter that ends it, and
the rest that no delimiter has ended yet. Appending to the text leaves the complete lines as they
are: it extends the rest. A reader of a growing file is therefore described by the list of complete
lines it has consumed, a prefix of the lines of the text at every later time. -/

namespace Lines

open List

variable {α : Type*} [DecidableEq α] (delim : α)

/-- The complete lines, and the rest. -/
def splitLines : List α → List (List α) × List α
  | [] => ([], [])
  | a :: t =>
    if a = delim then ([a] :: (splitLines t).1, (splitLines t).2)
    else
      match (splitLines t).1 with
      | [] => ([], a :: (splitLines t).2)
      | l :: ls => ((a :: l) :: ls, (splitLines t).2)

/-- The complete lines of a text. -/
def lines (t : List α) : List (List α) := (splitLines delim t).1

/-- What follows the last delimiter. -/
def rest (t : List α) : List α := (splitLines delim t).2

/-- A line: its delimiter is its last letter and occurs nowhere else. -/
def IsLine (l : List α) : Prop := ∃ body, delim ∉ body ∧ l = body ++ [delim]

variable {delim}

@[simp] theorem lines_nil : lines delim [] = [] := rfl

@[simp] theorem rest_nil : rest delim [] = [] := rfl

variable {t : List α}

theorem splitLines_of_notMem (h : delim ∉ t) : splitLines delim t = ([], t) := by
  induction t with
  | nil => rfl
  | cons a t ih =>
    rw [mem_cons, not_or] at h
    rw [splitLines, if_neg (Ne.symm h.1), ih h.2]

theorem lines_of_notMem (h : delim ∉ t) : lines delim t = [] :=
  congrArg Prod.fst (splitLines_of_notMem h)

theorem rest_of_notMem (h : delim ∉ t) : rest delim t = t :=
  congrArg Prod.snd (splitLines_of_notMem h)

variable {l : List α}

theorem splitLines_line_append (hl : IsLine delim l) (t : List α) :
    splitLines delim (l ++ t) = (l :: lines delim t, rest delim t) := by
  obtain ⟨body, hbody, rfl⟩ := hl
  induction body with
  | nil => simp only [nil_append, cons_append, splitLines, if_pos, lines, rest]
  | cons a body ih =>
    rw [mem_cons, not_or] at hbody
    rw [cons_append, cons_append, splitLines, if_neg (Ne.symm hbody.1), ih hbody.2]

theorem lines_line_append (hl : IsLine delim l) (t : List α) :
    lines delim (l ++ t) = l :: lines delim t :=
  congrArg Prod.fst (splitLines_line_append hl t)

theorem rest_line_append (hl : IsLine delim l) (t : List α) :
    rest delim (l ++ t) = rest delim t := by
  rw [rest, splitLines_line_append hl]

variable {ls : List (List α)}

/-- Lines at the front of a text are its first lines. -/
theorem splitLines_flatten_append (hls : ∀ l ∈ ls, IsLine delim l) (t : List α) :
    splitLines delim (ls.flatten ++ t) = (ls ++ lines delim t, rest delim t) := by
  induction ls with
  | nil => rfl
  | cons l ls ih =>
    obtain ⟨hl, hls⟩ := forall_mem_cons.mp hls
    rw [flatten_cons, append_assoc, splitLines_line_append hl, lines, rest, ih hls, cons_append]

theorem lines_flatten_append (hls : ∀ l ∈ ls, IsLine delim l) (t : List α) :
    lines delim (ls.flatten ++ t) = ls ++ lines delim t :=
  congrArg Prod.fst (splitLines_flatten_append hls t)

theorem rest_flatten_append (hls : ∀ l ∈ ls, IsLine delim l) (t : List α) :
    rest delim (ls.flatten ++ t) = rest delim t := by
  rw [rest, splitLines_flatten_append hls]

/-- **Decomposition.** Every text is its lines, which are lines, and a rest without delimiter. -/
theorem splitLines_spec (delim : α) (t : List α) : (∀ l ∈ lines delim t, IsLine delim l) ∧
    delim ∉ rest delim t ∧ (lines delim t).flatten ++ rest delim t = t := by
  induction t with
  | nil => simp
  | cons a t ih =>
    obtain ⟨hls, hr, ht⟩ := ih
    unfold lines rest at *
    rw [splitLines]
    by_cases ha : a = delim
    · rw [if_pos ha]
      refine ⟨forall_mem_cons.mpr ⟨⟨[], by simp, by simp [ha]⟩, hls⟩, hr, ?_⟩
      exact congrArg (a :: ·) ht
    rw [if_neg ha]
    -- the letter joins the first line, or the rest if there is none
    cases hl : (splitLines delim t).1 with
    | nil =>
      rw [hl] at ht
      exact ⟨by simp, by simp [Ne.symm ha, hr], congrArg (a :: ·) ht⟩
    | cons l ls =>
      rw [hl] at hls ht
      obtain ⟨⟨body, hbody, rfl⟩, hls'⟩ := forall_mem_cons.mp hls
      refine ⟨forall_mem_cons.mpr ⟨⟨a :: body, by simp [Ne.symm ha, hbody], rfl⟩, hls'⟩, hr, ?_⟩
      exact congrArg (a :: ·) ht

theorem isLine_of_mem (hl : l ∈ lines delim t) : IsLine delim l := (splitLines_spec delim t).1 l hl

theorem delim_notMem_rest (t : List α) : delim ∉ rest delim t := (splitLines_spec delim t).2.1

theorem flatten_lines_append_rest (delim : α) (t : List α) :
    (lines delim t).flatten ++ rest delim t = t :=
  (splitLines_spec delim t).2.2

/-- **Appending** extends the rest and leaves the complete lines as they are. -/
theorem lines_append (t u : List α) :
    lines delim (t ++ u) = lines delim t ++ lines delim (rest delim t ++ u) := by
  conv_lhs => rw [← flatten_lines_append_rest delim t, append_assoc]
  exact lines_flatten_append (fun l hl => isLine_of_mem hl) _

theorem rest_append (t u : List α) : rest delim (t ++ u) = rest delim (rest delim t ++ u) := by
  conv_lhs => rw [← flatten_lines_append_rest delim t, append_assoc]
  exact rest_flatten_append (fun l hl => isLine_of_mem hl) _

theorem lines_prefix_append (t u : List α) : lines delim t <+: lines delim (t ++ u) :=
  ⟨_, (lines_append t u).symm⟩

theorem lines_isPrefix {u : List α} (h : t <+: u) : lines delim t <+: lines delim u := by
  obtain ⟨v, rfl⟩ := h
  exact lines_prefix_append t v

/-! ## Lines consumed

`ls` are lines a reader has consumed of a text: a prefix of its complete lines. -/

section Consumed

variable {ls : List (List α)} {t : List α}

section

variable (h : ls <+: lines delim t)

include h

theorem flatten_isPrefix : ls.flatten <+: t := by
  obtain ⟨ms, hms⟩ := h
  refine ⟨ms.flatten ++ rest delim t, ?_⟩
  rw [← append_assoc, ← flatten_append, hms, flatten_lines_append_rest]

theorem take_length_flatten : t.take ls.flatten.length = ls.flatten :=
  (prefix_iff_eq_take.mp (flatten_isPrefix h)).symm

theorem length_flatten_le : ls.flatten.length ≤ t.length :=
  (flatten_isPrefix h).length_le

/-- The lines after those consumed are the lines of what follows them. -/
theorem lines_eq_append_drop : lines delim t = ls ++ lines delim (t.drop ls.flatten.length) := by
  have hls : ∀ l ∈ ls, IsLine delim l := fun l hl => isLine_of_mem (h.subset hl)
  conv_lhs => rw [← take_append_drop ls.flatten.length t, take_length_flatten h]
  exact lines_flatten_append hls _

/-- The letter before the end of the lines consumed is a delimiter. -/
theorem getElem?_pred_length_flatten (hpos : 0 < ls.flatten.length) :
    t[ls.flatten.length - 1]? = some delim := by
  obtain ⟨u, hu⟩ := flatten_isPrefix h
  rcases eq_nil_or_concat ls with rfl | ⟨ms, l, rfl⟩
  · cases hpos
  obtain ⟨body, -, rfl⟩ : IsLine delim l := isLine_of_mem (h.subset (by simp))
  rw [← hu, getElem?_append_left (by omega)]
  simp [← append_assoc]

/-- How far a reader is tells which lines it has consumed. -/
theorem consumed_unique {ms : List (List α)} (h' : ms <+: lines delim t)
    (hlen : ls.flatten.length = ms.flatten.length) : ls = ms := by
  wlog hle : ls <+: ms generalizing ls ms
  · exact (this h' h hlen.symm ((List.prefix_or_prefix_of_prefix h h').resolve_left hle)).symm
  obtain ⟨ks, rfl⟩ := hle
  cases ks with
  | nil => rw [append_nil]
  | cons k ks =>
    obtain ⟨body, -, rfl⟩ : IsLine delim k := isLine_of_mem (h'.subset (by simp))
    simp at hlen

end

end Consumed

end Lines
