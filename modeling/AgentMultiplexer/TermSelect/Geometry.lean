import Mathlib.Data.List.DropRight
import Mathlib.Order.Interval.Set.LinearOrder

set_option autoImplicit false

/-! # Selections over a viewport

`Select` walks each row from left to right and widens the span of the row while it looks for the
glyphs the span touches. The glyphs it writes are those between the two bounds it ends with, and
these are the nearest boundaries of glyphs around what was selected. -/

namespace AgentMultiplexer.TermSelect

open List

/-! ## The code -/

/-- `Cell`; a text is its bytes. -/
structure Cell where
  text : List UInt8
  width : Int

/-- What is displayed from a column on. -/
structure Glyph where
  x : Nat
  text : List UInt8
  width : Nat

def Glyph.stop (g : Glyph) : Nat := g.x + g.width

/-- The glyph the loop finds at column `x`: a missing cell, a continuation and a glyph that the
    right edge clips are blanks. -/
def glyph (row : List Cell) (cols x : Nat) : Glyph :=
  match row[x]? with
  | some c =>
    if 0 < c.width ∧ c.width ≤ cols - x ∧ c.text ≠ [] then ⟨x, c.text, c.width.toNat⟩
    else ⟨x, [0x20], 1⟩
  | none => ⟨x, [0x20], 1⟩

variable {row : List Cell} {cols x : Nat}

theorem lt_stop : x < (glyph row cols x).stop := by
  fun_cases glyph with
  | case1 c _ hfits => exact Nat.lt_add_of_pos_right (Int.pos_iff_toNat_pos.mp hfits.1)
  | case2 | case3 => exact Nat.lt_succ_self x

/-- The loop over the columns of a row: the bounds it ends with, and the line. -/
def scan (row : List Cell) (cols start stop : Nat) (line : List UInt8) (x : Nat) :
    Nat × Nat × List UInt8 :=
  if x < cols then
    let g := glyph row cols x
    if x < stop ∧ start < g.stop then
      scan row cols (min start x) (max stop g.stop) (line ++ g.text) g.stop
    else scan row cols start stop line g.stop
  else (start, stop, line)
termination_by cols - x
decreasing_by all_goals have := @lt_stop row cols x; omega

/-- A clamped point. -/
@[ext] structure Place where
  x : Nat
  y : Nat

/-- The exchange of the endpoints. -/
def ordered (a b : Place) : Place × Place :=
  if b.y < a.y ∨ a.y = b.y ∧ b.x < a.x then (b, a) else (a, b)

/-- Reading order. -/
def Before (a b : Place) : Prop := a.y < b.y ∨ a.y = b.y ∧ a.x ≤ b.x

/-- The columns of row `y` between two places, in reading order. -/
def touched (cols : Nat) (a b : Place) (y : Nat) : Set Nat :=
  { x | x < cols ∧ Before a ⟨x, y⟩ ∧ Before ⟨x, y⟩ b }

variable {s e start stop : Nat} {line : List UInt8}

variable {a b : Place} {rows : List (List Cell)}

end AgentMultiplexer.TermSelect
