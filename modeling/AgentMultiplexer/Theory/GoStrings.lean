import Mathlib.Algebra.Order.Ring.Nat

set_option autoImplicit false

/-! # The `strings` functions of Go

List-level definitions of the few functions of Go's `strings` package the model calls, so that they
evaluate in the kernel. Go strings that are not valid UTF-8 have no counterpart here. -/

namespace GoStrings

open List

/-- `unicode.IsSpace`: the ASCII and Latin-1 spaces and the rest of the White_Space property. -/
def isSpace (c : Char) : Bool :=
  (9 ≤ c.toNat && c.toNat ≤ 13) || c.toNat = 0x20 || c.toNat = 0x85 || c.toNat = 0xA0 ||
    c.toNat = 0x1680 || (0x2000 ≤ c.toNat && c.toNat ≤ 0x200A) || c.toNat = 0x2028 ||
    c.toNat = 0x2029 || c.toNat = 0x202F || c.toNat = 0x205F || c.toNat = 0x3000

def trimSpace (s : String) : String :=
  String.ofList (((s.toList.dropWhile isSpace).reverse.dropWhile isSpace).reverse)

theorem dropWhile_isSpace {cs : List Char} (h : cs.head?.any isSpace = false) :
    cs.dropWhile isSpace = cs := by
  cases cs with
  | nil => rfl
  | cons c cs => simp_all

theorem trimSpace_eq_self {s : String} (hfirst : s.toList.head?.any isSpace = false)
    (hlast : s.toList.getLast?.any isSpace = false) : trimSpace s = s := by
  rw [trimSpace, dropWhile_isSpace hfirst, dropWhile_isSpace (by simpa using hlast),
    reverse_reverse, String.ofList_toList]

def containsRune (s : String) (c : Char) : Bool := s.toList.contains c

/-- The characters before each separator, and what follows the last one. -/
def splitChars (sep : Char) : List Char → List (List Char)
  | [] => [[]]
  | c :: cs =>
    if c = sep then [] :: splitChars sep cs
    else
      match splitChars sep cs with
      | [] => [[c]]
      | part :: parts => (c :: part) :: parts

/-- `strings.Split` by a one-character separator. -/
def split (s : String) (sep : Char) : List String :=
  (splitChars sep s.toList).map String.ofList

/-- A list is cut in one way at the first occurrence of a separator. -/
theorem append_sep_inj {α : Type*} {c : α} {xs ys as bs : List α} (hx : c ∉ xs) (hy : c ∉ ys)
    (h : xs ++ c :: as = ys ++ c :: bs) : xs = ys ∧ as = bs := by
  rcases append_eq_append_iff.mp h with ⟨mid, rfl, htail⟩ | ⟨mid, rfl, htail⟩
  · cases mid with
    | nil => simp_all
    | cons m mid => simp_all
  · cases mid with
    | nil => simp_all
    | cons m mid => simp_all

end GoStrings
