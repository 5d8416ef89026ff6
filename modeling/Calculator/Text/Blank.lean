import Calculator.Text.CodeRanges

/-!
# White space

The Unicode property White_Space: 25 characters in ten ranges.  The characters
core calls white space are four of them.
-/

namespace Calculator.Text

/-- The code points with the property. -/
def blankRanges : CodeRanges :=
  [(0x09, 0x0D), (0x20, 0x20), (0x85, 0x85), (0xA0, 0xA0), (0x1680, 0x1680),
   (0x2000, 0x200A), (0x2028, 0x2029), (0x202F, 0x202F), (0x205F, 0x205F), (0x3000, 0x3000)]

/-- Whether a character is white space. -/
def isBlank (c : Char) : Bool := blankRanges.contains c

/-- The table is ordered and has 25 characters. -/
example : blankRanges.isOrdered = true ∧ blankRanges.size = 25 := by decide

/-- What core calls white space is white space. -/
theorem isBlank_of_isWhitespace {c : Char} (h : c.isWhitespace) : isBlank c := by
  simp only [Char.isWhitespace, Bool.or_eq_true, decide_eq_true_eq] at h
  rcases h with ((h | h) | h) | h <;> subst h <;> decide

end Calculator.Text
