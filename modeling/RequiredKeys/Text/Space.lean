import RequiredKeys.Text.CodePoints

/-!
# White space

The characters that separate words in any script: the space, the tab, everything
that ends a line, and the spaces of other widths.  JSON knows only four of them;
what surrounds a word that a user has typed is judged by this larger class.
-/

namespace RequiredKeys
namespace Space

/-- The code points of the class. -/
def points : CodePoints :=
  [ (0x9, 0xd), (0x20, 0x20), (0x85, 0x85), (0xa0, 0xa0), (0x1680, 0x1680), (0x2000, 0x200a),
    (0x2028, 0x2029), (0x202f, 0x202f), (0x205f, 0x205f), (0x3000, 0x3000)]

def contains (c : Char) : Bool :=
  points.hasChar c

theorem contains_of_isWhitespace {c : Char} (h : c.isWhitespace) : contains c := by
  simp only [Char.isWhitespace, Bool.or_eq_true, decide_eq_true_eq] at h
  rcases h with ((rfl | rfl) | rfl) | rfl <;> rfl

/-- A text without the white space around it. -/
def trim (text : List Char) : List Char :=
  ((text.dropWhile contains).reverse.dropWhile contains).reverse

end Space
end RequiredKeys
