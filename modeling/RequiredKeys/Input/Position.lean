import RequiredKeys.Text.Ascii

/-!
# Positions in a document

A position counts lines and columns from one.  The column counts bytes since
the last line feed; no other byte starts a line.
-/

namespace RequiredKeys

structure Position where
  line : Nat := 1
  column : Nat := 1
  deriving DecidableEq, Repr, Inhabited

namespace Position

/-- The position before the first byte of a document. -/
def start : Position := {}

/-- The position behind a byte that stood at `p`. -/
def after (p : Position) (b : UInt8) : Position :=
  if b = Ascii.lineFeed then ⟨p.line + 1, 1⟩ else ⟨p.line, p.column + 1⟩

/-- The position behind a run of bytes that began at `p`. -/
def afterAll (p : Position) (bytes : List UInt8) : Position :=
  bytes.foldl after p

@[simp] theorem afterAll_nil (p : Position) : p.afterAll [] = p := rfl

@[simp] theorem afterAll_cons (p : Position) (b : UInt8) (bytes : List UInt8) :
    p.afterAll (b :: bytes) = (p.after b).afterAll bytes := rfl

theorem afterAll_append (p : Position) (left right : List UInt8) :
    p.afterAll (left ++ right) = (p.afterAll left).afterAll right := by
  simp [afterAll]

end Position
end RequiredKeys
