import RequiredKeys.Lexeme.Number
import RequiredKeys.Lexeme.Quoted
import RequiredKeys.Token.Gap

/-!
# The tokenizer

A tokenizer turns a feed into tokens, one per pull, without building a tree.
A pull crosses the gap in front of the next token and reads that token; the
first of the two scans that fails decides the error.

A failed pull changes no more than what it has read.  Bytes taken stay taken, a
half-read token is dropped, and the next pull goes on where the failed one
stopped.  The demand for a separator behind a scalar root value is made of the
next pull only.

Any number of root values may follow one another in a document.
-/

namespace RequiredKeys

structure Tokenizer where
  cursor : Cursor
  nesting : Nesting := []
  /-- Set when the last pull gave a scalar root value. -/
  separatorDue : Bool := false
  /-- The token that the last pull gave, if it gave one. -/
  current : Option Token := none
  deriving DecidableEq, Repr, Inhabited

/-- What became of reading one token, and what is open behind it. -/
structure TokenRead where
  result : Except StreamError Token
  nesting : Nesting
  cursor : Cursor

namespace TokenStart

/-- Whether the token is a value without parts. -/
def isScalar : TokenStart → Bool
  | enter _ => false
  | exit => false
  | key => false
  | string => true
  | number => true
  | literal _ => true

/-- A token that `scan` read as a whole: `token` makes it from the text. -/
def ofScan {σ α : Type} (scan : Scan σ α) (nesting : Nesting) (token : α → Token) : TokenRead :=
  ⟨scan.result.map token, nesting, scan.cursor⟩

/-- Reads the token that begins at the cursor. -/
def read (start : TokenStart) (nesting : Nesting) (cursor : Cursor) : TokenRead :=
  match start with
  | enter container =>
    let (token, inner) := nesting.enter container
    ⟨.ok token, inner, cursor⟩
  | exit =>
    match nesting.exit with
    | .ok (token, outer) => ⟨.ok token, outer, cursor⟩
    | .error refusal => ⟨.error (refusal.seenAt cursor.position), nesting, cursor⟩
  | key =>
    let scan := PartialQuoted.scanner.run {} cursor
    match scan.result with
    | .ok name =>
      ⟨.ok ⟨.fieldName, some name, nesting.length⟩, nesting.expect .colon, scan.cursor⟩
    | .error error => ⟨.error error, nesting, scan.cursor⟩
  | string =>
    ofScan (PartialQuoted.scanner.run {} cursor) nesting
      (fun text => ⟨.string, some text, nesting.length⟩)
  | number =>
    ofScan (PartialNumber.scanner.run {} cursor) nesting
      (fun text => ⟨.number, some text, nesting.length⟩)
  | literal (.bool value) =>
    ofScan ((Literal.bool value).scanner.run (Literal.bool value).bytes cursor) nesting
      (fun _ => ⟨.bool value, none, nesting.length⟩)
  | literal .null =>
    ofScan (Literal.null.scanner.run Literal.null.bytes cursor) nesting
      (fun _ => ⟨.null, none, nesting.length⟩)

end TokenStart

namespace Tokenizer

/-- A tokenizer before the first byte of a feed. -/
def ofFeed (feed : Feed) : Tokenizer :=
  { cursor := { feed := feed } }

/-- A tokenizer over a document whose reads never fail. -/
def ofBytes (document : List UInt8) : Tokenizer :=
  ofFeed (Feed.ofBytes document)

/-- The number of open containers. -/
def depth (tokenizer : Tokenizer) : Nat :=
  tokenizer.nesting.length

def position (tokenizer : Tokenizer) : Position :=
  tokenizer.cursor.position

/-- Crosses the gap in front of the next token. -/
def crossGap (tokenizer : Tokenizer) : Scan Gap (Option TokenStart) :=
  Gap.scanner.run ⟨tokenizer.nesting, tokenizer.separatorDue⟩ tokenizer.cursor

/-- Reads the next token; the result is `none` at the end of the input. -/
def pull (tokenizer : Tokenizer) : Except StreamError (Option Token) × Tokenizer :=
  let gap := tokenizer.crossGap
  match gap.result with
  | .error error => (.error error, ⟨gap.cursor, gap.state.nesting, false, none⟩)
  | .ok none => (.ok none, ⟨gap.cursor, gap.state.nesting, false, none⟩)
  | .ok (some start) =>
    let read := start.read gap.state.nesting gap.cursor
    match read.result with
    | .error error => (.error error, ⟨read.cursor, read.nesting, false, none⟩)
    | .ok token =>
      (.ok (some token),
        ⟨read.cursor, read.nesting, start.isScalar && read.nesting.isEmpty, some token⟩)

end Tokenizer
end RequiredKeys
