import RequiredKeys.Json.Value
import RequiredKeys.Proofs.Lexeme.Number
import RequiredKeys.Proofs.Lexeme.Quoted
import RequiredKeys.Token.Basic

/-!
# The grammar of documents

`ValueText bytes json` says that `bytes` write `json` under RFC 8259, from the first
byte of the value to the last one.  Members and elements are texts of their own,
with the white space around every token, and neither is ever empty: a comma is
always between two parts.

A document (`DocumentText`) is a row of values.  A container ends by itself; behind
a scalar stands white space, an opening bracket, or nothing.

`Json.tokens` is the meaning of a value as a row of tokens, each with its depth.
-/

namespace RequiredKeys

open Ascii

/-- White space, perhaps none. -/
def Blanks (bytes : List UInt8) : Prop :=
  ∀ b ∈ bytes, isBlank b = true

mutual

/-- A value and its text. -/
inductive ValueText : List UInt8 → Json → Prop
  | null : ValueText Literal.null.bytes .null
  | bool (value : Bool) : ValueText (Literal.bool value).bytes (.bool value)
  | number {bytes : List UInt8} (h : NumberText bytes) :
      ValueText bytes (.number (Json.Reader.asciiText bytes))
  | string {bytes : List UInt8} {text : String} (h : QuotedText bytes text) :
      ValueText bytes (.string text)
  | emptyArray {blanks : List UInt8} (h : Blanks blanks) :
      ValueText (openBracket :: blanks ++ [closeBracket]) (.array [])
  | array {inner : List UInt8} {elements : List Json} (h : ElementsText inner elements) :
      ValueText (openBracket :: inner ++ [closeBracket]) (.array elements)
  | emptyObject {blanks : List UInt8} (h : Blanks blanks) :
      ValueText (openBrace :: blanks ++ [closeBrace]) (.object [])
  | object {inner : List UInt8} {members : List (String × Json)} (h : MembersText inner members) :
      ValueText (openBrace :: inner ++ [closeBrace]) (.object members)

/-- One or more values with commas between them. -/
inductive ElementsText : List UInt8 → List Json → Prop
  | last {before bytes after : List UInt8} {json : Json} (hbefore : Blanks before)
      (hvalue : ValueText bytes json) (hafter : Blanks after) :
      ElementsText (before ++ bytes ++ after) [json]
  | more {before bytes after rest : List UInt8} {json : Json} {elements : List Json}
      (hbefore : Blanks before) (hvalue : ValueText bytes json) (hafter : Blanks after)
      (hrest : ElementsText rest elements) :
      ElementsText (before ++ bytes ++ after ++ comma :: rest) (json :: elements)

/-- One or more members with commas between them.  A member is a string, a colon and
a value. -/
inductive MembersText : List UInt8 → List (String × Json) → Prop
  | last {before key middle inside bytes after : List UInt8} {name : String} {json : Json}
      (hbefore : Blanks before) (hkey : QuotedText key name) (hmiddle : Blanks middle)
      (hinside : Blanks inside) (hvalue : ValueText bytes json) (hafter : Blanks after) :
      MembersText (before ++ key ++ middle ++ colon :: inside ++ bytes ++ after) [(name, json)]
  | more {before key middle inside bytes after rest : List UInt8} {name : String} {json : Json}
      {members : List (String × Json)}
      (hbefore : Blanks before) (hkey : QuotedText key name) (hmiddle : Blanks middle)
      (hinside : Blanks inside) (hvalue : ValueText bytes json) (hafter : Blanks after)
      (hrest : MembersText rest members) :
      MembersText
        (before ++ key ++ middle ++ colon :: inside ++ bytes ++ after ++ comma :: rest)
        ((name, json) :: members)

end

namespace Json

/-- Whether a value has no brackets. -/
def isScalar : Json → Bool
  | array _ => false
  | object _ => false
  | _ => true

end Json

/-- What may stand directly behind a scalar root value. -/
def Separated (bytes : List UInt8) : Prop :=
  ∀ b ∈ bytes.head?, isBlank b = true ∨ b = openBrace ∨ b = openBracket

/-- A row of values, perhaps none, with white space around them. -/
inductive DocumentText : List UInt8 → List Json → Prop
  | blank {bytes : List UInt8} (h : Blanks bytes) : DocumentText bytes []
  | value {before bytes rest : List UInt8} {json : Json} {values : List Json}
      (hbefore : Blanks before) (hvalue : ValueText bytes json)
      (hseparated : json.isScalar = true → Separated rest) (hrest : DocumentText rest values) :
      DocumentText (before ++ bytes ++ rest) (json :: values)

namespace Json

mutual

/-- The tokens of a value that stands inside `depth` containers. -/
def tokens (depth : Nat) : Json → List Token
  | null => [⟨.null, none, depth⟩]
  | bool value => [⟨.bool value, none, depth⟩]
  | number text => [⟨.number, some text, depth⟩]
  | string text => [⟨.string, some text, depth⟩]
  | array elements =>
    ⟨.startOf .array, none, depth⟩ :: elementTokens (depth + 1) elements ++
      [⟨.endOf .array, none, depth⟩]
  | object members =>
    ⟨.startOf .object, none, depth⟩ :: memberTokens (depth + 1) members ++
      [⟨.endOf .object, none, depth⟩]

/-- The tokens of elements, one after the other. -/
def elementTokens (depth : Nat) : List Json → List Token
  | [] => []
  | element :: elements => element.tokens depth ++ elementTokens depth elements

/-- The tokens of members, each with its key in front. -/
def memberTokens (depth : Nat) : List (String × Json) → List Token
  | [] => []
  | (name, value) :: members =>
    ⟨.fieldName, some name, depth⟩ :: value.tokens depth ++ memberTokens depth members

end

/-- The tokens of a whole document. -/
def documentTokens (values : List Json) : List Token :=
  values.flatMap (tokens 0)

@[simp] theorem documentTokens_nil : documentTokens [] = [] := rfl

@[simp] theorem documentTokens_cons (value : Json) (values : List Json) :
    documentTokens (value :: values) = value.tokens 0 ++ documentTokens values := rfl

end Json

/-! ## White space -/

@[simp] theorem blanks_nil : Blanks [] := by
  simp [Blanks]

@[simp] theorem blanks_cons {b : UInt8} {bytes : List UInt8} :
    Blanks (b :: bytes) ↔ isBlank b = true ∧ Blanks bytes := by
  simp [Blanks]

@[simp] theorem blanks_append {left right : List UInt8} :
    Blanks (left ++ right) ↔ Blanks left ∧ Blanks right := by
  simp [Blanks, or_imp, forall_and]

/-- White space in front of a document belongs to it. -/
theorem DocumentText.append_blanks {before bytes : List UInt8} {values : List Json}
    (hbefore : Blanks before) (h : DocumentText bytes values) :
    DocumentText (before ++ bytes) values := by
  cases h with
  | blank hblank => exact .blank (blanks_append.mpr ⟨hbefore, hblank⟩)
  | @value inner bytes rest json values hinner hvalue hseparated hrest =>
      rw [← List.append_assoc, ← List.append_assoc]
      exact .value (blanks_append.mpr ⟨hbefore, hinner⟩) hvalue hseparated hrest

/-- White space in front of elements belongs to them. -/
theorem ElementsText.append_blanks {before bytes : List UInt8} {elements : List Json}
    (hbefore : Blanks before) (h : ElementsText bytes elements) :
    ElementsText (before ++ bytes) elements := by
  cases h with
  | @last inner bytes after json hinner hvalue hafter =>
      rw [← List.append_assoc, ← List.append_assoc]
      exact .last (blanks_append.mpr ⟨hbefore, hinner⟩) hvalue hafter
  | @more inner bytes after rest json elements hinner hvalue hafter hrest =>
      rw [← List.append_assoc, ← List.append_assoc, ← List.append_assoc]
      exact .more (blanks_append.mpr ⟨hbefore, hinner⟩) hvalue hafter hrest

/-- White space in front of members belongs to them. -/
theorem MembersText.append_blanks {before bytes : List UInt8} {members : List (String × Json)}
    (hbefore : Blanks before) (h : MembersText bytes members) :
    MembersText (before ++ bytes) members := by
  cases h with
  | @last inner key middle inside bytes after name json hinner hkey hmiddle hinside hvalue
      hafter =>
      have htext := MembersText.last (blanks_append.mpr ⟨hbefore, hinner⟩) hkey hmiddle hinside
        hvalue hafter
      simpa only [List.append_assoc] using htext
  | @more inner key middle inside bytes after rest name json members hinner hkey hmiddle hinside
      hvalue hafter hrest =>
      have htext := MembersText.more (blanks_append.mpr ⟨hbefore, hinner⟩) hkey hmiddle hinside
        hvalue hafter hrest
      simpa only [List.append_assoc] using htext

/-! ## First bytes -/

namespace Literal

/-- The first byte tells the word. -/
theorem ofFirst?_eq_some_iff {b : UInt8} {literal : Literal} :
    ofFirst? b = some literal ↔ literal.bytes.head? = some b := by
  constructor
  · intro h
    unfold ofFirst? at h
    split at h
    all_goals first
      | simp at h; done
      | obtain rfl := Option.some.inj h
        rfl
  · intro h
    cases literal with
    | bool value => cases value <;> (obtain rfl := Option.some.inj h; rfl)
    | null =>
        obtain rfl := Option.some.inj h
        rfl

end Literal

/-- The bytes that begin values. -/
def beginsValue (b : UInt8) : Bool :=
  b == openBrace || b == openBracket || b == quote || b == minus || isDigit b ||
    (Literal.ofFirst? b).isSome

theorem QuotedText.ne_nil {bytes : List UInt8} {text : String} (h : QuotedText bytes text) :
    bytes ≠ [] := by
  obtain ⟨body, rfl, -⟩ := h
  simp

/-- A value has a first byte, and no other kind of text begins with it. -/
theorem ValueText.exists_cons {bytes : List UInt8} {json : Json} (h : ValueText bytes json) :
    ∃ b tail, bytes = b :: tail ∧ beginsValue b = true := by
  cases h with
  | null => exact ⟨_, _, rfl, rfl⟩
  | bool value => cases value <;> exact ⟨_, _, rfl, rfl⟩
  | number hnumber =>
      obtain ⟨b, tail, rfl⟩ := List.exists_cons_of_ne_nil (numberText_ne_nil hnumber)
      refine ⟨b, tail, rfl, ?_⟩
      rcases numberText_head hnumber with rfl | hdigit
      · rfl
      · simp [beginsValue, hdigit]
  | string hstring =>
      obtain ⟨body, rfl, -⟩ := hstring
      exact ⟨_, _, rfl, rfl⟩
  | emptyArray _ => exact ⟨_, _, rfl, rfl⟩
  | array _ => exact ⟨_, _, rfl, rfl⟩
  | emptyObject _ => exact ⟨_, _, rfl, rfl⟩
  | object _ => exact ⟨_, _, rfl, rfl⟩

theorem ValueText.ne_nil {bytes : List UInt8} {json : Json} (h : ValueText bytes json) :
    bytes ≠ [] := by
  obtain ⟨b, tail, rfl, -⟩ := h.exists_cons
  simp

/-- What begins with an opening bracket is no scalar. -/
theorem ValueText.isScalar_eq_false {b : UInt8} {tail : List UInt8} {json : Json}
    (h : ValueText (b :: tail) json) (hb : b = openBrace ∨ b = openBracket) :
    json.isScalar = false := by
  generalize htext : b :: tail = bytes at h
  have hhead : bytes.head? = some openBrace ∨ bytes.head? = some openBracket := by
    rw [← htext]
    rcases hb with rfl | rfl
    · exact .inl rfl
    · exact .inr rfl
  cases h with
  | null => exact absurd hhead (by decide)
  | bool value => cases value <;> exact absurd hhead (by decide)
  | number hnumber =>
      subst htext
      rcases numberText_head hnumber with rfl | hdigit
      · exact absurd hb (by decide)
      · rcases hb with rfl | rfl <;> exact absurd hdigit (by decide)
  | string hstring =>
      obtain ⟨body, rfl, -⟩ := hstring
      simp only [List.cons_append, List.head?_cons, Option.some.injEq] at hhead
      exact absurd hhead (by decide)
  | emptyArray _ => rfl
  | array _ => rfl
  | emptyObject _ => rfl
  | object _ => rfl

theorem beginsValue_ne {b c : UInt8} (hb : beginsValue b = true) (hc : beginsValue c = false) :
    b ≠ c := by
  rintro rfl
  rw [hb] at hc
  contradiction

theorem isBlank_of_beginsValue {b : UInt8} (h : beginsValue b = true) : isBlank b = false := by
  have hspace : b ≠ space := beginsValue_ne h (by decide)
  have htab : b ≠ tab := beginsValue_ne h (by decide)
  have hlineFeed : b ≠ lineFeed := beginsValue_ne h (by decide)
  have hcarriageReturn : b ≠ carriageReturn := beginsValue_ne h (by decide)
  simp [isBlank, hspace, htab, hlineFeed, hcarriageReturn]

theorem isNumberByte_of_isBlank {b : UInt8} (h : isBlank b = true) : isNumberByte b = false := by
  simp only [isBlank, Bool.or_eq_true, beq_iff_eq] at h
  rcases h with ((rfl | rfl) | rfl) | rfl <;> rfl

/-- No number goes on with white space or with a byte that is none of a number. -/
theorem stops_blanks_append {blanks rest : List UInt8} {c : UInt8} (hblanks : Blanks blanks)
    (hc : isNumberByte c = false) : Stops isNumberByte (blanks ++ c :: rest) := by
  intro b hb
  cases blanks with
  | nil =>
      obtain rfl : c = b := Option.some.inj hb
      exact hc
  | cons d blanks =>
      obtain rfl : d = b := Option.some.inj hb
      exact isNumberByte_of_isBlank (blanks_cons.mp hblanks).1

end RequiredKeys
