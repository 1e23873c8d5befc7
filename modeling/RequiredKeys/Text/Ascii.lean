/-!
# Bytes of the JSON alphabet

Documents are read byte by byte, so the grammar's characters are named here as
bytes.  The module also holds the byte classes that several readers share and
the one spelling in which a byte is shown inside a message: `shown` writes any
byte with printable ASCII only, so a message can quote hostile input safely.

What escapes are worth and how messages quote a byte rests on two functions, and
each has a description that does not mention it: `hexValue?_eq_some_iff` gives
the digits of both cases with their values, and `shownAs_iff` the form in which
a byte of each kind is quoted.
-/

namespace RequiredKeys
namespace Ascii

@[match_pattern] abbrev tab : UInt8 := 0x09

@[match_pattern] abbrev lineFeed : UInt8 := 0x0a

@[match_pattern] abbrev carriageReturn : UInt8 := 0x0d

@[match_pattern] abbrev space : UInt8 := 0x20

@[match_pattern] abbrev quote : UInt8 := 0x22

@[match_pattern] abbrev apostrophe : UInt8 := 0x27

@[match_pattern] abbrev plus : UInt8 := 0x2b

@[match_pattern] abbrev comma : UInt8 := 0x2c

@[match_pattern] abbrev minus : UInt8 := 0x2d

@[match_pattern] abbrev point : UInt8 := 0x2e

@[match_pattern] abbrev slash : UInt8 := 0x2f

@[match_pattern] abbrev zero : UInt8 := 0x30

@[match_pattern] abbrev nine : UInt8 := 0x39

@[match_pattern] abbrev colon : UInt8 := 0x3a

@[match_pattern] abbrev upperE : UInt8 := 0x45

@[match_pattern] abbrev openBracket : UInt8 := 0x5b

@[match_pattern] abbrev backslash : UInt8 := 0x5c

@[match_pattern] abbrev closeBracket : UInt8 := 0x5d

@[match_pattern] abbrev lowerB : UInt8 := 0x62

@[match_pattern] abbrev lowerE : UInt8 := 0x65

@[match_pattern] abbrev lowerF : UInt8 := 0x66

@[match_pattern] abbrev lowerN : UInt8 := 0x6e

@[match_pattern] abbrev lowerR : UInt8 := 0x72

@[match_pattern] abbrev lowerT : UInt8 := 0x74

@[match_pattern] abbrev lowerU : UInt8 := 0x75

@[match_pattern] abbrev openBrace : UInt8 := 0x7b

@[match_pattern] abbrev closeBrace : UInt8 := 0x7d

/-- The four characters that may stand around every token. -/
def isBlank (b : UInt8) : Bool :=
  b == space || b == tab || b == lineFeed || b == carriageReturn

theorem between_iff {low b high : UInt8} :
    (low ≤ b && b ≤ high) = true ↔ low.toNat ≤ b.toNat ∧ b.toNat ≤ high.toNat := by
  simp [UInt8.le_iff_toNat_le]

def isDigit (b : UInt8) : Bool :=
  zero ≤ b && b ≤ nine

theorem isDigit_iff {b : UInt8} : isDigit b = true ↔ 0x30 ≤ b.toNat ∧ b.toNat ≤ 0x39 :=
  between_iff

def isExponentMark (b : UInt8) : Bool :=
  b == lowerE || b == upperE

def isSign (b : UInt8) : Bool :=
  b == plus || b == minus

/-- Characters below U+0020 must be escaped inside a string. -/
def isControl (b : UInt8) : Bool :=
  b < space

/-- The value of a hexadecimal digit of either case. -/
def hexValue? (b : UInt8) : Option Nat :=
  if isDigit b then some (b.toNat - 0x30)
  else if 0x41 ≤ b && b ≤ 0x46 then some (b.toNat - 0x41 + 10)
  else if 0x61 ≤ b && b ≤ 0x66 then some (b.toNat - 0x61 + 10)
  else none

/-- The digits have the values from zero to nine, and the letters those from ten to fifteen. -/
theorem hexValue?_eq_some_iff {b : UInt8} {value : Nat} :
    hexValue? b = some value ↔
      (value < 10 ∧ b.toNat = '0'.toNat + value) ∨
        (10 ≤ value ∧ value < 16 ∧
          (b.toNat + 10 = 'A'.toNat + value ∨ b.toNat + 10 = 'a'.toNat + value)) := by
  simp only [hexValue?, isDigit_iff, between_iff, UInt8.reduceToNat, Char.reduceToNat]
  split
  · rw [Option.some.injEq]
    omega
  · split
    · rw [Option.some.injEq]
      omega
    · split
      · rw [Option.some.injEq]
        omega
      · simp only [reduceCtorEq, false_iff]
        omega

/-- Both rows of digits have the values from zero to fifteen. -/
example : "0123456789abcdef".toUTF8.toList.map hexValue? = (List.range 16).map some ∧
    "0123456789ABCDEF".toUTF8.toList.map hexValue? = (List.range 16).map some := by
  decide +kernel

/-- A number in hexadecimal, lower case, without leading zeros. -/
def hexText (n : Nat) : String :=
  String.ofList (Nat.toDigits 16 n)

/-- The digits, in the order of their values. -/
def hexDigits : List Char :=
  "0123456789abcdef".toList

/-- `HexNumeral n digits`: the digits write the number, and the first of them is zero only if it
is the only one. -/
inductive HexNumeral : Nat → List Char → Prop
  | digit {n : Nat} {c : Char} (h : hexDigits[n]? = some c) : HexNumeral n [c]
  | more {n digit : Nat} {digits : List Char} {c : Char} (hpositive : 0 < n)
      (hdigits : HexNumeral n digits) (h : hexDigits[digit]? = some c) :
      HexNumeral (16 * n + digit) (digits ++ [c])

theorem hexDigits_getElem?_eq_some_iff {digit : Nat} {c : Char} :
    hexDigits[digit]? = some c ↔ digit < 16 ∧ c = digit.digitChar := by
  have hall : ∀ digit < 16, hexDigits[digit]? = some digit.digitChar := by decide +kernel
  constructor
  · intro h
    have hdigit : digit < 16 := (List.getElem?_eq_some_iff.mp h).1
    rw [hall digit hdigit, Option.some.injEq] at h
    exact ⟨hdigit, h.symm⟩
  · rintro ⟨hdigit, rfl⟩
    exact hall digit hdigit

/-- There is one numeral for every number. -/
theorem hexNumeral_iff {n : Nat} {digits : List Char} :
    HexNumeral n digits ↔ hexText n = String.ofList digits := by
  rw [hexText, String.ofList_inj]
  constructor
  · intro h
    induction h with
    | digit h =>
        obtain ⟨hdigit, rfl⟩ := hexDigits_getElem?_eq_some_iff.mp h
        exact Nat.toDigits_of_lt_base hdigit
    | more hpositive _ h ih =>
        obtain ⟨hdigit, rfl⟩ := hexDigits_getElem?_eq_some_iff.mp h
        rw [← Nat.toDigits_append_toDigits (by decide) hpositive hdigit, ih,
          Nat.toDigits_of_lt_base hdigit]
  · rintro rfl
    -- The last digit comes off the end, and what is left is a smaller number.
    induction n using Nat.strongRecOn with
    | _ n ih =>
        rw [Nat.toDigits_eq_if (by decide)]
        by_cases hsmall : n < 16
        · rw [if_pos hsmall]
          exact .digit (hexDigits_getElem?_eq_some_iff.mpr ⟨hsmall, rfl⟩)
        · rw [if_neg hsmall]
          have hmore := HexNumeral.more (by omega) (ih (n / 16) (by omega))
            (hexDigits_getElem?_eq_some_iff.mpr ⟨Nat.mod_lt n (by decide), rfl⟩)
          rwa [Nat.div_add_mod] at hmore

/-- The byte as it is quoted in messages: printable ASCII stands for itself, save
that quotes and the backslash get a backslash in front; tab, line feed and
carriage return have their letters; every other byte is given by its number. -/
def shown (b : UInt8) : String :=
  match b with
  | tab => "\\t"
  | lineFeed => "\\n"
  | carriageReturn => "\\r"
  | quote => "\\\""
  | apostrophe => "\\'"
  | backslash => "\\\\"
  | _ =>
    if 0x20 ≤ b && b ≤ 0x7e then String.singleton (Char.ofUInt8 b)
    else "\\u\x7b" ++ hexText b.toNat ++ "\x7d"

/-- The bytes that are quoted by a letter or a mark behind a backslash, with what stands there. -/
def letters : List (UInt8 × Char) :=
  [(tab, 't'), (lineFeed, 'n'), (carriageReturn, 'r'), (quote, '"'), (apostrophe, '\''),
    (backslash, '\\')]

/-- `ShownAs b text`: the form in which a byte of its kind is quoted. -/
inductive ShownAs : UInt8 → String → Prop
  | letter {b : UInt8} {c : Char} (h : (b, c) ∈ letters) : ShownAs b (String.ofList ['\\', c])
  | itself {b : UInt8} {c : Char} (hrange : 0x20 ≤ b.toNat ∧ b.toNat ≤ 0x7e)
      (hletters : ∀ c, (b, c) ∉ letters) (hcode : c.toNat = b.toNat) :
      ShownAs b (String.singleton c)
  | number {b : UInt8} {digits : List Char} (hrange : b.toNat < 0x20 ∨ 0x7e < b.toNat)
      (hletters : ∀ c, (b, c) ∉ letters) (hdigits : HexNumeral b.toNat digits) :
      ShownAs b ("\\u\x7b" ++ String.ofList digits ++ "\x7d")

theorem shown_of_letters {b : UInt8} {c : Char} (h : (b, c) ∈ letters) :
    shown b = String.ofList ['\\', c] := by
  simp only [letters, List.mem_cons, Prod.mk.injEq, List.not_mem_nil, or_false] at h
  rcases h with ⟨rfl, rfl⟩ | ⟨rfl, rfl⟩ | ⟨rfl, rfl⟩ | ⟨rfl, rfl⟩ | ⟨rfl, rfl⟩ | ⟨rfl, rfl⟩ <;> rfl

theorem shown_of_not_letters {b : UInt8} (h : ∀ c, (b, c) ∉ letters) :
    shown b = if 0x20 ≤ b.toNat ∧ b.toNat ≤ 0x7e then String.singleton (Char.ofUInt8 b)
      else "\\u\x7b" ++ hexText b.toNat ++ "\x7d" := by
  unfold shown
  split
  · exact absurd (by decide) (h 't')
  · exact absurd (by decide) (h 'n')
  · exact absurd (by decide) (h 'r')
  · exact absurd (by decide) (h '"')
  · exact absurd (by decide) (h '\'')
  · exact absurd (by decide) (h '\\')
  · simp only [between_iff, UInt8.reduceToNat]

/-- A byte is quoted in one form, which is the form of its kind. -/
theorem shownAs_iff {b : UInt8} {text : String} : ShownAs b text ↔ text = shown b := by
  constructor
  · intro h
    cases h with
    | letter h => exact (shown_of_letters h).symm
    | itself hrange hletters hcode =>
        have hchar : _ = Char.ofUInt8 b := Char.toNat_inj.mp hcode
        rw [shown_of_not_letters hletters, if_pos hrange, hchar]
    | number hrange hletters hdigits =>
        rw [shown_of_not_letters hletters, if_neg (by omega), hexNumeral_iff.mp hdigits]
  · rintro rfl
    by_cases hletters : ∃ c, (b, c) ∈ letters
    · obtain ⟨c, hc⟩ := hletters
      rw [shown_of_letters hc]
      exact .letter hc
    · rw [not_exists] at hletters
      rw [shown_of_not_letters hletters]
      split
      · next hrange => exact .itself hrange hletters rfl
      · next hrange => exact .number (by omega) hletters (hexNumeral_iff.mpr rfl)

end Ascii
end RequiredKeys
