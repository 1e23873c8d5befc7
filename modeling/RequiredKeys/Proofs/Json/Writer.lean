import RequiredKeys.Json.Writer
import RequiredKeys.Proofs.Json.Grammar

/-!
# What the writer writes

The compact text of a value is a text of the grammar, and of this value
(`valueText_compact`).  It holds no control character (`unbroken_compact`), so it stays on its
line whatever its strings hold.

Both go by induction on the value.  The only condition is on numbers, which are kept as texts:
`Writable` asks that these are number texts, and counts always are.
-/

namespace RequiredKeys

open Ascii

/-! ## Texts without control characters -/

/-- A text without control characters, and so on one line. -/
def Unbroken (text : String) : Prop :=
  ∀ c ∈ text.toList, 0x20 ≤ c.toNat

instance (text : String) : Decidable (Unbroken text) :=
  List.decidableBAll (fun c : Char => 0x20 ≤ c.toNat) text.toList

theorem Unbroken.append {left right : String} (hleft : Unbroken left) (hright : Unbroken right) :
    Unbroken (left ++ right) := by
  intro c hc
  rw [String.toList_append, List.mem_append] at hc
  exact hc.elim (hleft c) (hright c)

theorem Unbroken.lineFeed_not_mem {text : String} (h : Unbroken text) : '\n' ∉ text.toList := by
  intro hmem
  exact absurd (h '\n' hmem) (by decide)

/-! ## Numbers -/

/-- The bytes of a decimal number. -/
def decimalBytes (n : Nat) : List UInt8 :=
  (Nat.toDigits 10 n).map (fun c => c.toNat.toUInt8)

theorem decimalBytes_of_lt {n : Nat} (h : n < 10) : decimalBytes n = [(n + 0x30).toUInt8] := by
  have hdigit : ∀ digit < 10, (Nat.digitChar digit).toNat.toUInt8 = (digit + 0x30).toUInt8 := by
    decide
  rw [decimalBytes, Nat.toDigits_of_lt_base h, List.map_singleton, hdigit n h]

theorem decimalBytes_of_le {n : Nat} (h : 10 ≤ n) :
    decimalBytes n = decimalBytes (n / 10) ++ decimalBytes (n % 10) := by
  rw [decimalBytes, Nat.toDigits_of_base_le (by decide) h, List.map_append,
    ← Nat.toDigits_of_lt_base (show n % 10 < 10 from Nat.mod_lt n (by decide))]
  rfl

theorem isDigit_of_lt {n : Nat} (h : n < 10) : isDigit (n + 0x30).toUInt8 = true := by
  have hdigit : ∀ digit < 10, isDigit (digit + 0x30).toUInt8 = true := by decide
  exact hdigit n h

/-- A decimal number other than zero does not begin with the digit zero. -/
theorem digits_decimalBytes (n : Nat) :
    Digits (decimalBytes n) ∧ (n ≠ 0 → (decimalBytes n).head? ≠ some zero) := by
  induction n using Nat.strongRecOn with
  | ind n ih =>
      by_cases hsmall : n < 10
      · rw [decimalBytes_of_lt hsmall]
        refine ⟨digits_cons.mpr ⟨isDigit_of_lt hsmall, anyDigits_nil⟩, ?_⟩
        have hdigit : ∀ digit < 10, digit ≠ 0 → some (digit + 0x30).toUInt8 ≠ some zero := by decide
        exact hdigit n hsmall
      · obtain ⟨⟨hne, hfront⟩, hhead⟩ := ih (n / 10) (by omega)
        have hlast := Nat.mod_lt n (show 10 > 0 by decide)
        rw [decimalBytes_of_le (by omega), decimalBytes_of_lt hlast]
        refine ⟨⟨List.append_ne_nil_of_left_ne_nil hne _, ?_⟩, ?_⟩
        · intro b hb
          obtain hb | hb := List.mem_append.mp hb
          · exact hfront b hb
          · obtain rfl := List.mem_singleton.mp hb
            exact isDigit_of_lt hlast
        · intro _
          rw [List.head?_append, Option.or_of_isSome (by simpa using hne)]
          exact hhead (by omega)

theorem numberText_decimalBytes (n : Nat) : NumberText (decimalBytes n) := by
  have hwhole : WholePart (decimalBytes n) := by
    by_cases hzero : n = 0
    · subst hzero
      exact .inl (decimalBytes_of_lt (by decide))
    · exact .inr ⟨(digits_decimalBytes n).1, (digits_decimalBytes n).2 hzero⟩
  exact ⟨[], decimalBytes n, rfl, .inl rfl, decimalBytes n, [], (List.append_nil _).symm, hwhole,
    [], [], rfl, .inl rfl, .inl rfl⟩

theorem asciiText_decimalBytes (n : Nat) : Json.Reader.asciiText (decimalBytes n) = toString n := by
  have hchar (c : Char) (hc : c ∈ Nat.toDigits 10 n) :
      (Char.ofUInt8 ∘ fun c => c.toNat.toUInt8) c = id c := by
    have hdigit := Nat.isDigit_of_mem_toDigits (by decide) (by decide) hc
    simp only [Char.isDigit, Bool.and_eq_true, decide_eq_true_eq, UInt32.le_iff_toNat_le] at hdigit
    have hsmall : c.toNat ≤ 57 := hdigit.2
    exact ofUInt8_toUInt8 (by omega)
  rw [Json.Reader.asciiText, decimalBytes, List.map_map, List.map_congr_left hchar, List.map_id,
    Nat.toString_eq_ofList_toDigits]

theorem unbroken_asciiText {bytes : List UInt8} (h : NumberText bytes) :
    Unbroken (Json.Reader.asciiText bytes) := by
  intro c hc
  rw [Json.Reader.asciiText, String.toList_ofList] at hc
  obtain ⟨b, hb, rfl⟩ := List.mem_map.mp hc
  exact (bounds_of_isNumberByte (isNumberByte_of_mem h hb)).1

namespace Json
open Writer

/-! ## Strings -/

/-- A hexadecimal digit is one byte and has its value. -/
theorem hexValue?_hexDigit : ∀ n < 16,
    String.utf8EncodeChar (hexDigit n) = [(hexDigit n).toNat.toUInt8] ∧
      hexValue? (hexDigit n).toNat.toUInt8 = some n := by
  decide

theorem hexUnit_control {c : Char} (h : c.toNat < 0x20) :
    HexUnit (encoded ['0', '0', hexDigit (c.toNat / 16), hexDigit (c.toNat % 16)]) c.toNat := by
  obtain ⟨hhighByte, hhigh⟩ := hexValue?_hexDigit (c.toNat / 16) (by omega)
  obtain ⟨hlowByte, hlow⟩ := hexValue?_hexDigit (c.toNat % 16) (by omega)
  refine ⟨0x30, 0x30, _, _, 0, 0, _, _, ?_, rfl, rfl, hhigh, hlow, by omega⟩
  simp only [encoded_cons, encoded_nil, hhighByte, hlowByte]
  rfl

theorem spelling_charText {c : Char} {source : List UInt8} {chars : List Char}
    (h : Spelling source chars) : Spelling (encoded (charText c) ++ source) (c :: chars) := by
  unfold charText
  split
  · exact .escaped (.short (by decide)) h
  · exact .escaped (.short (by decide)) h
  · exact .escaped (.short (by decide)) h
  · exact .escaped (.short (by decide)) h
  · exact .escaped (.short (by decide)) h
  · exact .escaped (.short (by decide)) h
  · exact .escaped (.short (by decide)) h
  · next hquote hbackslash _ _ _ _ _ =>
      split
      · next hcontrol => exact .escaped (.unit (hexUnit_control hcontrol)) h
      · next hcontrol =>
          rw [encoded_cons, encoded_nil, List.append_nil]
          exact .plain hquote hbackslash (by omega) h

theorem spelling_flatMap_charText (chars : List Char) :
    Spelling (encoded (chars.flatMap charText)) chars := by
  induction chars with
  | nil => exact .nil
  | cons c chars ih =>
      rw [List.flatMap_cons, encoded_append]
      exact spelling_charText ih

theorem quotedText_stringText (text : String) :
    QuotedText (encoded (stringText text).toList) text := by
  refine ⟨encoded (text.toList.flatMap charText), ?_, spelling_flatMap_charText text.toList⟩
  rw [stringText, String.toList_ofList, List.cons_append, encoded_cons, encoded_append]
  rfl

theorem charText_printed (c : Char) : ∀ d ∈ charText c, 0x20 ≤ d.toNat := by
  have hhex : ∀ n < 16, 0x20 ≤ (hexDigit n).toNat := by decide
  unfold charText
  split
  · simp
  · simp
  · simp
  · simp
  · simp
  · simp
  · simp
  · split
    · next hcontrol =>
        have hhigh := hhex (c.toNat / 16) (by omega)
        have hlow := hhex (c.toNat % 16) (by omega)
        simp [hhigh, hlow]
    · next hcontrol =>
        intro d hd
        obtain rfl := List.mem_singleton.mp hd
        omega

theorem unbroken_stringText (text : String) : Unbroken (stringText text) := by
  intro c hc
  rw [stringText, String.toList_ofList] at hc
  simp only [List.cons_append, List.mem_cons, List.mem_append, List.mem_flatMap, List.not_mem_nil,
    or_false] at hc
  rcases hc with rfl | ⟨d, -, hc⟩ | rfl
  · decide
  · exact charText_printed d c hc
  · decide

/-! ## Values -/

/-- A value whose numbers are number texts. -/
inductive Writable : Json → Prop
  | null : Writable .null
  | bool (value : Bool) : Writable (.bool value)
  | number {bytes : List UInt8} (h : NumberText bytes) : Writable (.number (Reader.asciiText bytes))
  | string (text : String) : Writable (.string text)
  | array {elements : List Json} (h : ∀ element ∈ elements, Writable element) :
      Writable (.array elements)
  | object {members : List (String × Json)} (h : ∀ member ∈ members, Writable member.2) :
      Writable (.object members)

@[simp] theorem writable_bool (value : Bool) : Writable (.bool value) := .bool value

@[simp] theorem writable_string (text : String) : Writable (.string text) := .string text

@[simp] theorem writable_object_nil : Writable (.object []) :=
  .object (List.forall_mem_nil _)

@[simp] theorem writable_object_cons {key : String} {value : Json}
    {members : List (String × Json)} :
    Writable (.object ((key, value) :: members)) ↔ Writable value ∧ Writable (.object members) := by
  constructor
  · intro h
    cases h with
    | object h =>
        obtain ⟨hvalue, hmembers⟩ := List.forall_mem_cons.mp h
        exact ⟨hvalue, .object hmembers⟩
  · rintro ⟨hvalue, h⟩
    cases h with
    | object hmembers => exact .object (List.forall_mem_cons.mpr ⟨hvalue, hmembers⟩)

@[simp] theorem writable_ofNat (n : Nat) : Writable (.ofNat n) := by
  rw [ofNat, ← asciiText_decimalBytes]
  exact .number (numberText_decimalBytes n)

@[simp] theorem writable_ofStrings (strings : List String) : Writable (.ofStrings strings) := by
  refine .array ?_
  intro element helement
  obtain ⟨text, -, rfl⟩ := List.mem_map.mp helement
  exact .string text

@[simp] theorem utf8EncodeChar_comma : String.utf8EncodeChar ',' = [comma] := rfl

@[simp] theorem utf8EncodeChar_colon : String.utf8EncodeChar ':' = [colon] := rfl

theorem compactElements_cons (element : Json) {rest : List Json} (hne : rest ≠ []) :
    compactElements (element :: rest) = element.compact ++ "," ++ compactElements rest := by
  rw [compactElements]
  exact hne

theorem compactMembers_cons (key : String) (value : Json) {rest : List (String × Json)}
    (hne : rest ≠ []) : compactMembers ((key, value) :: rest) =
      stringText key ++ ":" ++ value.compact ++ "," ++ compactMembers rest := by
  rw [compactMembers]
  exact hne

theorem elementsText_compactElements {elements : List Json} (hne : elements ≠ [])
    (h : ∀ element ∈ elements, ValueText (encoded element.compact.toList) element) :
    ElementsText (encoded (compactElements elements).toList) elements := by
  induction elements with
  | nil => contradiction
  | cons element rest ih =>
      obtain ⟨hvalue, hvalues⟩ := List.forall_mem_cons.mp h
      by_cases hrest : rest = []
      · subst hrest
        simpa [compactElements] using ElementsText.last blanks_nil hvalue blanks_nil
      · have htext := ElementsText.more blanks_nil hvalue blanks_nil (ih hrest hvalues)
        simpa [compactElements_cons element hrest] using htext

theorem membersText_compactMembers {members : List (String × Json)} (hne : members ≠ [])
    (h : ∀ member ∈ members, ValueText (encoded member.2.compact.toList) member.2) :
    MembersText (encoded (compactMembers members).toList) members := by
  induction members with
  | nil => contradiction
  | cons member rest ih =>
      obtain ⟨hvalue, hvalues⟩ := List.forall_mem_cons.mp h
      obtain ⟨key, value⟩ := member
      have hkey := quotedText_stringText key
      by_cases hrest : rest = []
      · subst hrest
        have htext := MembersText.last blanks_nil hkey blanks_nil blanks_nil hvalue blanks_nil
        simpa [compactMembers] using htext
      · have htext := MembersText.more blanks_nil hkey blanks_nil blanks_nil hvalue blanks_nil
          (ih hrest hvalues)
        simpa [compactMembers_cons key value hrest] using htext

/-- **The compact text of a value writes this value.** -/
theorem valueText_compact {json : Json} (h : Writable json) :
    ValueText (encoded json.compact.toList) json := by
  induction h with
  | null => exact .null
  | bool value =>
      cases value with
      | false => exact .bool false
      | true => exact .bool true
  | number hnumber =>
      rw [compact, encoded_asciiText hnumber]
      exact .number hnumber
  | string text => exact .string (quotedText_stringText text)
  | @array elements _ ih =>
      have htext : encoded (array elements).compact.toList =
          openBracket :: encoded (compactElements elements).toList ++ [closeBracket] := by
        rw [compact, String.toList_append, String.toList_append, encoded_append, encoded_append]
        rfl
      rw [htext]
      by_cases hne : elements = []
      · subst hne
        exact .emptyArray blanks_nil
      · exact .array (elementsText_compactElements hne ih)
  | @object members _ ih =>
      have htext : encoded (object members).compact.toList =
          openBrace :: encoded (compactMembers members).toList ++ [closeBrace] := by
        rw [compact, String.toList_append, String.toList_append, encoded_append, encoded_append]
        rfl
      rw [htext]
      by_cases hne : members = []
      · subst hne
        exact .emptyObject blanks_nil
      · exact .object (membersText_compactMembers hne ih)

theorem unbroken_compactElements {elements : List Json}
    (h : ∀ element ∈ elements, Unbroken element.compact) : Unbroken (compactElements elements) := by
  induction elements with
  | nil => decide
  | cons element rest ih =>
      obtain ⟨hvalue, hvalues⟩ := List.forall_mem_cons.mp h
      by_cases hrest : rest = []
      · subst hrest
        exact hvalue
      · rw [compactElements_cons element hrest]
        exact (hvalue.append (by decide)).append (ih hvalues)

theorem unbroken_compactMembers {members : List (String × Json)}
    (h : ∀ member ∈ members, Unbroken member.2.compact) : Unbroken (compactMembers members) := by
  induction members with
  | nil => decide
  | cons member rest ih =>
      obtain ⟨hvalue, hvalues⟩ := List.forall_mem_cons.mp h
      obtain ⟨key, value⟩ := member
      have hmember := ((unbroken_stringText key).append (by decide : Unbroken ":")).append hvalue
      by_cases hrest : rest = []
      · subst hrest
        exact hmember
      · rw [compactMembers_cons key value hrest]
        exact (hmember.append (by decide)).append (ih hvalues)

/-- **The compact text of a value stays on one line.** -/
theorem unbroken_compact {json : Json} (h : Writable json) : Unbroken json.compact := by
  induction h with
  | null => exact (by decide : Unbroken "null")
  | bool value =>
      cases value with
      | false => exact (by decide : Unbroken "false")
      | true => exact (by decide : Unbroken "true")
  | number hnumber => exact unbroken_asciiText hnumber
  | string text => exact unbroken_stringText text
  | array _ ih =>
      rw [compact]
      exact ((by decide : Unbroken "[").append (unbroken_compactElements ih)).append (by decide)
  | object _ ih =>
      rw [compact]
      exact ((by decide : Unbroken "\x7b").append (unbroken_compactMembers ih)).append (by decide)

end Json
end RequiredKeys
