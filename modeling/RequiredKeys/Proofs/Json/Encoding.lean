import RequiredKeys.Proofs.Json.Grammar

/-!
# Documents are UTF-8

Both readers go through a document byte by byte, and only the inside of a string is ever decoded.
So it is a fact about the grammar that every document is UTF-8 as a whole: what stands outside of
strings is ASCII, and what stands inside of them is decoded or is an escape, which is ASCII too.

`ValueText.isEncoded` and `DocumentText.isEncoded` go by induction over the grammar.
-/

namespace RequiredKeys

open Ascii

/-- The bytes are the UTF-8 form of some characters. -/
def IsEncoded (bytes : List UInt8) : Prop :=
  ∃ chars, bytes = encoded chars

theorem isEncoded_iff {bytes : List UInt8} :
    IsEncoded bytes ↔ ∃ text, String.fromUTF8? bytes.toByteArray = some text := by
  constructor
  · rintro ⟨chars, rfl⟩
    refine ⟨String.ofList chars, fromUTF8?_eq_some_iff.mpr ?_⟩
    rw [String.toList_ofList]
  · rintro ⟨text, htext⟩
    exact ⟨text.toList, fromUTF8?_eq_some_iff.mp htext⟩

namespace IsEncoded

theorem encoded (chars : List Char) : IsEncoded (RequiredKeys.encoded chars) :=
  ⟨chars, rfl⟩

theorem append {left right : List UInt8} (hleft : IsEncoded left) (hright : IsEncoded right) :
    IsEncoded (left ++ right) := by
  obtain ⟨before, rfl⟩ := hleft
  obtain ⟨behind, rfl⟩ := hright
  exact ⟨before ++ behind, (encoded_append before behind).symm⟩

theorem ascii {bytes : List UInt8} (h : ∀ b ∈ bytes, b.toNat < 0x80) : IsEncoded bytes :=
  ⟨bytes.map Char.ofUInt8, (encoded_map_ofUInt8 h).symm⟩

theorem singleton {b : UInt8} (h : b.toNat < 0x80) : IsEncoded [b] :=
  ascii (by simpa using h)

theorem cons {b : UInt8} {bytes : List UInt8} (hb : b.toNat < 0x80) (h : IsEncoded bytes) :
    IsEncoded (b :: bytes) :=
  (singleton hb).append h

end IsEncoded

/-! ## Lexemes -/

theorem Blanks.isEncoded {bytes : List UInt8} (h : Blanks bytes) : IsEncoded bytes := by
  apply IsEncoded.ascii
  intro b hb
  have hblank := h b hb
  simp only [isBlank, Bool.or_eq_true, beq_iff_eq] at hblank
  rcases hblank with ((rfl | rfl) | rfl) | rfl <;> decide

theorem NumberText.isEncoded {bytes : List UInt8} (h : NumberText bytes) : IsEncoded bytes :=
  ⟨_, (encoded_asciiText h).symm⟩

theorem Literal.isEncoded_bytes (literal : Literal) : IsEncoded literal.bytes := by
  have hall : literal.bytes.all (fun b => decide (b.toNat < 0x80)) = true := by
    match literal with
    | .null => rfl
    | .bool true => rfl
    | .bool false => rfl
  apply IsEncoded.ascii
  intro b hb
  exact of_decide_eq_true (List.all_eq_true.mp hall b hb)

theorem HexUnit.ascii {digits : List UInt8} {value : Nat} (h : HexUnit digits value) :
    ∀ b ∈ digits, b.toNat < 0x80 := by
  have hdigit {b : UInt8} {digit : Nat} (hb : hexValue? b = some digit) : b.toNat < 0x80 := by
    have hvalue := hexValue?_eq_some_iff.mp hb
    simp only [Char.reduceToNat] at hvalue
    omega
  obtain ⟨a, b, c, d, w, x, y, z, rfl, ha, hb, hc, hd, -⟩ := h
  simp [hdigit ha, hdigit hb, hdigit hc, hdigit hd]

theorem EscapeText.isEncoded {escape : List UInt8} {c : Char} (h : EscapeText escape c) :
    IsEncoded escape := by
  have hshort : ∀ pair ∈ shortEscapes, pair.1.toNat < 0x80 := by decide
  cases h with
  | short hletter => exact .singleton (hshort _ hletter)
  | unit hdigits => exact .cons (by decide) (.ascii hdigits.ascii)
  | pair hdigits _ hmore _ _ =>
      have hlow : IsEncoded (backslash :: lowerU :: _) :=
        .cons (by decide) (.cons (by decide) (.ascii hmore.ascii))
      exact .cons (by decide) ((IsEncoded.ascii hdigits.ascii).append hlow)

theorem Spelling.isEncoded {source : List UInt8} {chars : List Char} (h : Spelling source chars) :
    IsEncoded source := by
  induction h with
  | nil => exact .encoded []
  | @plain c source chars _ _ _ _ ih =>
      have hchar : IsEncoded (String.utf8EncodeChar c) := ⟨[c], by simp⟩
      exact hchar.append ih
  | escaped hescape _ ih => exact .cons (by decide) (hescape.isEncoded.append ih)

theorem QuotedText.isEncoded {bytes : List UInt8} {text : String} (h : QuotedText bytes text) :
    IsEncoded bytes := by
  obtain ⟨body, rfl, hbody⟩ := h
  exact .cons (by decide) (hbody.isEncoded.append (.singleton (by decide)))

/-! ## Values and documents -/

/-- Brackets around a text. -/
theorem IsEncoded.enclosed {opener closer : UInt8} {inner : List UInt8} (h : IsEncoded inner)
    (hopener : opener.toNat < 0x80) (hcloser : closer.toNat < 0x80) :
    IsEncoded (opener :: inner ++ [closer]) :=
  (IsEncoded.cons hopener h).append (.singleton hcloser)

mutual

theorem ValueText.isEncoded {bytes : List UInt8} {json : Json} (h : ValueText bytes json) :
    IsEncoded bytes := by
  cases h with
  | null => exact Literal.null.isEncoded_bytes
  | bool value => exact (Literal.bool value).isEncoded_bytes
  | number hnumber => exact hnumber.isEncoded
  | string hstring => exact hstring.isEncoded
  | emptyArray hblanks => exact hblanks.isEncoded.enclosed (by decide) (by decide)
  | array helements => exact helements.isEncoded.enclosed (by decide) (by decide)
  | emptyObject hblanks => exact hblanks.isEncoded.enclosed (by decide) (by decide)
  | object hmembers => exact hmembers.isEncoded.enclosed (by decide) (by decide)

theorem ElementsText.isEncoded {bytes : List UInt8} {elements : List Json}
    (h : ElementsText bytes elements) : IsEncoded bytes := by
  cases h with
  | last hbefore hvalue hafter =>
      exact (hbefore.isEncoded.append hvalue.isEncoded).append hafter.isEncoded
  | more hbefore hvalue hafter hrest =>
      have helement := (hbefore.isEncoded.append hvalue.isEncoded).append hafter.isEncoded
      exact helement.append (.cons (by decide) hrest.isEncoded)

theorem MembersText.isEncoded {bytes : List UInt8} {members : List (String × Json)}
    (h : MembersText bytes members) : IsEncoded bytes := by
  have hmember {before key middle inside value after : List UInt8} {name : String}
      (hbefore : Blanks before) (hkey : QuotedText key name) (hmiddle : Blanks middle)
      (hinside : Blanks inside) (hvalue : IsEncoded value) (hafter : Blanks after) :
      IsEncoded (before ++ key ++ middle ++ colon :: inside ++ value ++ after) := by
    have hname := (hbefore.isEncoded.append hkey.isEncoded).append hmiddle.isEncoded
    have hcolon := hname.append (.cons (b := colon) (by decide) hinside.isEncoded)
    exact (hcolon.append hvalue).append hafter.isEncoded
  cases h with
  | last hbefore hkey hmiddle hinside hvalue hafter =>
      exact hmember hbefore hkey hmiddle hinside hvalue.isEncoded hafter
  | more hbefore hkey hmiddle hinside hvalue hafter hrest =>
      have hfirst := hmember hbefore hkey hmiddle hinside hvalue.isEncoded hafter
      exact hfirst.append (.cons (by decide) hrest.isEncoded)

end

/-- **Every document is UTF-8.** -/
theorem DocumentText.isEncoded {bytes : List UInt8} {values : List Json}
    (h : DocumentText bytes values) : IsEncoded bytes := by
  induction h with
  | blank hblanks => exact hblanks.isEncoded
  | value hbefore hvalue _ _ ih => exact (hbefore.isEncoded.append hvalue.isEncoded).append ih

end RequiredKeys
