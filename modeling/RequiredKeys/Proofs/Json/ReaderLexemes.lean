import RequiredKeys.Json.Reader
import RequiredKeys.Proofs.Json.Grammar

/-!
# Strings and numbers of the reader

The recursive reader and the scanners of the tokenizer share no code for strings and
numbers, but they share the grammar.  This module is the reader's half of that.

* `string_eq_some_iff`: what is read behind a quote is a spelling and the closing
  quote.  Strings end by themselves, so each function has an equivalence.
* `numberText_sound` and `numberText_complete`: what is read as a number is a number
  text, and every number text is read as a whole if no byte of a number follows.
-/

namespace RequiredKeys
namespace Json
namespace Reader

open Ascii

/-! ## White space -/

theorem skipBlanks_cons_of_blank {b : UInt8} {rest : List UInt8} (h : isBlank b = true) :
    skipBlanks (b :: rest) = skipBlanks rest := by
  simp [skipBlanks, h]

theorem skipBlanks_cons_of_not_blank {b : UInt8} {rest : List UInt8} (h : isBlank b = false) :
    skipBlanks (b :: rest) = b :: rest := by
  simp [skipBlanks, h]

theorem skipBlanks_append {blanks : List UInt8} (h : Blanks blanks) (rest : List UInt8) :
    skipBlanks (blanks ++ rest) = skipBlanks rest := by
  induction blanks with
  | nil => rfl
  | cons b blanks ih =>
      rw [blanks_cons] at h
      rw [List.cons_append, skipBlanks_cons_of_blank h.1, ih h.2]

theorem skipBlanks_eq_cons_iff {input rest : List UInt8} {b : UInt8} :
    skipBlanks input = b :: rest ↔
      ∃ blanks, input = blanks ++ b :: rest ∧ Blanks blanks ∧ isBlank b = false := by
  constructor
  · intro h
    induction input with
    | nil => simp [skipBlanks] at h
    | cons c input ih =>
        cases hc : isBlank c with
        | true =>
            rw [skipBlanks_cons_of_blank hc] at h
            obtain ⟨blanks, rfl, hblanks, hb⟩ := ih h
            exact ⟨c :: blanks, rfl, blanks_cons.mpr ⟨hc, hblanks⟩, hb⟩
        | false =>
            rw [skipBlanks_cons_of_not_blank hc] at h
            obtain ⟨rfl, rfl⟩ := List.cons.inj h
            exact ⟨[], rfl, blanks_nil, hc⟩
  · rintro ⟨blanks, rfl, hblanks, hb⟩
    rw [skipBlanks_append hblanks, skipBlanks_cons_of_not_blank hb]

theorem skipBlanks_eq_nil_iff {input : List UInt8} : skipBlanks input = [] ↔ Blanks input := by
  induction input with
  | nil => simp [skipBlanks]
  | cons b input ih =>
      cases hb : isBlank b with
      | true => rw [skipBlanks_cons_of_blank hb, ih, blanks_cons, and_iff_right hb]
      | false => simp [skipBlanks_cons_of_not_blank hb, hb]

/-! ## Strings -/

theorem unit_eq_some_iff {input rest : List UInt8} {n : Nat} :
    unit input = some (n, rest) ↔ ∃ digits, input = digits ++ rest ∧ HexUnit digits n := by
  constructor
  · intro h
    unfold unit at h
    split at h
    · next a b c d behind =>
        simp only [Option.bind_eq_bind, Option.bind_eq_some_iff, Option.some.injEq,
          Prod.mk.injEq] at h
        obtain ⟨w, hw, x, hx, y, hy, z, hz, rfl, rfl⟩ := h
        exact ⟨[a, b, c, d], rfl, a, b, c, d, w, x, y, z, rfl, hw, hx, hy, hz, rfl⟩
    · simp at h
  · rintro ⟨_, rfl, a, b, c, d, w, x, y, z, rfl, hw, hx, hy, hz, rfl⟩
    simp [unit, hw, hx, hy, hz]

theorem lowUnit_eq_some_iff {input rest : List UInt8} {n : Nat} :
    lowUnit input = some (n, rest) ↔
      ∃ digits, input = backslash :: lowerU :: (digits ++ rest) ∧ HexUnit digits n := by
  constructor
  · intro h
    unfold lowUnit at h
    split at h
    · split at h
      · next hmarks =>
          obtain ⟨rfl, rfl⟩ := hmarks
          obtain ⟨digits, rfl, hdigits⟩ := unit_eq_some_iff.mp h
          exact ⟨digits, rfl, hdigits⟩
      · simp at h
    · simp at h
  · rintro ⟨digits, rfl, hdigits⟩
    rw [lowUnit, if_pos ⟨rfl, rfl⟩]
    exact unit_eq_some_iff.mpr ⟨digits, rfl, hdigits⟩

/-- A code point is written by four digits, or by a pair of surrogates. -/
theorem codePoint_eq_some_iff {input rest : List UInt8} {code : Nat} :
    codePoint input = some (code, rest) ↔
      (∃ digits, input = digits ++ rest ∧ HexUnit digits code ∧
        ¬ (0xd800 ≤ code ∧ code ≤ 0xdfff)) ∨
      ∃ digits more high low, input = digits ++ backslash :: lowerU :: (more ++ rest) ∧
        HexUnit digits high ∧ (0xd800 ≤ high ∧ high ≤ 0xdbff) ∧ HexUnit more low ∧
        (0xdc00 ≤ low ∧ low ≤ 0xdfff) ∧ code = pairedCodePoint high low := by
  constructor
  · intro h
    simp only [codePoint, Option.bind_eq_bind, Option.bind_eq_some_iff, Prod.exists] at h
    obtain ⟨high, behind, hunit, h⟩ := h
    obtain ⟨digits, rfl, hdigits⟩ := unit_eq_some_iff.mp hunit
    split at h
    · next hhigh =>
        simp only [Option.bind_eq_some_iff, Prod.exists] at h
        obtain ⟨low, final, hlow, h⟩ := h
        obtain ⟨more, rfl, hmore⟩ := lowUnit_eq_some_iff.mp hlow
        split at h
        · next hlow =>
            obtain ⟨rfl, rfl⟩ := Prod.mk.inj (Option.some.inj h)
            exact .inr ⟨digits, more, high, low, rfl, hdigits, isHighSurrogate_iff.mp hhigh, hmore,
              isLowSurrogate_iff.mp hlow, rfl⟩
        · contradiction
    · next hhigh =>
        split at h
        · contradiction
        · next hlow =>
            obtain ⟨rfl, rfl⟩ := Prod.mk.inj (Option.some.inj h)
            rw [isHighSurrogate_iff] at hhigh
            rw [isLowSurrogate_iff] at hlow
            exact .inl ⟨digits, rfl, hdigits, by omega⟩
  · rintro (⟨digits, rfl, hdigits, hcode⟩ |
      ⟨digits, more, high, low, rfl, hdigits, hhigh, hmore, hlow, hcode⟩)
    · have hunit : unit (digits ++ rest) = some (code, rest) :=
        unit_eq_some_iff.mpr ⟨digits, rfl, hdigits⟩
      have hhigh : ¬ isHighSurrogate code = true := by
        rw [isHighSurrogate_iff]
        omega
      have hlow : ¬ isLowSurrogate code = true := by
        rw [isLowSurrogate_iff]
        omega
      simp only [codePoint, hunit, Option.bind_eq_bind, Option.bind_some, if_neg hhigh, if_neg hlow]
    · have hunit : unit (digits ++ backslash :: lowerU :: (more ++ rest)) = some (high, _) :=
        unit_eq_some_iff.mpr ⟨digits, rfl, hdigits⟩
      have hlowUnit : lowUnit (backslash :: lowerU :: (more ++ rest)) = some (low, rest) :=
        lowUnit_eq_some_iff.mpr ⟨more, rfl, hmore⟩
      simp only [codePoint, hunit, hlowUnit, Option.bind_eq_bind, Option.bind_some,
        if_pos (isHighSurrogate_iff.mpr hhigh), if_pos (isLowSurrogate_iff.mpr hlow)]
      rw [hcode]

/-- The reader and the scanner of the tokenizer share the grammar of escapes. -/
theorem escape_eq_some_iff {input rest : List UInt8} {c : Char} :
    escape input = some (c, rest) ↔ ∃ text, input = text ++ rest ∧ EscapeText text c := by
  constructor
  · intro h
    unfold escape at h
    split at h
    · contradiction
    · next b behind =>
        split at h
        · next hb =>
            subst hb
            simp only [Option.bind_eq_bind, Option.bind_eq_some_iff, Option.map_eq_some_iff,
              Prod.mk.injEq, Prod.exists] at h
            obtain ⟨code, final, hcode, other, hchar, rfl, rfl⟩ := h
            rw [charOfCodePoint?_eq_some_iff] at hchar
            subst hchar
            rcases codePoint_eq_some_iff.mp hcode with ⟨digits, rfl, hdigits, -⟩ |
              ⟨digits, more, high, low, rfl, hdigits, hhigh, hmore, hlow, hc⟩
            · exact ⟨_, rfl, .unit hdigits⟩
            · exact ⟨_, by simp, .pair hdigits hhigh hmore hlow hc⟩
        · simp only [Option.map_eq_some_iff, Prod.mk.injEq] at h
          obtain ⟨other, hshort, rfl, rfl⟩ := h
          exact ⟨[b], rfl, .short (PartialQuoted.shortEscape?_eq_some_iff.mp hshort)⟩
  · rintro ⟨text, rfl, htext⟩
    have hcode {tail : List UInt8} (h : codePoint tail = some (c.toNat, rest)) :
        escape (lowerU :: tail) = some (c, rest) := by
      have hchar : charOfCodePoint? c.toNat = some c := charOfCodePoint?_eq_some_iff.mpr rfl
      simp [escape, h, hchar]
    cases htext with
    | @short letter c hshort =>
        have hc := PartialQuoted.shortEscape?_eq_some_iff.mpr hshort
        have hletter : letter ≠ lowerU := by
          rintro rfl
          have hnone : PartialQuoted.shortEscape? lowerU = none := rfl
          rw [hnone] at hc
          contradiction
        simp [escape, hletter, hc]
    | unit hdigits =>
        exact hcode (codePoint_eq_some_iff.mpr (.inl ⟨_, rfl, hdigits, not_surrogate c⟩))
    | pair hdigits hhigh hmore hlow hc =>
        rw [List.append_assoc]
        exact hcode (codePoint_eq_some_iff.mpr
          (.inr ⟨_, _, _, _, rfl, hdigits, hhigh, hmore, hlow, hc⟩))

/-- Away from the closing quote a piece is a plain byte or an escape. -/
theorem stringPiece_eq_some_iff {b : UInt8} {input rest piece : List UInt8} (hb : b ≠ quote) :
    stringPiece (b :: input) = some (piece, rest) ↔
      (isPlain b = true ∧ piece = [b] ∧ rest = input) ∨
        ∃ text c, b = backslash ∧ input = text ++ rest ∧ EscapeText text c ∧
          piece = String.utf8EncodeChar c := by
  by_cases hbackslash : b = backslash
  · subst hbackslash
    have hplain : isPlain backslash = false := rfl
    simp only [stringPiece, reduceIte, hplain, Bool.false_eq_true, false_and, false_or, true_and,
      Option.map_eq_some_iff, Prod.mk.injEq, Prod.exists, escape_eq_some_iff]
    constructor
    · rintro ⟨c, final, ⟨text, rfl, htext⟩, rfl, rfl⟩
      exact ⟨text, c, rfl, htext, rfl⟩
    · rintro ⟨text, c, rfl, htext, rfl⟩
      exact ⟨c, rest, ⟨text, rfl, htext⟩, rfl, rfl⟩
  · cases hcontrol : isControl b with
    | true => simp [stringPiece, hbackslash, hcontrol, isPlain]
    | false =>
        simp [stringPiece, hbackslash, hcontrol, isPlain, hb, eq_comm (a := piece),
          eq_comm (a := rest)]

/-- The bytes of a string are read up to the first quote that is not escaped. -/
theorem stringBytes_eq_some_iff {input bytes rest : List UInt8} :
    stringBytes input = some (bytes, rest) ↔
      ∃ body, input = body ++ quote :: rest ∧ Decoding body bytes := by
  constructor
  · intro h
    -- An escape is longer than one byte, so the induction is on the length.
    generalize hlength : input.length = n
    induction n using Nat.strongRecOn generalizing input bytes with
    | ind n ih =>
        subst hlength
        cases input with
        | nil => simp [stringBytes, stringPiece] at h
        | cons b input =>
            by_cases hb : b = quote
            · subst hb
              rw [stringBytes, if_pos (show (quote :: input).head? = some quote from rfl)] at h
              obtain ⟨rfl, rfl⟩ := Prod.mk.inj (Option.some.inj h)
              exact ⟨[], rfl, .nil⟩
            · rw [stringBytes, if_neg (by simpa using hb)] at h
              split at h
              · contradiction
              · next piece behind hpiece =>
                  simp only [Option.map_eq_some_iff, Prod.mk.injEq, Prod.exists] at h
                  obtain ⟨more, final, hmore, rfl, rfl⟩ := h
                  obtain ⟨body, rfl, hbody⟩ := ih _ (length_of_stringPiece hpiece) hmore rfl
                  rcases (stringPiece_eq_some_iff hb).mp hpiece with ⟨hplain, rfl, rfl⟩ |
                    ⟨text, c, rfl, rfl, htext, rfl⟩
                  · exact ⟨b :: body, rfl, .plain hplain hbody⟩
                  · exact ⟨_, by simp, .escaped htext hbody⟩
  · rintro ⟨body, rfl, hbody⟩
    -- One round of the loop: a piece, and then the rest of the string.
    have hstep {b : UInt8} {tail piece behind more : List UInt8} (hb : b ≠ quote)
        (hpiece : stringPiece (b :: tail) = some (piece, behind))
        (hmore : stringBytes behind = some (more, rest)) :
        stringBytes (b :: tail) = some (piece ++ more, rest) := by
      rw [stringBytes, if_neg (by simpa using hb)]
      split
      · next hnone => simp [hpiece] at hnone
      · next other final hother =>
          obtain ⟨rfl, rfl⟩ := Prod.mk.inj (Option.some.inj (hpiece.symm.trans hother))
          rw [hmore]
          rfl
    induction hbody with
    | nil => simp [stringBytes]
    | plain hplain _ ih =>
        have hb := (isPlain_iff.mp hplain).1
        exact hstep hb ((stringPiece_eq_some_iff hb).mpr (.inl ⟨hplain, rfl, rfl⟩)) ih
    | @escaped text source _ c htext _ ih =>
        have hb : backslash ≠ quote := by decide
        rw [List.append_assoc]
        exact hstep hb ((stringPiece_eq_some_iff hb).mpr (.inr ⟨text, c, rfl, rfl, htext, rfl⟩)) ih

/-- **A string is read exactly where the grammar has one**, and with the same text. -/
theorem string_eq_some_iff {input rest : List UInt8} {text : String} :
    string input = some (text, rest) ↔
      ∃ body, input = body ++ quote :: rest ∧ Spelling body text.toList := by
  simp only [string, Option.bind_eq_bind, Option.bind_eq_some_iff, Prod.exists, Option.some.injEq,
    Prod.mk.injEq, stringBytes_eq_some_iff, fromUTF8?_eq_some_iff]
  constructor
  · rintro ⟨_, _, ⟨body, rfl, hbody⟩, _, rfl, rfl, rfl⟩
    exact ⟨body, rfl, decoding_encoded_iff.mp hbody⟩
  · rintro ⟨body, rfl, hbody⟩
    exact ⟨_, _, ⟨body, rfl, decoding_encoded_iff.mpr hbody⟩, text, rfl, rfl, rfl⟩

/-! ## Numbers -/

theorem stops_mono {wanted other : UInt8 → Bool} {rest : List UInt8} (h : Stops wanted rest)
    (himp : ∀ b, wanted b = false → other b = false) : Stops other rest :=
  fun b hb => himp b (h b hb)

theorem digits_sound {input ds rest : List UInt8} (h : digits input = some (ds, rest)) :
    input = ds ++ rest ∧ Digits ds := by
  unfold digits at h
  split at h
  · contradiction
  · next hne =>
      obtain ⟨rfl, rfl⟩ := Prod.mk.inj (Option.some.inj h)
      refine ⟨List.takeWhile_append_dropWhile.symm, by simpa using hne, ?_⟩
      intro b hb
      exact List.all_eq_true.mp List.all_takeWhile b hb

theorem digits_complete {ds rest : List UInt8} (h : Digits ds) (hrest : Stops isDigit rest) :
    digits (ds ++ rest) = some (ds, rest) := by
  -- Of what lies behind the digits nothing is taken.
  have hnone : rest.takeWhile isDigit = [] ∧ rest.dropWhile isDigit = rest := by
    cases rest with
    | nil => exact ⟨rfl, rfl⟩
    | cons b rest =>
        have hb := hrest b rfl
        simp [hb]
  have htake : (ds ++ rest).takeWhile isDigit = ds := by
    rw [List.takeWhile_append_of_pos h.2, hnone.1, List.append_nil]
  have hdrop : (ds ++ rest).dropWhile isDigit = rest := by
    rw [List.dropWhile_append_of_pos h.2, hnone.2]
  rw [digits, htake, hdrop, if_neg (by simpa using h.1)]

theorem whole_sound {input part rest : List UInt8} (h : whole input = some (part, rest)) :
    input = part ++ rest ∧ WholePart part := by
  unfold whole at h
  split at h
  · contradiction
  · next b behind =>
      split at h
      · next hb =>
          obtain ⟨rfl, rfl⟩ := Prod.mk.inj (Option.some.inj h)
          subst hb
          exact ⟨rfl, .inl rfl⟩
      · next hb =>
          obtain ⟨hinput, hdigits⟩ := digits_sound h
          refine ⟨hinput, .inr ⟨hdigits, ?_⟩⟩
          obtain ⟨c, tail, rfl⟩ := List.exists_cons_of_ne_nil hdigits.1
          obtain ⟨rfl, -⟩ := List.cons.inj hinput
          simpa using hb

theorem whole_complete {part rest : List UInt8} (h : WholePart part) (hrest : Stops isDigit rest) :
    whole (part ++ rest) = some (part, rest) := by
  rcases h with rfl | ⟨hdigits, hzero⟩
  · rfl
  · have hread := digits_complete hdigits hrest
    obtain ⟨b, tail, rfl⟩ := List.exists_cons_of_ne_nil hdigits.1
    have hb : b ≠ zero := by simpa using hzero
    rw [List.cons_append, whole, if_neg hb]
    exact hread

theorem optionalByte_sound {wanted : UInt8 → Bool} {input part rest : List UInt8}
    (h : optionalByte wanted input = (part, rest)) :
    input = part ++ rest ∧ (part = [] ∨ ∃ b, wanted b = true ∧ part = [b]) := by
  cases input with
  | nil =>
      obtain ⟨rfl, rfl⟩ := Prod.mk.inj h
      exact ⟨rfl, .inl rfl⟩
  | cons b input =>
      cases hb : wanted b with
      | true =>
          simp only [optionalByte, hb, if_true] at h
          obtain ⟨rfl, rfl⟩ := Prod.mk.inj h
          exact ⟨rfl, .inr ⟨b, hb, rfl⟩⟩
      | false =>
          simp only [optionalByte, hb, Bool.false_eq_true, if_false] at h
          obtain ⟨rfl, rfl⟩ := Prod.mk.inj h
          exact ⟨rfl, .inl rfl⟩

theorem optionalByte_of_stops {wanted : UInt8 → Bool} {rest : List UInt8}
    (h : Stops wanted rest) : optionalByte wanted rest = ([], rest) := by
  cases rest with
  | nil => rfl
  | cons b rest => simp [optionalByte, h b rfl]

theorem optionalByte_cons {wanted : UInt8 → Bool} {b : UInt8} (h : wanted b = true)
    (rest : List UInt8) : optionalByte wanted (b :: rest) = ([b], rest) := by
  simp [optionalByte, h]

theorem fraction_sound {input part rest : List UInt8} (h : fraction input = some (part, rest)) :
    input = part ++ rest ∧ OptionalFraction part := by
  cases input with
  | nil =>
      obtain ⟨rfl, rfl⟩ := Prod.mk.inj (Option.some.inj h)
      exact ⟨rfl, .inl rfl⟩
  | cons b input =>
      by_cases hb : b = point
      · subst hb
        obtain ⟨⟨ds, final⟩, hread, hpair⟩ := Option.map_eq_some_iff.mp h
        obtain ⟨rfl, rfl⟩ := Prod.mk.inj hpair
        obtain ⟨rfl, hdigits⟩ := digits_sound hread
        exact ⟨rfl, .inr ⟨ds, hdigits, rfl⟩⟩
      · simp only [fraction, optionalByte, beq_iff_eq, if_neg hb] at h
        obtain ⟨rfl, rfl⟩ := Prod.mk.inj (Option.some.inj h)
        exact ⟨rfl, .inl rfl⟩

theorem fraction_complete {part rest : List UInt8} (h : OptionalFraction part)
    (hdigit : Stops isDigit rest) (hpoint : Stops (· == point) rest) :
    fraction (part ++ rest) = some (part, rest) := by
  rcases h with rfl | ⟨ds, hdigits, rfl⟩
  · cases rest with
    | nil => rfl
    | cons b rest =>
        have hb : (b == point) = false := hpoint b rfl
        simp [fraction, optionalByte, hb]
  · have hread := digits_complete hdigits hdigit
    simp [fraction, optionalByte, hread]

theorem exponent_sound {input part rest : List UInt8} (h : exponent input = some (part, rest)) :
    input = part ++ rest ∧ OptionalExponent part := by
  cases input with
  | nil =>
      obtain ⟨rfl, rfl⟩ := Prod.mk.inj (Option.some.inj h)
      exact ⟨rfl, .inl rfl⟩
  | cons b input =>
      cases hb : isExponentMark b with
      | false =>
          simp only [exponent, optionalByte, hb, Bool.false_eq_true, if_false] at h
          obtain ⟨rfl, rfl⟩ := Prod.mk.inj (Option.some.inj h)
          exact ⟨rfl, .inl rfl⟩
      | true =>
          rw [exponent, optionalByte_cons hb] at h
          cases hsign : optionalByte isSign input with
          | mk sign behind =>
              obtain ⟨rfl, hoptional⟩ := optionalByte_sound hsign
              simp only [hsign] at h
              obtain ⟨⟨ds, final⟩, hread, hpair⟩ := Option.map_eq_some_iff.mp h
              obtain ⟨rfl, rfl⟩ := Prod.mk.inj hpair
              obtain ⟨rfl, hdigits⟩ := digits_sound hread
              exact ⟨by simp, .inr ⟨b, sign ++ ds, hb, ⟨sign, ds, rfl, hoptional, hdigits⟩, rfl⟩⟩

theorem exponent_complete {part rest : List UInt8} (h : OptionalExponent part)
    (hdigit : Stops isDigit rest) (hmark : Stops isExponentMark rest) :
    exponent (part ++ rest) = some (part, rest) := by
  rcases h with rfl | ⟨mark, power, hb, ⟨sign, ds, rfl, hsign, hdigits⟩, rfl⟩
  · rw [List.nil_append, exponent, optionalByte_of_stops hmark]
  · have hread := digits_complete hdigits hdigit
    -- Where there is no sign a digit comes next, and that is not taken for one.
    have hoptional : optionalByte isSign (sign ++ (ds ++ rest)) = (sign, ds ++ rest) := by
      rcases hsign with rfl | ⟨b, hb, rfl⟩
      · obtain ⟨c, tail, rfl⟩ := List.exists_cons_of_ne_nil hdigits.1
        apply optionalByte_of_stops
        intro b hb
        obtain rfl : c = b := Option.some.inj hb
        exact isSign_of_isDigit (hdigits.2 c (by simp))
      · exact optionalByte_cons hb _
    rw [List.cons_append, List.append_assoc, exponent, optionalByte_cons hb]
    simp [hoptional, hread]

/-- **What is read as a number is a number**, byte for byte. -/
theorem numberText_sound {input rest : List UInt8} {text : String}
    (h : numberText input = some (text, rest)) :
    ∃ taken, input = taken ++ rest ∧ NumberText taken ∧ text = asciiText taken := by
  unfold numberText at h
  cases hsign : optionalByte (· == minus) input with
  | mk sign behind =>
      obtain ⟨rfl, hoptional⟩ := optionalByte_sound hsign
      have hminus : OptionalMinus sign := by
        rcases hoptional with rfl | ⟨b, hb, rfl⟩
        · exact .inl rfl
        · exact .inr (by rw [beq_iff_eq.mp hb])
      simp only [hsign, Option.bind_eq_bind, Option.bind_eq_some_iff, Option.some.injEq,
        Prod.mk.injEq, Prod.exists] at h
      obtain ⟨wholePart, _, hwhole, fractionPart, _, hfraction, exponentPart, _, hexponent, rfl,
        rfl⟩ := h
      obtain ⟨rfl, hwholeText⟩ := whole_sound hwhole
      obtain ⟨rfl, hfractionText⟩ := fraction_sound hfraction
      obtain ⟨rfl, hexponentText⟩ := exponent_sound hexponent
      refine ⟨sign ++ wholePart ++ fractionPart ++ exponentPart, by simp, ?_, rfl⟩
      exact ⟨sign, wholePart ++ (fractionPart ++ exponentPart), by simp, hminus, wholePart, _, rfl,
        hwholeText, fractionPart, _, rfl, hfractionText, hexponentText⟩

/-- An exponent begins with its mark, or it is not there. -/
theorem stops_exponent_append {wanted : UInt8 → Bool} {part rest : List UInt8}
    (hpart : OptionalExponent part) (hrest : Stops wanted rest)
    (hmarks : ∀ mark, isExponentMark mark = true → wanted mark = false) :
    Stops wanted (part ++ rest) := by
  rcases hpart with rfl | ⟨mark, power, hmark, -, rfl⟩
  · exact hrest
  · intro b hb
    obtain rfl : mark = b := Option.some.inj hb
    exact hmarks mark hmark

/-- A fraction begins with its point, or it is not there. -/
theorem stops_fraction_append {part rest : List UInt8} (hpart : OptionalFraction part)
    (hrest : Stops isDigit rest) : Stops isDigit (part ++ rest) := by
  rcases hpart with rfl | ⟨ds, -, rfl⟩
  · exact hrest
  · intro b hb
    obtain rfl : point = b := Option.some.inj hb
    rfl

/-- A whole part does not begin with a minus sign. -/
theorem optionalMinus_complete {sign part : List UInt8} (hsign : OptionalMinus sign)
    (hpart : WholePart part) (rest : List UInt8) :
    optionalByte (· == minus) (sign ++ (part ++ rest)) = (sign, part ++ rest) := by
  rcases hsign with rfl | rfl
  · apply optionalByte_of_stops
    intro b hb
    rw [beq_eq_false_iff_ne]
    rintro rfl
    rcases hpart with rfl | ⟨hdigits, -⟩
    · have hzero : zero = minus := Option.some.inj hb
      exact absurd hzero (by decide)
    · obtain ⟨c, tail, rfl⟩ := List.exists_cons_of_ne_nil hdigits.1
      obtain rfl : c = minus := Option.some.inj hb
      exact absurd (hdigits.2 minus (by simp)) (by decide)
  · exact optionalByte_cons rfl _

/-- **Every number is read as a whole** where no byte of a number comes behind it. -/
theorem numberText_complete {taken rest : List UInt8} (h : NumberText taken)
    (hrest : Stops isNumberByte rest) :
    numberText (taken ++ rest) = some (asciiText taken, rest) := by
  obtain ⟨sign, _, rfl, hsign, part, _, rfl, hwhole, fractionPart, exponentPart, rfl, hfraction,
    hexponent⟩ := h
  have hstops : ∀ b, isNumberByte b = false →
      isDigit b = false ∧ (b == point) = false ∧ isExponentMark b = false := by
    intro b hb
    simp only [isNumberByte, Bool.or_eq_false_iff] at hb
    exact ⟨hb.1.1.1, hb.1.1.2, hb.1.2⟩
  have hdigit : Stops isDigit rest := stops_mono hrest (fun b hb => (hstops b hb).1)
  have hpoint : Stops (· == point) rest := stops_mono hrest (fun b hb => (hstops b hb).2.1)
  have hmark : Stops isExponentMark rest := stops_mono hrest (fun b hb => (hstops b hb).2.2)
  -- Each part ends where the next one begins, or where the number ends.
  have hbehindDigit : Stops isDigit (exponentPart ++ rest) := by
    apply stops_exponent_append hexponent hdigit
    intro mark h
    rw [← Bool.not_eq_true]
    intro hmarkDigit
    rw [isExponentMark_of_isDigit hmarkDigit] at h
    exact Bool.false_ne_true h
  have hbehindPoint : Stops (· == point) (exponentPart ++ rest) := by
    apply stops_exponent_append hexponent hpoint
    intro mark h
    rw [beq_eq_false_iff_ne]
    rintro rfl
    exact absurd h (by decide)
  have hsignRead :=
    optionalMinus_complete hsign hwhole (fractionPart ++ (exponentPart ++ rest))
  have hwholeRead := whole_complete hwhole (stops_fraction_append hfraction hbehindDigit)
  have hfractionRead := fraction_complete hfraction hbehindDigit hbehindPoint
  have hexponentRead := exponent_complete hexponent hdigit hmark
  have hinput : sign ++ (part ++ (fractionPart ++ exponentPart)) ++ rest =
      sign ++ (part ++ (fractionPart ++ (exponentPart ++ rest))) := by
    simp
  rw [numberText, hinput, hsignRead]
  simp only [hwholeRead, hfractionRead, hexponentRead, Option.bind_eq_bind, Option.bind_some]
  simp

end Reader
end Json
end RequiredKeys
