import RequiredKeys.Lexeme.Quoted
import RequiredKeys.Proofs.Input.Scanning
import RequiredKeys.Proofs.Text.Encoding

/-!
# The grammar of strings

`Spelling body chars` says that `body` writes the characters between two quotes:
a character stands for itself in UTF-8, or an escape stands for it.  `QuotedText`
adds the quotes.

* `Decoding` is the byte-level half of it: what a reader that checks UTF-8 only at
  the closing quote has collected.
* `decoding_encoded_iff` brings the halves together.  An escape adds whole
  characters, so an encoding that is valid as a whole is valid between the escapes.
* `PartialQuoted.completes_ok_iff` is the scanner: it succeeds exactly on the
  spellings, and with the text they write.
-/

namespace RequiredKeys

open Ascii

/-- The letters that are escapes by themselves, each with its character. -/
def shortEscapes : List (UInt8 × Char) :=
  [(quote, '"'), (backslash, '\\'), (slash, '/'), (lowerB, '\x08'), (lowerF, '\x0c'),
    (lowerN, '\n'), (lowerR, '\r'), (lowerT, '\t')]

/-- Four hexadecimal digits and the number that they write. -/
def HexUnit (digits : List UInt8) (value : Nat) : Prop :=
  ∃ a b c d w x y z, digits = [a, b, c, d] ∧ hexValue? a = some w ∧ hexValue? b = some x ∧
    hexValue? c = some y ∧ hexValue? d = some z ∧ value = ((w * 16 + x) * 16 + y) * 16 + z

/-- An escape without its backslash, and the character that it stands for.  Since
no character has the number of a surrogate, a surrogate is never a `unit`. -/
inductive EscapeText : List UInt8 → Char → Prop
  | short {letter : UInt8} {c : Char} (h : (letter, c) ∈ shortEscapes) : EscapeText [letter] c
  | unit {digits : List UInt8} {c : Char} (h : HexUnit digits c.toNat) :
      EscapeText (lowerU :: digits) c
  | pair {digits more : List UInt8} {high low : Nat} {c : Char} (hdigits : HexUnit digits high)
      (hhigh : 0xd800 ≤ high ∧ high ≤ 0xdbff) (hmore : HexUnit more low)
      (hlow : 0xdc00 ≤ low ∧ low ≤ 0xdfff)
      (hc : c.toNat = 0x10000 + (high - 0xd800) * 0x400 + (low - 0xdc00)) :
      EscapeText (lowerU :: digits ++ backslash :: lowerU :: more) c

/-- What may stand between two quotes, and the characters that it writes. -/
inductive Spelling : List UInt8 → List Char → Prop
  | nil : Spelling [] []
  | plain {c : Char} {source : List UInt8} {chars : List Char} (hquote : c ≠ '"')
      (hbackslash : c ≠ '\\') (hcontrol : 0x20 ≤ c.toNat) (h : Spelling source chars) :
      Spelling (String.utf8EncodeChar c ++ source) (c :: chars)
  | escaped {escape source : List UInt8} {c : Char} {chars : List Char}
      (hescape : EscapeText escape c) (h : Spelling source chars) :
      Spelling (backslash :: escape ++ source) (c :: chars)

/-- A string with its quotes, and the text that it writes. -/
def QuotedText (bytes : List UInt8) (text : String) : Prop :=
  ∃ body, bytes = quote :: body ++ [quote] ∧ Spelling body text.toList

/-- A byte that stands for itself inside a string. -/
def isPlain (b : UInt8) : Bool :=
  b != quote && b != backslash && !isControl b

/-- What may stand between two quotes if nobody asks for UTF-8, and the bytes that
it writes. -/
inductive Decoding : List UInt8 → List UInt8 → Prop
  | nil : Decoding [] []
  | plain {b : UInt8} {source bytes : List UInt8} (hb : isPlain b = true)
      (h : Decoding source bytes) : Decoding (b :: source) (b :: bytes)
  | escaped {escape source bytes : List UInt8} {c : Char} (hescape : EscapeText escape c)
      (h : Decoding source bytes) :
      Decoding (backslash :: escape ++ source) (String.utf8EncodeChar c ++ bytes)

/-! ## Bytes and characters of a string -/

theorem isPlain_iff {b : UInt8} :
    isPlain b = true ↔ b ≠ quote ∧ b ≠ backslash ∧ 0x20 ≤ b.toNat := by
  have hcontrol : isControl b = false ↔ 0x20 ≤ b.toNat := by
    simp [isControl, space, UInt8.le_iff_toNat_le]
  simp [isPlain, hcontrol, and_assoc]

/-- A character that may stand unescaped is written with plain bytes. -/
theorem isPlain_of_mem {c : Char} {b : UInt8} (hquote : c ≠ '"') (hbackslash : c ≠ '\\')
    (hcontrol : 0x20 ≤ c.toNat) (hb : b ∈ String.utf8EncodeChar c) : isPlain b = true := by
  rw [isPlain_iff]
  have hquoteByte : quote.toNat = '"'.toNat := rfl
  have hbackslashByte : backslash.toNat = '\\'.toNat := rfl
  rcases mem_utf8EncodeChar hb with ⟨hsame, -⟩ | ⟨-, hlarge⟩
  · refine ⟨?_, ?_, by omega⟩
    · rintro rfl
      exact hquote (Char.toNat_inj.mp (by omega))
    · rintro rfl
      exact hbackslash (Char.toNat_inj.mp (by omega))
  · refine ⟨?_, ?_, by omega⟩
    · rintro rfl
      exact absurd hlarge (by decide)
    · rintro rfl
      exact absurd hlarge (by decide)

/-- A character whose encoding has a plain byte may stand unescaped. -/
theorem unescaped_of_isPlain {c : Char} {b : UInt8} (hb : b ∈ String.utf8EncodeChar c)
    (hplain : isPlain b = true) : c ≠ '"' ∧ c ≠ '\\' ∧ 0x20 ≤ c.toNat := by
  obtain ⟨hquote, hbackslash, hcontrol⟩ := isPlain_iff.mp hplain
  have hsmall (d : UInt8) (hd : String.utf8EncodeChar c = [d]) : b = d := by
    rw [hd] at hb
    exact List.mem_singleton.mp hb
  refine ⟨?_, ?_, ?_⟩
  · rintro rfl
    exact hquote (hsmall quote rfl)
  · rintro rfl
    exact hbackslash (hsmall backslash rfl)
  · rcases mem_utf8EncodeChar hb with ⟨hsame, -⟩ | ⟨hlarge, -⟩ <;> omega

namespace Decoding

theorem append_plain {run source bytes : List UInt8} (hrun : ∀ b ∈ run, isPlain b = true)
    (h : Decoding source bytes) : Decoding (run ++ source) (run ++ bytes) := by
  induction run with
  | nil => exact h
  | cons b run ih =>
      rw [List.forall_mem_cons] at hrun
      exact .plain hrun.1 (ih hrun.2)

/-- Bytes inside a character cannot come from an escape. -/
theorem of_append_continuation {tail source bytes : List UInt8}
    (htail : ∀ b ∈ tail, ¬ b.IsUTF8FirstByte) (h : Decoding source (tail ++ bytes)) :
    ∃ rest, source = tail ++ rest ∧ Decoding rest bytes := by
  induction tail generalizing source with
  | nil => exact ⟨source, rfl, h⟩
  | cons b tail ih =>
      rw [List.forall_mem_cons] at htail
      generalize hbytes : b :: tail ++ bytes = all at h
      cases h with
      | nil => simp at hbytes
      | plain hb hrest =>
          simp only [List.cons_append, List.cons.injEq] at hbytes
          obtain ⟨rfl, rfl⟩ := hbytes
          obtain ⟨rest, rfl, hdecoding⟩ := ih htail.2 hrest
          exact ⟨rest, rfl, hdecoding⟩
      | @escaped escape source written c hescape hrest =>
          -- An escape writes a whole character, and a character has a first byte in front.
          obtain ⟨first, more, hencoded, hfirst, -⟩ := exists_utf8EncodeChar_eq_cons c
          rw [hencoded, List.cons_append, List.cons_append, List.cons.injEq] at hbytes
          exact absurd (hbytes.1 ▸ hfirst) htail.1

end Decoding

/-- A spelling writes the encoding of its characters. -/
theorem Spelling.decoding {source : List UInt8} {chars : List Char} (h : Spelling source chars) :
    Decoding source (encoded chars) := by
  induction h with
  | nil => exact .nil
  | plain hquote hbackslash hcontrol _ ih =>
      rw [encoded_cons]
      exact ih.append_plain (fun b hb => isPlain_of_mem hquote hbackslash hcontrol hb)
  | escaped hescape _ ih =>
      rw [encoded_cons]
      exact .escaped hescape ih

/-- Bytes that turn out to be an encoding were written character by character. -/
theorem Decoding.spelling {source : List UInt8} {chars : List Char}
    (h : Decoding source (encoded chars)) : Spelling source chars := by
  induction chars generalizing source with
  | nil =>
      generalize hbytes : encoded [] = bytes at h
      cases h with
      | nil => exact .nil
      | plain hb hrest => simp at hbytes
      | escaped hescape hrest =>
          obtain ⟨hnil, -⟩ := List.append_eq_nil_iff.mp hbytes.symm
          exact absurd hnil String.utf8EncodeChar_ne_nil
  | cons c chars ih =>
      generalize hbytes : encoded (c :: chars) = bytes at h
      rw [encoded_cons] at hbytes
      cases h with
      | nil =>
          obtain ⟨hnil, -⟩ := List.append_eq_nil_iff.mp hbytes
          exact absurd hnil String.utf8EncodeChar_ne_nil
      | plain hb hrest =>
          -- The first byte stands for itself, so the other bytes of the character do too.
          obtain ⟨first, tail, hencoded, -, htail⟩ := exists_utf8EncodeChar_eq_cons c
          rw [hencoded, List.cons_append, List.cons.injEq] at hbytes
          obtain ⟨rfl, rfl⟩ := hbytes
          obtain ⟨rest, rfl, hdecoding⟩ := Decoding.of_append_continuation htail hrest
          have hmem : first ∈ String.utf8EncodeChar c := by simp [hencoded]
          obtain ⟨hquote, hbackslash, hcontrol⟩ := unescaped_of_isPlain hmem hb
          have hspelling := Spelling.plain hquote hbackslash hcontrol (ih hdecoding)
          rwa [hencoded] at hspelling
      | escaped hescape hrest =>
          obtain ⟨rfl, rfl⟩ := utf8EncodeChar_append_inj hbytes
          exact .escaped hescape (ih hrest)

/-- The check for UTF-8 may wait for the closing quote. -/
theorem decoding_encoded_iff {source : List UInt8} {chars : List Char} :
    Decoding source (encoded chars) ↔ Spelling source chars :=
  ⟨Decoding.spelling, Spelling.decoding⟩

/-! ## The scanner of strings -/

theorem charOfCodePoint?_eq_some_iff {code : Nat} {c : Char} :
    charOfCodePoint? code = some c ↔ c.toNat = code := by
  have htoNat (hvalid : code.isValidChar) : (Char.ofNatAux code hvalid).toNat = code := rfl
  unfold charOfCodePoint?
  constructor
  · intro h
    by_cases hvalid : code.isValidChar
    · rw [dif_pos hvalid] at h
      rw [← Option.some.inj h]
      exact htoNat hvalid
    · rw [dif_neg hvalid] at h
      contradiction
  · rintro rfl
    have hvalid : c.toNat.isValidChar := c.valid
    rw [dif_pos hvalid, Option.some.injEq]
    exact Char.toNat_inj.mp (htoNat hvalid)

/-- No character has the number of a surrogate. -/
theorem not_surrogate (c : Char) : ¬ (0xd800 ≤ c.toNat ∧ c.toNat ≤ 0xdfff) := by
  have hvalid : c.toNat.isValidChar := c.valid
  simp only [Nat.isValidChar] at hvalid
  omega

theorem isHighSurrogate_iff {unit : Nat} :
    isHighSurrogate unit = true ↔ 0xd800 ≤ unit ∧ unit ≤ 0xdbff := by
  simp only [isHighSurrogate, Bool.and_eq_true, decide_eq_true_eq]

theorem isLowSurrogate_iff {unit : Nat} :
    isLowSurrogate unit = true ↔ 0xdc00 ≤ unit ∧ unit ≤ 0xdfff := by
  simp only [isLowSurrogate, Bool.and_eq_true, decide_eq_true_eq]

namespace PartialQuoted

theorem shortEscape?_eq_some_iff {b : UInt8} {c : Char} :
    shortEscape? b = some c ↔ (b, c) ∈ shortEscapes := by
  constructor
  · intro h
    unfold shortEscape? at h
    split at h
    all_goals first
      | simp at h; done
      | obtain rfl := Option.some.inj h
        decide
  · intro h
    simp only [shortEscapes, List.mem_cons, Prod.mk.injEq, List.not_mem_nil, or_false] at h
    rcases h with ⟨rfl, rfl⟩ | ⟨rfl, rfl⟩ | ⟨rfl, rfl⟩ | ⟨rfl, rfl⟩ | ⟨rfl, rfl⟩ | ⟨rfl, rfl⟩ |
      ⟨rfl, rfl⟩ | ⟨rfl, rfl⟩ <;> rfl

/-- A character behind the bytes of a buffer. -/
theorem addChar_eq (mode : QuotedMode) (buffer : ByteArray) (c : Char) :
    (⟨mode, buffer⟩ : PartialQuoted).addChar c =
      ⟨.plain, buffer ++ (String.utf8EncodeChar c).toByteArray⟩ := by
  rw [addChar, String.toUTF8_eq_toByteArray, String.toByteArray_singleton,
    List.utf8Encode_singleton]

theorem addCodePoint_eq_take_iff {quoted next : PartialQuoted} {code : Nat} :
    quoted.addCodePoint code = .take next ↔
      ∃ c : Char, c.toNat = code ∧ next = quoted.addChar c := by
  unfold addCodePoint giveUp
  simp only [← charOfCodePoint?_eq_some_iff]
  split
  · next c h => simp [h, eq_comm]
  · next h => simp [h]

/-- Four digits are a character, or they are half of one. -/
theorem addUnit_eq_take_iff {quoted next : PartialQuoted} {unit : Nat} :
    quoted.addUnit unit = .take next ↔
      ((0xd800 ≤ unit ∧ unit ≤ 0xdbff) ∧ next = ⟨.pairBackslash unit, quoted.buffer⟩) ∨
        ∃ c : Char, c.toNat = unit ∧ next = quoted.addChar c := by
  -- The surrogates are no characters, so the two cases exclude one another.
  have hnone (hrange : 0xd800 ≤ unit ∧ unit ≤ 0xdfff) (c : Char) : c.toNat ≠ unit := by
    rintro rfl
    exact not_surrogate c hrange
  unfold addUnit giveUp
  simp only [isHighSurrogate_iff, isLowSurrogate_iff]
  split
  · next hhigh => simp [hhigh, hnone ⟨hhigh.1, by omega⟩, eq_comm]
  · next hhigh =>
      split
      · next hlow => simp [hhigh, hnone ⟨by omega, hlow.2⟩]
      · next hlow => simp [hhigh, addCodePoint_eq_take_iff]

theorem addPair_eq_take_iff {quoted next : PartialQuoted} {high low : Nat} :
    quoted.addPair high low = .take next ↔
      (0xdc00 ≤ low ∧ low ≤ 0xdfff) ∧ ∃ c : Char,
        c.toNat = 0x10000 + (high - 0xd800) * 0x400 + (low - 0xdc00) ∧
          next = quoted.addChar c := by
  unfold addPair giveUp
  simp only [isLowSurrogate_iff]
  split
  · next hlow =>
      rw [addCodePoint_eq_take_iff]
      exact (and_iff_right hlow).symm
  · next hlow => simp [hlow]

/-- Away from the places between characters a scan goes on by one byte at a time. -/
theorem afterAll?_of_ne_plain (quoted : PartialQuoted) {last : PartialQuoted}
    {source : List UInt8} (hmode : quoted.mode ≠ .plain) (hlast : last.mode = .plain) :
    scanner.afterAll? quoted source = some last ↔
      ∃ b rest next, source = b :: rest ∧ scanner.onByte quoted b = .take next ∧
        scanner.afterAll? next rest = some last := by
  cases source with
  | nil =>
      have hne : quoted ≠ last := by
        rintro rfl
        exact hmode hlast
      simp [hne]
  | cons b rest =>
      rw [Scanner.afterAll?_cons_eq_some]
      constructor
      · rintro ⟨next, hbyte, hrest⟩
        exact ⟨b, rest, next, rfl, hbyte, hrest⟩
      · rintro ⟨_, _, next, hsource, hbyte, hrest⟩
        obtain ⟨rfl, rfl⟩ := List.cons.inj hsource
        exact ⟨next, hbyte, hrest⟩

/-- The two rows of four digits are read alike: `mode` counts them, and `Done` says
where the fourth one leads. -/
theorem afterAll?_digits (mode : Nat → Nat → QuotedMode) {buffer : ByteArray}
    {Done : Nat → PartialQuoted → Prop}
    (hmode : ∀ count value, mode count value ≠ .plain)
    (hmore : ∀ count value b next, count < 3 →
      (scanner.onByte ⟨mode count value, buffer⟩ b = .take next ↔
        ∃ digit, hexValue? b = some digit ∧ next = ⟨mode (count + 1) (value * 16 + digit), buffer⟩))
    (hdone : ∀ value b next, scanner.onByte ⟨mode 3 value, buffer⟩ b = .take next ↔
      ∃ digit, hexValue? b = some digit ∧ Done (value * 16 + digit) next)
    {last : PartialQuoted} {source : List UInt8} (hlast : last.mode = .plain) :
    scanner.afterAll? ⟨mode 0 0, buffer⟩ source = some last ↔
      ∃ digits value next rest, source = digits ++ rest ∧ HexUnit digits value ∧
        Done value next ∧ scanner.afterAll? next rest = some last := by
  have hstep (count value : Nat) (source : List UInt8) :
      scanner.afterAll? ⟨mode count value, buffer⟩ source = some last ↔ _ :=
    afterAll?_of_ne_plain ⟨mode count value, buffer⟩ (hmode count value) hlast
  constructor
  · intro h
    -- Four steps, one for each digit; only the fourth leads on.
    obtain ⟨a, rest, next, rfl, hbyte, h⟩ := (hstep _ _ _).mp h
    obtain ⟨w, hw, rfl⟩ := (hmore _ _ _ _ (by omega)).mp hbyte
    obtain ⟨b, rest, next, rfl, hbyte, h⟩ := (hstep _ _ _).mp h
    obtain ⟨x, hx, rfl⟩ := (hmore _ _ _ _ (by omega)).mp hbyte
    obtain ⟨c, rest, next, rfl, hbyte, h⟩ := (hstep _ _ _).mp h
    obtain ⟨y, hy, rfl⟩ := (hmore _ _ _ _ (by omega)).mp hbyte
    obtain ⟨d, rest, next, rfl, hbyte, h⟩ := (hstep _ _ _).mp h
    obtain ⟨z, hz, hdone⟩ := (hdone _ _ _).mp hbyte
    exact ⟨[a, b, c, d], _, next, rest, rfl, ⟨a, b, c, d, w, x, y, z, rfl, hw, hx, hy, hz, rfl⟩,
      by simpa using hdone, h⟩
  · rintro ⟨_, _, next, rest, rfl, ⟨a, b, c, d, w, x, y, z, rfl, hw, hx, hy, hz, rfl⟩, hnext, h⟩
    refine (hstep _ _ _).mpr ⟨a, _, _, rfl, (hmore _ _ _ _ (by omega)).mpr ⟨w, hw, rfl⟩, ?_⟩
    refine (hstep _ _ _).mpr ⟨b, _, _, rfl, (hmore _ _ _ _ (by omega)).mpr ⟨x, hx, rfl⟩, ?_⟩
    refine (hstep _ _ _).mpr ⟨c, _, _, rfl, (hmore _ _ _ _ (by omega)).mpr ⟨y, hy, rfl⟩, ?_⟩
    refine (hstep _ _ _).mpr ⟨d, rest, next, rfl, (hdone _ _ _).mpr ⟨z, hz, ?_⟩, h⟩
    simpa using hnext

/-- Behind the `u` of an escape stand four digits, and then either the character is
complete or the other half of a pair is due. -/
theorem afterAll?_unit {buffer : ByteArray} {last : PartialQuoted} {source : List UInt8}
    (hlast : last.mode = .plain) :
    scanner.afterAll? ⟨.unit 0 0, buffer⟩ source = some last ↔
      ∃ digits value next rest, source = digits ++ rest ∧ HexUnit digits value ∧
        (((0xd800 ≤ value ∧ value ≤ 0xdbff) ∧ next = ⟨.pairBackslash value, buffer⟩) ∨
          ∃ c : Char, c.toNat = value ∧
            next = ⟨.plain, buffer ++ (String.utf8EncodeChar c).toByteArray⟩) ∧
        scanner.afterAll? next rest = some last := by
  refine afterAll?_digits .unit (fun _ _ => nofun) ?_ ?_ hlast
  · intro count value b next hcount
    cases hdigit : hexValue? b <;> simp [scanner, onByte, giveUp, hdigit, hcount, eq_comm]
  · intro value b next
    cases hdigit : hexValue? b with
    | none => simp [scanner, onByte, giveUp, hdigit]
    | some digit => simp [scanner, onByte, hdigit, addUnit_eq_take_iff, addChar_eq]

theorem afterAll?_pairUnit {high : Nat} {buffer : ByteArray} {last : PartialQuoted}
    {source : List UInt8} (hlast : last.mode = .plain) :
    scanner.afterAll? ⟨.pairUnit high 0 0, buffer⟩ source = some last ↔
      ∃ digits value next rest, source = digits ++ rest ∧ HexUnit digits value ∧
        ((0xdc00 ≤ value ∧ value ≤ 0xdfff) ∧ ∃ c : Char,
          c.toNat = 0x10000 + (high - 0xd800) * 0x400 + (value - 0xdc00) ∧
            next = ⟨.plain, buffer ++ (String.utf8EncodeChar c).toByteArray⟩) ∧
        scanner.afterAll? next rest = some last := by
  refine afterAll?_digits (.pairUnit high) (fun _ _ => nofun) ?_ ?_ hlast
  · intro count value b next hcount
    cases hdigit : hexValue? b <;> simp [scanner, onByte, giveUp, hdigit, hcount, eq_comm]
  · intro value b next
    cases hdigit : hexValue? b with
    | none => simp [scanner, onByte, giveUp, hdigit]
    | some digit => simp [scanner, onByte, hdigit, addPair_eq_take_iff, addChar_eq]

/-- Behind a high surrogate stands the beginning of another escape of four digits. -/
theorem afterAll?_pairBackslash {high : Nat} {buffer : ByteArray} {last : PartialQuoted}
    {source : List UInt8} (hlast : last.mode = .plain) :
    scanner.afterAll? ⟨.pairBackslash high, buffer⟩ source = some last ↔
      ∃ rest, source = backslash :: lowerU :: rest ∧
        scanner.afterAll? ⟨.pairUnit high 0 0, buffer⟩ rest = some last := by
  have hbackslash (b : UInt8) (next : PartialQuoted) :
      scanner.onByte ⟨.pairBackslash high, buffer⟩ b = .take next ↔
        b = backslash ∧ next = ⟨.pairLetter high, buffer⟩ := by
    by_cases hb : b = backslash <;> simp [scanner, onByte, giveUp, hb, eq_comm]
  have hletter (b : UInt8) (next : PartialQuoted) :
      scanner.onByte ⟨.pairLetter high, buffer⟩ b = .take next ↔
        b = lowerU ∧ next = ⟨.pairUnit high 0 0, buffer⟩ := by
    by_cases hb : b = lowerU <;> simp [scanner, onByte, giveUp, hb, eq_comm]
  rw [afterAll?_of_ne_plain ⟨.pairBackslash high, buffer⟩ nofun hlast]
  simp only [hbackslash]
  constructor
  · rintro ⟨_, more, _, rfl, ⟨rfl, rfl⟩, h⟩
    rw [afterAll?_of_ne_plain ⟨.pairLetter high, buffer⟩ nofun hlast] at h
    obtain ⟨b, rest, next, rfl, hbyte, h⟩ := h
    obtain ⟨rfl, rfl⟩ := (hletter _ _).mp hbyte
    exact ⟨rest, rfl, h⟩
  · rintro ⟨rest, rfl, h⟩
    refine ⟨_, _, _, rfl, ⟨rfl, rfl⟩, ?_⟩
    exact (afterAll?_of_ne_plain ⟨.pairLetter high, buffer⟩ nofun hlast).mpr
      ⟨_, _, _, rfl, (hletter _ _).mpr ⟨rfl, rfl⟩, h⟩

theorem onByte_escape_eq_take_iff {buffer : ByteArray} {b : UInt8} {next : PartialQuoted} :
    scanner.onByte ⟨.escape, buffer⟩ b = .take next ↔
      (b = lowerU ∧ next = ⟨.unit 0 0, buffer⟩) ∨
        ∃ c, (b, c) ∈ shortEscapes ∧
          next = ⟨.plain, buffer ++ (String.utf8EncodeChar c).toByteArray⟩ := by
  have hletter : shortEscape? lowerU = none := rfl
  simp only [← shortEscape?_eq_some_iff]
  by_cases hb : b = lowerU
  · subst hb
    simp [scanner, onByte, hletter, eq_comm]
  · cases hshort : shortEscape? b <;>
      simp [scanner, onByte, giveUp, hb, hshort, addChar_eq, eq_comm]

/-- **Behind a backslash a scan reads one escape** and adds its character. -/
theorem afterAll?_escape {buffer : ByteArray} {last : PartialQuoted} {source : List UInt8}
    (hlast : last.mode = .plain) :
    scanner.afterAll? ⟨.escape, buffer⟩ source = some last ↔
      ∃ escape c rest, source = escape ++ rest ∧ EscapeText escape c ∧
        scanner.afterAll? ⟨.plain, buffer ++ (String.utf8EncodeChar c).toByteArray⟩ rest =
          some last := by
  rw [afterAll?_of_ne_plain ⟨.escape, buffer⟩ nofun hlast]
  simp only [onByte_escape_eq_take_iff]
  constructor
  · rintro ⟨b, rest, next, rfl, ⟨rfl, rfl⟩ | ⟨c, hshort, rfl⟩, h⟩
    · obtain ⟨digits, value, next, rest, rfl, hdigits, hnext, h⟩ := (afterAll?_unit hlast).mp h
      rcases hnext with ⟨hhigh, rfl⟩ | ⟨c, rfl, rfl⟩
      · -- A high surrogate: the rest of the pair must follow.
        obtain ⟨rest, rfl, h⟩ := (afterAll?_pairBackslash hlast).mp h
        obtain ⟨more, low, next, rest, rfl, hmore, ⟨hlow, c, hc, rfl⟩, h⟩ :=
          (afterAll?_pairUnit hlast).mp h
        exact ⟨_, c, rest, by simp, .pair hdigits hhigh hmore hlow hc, h⟩
      · exact ⟨_, c, rest, rfl, .unit hdigits, h⟩
    · exact ⟨[b], c, rest, rfl, .short hshort, h⟩
  · rintro ⟨escape, c, rest, rfl, hescape, h⟩
    cases hescape with
    | short hshort => exact ⟨_, rest, _, rfl, .inr ⟨c, hshort, rfl⟩, h⟩
    | @unit digits c hdigits =>
        refine ⟨lowerU, digits ++ rest, _, rfl, .inl ⟨rfl, rfl⟩, ?_⟩
        exact (afterAll?_unit hlast).mpr
          ⟨digits, _, _, rest, rfl, hdigits, .inr ⟨c, rfl, rfl⟩, h⟩
    | @pair digits more high low c hdigits hhigh hmore hlow hc =>
        refine ⟨lowerU, digits ++ backslash :: lowerU :: (more ++ rest), _, by simp,
          .inl ⟨rfl, rfl⟩, ?_⟩
        refine (afterAll?_unit hlast).mpr ⟨digits, high, _, _, rfl, hdigits, .inl ⟨hhigh, rfl⟩, ?_⟩
        refine (afterAll?_pairBackslash hlast).mpr ⟨more ++ rest, rfl, ?_⟩
        exact (afterAll?_pairUnit hlast).mpr
          ⟨more, low, _, rest, rfl, hmore, ⟨hlow, c, hc, rfl⟩, h⟩

theorem onByte_plain_eq_take_iff {buffer : ByteArray} {b : UInt8} {next : PartialQuoted} :
    scanner.onByte ⟨.plain, buffer⟩ b = .take next ↔
      (b = backslash ∧ next = ⟨.escape, buffer⟩) ∨
        (isPlain b = true ∧ next = ⟨.plain, buffer.push b⟩) := by
  have hne : quote ≠ backslash := by decide
  by_cases hquote : b = quote
  · subst hquote
    simp [scanner, onByte, isPlain, hne]
  · by_cases hbackslash : b = backslash
    · subst hbackslash
      simp [scanner, onByte, isPlain, hne.symm, eq_comm (a := PartialQuoted.mk .escape buffer)]
    · cases hcontrol : isControl b <;>
        simp [scanner, onByte, giveUp, addByte, isPlain, hquote, hbackslash, hcontrol,
          eq_comm (a := next)]

/-- A byte behind a buffer is the first of those that follow. -/
theorem push_append_toByteArray (buffer : ByteArray) (b : UInt8) (bytes : List UInt8) :
    buffer.push b ++ bytes.toByteArray = buffer ++ (b :: bytes).toByteArray := by
  rw [← ByteArray.append_toByteArray_singleton, ByteArray.append_assoc,
    ← List.toByteArray_append, List.singleton_append]

/-- From one place between characters to another a scan adds what the source writes. -/
theorem afterAll?_plain_iff {buffer final : ByteArray} {source : List UInt8} :
    scanner.afterAll? ⟨.plain, buffer⟩ source = some ⟨.plain, final⟩ ↔
      ∃ bytes, Decoding source bytes ∧ final = buffer ++ bytes.toByteArray := by
  constructor
  · intro h
    -- An escape is longer than one byte, so the induction is on the length.
    generalize hlength : source.length = n
    induction n using Nat.strongRecOn generalizing source buffer with
    | ind n ih =>
        subst hlength
        cases source with
        | nil =>
            simp only [Scanner.afterAll?_nil, Option.some.injEq, mk.injEq, true_and] at h
            exact ⟨[], .nil, by simp [h]⟩
        | cons b source =>
            obtain ⟨next, hbyte, h⟩ := Scanner.afterAll?_cons_eq_some.mp h
            rcases onByte_plain_eq_take_iff.mp hbyte with ⟨rfl, rfl⟩ | ⟨hb, rfl⟩
            · obtain ⟨escape, c, rest, rfl, hescape, h⟩ := (afterAll?_escape rfl).mp h
              have hlt : rest.length < (backslash :: (escape ++ rest)).length := by
                simp only [List.length_cons, List.length_append]
                omega
              obtain ⟨bytes, hdecoding, rfl⟩ := ih _ hlt h rfl
              exact ⟨_, .escaped hescape hdecoding, by simp [ByteArray.append_assoc]⟩
            · obtain ⟨bytes, hdecoding, rfl⟩ := ih _ (by simp) h rfl
              exact ⟨_, .plain hb hdecoding, push_append_toByteArray _ _ _⟩
  · rintro ⟨bytes, hdecoding, rfl⟩
    induction hdecoding generalizing buffer with
    | nil => simp
    | plain hb _ ih =>
        refine Scanner.afterAll?_cons_eq_some.mpr
          ⟨_, onByte_plain_eq_take_iff.mpr (.inr ⟨hb, rfl⟩), ?_⟩
        rw [← push_append_toByteArray]
        exact ih
    | escaped hescape _ ih =>
        refine Scanner.afterAll?_cons_eq_some.mpr
          ⟨_, onByte_plain_eq_take_iff.mpr (.inl ⟨rfl, rfl⟩), ?_⟩
        refine (afterAll?_escape rfl).mpr ⟨_, _, _, rfl, hescape, ?_⟩
        rw [List.toByteArray_append, ← ByteArray.append_assoc]
        exact ih

theorem close_eq_ok_iff {quoted : PartialQuoted} {text : String} :
    quoted.close = .ok text ↔ String.fromUTF8? quoted.buffer = some text := by
  unfold close
  split
  · next other h => simp [h]
  · next h => simp [h]

theorem addCodePoint_cases (quoted : PartialQuoted) (code : Nat) :
    (∃ next, quoted.addCodePoint code = .take next) ∨
      ∃ cause, quoted.addCodePoint code = quoted.giveUp cause := by
  cases h : charOfCodePoint? code with
  | some c => exact .inl ⟨quoted.addChar c, by simp [addCodePoint, h]⟩
  | none => exact .inr ⟨.badCodePoint, by simp [addCodePoint, h]⟩

theorem addUnit_cases (quoted : PartialQuoted) (unit : Nat) :
    (∃ next, quoted.addUnit unit = .take next) ∨
      ∃ cause, quoted.addUnit unit = quoted.giveUp cause := by
  unfold addUnit
  cases isHighSurrogate unit with
  | true => exact .inl ⟨_, rfl⟩
  | false =>
      cases isLowSurrogate unit with
      | true => exact .inr ⟨_, rfl⟩
      | false => exact quoted.addCodePoint_cases unit

theorem addPair_cases (quoted : PartialQuoted) (high low : Nat) :
    (∃ next, quoted.addPair high low = .take next) ∨
      ∃ cause, quoted.addPair high low = quoted.giveUp cause := by
  cases hlow : isLowSurrogate low with
  | true =>
      rw [addPair, if_pos hlow]
      exact quoted.addCodePoint_cases (pairedCodePoint high low)
  | false =>
      refine .inr ⟨.badLowSurrogate, ?_⟩
      rw [addPair, if_neg (by simp [hlow])]

/-- A byte closes the string, or the string goes on, or it is given up. -/
theorem onByte_cases (quoted : PartialQuoted) (b : UInt8) :
    (quoted.mode = .plain ∧ b = quote ∧ quoted.onByte b = .finish quoted quoted.close) ∨
      (∃ next, quoted.onByte b = .take next) ∨ ∃ cause, quoted.onByte b = quoted.giveUp cause := by
  obtain ⟨mode, buffer⟩ := quoted
  cases mode with
  | plain =>
      by_cases hquote : b = quote
      · exact .inl ⟨rfl, hquote, if_pos hquote⟩
      · by_cases hbackslash : b = backslash
        · exact .inr (.inl ⟨_, (if_neg hquote).trans (if_pos hbackslash)⟩)
        · right
          simp only [onByte, if_neg hquote, if_neg hbackslash]
          cases isControl b with
          | true => exact .inr ⟨_, rfl⟩
          | false => exact .inl ⟨_, rfl⟩
  | escape =>
      by_cases hletter : b = lowerU
      · exact .inr (.inl ⟨_, if_pos hletter⟩)
      · right
        simp only [onByte, if_neg hletter]
        cases shortEscape? b with
        | some c => exact .inl ⟨_, rfl⟩
        | none => exact .inr ⟨_, rfl⟩
  | unit count value =>
      right
      simp only [onByte]
      cases hexValue? b with
      | none => exact .inr ⟨_, rfl⟩
      | some digit =>
          by_cases hcount : count < 3
          · exact .inl ⟨_, if_pos hcount⟩
          · simp only [if_neg hcount]
            exact addUnit_cases _ _
  | pairBackslash high =>
      by_cases hbackslash : b = backslash
      · exact .inr (.inl ⟨_, if_pos hbackslash⟩)
      · exact .inr (.inr ⟨_, if_neg hbackslash⟩)
  | pairLetter high =>
      by_cases hletter : b = lowerU
      · exact .inr (.inl ⟨_, if_pos hletter⟩)
      · exact .inr (.inr ⟨_, if_neg hletter⟩)
  | pairUnit high count value =>
      right
      simp only [onByte]
      cases hexValue? b with
      | none => exact .inr ⟨_, rfl⟩
      | some digit =>
          by_cases hcount : count < 3
          · exact .inl ⟨_, if_pos hcount⟩
          · simp only [if_neg hcount]
            exact addPair_cases _ _ _

/-- No byte is left: what cannot go on is refused behind the byte that shows it. -/
theorem onByte_ne_leave (quoted : PartialQuoted) (b : UInt8) (last : PartialQuoted)
    (result : Except Refusal String) : quoted.onByte b ≠ .leave last result := by
  rcases quoted.onByte_cases b with ⟨-, -, h⟩ | ⟨next, h⟩ | ⟨cause, h⟩
  · simp [h]
  · simp [h]
  · simp [h, giveUp]

/-- A scan succeeds only at a closing quote. -/
theorem onByte_eq_finish_ok_iff {quoted last : PartialQuoted} {b : UInt8} {text : String} :
    quoted.onByte b = .finish last (.ok text) ↔
      quoted.mode = .plain ∧ b = quote ∧ last = quoted ∧ quoted.close = .ok text := by
  constructor
  · intro hfinish
    rcases quoted.onByte_cases b with ⟨hmode, hquote, h⟩ | ⟨next, h⟩ | ⟨cause, h⟩
    · rw [h, Verdict.finish.injEq] at hfinish
      exact ⟨hmode, hquote, hfinish.1.symm, hfinish.2⟩
    · simp [h] at hfinish
    · simp [h, giveUp] at hfinish
  · rintro ⟨hmode, rfl, rfl, hclose⟩
    simp [onByte, hmode, hclose]

/-- **A string is read up to the first quote that is not escaped**, and succeeds
exactly if what stands in front of that quote is a spelling. -/
theorem completes_ok_iff {taken : List UInt8} {rest : Feed} {text : String} :
    (∃ last, scanner.Completes {} taken rest last (.ok text)) ↔
      ∃ body, taken = body ++ [quote] ∧ Spelling body text.toList := by
  have hbuffer (bytes : List UInt8) : ByteArray.empty ++ bytes.toByteArray = bytes.toByteArray :=
    ByteArray.empty_append
  constructor
  · rintro ⟨last, hcompletes⟩
    rcases Scanner.completes_iff.mp hcompletes with ⟨-, -, hend⟩ |
      ⟨body, b, mid, rfl, hbody, hbyte⟩ | ⟨mid, b, more, -, -, hbyte⟩
    · simp [scanner] at hend
    · -- The buffer is what the body decodes to, and at the quote it must be UTF-8.
      obtain ⟨hmode, rfl, -, hclose⟩ := onByte_eq_finish_ok_iff.mp hbyte
      obtain ⟨mode, buffer⟩ := mid
      obtain rfl : mode = .plain := hmode
      obtain ⟨bytes, hdecoding, rfl⟩ := afterAll?_plain_iff.mp hbody
      rw [close_eq_ok_iff, hbuffer, fromUTF8?_eq_some_iff] at hclose
      subst hclose
      exact ⟨body, rfl, decoding_encoded_iff.mp hdecoding⟩
    · exact absurd hbyte (onByte_ne_leave _ _ _ _)
  · rintro ⟨body, rfl, hspelling⟩
    have hdecoding := decoding_encoded_iff.mpr hspelling
    let quoted : PartialQuoted := ⟨.plain, ByteArray.empty ++ (encoded text.toList).toByteArray⟩
    have hbody : scanner.afterAll? {} body = some quoted :=
      afterAll?_plain_iff.mpr ⟨_, hdecoding, rfl⟩
    have htext : String.fromUTF8? (encoded text.toList).toByteArray = some text :=
      fromUTF8?_eq_some_iff.mpr rfl
    have hclose : quoted.close = .ok text := by
      rw [close_eq_ok_iff, ← htext, ← hbuffer]
    have hbyte : scanner.onByte quoted quote = .finish quoted (.ok text) :=
      onByte_eq_finish_ok_iff.mpr ⟨rfl, rfl, rfl, hclose⟩
    exact ⟨quoted, .finish hbody hbyte⟩

end PartialQuoted

end RequiredKeys
