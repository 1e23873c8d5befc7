import RequiredKeys.Proofs.Lexeme.Quoted

/-!
# Behind an opening quote

A string is read behind its opening quote from any bytes at all.  `Enclosed` says where it would
end, by the quotes and backslashes alone: at the first quote that no backslash escapes.  What stands
in front of that quote is a spelling, and then the scan gives the text it writes; or it is none, and
then the scan refuses it as malformed (`PartialQuoted.unquotes`).

* `ModeStep` is the table of the scanner as far as quotes are concerned: it waits for the letter of
  an escape exactly behind a backslash, so it never takes a quote that would close the string.
* `Flawed` lists what must not pass although each byte of it is allowed somewhere: half a pair of
  surrogates, or raw bytes between two escapes that are no UTF-8 by themselves.  Here the escapes
  are complete characters, so they add nothing to a broken character next to them
  (`exists_encoded_of_append`).
-/

namespace RequiredKeys

open Ascii

/-- What stands in front of the quote that closes a string: every backslash has a byte behind it,
and there is no other quote than such bytes. -/
inductive Enclosed : List UInt8 → Prop
  | nil : Enclosed []
  | other {b : UInt8} {body : List UInt8} (hquote : b ≠ quote) (hbackslash : b ≠ backslash)
      (h : Enclosed body) : Enclosed (b :: body)
  | escaped {b : UInt8} {body : List UInt8} (h : Enclosed body) :
      Enclosed (backslash :: b :: body)

/-- What must not pass between two quotes.  The bytes in front of a flaw are in order as far as
they go; those behind it are any. -/
inductive Flawed : List UInt8 → Prop
  /-- A control character that is not escaped. -/
  | control {body : List UInt8} {b : UInt8} (hb : b ∈ body) (hcontrol : isControl b = true) :
      Flawed body
  /-- The second half of a pair without the first. -/
  | lowSurrogate {before written digits : List UInt8} {unit : Nat}
      (hbefore : Decoding before written) (hunit : HexUnit digits unit)
      (hlow : 0xdc00 ≤ unit ∧ unit ≤ 0xdfff) (behind : List UInt8) :
      Flawed (before ++ backslash :: lowerU :: (digits ++ behind))
  /-- The first half of a pair with anything else behind it than the second. -/
  | highSurrogate {before written digits behind : List UInt8} {unit : Nat}
      (hbefore : Decoding before written) (hunit : HexUnit digits unit)
      (hhigh : 0xd800 ≤ unit ∧ unit ≤ 0xdbff)
      (hbehind : ∀ more low rest, HexUnit more low →
        behind = backslash :: lowerU :: (more ++ rest) → ¬ (0xdc00 ≤ low ∧ low ≤ 0xdfff)) :
      Flawed (before ++ backslash :: lowerU :: (digits ++ behind))
  /-- Raw bytes from the opening quote to an escape or to the end that are no characters. -/
  | rawAtStart {raw behind : List UInt8} (hraw : ∀ b ∈ raw, isPlain b = true)
      (hbroken : ∀ chars, raw ≠ encoded chars) (hbehind : ∀ b ∈ behind.head?, b = backslash) :
      Flawed (raw ++ behind)
  /-- Raw bytes from one escape to another or to the end that are no characters. -/
  | rawBehind {before written escape raw behind : List UInt8} {c : Char}
      (hbefore : Decoding before written) (hescape : EscapeText escape c)
      (hraw : ∀ b ∈ raw, isPlain b = true) (hbroken : ∀ chars, raw ≠ encoded chars)
      (hbehind : ∀ b ∈ behind.head?, b = backslash) :
      Flawed (before ++ backslash :: (escape ++ (raw ++ behind)))

/-! ## Where a string would end -/

namespace Enclosed

theorem append {left right : List UInt8} (hleft : Enclosed left) (hright : Enclosed right) :
    Enclosed (left ++ right) := by
  induction hleft with
  | nil => exact hright
  | other hquote hbackslash _ ih => exact .other hquote hbackslash ih
  | escaped _ ih => exact .escaped ih

theorem of_plain {run : List UInt8} (h : ∀ b ∈ run, isPlain b = true) : Enclosed run := by
  induction run with
  | nil => exact .nil
  | cons b run ih =>
      rw [List.forall_mem_cons] at h
      obtain ⟨hquote, hbackslash, -⟩ := isPlain_iff.mp h.1
      exact .other hquote hbackslash (ih h.2)

/-- Only one quote closes a string. -/
theorem unique {body other rest behind : List UInt8} (hbody : Enclosed body)
    (hother : Enclosed other) (h : body ++ quote :: rest = other ++ quote :: behind) :
    body = other := by
  have hne : quote ≠ backslash := by decide
  induction hbody generalizing other with
  | nil =>
      cases hother with
      | nil => rfl
      | other hquote _ _ => exact absurd (List.cons.inj h).1.symm hquote
      | escaped _ => exact absurd (List.cons.inj h).1 hne
  | other hquote hbackslash _ ih =>
      cases hother with
      | nil => exact absurd (List.cons.inj h).1 hquote
      | other _ _ hother =>
          rw [List.cons_append, List.cons_append, List.cons.injEq] at h
          obtain ⟨rfl, hbehind⟩ := h
          rw [ih hother hbehind]
      | escaped _ => exact absurd (List.cons.inj h).1 hbackslash
  | escaped _ ih =>
      cases hother with
      | nil => exact absurd (List.cons.inj h).1.symm hne
      | other _ hbackslash _ => exact absurd (List.cons.inj h).1.symm hbackslash
      | escaped hother =>
          simp only [List.cons_append, List.cons.injEq, true_and] at h
          obtain ⟨rfl, hbehind⟩ := h
          rw [ih hother hbehind]

end Enclosed

/-- A hexadecimal digit stands for itself outside of escapes. -/
theorem isPlain_of_hexValue? {b : UInt8} {digit : Nat} (h : hexValue? b = some digit) :
    isPlain b = true := by
  have hvalue := hexValue?_eq_some_iff.mp h
  simp only [Char.reduceToNat] at hvalue
  have hquote : quote.toNat = 0x22 := rfl
  have hbackslash : backslash.toNat = 0x5c := rfl
  rw [isPlain_iff]
  refine ⟨?_, ?_, by omega⟩
  · rintro rfl
    omega
  · rintro rfl
    omega

namespace HexUnit

theorem isPlain_of_mem {digits : List UInt8} {value : Nat} (h : HexUnit digits value) :
    ∀ b ∈ digits, isPlain b = true := by
  obtain ⟨a, b, c, d, w, x, y, z, rfl, ha, hb, hc, hd, -⟩ := h
  simp [isPlain_of_hexValue? ha, isPlain_of_hexValue? hb, isPlain_of_hexValue? hc,
    isPlain_of_hexValue? hd]

theorem length_eq {digits : List UInt8} {value : Nat} (h : HexUnit digits value) :
    digits.length = 4 := by
  obtain ⟨a, b, c, d, w, x, y, z, rfl, -⟩ := h
  rfl

/-- Four digits write one number. -/
theorem unique {digits : List UInt8} {value other : Nat} (h : HexUnit digits value)
    (hother : HexUnit digits other) : other = value := by
  obtain ⟨a, b, c, d, w, x, y, z, rfl, ha, hb, hc, hd, rfl⟩ := h
  obtain ⟨_, _, _, _, w', x', y', z', hdigits, ha', hb', hc', hd', rfl⟩ := hother
  simp only [List.cons.injEq, and_true] at hdigits
  obtain ⟨rfl, rfl, rfl, rfl⟩ := hdigits
  simp_all

end HexUnit

/-- An escape holds no closing quote. -/
theorem EscapeText.enclosed {escape : List UInt8} {c : Char} (h : EscapeText escape c) :
    Enclosed (backslash :: escape) := by
  cases h with
  | short _ => exact .escaped .nil
  | unit hdigits => exact .escaped (.of_plain hdigits.isPlain_of_mem)
  | pair hdigits _ hmore _ _ =>
      have hfirst := Enclosed.of_plain hdigits.isPlain_of_mem
      have hsecond := Enclosed.of_plain hmore.isPlain_of_mem
      exact .escaped (hfirst.append (.escaped hsecond))

/-- A spelling holds no closing quote. -/
theorem Spelling.enclosed {body : List UInt8} {chars : List Char} (h : Spelling body chars) :
    Enclosed body := by
  induction h with
  | nil => exact .nil
  | plain hquote hbackslash hcontrol _ ih =>
      have hfirst := Enclosed.of_plain (fun b hb => isPlain_of_mem hquote hbackslash hcontrol hb)
      exact hfirst.append ih
  | escaped hescape _ ih => exact hescape.enclosed.append ih

/-! ## The mode of a scan -/

/-- What a byte that is taken does to the mode, as far as quotes are concerned. -/
inductive ModeStep : QuotedMode → UInt8 → QuotedMode → Prop
  | backslash : ModeStep .plain backslash .escape
  | pairBackslash (high : Nat) : ModeStep (.pairBackslash high) Ascii.backslash (.pairLetter high)
  | letter {b : UInt8} {next : QuotedMode} (h : next ≠ .escape) : ModeStep .escape b next
  | plain {mode next : QuotedMode} {b : UInt8} (hb : isPlain b = true) (h : next ≠ .escape) :
      ModeStep mode b next

namespace PartialQuoted

theorem modeStep_of_take {quoted next : PartialQuoted} {b : UInt8}
    (h : scanner.onByte quoted b = .take next) : ModeStep quoted.mode b next.mode := by
  obtain ⟨mode, buffer⟩ := quoted
  cases mode with
  | plain =>
      rcases onByte_plain_eq_take_iff.mp h with ⟨rfl, rfl⟩ | ⟨hb, rfl⟩
      · exact .backslash
      · exact .plain hb (by simp)
  | escape =>
      rcases onByte_escape_eq_take_iff.mp h with ⟨-, rfl⟩ | ⟨c, -, rfl⟩
      · exact .letter (by simp)
      · exact .letter (by simp)
  | pairBackslash high =>
      by_cases hb : b = backslash
      · subst hb
        simp only [scanner, onByte, if_true, Verdict.take.injEq] at h
        subst h
        exact .pairBackslash high
      · simp [scanner, onByte, giveUp, hb] at h
  | pairLetter high =>
      by_cases hb : b = lowerU
      · subst hb
        simp only [scanner, onByte, if_true, Verdict.take.injEq] at h
        subst h
        exact .plain (by decide) (by simp)
      · simp [scanner, onByte, giveUp, hb] at h
  | unit count value =>
      cases hdigit : hexValue? b with
      | none => simp [scanner, onByte, giveUp, hdigit] at h
      | some digit =>
          refine .plain (isPlain_of_hexValue? hdigit) ?_
          simp only [scanner, onByte, hdigit] at h
          split at h
          · obtain rfl := Verdict.take.inj h
            simp
          · rcases addUnit_eq_take_iff.mp h with ⟨-, rfl⟩ | ⟨c, -, rfl⟩
            · simp
            · simp [addChar]
  | pairUnit high count value =>
      cases hdigit : hexValue? b with
      | none => simp [scanner, onByte, giveUp, hdigit] at h
      | some digit =>
          refine .plain (isPlain_of_hexValue? hdigit) ?_
          simp only [scanner, onByte, hdigit] at h
          split at h
          · obtain rfl := Verdict.take.inj h
            simp
          · obtain ⟨-, c, -, rfl⟩ := addPair_eq_take_iff.mp h
            simp [addChar]

/-- **No scan goes on behind the quote that closes the string.** -/
theorem afterAll?_closed {body : List UInt8} (h : Enclosed body) {quoted : PartialQuoted}
    (hmode : quoted.mode ≠ .escape) (rest : List UInt8) (last : PartialQuoted) :
    scanner.afterAll? quoted (body ++ quote :: rest) ≠ some last := by
  have hplain : isPlain backslash = false := by decide
  intro htaken
  induction h generalizing quoted with
  | nil =>
      obtain ⟨next, hbyte, -⟩ := Scanner.afterAll?_cons_eq_some.mp htaken
      have hstep := modeStep_of_take hbyte
      generalize hbefore : quoted.mode = before at hstep
      cases hstep with
      | letter _ => exact hmode hbefore
      | plain hb _ => exact absurd hb (by decide)
  | @other b body _ hbackslash _ ih =>
      obtain ⟨next, hbyte, hrest⟩ := Scanner.afterAll?_cons_eq_some.mp htaken
      have hstep := modeStep_of_take hbyte
      refine ih ?_ hrest
      generalize quoted.mode = before, next.mode = after at hstep hmode
      cases hstep with
      | backslash => exact absurd rfl hbackslash
      | pairBackslash high => simp
      | letter hnext => exact hnext
      | plain _ hnext => exact hnext
  | @escaped b body _ ih =>
      obtain ⟨mid, hfirst, htail⟩ := Scanner.afterAll?_cons_eq_some.mp htaken
      obtain ⟨next, hsecond, hrest⟩ := Scanner.afterAll?_cons_eq_some.mp htail
      have hstep := modeStep_of_take hfirst
      have hstep' := modeStep_of_take hsecond
      refine ih ?_ hrest
      -- Behind the backslash the scan waits for the letter of an escape.
      generalize quoted.mode = before, mid.mode = between, next.mode = after at *
      cases hstep with
      | letter _ => exact absurd rfl hmode
      | plain hb _ => simp [hplain] at hb
      | backslash =>
          cases hstep' with
          | letter hnext => exact hnext
          | plain _ hnext => exact hnext
      | pairBackslash high =>
          cases hstep' with
          | plain _ hnext => exact hnext

end PartialQuoted

/-! ## What is no spelling -/

namespace Decoding

/-- The scanner has one way through a source, so what it reads first is read first everywhere. -/
theorem of_append {before source written bytes : List UInt8} (hbefore : Decoding before written)
    (h : Decoding (before ++ source) bytes) :
    ∃ more, bytes = written ++ more ∧ Decoding source more := by
  have hall : PartialQuoted.scanner.afterAll? {} (before ++ source) =
      some ⟨.plain, ByteArray.empty ++ bytes.toByteArray⟩ :=
    PartialQuoted.afterAll?_plain_iff.mpr ⟨bytes, h, rfl⟩
  have hfirst : PartialQuoted.scanner.afterAll? {} before =
      some ⟨.plain, ByteArray.empty ++ written.toByteArray⟩ :=
    PartialQuoted.afterAll?_plain_iff.mpr ⟨written, hbefore, rfl⟩
  obtain ⟨mid, hmid, hrest⟩ := Scanner.afterAll?_append_eq_some.mp hall
  obtain rfl := Option.some.inj (hfirst.symm.trans hmid)
  obtain ⟨more, hmore, hbuffer⟩ := PartialQuoted.afterAll?_plain_iff.mp hrest
  refine ⟨more, ?_, hmore⟩
  rw [ByteArray.empty_append, ByteArray.empty_append, ← List.toByteArray_append] at hbuffer
  exact List.toByteArray_inj.mp hbuffer

/-- Behind a backslash between characters stands an escape. -/
theorem exists_escape {source bytes : List UInt8} (h : Decoding (backslash :: source) bytes) :
    ∃ escape c rest written, source = escape ++ rest ∧ EscapeText escape c ∧
      bytes = String.utf8EncodeChar c ++ written ∧ Decoding rest written := by
  have hplain : isPlain backslash = false := by decide
  generalize hsource : backslash :: source = all at h
  cases h with
  | nil => simp at hsource
  | plain hb _ =>
      obtain ⟨rfl, -⟩ := List.cons.inj hsource
      simp [hplain] at hb
  | @escaped escape rest written c hescape hrest =>
      obtain ⟨-, rfl⟩ := List.cons.inj hsource
      exact ⟨escape, c, rest, written, rfl, hescape, rfl, hrest⟩

/-- What is written at the end of a source, or from an escape on, begins with a character. -/
theorem head_of_escape {behind bytes : List UInt8} (h : Decoding behind bytes)
    (hbehind : ∀ b ∈ behind.head?, b = backslash) : ∀ b ∈ bytes.head?, b.IsUTF8FirstByte := by
  cases behind with
  | nil =>
      cases h with
      | nil => simp
  | cons b behind =>
      obtain rfl : b = backslash := hbehind b rfl
      obtain ⟨escape, c, rest, written, -, -, rfl, -⟩ := h.exists_escape
      obtain ⟨first, tail, hencoded, hfirst, -⟩ := exists_utf8EncodeChar_eq_cons c
      rw [hencoded]
      simpa using hfirst

/-- Raw bytes up to an escape or to the end are characters by themselves. -/
theorem exists_chars {raw behind : List UInt8} {chars : List Char}
    (h : Decoding (raw ++ behind) (encoded chars)) (hraw : ∀ b ∈ raw, isPlain b = true)
    (hbehind : ∀ b ∈ behind.head?, b = backslash) : ∃ before, raw = encoded before := by
  have hfirst : Decoding (raw ++ []) (raw ++ []) := Decoding.nil.append_plain hraw
  rw [List.append_nil] at hfirst
  obtain ⟨more, hsplit, hmore⟩ := hfirst.of_append h
  obtain ⟨before, -, hbefore, -, -⟩ :=
    exists_encoded_of_append hsplit (hmore.head_of_escape hbehind)
  exact ⟨before, hbefore⟩

end Decoding

/-- Four digits are a character, or the first half of a pair with the second behind it. -/
theorem EscapeText.of_unit {escape rest digits behind : List UInt8} {c : Char} {unit : Nat}
    (h : EscapeText escape c) (hunit : HexUnit digits unit)
    (hbytes : escape ++ rest = lowerU :: (digits ++ behind)) :
    c.toNat = unit ∨ (0xd800 ≤ unit ∧ unit ≤ 0xdbff) ∧ ∃ more low,
      behind = backslash :: lowerU :: (more ++ rest) ∧ HexUnit more low ∧
        0xdc00 ≤ low ∧ low ≤ 0xdfff := by
  have hletters : ∀ entry ∈ shortEscapes, entry.1 ≠ lowerU := by decide
  cases h with
  | @short letter c hshort =>
      obtain ⟨rfl, -⟩ := List.cons.inj hbytes
      exact absurd rfl (hletters _ hshort)
  | @unit digits' c hdigits =>
      obtain ⟨-, htail⟩ := List.cons.inj hbytes
      obtain ⟨rfl, -⟩ := List.append_inj htail (by rw [hdigits.length_eq, hunit.length_eq])
      exact .inl (hunit.unique hdigits)
  | @pair digits' more high low c hdigits hhigh hmore hlow hc =>
      rw [List.cons_append, List.cons_append, List.append_assoc] at hbytes
      obtain ⟨-, htail⟩ := List.cons.inj hbytes
      obtain ⟨rfl, rfl⟩ := List.append_inj htail (by rw [hdigits.length_eq, hunit.length_eq])
      obtain rfl := hunit.unique hdigits
      exact .inr ⟨hhigh, more, low, by simp, hmore, hlow⟩

theorem isControl_of_isPlain {b : UInt8} (h : isPlain b = true) : isControl b = false := by
  simp only [isPlain, Bool.and_eq_true, Bool.not_eq_true'] at h
  exact h.2

/-- Every byte of an escape is printed. -/
theorem EscapeText.isControl_eq_false {escape : List UInt8} {c : Char} (h : EscapeText escape c)
    {b : UInt8} (hb : b ∈ escape) : isControl b = false := by
  have hletters : ∀ entry ∈ shortEscapes, isControl entry.1 = false := by decide
  cases h with
  | @short letter c hshort =>
      obtain rfl := List.mem_singleton.mp hb
      exact hletters _ hshort
  | unit hdigits =>
      rcases List.mem_cons.mp hb with rfl | hb
      · decide
      · exact isControl_of_isPlain (hdigits.isPlain_of_mem b hb)
  | pair hdigits _ hmore _ _ =>
      simp only [List.cons_append, List.mem_cons, List.mem_append] at hb
      rcases hb with rfl | hb | rfl | rfl | hb
      · decide
      · exact isControl_of_isPlain (hdigits.isPlain_of_mem b hb)
      · decide
      · decide
      · exact isControl_of_isPlain (hmore.isPlain_of_mem b hb)

theorem Decoding.isControl_eq_false {body bytes : List UInt8} (h : Decoding body bytes)
    {b : UInt8} (hb : b ∈ body) : isControl b = false := by
  induction h with
  | nil => simp at hb
  | plain hfirst _ ih =>
      rcases List.mem_cons.mp hb with rfl | hb
      · exact isControl_of_isPlain hfirst
      · exact ih hb
  | escaped hescape _ ih =>
      simp only [List.cons_append, List.mem_cons, List.mem_append] at hb
      rcases hb with rfl | hb | hb
      · decide
      · exact hescape.isControl_eq_false hb
      · exact ih hb

/-- **What is flawed spells nothing.**  The bytes in front of the flaw are read in one way only,
and what follows them would have to be a spelling by itself. -/
theorem Flawed.not_spelling {body : List UInt8} (h : Flawed body) (chars : List Char) :
    ¬ Spelling body chars := by
  intro hspelling
  have hdecoding := hspelling.decoding
  cases h with
  | control hb hcontrol =>
      simp [hdecoding.isControl_eq_false hb] at hcontrol
  | lowSurrogate hbefore hunit hlow behind =>
      obtain ⟨more, -, hmore⟩ := hbefore.of_append hdecoding
      obtain ⟨escape, c, rest, written, hbytes, hescape, -, -⟩ := hmore.exists_escape
      rcases hescape.of_unit hunit hbytes.symm with rfl | ⟨hhigh, -⟩
      · exact not_surrogate c ⟨by omega, hlow.2⟩
      · omega
  | highSurrogate hbefore hunit hhigh hbehind =>
      obtain ⟨more, -, hmore⟩ := hbefore.of_append hdecoding
      obtain ⟨escape, c, rest, written, hbytes, hescape, -, -⟩ := hmore.exists_escape
      rcases hescape.of_unit hunit hbytes.symm with rfl | ⟨-, digits, low, hpair, hdigits, hlow⟩
      · exact not_surrogate c ⟨hhigh.1, by omega⟩
      · exact hbehind digits low rest hdigits hpair hlow
  | rawAtStart hraw hbroken hbehind =>
      obtain ⟨before, hbefore⟩ := hdecoding.exists_chars hraw hbehind
      exact hbroken before hbefore
  | @rawBehind before written escape raw behind c hbefore hescape hraw hbroken hbehind =>
      -- The escape writes a character, so a character begins behind it too.
      have hescaped : Decoding (backslash :: escape ++ []) (String.utf8EncodeChar c ++ []) :=
        .escaped hescape .nil
      rw [List.append_nil, List.append_nil] at hescaped
      obtain ⟨more, hfirst, hmore⟩ := hbefore.of_append hdecoding
      obtain ⟨rest, rfl, hrest⟩ := hescaped.of_append hmore
      obtain ⟨first, tail, hencoded, hhead, -⟩ := exists_utf8EncodeChar_eq_cons c
      obtain ⟨-, behindChars, -, hbehindChars, -⟩ := exists_encoded_of_append hfirst
        (by rw [hencoded]; simpa using hhead)
      cases behindChars with
      | nil => simp [hencoded] at hbehindChars
      | cons d chars =>
          rw [encoded_cons] at hbehindChars
          obtain ⟨-, rfl⟩ := utf8EncodeChar_append_inj hbehindChars
          obtain ⟨before, hbefore⟩ := hrest.exists_chars hraw hbehind
          exact hbroken before hbefore

/-! ## Any input behind an opening quote -/

namespace PartialQuoted

/-- What `scan` makes of an input behind an opening quote that stands in front of `p`: the text of
the spelling in front of the first quote, or a refusal. -/
structure Unquotes (input : List UInt8) (p : Position) (scan : Scan PartialQuoted String) :
    Prop where
  succeeds_iff : ∀ text rest q, scan.result = .ok text ∧ scan.cursor = ⟨rest, q⟩ ↔
    ∃ body behind, input = body ++ quote :: behind ∧ Spelling body text.toList ∧
      rest = Feed.ofBytes behind ∧ q = p.afterAll (body ++ [quote])
  closed : ∀ body behind, input = body ++ quote :: behind → Enclosed body →
    (∀ chars, ¬ Spelling body chars) → ∃ q cause, scan.result = .error (.malformed q cause)
  unclosed : (∀ body behind, input = body ++ quote :: behind → ¬ Enclosed body) →
    ∃ q, (∃ cause, scan.result = .error (.malformed q cause)) ∨ scan.result = .error (.truncated q)
  flawed : ∀ body behind, input = body ++ quote :: behind → Enclosed body → Flawed body →
    ∃ q cause, scan.result = .error (.malformed q cause)

theorem run_eq_ok_iff {input : List UInt8} {p q : Position} {rest : Feed} {text : String} :
    (scanner.run {} ⟨Feed.ofBytes input, p⟩).result = .ok text ∧
        (scanner.run {} ⟨Feed.ofBytes input, p⟩).cursor = ⟨rest, q⟩ ↔
      ∃ body behind, input = body ++ quote :: behind ∧ Spelling body text.toList ∧
        rest = Feed.ofBytes behind ∧ q = p.afterAll (body ++ [quote]) := by
  constructor
  · rintro ⟨hresult, hcursor⟩
    have hscan : scanner.runFrom {} (Feed.ofBytes input) p =
        ⟨.ok text, (scanner.run {} ⟨Feed.ofBytes input, p⟩).state, ⟨rest, q⟩⟩ := by
      rw [← hresult, ← hcursor]
      rfl
    obtain ⟨taken, hinput, rfl, hcompletes⟩ := Scanner.runFrom_eq_ok_iff.mp hscan
    obtain ⟨body, rfl, hspelling⟩ := completes_ok_iff.mp ⟨_, hcompletes⟩
    obtain ⟨hrest, hsplit⟩ := Feed.eq_ofBytes_of_append hinput
    exact ⟨body, rest.bytes, by simpa using hsplit, hspelling, hrest, rfl⟩
  · rintro ⟨body, behind, rfl, hspelling, rfl, rfl⟩
    obtain ⟨last, hcompletes⟩ := completes_ok_iff.mpr ⟨body, rfl, hspelling⟩
    have hscan : scanner.run {} ⟨Feed.ofBytes (body ++ quote :: behind), p⟩ =
        ⟨.ok text, last, ⟨Feed.ofBytes behind, p.afterAll (body ++ [quote])⟩⟩ := by
      rw [Scanner.run, List.append_cons, Feed.ofBytes_append]
      exact Scanner.runFrom_of_completes hcompletes p
    rw [hscan]
    exact ⟨rfl, rfl⟩

/-- A scan succeeds, or it refuses a byte, or it has taken all there is. -/
theorem result_run_cases (input : List UInt8) (p : Position) :
    (∃ text, (scanner.run {} ⟨Feed.ofBytes input, p⟩).result = .ok text) ∨
      (∃ q cause, (scanner.run {} ⟨Feed.ofBytes input, p⟩).result = .error (.malformed q cause)) ∨
      (∃ last, scanner.afterAll? {} input = some last) ∧
        (scanner.run {} ⟨Feed.ofBytes input, p⟩).result =
          .error (.truncated (p.afterAll input)) := by
  obtain ⟨taken, rest, last, result, rfl, hcompletes, hrun⟩ :=
    scanner.exists_completes_ofBytes {} input p
  rw [hrun]
  rcases Scanner.completes_iff.mp hcompletes with ⟨htaken, hrest, rfl⟩ |
    ⟨before, b, mid, -, -, hbyte⟩ | ⟨mid, b, more, -, -, hbyte⟩
  · obtain rfl : rest = [] := Feed.ofBytes_injective hrest
    rw [List.append_nil]
    exact .inr (.inr ⟨⟨last, htaken⟩, rfl⟩)
  · rcases mid.onByte_cases b with ⟨-, -, hverdict⟩ | ⟨next, hverdict⟩ | ⟨cause, hverdict⟩
    · obtain ⟨-, rfl⟩ := Verdict.finish.inj (hverdict.symm.trans hbyte)
      cases htext : String.fromUTF8? mid.buffer with
      | some text => exact .inl ⟨text, by simp [close, htext]⟩
      | none => exact .inr (.inl ⟨_, .badUtf8, by simp [close, htext, Refusal.seenAt]; rfl⟩)
    · cases hverdict.symm.trans hbyte
    · obtain ⟨-, rfl⟩ := Verdict.finish.inj (hverdict.symm.trans hbyte)
      exact .inr (.inl ⟨_, cause, rfl⟩)
  · exact absurd hbyte (mid.onByte_ne_leave b last result)

/-- **Behind an opening quote exactly the spellings pass**, each with the text that it writes and up
to the quote that closes it.  Anything else that a quote closes is malformed, whatever follows. -/
theorem unquotes (input : List UInt8) (p : Position) :
    Unquotes input p (scanner.run {} ⟨Feed.ofBytes input, p⟩) := by
  have hclosed (body behind : List UInt8) (hinput : input = body ++ quote :: behind)
      (henclosed : Enclosed body) (hno : ∀ chars, ¬ Spelling body chars) :
      ∃ q cause, (scanner.run {} ⟨Feed.ofBytes input, p⟩).result =
        .error (.malformed q cause) := by
    obtain ⟨text, hok⟩ | hmalformed | ⟨⟨last, htaken⟩, -⟩ := result_run_cases input p
    · obtain ⟨other, rest, hother, hspelling, -, -⟩ := run_eq_ok_iff.mp ⟨hok, rfl⟩
      obtain rfl := henclosed.unique hspelling.enclosed (hinput.symm.trans hother)
      exact absurd hspelling (hno _)
    · exact hmalformed
    · subst hinput
      exact absurd htaken (afterAll?_closed henclosed (by decide) behind last)
  refine ⟨fun text rest q => run_eq_ok_iff, hclosed, ?_, ?_⟩
  · intro hopen
    obtain ⟨text, hok⟩ | ⟨q, hmalformed⟩ | ⟨-, htruncated⟩ := result_run_cases input p
    · obtain ⟨body, rest, hbody, hspelling, -, -⟩ := run_eq_ok_iff.mp ⟨hok, rfl⟩
      exact absurd hspelling.enclosed (hopen body rest hbody)
    · exact ⟨q, .inl hmalformed⟩
    · exact ⟨p.afterAll input, .inr htruncated⟩
  · intro body behind hinput henclosed hflawed
    exact hclosed body behind hinput henclosed hflawed.not_spelling

/-- The halves of a pair in the wrong order, `\udc00\ud800`, are refused behind the first one. -/
example : (scanner.run {} ⟨Feed.ofBytes [0x5c, 0x75, 0x64, 0x63, 0x30, 0x30, 0x5c, 0x75, 0x64, 0x38,
    0x30, 0x30, 0x22], Position.start⟩).result = .error (.malformed ⟨1, 7⟩ .unpairedSurrogate) := by
  rfl

end PartialQuoted
end RequiredKeys
