import RequiredKeys.Lexeme.Number
import RequiredKeys.Json.Reader
import RequiredKeys.Proofs.Input.Scanning
import RequiredKeys.Proofs.Text.Encoding

/-!
# The grammar of numbers

`NumberText` is the number of RFC 8259, part by part: an optional minus sign, a
whole part without leading zeros, an optional fraction and an optional exponent.

* `Then` puts two grammars one behind the other; `then_cons` takes the first byte
  off such a text.
* `NumberPhase.Continues` is the grammar of what is still missing in a phase, and
  `continues_cons` says that the table `next?` takes the first byte off it.  So the
  phases accept exactly the numbers.
* `completes_iff` is the scanner: it hands on a number text byte for byte, at the
  first byte with which no number goes on.
-/

namespace RequiredKeys

open Ascii

/-- Texts of one kind directly followed by texts of another. -/
def Then (first second : List UInt8 → Prop) (bytes : List UInt8) : Prop :=
  ∃ left right, bytes = left ++ right ∧ first left ∧ second right

/-- Digits, perhaps none. -/
def AnyDigits (bytes : List UInt8) : Prop :=
  ∀ b ∈ bytes, isDigit b = true

/-- One or more digits. -/
def Digits (bytes : List UInt8) : Prop :=
  bytes ≠ [] ∧ AnyDigits bytes

/-- A minus sign, or nothing. -/
def OptionalMinus (bytes : List UInt8) : Prop :=
  bytes = [] ∨ bytes = [minus]

/-- The digit zero alone, or digits that do not begin with it. -/
def WholePart (bytes : List UInt8) : Prop :=
  bytes = [zero] ∨ Digits bytes ∧ bytes.head? ≠ some zero

/-- A point with digits behind it, or nothing. -/
def OptionalFraction (bytes : List UInt8) : Prop :=
  bytes = [] ∨ ∃ digits, Digits digits ∧ bytes = point :: digits

/-- A sign of either kind, or nothing. -/
def OptionalSign (bytes : List UInt8) : Prop :=
  bytes = [] ∨ ∃ sign, isSign sign = true ∧ bytes = [sign]

/-- An exponent mark with a signed row of digits behind it, or nothing. -/
def OptionalExponent (bytes : List UInt8) : Prop :=
  bytes = [] ∨ ∃ mark power, isExponentMark mark = true ∧ Then OptionalSign Digits power ∧
    bytes = mark :: power

/-- The number texts. -/
def NumberText : List UInt8 → Prop :=
  Then OptionalMinus (Then WholePart (Then OptionalFraction OptionalExponent))

/-- The bytes that occur in numbers. -/
def isNumberByte (b : UInt8) : Bool :=
  isDigit b || b == point || isExponentMark b || isSign b

/-- The bytes directly behind which a number lacks a digit. -/
def awaitsDigit (b : UInt8) : Bool :=
  isSign b || b == point || isExponentMark b

/-- `Stops wanted rest`: nothing that is wanted comes next. -/
def Stops (wanted : UInt8 → Bool) (rest : List UInt8) : Prop :=
  ∀ b ∈ rest.head?, wanted b = false

/-- `NumberEnds bytes rest`: no number begins with `bytes` and the byte that `rest`
delivers next.  A failed read in front of that byte leaves the question open. -/
def NumberEnds (bytes : List UInt8) (rest : Feed) : Prop :=
  rest = [] ∨ ∃ b more, rest = .byte b :: more ∧ ∀ tail, ¬ NumberText (bytes ++ b :: tail)

/-! ## One byte at a time -/

theorem then_nil {first second : List UInt8 → Prop} :
    Then first second [] ↔ first [] ∧ second [] := by
  constructor
  · rintro ⟨left, right, hbytes, hfirst, hsecond⟩
    obtain ⟨rfl, rfl⟩ := List.append_eq_nil_iff.mp hbytes.symm
    exact ⟨hfirst, hsecond⟩
  · rintro ⟨hfirst, hsecond⟩
    exact ⟨[], [], rfl, hfirst, hsecond⟩

theorem then_cons {first second : List UInt8 → Prop} {b : UInt8} {bytes : List UInt8} :
    Then first second (b :: bytes) ↔
      first [] ∧ second (b :: bytes) ∨ Then (fun left => first (b :: left)) second bytes := by
  constructor
  · rintro ⟨left, right, hbytes, hfirst, hsecond⟩
    cases left with
    | nil => exact .inl ⟨hfirst, by rwa [hbytes]⟩
    | cons c left =>
        simp only [List.cons_append, List.cons.injEq] at hbytes
        obtain ⟨rfl, rfl⟩ := hbytes
        exact .inr ⟨left, right, rfl, hfirst, hsecond⟩
  · rintro (⟨hfirst, hsecond⟩ | ⟨left, right, rfl, hfirst, hsecond⟩)
    · exact ⟨[], b :: bytes, rfl, hfirst, hsecond⟩
    · exact ⟨b :: left, right, rfl, hfirst, hsecond⟩

/-- A first part that is only guarded by a condition leaves the second one. -/
theorem then_guard {guard : Prop} {second : List UInt8 → Prop} {bytes : List UInt8} :
    Then (fun left => guard ∧ left = []) second bytes ↔ guard ∧ second bytes := by
  constructor
  · rintro ⟨left, right, rfl, ⟨hguard, rfl⟩, hsecond⟩
    exact ⟨hguard, hsecond⟩
  · rintro ⟨hguard, hsecond⟩
    exact ⟨[], bytes, rfl, ⟨hguard, rfl⟩, hsecond⟩

theorem then_and_left {guard : Prop} {first second : List UInt8 → Prop} {bytes : List UInt8} :
    Then (fun left => guard ∧ first left) second bytes ↔ guard ∧ Then first second bytes := by
  constructor
  · rintro ⟨left, right, rfl, ⟨hguard, hfirst⟩, hsecond⟩
    exact ⟨hguard, left, right, rfl, hfirst, hsecond⟩
  · rintro ⟨hguard, left, right, rfl, hfirst, hsecond⟩
    exact ⟨left, right, rfl, ⟨hguard, hfirst⟩, hsecond⟩

theorem then_or_left {first other second : List UInt8 → Prop} {bytes : List UInt8} :
    Then (fun left => first left ∨ other left) second bytes ↔
      Then first second bytes ∨ Then other second bytes := by
  constructor
  · rintro ⟨left, right, rfl, hfirst | hother, hsecond⟩
    · exact .inl ⟨left, right, rfl, hfirst, hsecond⟩
    · exact .inr ⟨left, right, rfl, hother, hsecond⟩
  · rintro (⟨left, right, rfl, hfirst, hsecond⟩ | ⟨left, right, rfl, hother, hsecond⟩)
    · exact ⟨left, right, rfl, .inl hfirst, hsecond⟩
    · exact ⟨left, right, rfl, .inr hother, hsecond⟩

theorem anyDigits_nil : AnyDigits [] := by
  simp [AnyDigits]

theorem anyDigits_cons {b : UInt8} {bytes : List UInt8} :
    AnyDigits (b :: bytes) ↔ isDigit b = true ∧ AnyDigits bytes := by
  simp [AnyDigits]

theorem not_digits_nil : ¬ Digits [] := by
  simp [Digits]

theorem digits_cons {b : UInt8} {bytes : List UInt8} :
    Digits (b :: bytes) ↔ isDigit b = true ∧ AnyDigits bytes := by
  simp [Digits, anyDigits_cons]

theorem optionalMinus_cons {b : UInt8} {bytes : List UInt8} :
    OptionalMinus (b :: bytes) ↔ b = minus ∧ bytes = [] := by
  simp [OptionalMinus]

theorem not_wholePart_nil : ¬ WholePart [] := by
  simp [WholePart, not_digits_nil]

theorem wholePart_cons {b : UInt8} {bytes : List UInt8} :
    WholePart (b :: bytes) ↔
      (b = zero ∧ bytes = []) ∨ (isDigit b = true ∧ b ≠ zero) ∧ AnyDigits bytes := by
  simp only [WholePart, List.cons.injEq, digits_cons, List.head?_cons, ne_eq, Option.some.injEq,
    and_right_comm]

theorem optionalFraction_cons {b : UInt8} {bytes : List UInt8} :
    OptionalFraction (b :: bytes) ↔ b = point ∧ Digits bytes := by
  constructor
  · rintro (h | ⟨digits, hdigits, hbytes⟩)
    · simp at h
    · simp only [List.cons.injEq] at hbytes
      obtain ⟨rfl, rfl⟩ := hbytes
      exact ⟨rfl, hdigits⟩
  · rintro ⟨rfl, hdigits⟩
    exact .inr ⟨bytes, hdigits, rfl⟩

theorem optionalSign_cons {b : UInt8} {bytes : List UInt8} :
    OptionalSign (b :: bytes) ↔ isSign b = true ∧ bytes = [] := by
  constructor
  · rintro (h | ⟨sign, hsign, hbytes⟩)
    · simp at h
    · simp only [List.cons.injEq] at hbytes
      obtain ⟨rfl, rfl⟩ := hbytes
      exact ⟨hsign, rfl⟩
  · rintro ⟨hsign, rfl⟩
    exact .inr ⟨b, hsign, rfl⟩

theorem optionalExponent_cons {b : UInt8} {bytes : List UInt8} :
    OptionalExponent (b :: bytes) ↔
      isExponentMark b = true ∧ Then OptionalSign Digits bytes := by
  constructor
  · rintro (h | ⟨mark, power, hmark, hpower, hbytes⟩)
    · simp at h
    · simp only [List.cons.injEq] at hbytes
      obtain ⟨rfl, rfl⟩ := hbytes
      exact ⟨hmark, hpower⟩
  · rintro ⟨hmark, hpower⟩
    exact .inr ⟨b, bytes, hmark, hpower, rfl⟩

/-! ## The phases of a number -/

theorem isDigit_ne {b c : UInt8} (hb : isDigit b = true) (hc : isDigit c = false) : b ≠ c := by
  rintro rfl
  simp [hb] at hc

theorem isExponentMark_of_isDigit {b : UInt8} (h : isDigit b = true) :
    isExponentMark b = false := by
  simp [isExponentMark, isDigit_ne h (show isDigit lowerE = false by decide),
    isDigit_ne h (show isDigit upperE = false by decide)]

theorem isSign_of_isDigit {b : UInt8} (h : isDigit b = true) : isSign b = false := by
  simp [isSign, isDigit_ne h (show isDigit plus = false by decide),
    isDigit_ne h (show isDigit minus = false by decide)]

namespace NumberPhase

/-- The texts that make a number complete behind a phase. -/
def Continues : NumberPhase → List UInt8 → Prop
  | start => NumberText
  | minus => Then WholePart (Then OptionalFraction OptionalExponent)
  | zero => Then OptionalFraction OptionalExponent
  | whole => Then AnyDigits (Then OptionalFraction OptionalExponent)
  | point => Then Digits OptionalExponent
  | fraction => Then AnyDigits OptionalExponent
  | exponentMark => Then OptionalSign Digits
  | exponentSign => Digits
  | exponent => AnyDigits

/-- A number may end in a phase exactly if no digit is lacking. -/
theorem continues_nil (phase : NumberPhase) : phase.Continues [] ↔ phase.lacking? = none := by
  cases phase <;>
    simp [Continues, NumberText, lacking?, then_nil, not_wholePart_nil, not_digits_nil,
      anyDigits_nil, OptionalFraction, OptionalExponent, OptionalSign]

theorem then_fraction_cons {b : UInt8} {bytes : List UInt8} :
    Then OptionalFraction OptionalExponent (b :: bytes) ↔
      OptionalExponent (b :: bytes) ∨ b = Ascii.point ∧ Continues point bytes := by
  rw [then_cons]
  simp only [optionalFraction_cons, then_and_left]
  simp [OptionalFraction, Continues]

theorem then_digits_cons {second : List UInt8 → Prop} {b : UInt8} {bytes : List UInt8} :
    Then Digits second (b :: bytes) ↔ isDigit b = true ∧ Then AnyDigits second bytes := by
  rw [then_cons]
  simp only [digits_cons, then_and_left, not_digits_nil, false_and, false_or]

theorem then_anyDigits_cons {second : List UInt8 → Prop} {b : UInt8} {bytes : List UInt8} :
    Then AnyDigits second (b :: bytes) ↔
      second (b :: bytes) ∨ isDigit b = true ∧ Then AnyDigits second bytes := by
  rw [then_cons]
  simp only [anyDigits_cons, then_and_left, anyDigits_nil, true_and]

theorem then_wholePart_cons {second : List UInt8 → Prop} {b : UInt8} {bytes : List UInt8} :
    Then WholePart second (b :: bytes) ↔
      b = Ascii.zero ∧ second bytes ∨
        (isDigit b = true ∧ b ≠ Ascii.zero) ∧ Then AnyDigits second bytes := by
  rw [then_cons]
  simp only [wholePart_cons, then_or_left, then_guard, then_and_left, not_wholePart_nil,
    false_and, false_or]

/-- **The table takes the first byte off what is missing.**  Case by case over the
phases; the classes of bytes that a phase tells apart exclude one another. -/
theorem continues_cons (phase : NumberPhase) (b : UInt8) (bytes : List UInt8) :
    phase.Continues (b :: bytes) ↔
      ∃ next, phase.next? b = some next ∧ next.Continues bytes := by
  have hpoint : isDigit Ascii.point = false := by decide
  have hminus : isDigit Ascii.minus = false := by decide
  have hpointMark : isExponentMark Ascii.point = false := by decide
  have hminusZero : Ascii.minus ≠ Ascii.zero := by decide
  -- In each phase the text is taken apart at its first part, and the tests of the table
  -- are then made one after the other.
  cases phase with
  | start =>
      change Then OptionalMinus _ (b :: bytes) ↔ _
      rw [then_cons]
      simp only [optionalMinus_cons, then_guard, then_wholePart_cons]
      by_cases hb : b = Ascii.minus
      · subst hb
        simp [OptionalMinus, next?, hminus, hminusZero, Continues]
      · by_cases hz : b = Ascii.zero
        · subst hz
          simp [OptionalMinus, next?, hminusZero.symm, Continues]
        · by_cases hd : isDigit b = true <;> simp [OptionalMinus, next?, hb, hz, hd, Continues]
  | minus =>
      change Then WholePart _ (b :: bytes) ↔ _
      rw [then_wholePart_cons]
      by_cases hz : b = Ascii.zero
      · subst hz
        simp [next?, Continues]
      · by_cases hd : isDigit b = true <;> simp [next?, hz, hd, Continues]
  | zero =>
      change Then OptionalFraction OptionalExponent (b :: bytes) ↔ _
      rw [then_fraction_cons, optionalExponent_cons]
      by_cases hp : b = Ascii.point
      · subst hp
        simp [next?, hpointMark]
      · by_cases he : isExponentMark b = true <;> simp [next?, hp, he, Continues]
  | whole =>
      change Then AnyDigits _ (b :: bytes) ↔ _
      rw [then_anyDigits_cons, then_fraction_cons, optionalExponent_cons]
      by_cases hd : isDigit b = true
      · simp [next?, hd, isDigit_ne hd hpoint, isExponentMark_of_isDigit hd, Continues]
      · by_cases hp : b = Ascii.point
        · subst hp
          simp [next?, hpoint, hpointMark]
        · by_cases he : isExponentMark b = true <;> simp [next?, hd, hp, he, Continues]
  | point =>
      change Then Digits _ (b :: bytes) ↔ _
      rw [then_digits_cons]
      by_cases hd : isDigit b = true <;> simp [next?, hd, Continues]
  | fraction =>
      change Then AnyDigits _ (b :: bytes) ↔ _
      rw [then_anyDigits_cons, optionalExponent_cons]
      by_cases hd : isDigit b = true
      · simp [next?, hd, isExponentMark_of_isDigit hd, Continues]
      · by_cases he : isExponentMark b = true <;> simp [next?, hd, he, Continues]
  | exponentMark =>
      change Then OptionalSign _ (b :: bytes) ↔ _
      rw [then_cons, digits_cons]
      simp only [optionalSign_cons, then_guard]
      by_cases hd : isDigit b = true
      · simp [next?, hd, isSign_of_isDigit hd, OptionalSign, Continues]
      · by_cases hs : isSign b = true <;> simp [next?, hs, hd, Continues]
  | exponentSign =>
      change Digits (b :: bytes) ↔ _
      rw [digits_cons]
      by_cases hd : isDigit b = true <;> simp [next?, hd, Continues]
  | exponent =>
      change AnyDigits (b :: bytes) ↔ _
      rw [anyDigits_cons]
      by_cases hd : isDigit b = true <;> simp [next?, hd, Continues]

/-- Some text completes a number in every phase. -/
theorem exists_continues (phase : NumberPhase) : ∃ tail, phase.Continues tail := by
  cases hphase : phase.lacking? with
  | none => exact ⟨[], (continues_nil phase).mpr hphase⟩
  | some part =>
      -- Whatever part is lacking, one digit makes it good.
      refine ⟨[Ascii.zero], (continues_cons phase _ _).mpr ?_⟩
      cases phase with
      | start => exact ⟨zero, by decide, (continues_nil _).mpr rfl⟩
      | minus => exact ⟨zero, by decide, (continues_nil _).mpr rfl⟩
      | point => exact ⟨fraction, by decide, (continues_nil _).mpr rfl⟩
      | exponentMark => exact ⟨exponent, by decide, (continues_nil _).mpr rfl⟩
      | exponentSign => exact ⟨exponent, by decide, (continues_nil _).mpr rfl⟩
      | zero => simp [lacking?] at hphase
      | whole => simp [lacking?] at hphase
      | fraction => simp [lacking?] at hphase
      | exponent => simp [lacking?] at hphase

/-- A byte of no number ends a number in every phase. -/
theorem next?_eq_none {b : UInt8} (h : isNumberByte b = false) (phase : NumberPhase) :
    phase.next? b = none := by
  simp only [isNumberByte, isSign, Bool.or_eq_false_iff, beq_eq_false_iff_ne] at h
  obtain ⟨⟨⟨hdigit, hpoint⟩, hmark⟩, hplus, hminus⟩ := h
  have hzero : b ≠ Ascii.zero := by
    rintro rfl
    exact absurd hdigit (by decide)
  cases phase <;> simp_all [next?, isSign]

/-- The phase behind a run of bytes, if a number can go on with every one of them. -/
def afterAll? (phase : NumberPhase) (bytes : List UInt8) : Option NumberPhase :=
  bytes.foldlM next? phase

theorem continues_append {phase : NumberPhase} {bytes tail : List UInt8} :
    phase.Continues (bytes ++ tail) ↔
      ∃ last, phase.afterAll? bytes = some last ∧ last.Continues tail := by
  induction bytes generalizing phase with
  | nil => simp [afterAll?]
  | cons b bytes ih =>
      rw [List.cons_append, continues_cons]
      simp only [afterAll?, List.foldlM_cons, Option.bind_eq_bind, Option.bind_eq_some_iff]
      constructor
      · rintro ⟨next, hbyte, htail⟩
        obtain ⟨last, hlast, hcontinues⟩ := ih.mp htail
        exact ⟨last, ⟨next, hbyte, hlast⟩, hcontinues⟩
      · rintro ⟨last, ⟨next, hbyte, hlast⟩, hcontinues⟩
        exact ⟨next, hbyte, ih.mpr ⟨last, hlast, hcontinues⟩⟩

/-- The phases accept exactly the number texts. -/
theorem numberText_iff {bytes : List UInt8} :
    NumberText bytes ↔ ∃ last, start.afterAll? bytes = some last ∧ last.lacking? = none := by
  change start.Continues bytes ↔ _
  have h : start.Continues (bytes ++ []) ↔ _ := continues_append
  simpa only [List.append_nil, continues_nil] using h

/-- The last byte tells whether a digit is lacking.  One case per place of the table. -/
theorem isSome_lacking?_of_next? {phase next : NumberPhase} {b : UInt8}
    (h : phase.next? b = some next) : next.lacking?.isSome = awaitsDigit b := by
  have hdigit (hb : isDigit b = true) : awaitsDigit b = false := by
    have hpoint := isDigit_ne hb (show isDigit Ascii.point = false by decide)
    simp [awaitsDigit, isSign_of_isDigit hb, isExponentMark_of_isDigit hb, hpoint]
  have hzero : awaitsDigit Ascii.zero = false := by decide
  have hminus : awaitsDigit Ascii.minus = true := by decide
  have hpoint : awaitsDigit Ascii.point = true := by decide
  have hmark (hb : isExponentMark b = true) : awaitsDigit b = true := by simp [awaitsDigit, hb]
  have hsign (hb : isSign b = true) : awaitsDigit b = true := by simp [awaitsDigit, hb]
  cases phase <;> grind [next?, lacking?]

theorem isSome_lacking?_of_afterAll? {bytes : List UInt8} {b : UInt8} {phase last : NumberPhase}
    (h : phase.afterAll? (bytes ++ [b]) = some last) : last.lacking?.isSome = awaitsDigit b := by
  rw [afterAll?, List.foldlM_append] at h
  obtain ⟨mid, -, hlast⟩ := Option.bind_eq_some_iff.mp h
  obtain ⟨next, hnext, hsame⟩ := Option.bind_eq_some_iff.mp hlast
  obtain rfl : next = last := Option.some.inj hsame
  exact isSome_lacking?_of_next? hnext

/-- No number goes on with a byte exactly if the phase has no place for it. -/
theorem next?_eq_none_iff {bytes : List UInt8} {last : NumberPhase}
    (h : start.afterAll? bytes = some last) (b : UInt8) :
    last.next? b = none ↔ ∀ tail, ¬ NumberText (bytes ++ b :: tail) := by
  constructor
  · intro hnone tail htext
    obtain ⟨mid, hmid, hcontinues⟩ := continues_append.mp (show start.Continues _ from htext)
    obtain rfl : last = mid := by simpa [h] using hmid
    obtain ⟨next, hnext, -⟩ := (continues_cons last b tail).mp hcontinues
    simp [hnone] at hnext
  · intro hno
    cases hnext : last.next? b with
    | none => rfl
    | some next =>
        obtain ⟨tail, htail⟩ := exists_continues next
        have hcontinues := (continues_cons last b tail).mpr ⟨next, hnext, htail⟩
        exact (hno tail (continues_append.mpr ⟨last, h, hcontinues⟩)).elim

end NumberPhase

/-! ## Facts about number texts -/

theorem numberText_ne_nil {bytes : List UInt8} (h : NumberText bytes) : bytes ≠ [] := by
  rintro rfl
  simp [NumberText, then_nil, not_wholePart_nil] at h

/-- A number holds no other bytes. -/
theorem isNumberByte_of_mem {bytes : List UInt8} {b : UInt8} (h : NumberText bytes)
    (hb : b ∈ bytes) : isNumberByte b = true := by
  obtain ⟨before, after, rfl⟩ := List.append_of_mem hb
  obtain ⟨phase, -, hcontinues⟩ :=
    NumberPhase.continues_append.mp (show NumberPhase.start.Continues _ from h)
  obtain ⟨next, hnext, -⟩ := (NumberPhase.continues_cons phase b after).mp hcontinues
  cases hbyte : isNumberByte b with
  | true => rfl
  | false => simp [NumberPhase.next?_eq_none hbyte] at hnext

theorem bounds_of_isNumberByte {b : UInt8} (h : isNumberByte b = true) :
    0x20 ≤ b.toNat ∧ b.toNat < 0x80 := by
  simp only [isNumberByte, isDigit_iff, isExponentMark, isSign, Bool.or_eq_true, beq_iff_eq] at h
  rcases h with ((⟨hlow, hhigh⟩ | rfl) | rfl | rfl) | rfl | rfl
  · omega
  all_goals decide

/-- A number text is the encoding of the text that it is kept as. -/
theorem encoded_asciiText {bytes : List UInt8} (h : NumberText bytes) :
    encoded (Json.Reader.asciiText bytes).toList = bytes := by
  have hascii (b : UInt8) (hb : b ∈ bytes) : b.toNat < 0x80 :=
    (bounds_of_isNumberByte (isNumberByte_of_mem h hb)).2
  rw [Json.Reader.asciiText, String.toList_ofList, encoded_map_ofUInt8 hascii]

/-- A number begins with a minus sign or a digit. -/
theorem numberText_head {b : UInt8} {bytes : List UInt8} (h : NumberText (b :: bytes)) :
    b = minus ∨ isDigit b = true := by
  have hzero : isDigit zero = true := by decide
  rw [NumberText, then_cons, NumberPhase.then_wholePart_cons] at h
  simp only [optionalMinus_cons, then_guard] at h
  rcases h with ⟨-, ⟨rfl, -⟩ | ⟨⟨hdigit, -⟩, -⟩⟩ | ⟨hminus, -⟩
  · exact .inr hzero
  · exact .inr hdigit
  · exact .inl hminus

/-- A number ends in front of every byte that occurs in no number. -/
theorem numberEnds_of_byte {bytes : List UInt8} {b : UInt8} (htext : NumberText bytes)
    (h : isNumberByte b = false) (feed : Feed) : NumberEnds bytes (.byte b :: feed) := by
  obtain ⟨last, hlast, -⟩ := NumberPhase.numberText_iff.mp htext
  have hnone := NumberPhase.next?_eq_none h last
  exact .inr ⟨b, feed, rfl, (NumberPhase.next?_eq_none_iff hlast b).mp hnone⟩

theorem numberEnds_of_stops {bytes rest : List UInt8} (htext : NumberText bytes)
    (h : Stops isNumberByte rest) : NumberEnds bytes (Feed.ofBytes rest) := by
  cases rest with
  | nil => exact .inl rfl
  | cons b rest => exact numberEnds_of_byte htext (h b rfl) _

/-- A byte that ends a number ends it whatever comes behind that byte. -/
theorem NumberEnds.of_byte {bytes : List UInt8} {b : UInt8} {feed : Feed}
    (h : NumberEnds bytes (.byte b :: feed)) (other : Feed) :
    NumberEnds bytes (.byte b :: other) := by
  obtain hnil | ⟨c, more, hfeed, hlongest⟩ := h
  · simp at hnil
  · obtain ⟨hbyte, -⟩ := List.cons.inj hfeed
    exact .inr ⟨c, other, congrArg (· :: other) hbyte, hlongest⟩

/-- Where a number ends depends on the next delivery only, so what lies behind a feed may be
exchanged for something else in front of which the number ends. -/
theorem NumberEnds.exchange {bytes : List UInt8} {feed behind other : Feed}
    (h : NumberEnds bytes (feed ++ behind)) (hother : NumberEnds bytes other) :
    NumberEnds bytes (feed ++ other) := by
  cases feed with
  | nil => exact hother
  | cons delivery feed =>
      obtain hnil | ⟨b, more, hfeed, hlongest⟩ := h
      · simp at hnil
      · obtain ⟨rfl, -⟩ := List.cons.inj hfeed
        exact .inr ⟨b, feed ++ other, rfl, hlongest⟩

/-- What is cut off behind a number does not make it go on. -/
theorem NumberEnds.of_append {bytes left right : List UInt8}
    (h : NumberEnds bytes (Feed.ofBytes (left ++ right))) :
    NumberEnds bytes (Feed.ofBytes left) := by
  rw [Feed.ofBytes_append] at h
  have hleft : NumberEnds bytes (Feed.ofBytes left ++ []) := h.exchange (.inl rfl)
  rwa [List.append_nil] at hleft

namespace PartialNumber

open Json.Reader

/-- The scanner moves through the phases and keeps every byte. -/
theorem afterAll?_scanner (phase : NumberPhase) (text : String) (bytes : List UInt8) :
    scanner.afterAll? ⟨phase, text⟩ bytes =
      (phase.afterAll? bytes).map (fun last => ⟨last, text ++ asciiText bytes⟩) := by
  induction bytes generalizing phase text with
  | nil => simp [NumberPhase.afterAll?, asciiText]
  | cons b bytes ih =>
      cases hnext : phase.next? b with
      | none => simp [Scanner.afterAll?, scanner, onByte, NumberPhase.afterAll?, hnext]
      | some next =>
          have hbyte : scanner.onByte ⟨phase, text⟩ b =
              .take ⟨next, text.push (Char.ofUInt8 b)⟩ := by
            simp [scanner, onByte, hnext]
          have htext : text.push (Char.ofUInt8 b) ++ asciiText bytes =
              text ++ asciiText (b :: bytes) := by
            rw [String.push_eq_append, String.append_assoc, asciiText, asciiText, List.map_cons,
              String.ofList_cons]
          rw [Scanner.afterAll?, hbyte]
          simp only [ih, htext, NumberPhase.afterAll?, List.foldlM_cons, hnext, Option.bind_eq_bind,
            Option.bind_some]

/-- The initial state has the text behind it that it has taken. -/
theorem afterAll?_scanner_eq_some {bytes : List UInt8} {last : PartialNumber} :
    scanner.afterAll? {} bytes = some last ↔
      NumberPhase.start.afterAll? bytes = some last.phase ∧ last.text = asciiText bytes := by
  have h := afterAll?_scanner .start "" bytes
  rw [show ({} : PartialNumber) = ⟨.start, ""⟩ from rfl, h]
  constructor
  · intro hmap
    obtain ⟨phase, hphase, rfl⟩ := Option.map_eq_some_iff.mp hmap
    exact ⟨hphase, by simp⟩
  · rintro ⟨hphase, htext⟩
    obtain ⟨phase, text⟩ := last
    obtain rfl : text = asciiText bytes := htext
    rw [hphase]
    simp

theorem close_eq_ok_iff {number : PartialNumber} {text : String} :
    number.close = .ok text ↔ number.phase.lacking? = none ∧ number.text = text := by
  unfold close
  split
  · next h => simp [h]
  · next part h => simp [h]

theorem onByte_ne_finish (number : PartialNumber) (b : UInt8) (last : PartialNumber)
    (result : Except Refusal String) : number.onByte b ≠ .finish last result := by
  unfold onByte
  split <;> simp

theorem onByte_eq_leave_iff {number last : PartialNumber} {b : UInt8}
    {result : Except Refusal String} :
    number.onByte b = .leave last result ↔
      number.phase.next? b = none ∧ last = number ∧ result = number.close := by
  unfold onByte
  split
  · next phase h => simp [h]
  · next h => simp [h, eq_comm]

/-- **Numbers are read to the longest text that can begin a number**, and succeed
exactly if that text is one. -/
theorem completes_ok_iff {taken : List UInt8} {rest : Feed} {text : String} :
    (∃ last, scanner.Completes {} taken rest last (.ok text)) ↔
      NumberText taken ∧ NumberEnds taken rest ∧ text = asciiText taken := by
  constructor
  · rintro ⟨last, hcompletes⟩
    rcases Scanner.completes_iff.mp hcompletes with ⟨htaken, rfl, hend⟩ |
      ⟨before, b, mid, -, -, hbyte⟩ | ⟨mid, b, more, htaken, rfl, hbyte⟩
    · obtain ⟨hphase, htext⟩ := afterAll?_scanner_eq_some.mp htaken
      obtain ⟨hlacking, rfl⟩ := close_eq_ok_iff.mp hend
      exact ⟨NumberPhase.numberText_iff.mpr ⟨_, hphase, hlacking⟩, .inl rfl, htext⟩
    · exact absurd hbyte (onByte_ne_finish _ _ _ _)
    · -- The byte that is left is one with which no number goes on.
      obtain ⟨hphase, htext⟩ := afterAll?_scanner_eq_some.mp htaken
      obtain ⟨hnone, rfl, hclose⟩ := onByte_eq_leave_iff.mp hbyte
      obtain ⟨hlacking, rfl⟩ := close_eq_ok_iff.mp hclose.symm
      exact ⟨NumberPhase.numberText_iff.mpr ⟨_, hphase, hlacking⟩,
        .inr ⟨b, more, rfl, (NumberPhase.next?_eq_none_iff hphase b).mp hnone⟩, htext⟩
  · rintro ⟨hnumber, hends, rfl⟩
    obtain ⟨phase, hphase, hlacking⟩ := NumberPhase.numberText_iff.mp hnumber
    let number : PartialNumber := ⟨phase, asciiText taken⟩
    have htaken : scanner.afterAll? {} taken = some number :=
      afterAll?_scanner_eq_some.mpr ⟨hphase, rfl⟩
    have hclose : number.close = .ok (asciiText taken) := close_eq_ok_iff.mpr ⟨hlacking, rfl⟩
    refine ⟨number, Scanner.completes_iff.mpr ?_⟩
    rcases hends with rfl | ⟨b, more, rfl, hno⟩
    · exact .inl ⟨htaken, rfl, hclose⟩
    · have hnone := (NumberPhase.next?_eq_none_iff hphase b).mpr hno
      exact .inr (.inr ⟨number, b, more, htaken, rfl,
        onByte_eq_leave_iff.mpr ⟨hnone, rfl, hclose.symm⟩⟩)

end PartialNumber

end RequiredKeys
