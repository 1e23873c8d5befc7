import RequiredKeys.Proofs.Lexeme.Number

/-!
# Numbers are read as far as any number goes

Nothing in a number says that it is over, so a reader of numbers takes bytes as long as some
number begins with them.  `LongestStart` says which bytes these are without a reader: the longest
beginning of the input with which some number begins.

* `beginsNumber_iff` is the bridge to the table of phases: a number begins with some bytes exactly
  if the table has a way for them.
* `LongestStart.of_ends` tells from the byte behind some bytes that they are the longest: it is the
  only byte that a reader looks at and does not take.
* `PartialNumber.exists_readsLongest` is the scan of any input at all: what it takes, when it
  succeeds, with which text, and where it reports that a digit is lacking.
-/

namespace RequiredKeys

open Ascii

/-- Some number begins with these bytes. -/
def BeginsNumber (bytes : List UInt8) : Prop :=
  ∃ tail, NumberText (bytes ++ tail)

/-- `taken` is the longest beginning of `input` with which some number begins. -/
structure LongestStart (input taken : List UInt8) : Prop where
  start : taken <+: input
  begins : BeginsNumber taken
  longest : ∀ other, other <+: input → BeginsNumber other → other.length ≤ taken.length

/-- The table goes on as long as some number does. -/
theorem beginsNumber_iff {bytes : List UInt8} :
    BeginsNumber bytes ↔ ∃ last, NumberPhase.start.afterAll? bytes = some last := by
  constructor
  · rintro ⟨tail, htext⟩
    obtain ⟨last, hlast, -⟩ :=
      NumberPhase.continues_append.mp (show NumberPhase.start.Continues _ from htext)
    exact ⟨last, hlast⟩
  · rintro ⟨last, hlast⟩
    obtain ⟨tail, htail⟩ := last.exists_continues
    exact ⟨tail, NumberPhase.continues_append.mpr ⟨last, hlast, htail⟩⟩

/-- A minus sign begins a number, and so does every digit. -/
theorem beginsNumber_singleton {b : UInt8} (h : b = minus ∨ isDigit b = true) :
    BeginsNumber [b] := by
  have hminus : NumberText [minus, zero] :=
    NumberPhase.numberText_iff.mpr ⟨.zero, rfl, rfl⟩
  rcases h with rfl | hdigit
  · exact ⟨[zero], hminus⟩
  · by_cases hzero : b = zero
    · subst hzero
      exact ⟨[], NumberPhase.numberText_iff.mpr ⟨.zero, rfl, rfl⟩⟩
    · have hne : b ≠ minus := isDigit_ne hdigit (by decide)
      refine beginsNumber_iff.mpr ⟨.whole, ?_⟩
      simp [NumberPhase.afterAll?, NumberPhase.next?, hne, hzero, hdigit]

namespace LongestStart

/-- There is at most one. -/
theorem unique {input taken other : List UInt8} (h : LongestStart input taken)
    (hother : LongestStart input other) : other = taken := by
  have hle := h.longest other hother.start hother.begins
  have hge := hother.longest taken h.start h.begins
  have hwithin : other <+: taken := List.prefix_of_prefix_length_le hother.start h.start hle
  exact hwithin.eq_of_length (Nat.le_antisymm hle hge)

/-- Bytes with which a number begins are the longest where a number would have to end. -/
theorem of_ends {taken rest : List UInt8} (h : BeginsNumber taken)
    (hends : NumberEnds taken (Feed.ofBytes rest)) : LongestStart (taken ++ rest) taken where
  start := List.prefix_append taken rest
  begins := h
  longest := by
    intro other hother hbegins
    rcases hends with hnil | ⟨b, feed, hfeed, hstuck⟩
    · obtain rfl : rest = [] := Feed.ofBytes_injective hnil
      rw [List.append_nil] at hother
      exact hother.length_le
    · cases rest with
      | nil => simp at hfeed
      | cons c rest =>
          obtain ⟨hbyte, -⟩ := List.cons.inj hfeed
          obtain rfl : c = b := Delivery.byte.inj hbyte
          obtain ⟨tail, htext⟩ := hbegins
          refine Nat.le_of_not_lt (fun hlonger => ?_)
          -- Anything longer has the byte in it that fits no number there.
          have hwithin : taken ++ [c] <+: other := by
            refine List.prefix_of_prefix_length_le ⟨rest, by simp⟩ hother ?_
            rw [List.length_append, List.length_singleton]
            exact hlonger
          obtain ⟨more, rfl⟩ := hwithin
          exact hstuck (more ++ tail) (by simpa using htext)

/-- Something is taken where the input begins like a number. -/
theorem ne_nil {b : UInt8} {rest taken : List UInt8} (h : LongestStart (b :: rest) taken)
    (hb : b = minus ∨ isDigit b = true) : taken ≠ [] := by
  rintro rfl
  have hle := h.longest [b] ⟨rest, rfl⟩ (beginsNumber_singleton hb)
  simp at hle

end LongestStart

namespace PartialNumber

open Json.Reader

/-- What a scan of numbers makes of an input whose longest beginning of a number is `taken`. -/
structure ReadsLongest (input : List UInt8) (p : Position) (taken : List UInt8) : Prop where
  longest : ∀ other, LongestStart input other ↔ other = taken
  nonempty : ∀ b rest, input = b :: rest → b = minus ∨ isDigit b = true → taken ≠ []
  consumed : ∃ rest, input = taken ++ rest ∧
    (scanner.run {} ⟨Feed.ofBytes input, p⟩).cursor = ⟨Feed.ofBytes rest, p.afterAll taken⟩
  succeeds : NumberText taken → ∃ text : String, text.toUTF8.toList = taken ∧
    (scanner.run {} ⟨Feed.ofBytes input, p⟩).result = .ok text
  fails : ¬ NumberText taken → ∃ part,
    (scanner.run {} ⟨Feed.ofBytes input, p⟩).result =
      .error (.malformed (p.afterAll taken) (.missingDigit part))

/-- A number that may not end lacks a digit of one of its parts. -/
theorem close_eq_error {number : PartialNumber} {part : NumberPart}
    (h : number.phase.lacking? = some part) :
    number.close = .error (.malformed (.missingDigit part)) := by
  simp [close, h]

/-- A scan of numbers stops at the end of the input or in front of a byte that no number has
there, and closes what it has taken. -/
theorem completes_close {taken : List UInt8} {rest : Feed} {last : PartialNumber}
    {result : Except Refusal String} (h : scanner.Completes {} taken rest last result) :
    NumberPhase.start.afterAll? taken = some last.phase ∧ last.text = asciiText taken ∧
      result = last.close ∧ NumberEnds taken rest := by
  rcases Scanner.completes_iff.mp h with ⟨htaken, rfl, rfl⟩ |
    ⟨before, b, mid, -, -, hbyte⟩ | ⟨mid, b, more, htaken, rfl, hbyte⟩
  · obtain ⟨hphase, htext⟩ := afterAll?_scanner_eq_some.mp htaken
    exact ⟨hphase, htext, rfl, .inl rfl⟩
  · exact absurd hbyte (onByte_ne_finish mid b last result)
  · obtain ⟨hnone, rfl, rfl⟩ := onByte_eq_leave_iff.mp hbyte
    obtain ⟨hphase, htext⟩ := afterAll?_scanner_eq_some.mp htaken
    exact ⟨hphase, htext, rfl,
      .inr ⟨b, more, rfl, (NumberPhase.next?_eq_none_iff hphase b).mp hnone⟩⟩

/-- **Reading a number is reading the longest beginning of a number**, whatever the input: that
much is taken and no more, and the scan succeeds exactly if it is a number, with its bytes as the
text.  Otherwise a digit is missing right behind it. -/
theorem exists_readsLongest (input : List UInt8) (p : Position) :
    ∃ taken, ReadsLongest input p taken := by
  obtain ⟨taken, rest, last, result, hinput, hcompletes, hrun⟩ :=
    scanner.exists_completes_ofBytes {} input p
  obtain ⟨hphase, htext, rfl, hends⟩ := completes_close hcompletes
  have hbegins : BeginsNumber taken := beginsNumber_iff.mpr ⟨last.phase, hphase⟩
  have hlongest : LongestStart input taken := by
    rw [hinput]
    exact .of_ends hbegins hends
  have hnumber : NumberText taken ↔ last.phase.lacking? = none := by
    rw [NumberPhase.numberText_iff]
    simp [hphase]
  refine ⟨taken, ?_, ?_, ⟨rest, hinput, ?_⟩, ?_, ?_⟩
  · intro other
    constructor
    · intro hother
      exact hlongest.unique hother
    · rintro rfl
      exact hlongest
  · rintro b behind rfl hb
    exact hlongest.ne_nil hb
  · rw [hrun]
  · intro htaken
    have hclose : last.close = .ok (asciiText taken) :=
      close_eq_ok_iff.mpr ⟨hnumber.mp htaken, htext⟩
    refine ⟨asciiText taken, ?_, ?_⟩
    · rw [toList_toUTF8, encoded_asciiText htaken]
    · rw [hrun, hclose, Scanner.located_ok]
  · intro htaken
    obtain ⟨part, hpart⟩ := Option.ne_none_iff_exists'.mp (fun h => htaken (hnumber.mpr h))
    refine ⟨part, ?_⟩
    rw [hrun, close_eq_error hpart, Scanner.located_error]
    rfl

/-- Of `1.e5` the number takes `1.` and then misses a digit in column three. -/
example : (scanner.run {} ⟨Feed.ofBytes [0x31, 0x2e, 0x65, 0x35], Position.start⟩).cursor =
    ⟨Feed.ofBytes [0x65, 0x35], ⟨1, 3⟩⟩ := by
  rfl

end PartialNumber
end RequiredKeys
