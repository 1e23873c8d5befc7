import RequiredKeys.Text.Ascii

/-!
# Text that is safe to show

A message may quote a byte of a hostile document.  It stays on its line, and a terminal that shows
it is not given a control character, if all of it is printable ASCII.  A byte is quoted by
`Ascii.shown`, and `Ascii.printable_shown` says that this is so for every byte.
-/

namespace RequiredKeys

/-- A text of printable ASCII: it holds no line break, no other control character, and nothing
beyond U+007E. -/
def Printable (text : String) : Prop :=
  ∀ c ∈ text.toList, 0x20 ≤ c.toNat ∧ c.toNat ≤ 0x7e

/-- The characters of the text are looked through, not all that there are. -/
instance (text : String) : Decidable (Printable text) :=
  List.decidableBAll (fun c : Char => 0x20 ≤ c.toNat ∧ c.toNat ≤ 0x7e) text.toList

namespace Printable

theorem append {left right : String} (hleft : Printable left) (hright : Printable right) :
    Printable (left ++ right) := by
  intro c hc
  rw [String.toList_append, List.mem_append] at hc
  rcases hc with hc | hc
  · exact hleft c hc
  · exact hright c hc

theorem singleton {c : Char} (h : 0x20 ≤ c.toNat ∧ c.toNat ≤ 0x7e) :
    Printable (String.singleton c) := by
  intro d hd
  obtain rfl : d = c := by simpa using hd
  exact h

/-- Digits of any base up to sixteen are printable. -/
theorem digitChar {digit : Nat} (h : digit < 16) :
    0x20 ≤ (Nat.digitChar digit).toNat ∧ (Nat.digitChar digit).toNat ≤ 0x7e := by
  have hall : ∀ digit < 16,
      0x20 ≤ (Nat.digitChar digit).toNat ∧ (Nat.digitChar digit).toNat ≤ 0x7e := by decide
  exact hall digit h

theorem ofList_toDigits {base : Nat} (hbase : 1 < base) (hsmall : base ≤ 16) (n : Nat) :
    Printable (String.ofList (Nat.toDigits base n)) := by
  -- The last digit comes off the end, and what is left is a smaller number.
  induction n using Nat.strongRecOn with
  | _ n ih =>
      intro c hc
      rw [String.toList_ofList, Nat.toDigits_eq_if hbase] at hc
      by_cases hdigit : n < base
      · rw [if_pos hdigit, List.mem_singleton] at hc
        rw [hc]
        exact digitChar (by omega)
      · rw [if_neg hdigit, List.mem_append, List.mem_singleton] at hc
        rcases hc with hc | rfl
        · have hless : n / base < n := Nat.div_lt_self (by omega) hbase
          apply ih (n / base) hless c
          rw [String.toList_ofList]
          exact hc
        · have hmod : n % base < base := Nat.mod_lt n (by omega)
          exact digitChar (by omega)

theorem decimal (n : Nat) : Printable (toString n) := by
  rw [Nat.toString_eq_ofList_toDigits]
  exact ofList_toDigits (by decide) (by decide) n

end Printable

/-- **A quoted byte is printable**, whatever the byte. -/
theorem Ascii.printable_shown (b : UInt8) : Printable (shown b) := by
  have hform : ShownAs b (shown b) := shownAs_iff.mpr rfl
  generalize shown b = text at hform
  cases hform with
  | @letter c h =>
      have hall : ∀ pair ∈ letters, Printable (String.ofList ['\\', pair.2]) := by decide
      exact hall (b, c) h
  | itself hrange _ hcode =>
      rw [← hcode] at hrange
      exact .singleton hrange
  | number _ _ hdigits =>
      have hopening : Printable "\\u\x7b" := by decide
      have hclosing : Printable "\x7d" := by decide
      rw [← hexNumeral_iff.mp hdigits, hexText]
      exact (hopening.append (.ofList_toDigits (by decide) (by decide) b.toNat)).append hclosing

end RequiredKeys
