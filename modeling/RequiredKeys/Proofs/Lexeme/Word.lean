import RequiredKeys.Token.Consumption
import RequiredKeys.Proofs.Input.Scanning

/-!
# The words of the grammar

The scanner of a word is given the word.  It succeeds on exactly these bytes, and
what lies behind them does not matter.
-/

namespace RequiredKeys
namespace Literal

/-- What is left of a word is taken byte by byte, all but its last one. -/
theorem afterAll?_eq_some_iff {literal : Literal} {word taken last : List UInt8}
    (hword : word ≠ []) :
    literal.scanner.afterAll? word taken = some last ↔ word = taken ++ last ∧ last ≠ [] := by
  induction taken generalizing word with
  | nil =>
      simp only [Scanner.afterAll?_nil, Option.some.injEq, List.nil_append]
      constructor
      · rintro rfl
        exact ⟨rfl, hword⟩
      · rintro ⟨rfl, -⟩
        rfl
  | cons b taken ih =>
      obtain ⟨wanted, more, rfl⟩ := List.exists_cons_of_ne_nil hword
      -- The last byte of a word is not taken: it finishes the scan.
      have hbyte (next : List UInt8) : literal.scanner.onByte (wanted :: more) b = .take next ↔
          b = wanted ∧ more ≠ [] ∧ next = more := by
        by_cases hb : b = wanted
        · cases more with
          | nil => simp [scanner, onByte, hb]
          | cons c more => simp [scanner, onByte, hb, eq_comm (a := next)]
        · simp [scanner, onByte, hb]
      rw [Scanner.afterAll?_cons_eq_some]
      simp only [hbyte, List.cons_append, List.cons.injEq]
      constructor
      · rintro ⟨next, ⟨rfl, hmore, rfl⟩, htaken⟩
        obtain ⟨rfl, hlast⟩ := (ih hmore).mp htaken
        exact ⟨⟨rfl, rfl⟩, hlast⟩
      · rintro ⟨⟨rfl, rfl⟩, hlast⟩
        have hmore : taken ++ last ≠ [] := by simp [hlast]
        exact ⟨_, ⟨rfl, hmore, rfl⟩, (ih hmore).mpr ⟨rfl, hlast⟩⟩

/-- **A word is read byte for byte**, and nothing else is. -/
theorem completes_ok_iff {literal : Literal} {taken : List UInt8} {rest : Feed} {u : Unit} :
    (∃ last, literal.scanner.Completes literal.bytes taken rest last (.ok u)) ↔
      taken = literal.bytes := by
  constructor
  · rintro ⟨last, hcompletes⟩
    rcases Scanner.completes_iff.mp hcompletes with ⟨htaken, -, hend⟩ |
      ⟨before, b, mid, rfl, htaken, hbyte⟩ | ⟨mid, b, more, htaken, -, hbyte⟩
    · obtain ⟨-, hlast⟩ := (afterAll?_eq_some_iff literal.bytes_ne_nil).mp htaken
      simp [scanner, hlast] at hend
    · obtain ⟨hbytes, hmid⟩ := (afterAll?_eq_some_iff literal.bytes_ne_nil).mp htaken
      obtain ⟨wanted, more, rfl⟩ := List.exists_cons_of_ne_nil hmid
      simp only [scanner, onByte] at hbyte
      split at hbyte
      · next hb =>
          split at hbyte
          · next hmore =>
              rw [hbytes, hb, List.isEmpty_iff.mp hmore]
          · simp at hbyte
      · simp at hbyte
    · obtain ⟨-, hmid⟩ := (afterAll?_eq_some_iff literal.bytes_ne_nil).mp htaken
      obtain ⟨wanted, tail, rfl⟩ := List.exists_cons_of_ne_nil hmid
      simp only [scanner, onByte] at hbyte
      split at hbyte
      · split at hbyte <;> simp at hbyte
      · simp at hbyte
  · rintro rfl
    -- All bytes but the last one are taken, and that one finishes the scan.
    have hsplit := (List.dropLast_concat_getLast literal.bytes_ne_nil).symm
    have htaken : literal.scanner.afterAll? literal.bytes literal.bytes.dropLast =
        some [literal.bytes.getLast literal.bytes_ne_nil] :=
      (afterAll?_eq_some_iff literal.bytes_ne_nil).mpr ⟨hsplit, by simp⟩
    have hbyte : literal.scanner.onByte [literal.bytes.getLast literal.bytes_ne_nil]
        (literal.bytes.getLast literal.bytes_ne_nil) = .finish [] (.ok u) := by
      simp [scanner, onByte]
    refine ⟨[], Scanner.completes_iff.mpr (.inr (.inl ⟨_, _, _, hsplit, htaken, hbyte⟩))⟩

end Literal
end RequiredKeys
