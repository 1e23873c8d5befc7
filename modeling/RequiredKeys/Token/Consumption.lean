import RequiredKeys.Token.Tokenizer

/-!
# Pulls use up input

No pull gives back what it has read, and a pull that gives a token has taken at
least one byte.  So a loop that pulls until the tokens are over ends.
-/

namespace RequiredKeys

namespace PartialNumber

/-- A number holds at least one byte. -/
theorem length_feed_run_lt {cursor : Cursor} {text : String}
    (h : (scanner.run {} cursor).result = .ok text) :
    (scanner.run {} cursor).cursor.feed.length < cursor.feed.length := by
  refine Scanner.length_feed_runFrom_lt ?_ ?_ h
  · intro b last result hleave
    simp only [scanner, onByte] at hleave
    split at hleave
    · simp at hleave
    · simp only [Verdict.leave.injEq] at hleave
      rw [← hleave.2]
      simp [close, NumberPhase.lacking?]
  · simp [scanner, close, NumberPhase.lacking?]

end PartialNumber

namespace Literal

theorem bytes_ne_nil (literal : Literal) : literal.bytes ≠ [] := by
  cases literal with
  | bool value => cases value <;> decide
  | null => decide

/-- A word holds at least one byte. -/
theorem length_feed_run_lt {literal : Literal} {cursor : Cursor} {u : Unit}
    (h : (literal.scanner.run literal.bytes cursor).result = .ok u) :
    (literal.scanner.run literal.bytes cursor).cursor.feed.length < cursor.feed.length := by
  have hne := literal.bytes_ne_nil
  revert h
  cases hbytes : literal.bytes with
  | nil => exact absurd hbytes hne
  | cons wanted more =>
    intro h
    refine Scanner.length_feed_runFrom_lt ?_ ?_ h
    · intro b last result hleave
      simp only [scanner, onByte] at hleave
      split at hleave
      · split at hleave <;> simp at hleave
      · simp at hleave
    · simp [scanner]

end Literal

namespace Gap

open Ascii

/-- A gap that ends in front of a byte leaves a number or a word. -/
theorem onByte_leave_ok {gap last : Gap} {b : UInt8} {start : TokenStart}
    (h : gap.onByte b = .leave last (.ok (some start))) :
    start = .number ∨ ∃ literal, start = .literal literal := by
  have hbegin : ∀ {g : Gap}, g.beginValue b = .leave last (.ok (some start)) →
      start = .number ∨ ∃ literal, start = .literal literal := by
    intro g hg
    unfold beginValue at hg
    dsimp only at hg
    split at hg <;> try (simp at hg; done)
    split at hg
    · simp only [Verdict.leave.injEq, Except.ok.injEq, Option.some.injEq] at hg
      exact Or.inl hg.2.symm
    · split at hg
      · simp only [Verdict.leave.injEq, Except.ok.injEq, Option.some.injEq] at hg
        exact Or.inr ⟨_, hg.2.symm⟩
      · simp [unexpected] at hg
  unfold onByte at h
  split at h
  · simp [unexpected] at h
  · split at h
    · simp at h
    · split at h
      · exact hbegin h
      · unfold onInnerByte at h
        dsimp only at h
        split at h
        · simp at h
        · split at h
          · simp at h
          · split at h
            · simp at h
            · split at h
              · exact hbegin h
              · simp [unexpected] at h

/-- The end of the input begins no token. -/
theorem onEnd_ne_ok_some (gap : Gap) (start : TokenStart) : gap.onEnd ≠ .ok (some start) := by
  unfold onEnd
  split <;> simp

/-- A gap that ends with a bracket or a string has taken a byte of it. -/
theorem length_feed_run_lt {gap : Gap} {cursor : Cursor} {start : TokenStart}
    (h : (scanner.run gap cursor).result = .ok (some start))
    (hnumber : start ≠ .number) (hliteral : ∀ literal, start ≠ .literal literal) :
    (scanner.run gap cursor).cursor.feed.length < cursor.feed.length := by
  rcases Scanner.result_runFrom_ok h with hlt | ⟨state, b, last, hleave⟩ | ⟨state, hend⟩
  · exact hlt
  · rcases onByte_leave_ok hleave with rfl | ⟨literal, rfl⟩
    · exact absurd rfl hnumber
    · exact absurd rfl (hliteral literal)
  · exact absurd hend (onEnd_ne_ok_some state start)

end Gap

namespace TokenStart

theorem length_feed_read_le (start : TokenStart) (nesting : Nesting) (cursor : Cursor) :
    (start.read nesting cursor).cursor.feed.length ≤ cursor.feed.length := by
  cases start with
  | enter container => exact Nat.le_refl _
  | exit =>
    simp only [read]
    split <;> exact Nat.le_refl _
  | key =>
    simp only [read]
    split <;> exact Scanner.length_feed_run_le _ _ _
  | string => exact Scanner.length_feed_run_le _ _ _
  | number => exact Scanner.length_feed_run_le _ _ _
  | literal literal =>
    cases literal <;> exact Scanner.length_feed_run_le _ _ _

/-- A number or a word is read from its first byte on. -/
theorem length_feed_read_lt {start : TokenStart} {nesting : Nesting} {cursor : Cursor}
    {token : Token} (h : (start.read nesting cursor).result = .ok token)
    (hstart : start = .number ∨ ∃ literal, start = .literal literal) :
    (start.read nesting cursor).cursor.feed.length < cursor.feed.length := by
  have hmap : ∀ {σ α : Type} {scan : Scan σ α} {f : α → Token},
      (ofScan scan nesting f).result = .ok token → ∃ a, scan.result = .ok a := by
    intro σ α scan f hscan
    cases hresult : scan.result with
    | error error => simp [ofScan, hresult, Except.map] at hscan
    | ok a => exact ⟨a, rfl⟩
  rcases hstart with rfl | ⟨literal, rfl⟩
  · obtain ⟨text, htext⟩ := hmap h
    exact PartialNumber.length_feed_run_lt htext
  · cases literal with
    | bool value =>
      obtain ⟨u, hu⟩ := hmap h
      exact Literal.length_feed_run_lt hu
    | null =>
      obtain ⟨u, hu⟩ := hmap h
      exact Literal.length_feed_run_lt hu

end TokenStart

namespace Tokenizer

theorem length_feed_pull_le (tokenizer : Tokenizer) :
    tokenizer.pull.2.cursor.feed.length ≤ tokenizer.cursor.feed.length := by
  have hgap : tokenizer.crossGap.cursor.feed.length ≤ tokenizer.cursor.feed.length :=
    Scanner.length_feed_run_le _ _ _
  unfold pull
  dsimp only
  split
  · exact hgap
  · exact hgap
  · split <;> exact Nat.le_trans (TokenStart.length_feed_read_le _ _ _) hgap

/-- A pull that gives a token has taken at least one byte. -/
theorem length_feed_pull_lt {tokenizer : Tokenizer} {token : Token}
    (h : tokenizer.pull.1 = .ok (some token)) :
    tokenizer.pull.2.cursor.feed.length < tokenizer.cursor.feed.length := by
  have hgap : tokenizer.crossGap.cursor.feed.length ≤ tokenizer.cursor.feed.length :=
    Scanner.length_feed_run_le _ _ _
  unfold pull at h ⊢
  dsimp only at h ⊢
  split at h
  · simp at h
  · simp at h
  · next start hstart =>
    split at h
    · simp at h
    · next value hvalue =>
      dsimp only
      by_cases hkind : start = .number ∨ ∃ literal, start = .literal literal
      · exact Nat.lt_of_lt_of_le (TokenStart.length_feed_read_lt hvalue hkind) hgap
      · have hlt : tokenizer.crossGap.cursor.feed.length < tokenizer.cursor.feed.length :=
          Gap.length_feed_run_lt hstart (fun heq => hkind (Or.inl heq))
            (fun literal heq => hkind (Or.inr ⟨literal, heq⟩))
        exact Nat.lt_of_le_of_lt (TokenStart.length_feed_read_le _ _ _) hlt

theorem length_feed_lt_of_pull {tokenizer next : Tokenizer} {token : Token}
    (h : tokenizer.pull = (.ok (some token), next)) :
    next.cursor.feed.length < tokenizer.cursor.feed.length := by
  have hlt := @length_feed_pull_lt tokenizer token (by rw [h])
  rwa [h] at hlt

theorem length_feed_le_of_pull {tokenizer next : Tokenizer} {answer : Except StreamError (Option Token)}
    (h : tokenizer.pull = (answer, next)) :
    next.cursor.feed.length ≤ tokenizer.cursor.feed.length := by
  have hle := tokenizer.length_feed_pull_le
  rwa [h] at hle

end Tokenizer
end RequiredKeys
