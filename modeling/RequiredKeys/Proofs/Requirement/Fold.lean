import RequiredKeys.Proofs.Requirement.Names
import RequiredKeys.Proofs.Requirement.Verdict

/-!
# The fold over tokens

Names are taken away one token after the other, and each time the first place of the name is
looked for.  What is left in the end needs none of this to be said: of every name its first
place, unless some key of the tokens is that name.

* `Outstanding.observe_step` is what one token does to any list of names: it may take one
  name away, and moves none.
* `Outstanding.Fold` collects what this makes of many tokens.  The closed form is where
  distinctness is needed; without it a name would have to be shown once for each copy.
-/

namespace RequiredKeys

/-- Whether one of the tokens is a key of this name. -/
def Shown (tokens : List Token) (name : String) : Prop :=
  ∃ token ∈ tokens, token.kind = .fieldName ∧ token.text = some name

instance (tokens : List Token) (name : String) : Decidable (Shown tokens name) :=
  inferInstanceAs (Decidable (∃ token ∈ tokens, token.kind = .fieldName ∧ token.text = some name))

/-- A name is shown if it is offered. -/
theorem shown_iff {tokens : List Token} {name : String} :
    Shown tokens name ↔ name ∈ Json.offeredNames tokens := by
  unfold Shown Json.offeredNames
  simp only [List.mem_filterMap, Json.offeredName?_eq_some_iff]

/-- Order and repetition of tokens do not matter to what they show. -/
theorem shown_congr {tokens others : List Token} (hothers : others ⊆ tokens)
    (htokens : tokens ⊆ others) (name : String) : Shown others name ↔ Shown tokens name := by
  constructor
  · rintro ⟨token, hmem, hshows⟩
    exact ⟨token, hothers hmem, hshows⟩
  · rintro ⟨token, hmem, hshows⟩
    exact ⟨token, htokens hmem, hshows⟩

namespace Outstanding

/-- One token takes away at most one name and leaves the others where they are. -/
theorem observe_step (outstanding : Outstanding) (token : Token) :
    (outstanding.observe token).names.Sublist outstanding.names ∧
      outstanding.names.length ≤ (outstanding.observe token).names.length + 1 := by
  cases hoffers : token.offeredName? with
  | none =>
      rw [observe_of_offeredName?_eq_none hoffers]
      exact ⟨List.Sublist.refl _, Nat.le_succ _⟩
  | some name =>
      rw [observe_of_offeredName?_eq_some hoffers]
      refine ⟨List.erase_sublist, ?_⟩
      rw [List.length_erase]
      split <;> omega

theorem nodup_observeAll {outstanding : Outstanding} (h : outstanding.names.Nodup)
    (tokens : List Token) : (outstanding.observeAll tokens).names.Nodup := by
  rw [names_observeAll h]
  exact h.filter _

theorem observeAll_append (outstanding : Outstanding) (left right : List Token) :
    outstanding.observeAll (left ++ right) = (outstanding.observeAll left).observeAll right :=
  List.foldl_append

/-- What is outstanding of some names behind the first tokens. -/
def behind (names : List String) (tokens : List Token) (n : Nat) : Outstanding :=
  (ofNames names).observeAll (tokens.take n)

/-- Going from one token to the next is one observation, as long as there are tokens. -/
theorem behind_succ (names : List String) (tokens : List Token) (n : Nat) :
    behind names tokens (n + 1) = behind names tokens n ∨
      ∃ token, behind names tokens (n + 1) = (behind names tokens n).observe token := by
  unfold behind
  cases htoken : tokens[n]? with
  | none =>
      have hlength : tokens.length ≤ n := List.getElem?_eq_none_iff.mp htoken
      rw [List.take_of_length_le hlength, List.take_of_length_le (by omega)]
      exact .inl rfl
  | some token =>
      refine .inr ⟨token, ?_⟩
      rw [List.take_add_one, htoken, observeAll_append]
      rfl

theorem behind_add (names : List String) (tokens : List Token) (n more : Nat) :
    behind names tokens (n + more) =
      (behind names tokens n).observeAll ((tokens.drop n).take more) := by
  unfold behind
  rw [List.take_add, observeAll_append]

/-- **What a fold over tokens makes of names**, whatever the names and the tokens. -/
structure Fold (names : List String) (tokens : List Token) : Prop where
  /-- The names at their first places, without those that a key shows. -/
  closedForm : ((ofNames names).observeAll tokens).names =
    (firstOccurrences names).filter (fun name => ¬ Shown tokens name)
  nodup : ∀ n, (behind names tokens n).names.Nodup
  sublist : ∀ n, (behind names tokens (n + 1)).names.Sublist (behind names tokens n).names
  length_le : ∀ n,
    (behind names tokens n).names.length ≤ (behind names tokens (n + 1)).names.length + 1
  /-- The same tokens, in any order and in any number, leave the same. -/
  unordered : ∀ others, others ⊆ tokens → tokens ⊆ others →
    (ofNames names).observeAll others = (ofNames names).observeAll tokens
  absorbing : ∀ n m, n ≤ m → (behind names tokens n).names = [] →
    (behind names tokens m).names = []

/-- The closed form of the fold. -/
theorem names_observeAll_ofNames (names : List String) (tokens : List Token) :
    ((ofNames names).observeAll tokens).names =
      (firstOccurrences names).filter (fun name => ¬ Shown tokens name) := by
  have hnodup : (ofNames names).names.Nodup := nodup_eraseDups names
  rw [names_observeAll hnodup, ← eraseDups_eq_firstOccurrences]
  apply List.filter_congr
  intro name _
  simp [shown_iff]

theorem fold_ofNames (names : List String) (tokens : List Token) : Fold names tokens where
  closedForm := names_observeAll_ofNames names tokens
  nodup := fun n => nodup_observeAll (nodup_eraseDups names) (tokens.take n)
  sublist := by
    intro n
    obtain hsame | ⟨token, hstep⟩ := behind_succ names tokens n
    · rw [hsame]
    · rw [hstep]
      exact (observe_step _ token).1
  length_le := by
    intro n
    obtain hsame | ⟨token, hstep⟩ := behind_succ names tokens n
    · rw [hsame]
      exact Nat.le_succ _
    · rw [hstep]
      exact (observe_step _ token).2
  unordered := by
    intro others hothers htokens
    -- Only the names that are shown enter the closed form.
    have hnames : ((ofNames names).observeAll others).names =
        ((ofNames names).observeAll tokens).names := by
      rw [names_observeAll_ofNames, names_observeAll_ofNames]
      apply List.filter_congr
      intro name _
      simp only [shown_congr hothers htokens name]
    exact congrArg Outstanding.mk hnames
  absorbing := by
    intro n m hle hempty
    obtain ⟨more, rfl⟩ := Nat.exists_eq_add_of_le hle
    have hsatisfied : (behind names tokens n).isSatisfied = true := List.isEmpty_iff.mpr hempty
    rw [behind_add, observeAll_of_isSatisfied hsatisfied]
    exact hempty

/-- A name that is listed twice and the empty name are taken away by one key each, a key
without a text takes nothing away. -/
example : ((ofNames ["a", "", "b", "a", ""]).observeAll
    [⟨.fieldName, none, 1⟩, .fieldName "" 3, ⟨.string, some "b", 2⟩, .fieldName "a"]).names =
      ["b"] := by
  decide

end Outstanding
end RequiredKeys
