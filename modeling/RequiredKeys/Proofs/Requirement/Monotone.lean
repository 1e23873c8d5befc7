import RequiredKeys.Proofs.Requirement.Composition
import RequiredKeys.Proofs.Requirement.Fold

/-!
# Asking for less

A run that asks for fewer names, or admits keys in more places, is never worse off than one over
the same source that asks for more.  The two runs pull the same tokens as long as both go on, and
all that time the names that the first one misses are among those that the second one misses
(`Progress.Within`).  Only the first one can stop while the other goes on, and then it misses
nothing.

`Progress.Within.advance` is one token, `Progress.Within.asksLess` the rest of both runs, and
`Outstanding.asksLess_run` begins them with two lists of names.
-/

namespace RequiredKeys

/-- Whatever the one scope admits, the other one admits as well. -/
theorem MatchScope.admits_of_admits {loose strict : MatchScope}
    (h : loose = .anywhere ∨ loose = strict) {token : Token}
    (hadmits : strict.admits token = true) : loose.admits token = true := by
  obtain rfl | rfl := h
  · rfl
  · exact hadmits

/-- A token takes no more away from many names than from some of them, if these are distinct. -/
theorem Outstanding.observe_subset {few many : Outstanding} (hnodup : few.names.Nodup)
    (h : few.names ⊆ many.names) (token : Token) :
    (few.observe token).names ⊆ (many.observe token).names := by
  intro name hname
  rw [names_observe hnodup, List.mem_filter] at hname
  obtain ⟨hmem, hother⟩ := hname
  cases hoffers : token.offeredName? with
  | none =>
      rw [observe_of_offeredName?_eq_none hoffers]
      exact h hmem
  | some offered =>
      rw [observe_of_offeredName?_eq_some hoffers]
      have hne : name ≠ offered := by
        rintro rfl
        simp [hoffers] at hother
      exact (List.mem_erase_of_ne hne).mpr (h hmem)

namespace Progress

/-- `less` has come as far as `more`, and misses no name that `more` does not miss. -/
structure Within (less more : Progress) : Prop where
  tokens_eq : less.tokens = more.tokens
  names_subset : less.outstanding.names ⊆ more.outstanding.names
  /-- No name is outstanding twice, so one key is enough to take it away. -/
  nodup : less.outstanding.names.Nodup

end Progress

/-- How the result `less` of a run that asks for less and the result `more` of one that asks for
more belong together, if both may stop or none of them may. -/
structure AsksLess (stop : Bool) (less more : Except StreamError RunOutcome) : Prop where
  /-- Where the run that asks for more succeeds, the other one does, and misses no more. -/
  of_ok : ∀ outcome, more = .ok outcome → ∃ smaller, less = .ok smaller ∧
    (∀ name ∈ smaller.outstanding.names, name ∈ outcome.outstanding.names) ∧
    smaller.tokens ≤ outcome.tokens ∧ (stop = false → smaller.tokens = outcome.tokens)
  /-- Asking for less makes no error of its own. -/
  of_error : ∀ error, less = .error error → more = .error error
  /-- What is valid stays valid. -/
  of_valid : ∀ outcome, more = .ok outcome → outcome.hasErrors = false →
    ∃ smaller, less = .ok smaller ∧ smaller.hasErrors = false

namespace AsksLess

variable {stop : Bool} {less more : Except StreamError RunOutcome}

/-- Where nothing is missing in the end, nothing is missing of less. -/
theorem of_of_ok
    (hok : ∀ outcome, more = .ok outcome → ∃ smaller, less = .ok smaller ∧
      (∀ name ∈ smaller.outstanding.names, name ∈ outcome.outstanding.names) ∧
      smaller.tokens ≤ outcome.tokens ∧ (stop = false → smaller.tokens = outcome.tokens))
    (herror : ∀ error, less = .error error → more = .error error) : AsksLess stop less more where
  of_ok := hok
  of_error := herror
  of_valid := by
    intro outcome hmore hvalid
    obtain ⟨smaller, hless, hnames, -⟩ := hok outcome hmore
    refine ⟨smaller, hless, ?_⟩
    have hnone : outcome.outstanding.names = [] := by
      simpa [RunOutcome.hasErrors, Outstanding.hasErrors] using hvalid
    rw [hnone] at hnames
    have hnothing : smaller.outstanding.names = [] := List.subset_nil.mp hnames
    simp [RunOutcome.hasErrors, Outstanding.hasErrors, hnothing]

theorem of_same_error (error : StreamError) : AsksLess stop (.error error) (.error error) :=
  of_of_ok nofun (fun _ h => h)

end AsksLess

namespace Progress

variable {σ : Type} [TokenSource σ] {loose strict : MatchScope} {less more : Progress}

/-- A run counts on from what has been counted. -/
theorem tokens_le_of_run {options : RunOptions} {progress : Progress} {source : σ}
    {outcome : RunOutcome} (h : (progress.run options source).result = .ok outcome) :
    progress.tokens ≤ outcome.tokens := by
  have hbegins : progress.outstanding = (Progress.mk progress.outstanding 0 #[]).outstanding := rfl
  have hresult := (run_of_counted options progress.tokens hbegins rfl source).1
  rw [h] at hresult
  cases hfresh : ((Progress.mk progress.outstanding 0 #[]).run options source).result with
  | error error => simp [hfresh, Except.map] at hresult
  | ok counted =>
      rw [hfresh] at hresult
      obtain rfl := Except.ok.inj hresult
      exact Nat.le_add_right _ _

namespace Within

theorem isSatisfied (h : Within less more) (hmore : more.outstanding.isSatisfied = true) :
    less.outstanding.isSatisfied = true := by
  have hnone : more.outstanding.names = [] := List.isEmpty_iff.mp hmore
  have hsubset := h.names_subset
  rw [hnone] at hsubset
  exact List.isEmpty_iff.mpr (List.subset_nil.mp hsubset)

/-- **One token keeps the one within the other.**  A name that it takes away from `more` it takes
away from `less`, since the looser scope admits the token as well. -/
theorem advance (hscope : loose = .anywhere ∨ loose = strict) (h : Within less more)
    (current : Option Token) : Within (less.advance loose current) (more.advance strict current) := by
  have htokens : (less.advance loose current).tokens = (more.advance strict current).tokens := by
    rw [tokens_advance, tokens_advance, h.tokens_eq]
  cases current with
  | none => exact ⟨htokens, h.names_subset, h.nodup⟩
  | some token =>
      have hsublist : (less.outstanding.observe token).names.Sublist less.outstanding.names :=
        (Outstanding.observe_step _ token).1
      refine ⟨htokens, ?_, ?_⟩
      · rw [outstanding_advance, outstanding_advance]
        cases hstrict : strict.admits token with
        | true =>
            rw [if_pos (MatchScope.admits_of_admits hscope hstrict), if_pos rfl]
            exact Outstanding.observe_subset h.nodup h.names_subset token
        | false =>
            -- Only the looser scope may admit the token, and then `less` can but lose a name.
            rw [if_neg Bool.false_ne_true]
            split
            · exact List.Subset.trans hsublist.subset h.names_subset
            · exact h.names_subset
      · rw [outstanding_advance]
        split
        · exact h.nodup.sublist hsublist
        · exact h.nodup

/-- Where only the run that asks for less stops, it misses nothing, and the other one has to
count on. -/
theorem asksLess_of_stop (h : Within less more)
    (hstop : (stop && less.outstanding.isSatisfied) = true) (source : σ) :
    AsksLess stop (less.run ⟨loose, stop⟩ source).result (more.run ⟨strict, stop⟩ source).result := by
  obtain ⟨rfl, hsatisfied⟩ : stop = true ∧ less.outstanding.isSatisfied = true := by
    simpa using hstop
  have hnone : less.outstanding.names = [] := List.isEmpty_iff.mp hsatisfied
  rw [run_of_stop hstop]
  refine .of_of_ok ?_ nofun
  intro outcome hmore
  refine ⟨_, rfl, ?_, ?_, nofun⟩
  · simp [hnone]
  · have hle := tokens_le_of_run hmore
    rw [← h.tokens_eq] at hle
    exact hle

/-- **Both runs go on together**, until one fails, both end or the one that asks for less stops. -/
theorem asksLess (hscope : loose = .anywhere ∨ loose = strict) (stop : Bool) (h : Within less more)
    (source : σ) : AsksLess stop (less.run ⟨loose, stop⟩ source).result
      (more.run ⟨strict, stop⟩ source).result := by
  cases hless : stop && less.outstanding.isSatisfied with
  | true => exact h.asksLess_of_stop hless source
  | false =>
      induction more, source using @run_induction σ _ ⟨strict, stop⟩ generalizing less with
      | stops more source hmore =>
          obtain ⟨rfl, hsatisfied⟩ : stop = true ∧ more.outstanding.isSatisfied = true := by
            simpa using hmore
          simp [h.isSatisfied hsatisfied] at hless
      | fails more source error rest hmore hnext =>
          rw [run_of_error hless hnext, run_of_error hmore hnext]
          exact .of_same_error error
      | ends more source rest hmore hnext =>
          rw [run_of_end hless hnext, run_of_end hmore hnext]
          refine .of_of_ok ?_ nofun
          intro outcome houtcome
          obtain rfl := Except.ok.inj houtcome
          exact ⟨_, rfl, fun _ hname => h.names_subset hname, Nat.le_of_eq h.tokens_eq,
            fun _ => h.tokens_eq⟩
      | gives more source kind rest hmore hnext ih =>
          have hbehind := h.advance hscope (TokenSource.current rest)
          rw [run_of_token hless hnext, run_of_token hmore hnext]
          cases hstop : stop && (less.advance loose (TokenSource.current rest)).outstanding.isSatisfied with
          | true => exact hbehind.asksLess_of_stop hstop rest
          | false => exact ih hbehind hstop

end Within
end Progress

namespace Outstanding

/-- **Asking for less is never worse**, over every source, whether it fails or not: neither with
some of the names only, nor with a looser scope. -/
theorem asksLess_run {σ : Type} [TokenSource σ] {few many : List String}
    {loose strict : MatchScope} (hnames : ∀ name ∈ few, name ∈ many)
    (hscope : loose = .anywhere ∨ loose = strict) (stop : Bool) (source : σ) :
    AsksLess stop ((ofNames few).run ⟨loose, stop⟩ source).result
      ((ofNames many).run ⟨strict, stop⟩ source).result := by
  have hbegins : Progress.Within { outstanding := ofNames few } { outstanding := ofNames many } := by
    refine ⟨rfl, ?_, nodup_eraseDups few⟩
    intro name hname
    exact List.mem_eraseDups.mpr (hnames name (List.mem_eraseDups.mp hname))
  exact hbegins.asksLess hscope stop source

/-- In `{"a":{"b":1}}` the inner key is found anywhere, so the run that asks for it stops there; at
the top it is not found, and the run that asks for both keys reads everything. -/
theorem asksLess_run_inner :
    ((ofNames ["b"]).run ⟨.anywhere, true⟩ (Replay.mk ((Json.object
        [("a", .object [("b", .number "1")])]).tokens 0) none)).result = .ok ⟨⟨[]⟩, 4, false⟩ ∧
      ((ofNames ["a", "b"]).run ⟨.topLevel, true⟩ (Replay.mk ((Json.object
        [("a", .object [("b", .number "1")])]).tokens 0) none)).result = .ok ⟨⟨["b"]⟩, 7, true⟩ ∧
      AsksLess true (.ok ⟨⟨[]⟩, 4, false⟩) (.ok ⟨⟨["b"]⟩, 7, true⟩) := by
  let json : Json := .object [("a", .object [("b", .number "1")])]
  have hless : ((ofNames ["b"]).run ⟨.anywhere, true⟩ (Replay.mk (json.tokens 0) none)).result =
      .ok ⟨⟨[]⟩, 4, false⟩ := by
    cbv
  have hmore : ((ofNames ["a", "b"]).run ⟨.topLevel, true⟩
      (Replay.mk (json.tokens 0) none)).result = .ok ⟨⟨["b"]⟩, 7, true⟩ := by
    cbv
  have hruns := asksLess_run (show ∀ name ∈ ["b"], name ∈ ["a", "b"] by decide)
    (show MatchScope.anywhere = .anywhere ∨ MatchScope.anywhere = .topLevel from .inl rfl) true
    (Replay.mk (json.tokens 0) none)
  rw [hless, hmore] at hruns
  exact ⟨hless, hmore, hruns⟩

end Outstanding
end RequiredKeys
