import RequiredKeys.Token.Transcript
import RequiredKeys.Proofs.Token.Pull

/-!
# Brackets

A caller may pull as often as it likes, over any feed, and go on behind every error.  The
brackets among the tokens it has been given are at any time the beginning of a well-nested
row, and the depth of the tokenizer and of every token can be told from them.

* `WellNested` is the grammar of brackets by itself; it knows nothing of a tokenizer.
* `Token.Turns` is what one token does to the containers that are open, and a pull that gives
  no token does nothing to them (`Tokenizer.containers_pull_of_no_token`): an error may come in
  the middle of a string or in front of a bracket, but never between a bracket and its frame.
* `Opens containers tokens` says that tokens, one turn after the other, leave `containers` open,
  and `Opens.given` that the tokens given so far do so.
* `Unclosed` is the shape of such a row: what is open is what has no partner yet.

`Tokenizer.bracketed_given` puts them together.
-/

namespace RequiredKeys

/-! ## Rows of brackets -/

inductive Bracket
  | opening (container : Container)
  | closing (container : Container)
  deriving DecidableEq, Repr

/-- Rows of brackets in which each has its partner, of its own kind. -/
inductive WellNested : List Bracket → Prop
  | nil : WellNested []
  | pair {container : Container} {inside behind : List Bracket} (hinside : WellNested inside)
      (hbehind : WellNested behind) :
      WellNested (.opening container :: inside ++ .closing container :: behind)

theorem WellNested.append {left right : List Bracket} (hleft : WellNested left)
    (hright : WellNested right) : WellNested (left ++ right) := by
  induction hleft with
  | nil => exact hright
  | @pair container inside behind hinside _ _ ihbehind =>
      rw [List.append_assoc, List.cons_append]
      exact .pair hinside ihbehind

theorem WellNested.enclose (container : Container) {inside : List Bracket}
    (h : WellNested inside) : WellNested (.opening container :: inside ++ [.closing container]) :=
  .pair h .nil

namespace Token

def bracket? (token : Token) : Option Bracket :=
  match token.kind with
  | .startOf container => some (.opening container)
  | .endOf container => some (.closing container)
  | _ => none

def isOpening (token : Token) : Bool :=
  match token.kind with
  | .startOf _ => true
  | _ => false

def isClosing (token : Token) : Bool :=
  match token.kind with
  | .endOf _ => true
  | _ => false

/-- `token.Turns outer inner`: where the containers `outer` are open, the innermost one first,
the token may come, and behind it `inner` are open. -/
inductive Turns : Token → List Container → List Container → Prop
  | opening {container : Container} {outer : List Container} :
      Turns ⟨.startOf container, none, outer.length⟩ outer (container :: outer)
  | closing {container : Container} {outer : List Container} :
      Turns ⟨.endOf container, none, outer.length⟩ (container :: outer) outer
  | leaf {token : Token} {containers : List Container} (hbracket : token.bracket? = none)
      (hdepth : token.depth = containers.length) : Turns token containers containers

theorem isOpening_of_bracket?_eq_none {token : Token} (h : token.bracket? = none) :
    token.isOpening = false := by
  obtain ⟨kind, text, depth⟩ := token
  cases kind with
  | startOf container => simp [bracket?] at h
  | _ => rfl

theorem isClosing_of_bracket?_eq_none {token : Token} (h : token.bracket? = none) :
    token.isClosing = false := by
  obtain ⟨kind, text, depth⟩ := token
  cases kind with
  | endOf container => simp [bracket?] at h
  | _ => rfl

end Token

/-- The brackets among some tokens. -/
def brackets (tokens : List Token) : List Bracket :=
  tokens.filterMap Token.bracket?

@[simp] theorem brackets_append (left right : List Token) :
    brackets (left ++ right) = brackets left ++ brackets right := by
  simp [brackets]

/-! ## What tokens leave open -/

/-- `Opens containers tokens`: the tokens, each where it may come, leave `containers` open. -/
inductive Opens : List Container → List Token → Prop
  | nil : Opens [] []
  | turn {outer inner : List Container} {tokens : List Token} {token : Token}
      (h : Opens outer tokens) (hturns : token.Turns outer inner) :
      Opens inner (tokens ++ [token])

/-- `Unclosed containers tokens`: each of the containers has an opening bracket among the
tokens, and apart from these brackets the row is well nested. -/
inductive Unclosed : List Container → List Token → Prop
  | nil {tokens : List Token} (h : WellNested (brackets tokens)) : Unclosed [] tokens
  | cons {container : Container} {outer : List Container} {before inside : List Token}
      {opening : Token} (h : Unclosed outer before) (hkind : opening.kind = .startOf container)
      (hdepth : opening.depth = outer.length) (hinside : WellNested (brackets inside)) :
      Unclosed (container :: outer) (before ++ opening :: inside)

namespace Unclosed

/-- A well-nested row changes nothing about what is open. -/
theorem append {containers : List Container} {tokens piece : List Token}
    (h : Unclosed containers tokens) (hpiece : WellNested (brackets piece)) :
    Unclosed containers (tokens ++ piece) := by
  cases h with
  | nil hnested =>
      apply Unclosed.nil
      rw [brackets_append]
      exact hnested.append hpiece
  | cons houter hkind hdepth hinside =>
      rw [List.append_assoc, List.cons_append]
      apply houter.cons hkind hdepth
      rw [brackets_append]
      exact hinside.append hpiece

theorem turn {outer inner : List Container} {tokens : List Token} {token : Token}
    (h : Unclosed outer tokens) (hturns : token.Turns outer inner) :
    Unclosed inner (tokens ++ [token]) := by
  cases hturns with
  | opening => exact h.cons rfl rfl .nil
  | @closing container =>
      -- The bracket closes the innermost container, and together they are a well-nested row.
      cases h with
      | @cons _ _ before inside opening houter hkind hdepth hinside =>
          have hpair : WellNested (brackets (opening :: inside ++
              [⟨.endOf container, none, inner.length⟩])) := by
            simpa [brackets, Token.bracket?, hkind] using hinside.enclose container
          simpa using houter.append hpair
  | leaf hbracket hdepth =>
      apply h.append
      simpa [brackets, hbracket] using WellNested.nil

/-- The containers that are open can be closed, one after the other. -/
theorem exists_wellNested {containers : List Container} {tokens : List Token}
    (h : Unclosed containers tokens) : ∃ rest, WellNested (brackets tokens ++ rest) := by
  -- Inside the containers there may be more, which is what the induction needs.
  suffices hclosed : ∀ piece, WellNested piece →
      WellNested (brackets tokens ++ (piece ++ containers.map Bracket.closing)) from
    ⟨_, hclosed [] .nil⟩
  induction h with
  | nil hnested =>
      intro piece hpiece
      simpa using hnested.append hpiece
  | @cons container outer before inside opening _ hkind _ hinside ih =>
      intro piece hpiece
      have henclosed := ih _ ((hinside.append hpiece).enclose container)
      simpa [brackets, Token.bracket?, hkind] using henclosed

end Unclosed

namespace Opens

/-- A row is a row up to each of its tokens, and there the token turns. -/
theorem split {containers : List Container} {tokens : List Token} (h : Opens containers tokens)
    {before after : List Token} {token : Token} (htokens : tokens = before ++ token :: after) :
    ∃ outer inner, Opens outer before ∧ token.Turns outer inner := by
  induction h generalizing after with
  | nil => simp at htokens
  | @turn outer inner tokens last h hturns ih =>
      -- The token is the last one, or it is one of those in front.
      obtain rfl | ⟨middle, other, rfl⟩ := List.eq_nil_or_concat after
      · obtain ⟨rfl, rfl⟩ := List.append_singleton_inj.mp htokens
        exact ⟨outer, inner, h, hturns⟩
      · rw [List.concat_eq_append, ← List.cons_append, ← List.append_assoc] at htokens
        exact ih (List.append_singleton_inj.mp htokens).1

theorem unclosed {containers : List Container} {tokens : List Token}
    (h : Opens containers tokens) : Unclosed containers tokens := by
  induction h with
  | nil => exact .nil .nil
  | turn _ hturns ih => exact ih.turn hturns

/-- As many containers are open as brackets have been opened and not closed. -/
theorem length_add_countP {containers : List Container} {tokens : List Token}
    (h : Opens containers tokens) :
    containers.length + tokens.countP Token.isClosing = tokens.countP Token.isOpening := by
  induction h with
  | nil => rfl
  | turn _ hturns ih =>
      rw [List.countP_append, List.countP_append, List.countP_singleton, List.countP_singleton]
      cases hturns with
      | opening =>
          simp only [Token.isOpening, Token.isClosing, List.length_cons]
          simp
          omega
      | closing =>
          simp only [Token.isOpening, Token.isClosing, List.length_cons] at ih ⊢
          simp
          omega
      | leaf hbracket _ =>
          rw [Token.isOpening_of_bracket?_eq_none hbracket,
            Token.isClosing_of_bracket?_eq_none hbracket]
          simpa using ih

end Opens

/-! ## What a pull does to the containers -/

namespace Nesting

/-- The containers that are open, whatever they expect. -/
def containers (nesting : Nesting) : List Container :=
  nesting.map Frame.container

@[simp] theorem length_containers (nesting : Nesting) :
    nesting.containers.length = nesting.length :=
  List.length_map _

@[simp] theorem containers_expect (expectation : Expectation) (nesting : Nesting) :
    (nesting.expect expectation).containers = nesting.containers := by
  cases nesting <;> rfl

theorem Crosses.containers {nesting inner : Nesting} {gap : List UInt8}
    (h : nesting.Crosses gap inner) : inner.containers = nesting.containers := by
  induction h with
  | nil => rfl
  | blank _ _ ih => exact ih
  | punctuation _ _ ih => exact ih

/-- A token turns the containers as its lexeme turns the nesting. -/
theorem Reads.turns {inner after : Nesting} {lexeme : List UInt8} {token : Token}
    (h : inner.Reads lexeme token after) : token.Turns inner.containers after.containers := by
  cases h with
  | @exit frame outer _ =>
      rw [← length_containers]
      exact .closing
  | @key frame outer _ name _ _ =>
      apply Token.Turns.leaf rfl
      show outer.length + 1 = (Nesting.containers (frame :: outer)).length
      rw [length_containers, List.length_cons]
  | @enter _ container _ =>
      have hafter : Nesting.containers (Frame.opened container :: inner.expect .commaOrEnd) =
          container :: inner.containers := by
        rw [← containers_expect .commaOrEnd inner]
        cases container <;> rfl
      rw [hafter, ← length_containers]
      exact .opening
  | scalar _ _ hscalar htoken =>
      obtain ⟨hkind, hdepth⟩ := Json.isScalar_of_tokens_eq hscalar htoken
      rw [containers_expect]
      apply Token.Turns.leaf
      · -- A scalar is no bracket.
        unfold Token.bracket?
        split
        · next hstart => simp [hstart, TokenKind.isScalar] at hkind
        · next hend => simp [hend, TokenKind.isScalar] at hkind
        · rfl
      · rw [length_containers]
        exact hdepth

end Nesting

namespace Gap

theorem state_beginValue (gap : Gap) (b : UInt8) :
    (gap.beginValue b).state.nesting = gap.nesting.expect .commaOrEnd := by
  unfold beginValue
  split
  · rfl
  · rfl
  · rfl
  · split
    · rfl
    · split <;> rfl

/-- No byte of a gap opens or closes a container, neither one that is taken nor one that is
refused. -/
theorem containers_onByte (gap : Gap) (b : UInt8) :
    (gap.onByte b).state.nesting.containers = gap.nesting.containers := by
  have hbegin (nesting : Nesting) (due : Bool) :
      (beginValue ⟨nesting, due⟩ b).state.nesting.containers = nesting.containers := by
    rw [state_beginValue, Nesting.containers_expect]
  obtain ⟨nesting, due⟩ := gap
  unfold onByte
  split
  · rfl
  · split
    · rfl
    · cases nesting with
      | nil => exact hbegin _ _
      | cons frame outer =>
          show (onInnerByte frame outer b).state.nesting.containers = _
          unfold onInnerByte
          dsimp only
          split
          · rfl
          · split
            · rfl
            · split
              · rfl
              · split
                · exact hbegin _ _
                · rfl

end Gap

/-- A token that is not read to its end leaves the containers alone. -/
theorem TokenStart.nesting_read_of_error {start : TokenStart} {nesting : Nesting} {cursor : Cursor}
    {error : StreamError} (h : (start.read nesting cursor).result = .error error) :
    (start.read nesting cursor).nesting = nesting := by
  cases start with
  | enter container => simp [read] at h
  | exit =>
      cases nesting with
      | nil => rfl
      | cons frame outer => simp [read, Nesting.exit] at h
  | key =>
      cases hresult : (PartialQuoted.scanner.run {} cursor).result with
      | ok name => simp [read, hresult] at h
      | error error => simp [read, hresult]
  | string => rfl
  | number => rfl
  | literal word => cases word <;> rfl

namespace Tokenizer

theorem containers_crossGap (tokenizer : Tokenizer) :
    tokenizer.crossGap.state.nesting.containers = tokenizer.nesting.containers := by
  apply Scanner.state_runFrom
    (fun gap : Gap => gap.nesting.containers = tokenizer.nesting.containers)
  · intro gap b h
    exact (gap.containers_onByte b).trans h
  · rfl

/-- **A pull that gives no token opens and closes nothing**, wherever it fails. -/
theorem containers_pull_of_no_token (tokenizer : Tokenizer)
    (h : tokenizer.pull.1.toOption.join = none) :
    tokenizer.pull.2.nesting.containers = tokenizer.nesting.containers := by
  rw [← tokenizer.containers_crossGap]
  unfold pull at h ⊢
  dsimp only at h ⊢
  split
  · rfl
  · rfl
  · next start hstart =>
      split
      · next error herror =>
          show (start.read _ _).nesting.containers = _
          rw [TokenStart.nesting_read_of_error herror]
      · next token htoken => simp [hstart, htoken, Except.toOption] at h

/-- **A pull that gives a token** turns the containers as the token does. -/
theorem turns_of_pull {tokenizer next : Tokenizer} {token : Token}
    (h : tokenizer.pull = (.ok (some token), next)) :
    token.Turns tokenizer.nesting.containers next.nesting.containers := by
  obtain ⟨gap, lexeme, rest, inner, after, -, hcrosses, hreads, -, -, rfl⟩ :=
    pull_eq_token_iff.mp h
  have hturns := hreads.turns
  rwa [hcrosses.containers] at hturns

/-- The tokens that some pulls give, errors and ends between them left out. -/
def given (tokenizer : Tokenizer) (pulls : Nat) : List Token :=
  (tokenizer.answers pulls).filterMap (fun answer => answer.toOption.join)

end Tokenizer

/-- One round of the run: what a pull gives is open behind it. -/
theorem Opens.pull {tokenizer : Tokenizer} {tokens : List Token}
    (h : Opens tokenizer.nesting.containers tokens) :
    Opens tokenizer.pull.2.nesting.containers
      (tokens ++ tokenizer.pull.1.toOption.join.toList) := by
  cases hpull : tokenizer.pull with
  | mk answer next =>
      cases htoken : answer.toOption.join with
      | none =>
          have hcontainers := tokenizer.containers_pull_of_no_token (by rw [hpull]; exact htoken)
          rw [hpull] at hcontainers
          rw [hcontainers]
          simpa using h
      | some token =>
          have hanswer : answer = .ok (some token) := by
            cases answer with
            | error error => simp [Except.toOption] at htoken
            | ok found => simpa [Except.toOption] using htoken
          rw [hanswer] at hpull
          exact h.turn (Tokenizer.turns_of_pull hpull)

/-- The whole run: what the tokens given so far leave open is what is open. -/
theorem Opens.given {tokenizer : Tokenizer} {tokens : List Token}
    (h : Opens tokenizer.nesting.containers tokens) (pulls : Nat) :
    Opens (tokenizer.afterPulls pulls).nesting.containers (tokens ++ tokenizer.given pulls) := by
  induction pulls generalizing tokenizer tokens with
  | zero => simpa [Tokenizer.given, Tokenizer.answers, Tokenizer.afterPulls] using h
  | succ pulls ih =>
      have hrest := ih h.pull
      rw [List.append_assoc] at hrest
      -- The first answer is a token or it is none, and the other answers follow it.
      have hgiven : tokenizer.given (pulls + 1) =
          tokenizer.pull.1.toOption.join.toList ++ tokenizer.pull.2.given pulls := by
        unfold Tokenizer.given
        rw [Tokenizer.answers, List.filterMap_cons]
        cases tokenizer.pull.1.toOption.join <;> rfl
      rw [hgiven]
      exact hrest

/-! ## Bracketing -/

/-- What holds of the tokens that a tokenizer has given when it reports the depth `depth`. -/
structure Bracketed (tokens : List Token) (depth : Nat) : Prop where
  /-- The brackets begin a row that is well nested. -/
  wellNested : ∃ rest, WellNested (brackets tokens ++ rest)
  /-- The depth counts the brackets that have been opened and not closed. -/
  depth_eq : depth + tokens.countP Token.isClosing = tokens.countP Token.isOpening
  /-- A token has the depth of the containers around it.  A closing bracket closes the innermost
  one, so it counts among the closed ones itself. -/
  token_depth : ∀ before token after, tokens = before ++ token :: after →
    token.depth + (before ++ [token]).countP Token.isClosing = before.countP Token.isOpening
  /-- A closing bracket has a partner of its own kind and depth, and what stands between the two
  is well nested. -/
  partner : ∀ before closing after container, tokens = before ++ closing :: after →
    closing.kind = .endOf container → ∃ outer opening inside,
      before = outer ++ opening :: inside ∧ opening.kind = .startOf container ∧
        opening.depth = closing.depth ∧ WellNested (brackets inside)

namespace Opens

variable {containers outer inner : List Container} {tokens : List Token}

/-- A token that may come has the depth of the containers around it. -/
theorem depth_of_turns (h : Opens outer tokens) {token : Token}
    (hturns : token.Turns outer inner) :
    token.depth + (tokens ++ [token]).countP Token.isClosing = tokens.countP Token.isOpening := by
  have hlength := h.length_add_countP
  rw [List.countP_append, List.countP_singleton]
  cases hturns with
  | opening => simpa [Token.isClosing] using hlength
  | closing =>
      simp only [List.length_cons] at hlength
      simp [Token.isClosing]
      omega
  | leaf hbracket hdepth =>
      rw [Token.isClosing_of_bracket?_eq_none hbracket, hdepth]
      simpa using hlength

/-- A closing bracket that may come closes the last bracket that is open. -/
theorem exists_partner (h : Opens outer tokens) {closing : Token} {container : Container}
    (hturns : closing.Turns outer inner) (hkind : closing.kind = .endOf container) :
    ∃ before opening inside, tokens = before ++ opening :: inside ∧
      opening.kind = .startOf container ∧ opening.depth = closing.depth ∧
        WellNested (brackets inside) := by
  have hunclosed := h.unclosed
  cases hturns with
  | opening => simp at hkind
  | leaf hbracket _ => simp [Token.bracket?, hkind] at hbracket
  | closing =>
      obtain rfl : _ = container := by simpa using hkind
      cases hunclosed with
      | cons _ hopening hdepth hinside => exact ⟨_, _, _, rfl, hopening, hdepth, hinside⟩

theorem bracketed (h : Opens containers tokens) : Bracketed tokens containers.length where
  wellNested := h.unclosed.exists_wellNested
  depth_eq := h.length_add_countP
  token_depth := by
    intro before token after htokens
    obtain ⟨outer, inner, hbefore, hturns⟩ := h.split htokens
    exact hbefore.depth_of_turns hturns
  partner := by
    intro before closing after container htokens hkind
    obtain ⟨outer, inner, hbefore, hturns⟩ := h.split htokens
    exact hbefore.exists_partner hturns hkind

end Opens

/-- **Brackets over every run.**  Whatever a reader delivers and however often it is pulled, with
errors of all kinds in between: the brackets among the tokens given so far begin a well-nested
row, and the depth of the tokenizer and of each token is the number of containers open there. -/
theorem Tokenizer.bracketed_given (feed : Feed) (pulls : Nat) :
    Bracketed ((ofFeed feed).given pulls) ((ofFeed feed).afterPulls pulls).depth := by
  have hopens : Opens (ofFeed feed).nesting.containers [] := .nil
  have hbracketed := (hopens.given pulls).bracketed
  rwa [List.nil_append, Nesting.length_containers] at hbracketed

end RequiredKeys
