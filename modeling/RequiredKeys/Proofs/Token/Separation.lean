import RequiredKeys.Proofs.Token.Transcript

/-!
# Scalars that touch

Behind a scalar root value the next pull demands a separator.  The demand is made of
that one pull: if it fails because a read fails, the demand is gone, although nothing
has been read.  So `truefalse` is one fault if every read succeeds, and two values if
the read of the `f` fails once.

* `RootScalar` is the situation: a pull has given a scalar root value, and so far
  nothing but failed reads went wrong.
* `NeverTouch` says that no later pull, behind failed reads only, gives a token that
  touches the scalar, unless the token opens a container.
* `neverTouch_iff` is the exact condition for it: no failure stands between a scalar
  and a lexeme that touches it.
-/

namespace RequiredKeys

/-- At the root only an opening bracket is a lexeme that needs no separator. -/
theorem Nesting.Reads.kind_of_separates {lexeme : List UInt8} {token : Token} {after : Nesting}
    (h : Nesting.Reads [] lexeme token after)
    (hfirst : ∀ b ∈ lexeme.head?, Gap.separates b = true) :
    ∃ container, token.kind = .startOf container := by
  cases h with
  | enter _ => exact ⟨_, rfl⟩
  | scalar _ hvalue hscalar _ =>
      obtain ⟨b, tail, rfl, hbegins⟩ := hvalue.exists_cons
      have hb := hfirst b rfl
      simp only [Gap.separates, isBlank_of_beginsValue hbegins, Bool.false_or, Bool.or_eq_true,
        beq_iff_eq] at hb
      rw [hvalue.isScalar_eq_false hb] at hscalar
      contradiction

namespace Tokenizer

/-- Whether the caller has nothing worse than a failed read to report. -/
def Answer.mayGoOn : Answer → Bool
  | .ok _ => true
  | .error (.unreadable _) => true
  | .error (.malformed _ _) => false
  | .error (.truncated _) => false

/-- `RootScalar feed behind`: some pull over `feed` gives a scalar root value and leaves
the tokenizer `behind`; the pulls in front of it gave tokens or failed reads. -/
def RootScalar (feed : Feed) (behind : Tokenizer) : Prop :=
  ∃ pulls scalar, (∀ answer ∈ (ofFeed feed).answers pulls, answer.mayGoOn = true) ∧
    ((ofFeed feed).afterPulls pulls).pull = (.ok (some scalar), behind) ∧
    scalar.kind.isScalar = true ∧ scalar.depth = 0

/-- `FailsTo behind retried`: pulls that fail with the reader, and none else, lead from
one tokenizer to the other. -/
inductive FailsTo : Tokenizer → Tokenizer → Prop
  | refl {tokenizer : Tokenizer} : FailsTo tokenizer tokenizer
  | fail {tokenizer next last : Tokenizer} {reason : String}
      (hpull : tokenizer.pull = (.error (.unreadable reason), next)) (h : FailsTo next last) :
      FailsTo tokenizer last

/-- `Touches behind retried`: the first byte that is unread behind a scalar is still
unread, and it is no white space.  So it is the first byte of the token that the next
pull gives, if it gives one. -/
def Touches (behind retried : Tokenizer) : Prop :=
  retried.cursor.feed.bytes = behind.cursor.feed.bytes ∧
    ∀ b ∈ behind.cursor.feed.bytes.head?, Ascii.isBlank b = false

/-- Behind a scalar root value no token that touches it is given, whatever reads fail,
unless it opens a container. -/
def NeverTouch (feed : Feed) : Prop :=
  ∀ behind retried token next, RootScalar feed behind → FailsTo behind retried →
    Touches behind retried → retried.pull = (.ok (some token), next) →
    ∃ container, token.kind = .startOf container

/-- Behind a scalar root value no container is open, and a separator is due. -/
theorem RootScalar.state {feed : Feed} {behind : Tokenizer} (h : RootScalar feed behind) :
    behind.nesting = [] ∧ behind.separatorDue = true := by
  obtain ⟨pulls, scalar, -, hpull, hkind, hdepth⟩ := h
  obtain ⟨gap, lexeme, rest, inner, after, -, -, hreads, -, -, rfl⟩ := pull_eq_token_iff.mp hpull
  cases hreads with
  | exit _ => simp [TokenKind.isScalar] at hkind
  | key _ _ => simp [TokenKind.isScalar] at hkind
  | enter _ => simp [TokenKind.isScalar] at hkind
  | scalar _ _ hscalar htoken =>
      obtain ⟨-, hlength⟩ := Json.isScalar_of_tokens_eq hscalar htoken
      obtain rfl := List.length_eq_zero_iff.mp (hlength.symm.trans hdepth)
      exact ⟨rfl, by simp [hkind, Nesting.expect]⟩

/-- The failures that a reader delivers one after the other. -/
def failing (reasons : List String) : Feed :=
  reasons.map Delivery.failure

theorem FailsTo.length_bytes_le {tokenizer last : Tokenizer} (h : FailsTo tokenizer last) :
    last.cursor.feed.bytes.length ≤ tokenizer.cursor.feed.bytes.length := by
  induction h with
  | refl => exact Nat.le_refl _
  | fail hpull _ ih =>
      obtain ⟨taken, hfeed⟩ := pull_eq_unreadable hpull
      rw [hfeed]
      simp only [Feed.bytes_append, Feed.bytes_failure, Feed.bytes_ofBytes, List.length_append]
      omega

/-- Failed pulls that read nothing use up failures and nothing else. -/
theorem FailsTo.of_bytes_eq {tokenizer last : Tokenizer} (h : FailsTo tokenizer last)
    (hbytes : last.cursor.feed.bytes = tokenizer.cursor.feed.bytes) :
    ∃ reasons, tokenizer.cursor.feed = failing reasons ++ last.cursor.feed ∧
      last.nesting = tokenizer.nesting ∧ (reasons = [] → last = tokenizer) := by
  induction h with
  | refl => exact ⟨[], rfl, rfl, fun _ => rfl⟩
  | @fail tokenizer next last reason hpull hfails ih =>
      obtain ⟨taken, hfeed⟩ := pull_eq_unreadable hpull
      have hsplit : tokenizer.cursor.feed.bytes = taken ++ next.cursor.feed.bytes := by
        simp [hfeed]
      have hle := hfails.length_bytes_le
      -- Nothing has been read in the end, so this pull has read nothing either.
      have hnone : taken = [] := by
        have hlength := congrArg List.length (hbytes.trans hsplit)
        rw [List.length_append] at hlength
        exact List.length_eq_zero_iff.mp (by omega)
      subst hnone
      obtain ⟨⟨feed, p⟩, nesting, due, current⟩ := tokenizer
      obtain rfl : feed = .failure reason :: next.cursor.feed := hfeed
      rw [pull_failure] at hpull
      have hnext : next.nesting = nesting := by
        rw [← (Prod.mk.inj hpull).2]
      obtain ⟨reasons, hrest, hnesting, -⟩ := ih (hbytes.trans hsplit)
      refine ⟨reason :: reasons, ?_, hnesting.trans hnext, by simp⟩
      show _ :: next.cursor.feed = _
      rw [hrest]
      rfl

@[simp] theorem bytes_failing (reasons : List String) (rest : Feed) :
    (failing reasons ++ rest).bytes = rest.bytes := by
  induction reasons with
  | nil => rfl
  | cons reason reasons ih => exact ih

/-- Failures one after the other fail one pull each, and take the demand for a
separator with them. -/
theorem failsTo_failing (reasons : List String) (rest : Feed) (p : Position) (nesting : Nesting)
    (due : Bool) (current : Option Token) (hreasons : reasons ≠ []) :
    FailsTo ⟨⟨failing reasons ++ rest, p⟩, nesting, due, current⟩
      ⟨⟨rest, p⟩, nesting, false, none⟩ := by
  induction reasons generalizing due current with
  | nil => exact absurd rfl hreasons
  | cons reason reasons ih =>
      refine .fail (pull_failure reason _ p nesting due current) ?_
      cases reasons with
      | nil => exact .refl
      | cons other reasons => exact ih _ _ (by simp)

/-- If failures stand directly between a scalar and a lexeme, pulls that fail lead to one
that gives the lexeme. -/
theorem exists_pull_of_failing {behind : Tokenizer} {reasons : List String}
    {lexeme : List UInt8} {rest : Feed} {token : Token} {after : Nesting}
    (hnesting : behind.nesting = [])
    (hfeed : behind.cursor.feed = failing reasons ++ Feed.ofBytes lexeme ++ rest)
    (hreasons : reasons ≠ []) (hreads : Nesting.Reads [] lexeme token after)
    (hends : token.kind = .number → NumberEnds lexeme rest) :
    ∃ retried next, FailsTo behind retried ∧ Touches behind retried ∧
      retried.pull = (.ok (some token), next) := by
  obtain ⟨⟨feed, p⟩, nesting, due, current⟩ := behind
  obtain rfl : feed = failing reasons ++ Feed.ofBytes lexeme ++ rest := hfeed
  obtain rfl : nesting = [] := hnesting
  rw [List.append_assoc]
  -- The failures have taken the demand for a separator with them.
  let retried : Tokenizer := ⟨⟨Feed.ofBytes lexeme ++ rest, p⟩, [], false, none⟩
  have hfails := failsTo_failing reasons (Feed.ofBytes lexeme ++ rest) p [] due current hreasons
  have hpull : retried.pull = (.ok (some token), _) :=
    pull_of_reads hreads hends (by simp) p none
  refine ⟨retried, _, hfails, ⟨(bytes_failing _ _).symm, ?_⟩, hpull⟩
  intro c hc
  rw [bytes_failing] at hc
  obtain ⟨start, filled, b, hbegins, hfirst, -⟩ := Nesting.reads_iff.mp ⟨hreads, hends⟩
  obtain ⟨tail, rfl⟩ := List.head?_eq_some_iff.mp hfirst
  obtain rfl : b = c := Option.some.inj hc
  exact hbegins.isBlank_eq_false

/-- A token that touches a scalar is a lexeme directly behind the failures, if there are
any, and otherwise its first byte separates. -/
theorem lexeme_of_touches {feed : Feed} {behind retried next : Tokenizer} {token : Token}
    (hscalar : RootScalar feed behind) (hfails : FailsTo behind retried)
    (htouches : Touches behind retried) (hpull : retried.pull = (.ok (some token), next)) :
    ∃ reasons lexeme rest after,
      behind.cursor.feed = failing reasons ++ Feed.ofBytes lexeme ++ rest ∧
        Nesting.Reads [] lexeme token after ∧
        (token.kind = .number → NumberEnds lexeme rest) ∧
        (reasons = [] → ∀ b ∈ lexeme.head?, Gap.separates b = true) := by
  obtain ⟨hbytes, hhead⟩ := htouches
  obtain ⟨hroot, hdueBehind⟩ := hscalar.state
  obtain ⟨reasons, hfeed, hnesting, hsame⟩ := hfails.of_bytes_eq hbytes
  obtain ⟨gap, lexeme, rest, inner, after, hlexeme, hcrosses, hreads, hends, hdue, -⟩ :=
    pull_eq_token_iff.mp hpull
  rw [hnesting, hroot] at hcrosses
  obtain ⟨hblanks, rfl⟩ := Nesting.crosses_root_iff.mp hcrosses
  have hgap : gap = [] := by
    cases gap with
    | nil => rfl
    | cons c gap =>
        have hblank := (blanks_cons.mp hblanks).1
        rw [← hbytes, hlexeme] at hhead
        have hnone := hhead c rfl
        rw [hblank] at hnone
        contradiction
  subst hgap
  refine ⟨reasons, lexeme, rest, after, ?_, hreads, hends, ?_⟩
  · rw [hfeed, hlexeme, List.append_assoc]
    rfl
  · intro hreasons
    -- No read has failed, so the separator is still due.
    rw [hsame hreasons] at hdue
    exact hdue hdueBehind

/-- **When scalars do not touch.**  No failure stands directly between a scalar root
value and a lexeme, unless the lexeme opens a container. -/
theorem neverTouch_iff (feed : Feed) :
    NeverTouch feed ↔
      ∀ behind reasons lexeme rest token after, RootScalar feed behind →
        behind.cursor.feed = failing reasons ++ Feed.ofBytes lexeme ++ rest → reasons ≠ [] →
        Nesting.Reads [] lexeme token after → (token.kind = .number → NumberEnds lexeme rest) →
        ∃ container, token.kind = .startOf container := by
  constructor
  · intro hnever behind reasons lexeme rest token after hscalar hfeed hreasons hreads hends
    obtain ⟨retried, next, hfails, htouches, hpull⟩ :=
      exists_pull_of_failing hscalar.state.1 hfeed hreasons hreads hends
    exact hnever behind retried token next hscalar hfails htouches hpull
  · intro hcondition behind retried token next hscalar hfails htouches hpull
    obtain ⟨reasons, lexeme, rest, after, hfeed, hreads, hends, hseparates⟩ :=
      lexeme_of_touches hscalar hfails htouches hpull
    by_cases hreasons : reasons = []
    · exact hreads.kind_of_separates (hseparates hreasons)
    · exact hcondition behind reasons lexeme rest token after hscalar hfeed hreasons hreads hends

/-- The word `true` is delivered, the read behind it fails, and the word `false` is
delivered although it touches the other one. -/
theorem not_neverTouch_truefalse :
    ¬ NeverTouch (Feed.ofDocument [0x74, 0x72, 0x75, 0x65, 0x66, 0x61, 0x6c, 0x73, 0x65]
      [⟨4, "x"⟩]) := by
  intro hnever
  let rest : Feed := Feed.ofBytes [0x66, 0x61, 0x6c, 0x73, 0x65]
  let behind : Tokenizer :=
    ⟨⟨.failure "x" :: rest, ⟨1, 5⟩⟩, [], true, some ⟨.bool true, none, 0⟩⟩
  have hscalar : RootScalar (Feed.ofDocument
      [0x74, 0x72, 0x75, 0x65, 0x66, 0x61, 0x6c, 0x73, 0x65] [⟨4, "x"⟩]) behind :=
    ⟨0, ⟨.bool true, none, 0⟩, by simp [answers], rfl, rfl, rfl⟩
  have htouches : Touches behind ⟨⟨rest, ⟨1, 5⟩⟩, [], false, none⟩ := by
    refine ⟨rfl, ?_⟩
    intro b hb
    obtain rfl : 0x66 = b := Option.some.inj hb
    rfl
  obtain ⟨container, hkind⟩ := hnever behind _ ⟨.bool false, none, 0⟩ _ hscalar
    (.fail (pull_failure "x" _ _ _ _ _) .refl) htouches rfl
  simp at hkind

end Tokenizer
end RequiredKeys
