import RequiredKeys.Proofs.Input.Failures
import RequiredKeys.Proofs.Token.Refusal

/-!
# Pulling again

A failed read between two tokens leaves a tokenizer that can go on.  White space and punctuation
that have been read are accounted for in what the innermost container expects, and nothing else
has been read; so a caller that pulls again receives what it would have received from a reader
that never fails.

* `Nesting.Pauses` says where the tokenizer looks at a byte for the first time between two
  tokens.  Inside a lexeme it has read a part that a failure drops, and a number does not know
  that it is over before it has seen what comes next; these places are no pauses.
* `Tokenizer.received` is what a caller receives that pulls again after each failed read.

`Tokenizer.received_of_failsAt` follows the feed.  A byte of a gap makes no difference to the
next pull (`Tokenizer.pull_of_crosses`), a failure costs one pull, and a lexeme has no failure
inside, since it has no pause inside (`Nesting.Pauses.of_lexeme`).
-/

namespace RequiredKeys

/-! ## Pauses -/

/-- `nesting.Pauses behindNumber bytes offset`: where the document goes on with `bytes` inside
`nesting`, directly behind a number or not, the tokenizer looks at the byte with the given offset
(or at the end) for the first time when it is between two tokens. -/
inductive Nesting.Pauses : Nesting → Bool → List UInt8 → Nat → Prop
  | gap {nesting inner : Nesting} {behindNumber : Bool} {gap rest : List UInt8}
      (hgap : nesting.Crosses gap inner) (hnumber : behindNumber = true → gap ≠ []) :
      Pauses nesting behindNumber (gap ++ rest) gap.length
  | lexeme {nesting inner after : Nesting} {behindNumber : Bool} {gap lexeme rest : List UInt8}
      {token : Token} {offset : Nat} (hgap : nesting.Crosses gap inner)
      (hreads : inner.Reads lexeme token after)
      (hends : token.kind = .number → NumberEnds lexeme (Feed.ofBytes rest))
      (h : Pauses after (token.kind == .number) rest offset) :
      Pauses nesting behindNumber (gap ++ lexeme ++ rest) ((gap ++ lexeme).length + offset)

namespace Nesting

/-- **There is one way to read a lexeme** off the beginning of some bytes. -/
theorem Reads.unique {nesting after other : Nesting} {lexeme rest lexeme' rest' : List UInt8}
    {token token' : Token} (hreads : nesting.Reads lexeme token after)
    (hends : token.kind = .number → NumberEnds lexeme (Feed.ofBytes rest))
    (hreads' : nesting.Reads lexeme' token' other)
    (hends' : token'.kind = .number → NumberEnds lexeme' (Feed.ofBytes rest'))
    (hbytes : lexeme ++ rest = lexeme' ++ rest') :
    lexeme = lexeme' ∧ rest = rest' ∧ token = token' ∧ after = other := by
  -- Both are what a pull gives where the bytes are all that is left.
  have hdue (bytes : List UInt8) : false = true → ∀ b ∈ bytes.head?, Gap.separates b = true := by
    simp
  have hpull := Tokenizer.pull_of_reads hreads hends (hdue lexeme) Position.start none
  have hpull' := Tokenizer.pull_of_reads hreads' hends' (hdue lexeme') Position.start none
  rw [← Feed.ofBytes_append] at hpull hpull'
  rw [← hbytes, hpull] at hpull'
  simp only [Prod.mk.injEq, Except.ok.injEq, Option.some.injEq, Tokenizer.mk.injEq,
    Cursor.mk.injEq] at hpull'
  obtain ⟨rfl, ⟨hrest, -⟩, rfl, -⟩ := hpull'
  obtain rfl := Feed.ofBytes_injective hrest
  exact ⟨List.append_cancel_right hbytes, rfl, rfl, rfl⟩

namespace Pauses

variable {nesting next after : Nesting} {behindNumber : Bool} {b : UInt8}
  {bytes lexeme rest : List UInt8} {token : Token} {offset : Nat}

/-- Directly behind a number the tokenizer does not pause. -/
theorem not_behind_number : ¬ Pauses nesting true bytes 0 := by
  intro h
  generalize hoffset : 0 = offset at h
  cases h with
  | gap hgap hnumber => exact hnumber rfl (List.length_eq_zero_iff.mp hoffset.symm)
  | lexeme hgap hreads hends h =>
      have hlength := List.length_pos_iff.mpr hreads.ne_nil
      rw [List.length_append] at hoffset
      omega

/-- Behind a byte of a gap the pauses are the same. -/
theorem of_crosses (h : Pauses nesting behindNumber (b :: bytes) (offset + 1))
    (hcrosses : nesting.Crosses [b] next) : Pauses next false bytes offset := by
  generalize hinput : b :: bytes = input at h
  generalize hplace : offset + 1 = place at h
  cases h with
  | @gap _ inner _ gap rest hgap _ =>
      cases gap with
      | nil => simp at hplace
      | cons c gap =>
          obtain ⟨rfl, rfl⟩ : b = c ∧ bytes = gap ++ rest := by simpa using hinput
          obtain ⟨other, hfirst, hbehind⟩ := crosses_cons_iff.mp hgap
          obtain rfl := crosses_unique hcrosses hfirst
          rw [List.length_cons] at hplace
          obtain rfl : offset = gap.length := by omega
          exact .gap hbehind (by simp)
  | @lexeme _ inner after _ gap lexeme rest token later hgap hreads hends h =>
      obtain ⟨tail, rfl, rfl, hbehind⟩ := hgap.of_head hreads hinput hcrosses
      rw [List.cons_append, List.length_cons] at hplace
      obtain rfl : offset = (tail ++ lexeme).length + later := by omega
      exact .lexeme hbehind hreads hends h

/-- A lexeme has a pause in front of it, and the other pauses are behind it. -/
theorem of_lexeme (h : Pauses nesting behindNumber (lexeme ++ rest) offset)
    (hreads : nesting.Reads lexeme token after)
    (hends : token.kind = .number → NumberEnds lexeme (Feed.ofBytes rest)) :
    offset = 0 ∨ ∃ behind, offset = lexeme.length + behind ∧
      Pauses after (token.kind == .number) rest behind := by
  -- A gap in front of the bytes is empty, because they begin with a lexeme.
  have hnil {inner : Nesting} {gap more : List UInt8} (hgap : nesting.Crosses gap inner)
      (hbytes : lexeme ++ rest = gap ++ more) : gap = [] := by
    cases gap with
    | nil => rfl
    | cons c gap =>
        obtain ⟨b, tail, rfl⟩ := List.exists_cons_of_ne_nil hreads.ne_nil
        obtain ⟨rfl, -⟩ : b = c ∧ _ := by simpa using hbytes
        obtain ⟨other, hfirst, -⟩ := crosses_cons_iff.mp hgap
        exact absurd hfirst hreads.not_crosses
  generalize hinput : lexeme ++ rest = input at h
  cases h with
  | gap hgap _ =>
      rw [hnil hgap hinput]
      exact .inl rfl
  | @lexeme _ inner other _ gap lexeme' rest' token' behind hgap hreads' hends' h =>
      rw [List.append_assoc] at hinput
      obtain rfl := hnil hgap hinput
      obtain rfl := crosses_nil_iff.mp hgap
      obtain ⟨rfl, rfl, rfl, rfl⟩ := hreads.unique hends hreads' hends' hinput
      exact .inr ⟨behind, rfl, h⟩

end Pauses
end Nesting

/-! ## What a caller receives -/

/-- What a pull has answered, and where the tokenizer stands behind it. -/
structure Receipt where
  answer : Tokenizer.Answer
  position : Position
  depth : Nat

namespace Tokenizer

theorem length_feed_lt_of_unreadable {tokenizer next : Tokenizer} {reason : String}
    (h : tokenizer.pull = (.error (.unreadable reason), next)) :
    next.cursor.feed.length < tokenizer.cursor.feed.length := by
  obtain ⟨taken, hfeed⟩ := pull_eq_unreadable h
  rw [hfeed, List.length_append, List.length_cons]
  omega

/-- What a caller receives that pulls again after each failed read, up to the end of the input or
to an error of another kind. -/
def received (tokenizer : Tokenizer) : List Receipt :=
  match hpull : tokenizer.pull with
  | (.ok none, next) => [⟨.ok none, next.position, next.depth⟩]
  | (.ok (some token), next) =>
    have := length_feed_lt_of_pull hpull
    ⟨.ok (some token), next.position, next.depth⟩ :: next.received
  | (.error (.unreadable _), next) =>
    have := length_feed_lt_of_unreadable hpull
    next.received
  | (.error error, next) => [⟨.error error, next.position, next.depth⟩]
termination_by tokenizer.cursor.feed.length

/-- What is received depends on what the next pull does. -/
theorem received_eq (tokenizer : Tokenizer) :
    tokenizer.received =
      match tokenizer.pull with
      | (.ok none, next) => [⟨.ok none, next.position, next.depth⟩]
      | (.ok (some token), next) =>
        ⟨.ok (some token), next.position, next.depth⟩ :: next.received
      | (.error (.unreadable _), next) => next.received
      | (.error error, next) => [⟨.error error, next.position, next.depth⟩] := by
  rw [received]
  split <;> simp_all

theorem received_congr {tokenizer other : Tokenizer} (h : tokenizer.pull = other.pull) :
    tokenizer.received = other.received := by
  rw [received_eq, h, ← received_eq]

theorem received_of_end {tokenizer next : Tokenizer} (h : tokenizer.pull = (.ok none, next)) :
    tokenizer.received = [⟨.ok none, next.position, next.depth⟩] := by
  rw [received_eq, h]

theorem received_of_token {tokenizer next : Tokenizer} {token : Token}
    (h : tokenizer.pull = (.ok (some token), next)) :
    tokenizer.received = ⟨.ok (some token), next.position, next.depth⟩ :: next.received := by
  rw [received_eq, h]

theorem received_of_unreadable {tokenizer next : Tokenizer} {reason : String}
    (h : tokenizer.pull = (.error (.unreadable reason), next)) :
    tokenizer.received = next.received := by
  rw [received_eq, h]

/-- A byte of a gap makes no difference to the next pull. -/
theorem pull_of_crosses {nesting next : Nesting} {due : Bool} {b : UInt8}
    (hdue : due = true → Gap.separates b = true) (h : nesting.Crosses [b] next) (feed : Feed)
    (p : Position) (current other : Option Token) :
    pull ⟨⟨.byte b :: feed, p⟩, nesting, due, current⟩ =
      pull ⟨⟨feed, p.after b⟩, next, false, other⟩ := by
  have hpull := pull_of_gap h (by simpa using hdue) feed p current other
  simpa using hpull

/-- At the end of the input nobody asks for a separator. -/
theorem pull_nil (p : Position) (nesting : Nesting) (due other : Bool)
    (current current' : Option Token) :
    pull ⟨⟨[], p⟩, nesting, due, current⟩ = pull ⟨⟨[], p⟩, nesting, other, current'⟩ := by
  cases nesting <;> rfl

end Tokenizer

/-! ## Failures at pauses -/

/-- A number ends in front of a feed as it ends in front of its bytes, if the next read does not
fail. -/
theorem NumberEnds.of_bytes {lexeme : List UInt8} {feed : Feed}
    (h : NumberEnds lexeme (Feed.ofBytes feed.bytes)) (hfails : ¬ feed.FailsAt 0) :
    NumberEnds lexeme feed := by
  cases feed with
  | nil => exact .inl rfl
  | cons delivery feed =>
      cases delivery with
      | failure reason => exact absurd (Feed.failsAt_head reason feed) hfails
      | byte b =>
          rw [Feed.bytes_byte, Feed.ofBytes_cons] at h
          exact h.of_byte feed

/-- Where reads fail at pauses only, none fails inside a lexeme or directly behind a number, and
behind the lexeme they fail at pauses again. -/
theorem Nesting.Reads.exists_behind {nesting after : Nesting} {behindNumber : Bool} {feed : Feed}
    {lexeme rest : List UInt8} {token : Token} (hreads : nesting.Reads lexeme token after)
    (hends : token.kind = .number → NumberEnds lexeme (Feed.ofBytes rest))
    (hbytes : feed.bytes = lexeme ++ rest) (hfirst : ¬ feed.FailsAt 0)
    (hfails : ∀ offset, feed.FailsAt offset → nesting.Pauses behindNumber feed.bytes offset) :
    ∃ behind : Feed, feed = Feed.ofBytes lexeme ++ behind ∧ behind.bytes = rest ∧
      (token.kind = .number → NumberEnds lexeme behind) ∧
      ∀ offset, behind.FailsAt offset → after.Pauses (token.kind == .number) rest offset := by
  rw [hbytes] at hfails
  have hinside (offset : Nat) (h : feed.FailsAt offset) : lexeme.length ≤ offset := by
    obtain rfl | ⟨later, rfl, -⟩ := (hfails offset h).of_lexeme hreads hends
    · exact absurd h hfirst
    · omega
  obtain ⟨behind, rfl, rfl⟩ := Feed.eq_ofBytes_append hbytes hinside
  have hbehind (offset : Nat) (h : behind.FailsAt offset) :
      after.Pauses (token.kind == .number) behind.bytes offset := by
    have hfeed : Feed.FailsAt (Feed.ofBytes lexeme ++ behind) (lexeme.length + offset) :=
      Feed.failsAt_append_iff.mpr (.inr ⟨offset, by rw [Feed.bytes_ofBytes], h⟩)
    have hlength := List.length_pos_iff.mpr hreads.ne_nil
    obtain hzero | ⟨later, hlater, hpauses⟩ := (hfails _ hfeed).of_lexeme hreads hends
    · omega
    · obtain rfl : offset = later := by omega
      exact hpauses
  refine ⟨behind, rfl, rfl, ?_, hbehind⟩
  intro hkind
  apply (hends hkind).of_bytes
  intro hzero
  have hpauses := hbehind 0 hzero
  rw [hkind] at hpauses
  exact Pauses.not_behind_number hpauses

namespace Tokenizer

/-- **Failures at pauses make no difference.**  The two tokenizers stand at the same place, and
one of them reads from a feed that fails.  A failure may have taken the demand for a separator
with it, but in a row of lexemes the separator is there.  The induction is on the feed: a failure,
a byte of a gap or a lexeme comes first. -/
theorem received_of_failsAt (feed : Feed) (p : Position) {nesting : Nesting}
    {due stillDue behindNumber : Bool} (current other : Option Token) {tokens : List Token}
    (hrow : Succession nesting due feed.bytes tokens) (hdue : stillDue = true → due = true)
    (hfails : ∀ offset, feed.FailsAt offset → nesting.Pauses behindNumber feed.bytes offset) :
    received ⟨⟨feed, p⟩, nesting, stillDue, current⟩ =
      received ⟨⟨Feed.ofBytes feed.bytes, p⟩, nesting, due, other⟩ := by
  match feed with
  | [] => exact received_congr (pull_nil p nesting stillDue due current other)
  | .failure reason :: rest =>
      rw [received_of_unreadable (pull_failure reason rest p nesting stillDue current)]
      have hrest (offset : Nat) (h : Feed.FailsAt rest offset) := hfails offset (h.failure reason)
      exact received_of_failsAt rest p none other hrow (by simp) hrest
  | .byte b :: rest =>
      by_cases hgap : ∃ next, nesting.Crosses [b] next
      · obtain ⟨next, hcrosses⟩ := hgap
        have hseparates (h : due = true) : Gap.separates b = true :=
          separated_iff.mp (hrow.completion.2 h) b rfl
        have hrest (offset : Nat) (h : Feed.FailsAt rest offset) :
            next.Pauses false (Feed.bytes rest) offset :=
          (hfails _ (Feed.failsAt_byte_iff.mpr ⟨offset, rfl, h⟩)).of_crosses hcrosses
        calc received ⟨⟨.byte b :: rest, p⟩, nesting, stillDue, current⟩
            = received ⟨⟨rest, p.after b⟩, next, false, none⟩ :=
              received_congr (pull_of_crosses (fun h => hseparates (hdue h)) hcrosses _ _ _ _)
          _ = received ⟨⟨Feed.ofBytes (Feed.bytes rest), p.after b⟩, next, false, none⟩ :=
              received_of_failsAt rest _ _ _ (hrow.of_crosses_cons hcrosses) id hrest
          _ = received ⟨⟨Feed.ofBytes (b :: Feed.bytes rest), p⟩, nesting, due, other⟩ :=
              (received_congr (pull_of_crosses hseparates hcrosses _ _ _ _)).symm
      · obtain ⟨tail, left, token, after, more, hbytes, hreads, hmore, -, hends⟩ :=
          hrow.exists_lexeme (fun next hcrosses => hgap ⟨next, hcrosses⟩)
        have hbytes : Feed.bytes (.byte b :: rest) = b :: tail ++ left := hbytes
        obtain ⟨behind, hfeed, rfl, hnumber, hbehind⟩ :=
          hreads.exists_behind hends hbytes Feed.not_failsAt_byte_zero hfails
        have hclean : Feed.ofBytes (Feed.bytes (.byte b :: rest)) =
            Feed.ofBytes (b :: tail) ++ Feed.ofBytes behind.bytes := by
          rw [← Feed.ofBytes_append]
          exact congrArg Feed.ofBytes hbytes
        have hhead (h : due = true) : ∀ c ∈ (b :: tail).head?, Gap.separates c = true :=
          separated_iff.mp (hrow.completion.2 h)
        -- Both pulls give the lexeme, and behind it both tokenizers stand at the same place.
        have hpull := pull_of_reads hreads hnumber (fun h => hhead (hdue h)) p current
        have hcleanPull := pull_of_reads hreads hends hhead p other
        rw [hclean, hfeed, received_of_token hpull, received_of_token hcleanPull]
        have hlength : behind.length < (Delivery.byte b :: rest).length := by
          rw [hfeed, List.length_append]
          simp
        congr 1
        exact received_of_failsAt behind _ _ _ hmore id hbehind
termination_by feed.length
decreasing_by
  · exact Nat.lt_succ_self rest.length
  · exact Nat.lt_succ_self rest.length
  · exact hlength

/-- Who pulls a tokenizer that delivers some tokens receives these, and then the end. -/
theorem Delivers.received {tokenizer : Tokenizer} {tokens : List Token}
    (h : tokenizer.Delivers tokens) :
    tokenizer.received.map Receipt.answer =
      tokens.map (fun token => .ok (some token)) ++ [.ok none] := by
  induction tokens generalizing tokenizer with
  | nil =>
      obtain ⟨next, hpull⟩ := delivers_nil_iff.mp h
      rw [received_of_end hpull]
      rfl
  | cons token tokens ih =>
      obtain ⟨next, hpull, hrest⟩ := delivers_cons_iff.mp h
      rw [received_of_token hpull, List.map_cons, ih hrest]
      rfl

/-- **Pulling again is transparent.**  If a document is tokenized to its end and reads fail at
pauses only, any number of times at each, then a caller that pulls again after each failed read
receives the tokens and then the end, with the position and the depth behind each of them, as
from a reader that never fails. -/
theorem received_of_pauses {document : List UInt8} {tokens : List Token}
    {failures : List ReadFailure} (h : (ofBytes document).Delivers tokens)
    (hfailures : ∀ failure ∈ failures, failure.isSilent = false →
      Nesting.Pauses [] false document failure.offset) :
    (ofFeed (Feed.ofDocument document failures)).received = (ofBytes document).received ∧
      (ofBytes document).received.map Receipt.answer =
        tokens.map (fun token => .ok (some token)) ++ [.ok none] := by
  refine ⟨?_, h.received⟩
  have hrow : Succession [] false (Feed.ofDocument document failures).bytes tokens := by
    rw [Feed.bytes_ofDocument]
    exact delivers_ofBytes_iff.mp h
  have hfails (offset : Nat) (hoffset : (Feed.ofDocument document failures).FailsAt offset) :
      Nesting.Pauses [] false (Feed.ofDocument document failures).bytes offset := by
    obtain ⟨failure, hmem, hplace⟩ := Feed.exists_of_failsAt_weave hoffset
    rw [List.mem_filter] at hmem
    obtain rfl : failure.offset = offset := hplace.trans (Nat.zero_add offset)
    rw [Feed.bytes_ofDocument]
    exact hfailures failure hmem.1 (by simpa using hmem.2)
  have hsame := received_of_failsAt (Feed.ofDocument document failures) Position.start none none
    hrow id hfails
  rwa [Feed.bytes_ofDocument] at hsame

/-- In `0 []` there is a pause everywhere but behind the number, where the space stands. -/
theorem received_of_pauses_number :
    (ofFeed (Feed.ofDocument [0x30, 0x20, 0x5b, 0x5d]
      [⟨0, "a"⟩, ⟨2, "b"⟩, ⟨2, "c"⟩, ⟨3, "d"⟩, ⟨4, "e"⟩])).received.map Receipt.answer =
        [.ok (some ⟨.number, some "0", 0⟩), .ok (some ⟨.startOf .array, none, 0⟩),
          .ok (some ⟨.endOf .array, none, 0⟩), .ok none] := by
  have hdelivers : (ofBytes [0x30, 0x20, 0x5b, 0x5d]).Delivers
      [⟨.number, some "0", 0⟩, ⟨.startOf .array, none, 0⟩, ⟨.endOf .array, none, 0⟩] :=
    delivers_cons_iff.mpr ⟨_, rfl, delivers_cons_iff.mpr ⟨_, rfl, delivers_cons_iff.mpr
      ⟨_, rfl, delivers_nil_iff.mpr ⟨_, rfl⟩⟩⟩⟩
  have hzero : NumberText [0x30] :=
    ⟨[], [0x30], rfl, .inl rfl, [0x30], [], rfl, .inl rfl, [], [], rfl, .inl rfl, .inl rfl⟩
  have hends : NumberEnds [0x30] (Feed.ofBytes [0x20, 0x5b, 0x5d]) := by
    apply numberEnds_of_stops hzero
    intro b hb
    obtain rfl := Option.some.inj hb
    rfl
  have hwants : Nesting.WantsValue [] := trivial
  have henter : Nesting.Reads [] [0x5b] ⟨.startOf .array, none, 0⟩ [⟨.array, .valueOrEnd⟩] :=
    @Nesting.Reads.enter [] .array hwants
  -- The pauses behind each of the tokens.
  have hnumber {offset : Nat} (h : Nesting.Pauses [] true [0x20, 0x5b, 0x5d] offset) :
      Nesting.Pauses [] false [0x30, 0x20, 0x5b, 0x5d] (1 + offset) :=
    .lexeme .nil (.scalar hwants (.number hzero) rfl rfl) (fun _ => hends) h
  have hopening {offset : Nat} (h : Nesting.Pauses [⟨.array, .valueOrEnd⟩] false [0x5d] offset) :
      Nesting.Pauses [] true [0x20, 0x5b, 0x5d] (2 + offset) :=
    .lexeme (.blank rfl .nil) henter (by simp) h
  have hclosing : Nesting.Pauses [⟨.array, .valueOrEnd⟩] false [0x5d] 1 :=
    .lexeme .nil (.exit rfl) (by simp) (.gap .nil (by simp))
  have hpauses : ∀ failure ∈ [(⟨0, "a"⟩ : ReadFailure), ⟨2, "b"⟩, ⟨2, "c"⟩, ⟨3, "d"⟩, ⟨4, "e"⟩],
      failure.isSilent = false →
        Nesting.Pauses [] false [0x30, 0x20, 0x5b, 0x5d] failure.offset := by
    have hspace : Nesting.Pauses [] true [0x20, 0x5b, 0x5d] 1 :=
      .gap (.blank rfl .nil) (by simp)
    simp only [List.forall_mem_cons]
    exact ⟨fun _ => .gap .nil (by simp), fun _ => hnumber hspace, fun _ => hnumber hspace,
      fun _ => hnumber (hopening (.gap .nil (by simp))), fun _ => hnumber (hopening hclosing),
      by simp⟩
  obtain ⟨hsame, htokens⟩ := received_of_pauses hdelivers hpauses
  rw [hsame, htokens]
  rfl

end Tokenizer
end RequiredKeys
