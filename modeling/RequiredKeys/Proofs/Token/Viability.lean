import RequiredKeys.Proofs.Token.Acceptance
import RequiredKeys.Proofs.Token.Bracketing

/-!
# Tokens that some document has

A tokenizer that has given tokens and no error so far has read the beginning of a document.  This
holds over malformed input as well: an error comes with the first token that no document could
have there, never later.

* `Nesting.Regular` is what the nesting is like at any time.  A container expects what a container
  of its kind can expect, and the containers around it are done with the member or element that
  stands in them (`Nesting.Crosses.regular`, `Nesting.Reads.regular`).
* `Nesting.closing` is a text that completes a regular nesting.  Where a value or a key is due it
  writes the empty string, since nothing in front of a quote can be mistaken for its beginning.
* `Tokenizer.Gives` is a run of pulls that all give tokens, and `Tokenizer.Gives.exists_consumed` puts
  the bytes that it has consumed in front of any row that may follow.
* `Alternates` says which token may stand where: keys and closing braces where a key is due, and
  the beginning of a value behind a key.
-/

namespace RequiredKeys

open Ascii

/-! ## Regular nestings -/

namespace Frame

/-- Whether a container of this kind can expect this. -/
def isRegular (frame : Frame) : Bool :=
  match frame.container, frame.expects with
  | .object, .valueOrEnd => false
  | .array, .keyOrEnd => false
  | .array, .key => false
  | .array, .colon => false
  | _, _ => true

theorem isRegular_opened (container : Container) : (opened container).isRegular = true := by
  cases container <;> rfl

theorem isRegular_commaOrEnd (container : Container) :
    isRegular ⟨container, .commaOrEnd⟩ = true := by
  cases container <;> rfl

theorem isRegular_of_wantsKey {frame : Frame} (h : frame.wantsKey = true) :
    isRegular ⟨frame.container, .colon⟩ = true := by
  obtain ⟨container, expects⟩ := frame
  cases container with
  | object => rfl
  | array => simp [wantsKey] at h

theorem isRegular_afterPunctuation {frame : Frame} {b : UInt8} {expectation : Expectation}
    (h : frame.afterPunctuation? b = some expectation) :
    isRegular ⟨frame.container, expectation⟩ = true := by
  obtain ⟨container, expects⟩ := frame
  cases container <;> cases expects <;> simp_all [afterPunctuation?, isRegular] <;> grind

end Frame

namespace Nesting

/-- A nesting in which only the innermost container is in the middle of something. -/
def Regular : Nesting → Prop
  | [] => True
  | frame :: outer => frame.isRegular = true ∧ ∀ other ∈ outer, other.expects = .commaOrEnd

theorem Regular.of_cons {frame : Frame} {outer : Nesting} (h : Regular (frame :: outer)) :
    Regular outer := by
  cases outer with
  | nil => trivial
  | cons other outer =>
      obtain ⟨container, expects⟩ := other
      obtain ⟨hother, houter⟩ := List.forall_mem_cons.mp h.2
      obtain rfl : expects = .commaOrEnd := hother
      exact ⟨Frame.isRegular_commaOrEnd container, houter⟩

theorem Regular.forall_filled {nesting : Nesting} (h : nesting.Regular) :
    ∀ frame ∈ nesting.expect .commaOrEnd, frame.expects = .commaOrEnd := by
  cases nesting with
  | nil => simp [expect]
  | cons frame outer => exact List.forall_mem_cons.mpr ⟨rfl, h.2⟩

theorem Regular.filled {nesting : Nesting} (h : nesting.Regular) :
    (nesting.expect .commaOrEnd).Regular := by
  cases nesting with
  | nil => trivial
  | cons frame outer => exact ⟨Frame.isRegular_commaOrEnd _, h.2⟩

theorem Crosses.regular {nesting inner : Nesting} {gap : List UInt8}
    (h : nesting.Crosses gap inner) (hregular : nesting.Regular) : inner.Regular := by
  induction h with
  | nil => exact hregular
  | blank _ _ ih => exact ih hregular
  | punctuation hb _ ih => exact ih ⟨Frame.isRegular_afterPunctuation hb, hregular.2⟩

/-- One case per kind of lexeme. -/
theorem Reads.regular {inner after : Nesting} {lexeme : List UInt8} {token : Token}
    (h : inner.Reads lexeme token after) (hregular : inner.Regular) : after.Regular := by
  cases h with
  | exit _ => exact hregular.of_cons
  | key hkey _ => exact ⟨Frame.isRegular_of_wantsKey hkey, hregular.2⟩
  | enter _ => exact ⟨Frame.isRegular_opened _, hregular.forall_filled⟩
  | scalar _ _ _ _ => exact hregular.filled

end Nesting

/-- A tokenizer between two tokens. -/
structure Tokenizer.Regular (tokenizer : Tokenizer) : Prop where
  nesting : tokenizer.nesting.Regular
  /-- A separator is due at the root only. -/
  due : tokenizer.separatorDue = true → tokenizer.nesting = []

theorem Tokenizer.regular_ofFeed (feed : Feed) : (ofFeed feed).Regular :=
  ⟨trivial, by simp [ofFeed]⟩

theorem Tokenizer.Regular.of_pull {tokenizer next : Tokenizer} {token : Token}
    (h : tokenizer.Regular) (hpull : tokenizer.pull = (.ok (some token), next)) :
    next.Regular := by
  obtain ⟨gap, lexeme, rest, inner, after, -, hgap, hreads, -, -, rfl⟩ :=
    pull_eq_token_iff.mp hpull
  refine ⟨hreads.regular (hgap.regular h.nesting), ?_⟩
  show (token.kind.isScalar && after.isEmpty) = true → after = []
  simp

/-! ## Completing a nesting -/

theorem quotedText_empty : QuotedText [quote, quote] "" :=
  ⟨[], rfl, .nil⟩

namespace Frame

/-- What a container still lacks, with empty strings for its key and its value. -/
def closing (frame : Frame) : List UInt8 :=
  match frame.expects with
  | .key => [quote, quote, colon, quote, quote, frame.closer]
  | .colon => [colon, quote, quote, frame.closer]
  | .value => [quote, quote, frame.closer]
  | _ => [frame.closer]

end Frame

/-- What the open containers still lack, the innermost one first. -/
def Nesting.closing (nesting : Nesting) : List UInt8 :=
  nesting.flatMap Frame.closing

/-- What a nesting lacks goes on no number. -/
theorem Nesting.stops_closing (nesting : Nesting) : Stops isNumberByte nesting.closing := by
  intro b hb
  cases nesting with
  | nil => simp [closing] at hb
  | cons frame outer =>
      obtain ⟨container, expects⟩ := frame
      have hhead : b ∈ (Frame.closing ⟨container, expects⟩).head? := by
        cases expects <;> simpa [closing, Frame.closing] using hb
      cases container <;> cases expects <;> (obtain rfl := Option.some.inj hhead; rfl)

namespace Succession

variable {outer : Nesting} {rest : List UInt8} {tokens : List Token}

/-- An empty string fills a container that wants a value, and then the container closes. -/
theorem exists_of_value {nesting : Nesting} {frame : Frame} {gap : List UInt8}
    (hgap : nesting.Crosses gap (frame :: outer)) (hwants : frame.wantsValue = true)
    (hrest : Succession outer false rest tokens) :
    ∃ more, Succession nesting false (gap ++ [quote, quote] ++ frame.closer :: rest) more := by
  have hclose : Succession (⟨frame.container, .commaOrEnd⟩ :: outer) false
      ([] ++ Frame.closer ⟨frame.container, .commaOrEnd⟩ :: rest) _ :=
    .close _ .nil (by cases frame.container <;> rfl) hrest
  have hnext : Stops isNumberByte (frame.closer :: rest) := by
    intro b hb
    obtain rfl := Option.some.inj hb
    unfold Frame.closer
    split <;> rfl
  exact ⟨_, .cons_scalar hgap hwants (.string quotedText_empty) rfl (by simp) hnext hclose⟩

/-- **An open container can be completed.**  One case per thing that it may expect. -/
theorem exists_of_frame {frame : Frame} (hregular : frame.isRegular = true)
    (hrest : Succession outer false rest tokens) :
    ∃ more, Succession (frame :: outer) false (frame.closing ++ rest) more := by
  have hclose (hmay : frame.mayClose = true) :
      ∃ more, Succession (frame :: outer) false ([] ++ frame.closer :: rest) more :=
    ⟨_, .close frame .nil hmay hrest⟩
  have hcolon : ∃ more, Succession (⟨.object, .colon⟩ :: outer) false
      ([colon] ++ [quote, quote] ++ closeBrace :: rest) more := by
    have hgap : Nesting.Crosses (⟨.object, .colon⟩ :: outer) [colon] (⟨.object, .value⟩ :: outer) :=
      Nesting.crosses_colon blanks_nil blanks_nil
    exact exists_of_value hgap rfl hrest
  obtain ⟨container, expects⟩ := frame
  cases expects with
  | keyOrEnd =>
      cases container with
      | object => exact hclose rfl
      | array => simp [Frame.isRegular] at hregular
  | valueOrEnd =>
      cases container with
      | object => simp [Frame.isRegular] at hregular
      | array => exact hclose rfl
  | commaOrEnd => cases container <;> exact hclose rfl
  | value => exact exists_of_value .nil rfl hrest
  | colon =>
      cases container with
      | object => exact hcolon
      | array => simp [Frame.isRegular] at hregular
  | key =>
      cases container with
      | object =>
          obtain ⟨more, hmore⟩ := hcolon
          have hkey : Succession (⟨.object, .key⟩ :: outer) false
              ([] ++ [quote, quote] ++ _) _ :=
            .cons .nil (.key rfl quotedText_empty) (by simp) (by simp) hmore
          exact ⟨_, hkey⟩
      | array => simp [Frame.isRegular] at hregular

/-- **Every regular nesting can be completed**, container by container. -/
theorem exists_of_regular {nesting : Nesting} {due : Bool} (hregular : nesting.Regular)
    (hdue : due = true → nesting = []) :
    ∃ more, Succession nesting due nesting.closing more := by
  induction nesting generalizing due with
  | nil => exact ⟨[], .done blanks_nil⟩
  | cons frame outer ih =>
      obtain rfl : due = false := by
        cases due with
        | false => rfl
        | true => simpa using hdue rfl
      have hroot : false = true → outer = [] := by simp
      obtain ⟨tokens, hrest⟩ := ih hregular.of_cons hroot
      exact exists_of_frame hregular.1 hrest

end Succession

/-! ## Runs that give tokens -/

namespace Tokenizer

/-- `Gives tokenizer tokens last`: pulling gives the tokens, one after the other, and leads to
`last`. -/
inductive Gives : Tokenizer → List Token → Tokenizer → Prop
  | nil {tokenizer : Tokenizer} : Gives tokenizer [] tokenizer
  | cons {tokenizer next last : Tokenizer} {token : Token} {tokens : List Token}
      (hpull : tokenizer.pull = (.ok (some token), next)) (h : Gives next tokens last) :
      Gives tokenizer (token :: tokens) last

/-- Pulls that have all answered with a token are such a run. -/
theorem gives_of_answers {tokenizer : Tokenizer} {pulls : Nat} {tokens : List Token}
    (h : tokenizer.answers pulls = tokens.map (fun token => .ok (some token))) :
    tokenizer.Gives tokens (tokenizer.afterPulls pulls) := by
  induction pulls generalizing tokenizer tokens with
  | zero =>
      cases tokens with
      | nil => exact .nil
      | cons token tokens => simp [answers] at h
  | succ pulls ih =>
      cases tokens with
      | nil => simp [answers] at h
      | cons token tokens =>
          obtain ⟨hanswer, hrest⟩ := List.cons.inj h
          exact .cons (Prod.ext hanswer rfl) (ih hrest)

namespace Gives

variable {tokenizer last : Tokenizer} {tokens : List Token}

theorem regular (h : tokenizer.Gives tokens last) (hregular : tokenizer.Regular) :
    last.Regular := by
  induction h with
  | nil => exact hregular
  | cons hpull _ ih => exact ih (hregular.of_pull hpull)

/-- **What a run has consumed** can be put in front of any row that may follow, whatever the run
had before it.  A number at the end has looked at one byte more; so the row must not go on like a
number. -/
theorem exists_consumed (h : tokenizer.Gives tokens last) {document : List UInt8}
    (hfeed : tokenizer.cursor.feed = Feed.ofBytes document) :
    ∃ consumed rest, document = consumed ++ rest ∧ last.cursor.feed = Feed.ofBytes rest ∧
      ∀ tail more, Stops isNumberByte tail →
        Succession last.nesting last.separatorDue tail more →
          Succession tokenizer.nesting tokenizer.separatorDue (consumed ++ tail)
            (tokens ++ more) := by
  induction h generalizing document with
  | nil => exact ⟨[], document, rfl, hfeed, fun tail more _ hrow => hrow⟩
  | @cons tokenizer next last token tokens hpull _ ih =>
      obtain ⟨gap, lexeme, behind, inner, after, hbytes, hgap, hreads, hends, hdue, rfl⟩ :=
        pull_eq_token_iff.mp hpull
      rw [hfeed] at hbytes
      obtain ⟨hbehind, hdocument⟩ := Feed.eq_ofBytes_of_append hbytes
      obtain ⟨consumed, rest, hconsumed, hlast, hrow⟩ := ih hbehind
      refine ⟨gap ++ lexeme ++ consumed, rest, ?_, hlast, ?_⟩
      · rw [hdocument, hconsumed, ← List.append_assoc]
      · intro tail more hstops hmore
        have hnumber (hkind : token.kind = .number) :
            NumberEnds lexeme (Feed.ofBytes (consumed ++ tail)) := by
          have hseen := hends hkind
          rw [hbehind, hconsumed, Feed.ofBytes_append] at hseen
          rw [Feed.ofBytes_append]
          exact hseen.exchange (numberEnds_of_stops (hreads.of_number hkind).2.1 hstops)
        rw [List.append_assoc]
        exact .step hgap hreads hnumber hdue (hrow tail more hstops hmore)

end Gives
end Tokenizer

/-! ## Keys and values -/

namespace Token

/-- Whether a value begins with the token. -/
def beginsValue (token : Token) : Bool :=
  token.isOpening || token.kind.isScalar

/-- What may stand inside some containers, directly behind a key or not. -/
def Allowed (token : Token) (containers : List Container) (behindKey : Bool) : Prop :=
  match behindKey, containers with
  | false, .object :: _ => token.kind = .fieldName ∨ token.kind = .endOf .object
  | false, .array :: _ => token.beginsValue = true ∨ token.kind = .endOf .array
  | _, _ => token.beginsValue = true

end Token

/-- Whether the last one of some tokens is a key. -/
def endsWithKey (tokens : List Token) : Bool :=
  tokens.getLast?.any (·.kind == .fieldName)

/-- `Alternates containers tokens`: each of the tokens is allowed where it stands, and together
they leave `containers` open. -/
inductive Alternates : List Container → List Token → Prop
  | nil : Alternates [] []
  | turn {outer inner : List Container} {tokens : List Token} {token : Token}
      (h : Alternates outer tokens) (hallowed : token.Allowed outer (endsWithKey tokens))
      (hturns : token.Turns outer inner) : Alternates inner (tokens ++ [token])

namespace Nesting

/-- Whether the innermost container has a key that lacks its value. -/
def behindKey : Nesting → Bool
  | ⟨.object, .colon⟩ :: _ => true
  | ⟨.object, .value⟩ :: _ => true
  | _ => false

/-- The colon behind a key does not make up for the value. -/
theorem Crosses.behindKey {nesting inner : Nesting} {gap : List UInt8}
    (h : nesting.Crosses gap inner) : inner.behindKey = nesting.behindKey := by
  induction h with
  | nil => rfl
  | blank _ _ ih => exact ih
  | @punctuation frame outer _ _ _ expectation hb _ ih =>
      rw [ih]
      obtain ⟨container, expects⟩ := frame
      cases container <;> cases expects <;> simp_all [Frame.afterPunctuation?] <;>
        (obtain ⟨-, rfl⟩ := hb; rfl)

/-- A nesting that is done with what stands in it is behind no key. -/
theorem behindKey_of_filled {nesting : Nesting}
    (h : ∀ frame ∈ nesting, frame.expects = .commaOrEnd) : nesting.behindKey = false := by
  cases nesting with
  | nil => rfl
  | cons frame outer =>
      obtain ⟨container, expects⟩ := frame
      obtain rfl : expects = .commaOrEnd := h _ (List.mem_cons_self)
      cases container <;> rfl

/-- A lexeme is behind a key exactly if it is one. -/
theorem Reads.behindKey {inner after : Nesting} {lexeme : List UInt8} {token : Token}
    (h : inner.Reads lexeme token after) (hregular : inner.Regular) :
    after.behindKey = (token.kind == .fieldName) := by
  cases h with
  | exit _ => exact behindKey_of_filled hregular.2
  | @key frame outer _ _ hkey _ =>
      obtain ⟨container, expects⟩ := frame
      cases container with
      | object => rfl
      | array => simp [Frame.wantsKey] at hkey
  | @enter _ container _ => cases container <;> rfl
  | scalar _ _ hscalar htoken =>
      obtain ⟨hkind, -⟩ := Json.isScalar_of_tokens_eq hscalar htoken
      rw [behindKey_of_filled hregular.forall_filled]
      cases hfield : token.kind <;> simp_all [TokenKind.isScalar]

/-- A value may begin where one is wanted. -/
theorem WantsValue.allowed {nesting : Nesting} {token : Token} (h : nesting.WantsValue)
    (hregular : nesting.Regular) (hbegins : token.beginsValue = true) :
    token.Allowed nesting.containers nesting.behindKey := by
  cases nesting with
  | nil => exact hbegins
  | cons frame outer =>
      obtain ⟨container, expects⟩ := frame
      have hwants : Frame.wantsValue ⟨container, expects⟩ = true := h
      have hframe : Frame.isRegular ⟨container, expects⟩ = true := hregular.1
      cases container with
      | array => cases expects <;> exact .inl hbegins
      | object => cases expects <;> first | exact hbegins | contradiction

/-- **What is read is allowed.** -/
theorem Reads.allowed {inner after : Nesting} {lexeme : List UInt8} {token : Token}
    (h : inner.Reads lexeme token after) (hregular : inner.Regular) :
    token.Allowed inner.containers inner.behindKey := by
  cases h with
  | @exit frame outer hclose =>
      obtain ⟨container, expects⟩ := frame
      cases container <;> cases expects <;> simp_all [Frame.mayClose] <;> exact .inr rfl
  | @key frame outer _ _ hkey _ =>
      obtain ⟨container, expects⟩ := frame
      cases container <;> cases expects <;> simp_all [Frame.wantsKey] <;> exact .inl rfl
  | enter hwants => exact hwants.allowed hregular rfl
  | scalar hwants _ hscalar htoken =>
      obtain ⟨hkind, -⟩ := Json.isScalar_of_tokens_eq hscalar htoken
      exact hwants.allowed hregular (by simp [Token.beginsValue, hkind])

end Nesting

/-- The whole run: where it starts behind tokens that alternate, its own tokens go on with them. -/
theorem Alternates.gives {tokenizer last : Tokenizer} {before tokens : List Token}
    (h : Alternates tokenizer.nesting.containers before) (hregular : tokenizer.Regular)
    (hkey : tokenizer.nesting.behindKey = endsWithKey before)
    (hgives : tokenizer.Gives tokens last) :
    Alternates last.nesting.containers (before ++ tokens) := by
  induction hgives generalizing before with
  | nil => rwa [List.append_nil]
  | @cons tokenizer next last token tokens hpull _ ih =>
      have hnext := hregular.of_pull hpull
      obtain ⟨gap, lexeme, rest, inner, after, -, hgap, hreads, -, -, rfl⟩ :=
        Tokenizer.pull_eq_token_iff.mp hpull
      have hinner := hgap.regular hregular.nesting
      have hallowed := hreads.allowed hinner
      rw [hgap.containers, hgap.behindKey, hkey] at hallowed
      have hbehind : after.behindKey = endsWithKey (before ++ [token]) := by
        rw [hreads.behindKey hinner, endsWithKey, List.getLast?_concat]
        rfl
      have hrest := ih (h.turn hallowed (Tokenizer.turns_of_pull hpull)) hnext hbehind
      rwa [List.append_assoc] at hrest

/-- **Every token given is one that some document has there.**  Over any bytes, malformed ones
included: if some pulls have all given tokens, then what they have consumed can be completed to a
document whose tokens begin with these, and keys and values alternate in them.  So an error comes
with the first token that no document could have. -/
theorem Tokenizer.viable_of_answers {document : List UInt8} {pulls : Nat} {tokens : List Token}
    (h : (ofBytes document).answers pulls = tokens.map (fun token => .ok (some token))) :
    ∃ consumed rest, document = consumed ++ rest ∧
      ((ofBytes document).afterPulls pulls).cursor.feed = Feed.ofBytes rest ∧
      (∃ tail more values, (ofBytes (consumed ++ tail)).Delivers (tokens ++ more) ∧
        DocumentText (consumed ++ tail) values ∧ Json.documentTokens values = tokens ++ more) ∧
      Alternates ((ofBytes document).afterPulls pulls).nesting.containers tokens := by
  have hgives := gives_of_answers h
  have hlast := hgives.regular (regular_ofFeed _)
  obtain ⟨consumed, rest, hdocument, hfeed, hrow⟩ := hgives.exists_consumed rfl
  refine ⟨consumed, rest, hdocument, hfeed, ?_, ?_⟩
  · obtain ⟨more, hmore⟩ := Succession.exists_of_regular hlast.nesting hlast.due
    have hdelivers := delivers_ofBytes_iff.mpr (hrow _ _ (Nesting.stops_closing _) hmore)
    obtain ⟨values, hvalues, htokens⟩ := delivers_ofBytes_iff_documentText.mp hdelivers
    exact ⟨_, more, values, hdelivers, hvalues, htokens.symm⟩
  · have hstart : Alternates (ofBytes document).nesting.containers [] := .nil
    exact hstart.gives (regular_ofFeed _) rfl hgives

/-- In `{"a":1,,` the second comma is refused.  The number has seen the first one without consuming
it, and what stands in front of it can be completed. -/
theorem Tokenizer.viable_of_answers_comma :
    (ofBytes [0x7b, 0x22, 0x61, 0x22, 0x3a, 0x31, 0x2c, 0x2c]).answers 4 =
        [.ok (some ⟨.startOf .object, none, 0⟩), .ok (some ⟨.fieldName, some "a", 1⟩),
          .ok (some ⟨.number, some "1", 1⟩),
          .error (.malformed ⟨1, 8⟩ (.unexpected 0x2c (.expected .key)))] ∧
      ∃ tail more, (ofBytes ([0x7b, 0x22, 0x61, 0x22, 0x3a, 0x31] ++ tail)).Delivers
        ([⟨.startOf .object, none, 0⟩, ⟨.fieldName, some "a", 1⟩, ⟨.number, some "1", 1⟩] ++
          more) := by
  refine ⟨rfl, ?_⟩
  have hanswers : (ofBytes [0x7b, 0x22, 0x61, 0x22, 0x3a, 0x31, 0x2c, 0x2c]).answers 3 =
      [⟨.startOf .object, none, 0⟩, ⟨.fieldName, some "a", 1⟩, ⟨.number, some "1", 1⟩].map
        (fun token : Token => .ok (some token)) := rfl
  obtain ⟨consumed, rest, hdocument, hfeed, ⟨tail, more, values, hdelivers, -⟩, -⟩ :=
    viable_of_answers hanswers
  -- The feed that is left says where the consumed bytes end.
  have hleft : Feed.ofBytes [0x2c, 0x2c] = Feed.ofBytes rest := hfeed
  obtain rfl := Feed.ofBytes_injective hleft
  have hsplit : [0x7b, 0x22, 0x61, 0x22, 0x3a, 0x31] ++ [0x2c, 0x2c] = consumed ++ [0x2c, 0x2c] :=
    hdocument
  obtain rfl := List.append_cancel_right hsplit
  exact ⟨tail, more, hdelivers⟩

end RequiredKeys
