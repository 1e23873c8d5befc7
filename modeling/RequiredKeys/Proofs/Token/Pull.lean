import RequiredKeys.Token.Consumption
import RequiredKeys.Proofs.Lexeme.Word
import RequiredKeys.Proofs.Token.Gap

/-!
# One pull

`Tokenizer.pull_eq_token_iff` says when a pull gives a token, over every feed and in
every state: the feed begins with a gap and a lexeme, the nesting allows both, and a
separator that is due is there.  `Tokenizer.pull_eq_end_iff` says when a pull finds
the end of the input, and `Tokenizer.pull_failure` what a failed read in front of the
next byte does.

`Nesting.Reads` is the grammar of lexemes.  A pull reads one in two scans, and
`TokenStart.Finishes` is the share of the second one.
-/

namespace RequiredKeys

open Ascii

namespace TokenKind

/-- Whether a token is a value without parts. -/
def isScalar : TokenKind → Bool
  | string => true
  | number => true
  | bool _ => true
  | null => true
  | _ => false

end TokenKind

/-- A scalar is one token, and that is a scalar token. -/
theorem Json.exists_tokens_eq {json : Json} (h : json.isScalar = true) (depth : Nat) :
    ∃ token, json.tokens depth = [token] ∧ token.kind.isScalar = true ∧ token.depth = depth ∧
      (token.kind = .number → ∃ text, json = .number text) := by
  cases json with
  | null => exact ⟨_, rfl, rfl, rfl, by simp⟩
  | bool value => exact ⟨_, rfl, rfl, rfl, by simp⟩
  | number text => exact ⟨_, rfl, rfl, rfl, fun _ => ⟨text, rfl⟩⟩
  | string text => exact ⟨_, rfl, rfl, rfl, by simp⟩
  | array elements => simp [Json.isScalar] at h
  | object members => simp [Json.isScalar] at h

/-- The one token of a scalar is a scalar token. -/
theorem Json.isScalar_of_tokens_eq {json : Json} {depth : Nat} {token : Token}
    (h : json.isScalar = true) (htoken : json.tokens depth = [token]) :
    token.kind.isScalar = true ∧ token.depth = depth := by
  obtain ⟨other, hother, hkind, hdepth, -⟩ := exists_tokens_eq h depth
  obtain rfl : token = other := List.singleton_inj.mp (htoken.symm.trans hother)
  exact ⟨hkind, hdepth⟩

/-- `Reads nesting lexeme token after`: inside `nesting` the bytes `lexeme` are the
token, and `after` is open behind it. -/
inductive Nesting.Reads : Nesting → List UInt8 → Token → Nesting → Prop
  | exit {frame : Frame} {outer : Nesting} (h : frame.mayClose = true) :
      Reads (frame :: outer) [frame.closer] ⟨.endOf frame.container, none, outer.length⟩ outer
  | key {frame : Frame} {outer : Nesting} {lexeme : List UInt8} {name : String}
      (h : frame.wantsKey = true) (hname : QuotedText lexeme name) :
      Reads (frame :: outer) lexeme ⟨.fieldName, some name, outer.length + 1⟩
        (⟨frame.container, .colon⟩ :: outer)
  | enter {nesting : Nesting} {container : Container} (h : nesting.WantsValue) :
      Reads nesting [container.opener] ⟨.startOf container, none, nesting.length⟩
        (Frame.opened container :: nesting.expect .commaOrEnd)
  | scalar {nesting : Nesting} {lexeme : List UInt8} {json : Json} {token : Token}
      (h : nesting.WantsValue) (hvalue : ValueText lexeme json) (hscalar : json.isScalar = true)
      (htoken : json.tokens nesting.length = [token]) :
      Reads nesting lexeme token (nesting.expect .commaOrEnd)

namespace TokenStart

/-- `Finishes start nesting taken rest token after`: behind its beginning the token
goes on with `taken`, and `rest` is delivered behind it. -/
inductive Finishes : TokenStart → Nesting → List UInt8 → Feed → Token → Nesting → Prop
  | enter {container : Container} {nesting : Nesting} {rest : Feed} :
      Finishes (.enter container) nesting [] rest ⟨.startOf container, none, nesting.length⟩
        (Frame.opened container :: nesting)
  | exit {frame : Frame} {outer : Nesting} {rest : Feed} :
      Finishes .exit (frame :: outer) [] rest ⟨.endOf frame.container, none, outer.length⟩ outer
  | key {nesting : Nesting} {body : List UInt8} {rest : Feed} {name : String}
      (h : Spelling body name.toList) :
      Finishes .key nesting (body ++ [quote]) rest ⟨.fieldName, some name, nesting.length⟩
        (nesting.expect .colon)
  | string {nesting : Nesting} {body : List UInt8} {rest : Feed} {text : String}
      (h : Spelling body text.toList) :
      Finishes .string nesting (body ++ [quote]) rest ⟨.string, some text, nesting.length⟩ nesting
  | number {nesting : Nesting} {taken : List UInt8} {rest : Feed} (h : NumberText taken)
      (hends : NumberEnds taken rest) :
      Finishes .number nesting taken rest
        ⟨.number, some (Json.Reader.asciiText taken), nesting.length⟩ nesting
  | bool {value : Bool} {nesting : Nesting} {rest : Feed} :
      Finishes (.literal (.bool value)) nesting (Literal.bool value).bytes rest
        ⟨.bool value, none, nesting.length⟩ nesting
  | null {nesting : Nesting} {rest : Feed} :
      Finishes (.literal .null) nesting Literal.null.bytes rest ⟨.null, none, nesting.length⟩
        nesting

/-- A token read by one scan is there exactly if the scan completes. -/
theorem ofScan_run_eq_ok_iff {σ α : Type} {scanner : Scanner σ α} {state : σ} {feed rest : Feed}
    {p q : Position} {nesting after : Nesting} {make : α → Token} {token : Token} :
    ofScan (scanner.run state ⟨feed, p⟩) nesting make = ⟨.ok token, after, ⟨rest, q⟩⟩ ↔
      ∃ taken a, (feed = Feed.ofBytes taken ++ rest ∧ q = p.afterAll taken) ∧
        (∃ last, scanner.Completes state taken rest last (.ok a)) ∧ token = make a ∧
        after = nesting := by
  have hrun {last : σ} {a : α} :
      scanner.run state ⟨feed, p⟩ = ⟨.ok a, last, ⟨rest, q⟩⟩ ↔ _ := Scanner.runFrom_eq_ok_iff
  constructor
  · intro h
    cases hscan : scanner.run state ⟨feed, p⟩ with
    | mk result last cursor =>
        cases result with
        | error error => simp [ofScan, hscan, Except.map] at h
        | ok a =>
            simp only [ofScan, hscan, Except.map, TokenRead.mk.injEq, Except.ok.injEq] at h
            obtain ⟨rfl, rfl, rfl⟩ := h
            obtain ⟨taken, hfeed, hq, hcompletes⟩ := hrun.mp hscan
            exact ⟨taken, a, ⟨hfeed, hq⟩, ⟨last, hcompletes⟩, rfl, rfl⟩
  · rintro ⟨taken, a, ⟨hfeed, hq⟩, ⟨last, hcompletes⟩, rfl, rfl⟩
    rw [hrun.mpr ⟨taken, hfeed, hq, hcompletes⟩]
    rfl

/-- A key is read like a string; what differs is what the object expects behind it. -/
theorem read_key_eq (nesting : Nesting) (cursor : Cursor) (token : Token) (after : Nesting)
    (final : Cursor) :
    key.read nesting cursor = ⟨.ok token, after, final⟩ ↔
      ofScan (PartialQuoted.scanner.run {} cursor) (nesting.expect .colon)
        (fun name => ⟨.fieldName, some name, nesting.length⟩) = ⟨.ok token, after, final⟩ := by
  cases hresult : (PartialQuoted.scanner.run {} cursor).result with
  | error error => simp [read, ofScan, hresult, Except.map]
  | ok name => simp [read, ofScan, hresult, Except.map]

/-- **The second scan of a pull** reads what its token still lacks. -/
theorem read_eq_ok_iff {start : TokenStart} {nesting after : Nesting} {feed rest : Feed}
    {p q : Position} {token : Token} :
    start.read nesting ⟨feed, p⟩ = ⟨.ok token, after, ⟨rest, q⟩⟩ ↔
      ∃ taken, (feed = Feed.ofBytes taken ++ rest ∧ q = p.afterAll taken) ∧
        start.Finishes nesting taken rest token after := by
  constructor
  · intro h
    cases start with
    | enter container =>
        simp only [read, Nesting.enter, TokenRead.mk.injEq, Except.ok.injEq, Cursor.mk.injEq] at h
        obtain ⟨rfl, rfl, rfl, rfl⟩ := h
        exact ⟨[], ⟨rfl, rfl⟩, .enter⟩
    | exit =>
        cases nesting with
        | nil => simp [read, Nesting.exit] at h
        | cons frame outer =>
            simp only [read, Nesting.exit, TokenRead.mk.injEq, Except.ok.injEq,
              Cursor.mk.injEq] at h
            obtain ⟨rfl, rfl, rfl, rfl⟩ := h
            exact ⟨[], ⟨rfl, rfl⟩, .exit⟩
    | key =>
        obtain ⟨taken, name, htaken, hcompletes, rfl, rfl⟩ :=
          ofScan_run_eq_ok_iff.mp ((read_key_eq _ _ _ _ _).mp h)
        obtain ⟨body, rfl, hbody⟩ := PartialQuoted.completes_ok_iff.mp hcompletes
        exact ⟨_, htaken, .key hbody⟩
    | string =>
        obtain ⟨taken, text, htaken, hcompletes, rfl, rfl⟩ := ofScan_run_eq_ok_iff.mp h
        obtain ⟨body, rfl, hbody⟩ := PartialQuoted.completes_ok_iff.mp hcompletes
        exact ⟨_, htaken, .string hbody⟩
    | number =>
        obtain ⟨taken, text, htaken, hcompletes, rfl, rfl⟩ := ofScan_run_eq_ok_iff.mp h
        obtain ⟨hnumber, hends, rfl⟩ := PartialNumber.completes_ok_iff.mp hcompletes
        exact ⟨_, htaken, .number hnumber hends⟩
    | literal word =>
        cases word with
        | bool value =>
            obtain ⟨taken, _, htaken, hcompletes, rfl, rfl⟩ := ofScan_run_eq_ok_iff.mp h
            obtain rfl := Literal.completes_ok_iff.mp hcompletes
            exact ⟨_, htaken, .bool⟩
        | null =>
            obtain ⟨taken, _, htaken, hcompletes, rfl, rfl⟩ := ofScan_run_eq_ok_iff.mp h
            obtain rfl := Literal.completes_ok_iff.mp hcompletes
            exact ⟨_, htaken, .null⟩
  · rintro ⟨taken, ⟨rfl, rfl⟩, hfinishes⟩
    cases hfinishes with
    | enter => rfl
    | exit => rfl
    | key hbody =>
        refine (read_key_eq _ _ _ _ _).mpr (ofScan_run_eq_ok_iff.mpr ?_)
        exact ⟨_, _, ⟨rfl, rfl⟩, PartialQuoted.completes_ok_iff.mpr ⟨_, rfl, hbody⟩, rfl, rfl⟩
    | string hbody =>
        apply ofScan_run_eq_ok_iff.mpr
        exact ⟨_, _, ⟨rfl, rfl⟩, PartialQuoted.completes_ok_iff.mpr ⟨_, rfl, hbody⟩, rfl, rfl⟩
    | number hnumber hends =>
        apply ofScan_run_eq_ok_iff.mpr
        exact ⟨_, _, ⟨rfl, rfl⟩, PartialNumber.completes_ok_iff.mpr ⟨hnumber, hends, rfl⟩, rfl,
          rfl⟩
    | bool =>
        apply ofScan_run_eq_ok_iff.mpr
        exact ⟨_, (), ⟨rfl, rfl⟩, Literal.completes_ok_iff.mpr rfl, rfl, rfl⟩
    | null =>
        apply ofScan_run_eq_ok_iff.mpr
        exact ⟨_, (), ⟨rfl, rfl⟩, Literal.completes_ok_iff.mpr rfl, rfl, rfl⟩

theorem Finishes.isScalar {start : TokenStart} {nesting after : Nesting} {taken : List UInt8}
    {rest : Feed} {token : Token} (h : start.Finishes nesting taken rest token after) :
    start.isScalar = token.kind.isScalar := by
  cases h <;> rfl

/-- What the gap leaves of a lexeme: the gap takes the first byte of brackets and strings. -/
def remainder (start : TokenStart) (lexeme : List UInt8) : List UInt8 :=
  if start.takesFirst then lexeme.tail else lexeme

/-- A token of which the gap has taken nothing has a first byte of its own. -/
theorem Finishes.ne_nil {start : TokenStart} {nesting after : Nesting} {taken : List UInt8}
    {rest : Feed} {token : Token} (h : start.Finishes nesting taken rest token after)
    (hstart : start.takesFirst = false) : taken ≠ [] := by
  cases h with
  | enter => simp [takesFirst] at hstart
  | exit => simp [takesFirst] at hstart
  | key _ => simp [takesFirst] at hstart
  | string _ => simp [takesFirst] at hstart
  | number hnumber _ => exact numberText_ne_nil hnumber
  | bool => exact Literal.bytes_ne_nil _
  | null => exact Literal.bytes_ne_nil _

end TokenStart

namespace Nesting

/-- A value that begins leaves no container more or less open. -/
theorem length_eq_length_filled (nesting : Nesting) :
    nesting.length = (nesting.expect .commaOrEnd).length :=
  (length_expect _ _).symm

/-- A lexeme begins a token, and what the gap has not taken of it finishes the token.
What is delivered behind the lexeme matters to numbers only. -/
theorem Reads.exists_begins {inner after : Nesting} {lexeme : List UInt8} {token : Token}
    {rest : Feed} (h : inner.Reads lexeme token after)
    (hends : token.kind = .number → NumberEnds lexeme rest) :
    ∃ start filled b, inner.Begins b start filled ∧ lexeme.head? = some b ∧
      start.Finishes filled (start.remainder lexeme) rest token after := by
  cases h with
  | exit hclose => exact ⟨.exit, _, _, .exit hclose, rfl, .exit⟩
  | key hkey hname =>
      obtain ⟨body, rfl, hbody⟩ := hname
      exact ⟨.key, _, _, .key hkey, rfl, .key hbody⟩
  | @enter nesting container hwants =>
      rw [length_eq_length_filled inner]
      exact ⟨.enter container, _, _, .value hwants (.enter container), rfl, .enter⟩
  | @scalar nesting lexeme json token hwants hvalue hscalar htoken =>
      rw [length_eq_length_filled inner] at htoken
      -- A scalar has one token, which tells the kind of value that began.
      cases hvalue with
      | null =>
          obtain rfl := List.singleton_inj.mp htoken
          exact ⟨.literal .null, _, _, .value hwants (.literal rfl), rfl, .null⟩
      | bool value =>
          obtain rfl := List.singleton_inj.mp htoken
          have hhead : (Literal.bool value).bytes.head? = some _ :=
            List.head?_eq_some_head (Literal.bytes_ne_nil _)
          exact ⟨.literal (.bool value), _, _,
            .value hwants (.literal (Literal.ofFirst?_eq_some_iff.mpr hhead)), hhead, .bool⟩
      | number hnumber =>
          obtain rfl := List.singleton_inj.mp htoken
          obtain ⟨b, tail, rfl⟩ := List.exists_cons_of_ne_nil (numberText_ne_nil hnumber)
          exact ⟨.number, _, b, .value hwants (.number (numberText_head hnumber)), rfl,
            .number hnumber (hends rfl)⟩
      | string hstring =>
          obtain rfl := List.singleton_inj.mp htoken
          obtain ⟨body, rfl, hbody⟩ := hstring
          exact ⟨.string, _, _, .value hwants .string, rfl, .string hbody⟩
      | emptyArray _ => simp [Json.isScalar] at hscalar
      | array _ => simp [Json.isScalar] at hscalar
      | emptyObject _ => simp [Json.isScalar] at hscalar
      | object _ => simp [Json.isScalar] at hscalar

/-- What begins a token and what finishes it make a lexeme. -/
theorem Begins.reads {inner filled after : Nesting} {b : UInt8} {tail : List UInt8}
    {start : TokenStart} {token : Token} {rest : Feed} (h : inner.Begins b start filled)
    (hfinishes : start.Finishes filled (start.remainder (b :: tail)) rest token after) :
    inner.Reads (b :: tail) token after ∧
      (token.kind = .number → NumberEnds (b :: tail) rest) := by
  generalize htaken : start.remainder (b :: tail) = taken at hfinishes
  cases h with
  | exit hclose =>
      cases hfinishes with
      | exit =>
          obtain rfl : tail = [] := htaken
          exact ⟨.exit hclose, by simp⟩
  | key hkey =>
      cases hfinishes with
      | key hbody =>
          obtain rfl : tail = _ := htaken
          exact ⟨.key hkey ⟨_, rfl, hbody⟩, by simp⟩
  | value hwants hb =>
      cases hb with
      | enter container =>
          cases hfinishes with
          | enter =>
              obtain rfl : tail = [] := htaken
              rw [← length_eq_length_filled inner]
              exact ⟨.enter hwants, by simp⟩
      | string =>
          cases hfinishes with
          | string hbody =>
              obtain rfl : tail = _ := htaken
              rw [← length_eq_length_filled inner]
              exact ⟨.scalar hwants (.string ⟨_, rfl, hbody⟩) rfl rfl, by simp⟩
      | number hb =>
          cases hfinishes with
          | number hnumber hends =>
              subst htaken
              rw [← length_eq_length_filled inner]
              exact ⟨.scalar hwants (.number hnumber) rfl rfl, fun _ => hends⟩
      | literal hb =>
          cases hfinishes with
          | bool =>
              rw [← length_eq_length_filled inner, show b :: tail = _ from htaken]
              exact ⟨.scalar hwants (.bool _) rfl rfl, by simp⟩
          | null =>
              rw [← length_eq_length_filled inner, show b :: tail = _ from htaken]
              exact ⟨.scalar hwants .null rfl rfl, by simp⟩

/-- **A lexeme is read in two shares**, its beginning and the rest of it. -/
theorem reads_iff {inner after : Nesting} {lexeme : List UInt8} {token : Token} {rest : Feed} :
    (inner.Reads lexeme token after ∧ (token.kind = .number → NumberEnds lexeme rest)) ↔
      ∃ start filled b, inner.Begins b start filled ∧ lexeme.head? = some b ∧
        start.Finishes filled (start.remainder lexeme) rest token after := by
  constructor
  · rintro ⟨hreads, hends⟩
    exact hreads.exists_begins hends
  · rintro ⟨start, filled, b, hbegins, hhead, hfinishes⟩
    obtain ⟨tail, rfl⟩ := List.head?_eq_some_iff.mp hhead
    exact hbegins.reads hfinishes

/-- A lexeme has at least one byte. -/
theorem Reads.ne_nil {inner after : Nesting} {lexeme : List UInt8} {token : Token}
    (h : inner.Reads lexeme token after) : lexeme ≠ [] := by
  cases h with
  | exit _ => simp
  | key _ hname => exact hname.ne_nil
  | enter _ => simp
  | scalar _ hvalue _ _ => exact hvalue.ne_nil

/-- A number is read where a value is wanted, and its text is the lexeme. -/
theorem Reads.of_number {inner after : Nesting} {lexeme : List UInt8} {token : Token}
    (h : inner.Reads lexeme token after) (hkind : token.kind = .number) :
    inner.WantsValue ∧ NumberText lexeme ∧
      token = ⟨.number, some (Json.Reader.asciiText lexeme), inner.length⟩ ∧
      after = inner.expect .commaOrEnd := by
  cases h with
  | exit _ => simp at hkind
  | key _ _ => simp at hkind
  | enter _ => simp at hkind
  | @scalar _ _ json _ hwants hvalue hscalar htoken =>
      obtain ⟨other, hother, -, -, hnumber⟩ := Json.exists_tokens_eq hscalar inner.length
      obtain rfl : token = other := List.singleton_inj.mp (htoken.symm.trans hother)
      obtain ⟨text, rfl⟩ := hnumber hkind
      cases hvalue with
      | number htext => exact ⟨hwants, htext, (List.singleton_inj.mp htoken).symm, rfl⟩

end Nesting

namespace Tokenizer

/-- A pull that gives a token is two scans that succeed. -/
theorem pull_eq_ok_some_iff {tokenizer next : Tokenizer} {token : Token} :
    tokenizer.pull = (.ok (some token), next) ↔
      ∃ start last cursor after final,
        tokenizer.crossGap = ⟨.ok (some start), last, cursor⟩ ∧
          start.read last.nesting cursor = ⟨.ok token, after, final⟩ ∧
          next = ⟨final, after, start.isScalar && after.isEmpty, some token⟩ := by
  constructor
  · intro h
    unfold pull at h
    cases hgap : tokenizer.crossGap with
    | mk result last cursor =>
        cases result with
        | error error => simp [hgap] at h
        | ok found =>
            cases found with
            | none => simp [hgap] at h
            | some start =>
                cases hread : start.read last.nesting cursor with
                | mk answer after final =>
                    cases answer with
                    | error error => simp [hgap, hread] at h
                    | ok other =>
                        simp only [hgap, hread, Prod.mk.injEq, Except.ok.injEq,
                          Option.some.injEq] at h
                        obtain ⟨rfl, rfl⟩ := h
                        exact ⟨start, last, cursor, after, final, rfl, hread, rfl⟩
  · rintro ⟨start, last, cursor, after, final, hgap, hread, rfl⟩
    simp [pull, hgap, hread]

/-- Where a gap has come to its end with the byte `b`, all that is taken is the gap and
a lexeme that begins with `b`. -/
theorem exists_lexeme_of_taken {start : TokenStart} {gap taken more : List UInt8} {b : UInt8}
    {rest : Feed}
    (htaken : if start.takesFirst then taken = gap ++ [b]
      else taken = gap ∧ ∃ behind, Feed.ofBytes more ++ rest = .byte b :: behind)
    (hmore : start.takesFirst = false → more ≠ []) :
    ∃ lexeme, taken ++ more = gap ++ lexeme ∧ lexeme.head? = some b ∧
      more = start.remainder lexeme := by
  unfold TokenStart.remainder
  cases htakes : start.takesFirst with
  | true =>
      rw [if_pos htakes] at htaken
      exact ⟨b :: more, by simp [htaken], rfl, rfl⟩
  | false =>
      rw [if_neg (by simp [htakes])] at htaken
      obtain ⟨rfl, behind, hbehind⟩ := htaken
      obtain ⟨c, tail, rfl⟩ := List.exists_cons_of_ne_nil (hmore htakes)
      simp only [Feed.ofBytes_cons, List.cons_append, List.cons.injEq,
        Delivery.byte.injEq] at hbehind
      exact ⟨c :: tail, rfl, by rw [hbehind.1]; rfl, rfl⟩

/-- A gap and a lexeme are divided where the first scan of a pull ends. -/
theorem exists_taken_of_lexeme (start : TokenStart) (gap tail : List UInt8) (b : UInt8)
    (rest : Feed) :
    ∃ taken, gap ++ b :: tail = taken ++ start.remainder (b :: tail) ∧
      if start.takesFirst then taken = gap ++ [b]
      else taken = gap ∧
        ∃ behind, Feed.ofBytes (start.remainder (b :: tail)) ++ rest = .byte b :: behind := by
  unfold TokenStart.remainder
  cases start.takesFirst with
  | true => exact ⟨gap ++ [b], by simp, by simp⟩
  | false => exact ⟨gap, by simp, by simp⟩

/-- The gap scan sees no more of a lexeme than its first byte. -/
theorem head?_gap_append (gap : List UInt8) (b : UInt8) (tail : List UInt8) :
    (gap ++ b :: tail).head? = (gap ++ [b]).head? := by
  cases gap <;> rfl

/-- **The first scan of a pull** ends where a byte begins a token, whatever follows that byte. -/
theorem crossGap_of_begins {nesting inner filled : Nesting} {gap : List UInt8} {b : UInt8}
    {start : TokenStart} {due : Bool} (hgap : nesting.Crosses gap inner)
    (hbegins : inner.Begins b start filled) {tail : List UInt8}
    (hdue : due = true → ∀ c ∈ (gap ++ b :: tail).head?, Gap.separates c = true) (rest : Feed)
    (p : Position) (current : Option Token) :
    ∃ taken, gap ++ b :: tail = taken ++ start.remainder (b :: tail) ∧
      crossGap ⟨⟨Feed.ofBytes (gap ++ b :: tail) ++ rest, p⟩, nesting, due, current⟩ =
        ⟨.ok (some start), ⟨filled, false⟩,
          ⟨Feed.ofBytes (start.remainder (b :: tail)) ++ rest, p.afterAll taken⟩⟩ := by
  rw [head?_gap_append] at hdue
  obtain ⟨taken, hbytes, htaken⟩ := exists_taken_of_lexeme start gap tail b rest
  have hcompletes : Gap.scanner.Completes ⟨nesting, due⟩ taken _ ⟨filled, false⟩
      (.ok (some start)) :=
    Gap.completes_token_iff.mpr ⟨gap, inner, b, hgap, hdue, hbegins, rfl, htaken⟩
  refine ⟨taken, hbytes, ?_⟩
  rw [hbytes, Feed.ofBytes_append, List.append_assoc]
  exact Scanner.runFrom_eq_ok_iff.mpr ⟨taken, rfl, rfl, hcompletes⟩

/-- **When a pull gives a token**: the feed begins with a gap and a lexeme that the
nesting allows, and behind a scalar root value the first byte of both separates. -/
theorem pull_eq_token_iff {tokenizer next : Tokenizer} {token : Token} :
    tokenizer.pull = (.ok (some token), next) ↔
      ∃ gap lexeme rest inner after,
        tokenizer.cursor.feed = Feed.ofBytes (gap ++ lexeme) ++ rest ∧
          tokenizer.nesting.Crosses gap inner ∧ inner.Reads lexeme token after ∧
          (token.kind = .number → NumberEnds lexeme rest) ∧
          (tokenizer.separatorDue = true →
            ∀ b ∈ (gap ++ lexeme).head?, Gap.separates b = true) ∧
          next = ⟨⟨rest, tokenizer.position.afterAll (gap ++ lexeme)⟩, after,
            token.kind.isScalar && after.isEmpty, some token⟩ := by
  obtain ⟨⟨feed, p⟩, nesting, due, current⟩ := tokenizer
  rw [pull_eq_ok_some_iff]
  constructor
  · rintro ⟨start, ⟨filled, due'⟩, ⟨behind, q⟩, after, ⟨rest, final⟩, hgap, hread, rfl⟩
    obtain ⟨taken, rfl, rfl, hcompletes⟩ := Scanner.runFrom_eq_ok_iff.mp hgap
    obtain ⟨gap, inner, b, hcrosses, hdue, hbegins, -, htaken⟩ :=
      Gap.completes_token_iff.mp hcompletes
    obtain ⟨more, ⟨rfl, rfl⟩, hfinishes⟩ := TokenStart.read_eq_ok_iff.mp hread
    rw [hfinishes.isScalar]
    -- The lexeme is what the second scan takes, with its first byte where the gap took it.
    obtain ⟨lexeme, hbytes, hfirst, rfl⟩ := exists_lexeme_of_taken htaken hfinishes.ne_nil
    obtain ⟨hreads, hends⟩ :=
      Nesting.reads_iff.mpr ⟨start, filled, b, hbegins, hfirst, hfinishes⟩
    obtain ⟨tail, rfl⟩ := List.head?_eq_some_iff.mp hfirst
    refine ⟨gap, b :: tail, rest, inner, after, ?_, hcrosses, hreads, hends, ?_, ?_⟩
    · show Feed.ofBytes taken ++ (Feed.ofBytes _ ++ rest) = _
      rw [← List.append_assoc, ← Feed.ofBytes_append, hbytes]
    · rwa [head?_gap_append]
    · rw [← hbytes, Position.afterAll_append]
      rfl
  · rintro ⟨gap, lexeme, rest, inner, after, hfeed, hcrosses, hreads, hends, hdue, rfl⟩
    obtain rfl : feed = Feed.ofBytes (gap ++ lexeme) ++ rest := hfeed
    obtain ⟨start, filled, b, hbegins, hfirst, hfinishes⟩ :=
      Nesting.reads_iff.mp ⟨hreads, hends⟩
    obtain ⟨tail, rfl⟩ := List.head?_eq_some_iff.mp hfirst
    obtain ⟨taken, hbytes, hcross⟩ := crossGap_of_begins hcrosses hbegins hdue rest p current
    -- The second scan takes up where the first one has ended.
    refine ⟨start, _, _, after, ⟨rest, _⟩, hcross,
      TokenStart.read_eq_ok_iff.mpr ⟨_, ⟨rfl, rfl⟩, hfinishes⟩, ?_⟩
    rw [hfinishes.isScalar, hbytes, Position.afterAll_append]
    rfl

/-- **A gap makes no difference to the next pull**, apart from what it has done to the nesting
and the position. -/
theorem pull_of_gap {nesting inner : Nesting} {due : Bool} {gap : List UInt8}
    (hgap : nesting.Crosses gap inner)
    (hdue : due = true → ∀ b ∈ gap.head?, Gap.separates b = true) (feed : Feed) (p : Position)
    (current other : Option Token) :
    pull ⟨⟨Feed.ofBytes gap ++ feed, p⟩, nesting, due, current⟩ =
      pull ⟨⟨feed, p.afterAll gap⟩, inner, due && gap.isEmpty, other⟩ := by
  have htaken : Gap.scanner.afterAll? ⟨nesting, due⟩ gap = some ⟨inner, due && gap.isEmpty⟩ :=
    Gap.afterAll?_eq_some_iff.mpr ⟨hgap, hdue, rfl⟩
  have hcross : crossGap ⟨⟨Feed.ofBytes gap ++ feed, p⟩, nesting, due, current⟩ =
      crossGap ⟨⟨feed, p.afterAll gap⟩, inner, due && gap.isEmpty, other⟩ :=
    Scanner.runFrom_append htaken feed p
  unfold pull
  rw [hcross]

/-- A gap and a lexeme at the head of a feed make the next pull give the token. -/
theorem pull_of_lexeme {nesting inner after : Nesting} {gap lexeme : List UInt8} {token : Token}
    (hgap : nesting.Crosses gap inner) (hreads : inner.Reads lexeme token after) {rest : Feed}
    (hends : token.kind = .number → NumberEnds lexeme rest) {due : Bool}
    (hdue : due = true → ∀ b ∈ (gap ++ lexeme).head?, Gap.separates b = true) (p : Position)
    (current : Option Token) :
    pull ⟨⟨Feed.ofBytes (gap ++ lexeme) ++ rest, p⟩, nesting, due, current⟩ =
      (.ok (some token), ⟨⟨rest, p.afterAll (gap ++ lexeme)⟩, after,
        token.kind.isScalar && after.isEmpty, some token⟩) :=
  pull_eq_token_iff.mpr ⟨gap, lexeme, rest, inner, after, rfl, hgap, hreads, hends, hdue, rfl⟩

theorem pull_of_reads {nesting after : Nesting} {lexeme : List UInt8}
    {token : Token} (hreads : nesting.Reads lexeme token after) {rest : Feed}
    (hends : token.kind = .number → NumberEnds lexeme rest) {due : Bool}
    (hdue : due = true → ∀ b ∈ lexeme.head?, Gap.separates b = true) (p : Position)
    (current : Option Token) :
    pull ⟨⟨Feed.ofBytes lexeme ++ rest, p⟩, nesting, due, current⟩ =
      (.ok (some token), ⟨⟨rest, p.afterAll lexeme⟩, after, token.kind.isScalar && after.isEmpty,
        some token⟩) :=
  pull_of_lexeme .nil hreads hends hdue p current

/-- **When a pull finds the end of the input**: white space is all that is left, and
no container is open. -/
theorem pull_eq_end_iff {tokenizer next : Tokenizer} :
    tokenizer.pull = (.ok none, next) ↔
      ∃ blanks, tokenizer.cursor.feed = Feed.ofBytes blanks ∧ Blanks blanks ∧
        tokenizer.nesting = [] ∧
        next = ⟨⟨[], tokenizer.position.afterAll blanks⟩, [], false, none⟩ := by
  obtain ⟨⟨feed, p⟩, nesting, due, current⟩ := tokenizer
  have hcross {last : Gap} {rest : Feed} {q : Position} :
      Gap.scanner.run ⟨nesting, due⟩ ⟨feed, p⟩ = ⟨.ok none, last, ⟨rest, q⟩⟩ ↔ _ :=
    Scanner.runFrom_eq_ok_iff
  have hpull : pull ⟨⟨feed, p⟩, nesting, due, current⟩ = (.ok none, next) ↔
      ∃ last cursor, Gap.scanner.run ⟨nesting, due⟩ ⟨feed, p⟩ = ⟨.ok none, last, cursor⟩ ∧
        next = ⟨cursor, last.nesting, false, none⟩ := by
    unfold pull crossGap
    cases hgap : Gap.scanner.run ⟨nesting, due⟩ ⟨feed, p⟩ with
    | mk result last cursor =>
        cases result with
        | error error => simp
        | ok found =>
            cases found with
            | none =>
                simp only [Prod.mk.injEq, Scan.mk.injEq, true_and]
                constructor
                · rintro rfl
                  exact ⟨last, cursor, ⟨rfl, rfl⟩, rfl⟩
                · rintro ⟨_, _, ⟨rfl, rfl⟩, rfl⟩
                  rfl
            | some start =>
                simp only [Scan.mk.injEq, Except.ok.injEq, reduceCtorEq, false_and, exists_const,
                  iff_false]
                split <;> simp
  rw [hpull]
  constructor
  · rintro ⟨last, ⟨rest, q⟩, hgap, rfl⟩
    obtain ⟨taken, rfl, rfl, hcompletes⟩ := hcross.mp hgap
    obtain ⟨rfl, hblanks, rfl, rfl⟩ := Gap.completes_end_iff.mp hcompletes
    exact ⟨taken, by simp, hblanks, rfl, rfl⟩
  · rintro ⟨blanks, hfeed, hblanks, hnesting, rfl⟩
    obtain rfl : feed = Feed.ofBytes blanks := hfeed
    obtain rfl : nesting = [] := hnesting
    exact ⟨_, _, hcross.mpr ⟨blanks, by simp, rfl,
      Gap.completes_end_iff.mpr ⟨rfl, hblanks, rfl, rfl⟩⟩, rfl⟩

/-- A failed read in front of the next byte uses up the failure, and with it the
demand for a separator. -/
theorem pull_failure (reason : String) (rest : Feed) (p : Position) (nesting : Nesting)
    (due : Bool) (current : Option Token) :
    pull ⟨⟨.failure reason :: rest, p⟩, nesting, due, current⟩ =
      (.error (.unreadable reason), ⟨⟨rest, p⟩, nesting, false, none⟩) := by
  rfl

end Tokenizer

/-! ## Failed reads -/

namespace Scanner

/-- A scan fails with the reader only in front of a delivery that is a failure. -/
theorem runFrom_eq_unreadable {σ α : Type} {scanner : Scanner σ α} {state last : σ} {feed : Feed}
    {p : Position} {reason : String} {cursor : Cursor}
    (h : scanner.runFrom state feed p = ⟨.error (.unreadable reason), last, cursor⟩) :
    ∃ taken, feed = Feed.ofBytes taken ++ .failure reason :: cursor.feed ∧
      scanner.afterAll? state taken = some last := by
  obtain ⟨taken, behind, final, result, rfl, hcompletes⟩ |
    ⟨taken, other, behind, final, rfl, htaken⟩ := scanner.completes_or_interrupted state feed
  · rw [runFrom_of_completes hcompletes] at h
    cases result with
    | ok a => simp at h
    | error refusal => cases refusal <;> simp [Refusal.seenAt] at h
  · rw [runFrom_of_interrupted htaken] at h
    simp only [Scan.mk.injEq, Except.error.injEq, StreamError.unreadable.injEq] at h
    obtain ⟨rfl, rfl, rfl⟩ := h
    exact ⟨taken, rfl, htaken⟩

end Scanner

namespace TokenStart

/-- A token read by one scan fails with the reader only if the scan does. -/
theorem ofScan_run_eq_unreadable {σ α : Type} {scanner : Scanner σ α} {state : σ}
    {nesting after : Nesting} {make : α → Token} {cursor final : Cursor} {reason : String}
    (h : ofScan (scanner.run state cursor) nesting make =
      ⟨.error (.unreadable reason), after, final⟩) :
    ∃ taken, cursor.feed = Feed.ofBytes taken ++ .failure reason :: final.feed := by
  cases hrun : scanner.run state cursor with
  | mk result last behind =>
      cases result with
      | ok a => simp [ofScan, hrun, Except.map] at h
      | error error =>
          simp only [ofScan, hrun, Except.map, TokenRead.mk.injEq, Except.error.injEq] at h
          obtain ⟨rfl, -, rfl⟩ := h
          obtain ⟨taken, hfeed, -⟩ := Scanner.runFrom_eq_unreadable hrun
          exact ⟨taken, hfeed⟩

/-- Reading a token fails with the reader only in front of a failure. -/
theorem read_eq_unreadable {start : TokenStart} {nesting after : Nesting} {cursor final : Cursor}
    {reason : String}
    (h : start.read nesting cursor = ⟨.error (.unreadable reason), after, final⟩) :
    ∃ taken, cursor.feed = Feed.ofBytes taken ++ .failure reason :: final.feed := by
  cases start with
  | enter container => simp [read] at h
  | exit =>
      cases nesting with
      | nil => simp [read, Nesting.exit, Refusal.seenAt] at h
      | cons frame outer => simp [read, Nesting.exit] at h
  | key =>
      cases hresult : (PartialQuoted.scanner.run {} cursor).result with
      | ok name => simp [read, hresult] at h
      | error error =>
          -- A key that fails leaves the object as it was, like a string would.
          simp only [read, hresult] at h
          have hmake : ofScan (PartialQuoted.scanner.run {} cursor) nesting
              (fun name => ⟨.fieldName, some name, nesting.length⟩) =
                ⟨.error (.unreadable reason), after, final⟩ := by
            rw [ofScan, hresult, Except.map]
            exact h
          exact ofScan_run_eq_unreadable hmake
  | string => exact ofScan_run_eq_unreadable h
  | number => exact ofScan_run_eq_unreadable h
  | literal word => cases word <;> exact ofScan_run_eq_unreadable h

end TokenStart

namespace Tokenizer

/-- **A pull fails with the reader only in front of a failure**, which it uses up. -/
theorem pull_eq_unreadable {tokenizer next : Tokenizer} {reason : String}
    (h : tokenizer.pull = (.error (.unreadable reason), next)) :
    ∃ taken, tokenizer.cursor.feed =
      Feed.ofBytes taken ++ .failure reason :: next.cursor.feed := by
  unfold pull at h
  cases hgap : tokenizer.crossGap with
  | mk result last cursor =>
      cases result with
      | error error =>
          simp only [hgap, Prod.mk.injEq, Except.error.injEq] at h
          obtain ⟨rfl, rfl⟩ := h
          obtain ⟨taken, hfeed, -⟩ := Scanner.runFrom_eq_unreadable hgap
          exact ⟨taken, hfeed⟩
      | ok found =>
          cases found with
          | none => simp [hgap] at h
          | some start =>
              cases hread : start.read last.nesting cursor with
              | mk answer after final =>
                  cases answer with
                  | ok token => simp [hgap, hread] at h
                  | error error =>
                      simp only [hgap, hread, Prod.mk.injEq, Except.error.injEq] at h
                      obtain ⟨rfl, rfl⟩ := h
                      -- The gap is taken, and then the second scan fails.
                      obtain ⟨gap, hfeed, -, -⟩ := Scanner.runFrom_eq_ok_iff.mp hgap
                      obtain ⟨taken, htaken⟩ := TokenStart.read_eq_unreadable hread
                      refine ⟨gap ++ taken, ?_⟩
                      rw [hfeed, htaken, Feed.ofBytes_append, List.append_assoc]

end Tokenizer

end RequiredKeys
