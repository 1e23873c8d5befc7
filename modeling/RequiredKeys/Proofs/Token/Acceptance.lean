import RequiredKeys.Proofs.Token.Transcript

/-!
# The language of the tokenizer

The tokenizer accepts exactly the documents of the grammar.

* `Frame.Body` is the text that still belongs to an open container, by what the
  container expects next.  It is closed under whatever the table of gaps allows
  (`body_blank`, `body_punctuation`, `body_key`, `body_value`).
* `Completion` puts these texts together along the nesting: every open container is
  filled up and closed, and behind the outermost one the document goes on.
* `Succession.completion` is soundness: what a row of lexemes leaves to be read
  completes the nesting.  The induction is on the row, and each step hands one
  lexeme over to the grammar.
* `ValueText.succession` is completeness, by induction on the grammar: the lexemes of
  a value can be put in front of any row that goes on behind it.

`Tokenizer.delivers_ofBytes_iff_documentText` is both directions for whole documents.
-/

namespace RequiredKeys

open Ascii

/-! ## What completes a container -/

/-- Elements up to the closing bracket, and their tokens. -/
def ElementsPart (depth : Nat) (bytes : List UInt8) (tokens : List Token) : Prop :=
  ∃ elements, ElementsText bytes elements ∧ tokens = Json.elementTokens depth elements

/-- Members up to the closing brace, and their tokens. -/
def MembersPart (depth : Nat) (bytes : List UInt8) (tokens : List Token) : Prop :=
  ∃ members, MembersText bytes members ∧ tokens = Json.memberTokens depth members

/-- White space alone, or what `part` describes. -/
def BlanksOr (part : List UInt8 → List Token → Prop) (bytes : List UInt8)
    (tokens : List Token) : Prop :=
  Blanks bytes ∧ tokens = [] ∨ part bytes tokens

/-- What may follow behind an element or a member: nothing, or a comma and more. -/
def Others (part : List UInt8 → List Token → Prop) : List UInt8 → List Token → Prop :=
  BlanksOr fun bytes tokens => ∃ blanks rest, Blanks blanks ∧ bytes = blanks ++ comma :: rest ∧
    part rest tokens

/-- The value of a member and what follows it. -/
def MemberValuePart (depth : Nat) (bytes : List UInt8) (tokens : List Token) : Prop :=
  ∃ before value after json more, Blanks before ∧ ValueText value json ∧
    Others (MembersPart depth) after more ∧ bytes = before ++ value ++ after ∧
    tokens = json.tokens depth ++ more

/-- A colon, the value of a member and what follows it. -/
def ColonPart (depth : Nat) (bytes : List UInt8) (tokens : List Token) : Prop :=
  ∃ blanks rest, Blanks blanks ∧ bytes = blanks ++ colon :: rest ∧
    MemberValuePart depth rest tokens

namespace Frame

/-- What may stand between here and the byte that closes the container. -/
def Body (depth : Nat) (frame : Frame) : List UInt8 → List Token → Prop :=
  match frame.container, frame.expects with
  | .array, .valueOrEnd => BlanksOr (ElementsPart depth)
  | .array, .value => ElementsPart depth
  | .array, .commaOrEnd => Others (ElementsPart depth)
  | .object, .keyOrEnd => BlanksOr (MembersPart depth)
  | .object, .key => MembersPart depth
  | .object, .colon => ColonPart depth
  | .object, .value => MemberValuePart depth
  | .object, .valueOrEnd => MemberValuePart depth
  | .object, .commaOrEnd => Others (MembersPart depth)
  | .array, _ => fun _ _ => False

end Frame

theorem blanksOr_blank {part : List UInt8 → List Token → Prop} {b : UInt8} {bytes : List UInt8}
    {tokens : List Token} (hb : isBlank b = true)
    (hpart : part bytes tokens → part (b :: bytes) tokens) (h : BlanksOr part bytes tokens) :
    BlanksOr part (b :: bytes) tokens := by
  rcases h with ⟨hblanks, htokens⟩ | h
  · exact .inl ⟨blanks_cons.mpr ⟨hb, hblanks⟩, htokens⟩
  · exact .inr (hpart h)

theorem others_blank {part : List UInt8 → List Token → Prop} {b : UInt8} {bytes : List UInt8}
    {tokens : List Token} (hb : isBlank b = true) (h : Others part bytes tokens) :
    Others part (b :: bytes) tokens := by
  refine blanksOr_blank hb ?_ h
  rintro ⟨blanks, rest, hblanks, rfl, hpart⟩
  exact ⟨b :: blanks, rest, blanks_cons.mpr ⟨hb, hblanks⟩, rfl, hpart⟩

theorem elementsPart_blank {depth : Nat} {b : UInt8} {bytes : List UInt8} {tokens : List Token}
    (hb : isBlank b = true) (h : ElementsPart depth bytes tokens) :
    ElementsPart depth (b :: bytes) tokens := by
  obtain ⟨elements, helements, htokens⟩ := h
  exact ⟨elements, helements.append_blanks (blanks_cons.mpr ⟨hb, blanks_nil⟩), htokens⟩

theorem membersPart_blank {depth : Nat} {b : UInt8} {bytes : List UInt8} {tokens : List Token}
    (hb : isBlank b = true) (h : MembersPart depth bytes tokens) :
    MembersPart depth (b :: bytes) tokens := by
  obtain ⟨members, hmembers, htokens⟩ := h
  exact ⟨members, hmembers.append_blanks (blanks_cons.mpr ⟨hb, blanks_nil⟩), htokens⟩

theorem memberValuePart_blank {depth : Nat} {b : UInt8} {bytes : List UInt8}
    {tokens : List Token} (hb : isBlank b = true) (h : MemberValuePart depth bytes tokens) :
    MemberValuePart depth (b :: bytes) tokens := by
  obtain ⟨before, value, after, json, more, hbefore, hvalue, hafter, rfl, htokens⟩ := h
  exact ⟨b :: before, value, after, json, more, blanks_cons.mpr ⟨hb, hbefore⟩, hvalue, hafter,
    rfl, htokens⟩

/-- An element and what follows it are elements. -/
theorem elementsPart_value {depth : Nat} {value bytes : List UInt8} {json : Json}
    {tokens : List Token} (hvalue : ValueText value json)
    (h : Others (ElementsPart depth) bytes tokens) :
    ElementsPart depth (value ++ bytes) (json.tokens depth ++ tokens) := by
  rcases h with ⟨hblanks, rfl⟩ | ⟨blanks, rest, hblanks, rfl, elements, helements, rfl⟩
  · exact ⟨[json], .last blanks_nil hvalue hblanks, rfl⟩
  · refine ⟨json :: elements, ?_, rfl⟩
    have htext := ElementsText.more blanks_nil hvalue hblanks helements
    simpa using htext

/-- A key and what follows it are members. -/
theorem membersPart_key {depth : Nat} {key bytes : List UInt8} {name : String}
    {tokens : List Token} (hkey : QuotedText key name) (h : ColonPart depth bytes tokens) :
    MembersPart depth (key ++ bytes) (⟨.fieldName, some name, depth⟩ :: tokens) := by
  obtain ⟨middle, _, hmiddle, rfl, inside, value, after, json, more, hinside, hvalue, hafter, rfl,
    rfl⟩ := h
  rcases hafter with ⟨hblanks, rfl⟩ | ⟨blanks, rest, hblanks, rfl, members, hmembers, rfl⟩
  · refine ⟨[(name, json)], ?_, by simp [Json.memberTokens]⟩
    have htext := MembersText.last blanks_nil hkey hmiddle hinside hvalue hblanks
    simpa using htext
  · refine ⟨(name, json) :: members, ?_, by simp [Json.memberTokens]⟩
    have htext := MembersText.more blanks_nil hkey hmiddle hinside hvalue hblanks hmembers
    simpa using htext

namespace Frame

variable {depth : Nat}

@[simp] theorem container_opened (container : Container) :
    (opened container).container = container := by
  cases container <;> rfl

/-- A container that may be closed needs nothing more. -/
theorem body_nil {frame : Frame} (h : frame.mayClose = true) : frame.Body depth [] [] := by
  obtain ⟨container, expects⟩ := frame
  cases container <;> cases expects <;>
    first
    | contradiction
    | exact .inl ⟨blanks_nil, rfl⟩

theorem body_blank {frame : Frame} {b : UInt8} {bytes : List UInt8} {tokens : List Token}
    (hb : isBlank b = true) (h : frame.Body depth bytes tokens) :
    frame.Body depth (b :: bytes) tokens := by
  obtain ⟨container, expects⟩ := frame
  cases container with
  | object =>
      cases expects with
      | keyOrEnd => exact blanksOr_blank hb (membersPart_blank hb) h
      | key => exact membersPart_blank hb h
      | colon =>
          obtain ⟨blanks, rest, hblanks, rfl, hrest⟩ := h
          exact ⟨b :: blanks, rest, blanks_cons.mpr ⟨hb, hblanks⟩, rfl, hrest⟩
      | value => exact memberValuePart_blank hb h
      | valueOrEnd => exact memberValuePart_blank hb h
      | commaOrEnd => exact others_blank hb h
  | array =>
      cases expects with
      | value => exact elementsPart_blank hb h
      | valueOrEnd => exact blanksOr_blank hb (elementsPart_blank hb) h
      | commaOrEnd => exact others_blank hb h
      | keyOrEnd => exact h
      | key => exact h
      | colon => exact h

/-- Punctuation leads to what is expected behind it. -/
theorem body_punctuation {frame : Frame} {b : UInt8} {expectation : Expectation}
    {bytes : List UInt8} {tokens : List Token} (hb : frame.afterPunctuation? b = some expectation)
    (h : Body depth ⟨frame.container, expectation⟩ bytes tokens) :
    frame.Body depth (b :: bytes) tokens := by
  obtain ⟨container, expects⟩ := frame
  cases container <;> cases expects <;> simp only [afterPunctuation?] at hb <;>
    first
    | contradiction
    | (split at hb
       · next hbyte =>
           subst hbyte
           obtain rfl := Option.some.inj hb
           first
           | exact ⟨[], bytes, blanks_nil, rfl, h⟩
           | exact .inr ⟨[], bytes, blanks_nil, rfl, h⟩
       · contradiction)

theorem body_key {frame : Frame} {key bytes : List UInt8} {name : String} {tokens : List Token}
    (hwants : frame.wantsKey = true) (hkey : QuotedText key name)
    (h : Body depth ⟨frame.container, .colon⟩ bytes tokens) :
    frame.Body depth (key ++ bytes) (⟨.fieldName, some name, depth⟩ :: tokens) := by
  obtain ⟨container, expects⟩ := frame
  cases container <;> cases expects <;>
    first
    | contradiction
    | exact .inr (membersPart_key hkey h)
    | exact membersPart_key hkey h

theorem body_value {frame : Frame} {value bytes : List UInt8} {json : Json} {tokens : List Token}
    (hwants : frame.wantsValue = true) (hvalue : ValueText value json)
    (h : Body depth ⟨frame.container, .commaOrEnd⟩ bytes tokens) :
    frame.Body depth (value ++ bytes) (json.tokens depth ++ tokens) := by
  obtain ⟨container, expects⟩ := frame
  cases container <;> cases expects <;>
    first
    | contradiction
    | exact elementsPart_value hvalue h
    | exact .inr (elementsPart_value hvalue h)
    | exact ⟨[], value, bytes, json, tokens, blanks_nil, hvalue, h, rfl, rfl⟩

/-- **An open container and its body are a value.** -/
theorem Body.valueText {outer : Nat} {container : Container} {body : List UInt8}
    {tokens : List Token} (h : (opened container).Body (outer + 1) body tokens) :
    ∃ json, ValueText (container.opener :: body ++ [(opened container).closer]) json ∧
      json.isScalar = false ∧
      json.tokens outer =
        ⟨.startOf container, none, outer⟩ :: tokens ++ [⟨.endOf container, none, outer⟩] := by
  cases container with
  | object =>
      rcases h with ⟨hblanks, rfl⟩ | ⟨members, hmembers, rfl⟩
      · exact ⟨.object [], .emptyObject hblanks, rfl, rfl⟩
      · exact ⟨.object members, .object hmembers, rfl, rfl⟩
  | array =>
      rcases h with ⟨hblanks, rfl⟩ | ⟨elements, helements, rfl⟩
      · exact ⟨.array [], .emptyArray hblanks, rfl, rfl⟩
      · exact ⟨.array elements, .array helements, rfl, rfl⟩

end Frame

/-! ## Soundness -/

/-- `Completion nesting bytes tokens`: `bytes` fill up and close every open container,
and then the document goes on to its end. -/
def Completion : Nesting → List UInt8 → List Token → Prop
  | [], bytes, tokens =>
    ∃ values, DocumentText bytes values ∧ tokens = Json.documentTokens values
  | frame :: outer, bytes, tokens =>
    ∃ body rest inner more, frame.Body (outer.length + 1) body inner ∧
      Completion outer rest more ∧ bytes = body ++ frame.closer :: rest ∧
      tokens = inner ++ ⟨.endOf frame.container, none, outer.length⟩ :: more

namespace Completion

theorem blank {nesting : Nesting} {b : UInt8} {bytes : List UInt8} {tokens : List Token}
    (hb : isBlank b = true) (h : Completion nesting bytes tokens) :
    Completion nesting (b :: bytes) tokens := by
  cases nesting with
  | nil =>
      obtain ⟨values, hvalues, rfl⟩ := h
      exact ⟨values, hvalues.append_blanks (blanks_cons.mpr ⟨hb, blanks_nil⟩), rfl⟩
  | cons frame outer =>
      obtain ⟨body, rest, inner, more, hbody, hrest, rfl, rfl⟩ := h
      exact ⟨b :: body, rest, inner, more, Frame.body_blank hb hbody, hrest, rfl, rfl⟩

/-- What completes the nesting behind a gap completes it with the gap in front. -/
theorem crosses {nesting inner : Nesting} {gap bytes : List UInt8} {tokens : List Token}
    (hgap : nesting.Crosses gap inner) (h : Completion inner bytes tokens) :
    Completion nesting (gap ++ bytes) tokens := by
  induction hgap with
  | nil => exact h
  | blank hb _ ih => exact (ih h).blank hb
  | punctuation hb _ ih =>
      obtain ⟨body, rest, inner, more, hbody, hrest, hbytes, htokens⟩ := ih h
      refine ⟨_ :: body, rest, inner, more, Frame.body_punctuation hb hbody, hrest, ?_, htokens⟩
      rw [List.cons_append, hbytes]
      rfl

/-- What completes the nesting behind a value completes it with the value in front. -/
theorem value {nesting : Nesting} {bytes rest : List UInt8} {json : Json} {tokens : List Token}
    (hwants : nesting.WantsValue) (hvalue : ValueText bytes json)
    (hseparated : nesting = [] → json.isScalar = true → Separated rest)
    (h : Completion (nesting.expect .commaOrEnd) rest tokens) :
    Completion nesting (bytes ++ rest) (json.tokens nesting.length ++ tokens) := by
  cases nesting with
  | nil =>
      obtain ⟨values, hvalues, rfl⟩ := h
      exact ⟨json :: values, .value blanks_nil hvalue (hseparated rfl) hvalues, rfl⟩
  | cons frame outer =>
      obtain ⟨body, behind, inner, more, hbody, hbehind, rfl, rfl⟩ := h
      refine ⟨bytes ++ body, behind, json.tokens _ ++ inner, more,
        Frame.body_value hwants hvalue hbody, hbehind, ?_, ?_⟩
      · rw [List.append_assoc]
        rfl
      · rw [List.append_assoc]
        rfl

/-- One lexeme is handed over to the grammar. -/
theorem reads {inner after : Nesting} {lexeme rest : List UInt8} {token : Token}
    {tokens : List Token} (hreads : inner.Reads lexeme token after)
    (hseparated : (token.kind.isScalar && after.isEmpty) = true → Separated rest)
    (h : Completion after rest tokens) : Completion inner (lexeme ++ rest) (token :: tokens) := by
  cases hreads with
  | exit hclose =>
      exact ⟨[], rest, [], tokens, Frame.body_nil hclose, h, rfl, rfl⟩
  | key hkey hname =>
      obtain ⟨body, behind, inside, more, hbody, hbehind, rfl, rfl⟩ := h
      refine ⟨lexeme ++ body, behind, _ :: inside, more, Frame.body_key hkey hname hbody, hbehind,
        ?_, rfl⟩
      rw [List.append_assoc]
      rfl
  | @enter _ container hwants =>
      -- What fills up the new container makes a value of it.
      obtain ⟨body, behind, inside, more, hbody, hbehind, rfl, rfl⟩ := h
      obtain ⟨json, hvalue, hscalar, htokens⟩ := hbody.valueText
      rw [Nesting.length_expect] at htokens
      have hcomplete := value hwants hvalue (by simp [hscalar]) hbehind
      rw [htokens] at hcomplete
      simpa using hcomplete
  | @scalar _ _ json _ hwants hvalue hscalar htoken =>
      obtain ⟨hkind, -⟩ := Json.isScalar_of_tokens_eq hscalar htoken
      have hroot : inner = [] → json.isScalar = true → Separated rest := by
        rintro rfl -
        exact hseparated (by simp [hkind, Nesting.expect])
      have hcomplete := value hwants hvalue hroot h
      rw [htoken] at hcomplete
      exact hcomplete

end Completion

theorem separated_iff {bytes : List UInt8} :
    Separated bytes ↔ ∀ b ∈ bytes.head?, Gap.separates b = true := by
  simp [Separated, Gap.separates, or_assoc]

theorem separated_of_blanks {bytes : List UInt8} (h : Blanks bytes) : Separated bytes := by
  intro b hb
  exact .inl (h b (List.mem_of_mem_head? hb))

/-- **Soundness.**  What a row of lexemes leaves to be read completes the nesting. -/
theorem Succession.completion {nesting : Nesting} {due : Bool} {bytes : List UInt8}
    {tokens : List Token} (h : Succession nesting due bytes tokens) :
    Completion nesting bytes tokens ∧ (due = true → Separated bytes) := by
  induction h with
  | done hblanks => exact ⟨⟨[], .blank hblanks, rfl⟩, fun _ => separated_of_blanks hblanks⟩
  | @step nesting inner after due gap lexeme rest token tokens hgap hreads hends hdue _ ih =>
      obtain ⟨hcomplete, hseparated⟩ := ih
      refine ⟨?_, ?_⟩
      · rw [List.append_assoc]
        exact (Completion.reads hreads hseparated hcomplete).crosses hgap
      · intro h
        have hne : gap ++ lexeme ≠ [] := by simp [hreads.ne_nil]
        obtain ⟨b, tail, hbytes⟩ := List.exists_cons_of_ne_nil hne
        rw [separated_iff, hbytes]
        rw [hbytes] at hdue
        exact hdue h

/-! ## Completeness -/

/-- A lexeme can be put in front of a row of lexemes, behind a gap. -/
theorem Succession.cons {nesting inner after : Nesting} {due : Bool} {gap lexeme rest : List UInt8}
    {token : Token} {tokens : List Token} (hgap : nesting.Crosses gap inner)
    (hreads : inner.Reads lexeme token after) (hkind : token.kind ≠ .number)
    (hdue : due = true → Separated (gap ++ lexeme))
    (hrest : Succession after (token.kind.isScalar && after.isEmpty) rest tokens) :
    Succession nesting due (gap ++ lexeme ++ rest) (token :: tokens) :=
  .step hgap hreads (fun h => absurd h hkind) (fun h => separated_iff.mp (hdue h)) hrest

/-- A scalar can be put in front of a row of lexemes that does not go on with a byte
of numbers. -/
theorem Succession.cons_scalar {nesting inner : Nesting} {due : Bool}
    {gap bytes rest : List UInt8} {json : Json} {tokens : List Token}
    (hgap : nesting.Crosses gap inner) (hwants : inner.WantsValue) (hvalue : ValueText bytes json)
    (hscalar : json.isScalar = true) (hdue : due = true → Separated (gap ++ bytes))
    (hnext : Stops isNumberByte rest)
    (hrest : Succession (inner.expect .commaOrEnd) inner.isEmpty rest tokens) :
    Succession nesting due (gap ++ bytes ++ rest) (json.tokens inner.length ++ tokens) := by
  obtain ⟨token, htoken, hkind, -, hnumber⟩ := Json.exists_tokens_eq hscalar inner.length
  rw [htoken]
  -- A separator is due behind the scalar exactly if nothing is open around it.
  have hempty : (token.kind.isScalar && (inner.expect .commaOrEnd).isEmpty) = inner.isEmpty := by
    rw [hkind]
    cases inner <;> rfl
  refine .step hgap (.scalar hwants hvalue hscalar htoken) ?_
    (fun h => separated_iff.mp (hdue h)) (by rwa [hempty])
  intro hkind
  obtain ⟨text, rfl⟩ := hnumber hkind
  cases hvalue with
  | number hbytes => exact numberEnds_of_stops hbytes hnext

/-- The byte that closes a container can be put in front of a row of lexemes. -/
theorem Succession.close (frame : Frame) {nesting outer : Nesting} {gap rest : List UInt8}
    {tokens : List Token} (hgap : nesting.Crosses gap (frame :: outer))
    (hclose : frame.mayClose = true) (hrest : Succession outer false rest tokens) :
    Succession nesting false (gap ++ frame.closer :: rest)
      (⟨.endOf frame.container, none, outer.length⟩ :: tokens) := by
  have hcons : Succession nesting false (gap ++ [frame.closer] ++ rest) _ :=
    .cons hgap (.exit hclose) (by simp) (by simp) hrest
  rwa [List.append_assoc, List.singleton_append] at hcons

/-- A container can be put in front of a row of lexemes if its body can, inside it. -/
theorem Succession.container {nesting inner : Nesting} {due : Bool} {container : Container}
    {gap body rest : List UInt8} {inside tokens : List Token} (hgap : nesting.Crosses gap inner)
    (hwants : inner.WantsValue) (hdue : due = true → Separated (gap ++ [container.opener]))
    (hbody : Succession (Frame.opened container :: inner.expect .commaOrEnd) false
      (body ++ (Frame.opened container).closer :: rest)
      (inside ++ ⟨.endOf container, none, inner.length⟩ :: tokens)) :
    Succession nesting due
      (gap ++ (container.opener :: body ++ [(Frame.opened container).closer]) ++ rest)
      ((⟨.startOf container, none, inner.length⟩ :: inside ++
        [⟨.endOf container, none, inner.length⟩]) ++ tokens) := by
  have hcons : Succession nesting due (gap ++ [container.opener] ++ _) (_ :: _) :=
    .cons hgap (.enter hwants) (by simp) hdue hbody
  simpa using hcons

/-- What comes first in a document decides whether it separates. -/
theorem Separated.of_append {left right : List UInt8} (h : Separated (left ++ right))
    (hne : left ≠ []) : Separated left := by
  obtain ⟨b, tail, rfl⟩ := List.exists_cons_of_ne_nil hne
  exact h

/-- A comma behind an element leads to the next one. -/
theorem Nesting.crosses_comma_element {outer : Nesting} {after : List UInt8}
    (hafter : Blanks after) :
    Nesting.Crosses (⟨.array, .commaOrEnd⟩ :: outer) (after ++ [comma])
      (⟨.array, .value⟩ :: outer) :=
  (Nesting.Crosses.of_blanks hafter).append (.punctuation rfl .nil)

/-- A comma behind a member leads to the next key. -/
theorem Nesting.crosses_comma_member {outer : Nesting} {after : List UInt8}
    (hafter : Blanks after) :
    Nesting.Crosses (⟨.object, .commaOrEnd⟩ :: outer) (after ++ [comma])
      (⟨.object, .key⟩ :: outer) :=
  (Nesting.Crosses.of_blanks hafter).append (.punctuation rfl .nil)

/-- A colon behind a key leads to its value. -/
theorem Nesting.crosses_colon {outer : Nesting} {middle inside : List UInt8}
    (hmiddle : Blanks middle) (hinside : Blanks inside) :
    Nesting.Crosses (⟨.object, .colon⟩ :: outer) (middle ++ colon :: inside)
      (⟨.object, .value⟩ :: outer) :=
  (Nesting.Crosses.of_blanks hmiddle).append (.punctuation rfl (.of_blanks hinside))

/-- No number goes on with a comma. -/
theorem stops_comma {after : List UInt8} (hafter : Blanks after) (others rest : List UInt8) :
    Stops isNumberByte (after ++ comma :: others ++ rest) := by
  rw [List.append_assoc]
  exact stops_blanks_append hafter rfl

mutual

/-- **Completeness.**  The lexemes of a value can be put in front of any row that goes
on where the value ends. -/
theorem ValueText.succession {bytes : List UInt8} {json : Json} (h : ValueText bytes json)
    {nesting inner : Nesting} {due : Bool} {gap rest : List UInt8} {tokens : List Token}
    (hgap : nesting.Crosses gap inner) (hwants : inner.WantsValue)
    (hdue : due = true → Separated (gap ++ bytes))
    (hnext : json.isScalar = true → Stops isNumberByte rest)
    (hrest : Succession (inner.expect .commaOrEnd) (json.isScalar && inner.isEmpty) rest tokens) :
    Succession nesting due (gap ++ bytes ++ rest) (json.tokens inner.length ++ tokens) := by
  -- Of a container the opening bracket alone decides whether it separates.
  have hopener (container : Container) (more : List UInt8)
      (h : due = true → Separated (gap ++ container.opener :: more)) :
      due = true → Separated (gap ++ [container.opener]) := by
    intro hd
    have hsplit : gap ++ container.opener :: more = gap ++ [container.opener] ++ more := by simp
    exact Separated.of_append (hsplit ▸ h hd) (by simp)
  have hlength : (inner.expect .commaOrEnd).length = inner.length := Nesting.length_expect _ _
  cases h with
  | null => exact .cons_scalar hgap hwants .null rfl hdue (hnext rfl) hrest
  | bool value => exact .cons_scalar hgap hwants (.bool value) rfl hdue (hnext rfl) hrest
  | number h => exact .cons_scalar hgap hwants (.number h) rfl hdue (hnext rfl) hrest
  | string h => exact .cons_scalar hgap hwants (.string h) rfl hdue (hnext rfl) hrest
  | emptyArray hblanks =>
      have hclose := Succession.close (Frame.opened .array) (.of_blanks hblanks) rfl hrest
      rw [hlength] at hclose
      exact .container hgap hwants (hopener .array _ hdue) hclose
  | array helements =>
      have hbody := helements.succession (e := .valueOrEnd) .nil rfl hrest
      rw [hlength] at hbody
      exact .container hgap hwants (hopener .array _ hdue) hbody
  | emptyObject hblanks =>
      have hclose := Succession.close (Frame.opened .object) (.of_blanks hblanks) rfl hrest
      rw [hlength] at hclose
      exact .container hgap hwants (hopener .object _ hdue) hclose
  | object hmembers =>
      have hbody := hmembers.succession (e := .keyOrEnd) .nil rfl hrest
      rw [hlength] at hbody
      exact .container hgap hwants (hopener .object _ hdue) hbody

/-- Elements can be put in front of the closing bracket. -/
theorem ElementsText.succession {bytes : List UInt8} {elements : List Json}
    (h : ElementsText bytes elements) {nesting outer : Nesting} {e : Expectation}
    {gap rest : List UInt8} {tokens : List Token}
    (hgap : nesting.Crosses gap (⟨.array, e⟩ :: outer))
    (hwants : Frame.wantsValue ⟨.array, e⟩ = true) (hrest : Succession outer false rest tokens) :
    Succession nesting false (gap ++ bytes ++ closeBracket :: rest)
      (Json.elementTokens (outer.length + 1) elements ++
        ⟨.endOf .array, none, outer.length⟩ :: tokens) := by
  cases h with
  | @last before value after json hbefore hvalue hafter =>
      have hclose : Succession (⟨.array, .commaOrEnd⟩ :: outer) false
          (after ++ closeBracket :: rest) _ :=
        .close ⟨.array, .commaOrEnd⟩ (.of_blanks hafter) rfl hrest
      have hstep : Succession nesting false _ _ :=
        hvalue.succession (hgap.append (.of_blanks hbefore)) hwants (by simp)
          (fun _ => stops_blanks_append hafter rfl) (by simpa using hclose)
      simpa [Json.elementTokens] using hstep
  | @more before value after others json elements hbefore hvalue hafter hothers =>
      -- The comma belongs to the gap in front of the other elements.
      have hmore := hothers.succession (Nesting.crosses_comma_element hafter) rfl hrest
      have hstep : Succession nesting false _ _ :=
        hvalue.succession (hgap.append (.of_blanks hbefore)) hwants (by simp)
          (fun _ => stops_comma hafter others _) (by simpa using hmore)
      simpa [Json.elementTokens] using hstep

/-- Members can be put in front of the closing brace. -/
theorem MembersText.succession {bytes : List UInt8} {members : List (String × Json)}
    (h : MembersText bytes members) {nesting outer : Nesting} {e : Expectation}
    {gap rest : List UInt8} {tokens : List Token}
    (hgap : nesting.Crosses gap (⟨.object, e⟩ :: outer))
    (hwants : Frame.wantsKey ⟨.object, e⟩ = true) (hrest : Succession outer false rest tokens) :
    Succession nesting false (gap ++ bytes ++ closeBrace :: rest)
      (Json.memberTokens (outer.length + 1) members ++
        ⟨.endOf .object, none, outer.length⟩ :: tokens) := by
  cases h with
  | @last before key middle inside value after name json hbefore hkey hmiddle hinside hvalue
      hafter =>
      have hclose : Succession (⟨.object, .commaOrEnd⟩ :: outer) false
          (after ++ closeBrace :: rest) _ :=
        .close ⟨.object, .commaOrEnd⟩ (.of_blanks hafter) rfl hrest
      have hstep : Succession (⟨.object, .colon⟩ :: outer) false _ _ :=
        hvalue.succession (Nesting.crosses_colon hmiddle hinside) rfl (by simp)
          (fun _ => stops_blanks_append hafter rfl) (by simpa using hclose)
      have hmember : Succession nesting false _ _ :=
        .cons (hgap.append (.of_blanks hbefore)) (.key hwants hkey) (by simp) (by simp) hstep
      simpa [Json.memberTokens] using hmember
  | @more before key middle inside value after others name json members hbefore hkey hmiddle
      hinside hvalue hafter hothers =>
      -- The comma belongs to the gap in front of the other members.
      have hmore := hothers.succession (Nesting.crosses_comma_member hafter) rfl hrest
      have hstep : Succession (⟨.object, .colon⟩ :: outer) false _ _ :=
        hvalue.succession (Nesting.crosses_colon hmiddle hinside) rfl (by simp)
          (fun _ => stops_comma hafter others _) (by simpa using hmore)
      have hmember : Succession nesting false _ _ :=
        .cons (hgap.append (.of_blanks hbefore)) (.key hwants hkey) (by simp) (by simp) hstep
      simpa [Json.memberTokens] using hmember

end

/-- The lexemes of a document are a row by themselves. -/
theorem DocumentText.succession {bytes : List UInt8} {values : List Json}
    (h : DocumentText bytes values) {due : Bool} (hdue : due = true → Separated bytes) :
    Succession [] due bytes (Json.documentTokens values) := by
  induction h generalizing due with
  | blank hblanks => exact .done hblanks
  | @value before bytes rest json values hbefore hvalue hseparated _ ih =>
      have hfirst : due = true → Separated (before ++ bytes) := by
        intro hd
        exact Separated.of_append (hdue hd) (by simp [hvalue.ne_nil])
      -- What separates a scalar from the next value also ends a number.
      have hnext : json.isScalar = true → Stops isNumberByte rest := by
        intro hscalar b hb
        rcases hseparated hscalar b hb with hblank | rfl | rfl
        · exact isNumberByte_of_isBlank hblank
        · rfl
        · rfl
      have hrest : Succession [] (json.isScalar && true) rest (Json.documentTokens values) :=
        ih (by simpa using hseparated)
      exact hvalue.succession (.of_blanks hbefore) trivial hfirst hnext hrest

/-- **The tokenizer accepts exactly the documents**, and delivers their tokens. -/
theorem Tokenizer.delivers_ofBytes_iff_documentText {document : List UInt8}
    {tokens : List Token} :
    (Tokenizer.ofBytes document).Delivers tokens ↔
      ∃ values, DocumentText document values ∧ tokens = Json.documentTokens values := by
  rw [delivers_ofBytes_iff]
  constructor
  · intro h
    exact h.completion.1
  · rintro ⟨values, hvalues, rfl⟩
    exact hvalues.succession (by simp)

end RequiredKeys
