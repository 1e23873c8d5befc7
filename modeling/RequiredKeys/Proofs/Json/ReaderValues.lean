import RequiredKeys.Proofs.Json.ReaderLexemes

/-!
# Values of the reader

`Json.read?_eq_some_iff` says which texts are read, and as what: white space, a value,
white space, where the value fits.  A value fits (`Json.Fits`) if no bracket of it opens
more containers than the reader allows and every number becomes a finite double.

* `Reads part Text` says of a part of the reader, in both directions, that it takes white
  space and a `Text` off its input.
* `Listed Text` is a row of such texts with commas between them.  Elements and members
  are both rows (`elementsText_iff_listed`, `membersText_iff_listed`), so the loop over
  the parts of a container is treated once.
* `value_reads` goes by induction on the nesting that is left.
-/

namespace RequiredKeys

open Ascii

/-! ## Limits -/

namespace Token

/-- How many containers are open behind a token. -/
def depthBehind (token : Token) : Nat :=
  match token.kind with
  | .startOf _ => token.depth + 1
  | _ => token.depth

/-- Whether a reader with the given limit puts up with the token. -/
def Fits (limit : Nat) (token : Token) : Prop :=
  token.depthBehind ≤ limit ∧
    (token.kind = .number → ∀ text ∈ token.text, (Magnitude.ofText text).isFinite = true)

/-- Only numbers have more to fit than their depth. -/
theorem fits_iff_of_ne_number {limit : Nat} {token : Token} (h : token.kind ≠ .number) :
    token.Fits limit ↔ token.depthBehind ≤ limit :=
  and_iff_left (fun hnumber => absurd hnumber h)

end Token

namespace Json

/-- Whether every token of a value fits, if the value stands inside `depth` containers. -/
def Fits (limit depth : Nat) (json : Json) : Prop :=
  ∀ token ∈ json.tokens depth, token.Fits limit

variable {limit depth : Nat}

theorem fits_null_iff : null.Fits limit depth ↔ depth ≤ limit := by
  simp [Fits, tokens, Token.Fits, Token.depthBehind]

theorem fits_bool_iff {value : Bool} : (bool value).Fits limit depth ↔ depth ≤ limit := by
  simp [Fits, tokens, Token.Fits, Token.depthBehind]

theorem fits_string_iff {text : String} : (string text).Fits limit depth ↔ depth ≤ limit := by
  simp [Fits, tokens, Token.Fits, Token.depthBehind]

theorem fits_number_iff {text : String} :
    (number text).Fits limit depth ↔
      depth ≤ limit ∧ (Magnitude.ofText text).isFinite = true := by
  simp [Fits, tokens, Token.Fits, Token.depthBehind]

theorem mem_elementTokens {elements : List Json} {token : Token} :
    token ∈ elementTokens depth elements ↔
      ∃ element ∈ elements, token ∈ element.tokens depth := by
  induction elements with
  | nil => simp [elementTokens]
  | cons element elements ih => simp [elementTokens, ih]

theorem mem_memberTokens {members : List (String × Json)} {token : Token} :
    token ∈ memberTokens depth members ↔
      ∃ member ∈ members,
        token = ⟨.fieldName, some member.1, depth⟩ ∨ token ∈ member.2.tokens depth := by
  induction members with
  | nil => simp [memberTokens]
  | cons member members ih => simp [memberTokens, ih, or_assoc]

/-- An array fits if there is room for one more container and its elements fit there. -/
theorem fits_array_iff {elements : List Json} :
    (array elements).Fits limit depth ↔
      depth + 1 ≤ limit ∧ ∀ element ∈ elements, element.Fits limit (depth + 1) := by
  constructor
  · intro h
    refine ⟨(h ⟨.startOf .array, none, depth⟩ (by simp [tokens])).1, ?_⟩
    intro element helement token htoken
    exact h token (by simp [tokens, mem_elementTokens.mpr ⟨element, helement, htoken⟩])
  · rintro ⟨hroom, hinside⟩ token htoken
    simp only [tokens, List.cons_append, List.mem_cons, List.mem_append, List.not_mem_nil,
      or_false, mem_elementTokens] at htoken
    rcases htoken with rfl | ⟨element, helement, htoken⟩ | rfl
    · exact (Token.fits_iff_of_ne_number (by simp)).mpr hroom
    · exact hinside element helement token htoken
    · exact (Token.fits_iff_of_ne_number (by simp)).mpr (show depth ≤ limit by omega)

/-- An object fits if there is room for one more container and its values fit there. -/
theorem fits_object_iff {members : List (String × Json)} :
    (object members).Fits limit depth ↔
      depth + 1 ≤ limit ∧ ∀ member ∈ members, member.2.Fits limit (depth + 1) := by
  constructor
  · intro h
    refine ⟨(h ⟨.startOf .object, none, depth⟩ (by simp [tokens])).1, ?_⟩
    intro member hmember token htoken
    exact h token (by simp [tokens, mem_memberTokens.mpr ⟨member, hmember, .inr htoken⟩])
  · rintro ⟨hroom, hinside⟩ token htoken
    simp only [tokens, List.cons_append, List.mem_cons, List.mem_append, List.not_mem_nil,
      or_false, mem_memberTokens] at htoken
    rcases htoken with rfl | ⟨member, hmember, rfl | htoken⟩ | rfl
    · exact (Token.fits_iff_of_ne_number (by simp)).mpr hroom
    · exact (Token.fits_iff_of_ne_number (by simp)).mpr hroom
    · exact hinside member hmember token htoken
    · exact (Token.fits_iff_of_ne_number (by simp)).mpr (show depth ≤ limit by omega)

end Json

/-! ## Rows of texts -/

/-- One or more texts with commas between them, each with white space around it. -/
inductive Listed {α : Type} (Text : List UInt8 → α → Prop) : List UInt8 → List α → Prop
  | last {before bytes after : List UInt8} {a : α} (hbefore : Blanks before)
      (htext : Text bytes a) (hafter : Blanks after) : Listed Text (before ++ bytes ++ after) [a]
  | more {before bytes after rest : List UInt8} {a : α} {as : List α} (hbefore : Blanks before)
      (htext : Text bytes a) (hafter : Blanks after) (hrest : Listed Text rest as) :
      Listed Text (before ++ bytes ++ after ++ comma :: rest) (a :: as)

/-- A member: a key, a colon and a value with white space in front of it. -/
def MemberText (Text : List UInt8 → Json → Prop) (bytes : List UInt8) (member : String × Json) :
    Prop :=
  ∃ key middle inside value, bytes = key ++ middle ++ colon :: (inside ++ value) ∧
    QuotedText key member.1 ∧ Blanks middle ∧ Blanks inside ∧ Text value member.2

theorem memberText_of_valueText {key middle inside value : List UInt8} {name : String} {json : Json}
    (hkey : QuotedText key name) (hmiddle : Blanks middle) (hinside : Blanks inside)
    (hvalue : ValueText value json) :
    MemberText ValueText (key ++ middle ++ colon :: (inside ++ value)) (name, json) :=
  ⟨key, middle, inside, value, rfl, hkey, hmiddle, hinside, hvalue⟩

theorem elementsText_iff_listed {bytes : List UInt8} {elements : List Json} :
    ElementsText bytes elements ↔ Listed ValueText bytes elements := by
  induction elements generalizing bytes with
  | nil => constructor <;> (intro h; cases h)
  | cons element elements ih =>
      constructor
      · intro h
        cases h with
        | last hbefore hvalue hafter => exact .last hbefore hvalue hafter
        | more hbefore hvalue hafter hrest => exact .more hbefore hvalue hafter (ih.mp hrest)
      · intro h
        cases h with
        | last hbefore hvalue hafter => exact .last hbefore hvalue hafter
        | more hbefore hvalue hafter hrest => exact .more hbefore hvalue hafter (ih.mpr hrest)

theorem membersText_iff_listed {bytes : List UInt8} {members : List (String × Json)} :
    MembersText bytes members ↔ Listed (MemberText ValueText) bytes members := by
  induction members generalizing bytes with
  | nil => constructor <;> (intro h; cases h)
  | cons member members ih =>
      constructor
      · intro h
        cases h with
        | last hbefore hkey hmiddle hinside hvalue hafter =>
            have hmember := memberText_of_valueText hkey hmiddle hinside hvalue
            have hlisted := Listed.last hbefore hmember hafter
            simpa only [List.append_assoc, List.cons_append] using hlisted
        | more hbefore hkey hmiddle hinside hvalue hafter hrest =>
            have hmember := memberText_of_valueText hkey hmiddle hinside hvalue
            have hlisted := Listed.more hbefore hmember hafter (ih.mp hrest)
            simpa only [List.append_assoc, List.cons_append] using hlisted
      · intro h
        cases h with
        | last hbefore hmember hafter =>
            obtain ⟨key, middle, inside, value, rfl, hkey, hmiddle, hinside, hvalue⟩ := hmember
            have htext := MembersText.last hbefore hkey hmiddle hinside hvalue hafter
            simpa only [List.append_assoc, List.cons_append] using htext
        | more hbefore hmember hafter hrest =>
            obtain ⟨key, middle, inside, value, rfl, hkey, hmiddle, hinside, hvalue⟩ := hmember
            have htext :=
              MembersText.more hbefore hkey hmiddle hinside hvalue hafter (ih.mpr hrest)
            simpa only [List.append_assoc, List.cons_append] using htext

/-- What is asked of the parts besides their texts may be asked apart. -/
theorem listed_and_iff {α : Type} {Text : List UInt8 → α → Prop} {Good : α → Prop}
    {bytes : List UInt8} {as : List α} :
    Listed (fun bytes a => Text bytes a ∧ Good a) bytes as ↔
      Listed Text bytes as ∧ ∀ a ∈ as, Good a := by
  constructor
  · intro h
    induction h with
    | last hbefore htext hafter =>
        exact ⟨.last hbefore htext.1 hafter, by simpa using htext.2⟩
    | more hbefore htext hafter _ ih =>
        refine ⟨.more hbefore htext.1 hafter ih.1, ?_⟩
        rintro a (_ | ⟨_, ha⟩)
        · exact htext.2
        · exact ih.2 a ha
  · rintro ⟨h, hgood⟩
    induction h with
    | last hbefore htext hafter => exact .last hbefore ⟨htext, hgood _ (by simp)⟩ hafter
    | more hbefore htext hafter _ ih =>
        refine .more hbefore ⟨htext, hgood _ (by simp)⟩ hafter (ih ?_)
        intro a ha
        exact hgood a (by simp [ha])

/-- White space in front of a row belongs to it. -/
theorem Listed.append_blanks {α : Type} {Text : List UInt8 → α → Prop}
    {blanks bytes : List UInt8} {as : List α} (hblanks : Blanks blanks)
    (h : Listed Text bytes as) : Listed Text (blanks ++ bytes) as := by
  cases h with
  | last hbefore htext hafter =>
      rw [← List.append_assoc, ← List.append_assoc]
      exact .last (blanks_append.mpr ⟨hblanks, hbefore⟩) htext hafter
  | more hbefore htext hafter hrest =>
      rw [← List.append_assoc, ← List.append_assoc, ← List.append_assoc]
      exact .more (blanks_append.mpr ⟨hblanks, hbefore⟩) htext hafter hrest

/-! ## Parts of the reader -/

namespace Json
namespace Reader

/-- A part of the reader skips white space and takes one text off its input, and it does
so wherever such a text stands in front of a byte that is none of a number. -/
structure Reads {α : Type} (part : PartReader α) (Text : List UInt8 → α → Prop) : Prop where
  begins : ∀ {bytes a}, Text bytes a → ∃ b tail, bytes = b :: tail ∧ beginsValue b = true
  sound : ∀ {input rest a}, part input = some (a, rest) →
    ∃ before bytes, input = before ++ bytes ++ rest ∧ Blanks before ∧ Text bytes a
  complete : ∀ {before bytes rest a}, Blanks before → Text bytes a → Stops isNumberByte rest →
    part (before ++ bytes ++ rest) = some (a, rest)

theorem skipBlanks_of_begins {before bytes : List UInt8} {b : UInt8} (hbefore : Blanks before)
    (hb : beginsValue b = true) : skipBlanks (before ++ b :: bytes) = b :: bytes := by
  rw [skipBlanks_append hbefore, skipBlanks_cons_of_not_blank (isBlank_of_beginsValue hb)]

theorem skipBlanks_skipBlanks (input : List UInt8) :
    skipBlanks (skipBlanks input) = skipBlanks input := by
  cases hskip : skipBlanks input with
  | nil => rfl
  | cons b rest =>
      obtain ⟨-, -, -, hb⟩ := skipBlanks_eq_cons_iff.mp hskip
      exact skipBlanks_cons_of_not_blank hb

/-- A part that skips white space first is a matter of what it does behind that. -/
theorem Reads.of_skipBlanks {α : Type} {part : PartReader α} {Text : List UInt8 → α → Prop}
    (hskip : ∀ input, part (skipBlanks input) = part input) (hnil : part [] = none)
    (hbegins : ∀ {bytes a}, Text bytes a → ∃ b tail, bytes = b :: tail ∧ beginsValue b = true)
    (hsound : ∀ {b tail rest a}, isBlank b = false → part (b :: tail) = some (a, rest) →
      ∃ bytes, b :: tail = bytes ++ rest ∧ Text bytes a)
    (hcomplete : ∀ {bytes rest a}, Text bytes a → Stops isNumberByte rest →
      part (bytes ++ rest) = some (a, rest)) : Reads part Text where
  begins := hbegins
  sound := by
    intro input rest a h
    rw [← hskip] at h
    cases hinput : skipBlanks input with
    | nil => simp [hinput, hnil] at h
    | cons b tail =>
        rw [hinput] at h
        obtain ⟨before, rfl, hbefore, hb⟩ := skipBlanks_eq_cons_iff.mp hinput
        obtain ⟨bytes, hbytes, htext⟩ := hsound hb h
        exact ⟨before, bytes, by rw [hbytes, List.append_assoc], hbefore, htext⟩
  complete := by
    intro before bytes rest a hbefore htext hrest
    rw [← hskip, List.append_assoc, skipBlanks_append hbefore, hskip]
    exact hcomplete htext hrest

/-! ## Containers -/

section Containers

variable {α : Type} {part : PartReader α} {Text : List UInt8 → α → Prop} {closer : UInt8}

/-- What a closing bracket is not. -/
theorem closer_facts (hcloser : closer = closeBracket ∨ closer = closeBrace) :
    isBlank closer = false ∧ closer ≠ comma ∧ isNumberByte closer = false ∧
      beginsValue closer = false := by
  rcases hcloser with rfl | rfl <;> exact ⟨rfl, by decide, rfl, rfl⟩

theorem parts_sound (hpart : Reads part Text) {bound : Nat} {input rest : List UInt8}
    {as : List α} (h : parts part closer bound input = some (as, rest)) :
    ∃ inner, input = inner ++ closer :: rest ∧ Listed Text inner as := by
  induction bound generalizing input as with
  | zero => simp [parts] at h
  | succ bound ih =>
      simp only [parts, Option.bind_eq_bind, Option.bind_eq_some_iff, Prod.exists] at h
      obtain ⟨a, behind, hread, h⟩ := h
      obtain ⟨before, bytes, rfl, hbefore, htext⟩ := hpart.sound hread
      -- Behind the first part stands a comma, with more parts, or the closing byte.
      split at h
      · contradiction
      · next b tail hskip =>
          obtain ⟨after, rfl, hafter, -⟩ := skipBlanks_eq_cons_iff.mp hskip
          split at h
          · next hb =>
              obtain ⟨⟨more, final⟩, hmore, hpair⟩ := Option.map_eq_some_iff.mp h
              obtain ⟨rfl, rfl⟩ := Prod.mk.inj hpair
              obtain ⟨inner, rfl, hinner⟩ := ih hmore
              subst hb
              exact ⟨_, by simp, .more hbefore htext hafter hinner⟩
          · split at h
            · next hb =>
                obtain ⟨rfl, rfl⟩ := Prod.mk.inj (Option.some.inj h)
                subst hb
                exact ⟨_, by simp, .last hbefore htext hafter⟩
            · contradiction

/-- The loop goes as far as the row of texts.  Each text has a byte, so the bound that
the loop is given is never reached. -/
theorem parts_complete (hpart : Reads part Text)
    (hcloser : closer = closeBracket ∨ closer = closeBrace) {inner : List UInt8} {as : List α}
    (h : Listed Text inner as) {bound : Nat} (hbound : inner.length ≤ bound)
    (rest : List UInt8) :
    parts part closer bound (inner ++ closer :: rest) = some (as, rest) := by
  obtain ⟨hblank, hcomma, hnumber, -⟩ := closer_facts hcloser
  induction h generalizing bound with
  | @last before bytes after a hbefore htext hafter =>
      obtain ⟨b, tail, rfl, -⟩ := hpart.begins htext
      obtain ⟨bound, rfl⟩ : ∃ smaller, bound = smaller + 1 := by
        refine ⟨bound - 1, ?_⟩
        simp only [List.length_append, List.length_cons] at hbound
        omega
      have hstops : Stops isNumberByte (after ++ closer :: rest) :=
        stops_blanks_append hafter hnumber
      have hread := hpart.complete hbefore htext hstops
      have hskip : skipBlanks (after ++ closer :: rest) = closer :: rest := by
        rw [skipBlanks_append hafter, skipBlanks_cons_of_not_blank hblank]
      rw [List.append_assoc, parts, hread]
      simp [hskip, hcomma]
  | @more before bytes after others a as hbefore htext hafter _ ih =>
      obtain ⟨b, tail, rfl, -⟩ := hpart.begins htext
      obtain ⟨bound, rfl⟩ : ∃ smaller, bound = smaller + 1 := by
        refine ⟨bound - 1, ?_⟩
        simp only [List.length_append, List.length_cons] at hbound
        omega
      have hstops : Stops isNumberByte (after ++ comma :: (others ++ closer :: rest)) :=
        stops_blanks_append hafter rfl
      have hread := hpart.complete hbefore htext hstops
      have hskip : skipBlanks (after ++ comma :: (others ++ closer :: rest)) =
          comma :: (others ++ closer :: rest) := by
        rw [skipBlanks_append hafter, skipBlanks_cons_of_not_blank rfl]
      have hothers : others.length ≤ bound := by
        simp only [List.length_append, List.length_cons] at hbound
        omega
      have hmore := ih hothers
      rw [List.append_assoc, List.append_assoc, List.cons_append, parts, hread]
      simp [hskip, hmore]

/-- What stands between the brackets of a container: white space, or a row. -/
def Contents (Text : List UInt8 → α → Prop) (inner : List UInt8) (as : List α) : Prop :=
  (Blanks inner ∧ as = []) ∨ Listed Text inner as

theorem body_eq_some_iff (hpart : Reads part Text)
    (hcloser : closer = closeBracket ∨ closer = closeBrace) {input rest : List UInt8}
    {as : List α} :
    body part closer input = some (as, rest) ↔
      ∃ inner, input = inner ++ closer :: rest ∧ Contents Text inner as := by
  obtain ⟨hblank, -, -, hbegins⟩ := closer_facts hcloser
  constructor
  · intro h
    unfold body at h
    split at h
    · contradiction
    · next b behind hskip =>
        obtain ⟨blanks, rfl, hblanks, -⟩ := skipBlanks_eq_cons_iff.mp hskip
        split at h
        · next hb =>
            obtain ⟨rfl, rfl⟩ := Prod.mk.inj (Option.some.inj h)
            subst hb
            exact ⟨blanks, rfl, .inl ⟨hblanks, rfl⟩⟩
        · obtain ⟨inner, hinner, hlisted⟩ := parts_sound hpart h
          exact ⟨blanks ++ inner, by rw [hinner, List.append_assoc],
            .inr (hlisted.append_blanks hblanks)⟩
  · rintro ⟨inner, rfl, ⟨hinner, rfl⟩ | hlisted⟩
    · have hskip : skipBlanks (inner ++ closer :: rest) = closer :: rest := by
        rw [skipBlanks_append hinner, skipBlanks_cons_of_not_blank hblank]
      simp [body, hskip]
    · -- The row begins with the first byte of its first text, and that closes nothing.
      obtain ⟨before, tail, b, rfl, hbefore, hb, htail⟩ : ∃ before tail b,
          inner = before ++ b :: tail ∧ Blanks before ∧ beginsValue b = true ∧
            Listed Text (b :: tail) as := by
        cases hlisted with
        | @last before bytes after a hbefore htext hafter =>
            have hlisted := Listed.last blanks_nil htext hafter
            obtain ⟨b, tail, rfl, hb⟩ := hpart.begins htext
            exact ⟨before, tail ++ after, b, by simp, hbefore, hb, hlisted⟩
        | @more before bytes after others a as hbefore htext hafter hrest =>
            have hlisted := Listed.more blanks_nil htext hafter hrest
            obtain ⟨b, tail, rfl, hb⟩ := hpart.begins htext
            exact ⟨before, tail ++ (after ++ comma :: others), b, by simp, hbefore, hb,
              by simpa using hlisted⟩
      have hskip : skipBlanks (before ++ b :: (tail ++ closer :: rest)) =
          b :: (tail ++ closer :: rest) := skipBlanks_of_begins hbefore hb
      have hbound : (b :: tail).length ≤ (b :: (tail ++ closer :: rest)).length := by
        simp only [List.length_cons, List.length_append]
        omega
      have hread := parts_complete hpart hcloser htail hbound rest
      rw [List.append_assoc, List.cons_append, body, hskip]
      simp only [if_neg (beginsValue_ne hb hbegins)]
      exact hread

end Containers

/-! ## Members and values -/

/-- Behind a quote the reader of strings takes the rest of a quoted text. -/
theorem string_eq_some_iff_quotedText {input rest : List UInt8} {text : String} :
    string input = some (text, rest) ↔
      ∃ bytes, quote :: input = bytes ++ rest ∧ QuotedText bytes text := by
  rw [string_eq_some_iff]
  constructor
  · rintro ⟨body, rfl, hbody⟩
    exact ⟨quote :: body ++ [quote], by simp, body, rfl, hbody⟩
  · rintro ⟨bytes, hbytes, body, rfl, hbody⟩
    exact ⟨body, by simpa using hbytes, hbody⟩

theorem member_reads {value : PartReader Json} {Text : List UInt8 → Json → Prop}
    (hvalue : Reads value Text) : Reads (member value) (MemberText Text) := by
  refine Reads.of_skipBlanks ?_ rfl ?_ ?_ ?_
  · intro input
    rw [member, member, skipBlanks_skipBlanks]
  · rintro bytes ⟨name, json⟩ ⟨key, middle, inside, text, rfl, ⟨body, rfl, -⟩, -⟩
    exact ⟨quote, _, rfl, rfl⟩
  · rintro b tail rest ⟨name, json⟩ hb h
    simp only [member, skipBlanks_cons_of_not_blank hb, ite_not] at h
    split at h
    · next hquote =>
        subst hquote
        simp only [Option.bind_eq_bind, Option.bind_eq_some_iff, Prod.exists] at h
        obtain ⟨key, behind, hkey, h⟩ := h
        obtain ⟨keyBytes, hbytes, hkeyText⟩ := string_eq_some_iff_quotedText.mp hkey
        split at h
        · contradiction
        · next c final hskip =>
            obtain ⟨middle, rfl, hmiddle, -⟩ := skipBlanks_eq_cons_iff.mp hskip
            split at h
            · next hcolon =>
                obtain ⟨⟨found, last⟩, hread, hpair⟩ := Option.map_eq_some_iff.mp h
                obtain ⟨hmember, rfl⟩ := Prod.mk.inj hpair
                obtain ⟨rfl, rfl⟩ := Prod.mk.inj hmember
                obtain ⟨inside, text, rfl, hinside, htext⟩ := hvalue.sound hread
                subst hcolon
                exact ⟨keyBytes ++ middle ++ colon :: (inside ++ text), by simp [hbytes],
                  keyBytes, middle, inside, text, rfl, hkeyText, hmiddle, hinside, htext⟩
            · contradiction
    · contradiction
  · rintro bytes rest ⟨name, json⟩ ⟨key, middle, inside, text, rfl, hkey, hmiddle, hinside, htext⟩
      hrest
    -- The three steps of the reader, from the key to the value.
    obtain ⟨body, rfl, hbody⟩ := hkey
    have hname : string (body ++ quote :: (middle ++ colon :: (inside ++ text ++ rest))) =
        some (name, middle ++ colon :: (inside ++ text ++ rest)) :=
      string_eq_some_iff.mpr ⟨body, rfl, hbody⟩
    have hcolon : skipBlanks (middle ++ colon :: (inside ++ text ++ rest)) =
        colon :: (inside ++ text ++ rest) := by
      rw [skipBlanks_append hmiddle, skipBlanks_cons_of_not_blank rfl]
    have hread := hvalue.complete hinside htext hrest
    have hinput : quote :: body ++ [quote] ++ middle ++ colon :: (inside ++ text) ++ rest =
        quote :: (body ++ quote :: (middle ++ colon :: (inside ++ text ++ rest))) := by
      simp
    rw [hinput, member, skipBlanks_cons_of_not_blank rfl]
    simp only [ne_eq, not_true_eq_false, if_false, hname, Option.bind_eq_bind, Option.bind_some,
      hcolon, hread, Option.map_some]

theorem isPrefixOf_eq_true_iff {word input : List UInt8} :
    word.isPrefixOf input = true ↔ ∃ rest, input = word ++ rest := by
  rw [List.isPrefixOf_iff_prefix]
  constructor
  · rintro ⟨rest, rfl⟩
    exact ⟨rest, rfl⟩
  · rintro ⟨rest, rfl⟩
    exact ⟨rest, rfl⟩

/-- The three words are told apart by their first bytes, so their order does not matter. -/
theorem literal_eq_some_iff {input rest : List UInt8} {json : Json} :
    literal input = some (json, rest) ↔
      ∃ word, input = Literal.bytes word ++ rest ∧
        json = match word with
          | .bool value => .bool value
          | .null => .null := by
  constructor
  · intro h
    simp only [literal, Option.or_eq_some_iff] at h
    have hword {word : Literal} {value : Json}
        (hread : (if word.bytes.isPrefixOf input then
          some (value, input.drop word.bytes.length) else none) = some (json, rest)) :
        input = word.bytes ++ rest ∧ json = value := by
      split at hread
      · next hprefix =>
          obtain ⟨tail, rfl⟩ := isPrefixOf_eq_true_iff.mp hprefix
          obtain ⟨rfl, rfl⟩ := Prod.mk.inj (Option.some.inj hread)
          exact ⟨by simp, rfl⟩
      · contradiction
    rcases h with htrue | ⟨-, hfalse | ⟨-, hnull⟩⟩
    · exact ⟨.bool true, hword htrue⟩
    · exact ⟨.bool false, hword hfalse⟩
    · exact ⟨.null, hword hnull⟩
  · rintro ⟨word, rfl, rfl⟩
    cases word with
    | bool value => cases value <;> simp [literal, Literal.bytes, List.isPrefixOf]
    | null => simp [literal, Literal.bytes, List.isPrefixOf]

/-- The values that are read inside `depth` containers: the text is one of the grammar,
and the value fits. -/
def Fitting (limit depth : Nat) (bytes : List UInt8) (json : Json) : Prop :=
  ValueText bytes json ∧ json.Fits limit depth

theorem contents_and_iff {α : Type} {Text : List UInt8 → α → Prop} {Good : α → Prop}
    {inner : List UInt8} {as : List α} :
    Contents (fun bytes a => Text bytes a ∧ Good a) inner as ↔
      Contents Text inner as ∧ ∀ a ∈ as, Good a := by
  simp only [Contents, listed_and_iff, or_and_right]
  constructor
  · rintro (⟨hinner, rfl⟩ | h)
    · exact .inl ⟨⟨hinner, rfl⟩, by simp⟩
    · exact .inr h
  · rintro (⟨h, -⟩ | h)
    · exact .inl h
    · exact .inr h

theorem memberText_fitting_iff {limit depth : Nat} {bytes : List UInt8} {member : String × Json} :
    MemberText (Fitting limit depth) bytes member ↔
      MemberText ValueText bytes member ∧ member.2.Fits limit depth := by
  constructor
  · rintro ⟨key, middle, inside, value, rfl, hkey, hmiddle, hinside, hvalue, hfits⟩
    exact ⟨⟨key, middle, inside, value, rfl, hkey, hmiddle, hinside, hvalue⟩, hfits⟩
  · rintro ⟨⟨key, middle, inside, value, rfl, hkey, hmiddle, hinside, hvalue⟩, hfits⟩
    exact ⟨key, middle, inside, value, rfl, hkey, hmiddle, hinside, hvalue, hfits⟩

theorem valueText_array_iff {bytes : List UInt8} {elements : List Json} :
    ValueText bytes (.array elements) ↔
      ∃ inner, bytes = openBracket :: inner ++ [closeBracket] ∧
        Contents ValueText inner elements := by
  constructor
  · intro h
    cases h with
    | emptyArray hblanks => exact ⟨_, rfl, .inl ⟨hblanks, rfl⟩⟩
    | array helements => exact ⟨_, rfl, .inr (elementsText_iff_listed.mp helements)⟩
  · rintro ⟨inner, rfl, ⟨hblanks, rfl⟩ | hlisted⟩
    · exact .emptyArray hblanks
    · exact .array (elementsText_iff_listed.mpr hlisted)

theorem valueText_object_iff {bytes : List UInt8} {members : List (String × Json)} :
    ValueText bytes (.object members) ↔
      ∃ inner, bytes = openBrace :: inner ++ [closeBrace] ∧
        Contents (MemberText ValueText) inner members := by
  constructor
  · intro h
    cases h with
    | emptyObject hblanks => exact ⟨_, rfl, .inl ⟨hblanks, rfl⟩⟩
    | object hmembers => exact ⟨_, rfl, .inr (membersText_iff_listed.mp hmembers)⟩
  · rintro ⟨inner, rfl, ⟨hblanks, rfl⟩ | hlisted⟩
    · exact .emptyObject hblanks
    · exact .object (membersText_iff_listed.mpr hlisted)

section Values

variable {value : PartReader Json} {inner : Option (PartReader Json)} {limit depth : Nat}

/-- Behind an opening bracket the elements of an array are read, up to its end. -/
theorem body_elements_iff (hvalue : Reads value (Fitting limit (depth + 1)))
    (hroom : depth + 1 ≤ limit) {input rest : List UInt8} {elements : List Json} :
    body value closeBracket input = some (elements, rest) ↔
      ∃ bytes, openBracket :: input = bytes ++ rest ∧
        Fitting limit depth bytes (.array elements) := by
  have hText : Fitting limit (depth + 1) = fun bytes json =>
      ValueText bytes json ∧ json.Fits limit (depth + 1) := rfl
  rw [body_eq_some_iff hvalue (.inl rfl), hText]
  simp only [Fitting, contents_and_iff, valueText_array_iff, fits_array_iff, hroom, true_and]
  constructor
  · rintro ⟨inner, rfl, hcontents, hfits⟩
    exact ⟨openBracket :: inner ++ [closeBracket], by simp, ⟨inner, rfl, hcontents⟩, hfits⟩
  · rintro ⟨bytes, hbytes, ⟨inner, rfl, hcontents⟩, hfits⟩
    exact ⟨inner, by simpa using hbytes, hcontents, hfits⟩

/-- Behind an opening brace the members of an object are read, up to its end. -/
theorem body_members_iff (hvalue : Reads value (Fitting limit (depth + 1)))
    (hroom : depth + 1 ≤ limit) {input rest : List UInt8} {members : List (String × Json)} :
    body (member value) closeBrace input = some (members, rest) ↔
      ∃ bytes, openBrace :: input = bytes ++ rest ∧
        Fitting limit depth bytes (.object members) := by
  -- That the value of a member fits is asked apart from its text.
  have hText : MemberText (Fitting limit (depth + 1)) = fun bytes member =>
      MemberText ValueText bytes member ∧ member.2.Fits limit (depth + 1) := by
    funext bytes member
    exact propext memberText_fitting_iff
  rw [body_eq_some_iff (member_reads hvalue) (.inr rfl), hText]
  simp only [Fitting, contents_and_iff, valueText_object_iff, fits_object_iff, hroom, true_and]
  constructor
  · rintro ⟨inner, rfl, hcontents, hfits⟩
    exact ⟨openBrace :: inner ++ [closeBrace], by simp, ⟨inner, rfl, hcontents⟩, hfits⟩
  · rintro ⟨bytes, hbytes, ⟨inner, rfl, hcontents⟩, hfits⟩
    exact ⟨inner, by simpa using hbytes, hcontents, hfits⟩

theorem valueWith_openBracket_iff {tail rest : List UInt8} {json : Json} :
    valueWith inner (openBracket :: tail) = some (json, rest) ↔
      ∃ value elements, inner = some value ∧
        body value closeBracket tail = some (elements, rest) ∧ json = .array elements := by
  have heq : valueWith inner (openBracket :: tail) = inner.bind (fun value =>
      (body value closeBracket tail).bind (fun read => some (.array read.1, read.2))) := by
    cases inner <;> rfl
  simp only [heq, Option.bind_eq_some_iff, Prod.exists, Option.some.injEq, Prod.mk.injEq]
  constructor
  · rintro ⟨value, rfl, elements, _, hbody, rfl, rfl⟩
    exact ⟨value, elements, rfl, hbody, rfl⟩
  · rintro ⟨value, elements, rfl, hbody, rfl⟩
    exact ⟨value, rfl, elements, rest, hbody, rfl, rfl⟩

theorem valueWith_openBrace_iff {tail rest : List UInt8} {json : Json} :
    valueWith inner (openBrace :: tail) = some (json, rest) ↔
      ∃ value members, inner = some value ∧
        body (member value) closeBrace tail = some (members, rest) ∧ json = .object members := by
  have heq : valueWith inner (openBrace :: tail) = inner.bind (fun value =>
      (body (member value) closeBrace tail).bind (fun read => some (.object read.1, read.2))) := by
    cases inner <;> rfl
  simp only [heq, Option.bind_eq_some_iff, Prod.exists, Option.some.injEq, Prod.mk.injEq]
  constructor
  · rintro ⟨value, rfl, members, _, hbody, rfl, rfl⟩
    exact ⟨value, members, rfl, hbody, rfl⟩
  · rintro ⟨value, members, rfl, hbody, rfl⟩
    exact ⟨value, rfl, members, rest, hbody, rfl, rfl⟩

theorem valueWith_quote_iff {tail rest : List UInt8} {json : Json} :
    valueWith inner (quote :: tail) = some (json, rest) ↔
      ∃ text, string tail = some (text, rest) ∧ json = .string text := by
  have heq : valueWith inner (quote :: tail) =
      (string tail).map (fun read => (.string read.1, read.2)) := rfl
  rw [heq]
  constructor
  · intro h
    obtain ⟨⟨text, final⟩, hread, hpair⟩ := Option.map_eq_some_iff.mp h
    obtain ⟨rfl, rfl⟩ := Prod.mk.inj hpair
    exact ⟨text, hread, rfl⟩
  · rintro ⟨text, hread, rfl⟩
    simp [hread]

/-- What begins with none of the three marks is a number or a word. -/
theorem valueWith_of_ne {b : UInt8} (hblank : isBlank b = false) (hbracket : b ≠ openBracket)
    (hbrace : b ≠ openBrace) (hquote : b ≠ quote) (tail : List UInt8) :
    valueWith inner (b :: tail) =
      if b = minus || isDigit b then number (b :: tail) else literal (b :: tail) := by
  rw [valueWith, skipBlanks_cons_of_not_blank hblank]
  split
  · contradiction
  · next c rest hinput =>
      obtain ⟨rfl, rfl⟩ := List.cons.inj hinput
      split
      · exact absurd rfl hbracket
      · exact absurd rfl hbrace
      · exact absurd rfl hquote
      · rfl

theorem valueWith_word (word : Literal) (rest : List UInt8) :
    valueWith inner (word.bytes ++ rest) = literal (word.bytes ++ rest) := by
  cases word with
  | bool value =>
      cases value <;> exact valueWith_of_ne rfl (by decide) (by decide) (by decide) _
  | null => exact valueWith_of_ne rfl (by decide) (by decide) (by decide) _

theorem valueWith_number {bytes : List UInt8} (h : NumberText bytes) (rest : List UInt8) :
    valueWith inner (bytes ++ rest) = number (bytes ++ rest) := by
  obtain ⟨b, tail, rfl⟩ := List.exists_cons_of_ne_nil (numberText_ne_nil h)
  have hfirst : (b = minus || isDigit b) = true := by simpa using numberText_head h
  have hne {c : UInt8} (hminus : minus ≠ c) (hdigit : isDigit c = false) : b ≠ c := by
    rcases numberText_head h with rfl | hb
    · exact hminus
    · exact isDigit_ne hb hdigit
  -- White space does not occur in numbers.
  have hblank : isBlank b = false := by
    rw [← Bool.not_eq_true]
    intro hb
    have hnumber := isNumberByte_of_isBlank hb
    rcases numberText_head h with rfl | hdigit
    · exact absurd hb (by decide)
    · simp [isNumberByte, hdigit] at hnumber
  rw [List.cons_append, valueWith_of_ne hblank (hne (by decide) rfl) (hne (by decide) rfl)
    (hne (by decide) rfl), if_pos hfirst]

theorem number_eq_some_iff {input rest : List UInt8} {json : Json} :
    number input = some (json, rest) ↔
      ∃ text, numberText input = some (text, rest) ∧
        (Magnitude.ofText text).isFinite = true ∧ json = .number text := by
  simp only [number, Option.bind_eq_bind, Option.bind_eq_some_iff, Prod.exists]
  constructor
  · rintro ⟨text, final, hread, h⟩
    split at h
    · next hfinite =>
        obtain ⟨rfl, rfl⟩ := Prod.mk.inj (Option.some.inj h)
        exact ⟨text, hread, hfinite, rfl⟩
    · contradiction
  · rintro ⟨text, hread, hfinite, rfl⟩
    exact ⟨text, rest, hread, by rw [if_pos hfinite]⟩

/-- What is read is a value that fits.  The first byte tells what kind of value it is. -/
theorem valueWith_sound (hdepth : depth ≤ limit)
    (hinner : ∀ value, inner = some value →
      depth + 1 ≤ limit ∧ Reads value (Fitting limit (depth + 1)))
    {b : UInt8} {tail rest : List UInt8} {json : Json} (hb : isBlank b = false)
    (h : valueWith inner (b :: tail) = some (json, rest)) :
    ∃ bytes, b :: tail = bytes ++ rest ∧ Fitting limit depth bytes json := by
  by_cases hbracket : b = openBracket
  · subst hbracket
    obtain ⟨value, elements, hvalue, hbody, rfl⟩ := valueWith_openBracket_iff.mp h
    obtain ⟨hroom, hreads⟩ := hinner value hvalue
    exact (body_elements_iff hreads hroom).mp hbody
  by_cases hbrace : b = openBrace
  · subst hbrace
    obtain ⟨value, members, hvalue, hbody, rfl⟩ := valueWith_openBrace_iff.mp h
    obtain ⟨hroom, hreads⟩ := hinner value hvalue
    exact (body_members_iff hreads hroom).mp hbody
  by_cases hquote : b = quote
  · subst hquote
    obtain ⟨text, hstring, rfl⟩ := valueWith_quote_iff.mp h
    obtain ⟨bytes, hbytes, htext⟩ := string_eq_some_iff_quotedText.mp hstring
    exact ⟨bytes, hbytes, .string htext, fits_string_iff.mpr hdepth⟩
  rw [valueWith_of_ne hb hbracket hbrace hquote] at h
  split at h
  · obtain ⟨text, hnumber, hfinite, rfl⟩ := number_eq_some_iff.mp h
    obtain ⟨bytes, hbytes, htext, rfl⟩ := numberText_sound hnumber
    exact ⟨bytes, hbytes, .number htext, fits_number_iff.mpr ⟨hdepth, hfinite⟩⟩
  · obtain ⟨word, hinput, rfl⟩ := literal_eq_some_iff.mp h
    refine ⟨word.bytes, hinput, ?_⟩
    cases word with
    | bool value => exact ⟨.bool value, fits_bool_iff.mpr hdepth⟩
    | null => exact ⟨.null, fits_null_iff.mpr hdepth⟩

/-- Every value that fits is read.  A container that fits has room for what is in it, so
there is a reader for that. -/
theorem valueWith_complete
    (hinner : depth + 1 ≤ limit →
      ∃ value, inner = some value ∧ Reads value (Fitting limit (depth + 1)))
    {bytes rest : List UInt8} {json : Json} (h : Fitting limit depth bytes json)
    (hrest : Stops isNumberByte rest) :
    valueWith inner (bytes ++ rest) = some (json, rest) := by
  obtain ⟨htext, hfits⟩ := id h
  cases json with
  | null =>
      cases htext
      rw [valueWith_word]
      exact literal_eq_some_iff.mpr ⟨.null, rfl, rfl⟩
  | bool value =>
      cases htext
      rw [valueWith_word]
      exact literal_eq_some_iff.mpr ⟨.bool value, rfl, rfl⟩
  | number text =>
      cases htext with
      | number hnumber =>
          rw [valueWith_number hnumber]
          exact number_eq_some_iff.mpr ⟨_, numberText_complete hnumber hrest,
            (fits_number_iff.mp hfits).2, rfl⟩
  | string text =>
      cases htext with
      | string hquoted =>
          obtain ⟨body, rfl, hbody⟩ := hquoted
          have hstring : string (body ++ [quote] ++ rest) = some (text, rest) :=
            string_eq_some_iff.mpr ⟨body, by simp, hbody⟩
          exact valueWith_quote_iff.mpr ⟨text, hstring, rfl⟩
  | array elements =>
      have hroom := (fits_array_iff.mp hfits).1
      obtain ⟨value, hvalue, hreads⟩ := hinner hroom
      obtain ⟨inside, rfl, -⟩ := valueText_array_iff.mp htext
      exact valueWith_openBracket_iff.mpr
        ⟨value, elements, hvalue, (body_elements_iff hreads hroom).mpr ⟨_, rfl, h⟩, rfl⟩
  | object members =>
      have hroom := (fits_object_iff.mp hfits).1
      obtain ⟨value, hvalue, hreads⟩ := hinner hroom
      obtain ⟨inside, rfl, -⟩ := valueText_object_iff.mp htext
      exact valueWith_openBrace_iff.mpr
        ⟨value, members, hvalue, (body_members_iff hreads hroom).mpr ⟨_, rfl, h⟩, rfl⟩

/-- **One level of the reader.**  What stands inside a container is one level deeper, and
without a reader for it there is no room for a container. -/
theorem valueWith_reads (hdepth : depth ≤ limit)
    (hinner : ∀ value, inner = some value →
      depth + 1 ≤ limit ∧ Reads value (Fitting limit (depth + 1)))
    (hnone : inner = none → limit ≤ depth) : Reads (valueWith inner) (Fitting limit depth) := by
  refine Reads.of_skipBlanks ?_ rfl (fun h => h.1.exists_cons)
    (fun hb h => valueWith_sound hdepth hinner hb h) (fun h hrest => valueWith_complete ?_ h hrest)
  · intro input
    rw [valueWith, valueWith, skipBlanks_skipBlanks]
  · intro hroom
    cases hvalue : inner with
    | none =>
        have hlimit := hnone hvalue
        omega
    | some value => exact ⟨value, rfl, (hinner value hvalue).2⟩

end Values

/-- **The reader with some nesting left** reads the values that fit.  The induction is on
that nesting; together with the depth it always makes up the limit. -/
theorem value_reads {nesting limit depth : Nat} (h : depth + nesting = limit) :
    Reads (value nesting) (Fitting limit depth) := by
  induction nesting generalizing depth with
  | zero => exact valueWith_reads (by omega) (fun _ hnone => nomatch hnone) (fun _ => by omega)
  | succ nesting ih =>
      refine valueWith_reads (by omega) ?_ (fun hsome => nomatch hsome)
      intro inner hinner
      obtain rfl := Option.some.inj hinner
      exact ⟨by omega, ih (by omega)⟩

end Reader

/-- **What is read from a whole text** is the one value that it writes, if that fits. -/
theorem read?_eq_some_iff {text : List UInt8} {json : Json} :
    read? text = some json ↔
      ∃ before bytes after, text = before ++ bytes ++ after ∧ Blanks before ∧
        ValueText bytes json ∧ Blanks after ∧ json.Fits Reader.maxNesting 0 := by
  have hreads : Reader.Reads (Reader.value Reader.maxNesting)
      (Reader.Fitting Reader.maxNesting 0) := Reader.value_reads (Nat.zero_add _)
  simp only [read?, Option.bind_eq_bind, Option.bind_eq_some_iff, Prod.exists]
  constructor
  · rintro ⟨found, after, hvalue, h⟩
    obtain ⟨before, bytes, rfl, hbefore, htext, hfits⟩ := hreads.sound hvalue
    split at h
    · next hend =>
        obtain rfl := Option.some.inj h
        have hafter := Reader.skipBlanks_eq_nil_iff.mp (List.isEmpty_iff.mp hend)
        exact ⟨before, bytes, after, rfl, hbefore, htext, hafter, hfits⟩
    · contradiction
  · rintro ⟨before, bytes, after, rfl, hbefore, htext, hafter, hfits⟩
    -- Behind the value only white space is left, so a number ends there.
    have hstops : Stops isNumberByte after := by
      intro b hb
      obtain ⟨tail, rfl⟩ := List.head?_eq_some_iff.mp hb
      exact isNumberByte_of_isBlank (blanks_cons.mp hafter).1
    refine ⟨json, after, hreads.complete hbefore ⟨htext, hfits⟩ hstops, ?_⟩
    rw [if_pos (List.isEmpty_iff.mpr (Reader.skipBlanks_eq_nil_iff.mpr hafter))]

end Json
end RequiredKeys
