import RequiredKeys.Proofs.Json.Grammar

/-!
# The keys of a value

`Json.keys` are the keys of a value at every depth, `Json.rootKeys` those of the value
itself.  The tokens of the value offer the first ones, and those of depth one, if the
value stands at the root, the second ones.
-/

namespace RequiredKeys
namespace Json

mutual

/-- The keys of every object inside a value, in the order in which they are written. -/
def keys : Json → List String
  | array elements => elementKeys elements
  | object members => memberKeys members
  | _ => []

def elementKeys : List Json → List String
  | [] => []
  | element :: elements => element.keys ++ elementKeys elements

def memberKeys : List (String × Json) → List String
  | [] => []
  | (name, value) :: members => name :: value.keys ++ memberKeys members

end

/-- The keys of a value that is an object. -/
def rootKeys : Json → List String
  | object members => members.map Prod.fst
  | _ => []

/-- An object has a member of a name if the name is one of its keys. -/
theorem isSome_member?_iff {members : List (String × Json)} {name : String} :
    ((object members).member? name).isSome = true ↔ name ∈ members.map Prod.fst := by
  rw [Option.isSome_iff_ne_none, ne_eq, member?, List.lookup_eq_none_iff]
  constructor
  · intro h
    by_cases hmem : name ∈ members.map Prod.fst
    · exact hmem
    · refine absurd ?_ h
      intro member hmember
      rw [bne_iff_ne]
      rintro rfl
      exact hmem (List.mem_map.mpr ⟨member, List.mem_reverse.mp hmember, rfl⟩)
  · -- The members are looked up from the last one on, which does not matter here.
    intro hmem h
    obtain ⟨member, hmember, rfl⟩ := List.mem_map.mp hmem
    have hne := h member (List.mem_reverse.mpr hmember)
    simp at hne

/-- A token offers a name if it is a key of that name. -/
theorem offeredName?_eq_some_iff {token : Token} {name : String} :
    token.offeredName? = some name ↔ token.kind = .fieldName ∧ token.text = some name := by
  obtain ⟨kind, text, depth⟩ := token
  cases kind <;> simp [Token.offeredName?]

/-- The names that tokens offer, in order. -/
def offeredNames (tokens : List Token) : List String :=
  tokens.filterMap Token.offeredName?

@[simp] theorem offeredNames_nil : offeredNames [] = [] := rfl

@[simp] theorem offeredNames_cons_start (container : Container) (depth : Nat)
    (tokens : List Token) :
    offeredNames (⟨.startOf container, none, depth⟩ :: tokens) = offeredNames tokens := rfl

@[simp] theorem offeredNames_cons_end (container : Container) (depth : Nat)
    (tokens : List Token) :
    offeredNames (⟨.endOf container, none, depth⟩ :: tokens) = offeredNames tokens := rfl

@[simp] theorem offeredNames_cons_key (name : String) (depth : Nat) (tokens : List Token) :
    offeredNames (⟨.fieldName, some name, depth⟩ :: tokens) = name :: offeredNames tokens := by
  simp [offeredNames, Token.offeredName?]

@[simp] theorem offeredNames_append (left right : List Token) :
    offeredNames (left ++ right) = offeredNames left ++ offeredNames right := by
  simp [offeredNames]

mutual

/-- The tokens of a value offer its keys. -/
theorem offeredNames_tokens (json : Json) (depth : Nat) :
    offeredNames (json.tokens depth) = json.keys := by
  cases json with
  | null => rfl
  | bool value => rfl
  | number text => rfl
  | string text => rfl
  | array elements =>
      have h := offeredNames_elementTokens elements (depth + 1)
      simp [tokens, keys, h]
  | object members =>
      have h := offeredNames_memberTokens members (depth + 1)
      simp [tokens, keys, h]

theorem offeredNames_elementTokens (elements : List Json) (depth : Nat) :
    offeredNames (elementTokens depth elements) = elementKeys elements := by
  cases elements with
  | nil => rfl
  | cons element elements =>
      have hfirst := offeredNames_tokens element depth
      have hrest := offeredNames_elementTokens elements depth
      simp [elementTokens, elementKeys, hfirst, hrest]

theorem offeredNames_memberTokens (members : List (String × Json)) (depth : Nat) :
    offeredNames (memberTokens depth members) = memberKeys members := by
  cases members with
  | nil => rfl
  | cons member members =>
      obtain ⟨name, value⟩ := member
      have hfirst := offeredNames_tokens value depth
      have hrest := offeredNames_memberTokens members depth
      simp [memberTokens, memberKeys, hfirst, hrest]

end

mutual

/-- The tokens of a value stand at its depth or deeper, and its keys stand deeper. -/
theorem depth_of_mem_tokens (json : Json) {depth : Nat} {token : Token}
    (hmem : token ∈ json.tokens depth) :
    depth ≤ token.depth ∧ (token.offeredName? ≠ none → depth < token.depth) := by
  -- Tokens of the value itself stand at its depth, and none of them is a key.
  have hbracket {kind : TokenKind} (htoken : token = ⟨kind, none, depth⟩)
      (hkind : (⟨kind, none, depth⟩ : Token).offeredName? = none) :
      depth ≤ token.depth ∧ (token.offeredName? ≠ none → depth < token.depth) := by
    subst htoken
    exact ⟨Nat.le_refl depth, fun hoffers => absurd hkind hoffers⟩
  cases json with
  | null => exact hbracket (List.mem_singleton.mp hmem) rfl
  | bool value => exact hbracket (List.mem_singleton.mp hmem) rfl
  | number text =>
      obtain rfl := List.mem_singleton.mp hmem
      exact ⟨Nat.le_refl depth, fun hoffers => absurd rfl hoffers⟩
  | string text =>
      obtain rfl := List.mem_singleton.mp hmem
      exact ⟨Nat.le_refl depth, fun hoffers => absurd rfl hoffers⟩
  | array elements =>
      simp only [tokens, List.cons_append, List.mem_cons, List.mem_append, List.not_mem_nil,
        or_false] at hmem
      rcases hmem with hstart | hinside | hend
      · exact hbracket hstart rfl
      · have hdepth := (depth_of_mem_elementTokens elements hinside).1
        exact ⟨by omega, fun _ => by omega⟩
      · exact hbracket hend rfl
  | object members =>
      simp only [tokens, List.cons_append, List.mem_cons, List.mem_append, List.not_mem_nil,
        or_false] at hmem
      rcases hmem with hstart | hinside | hend
      · exact hbracket hstart rfl
      · have hdepth := depth_of_mem_memberTokens members hinside
        exact ⟨by omega, fun _ => by omega⟩
      · exact hbracket hend rfl

theorem depth_of_mem_elementTokens (elements : List Json) {depth : Nat} {token : Token}
    (hmem : token ∈ elementTokens depth elements) :
    depth ≤ token.depth ∧ (token.offeredName? ≠ none → depth < token.depth) := by
  cases elements with
  | nil => simp [elementTokens] at hmem
  | cons element elements =>
      rcases List.mem_append.mp hmem with hfirst | hrest
      · exact depth_of_mem_tokens element hfirst
      · exact depth_of_mem_elementTokens elements hrest

theorem depth_of_mem_memberTokens (members : List (String × Json)) {depth : Nat} {token : Token}
    (hmem : token ∈ memberTokens depth members) : depth ≤ token.depth := by
  cases members with
  | nil => simp [memberTokens] at hmem
  | cons member members =>
      obtain ⟨name, value⟩ := member
      simp only [memberTokens, List.cons_append, List.mem_cons, List.mem_append] at hmem
      rcases hmem with rfl | hvalue | hrest
      · exact Nat.le_refl depth
      · exact (depth_of_mem_tokens value hvalue).1
      · exact depth_of_mem_memberTokens members hrest

end

/-- Tokens below a depth offer nothing at that depth. -/
theorem offeredNames_filter_depth_eq_nil {tokens : List Token} {depth : Nat}
    (h : ∀ token ∈ tokens, token.offeredName? ≠ none → depth < token.depth) :
    offeredNames (tokens.filter (·.depth == depth)) = [] := by
  rw [offeredNames, List.filterMap_eq_nil_iff]
  intro token htoken
  obtain ⟨hmem, hdepth⟩ := List.mem_filter.mp htoken
  rw [beq_iff_eq] at hdepth
  cases hoffers : token.offeredName? with
  | none => rfl
  | some name =>
      have hlt := h token hmem (by simp [hoffers])
      omega

theorem offeredNames_filter_memberTokens (members : List (String × Json)) (depth : Nat) :
    offeredNames ((memberTokens depth members).filter (·.depth == depth)) =
      members.map Prod.fst := by
  induction members with
  | nil => rfl
  | cons member members ih =>
      obtain ⟨name, value⟩ := member
      have hvalue : offeredNames ((value.tokens depth).filter (·.depth == depth)) = [] :=
        offeredNames_filter_depth_eq_nil (fun _ hmem => (depth_of_mem_tokens value hmem).2)
      simp [memberTokens, hvalue, ih]

/-- **At the root the keys of depth one are the keys of the value itself.** -/
theorem offeredNames_filter_tokens (json : Json) :
    offeredNames ((json.tokens 0).filter (·.depth == 1)) = json.rootKeys := by
  cases json with
  | null => rfl
  | bool value => rfl
  | number text => rfl
  | string text => rfl
  | array elements =>
      have hinside : offeredNames ((elementTokens 1 elements).filter (·.depth == 1)) = [] :=
        offeredNames_filter_depth_eq_nil (fun _ hmem => (depth_of_mem_elementTokens elements hmem).2)
      simpa [tokens, rootKeys] using hinside
  | object members =>
      have hinside := offeredNames_filter_memberTokens members 1
      simpa [tokens, rootKeys] using hinside

end Json
end RequiredKeys
