import RequiredKeys.Proofs.Requirement.Names
import RequiredKeys.Proofs.Requirement.Verdict

/-!
# What a schema says

`Clause.Says schema clause` is the meaning of the keyword, with one rule for each form that a
clause can have.  The rules exclude one another: of the faults of a malformed clause, each rule
asks that those before it are not there.  So a schema says one thing, and
`Clause.ofSchema_exact` is that the clause read from a schema is the one that it says.

The fault of repeated names is described by their members and their order (`Repeats`), not by a
way to find them.
-/

namespace RequiredKeys

/-- `json` is an object whose member of the name `key` has this value.  If the key is repeated,
the last member counts. -/
def Json.HasMember (json : Json) (key : String) (value : Json) : Prop :=
  ∃ before after, json = .object (before ++ (key, value) :: after) ∧
    ∀ member ∈ after, member.1 ≠ key

/-- The names that occur more than once in a list, each once, in the order in which they first
occur. -/
structure Repeats (names repeats : List String) : Prop where
  mem_iff : ∀ name, name ∈ repeats ↔ 1 < names.count name
  inOrder : repeats.Pairwise (fun left right => names.idxOf left < names.idxOf right)

namespace Clause

/-- The kinds of the elements that are no strings, in order. -/
def otherKinds (elements : List Json) : List Json.Kind :=
  (elements.map Json.kind).filter (· ≠ .string)

/-- What a schema says under the keyword. -/
inductive Says (schema : Json) : Clause → Prop
  | absent (h : ∀ members, schema = .object members → keyword ∉ members.map Prod.fst) :
      Says schema .absent
  | notAnArray {value : Json} (h : schema.HasMember keyword value) (hkind : value.kind ≠ .array) :
      Says schema (.malformed (.notAnArray value.kind))
  | nonStringElements {elements : List Json} (h : schema.HasMember keyword (.array elements))
      (hkinds : otherKinds elements ≠ []) :
      Says schema (.malformed (.nonStringElements (otherKinds elements)))
  | duplicateNames {names repeats : List String}
      (h : schema.HasMember keyword (.array (names.map .string))) (hrepeats : Repeats names repeats)
      (hne : repeats ≠ []) : Says schema (.malformed (.duplicateNames repeats))
  | names {names : List String} (h : schema.HasMember keyword (.array (names.map .string)))
      (hnodup : names.Nodup) : Says schema (.names names)

end Clause

/-! ## Members -/

namespace Json

/-- Looking a key up from the end finds the last member. -/
theorem lookup_reverse_eq_some_iff {members : List (String × Json)} {key : String} {value : Json} :
    members.reverse.lookup key = some value ↔
      ∃ before after, members = before ++ (key, value) :: after ∧
        ∀ member ∈ after, member.1 ≠ key := by
  rw [List.lookup_eq_some_iff]
  constructor
  · rintro ⟨left, right, hreverse, hleft⟩
    refine ⟨right.reverse, left.reverse, ?_, ?_⟩
    · rw [← List.reverse_reverse members, hreverse]
      simp
    · intro member hmember
      have hne := hleft member (List.mem_reverse.mp hmember)
      exact (bne_iff_ne.mp hne).symm
  · rintro ⟨before, after, rfl, hafter⟩
    refine ⟨after.reverse, before.reverse, by simp, ?_⟩
    intro member hmember
    have hne := hafter member (List.mem_reverse.mp hmember)
    exact bne_iff_ne.mpr hne.symm

theorem member?_eq_some_iff {json value : Json} {key : String} :
    json.member? key = some value ↔ json.HasMember key value := by
  unfold HasMember
  cases json with
  | object members =>
      simp only [member?, Json.object.injEq]
      exact lookup_reverse_eq_some_iff
  | _ => simp [member?]

theorem member?_eq_none_iff {json : Json} {key : String} :
    json.member? key = none ↔ ∀ members, json = .object members → key ∉ members.map Prod.fst := by
  cases json with
  | object members =>
      have hkeys : (object members).member? key ≠ none ↔ key ∈ members.map Prod.fst := by
        rw [← isSome_member?_iff, Option.isSome_iff_ne_none]
      simp only [Json.object.injEq, forall_eq']
      rw [← hkeys, not_not]
  | _ => simp [member?]

end Json

/-! ## Repeated names -/

namespace Repeats

theorem unique {names left right : List String} (hleft : Repeats names left)
    (hright : Repeats names right) : left = right := by
  apply eq_of_increasing hleft.inOrder hright.inOrder
  intro name
  rw [hleft.mem_iff, hright.mem_iff]

theorem repeated (names : List String) : Repeats names (Clause.repeated names) where
  mem_iff := by
    intro name
    unfold Clause.repeated
    rw [List.mem_filter, List.mem_eraseDups, decide_eq_true_eq, and_iff_right_iff_imp]
    intro hcount
    exact List.count_pos_iff.mp (by omega)
  inOrder := (pairwise_idxOf_eraseDups names).filter _

theorem eq_nil_iff {names repeats : List String} (h : Repeats names repeats) :
    repeats = [] ↔ names.Nodup := by
  rw [List.eq_nil_iff_forall_not_mem, List.nodup_iff_count]
  apply forall_congr'
  intro name
  rw [h.mem_iff]
  omega

end Repeats

/-! ## Reading -/

namespace Clause

theorem map_kind_others (elements : List Json) :
    (elements.filter (fun element => element.string?.isNone)).map Json.kind =
      otherKinds elements := by
  unfold otherKinds
  rw [List.filter_map]
  congr 1
  apply List.filter_congr
  intro element _
  cases element <;> rfl

/-- Where every element is a string, the elements are those of a list of names. -/
theorem exists_names_of_otherKinds_eq_nil {elements : List Json} (h : otherKinds elements = []) :
    ∃ names : List String, elements = names.map .string := by
  induction elements with
  | nil => exact ⟨[], rfl⟩
  | cons element elements ih =>
      unfold otherKinds at h ih
      cases element with
      | string name =>
          obtain ⟨names, rfl⟩ := ih (by simpa [Json.kind] using h)
          exact ⟨name :: names, rfl⟩
      | _ => simp [Json.kind] at h

theorem filterMap_string?_map (names : List String) :
    (names.map Json.string).filterMap Json.string? = names := by
  rw [List.filterMap_map]
  exact List.filterMap_some

theorem ofElements_of_others {elements : List Json} (h : otherKinds elements ≠ []) :
    ofElements elements = .malformed (.nonStringElements (otherKinds elements)) := by
  unfold ofElements
  dsimp only
  rw [map_kind_others, if_pos]
  rw [← map_kind_others] at h
  simpa using h

/-- Names alone are refused for their repeats only. -/
theorem ofElements_map_string (names : List String) :
    ofElements (names.map .string) =
      if repeated names ≠ [] then .malformed (.duplicateNames (repeated names))
      else .names names := by
  have hothers : (names.map Json.string).filter (fun element => element.string?.isNone) = [] := by
    simp [List.filter_eq_nil_iff, Json.string?]
  unfold ofElements
  dsimp only
  rw [hothers, filterMap_string?_map]
  simp

/-- Every list of elements falls under one of the rules. -/
theorem says_ofElements {schema : Json} {elements : List Json}
    (h : schema.HasMember keyword (.array elements)) : Says schema (ofElements elements) := by
  by_cases hkinds : otherKinds elements = []
  · obtain ⟨names, rfl⟩ := exists_names_of_otherKinds_eq_nil hkinds
    rw [ofElements_map_string]
    split
    · next hne => exact .duplicateNames h (.repeated names) hne
    · next heq =>
        rw [not_not, (Repeats.repeated names).eq_nil_iff] at heq
        exact .names h heq
  · rw [ofElements_of_others hkinds]
    exact .nonStringElements h hkinds

theorem ofSchema_of_hasMember {schema value : Json} (h : schema.HasMember keyword value) :
    ofSchema schema = ofValue value := by
  unfold ofSchema
  rw [Json.member?_eq_some_iff.mpr h]

theorem ofValue_of_kind {value : Json} (h : value.kind ≠ .array) :
    ofValue value = .malformed (.notAnArray value.kind) := by
  cases value with
  | array elements => exact absurd rfl h
  | _ => rfl

theorem says_ofSchema (schema : Json) : Says schema (ofSchema schema) := by
  cases hmember : schema.member? keyword with
  | none =>
      have habsent : ofSchema schema = .absent := by
        unfold ofSchema
        rw [hmember]
      rw [habsent]
      exact .absent (Json.member?_eq_none_iff.mp hmember)
  | some value =>
      have h := Json.member?_eq_some_iff.mp hmember
      rw [ofSchema_of_hasMember h]
      by_cases hkind : value.kind = .array
      · obtain ⟨elements, rfl⟩ : ∃ elements, value = .array elements := by
          cases value with
          | array elements => exact ⟨elements, rfl⟩
          | _ => simp [Json.kind] at hkind
        exact says_ofElements h
      · rw [ofValue_of_kind hkind]
        exact .notAnArray h hkind

/-- What a schema says is what is read from it. -/
theorem Says.ofSchema_eq {schema : Json} {clause : Clause} (h : Says schema clause) :
    ofSchema schema = clause := by
  cases h with
  | absent h =>
      unfold ofSchema
      rw [Json.member?_eq_none_iff.mpr h]
  | notAnArray h hkind => rw [ofSchema_of_hasMember h, ofValue_of_kind hkind]
  | nonStringElements h hkinds =>
      rw [ofSchema_of_hasMember h]
      exact ofElements_of_others hkinds
  | @duplicateNames names repeats h hrepeats hne =>
      obtain rfl : repeats = repeated names := hrepeats.unique (.repeated names)
      rw [ofSchema_of_hasMember h]
      show ofElements (names.map .string) = _
      rw [ofElements_map_string, if_pos hne]
  | @names names h hnodup =>
      have hnil := (Repeats.repeated names).eq_nil_iff.mpr hnodup
      rw [ofSchema_of_hasMember h]
      show ofElements (names.map .string) = _
      rw [ofElements_map_string, if_neg (not_not.mpr hnil)]

/-- **Reading a clause is exact**: for every schema, what is read is what the schema says.  The
names of a well-formed clause are distinct, and they are outstanding in their order when a
validation starts; a malformed one starts none, and its fault is given back. -/
theorem ofSchema_exact (schema : Json) :
    (∀ clause, ofSchema schema = clause ↔ Says schema clause) ∧
      (∀ names, ofSchema schema = .names names →
        names.Nodup ∧ Outstanding.ofClause (ofSchema schema) = .ok ⟨names⟩) ∧
      ∀ error, ofSchema schema = .malformed error →
        Outstanding.ofClause (ofSchema schema) = .error error := by
  refine ⟨?_, ?_, ?_⟩
  · intro clause
    constructor
    · rintro rfl
      exact says_ofSchema schema
    · exact Says.ofSchema_eq
  · intro names h
    have hnames : (ofSchema schema).names? = .ok (some names) := by
      rw [h]
      rfl
    exact ⟨nodup_of_ofSchema h, (Outstanding.ofClause_ofSchema hnames).1⟩
  · intro error h
    rw [h]
    rfl

end Clause
end RequiredKeys
