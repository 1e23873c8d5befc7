import RequiredKeys.Proofs.Text.Encoding
import RequiredKeys.Schema.Registry

/-!
# The registry as a map

A registry is a list of entries, but what it says is a map from names to clauses, and this
module says how writing changes it.

* `get?_insert`: a name that is written gets its clause, and every other name keeps its own.
* `Ordered.insert`: writing keeps the names in the order of their bytes.
* `Settled` is where an entry stands once it has been written.  It stays there when other names
  are written, and writing it again changes nothing.

`writeAll` does all this for several names.  None of it but the order of the names needs the
registry to be in order.
-/

namespace RequiredKeys

/-! ## The order of texts -/

theorem utf8Before_iff {left right : String} :
    utf8Before left right = true ↔ encoded left.toList < encoded right.toList := by
  rw [utf8Before, decide_eq_true_eq, toList_toUTF8, toList_toUTF8]

theorem utf8Before_self (text : String) : utf8Before text text = false := by
  rw [Bool.eq_false_iff, ne_eq, utf8Before_iff]
  exact List.lt_irrefl _

theorem utf8Before_trans {left middle right : String} (hleft : utf8Before left middle = true)
    (hright : utf8Before middle right = true) : utf8Before left right = true := by
  rw [utf8Before_iff] at *
  exact List.lt_trans hleft hright

theorem utf8Before_asymm {left right : String} (h : utf8Before left right = true) :
    utf8Before right left = false := by
  rw [Bool.eq_false_iff, ne_eq, utf8Before_iff]
  exact List.lt_asymm (utf8Before_iff.mp h)

/-- Of two texts that differ, one comes first. -/
theorem utf8Before_of_ne {left right : String} (hne : left ≠ right)
    (h : utf8Before left right = false) : utf8Before right left = true := by
  rw [Bool.eq_false_iff, ne_eq, utf8Before_iff] at h
  rw [utf8Before_iff]
  obtain hlt | heq := List.le_iff_lt_or_eq.mp h
  · exact hlt
  · exact absurd (String.toList_injective (encoded_injective heq)).symm hne

namespace Registry

variable {registry : Registry} {name other : String} {clause : Clause}
  {entries front : List (String × Clause)}

/-! ## Writing one name -/

theorem lookup_cons_eq (entry : String × Clause) (rest : List (String × Clause))
    (other : String) :
    (entry :: rest).lookup other = if other = entry.1 then some entry.2 else rest.lookup other := by
  rw [List.lookup_cons]
  by_cases h : other = entry.1
  · simp [h]
  · rw [beq_eq_false_iff_ne.mpr h, if_neg h]

theorem lookup_insertEntry (name other : String) (clause : Clause)
    (entries : List (String × Clause)) :
    (insertEntry name clause entries).lookup other =
      if other = name then some clause else entries.lookup other := by
  induction entries with
  | nil => exact lookup_cons_eq (name, clause) [] other
  | cons entry rest ih =>
      rw [insertEntry]
      split
      · next hsame =>
          rw [lookup_cons_eq, lookup_cons_eq, ← hsame]
          split <;> rfl
      · next hne =>
          split
          · rw [lookup_cons_eq]
          · rw [lookup_cons_eq, lookup_cons_eq, ih]
            by_cases h : other = entry.1
            · have hother : ¬ other = name := fun hname => hne (hname.symm.trans h)
              rw [if_pos h, if_neg hother, if_pos h]
            · rw [if_neg h, if_neg h]

theorem get?_insert (registry : Registry) (name other : String) (clause : Clause) :
    (registry.insert name clause).get? other =
      if other = name then some clause else registry.get? other :=
  lookup_insertEntry name other clause registry.entries

theorem mem_map_insertEntry {entries : List (String × Clause)} :
    other ∈ (insertEntry name clause entries).map Prod.fst ↔
      other = name ∨ other ∈ entries.map Prod.fst := by
  induction entries with
  | nil => simp [insertEntry]
  | cons entry rest ih =>
      rw [insertEntry]
      split
      · next hsame => simp [hsame]
      · split
        · simp
        · rw [List.map_cons, List.mem_cons, ih, List.map_cons, List.mem_cons]
          exact or_left_comm

/-- The names of a registry stand in the order of their bytes, each once. -/
def Ordered (registry : Registry) : Prop :=
  registry.names.Pairwise (fun left right => utf8Before left right = true)

theorem Ordered.insert (h : registry.Ordered) (name : String) (clause : Clause) :
    (registry.insert name clause).Ordered := by
  obtain ⟨entries⟩ := registry
  unfold Ordered names at h ⊢
  show ((insertEntry name clause entries).map Prod.fst).Pairwise _
  induction entries with
  | nil => exact List.pairwise_singleton _ _
  | cons entry rest ih =>
      obtain ⟨hentry, hrest⟩ := List.pairwise_cons.mp h
      rw [insertEntry]
      split
      · next hsame =>
          rw [List.map_cons, hsame]
          exact h
      · next hne =>
          split
          · next hbefore =>
              refine List.pairwise_cons.mpr ⟨?_, h⟩
              intro later hlater
              obtain rfl | hlater := List.mem_cons.mp hlater
              · exact hbefore
              · exact utf8Before_trans hbefore (hentry later hlater)
          · next hbehind =>
              refine List.pairwise_cons.mpr ⟨?_, ih hrest⟩
              intro later hlater
              obtain rfl | hlater := mem_map_insertEntry.mp hlater
              · exact utf8Before_of_ne hne (Bool.eq_false_iff.mpr hbehind)
              · exact hentry later hlater

/-! ## Where an entry stands -/

/-- Everything in front of an entry comes before it. -/
def Settled (entries : List (String × Clause)) (name : String) (clause : Clause) : Prop :=
  ∃ front back, entries = front ++ (name, clause) :: back ∧
    ∀ entry ∈ front, utf8Before entry.1 name = true

/-- What comes before a name is passed over when the name is written. -/
theorem insertEntry_append (hfront : ∀ entry ∈ front, utf8Before entry.1 name = true) :
    insertEntry name clause (front ++ entries) = front ++ insertEntry name clause entries := by
  induction front with
  | nil => rfl
  | cons entry front ih =>
      obtain ⟨hentry, hfront⟩ := List.forall_mem_cons.mp hfront
      have hne : name ≠ entry.1 := by
        rintro rfl
        rw [utf8Before_self] at hentry
        contradiction
      have hbehind : ¬ utf8Before name entry.1 = true := by
        rw [utf8Before_asymm hentry]
        exact Bool.false_ne_true
      rw [List.cons_append, insertEntry, if_neg hne, if_neg hbehind, ih hfront, List.cons_append]

theorem settled_insertEntry (name : String) (clause : Clause) (entries : List (String × Clause)) :
    Settled (insertEntry name clause entries) name clause := by
  induction entries with
  | nil => exact ⟨[], [], rfl, by simp⟩
  | cons entry rest ih =>
      rw [insertEntry]
      split
      · exact ⟨[], rest, rfl, by simp⟩
      · next hne =>
          split
          · exact ⟨[], entry :: rest, rfl, by simp⟩
          · next hbehind =>
              obtain ⟨front, back, hsplit, hfront⟩ := ih
              refine ⟨entry :: front, back, by rw [hsplit]; rfl, ?_⟩
              rw [List.forall_mem_cons]
              exact ⟨utf8Before_of_ne hne (Bool.eq_false_iff.mpr hbehind), hfront⟩

namespace Settled

/-- Writing an entry again where it stands changes nothing. -/
theorem insertEntry_eq (h : Settled entries name clause) :
    insertEntry name clause entries = entries := by
  obtain ⟨front, back, rfl, hfront⟩ := h
  rw [insertEntry_append hfront, insertEntry, if_pos rfl]

theorem lookup_eq (h : Settled entries name clause) : entries.lookup name = some clause := by
  rw [← h.insertEntry_eq, lookup_insertEntry, if_pos rfl]

/-- An entry keeps its standing when another name is written. -/
theorem insertEntry_of_ne {added : Clause} (h : Settled entries name clause)
    (hne : other ≠ name) : Settled (insertEntry other added entries) name clause := by
  obtain ⟨front, back, rfl, hfront⟩ := h
  induction front with
  | nil =>
      rw [List.nil_append, insertEntry, if_neg hne]
      split
      · next hbefore => exact ⟨[(other, added)], back, rfl, by simpa using hbefore⟩
      · exact ⟨[], insertEntry other added back, rfl, by simp⟩
  | cons entry front ih =>
      obtain ⟨hentry, hfront⟩ := List.forall_mem_cons.mp hfront
      rw [List.cons_append, insertEntry]
      split
      · next hsame =>
          refine ⟨(other, added) :: front, back, rfl, ?_⟩
          rw [List.forall_mem_cons]
          exact ⟨by rw [hsame]; exact hentry, hfront⟩
      · split
        · next hbefore =>
            refine ⟨(other, added) :: entry :: front, back, rfl, ?_⟩
            rw [List.forall_mem_cons, List.forall_mem_cons]
            exact ⟨utf8Before_trans hbefore hentry, hentry, hfront⟩
        · obtain ⟨before, behind, hsplit, hbefore⟩ := ih hfront
          refine ⟨entry :: before, behind, by rw [hsplit]; rfl, ?_⟩
          rw [List.forall_mem_cons]
          exact ⟨hentry, hbefore⟩

end Settled

/-! ## Writing several names -/

/-- Writes clauses under their names, one after the other. -/
def writeAll (registry : Registry) (written : List (String × Clause)) : Registry :=
  written.foldl (fun registry entry => registry.insert entry.1 entry.2) registry

@[simp] theorem writeAll_nil (registry : Registry) : registry.writeAll [] = registry := rfl

@[simp] theorem writeAll_cons (registry : Registry) (entry : String × Clause)
    (written : List (String × Clause)) :
    registry.writeAll (entry :: written) = (registry.insert entry.1 entry.2).writeAll written := rfl

variable {written : List (String × Clause)}

theorem Ordered.writeAll (h : registry.Ordered) (written : List (String × Clause)) :
    (registry.writeAll written).Ordered := by
  induction written generalizing registry with
  | nil => exact h
  | cons entry written ih => exact ih (h.insert entry.1 entry.2)

theorem get?_writeAll_of_not_mem (h : name ∉ written.map Prod.fst) :
    (registry.writeAll written).get? name = registry.get? name := by
  induction written generalizing registry with
  | nil => rfl
  | cons entry written ih =>
      obtain ⟨hne, hwritten⟩ := not_or.mp (mt List.mem_cons.mpr h)
      rw [writeAll_cons, ih hwritten, get?_insert, if_neg hne]

theorem Settled.writeAll (h : Settled registry.entries name clause)
    (hname : name ∉ written.map Prod.fst) :
    Settled (registry.writeAll written).entries name clause := by
  induction written generalizing registry with
  | nil => exact h
  | cons entry written ih =>
      obtain ⟨hne, hwritten⟩ := not_or.mp (mt List.mem_cons.mpr hname)
      exact ih (h.insertEntry_of_ne (Ne.symm hne)) hwritten

/-- A name that is always written with the same clause stands where it has been written. -/
theorem settled_writeAll (hsame : ∀ found, (name, found) ∈ written → found = clause)
    (hmem : (name, clause) ∈ written) :
    Settled (registry.writeAll written).entries name clause := by
  induction written generalizing registry with
  | nil => simp at hmem
  | cons entry written ih =>
      by_cases hagain : name ∈ written.map Prod.fst
      · -- The name is written once more further behind, with the same clause.
        obtain ⟨⟨key, found⟩, hfound, rfl⟩ := List.mem_map.mp hagain
        obtain rfl := hsame found (List.mem_cons_of_mem _ hfound)
        refine ih ?_ hfound
        intro other hother
        exact hsame other (List.mem_cons_of_mem _ hother)
      · obtain rfl | hmem := List.mem_cons.mp hmem
        · have hsettled : Settled (registry.insert name clause).entries name clause :=
            settled_insertEntry name clause registry.entries
          exact hsettled.writeAll hagain
        · exact absurd (List.mem_map_of_mem hmem) hagain

/-- Writing entries again where they stand changes nothing. -/
theorem writeAll_eq_self (h : ∀ entry ∈ written, Settled registry.entries entry.1 entry.2) :
    registry.writeAll written = registry := by
  induction written with
  | nil => rfl
  | cons entry written ih =>
      obtain ⟨hentry, hwritten⟩ := List.forall_mem_cons.mp h
      have hsame : registry.insert entry.1 entry.2 = registry :=
        congrArg Registry.mk hentry.insertEntry_eq
      rw [writeAll_cons, hsame, ih hwritten]

end Registry
end RequiredKeys
