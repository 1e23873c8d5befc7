import Mathlib.Data.List.Basic
import Mathlib.Data.List.Induction

/-!
# Lists of names

A schema may list a name twice, and so may a caller.  What counts is where a name stands
for the first time: `firstOccurrences` says it by places, and `eraseDups_eq_firstOccurrences`
that dropping the later copies comes to the same.

Both grow with the list at its end (`eraseDups_concat`, `firstOccurrences_concat`), so the
proofs go along the list from its end; `firstOccurrences_cons` follows, for those that start at
its front.  `eq_of_increasing` is how a list is told from its members and the order of their
places.
-/

namespace RequiredKeys

/-- The names of a list at the places where they stand for the first time. -/
def firstOccurrences (names : List String) : List String :=
  (names.zipIdx.filter (fun (name, place) => name ∉ names.take place)).map Prod.fst

/-- One name more at the end is a first occurrence, or it is dropped. -/
theorem firstOccurrences_concat (names : List String) (name : String) :
    firstOccurrences (names ++ [name]) =
      firstOccurrences names ++ if name ∈ names then [] else [name] := by
  -- The places in front do not see the new name.
  have hfront : names.zipIdx.filter (fun (other, place) => other ∉ (names ++ [name]).take place) =
      names.zipIdx.filter (fun (other, place) => other ∉ names.take place) := by
    apply List.filter_congr
    rintro ⟨other, place⟩ hmem
    have hplace : place < names.length := (List.mem_zipIdx' hmem).1
    dsimp only
    rw [List.take_append_of_le_length (by omega)]
  unfold firstOccurrences
  rw [List.zipIdx_append, List.filter_append, hfront, List.map_append, Nat.zero_add]
  by_cases hname : name ∈ names <;> simp [hname]

/-- Dropping copies treats a name at the end in the same way. -/
theorem eraseDups_concat (names : List String) (name : String) :
    (names ++ [name]).eraseDups = names.eraseDups ++ if name ∈ names then [] else [name] := by
  rw [List.eraseDups_append]
  by_cases hname : name ∈ names <;> simp [hname, List.removeAll, List.eraseDups_cons]

theorem eraseDups_eq_firstOccurrences (names : List String) :
    names.eraseDups = firstOccurrences names := by
  induction names using List.reverseRecOn with
  | nil => rfl
  | append_singleton front name ih =>
      rw [eraseDups_concat, firstOccurrences_concat, ih]

/-- Copies may be dropped before or after a choice among the names. -/
theorem firstOccurrences_filter (names : List String) (keeps : String → Bool) :
    firstOccurrences (names.filter keeps) = (firstOccurrences names).filter keeps := by
  induction names using List.reverseRecOn with
  | nil => rfl
  | append_singleton front name ih =>
      rw [List.filter_append, firstOccurrences_concat, List.filter_append, ← ih]
      by_cases hkeeps : keeps name = true
      · rw [List.filter_cons_of_pos hkeeps, List.filter_nil, firstOccurrences_concat]
        by_cases hname : name ∈ front <;> simp [hname, hkeeps]
      · by_cases hname : name ∈ front <;> simp [hname, hkeeps]

/-- A name in front is the first of its copies. -/
theorem firstOccurrences_cons (name : String) (names : List String) :
    firstOccurrences (name :: names) =
      name :: (firstOccurrences names).filter (fun other => !other == name) := by
  rw [← firstOccurrences_filter, ← eraseDups_eq_firstOccurrences,
    ← eraseDups_eq_firstOccurrences, List.eraseDups_cons]

/-- What is left without copies stands in the order of the first places. -/
theorem pairwise_idxOf_eraseDups (names : List String) :
    names.eraseDups.Pairwise (fun left right => names.idxOf left < names.idxOf right) := by
  induction names using List.reverseRecOn with
  | nil => exact List.Pairwise.nil
  | append_singleton front name ih =>
      -- A name in front keeps its place.
      have hplace (other : String) (hother : other ∈ front.eraseDups) :
          (front ++ [name]).idxOf other = front.idxOf other :=
        List.idxOf_append_of_mem (List.mem_eraseDups.mp hother)
      rw [eraseDups_concat, List.pairwise_append]
      refine ⟨?_, ?_, ?_⟩
      · refine ih.imp_of_mem ?_
        intro left right hleft hright hlt
        rwa [hplace left hleft, hplace right hright]
      · split
        · exact List.Pairwise.nil
        · exact List.pairwise_singleton _ _
      · intro left hleft right hright
        split at hright
        · simp at hright
        · next hnew =>
            obtain rfl := List.mem_singleton.mp hright
            have hlt := List.idxOf_lt_length_of_mem (List.mem_eraseDups.mp hleft)
            rw [hplace left hleft, List.idxOf_append_of_notMem hnew]
            omega

theorem nodup_eraseDups (names : List String) : names.eraseDups.Nodup := by
  refine (pairwise_idxOf_eraseDups names).imp ?_
  rintro left right hlt rfl
  exact absurd hlt (Nat.lt_irrefl _)

/-- Two lists with the same members, both in the order of the same places, are the same. -/
theorem eq_of_increasing {place : String → Nat} {left right : List String}
    (hleft : left.Pairwise (fun a b => place a < place b))
    (hright : right.Pairwise (fun a b => place a < place b))
    (hmem : ∀ name, name ∈ left ↔ name ∈ right) : left = right := by
  have hnodup {names : List String} (h : names.Pairwise (fun a b => place a < place b)) :
      names.Nodup := by
    refine h.imp ?_
    rintro a b hlt rfl
    exact absurd hlt (Nat.lt_irrefl _)
  have hperm : left.Perm right :=
    (List.perm_ext_iff_of_nodup (hnodup hleft) (hnodup hright)).mpr hmem
  refine List.Perm.eq_of_pairwise ?_ hleft hright hperm
  intro a b _ _ hab hba
  omega

end RequiredKeys
