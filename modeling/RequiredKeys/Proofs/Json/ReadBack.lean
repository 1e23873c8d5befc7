import Mathlib.Data.List.TakeWhile
import RequiredKeys.Proofs.Json.ReaderValues
import RequiredKeys.Proofs.Json.Writer
import RequiredKeys.Schema.Load

/-!
# Reading what has been written

The reader takes the compact text of a value back to the same value (`read?_compact`), if the
value fits its limits.  A row of strings fits, whatever characters they hold.  A count fits if it
is below 2^64: its digits then go into the significand one after the other, and none is lost
(`addWhole_toDigits`).
-/

namespace RequiredKeys

/-! ## Counts -/

namespace Magnitude

theorem digitValue_digitChar : ∀ digit < 10, digitValue (Nat.digitChar digit) = digit := by
  decide

/-- The digits of a number below the capacity build up that number. -/
theorem addWhole_toDigits {n : Nat} (h : n < capacity) (more : List Char) :
    ({} : Magnitude).addWhole (Nat.toDigits 10 n ++ more) = addWhole ⟨n, 0⟩ more := by
  induction n using Nat.strongRecOn generalizing more with
  | ind n ih =>
      by_cases hsmall : n < 10
      · rw [Nat.toDigits_of_lt_base hsmall, List.singleton_append, addWhole]
        simp only [digitValue_digitChar n hsmall, Nat.zero_mul, Nat.zero_add, if_pos h]
      · -- The last digit is added to the number that the digits before it build up.
        have hlast := Nat.mod_lt n (show 10 > 0 by decide)
        have hnumber : n / 10 * 10 + n % 10 = n := by omega
        rw [Nat.toDigits_of_base_le (by decide) (by omega), List.append_assoc,
          ih (n / 10) (by omega) (by omega), List.singleton_append, addWhole]
        simp only [digitValue_digitChar _ hlast, hnumber, if_pos h]

theorem ofText_toString {n : Nat} (h : n < capacity) : ofText (toString n) = ⟨n, 0⟩ := by
  have hdigit (c : Char) (hc : c ∈ Nat.toDigits 10 n) : c.isDigit = true :=
    Nat.isDigit_of_mem_toDigits (by decide) (by decide) hc
  have hsign : (Nat.toDigits 10 n).dropWhile (· == '-') = Nat.toDigits 10 n := by
    rw [List.dropWhile_eq_self_iff]
    intro hlength hminus
    have hfirst := hdigit _ (List.getElem_mem hlength)
    rw [beq_iff_eq.mp hminus] at hfirst
    contradiction
  have hwhole : (Nat.toDigits 10 n).takeWhile Char.isDigit = Nat.toDigits 10 n :=
    List.takeWhile_eq_self_iff.mpr hdigit
  have hnone : (Nat.toDigits 10 n).dropWhile Char.isDigit = [] :=
    List.dropWhile_eq_nil_iff.mpr hdigit
  have hadd : ({} : Magnitude).addWhole (Nat.toDigits 10 n) = ⟨n, 0⟩ := by
    rw [← List.append_nil (Nat.toDigits 10 n), addWhole_toDigits h, addWhole]
  unfold ofText
  rw [Nat.toString_eq_ofList_toDigits, String.toList_ofList, hsign]
  simp only [hwhole, hnone, hadd]

/-- Rounding to a double at most doubles a number. -/
theorem toDouble_le {n : Nat} (h : n ≠ 0) : toDouble n ≤ 2 * n := by
  have hstep : Nat.pow 2 (n.log2 - 52) ≤ n :=
    Nat.le_trans (Nat.pow_le_pow_right (by decide) (Nat.sub_le _ _)) (Nat.log2_self_le h)
  have hlow := Nat.div_mul_le_self n (Nat.pow 2 (n.log2 - 52))
  have hup : (n / Nat.pow 2 (n.log2 - 52) + 1) * Nat.pow 2 (n.log2 - 52) ≤ 2 * n := by
    rw [Nat.add_mul, Nat.one_mul]
    omega
  unfold toDouble
  dsimp only
  split
  · omega
  · split
    · omega
    · exact hup

theorem two_mul_capacity_lt : 2 * capacity < overflowBound := by
  decide +kernel

/-- A count below the capacity is not too large. -/
theorem isFinite_ofText_toString {n : Nat} (h : n < capacity) :
    (ofText (toString n)).isFinite = true := by
  rw [ofText_toString h]
  by_cases hzero : n = 0
  · subst hzero
    rfl
  · have hbound := two_mul_capacity_lt
    have hdouble := toDouble_le hzero
    have hpower : toDouble (Nat.pow 10 0) = 1 := by decide
    unfold isFinite
    dsimp only
    rw [hpower, Nat.mul_one, Bool.or_eq_true, Bool.and_eq_true]
    exact .inr ⟨rfl, decide_eq_true (by omega)⟩

end Magnitude

namespace Json

/-! ## Limits -/

variable {limit depth : Nat}

/-- Strings of any characters fit wherever there is room for an array. -/
theorem fits_ofStrings_iff {strings : List String} :
    (ofStrings strings).Fits limit depth ↔ depth + 1 ≤ limit := by
  rw [ofStrings, fits_array_iff, and_iff_left_iff_imp]
  intro hroom element helement
  obtain ⟨text, -, rfl⟩ := List.mem_map.mp helement
  exact fits_string_iff.mpr hroom

theorem fits_ofNat_iff {n : Nat} (h : n < Magnitude.capacity) :
    (ofNat n).Fits limit depth ↔ depth ≤ limit := by
  rw [ofNat, fits_number_iff, and_iff_left (Magnitude.isFinite_ofText_toString h)]

/-! ## Texts -/

/-- **A value that has been written is read again**, also with white space behind it. -/
theorem read?_compact {json : Json} (hwritable : Writable json)
    (hfits : json.Fits Reader.maxNesting 0) {after : List UInt8} (hafter : Blanks after) :
    read? (encoded json.compact.toList ++ after) = some json :=
  read?_eq_some_iff.mpr ⟨[], encoded json.compact.toList, after, rfl, blanks_nil,
    valueText_compact hwritable, hafter, hfits⟩

end Json

/-- A schema is loaded from a file that holds its compact text. -/
theorem Disk.loadSchema_of_look {disk : Disk} {path : Path} {schema : Json} {after : List UInt8}
    (hwritable : Json.Writable schema) (hfits : schema.Fits Json.Reader.maxNesting 0)
    (hafter : Blanks after)
    (hlook : disk.look path = .ok (.file (encoded schema.compact.toList ++ after))) :
    disk.loadSchema path = .ok schema := by
  simp only [loadSchema, hlook, FileContent.read, Json.read?_compact hwritable hfits hafter]

end RequiredKeys
