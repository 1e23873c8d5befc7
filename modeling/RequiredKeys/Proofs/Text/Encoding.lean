/-!
# UTF-8 as lists of bytes

Documents are lists of bytes, texts are lists of characters, and `encoded` leads
from the second to the first.  The first byte of a character's encoding begins
characters and the others do not, so an encoding says where its characters begin.
-/

namespace RequiredKeys

/-- The UTF-8 form of some characters. -/
def encoded (chars : List Char) : List UInt8 :=
  chars.flatMap String.utf8EncodeChar

@[simp] theorem encoded_nil : encoded [] = [] := rfl

@[simp] theorem encoded_cons (c : Char) (chars : List Char) :
    encoded (c :: chars) = String.utf8EncodeChar c ++ encoded chars := rfl

@[simp] theorem encoded_append (left right : List Char) :
    encoded (left ++ right) = encoded left ++ encoded right :=
  List.flatMap_append

/-- A text is kept as its UTF-8 form. -/
theorem toByteArray_eq_encoded (text : String) :
    text.toByteArray = (encoded text.toList).toByteArray :=
  calc text.toByteArray = (String.ofList text.toList).toByteArray := by
        rw [String.ofList_toList]
    _ = (encoded text.toList).toByteArray := String.toByteArray_ofList

/-- Bytes are the UTF-8 form of a text exactly if they decode to it. -/
theorem fromUTF8?_eq_some_iff {bytes : List UInt8} {text : String} :
    String.fromUTF8? bytes.toByteArray = some text ↔ bytes = encoded text.toList := by
  have htext := toByteArray_eq_encoded text
  unfold String.fromUTF8?
  constructor
  · intro h
    split at h
    · simp only [Option.some.injEq] at h
      have hbytes : bytes.toByteArray = (encoded text.toList).toByteArray := by
        rw [← htext, ← h]
        rfl
      exact List.toByteArray_inj.mp hbytes
    · simp at h
  · rintro rfl
    have hvalid : (encoded text.toList).toByteArray.IsValidUTF8 := by
      rw [← htext]
      exact text.isValidUTF8
    rw [dif_pos hvalid, Option.some.injEq, ← String.toByteArray_inj, htext]
    rfl

/-- Reading an array of bytes from a place on goes to its end. -/
theorem toListLoop_eq (bytes : ByteArray) (place : Nat) (read : List UInt8) :
    ByteArray.toList.loop bytes place read = read.reverse ++ bytes.data.toList.drop place := by
  have hsize : bytes.data.toList.length = bytes.size := Array.length_toList
  induction h : bytes.size - place generalizing place read with
  | zero =>
      rw [ByteArray.toList.loop, if_neg (by omega), List.drop_of_length_le (by omega),
        List.append_nil]
  | succ left ih =>
      have hplace : place < bytes.data.toList.length := by omega
      have hget : bytes.get! place = bytes.data.toList[place] := by
        show bytes.data[place]! = _
        rw [getElem!_pos bytes.data place hplace, Array.getElem_toList]
      rw [ByteArray.toList.loop, if_pos (by omega), ih (place + 1) _ (by omega),
        List.drop_eq_getElem_cons hplace, List.reverse_cons, List.append_assoc, hget]
      rfl

theorem toList_toUTF8 (text : String) : text.toUTF8.toList = encoded text.toList := by
  rw [String.toUTF8, toByteArray_eq_encoded, ByteArray.toList, toListLoop_eq,
    List.data_toByteArray]
  rfl

theorem encoded_injective {left right : List Char} (h : encoded left = encoded right) :
    left = right := by
  have hbytes : (String.ofList left).toByteArray = (String.ofList right).toByteArray := by
    rw [String.toByteArray_ofList, String.toByteArray_ofList]
    exact congrArg List.toByteArray h
  exact String.ofList_injective (String.toByteArray_inj.mp hbytes)

/-- The first character of an encoding can be read off it. -/
theorem utf8EncodeChar_append_inj {c d : Char} {left right : List UInt8}
    (h : String.utf8EncodeChar c ++ left = String.utf8EncodeChar d ++ right) :
    c = d ∧ left = right := by
  have hdecode (e : Char) (bytes : List UInt8) :
      ByteArray.utf8DecodeChar? (String.utf8EncodeChar e ++ bytes).toByteArray 0 = some e := by
    rw [List.toByteArray_append]
    exact ByteArray.utf8DecodeChar?_utf8EncodeChar_append
  have hsame : some c = some d := by
    rw [← hdecode c left, ← hdecode d right, h]
  obtain rfl : c = d := Option.some.inj hsame
  exact ⟨rfl, List.append_cancel_left h⟩

/-- Only the first byte of a character's encoding begins a character. -/
theorem exists_utf8EncodeChar_eq_cons (c : Char) :
    ∃ first tail, String.utf8EncodeChar c = first :: tail ∧ first.IsUTF8FirstByte ∧
      ∀ b ∈ tail, ¬ b.IsUTF8FirstByte := by
  cases h : String.utf8EncodeChar c with
  | nil => exact absurd h String.utf8EncodeChar_ne_nil
  | cons first tail =>
      have hbyte (i : Nat) (hi : i < (String.utf8EncodeChar c).length) :
          ((String.utf8EncodeChar c)[i]).IsUTF8FirstByte ↔ i = 0 :=
        UInt8.isUTF8FirstByte_getElem_utf8EncodeChar
      simp only [h] at hbyte
      refine ⟨first, tail, rfl, (hbyte 0 (by simp)).mpr rfl, ?_⟩
      intro b hb hfirst
      obtain ⟨i, hi, rfl⟩ := List.getElem_of_mem hb
      have hzero := (hbyte (i + 1) (by simp; omega)).mp (by simpa using hfirst)
      omega

/-- An encoding may be cut where a character begins. -/
theorem exists_encoded_of_append {chars : List Char} {left right : List UInt8}
    (h : encoded chars = left ++ right) (hright : ∀ b ∈ right.head?, b.IsUTF8FirstByte) :
    ∃ before behind, left = encoded before ∧ right = encoded behind ∧
      chars = before ++ behind := by
  induction chars generalizing left with
  | nil =>
      obtain ⟨rfl, rfl⟩ := List.append_eq_nil_iff.mp h.symm
      exact ⟨[], [], rfl, rfl, rfl⟩
  | cons c chars ih =>
      cases left with
      | nil => exact ⟨[], c :: chars, rfl, h.symm, rfl⟩
      | cons b left =>
          obtain ⟨first, tail, hencoded, -, htail⟩ := exists_utf8EncodeChar_eq_cons c
          rw [encoded_cons, hencoded, List.cons_append, List.cons_append, List.cons.injEq] at h
          obtain ⟨rfl, hbytes⟩ := h
          obtain ⟨more, rfl, hrest⟩ | ⟨more, rfl, hcut⟩ := List.append_eq_append_iff.mp hbytes
          · obtain ⟨before, behind, rfl, hbehind, rfl⟩ := ih hrest
            refine ⟨c :: before, behind, ?_, hbehind, rfl⟩
            rw [encoded_cons, hencoded, List.cons_append]
          · cases more with
            | nil =>
                refine ⟨[c], chars, ?_, hcut, rfl⟩
                simp [hencoded]
            | cons d more =>
                -- The cut would be inside of the character.
                have hd : d ∈ right.head? := by simp [hcut]
                exact absurd (hright d hd) (htail d (by simp))

/-- A byte below U+0080 is the encoding of its character. -/
theorem utf8EncodeChar_ofUInt8 {b : UInt8} (h : b.toNat < 0x80) :
    String.utf8EncodeChar (Char.ofUInt8 b) = [b] := by
  have hval : (Char.ofUInt8 b).val.toNat = b.toNat := rfl
  unfold String.utf8EncodeChar
  simp only [hval]
  rw [if_pos (by omega)]
  simp

/-- ASCII is its own encoding. -/
theorem encoded_map_ofUInt8 {bytes : List UInt8} (h : ∀ b ∈ bytes, b.toNat < 0x80) :
    encoded (bytes.map Char.ofUInt8) = bytes := by
  induction bytes with
  | nil => rfl
  | cons b bytes ih =>
      obtain ⟨hb, hbytes⟩ := List.forall_mem_cons.mp h
      rw [List.map_cons, encoded_cons, ih hbytes, utf8EncodeChar_ofUInt8 hb]
      rfl

/-- A character below U+0100 is told by a byte. -/
theorem ofUInt8_toUInt8 {c : Char} (h : c.toNat < 0x100) : Char.ofUInt8 c.toNat.toUInt8 = c := by
  apply Char.toNat_inj.mp
  have hbyte : c.toNat.toUInt8.toNat = c.toNat := by
    simp
    omega
  exact hbyte

/-- A character below U+0080 is its own encoding; in every other encoding all
bytes are 0x80 or more. -/
theorem mem_utf8EncodeChar {c : Char} {b : UInt8} (h : b ∈ String.utf8EncodeChar c) :
    (b.toNat = c.toNat ∧ String.utf8EncodeChar c = [b]) ∨
      (0x80 ≤ c.toNat ∧ 0x80 ≤ b.toNat) := by
  have hval : c.val.toNat = c.toNat := rfl
  have hmod (n : Nat) : n.toUInt8.toNat = n % 256 := by simp
  unfold String.utf8EncodeChar at h ⊢
  simp only [hval] at h ⊢
  split at h
  · next hsmall =>
      simp only [List.mem_singleton] at h
      subst h
      rw [if_pos hsmall]
      exact .inl ⟨by rw [hmod]; omega, rfl⟩
  · refine .inr ⟨by omega, ?_⟩
    split at h
    · simp only [List.mem_cons, List.not_mem_nil, or_false] at h
      rcases h with rfl | rfl <;> rw [hmod] <;> omega
    · split at h
      · simp only [List.mem_cons, List.not_mem_nil, or_false] at h
        rcases h with rfl | rfl | rfl <;> rw [hmod] <;> omega
      · simp only [List.mem_cons, List.not_mem_nil, or_false] at h
        rcases h with rfl | rfl | rfl | rfl <;> rw [hmod] <;> omega

end RequiredKeys
