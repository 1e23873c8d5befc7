import RequiredKeys.Proofs.Input.Scanning
import Mathlib.Data.List.Perm.Subperm

/-!
# Where reads fail

`Feed.FailsAt` is the offset of a failure, told from a feed alone: the number of bytes in front
of it.  In a document that is woven with failures these are the offsets that the failures were
given (`Feed.exists_of_failsAt_weave`), and the bytes in front of all of them come as from a
reader that never fails (`Feed.weave_append`).  No failure is raised twice
(`Feed.failures_ofDocument_subperm`), so a feed is no longer than the document and its failures
together.
-/

namespace RequiredKeys
namespace Feed

/-- A read fails in front of the byte at the given offset, or in front of the end. -/
def FailsAt (feed : Feed) (offset : Nat) : Prop :=
  ∃ (before : Feed) (reason : String) (after : Feed),
    feed = before ++ .failure reason :: after ∧ before.bytes.length = offset

theorem failsAt_head (reason : String) (feed : Feed) : FailsAt (.failure reason :: feed) 0 :=
  ⟨[], reason, feed, rfl, rfl⟩

theorem failsAt_append_iff {left right : Feed} {offset : Nat} :
    FailsAt (left ++ right) offset ↔
      left.FailsAt offset ∨
        ∃ behind, offset = left.bytes.length + behind ∧ right.FailsAt behind := by
  constructor
  · rintro ⟨before, reason, after, hfeed, rfl⟩
    obtain ⟨middle, rfl, hright⟩ | ⟨middle, hleft, hafter⟩ := List.append_eq_append_iff.mp hfeed
    · refine .inr ⟨(bytes middle).length, ?_, middle, reason, after, hright, rfl⟩
      rw [bytes_append, List.length_append]
    · cases middle with
      | nil =>
          rw [List.append_nil] at hleft
          subst hleft
          rw [List.nil_append] at hafter
          exact .inr ⟨0, rfl, hafter ▸ failsAt_head reason after⟩
      | cons delivery middle =>
          obtain ⟨rfl, -⟩ := List.cons.inj hafter
          exact .inl ⟨before, reason, middle, hleft, rfl⟩
  · rintro (⟨before, reason, after, rfl, rfl⟩ | ⟨_, rfl, before, reason, after, rfl, rfl⟩)
    · exact ⟨before, reason, after ++ right, by simp, rfl⟩
    · refine ⟨left ++ before, reason, after, by simp, ?_⟩
      rw [bytes_append, List.length_append]

/-- A failure that is used up moves none behind it. -/
theorem FailsAt.failure {feed : Feed} {offset : Nat} (h : feed.FailsAt offset) (reason : String) :
    FailsAt (.failure reason :: feed) offset := by
  rw [← List.singleton_append, failsAt_append_iff]
  exact .inr ⟨offset, (Nat.zero_add offset).symm, h⟩

/-- A byte that is delivered moves every failure behind it. -/
theorem failsAt_byte_iff {b : UInt8} {feed : Feed} {offset : Nat} :
    FailsAt (.byte b :: feed) offset ↔ ∃ behind, offset = behind + 1 ∧ feed.FailsAt behind := by
  have hbyte : ¬ FailsAt [.byte b] offset := by
    rintro ⟨before, reason, after, hfeed, -⟩
    have hmem : Delivery.failure reason ∈ [Delivery.byte b] := by
      rw [hfeed]
      exact List.mem_append_right before List.mem_cons_self
    simp at hmem
  rw [← List.singleton_append, failsAt_append_iff, or_iff_right hbyte]
  simp [Nat.add_comm]

theorem not_failsAt_byte_zero {b : UInt8} {feed : Feed} : ¬ FailsAt (.byte b :: feed) 0 := by
  intro h
  obtain ⟨_, hzero, -⟩ := failsAt_byte_iff.mp h
  omega

/-- Where bytes are woven with failures, reads fail at the offsets of these. -/
theorem exists_of_failsAt_weave {list : List ReadFailure} {start offset : Nat}
    {document : List UInt8} (h : (weave list start document).FailsAt offset) :
    ∃ failure ∈ list, failure.offset = start + offset := by
  -- The failures of one byte are all in front of it.
  have hhere {start offset : Nat} (h : (failuresAt list start).FailsAt offset) :
      ∃ failure ∈ list, failure.offset = start + offset := by
    obtain ⟨before, reason, after, hfeed, rfl⟩ := h
    have hbytes := bytes_failuresAt list start
    rw [hfeed, bytes_append, List.append_eq_nil_iff] at hbytes
    have hmem : Delivery.failure reason ∈ failuresAt list start := by
      rw [hfeed]
      exact List.mem_append_right before List.mem_cons_self
    obtain ⟨failure, hfailure, -⟩ := List.mem_map.mp hmem
    rw [List.mem_filter, beq_iff_eq] at hfailure
    exact ⟨failure, hfailure.1, by rw [hfailure.2, hbytes.1]; rfl⟩
  induction document generalizing start offset with
  | nil => exact hhere h
  | cons b document ih =>
      obtain hfirst | ⟨behind, rfl, hbehind⟩ := failsAt_append_iff.mp h
      · exact hhere hfirst
      · obtain ⟨later, rfl, hlater⟩ := failsAt_byte_iff.mp hbehind
        obtain ⟨failure, hmem, hoffset⟩ := ih hlater
        refine ⟨failure, hmem, ?_⟩
        rw [hoffset, bytes_failuresAt, List.length_nil]
        omega

/-- Bytes among which no read fails come first. -/
theorem eq_ofBytes_append {feed : Feed} {left right : List UInt8}
    (hbytes : feed.bytes = left ++ right)
    (hfails : ∀ offset, feed.FailsAt offset → left.length ≤ offset) :
    ∃ rest, feed = ofBytes left ++ rest ∧ rest.bytes = right := by
  induction left generalizing feed with
  | nil => exact ⟨feed, rfl, hbytes⟩
  | cons b left ih =>
      cases feed with
      | nil => simp at hbytes
      | cons delivery feed =>
          cases delivery with
          | failure reason =>
              have hlength := hfails 0 (failsAt_head reason feed)
              simp at hlength
          | byte c =>
              obtain ⟨rfl, htail⟩ : c = b ∧ bytes feed = left ++ right := by simpa using hbytes
              obtain ⟨rest, rfl, hrest⟩ := ih htail (by
                intro offset hoffset
                have hlength := hfails _ (failsAt_byte_iff.mpr ⟨offset, rfl, hoffset⟩)
                rw [List.length_cons] at hlength
                omega)
              exact ⟨rest, rfl, hrest⟩

/-! ## Documents that fail late -/

/-- A failure at another offset is not raised there. -/
theorem failuresAt_eq_nil {list : List ReadFailure} {offset : Nat}
    (h : ∀ failure ∈ list, failure.offset ≠ offset) : failuresAt list offset = [] := by
  unfold failuresAt
  rw [List.map_eq_nil_iff, List.filter_eq_nil_iff]
  intro failure hmem
  simpa using h failure hmem

/-- Bytes in front of every failure are delivered as if no read ever failed. -/
theorem weave_append {list : List ReadFailure} {offset : Nat} {left : List UInt8}
    (h : ∀ failure ∈ list, offset + left.length ≤ failure.offset) (right : List UInt8) :
    weave list offset (left ++ right) =
      ofBytes left ++ weave list (offset + left.length) right := by
  induction left generalizing offset with
  | nil => rfl
  | cons b left ih =>
      have hfirst : failuresAt list offset = [] := by
        apply failuresAt_eq_nil
        intro failure hmem
        have hoffset := h failure hmem
        rw [List.length_cons] at hoffset
        omega
      have hlength : offset + 1 + left.length = offset + (left.length + 1) := by omega
      rw [List.length_cons, ← hlength] at h
      rw [List.cons_append, weave, hfirst, ih h, List.length_cons, hlength]
      rfl

/-! ## One failure -/

/-- Failures that have been raised are raised no more. -/
theorem weave_of_past {list : List ReadFailure} {offset : Nat}
    (h : ∀ failure ∈ list, failure.offset < offset) (document : List UInt8) :
    weave list offset document = ofBytes document := by
  induction document generalizing offset with
  | nil => exact failuresAt_eq_nil (fun failure hmem => Nat.ne_of_lt (h failure hmem))
  | cons b document ih =>
      have hfirst : failuresAt list offset = [] :=
        failuresAt_eq_nil (fun failure hmem => Nat.ne_of_lt (h failure hmem))
      have hlater (failure : ReadFailure) (hmem : failure ∈ list) : failure.offset < offset + 1 :=
        Nat.lt_succ_of_lt (h failure hmem)
      rw [weave, hfirst, ih hlater]
      rfl

/-- A document with one failure is delivered up to there, and then the rest of it. -/
theorem ofDocument_singleton {document : List UInt8} {failure : ReadFailure}
    (hoffset : failure.offset ≤ document.length) (hsilent : failure.isSilent = false) :
    ofDocument document [failure] = ofBytes (document.take failure.offset) ++
      .failure failure.reason :: ofBytes (document.drop failure.offset) := by
  have hlength : (document.take failure.offset).length = failure.offset := by
    rw [List.length_take, Nat.min_eq_left hoffset]
  have hhere : failuresAt [failure] failure.offset = [.failure failure.reason] := by
    simp [failuresAt]
  have hfilter : [failure].filter (fun other => !other.isSilent) = [failure] := by
    simp [hsilent]
  have hweave : weave [failure] 0 (document.take failure.offset ++ document.drop failure.offset) =
      ofBytes (document.take failure.offset) ++
        weave [failure] failure.offset (document.drop failure.offset) := by
    rw [weave_append (by simp [hlength]), hlength, Nat.zero_add]
  rw [List.take_append_drop] at hweave
  rw [ofDocument, hfilter, hweave]
  cases hrest : document.drop failure.offset with
  | nil => rw [weave, hhere, ofBytes_nil]
  | cons b rest =>
      rw [weave, hhere, weave_of_past (by simp), ofBytes_cons]
      rfl

/-- An interrupted read is repeated, and nothing is seen of it. -/
theorem ofDocument_of_isSilent (document : List UInt8) {failure : ReadFailure}
    (h : failure.isSilent = true) : ofDocument document [failure] = ofBytes document := by
  have hfilter : [failure].filter (fun other => !other.isSilent) = [] := by
    simp [h]
  rw [ofDocument, hfilter]
  exact weave_of_past (by simp) document

/-! ## Which failures -/

@[simp] theorem failures_nil : failures [] = [] := rfl

@[simp] theorem failures_byte (b : UInt8) (feed : Feed) :
    failures (.byte b :: feed) = failures feed := rfl

@[simp] theorem failures_failure (reason : String) (feed : Feed) :
    failures (.failure reason :: feed) = reason :: failures feed := rfl

@[simp] theorem failures_append (left right : Feed) :
    failures (left ++ right) = failures left ++ failures right := by
  simp [failures]

/-- A feed holds bytes and failures. -/
theorem length_eq (feed : Feed) : feed.length = feed.bytes.length + feed.failures.length := by
  induction feed with
  | nil => rfl
  | cons delivery feed ih =>
      cases delivery with
      | byte b => simp [ih, Nat.add_right_comm]
      | failure reason => simp [ih, Nat.add_assoc]

theorem failures_failuresAt (list : List ReadFailure) (offset : Nat) :
    (failuresAt list offset).failures =
      (list.filter (·.offset == offset)).map ReadFailure.reason := by
  simp [failures, failuresAt]

/-- Of the failures from an offset on some are raised there, and the others behind the next byte. -/
theorem filter_offset_perm (list : List ReadFailure) (offset : Nat) :
    (list.filter (·.offset == offset) ++
        list.filter (fun failure => offset + 1 ≤ failure.offset)).Perm
      (list.filter (fun failure => offset ≤ failure.offset)) := by
  have hperm := List.filter_append_perm (fun failure : ReadFailure => failure.offset == offset)
    (list.filter (fun failure => offset ≤ failure.offset))
  have hhere : list.filter (fun failure => failure.offset == offset && offset ≤ failure.offset) =
      list.filter (·.offset == offset) := by
    apply List.filter_congr
    intro failure _
    grind
  have hlater : list.filter
      (fun failure => !(failure.offset == offset) && offset ≤ failure.offset) =
        list.filter (fun failure => offset + 1 ≤ failure.offset) := by
    apply List.filter_congr
    intro failure _
    grind
  rw [List.filter_filter, List.filter_filter, hhere, hlater] at hperm
  exact hperm

/-- What is raised from an offset on has been given from there on, and nothing is raised twice. -/
theorem failures_weave_subperm (list : List ReadFailure) (offset : Nat)
    (document : List UInt8) :
    (weave list offset document).failures.Subperm
      ((list.filter (fun failure => offset ≤ failure.offset)).map ReadFailure.reason) := by
  have hperm (offset : Nat) : ((failuresAt list offset).failures ++
      (list.filter (fun failure => offset + 1 ≤ failure.offset)).map ReadFailure.reason).Perm
        ((list.filter (fun failure => offset ≤ failure.offset)).map ReadFailure.reason) := by
    have hmap := (filter_offset_perm list offset).map ReadFailure.reason
    rwa [List.map_append, ← failures_failuresAt] at hmap
  induction document generalizing offset with
  | nil => exact (List.sublist_append_left _ _).subperm.trans (hperm offset).subperm
  | cons b document ih =>
      rw [weave, failures_append, failures_byte]
      exact ((List.Subperm.refl _).append (ih (offset + 1))).trans (hperm offset).subperm

/-- **Every failure of a reader is one of those it was given**, each of which it raises once at
most. -/
theorem failures_ofDocument_subperm (document : List UInt8) (list : List ReadFailure) :
    (ofDocument document list).failures.Subperm (list.map ReadFailure.reason) := by
  have hraised := failures_weave_subperm (list.filter (fun failure => !failure.isSilent)) 0 document
  have hgiven : (((list.filter (fun failure => !failure.isSilent)).filter
      (fun failure => 0 ≤ failure.offset)).map ReadFailure.reason).Sublist
        (list.map ReadFailure.reason) :=
    (List.filter_sublist.trans List.filter_sublist).map ReadFailure.reason
  exact hraised.trans hgiven.subperm

theorem length_ofDocument_le (document : List UInt8) (list : List ReadFailure) :
    (ofDocument document list).length ≤ document.length + list.length := by
  have hfailures := (failures_ofDocument_subperm document list).length_le
  rw [List.length_map] at hfailures
  rw [length_eq, bytes_ofDocument]
  exact Nat.add_le_add_left hfailures document.length

end Feed
end RequiredKeys
