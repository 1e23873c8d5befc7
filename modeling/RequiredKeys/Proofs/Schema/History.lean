import RequiredKeys.Proofs.Schema.Directory
import Mathlib.Data.List.Induction

/-!
# What a registry has become

A registry is filled by registering schemas and by loading directories, in any order and as often as
its owner likes.  A directory that cannot be loaded to its end has still written something.  This
module says what a registry holds after any such row of updates, by the updates alone.

* `Update.Writes` is what one update gives a name.  It knows files and their names, and no
  registry: a file is written if it loads and every schema file in front of it does.
* `LastWrites` is the last update of a row that writes a name.
* `Update.get?_perform_of_writes` and `Update.get?_perform_of_not_writes` are one update, and
  `get?_afterUpdates_eq_some_iff` is the row, by induction from its end.

`Registry.reflects_afterUpdates` adds that the names are in order, and counts them.
-/

namespace RequiredKeys
namespace Registry

/-! ## One update -/

/-- What is done to a registry.  A directory is loaded from the disk as it is at that time. -/
inductive Update
  | register (name : String) (schema : Json)
  | loadDirectory (disk : Disk) (directory : Path)

/-- The directory lists the file, and it is the one of the schema `name`. -/
def ListsSchema (disk : Disk) (directory : Path) (file : FileName) (name : String) : Prop :=
  ∃ listing, disk.list directory = .ok listing ∧ file ∈ listing ∧
    file.Splits (FileName.ofString name) (FileName.ofString "json")

namespace Update

/-- The registry behind an update, also behind one that reports an error. -/
def perform (registry : Registry) : Update → Registry
  | register name schema => registry.register name schema
  | loadDirectory disk directory => (registry.loadDirectory disk directory).2

/-- `update.Writes name clause`: the update gives the name this clause. -/
inductive Writes : Update → String → Clause → Prop
  | register {name : String} {schema : Json} :
      Writes (.register name schema) name (Clause.ofSchema schema)
  /-- The clause of a file is the one that is read from it alone.  A file behind one that cannot
  be loaded is not reached. -/
  | file {disk : Disk} {directory : Path} {file : FileName} {name : String} {clause : Clause}
      (hfile : ListsSchema disk directory file name)
      (hclause : disk.loadClause (directory.entry file) = .ok clause)
      (hbefore : ∀ other key, ListsSchema disk directory other key → other < file →
        ∃ found, disk.loadClause (directory.entry other) = .ok found) :
      Writes (.loadDirectory disk directory) name clause

end Update

variable {registry : Registry} {disk : Disk} {directory : Path} {file : FileName} {name : String}
  {clause : Clause}

theorem exists_loadSchema_iff :
    (∃ clause, disk.loadClause (directory.entry file) = .ok clause) ↔
      ∃ schema, disk.loadSchema (directory.entry file) = .ok schema := by
  unfold Disk.loadClause
  cases disk.loadSchema (directory.entry file) with
  | error error => simp [Except.map]
  | ok schema => simp [Except.map]

theorem listsSchema_iff {listing : List FileName} (hlist : disk.list directory = .ok listing) :
    ListsSchema disk directory file name ↔ (file, name) ∈ schemaFiles listing := by
  rw [mem_schemaFiles_iff]
  constructor
  · rintro ⟨found, hfound, hmem⟩
    obtain rfl := Except.ok.inj (hlist.symm.trans hfound)
    exact hmem
  · intro hmem
    exact ⟨listing, hlist, hmem⟩

/-- The files in front of the first that does not load are those that load and have only such files
in front of them. -/
theorem FirstError.mem_before_iff {files before : List (FileName × String)} {failed : FileName}
    {error : LoadError} (h : FirstError disk directory files before failed error)
    (hordered : files.Pairwise (fun left right => left.1 ≤ right.1)) :
    (file, name) ∈ before ↔ (file, name) ∈ files ∧
      (∃ schema, disk.loadSchema (directory.entry file) = .ok schema) ∧
      ∀ other key, (other, key) ∈ files → other < file →
        ∃ schema, disk.loadSchema (directory.entry other) = .ok schema := by
  obtain ⟨⟨key, rest, rfl⟩, hloads, hfails⟩ := h
  obtain ⟨-, hbehind, hacross⟩ := List.pairwise_append.mp hordered
  constructor
  · intro hmem
    refine ⟨List.mem_append_left _ hmem, hloads _ hmem, ?_⟩
    intro other otherKey hother hlt
    obtain hother | hother := List.mem_append.mp hother
    · exact hloads _ hother
    · exact absurd hlt (List.not_lt.mpr (hacross _ hmem _ hother))
  · rintro ⟨hmem, ⟨schema, hschema⟩, hbefore⟩
    obtain hmem | hmem := List.mem_append.mp hmem
    · exact hmem
    · -- What stands from the failure on is the file that fails, or it has that file before it.
      have hle : failed ≤ file := by
        obtain heq | hmem := List.mem_cons.mp hmem
        · obtain ⟨rfl, -⟩ := Prod.mk.inj heq
          exact List.le_refl _
        · exact (List.pairwise_cons.mp hbehind).1 _ hmem
      obtain hlt | rfl := List.le_iff_lt_or_eq.mp hle
      · obtain ⟨found, hfound⟩ :=
          hbefore failed key (List.mem_append_right _ List.mem_cons_self) hlt
        rw [hfails] at hfound
        contradiction
      · rw [hfails] at hschema
        contradiction

/-- **What loading a directory leaves behind**, with an error or without: the files that are
reached are written, and nothing else. -/
theorem exists_written_loadDirectory {listing : List FileName} (registry : Registry)
    (hlist : disk.list directory = .ok listing) :
    ∃ files, Written registry disk directory files (registry.loadDirectory disk directory).2 ∧
      ∀ file name, (file, name) ∈ files ↔ (file, name) ∈ schemaFiles listing ∧
        (∃ schema, disk.loadSchema (directory.entry file) = .ok schema) ∧
        ∀ other key, (other, key) ∈ schemaFiles listing → other < file →
          ∃ schema, disk.loadSchema (directory.entry other) = .ok schema := by
  have hrow := schemaRow_schemaFiles listing
  obtain hloads | ⟨before, failed, error, hfirst⟩ :=
    allLoad_or_firstError disk directory (schemaFiles listing)
  · obtain ⟨written, hwritten⟩ := exists_loads hloads
    refine ⟨schemaFiles listing, ?_, ?_⟩
    · rw [loadDirectory_of_none hlist (hwritten.loadFiles registry)]
      exact hwritten.written_writeAll hrow.unambiguous registry
    · intro file name
      exact ⟨fun hmem => ⟨hmem, hloads _ hmem, fun _ _ hother _ => hloads _ hother⟩, And.left⟩
  · obtain ⟨⟨key, rest, hfiles⟩, hloads, herror⟩ := id hfirst
    obtain ⟨written, hwritten⟩ := exists_loads hloads
    have hwalk : registry.loadFiles disk directory (schemaFiles listing) =
        (some error, registry.writeAll written) := by
      rw [hfiles]
      exact hwritten.loadFiles_error registry rest herror
    have hunique := hrow.unambiguous
    rw [hfiles] at hunique
    refine ⟨before, ?_, fun file name => hfirst.mem_before_iff hrow.ordered⟩
    rw [loadDirectory_of_some hlist hwalk]
    exact hwritten.written_writeAll hunique.of_append registry

namespace Update

variable {update : Update}

/-- A directory that cannot be listed writes nothing, and the others write what is reached. -/
theorem writes_loadDirectory_iff :
    (loadDirectory disk directory).Writes name clause ↔
      ∃ listing file, disk.list directory = .ok listing ∧
        disk.loadClause (directory.entry file) = .ok clause ∧
        (file, name) ∈ schemaFiles listing ∧
        (∃ schema, disk.loadSchema (directory.entry file) = .ok schema) ∧
        ∀ other key, (other, key) ∈ schemaFiles listing → other < file →
          ∃ schema, disk.loadSchema (directory.entry other) = .ok schema := by
  constructor
  · intro h
    cases h with
    | @file _ _ file _ _ hfile hclause hbefore =>
        obtain ⟨listing, hlist, -⟩ := id hfile
        refine ⟨listing, file, hlist, hclause, (listsSchema_iff hlist).mp hfile,
          exists_loadSchema_iff.mp ⟨clause, hclause⟩, ?_⟩
        intro other key hother hlt
        exact exists_loadSchema_iff.mp (hbefore other key ((listsSchema_iff hlist).mpr hother) hlt)
  · rintro ⟨listing, file, hlist, hclause, hfile, -, hbefore⟩
    refine .file ((listsSchema_iff hlist).mpr hfile) hclause ?_
    intro other key hother hlt
    exact exists_loadSchema_iff.mpr (hbefore other key ((listsSchema_iff hlist).mp hother) hlt)

theorem loadDirectory_of_unlisted {cause : SystemError} (registry : Registry)
    (hlist : disk.list directory = .error cause) :
    (registry.loadDirectory disk directory).2 = registry := by
  unfold Registry.loadDirectory
  rw [hlist]

/-- **A name that an update writes** has the clause that is written. -/
theorem get?_perform_of_writes (registry : Registry) (h : update.Writes name clause) :
    (update.perform registry).get? name = some clause := by
  cases update with
  | register key schema =>
      cases h with
      | register =>
          show (registry.insert name _).get? name = _
          rw [get?_insert, if_pos rfl]
  | loadDirectory disk directory =>
      obtain ⟨listing, file, hlist, hclause, hreached⟩ := writes_loadDirectory_iff.mp h
      obtain ⟨files, hwritten, hfiles⟩ := exists_written_loadDirectory registry hlist
      obtain ⟨schema, hschema, hget⟩ :=
        hwritten.get?_of_mem file name ((hfiles file name).mpr hreached)
      rw [Disk.loadClause, hschema] at hclause
      rw [← Except.ok.inj hclause]
      exact hget

/-- **A name that an update does not write** keeps what it has. -/
theorem get?_perform_of_not_writes (registry : Registry)
    (h : ∀ clause, ¬ update.Writes name clause) :
    (update.perform registry).get? name = registry.get? name := by
  cases update with
  | register key schema =>
      have hne : ¬ name = key := by
        rintro rfl
        exact h _ .register
      show (registry.insert key _).get? name = _
      rw [get?_insert, if_neg hne]
  | loadDirectory disk directory =>
      show (registry.loadDirectory disk directory).2.get? name = _
      cases hlist : disk.list directory with
      | error cause => rw [loadDirectory_of_unlisted registry hlist]
      | ok listing =>
          obtain ⟨files, hwritten, hfiles⟩ := exists_written_loadDirectory registry hlist
          apply hwritten.get?_of_not_mem
          intro hname
          obtain ⟨⟨file, key⟩, hmem, rfl⟩ := List.mem_map.mp hname
          -- A file of that name that is reached is one that the update writes.
          have hreached := (hfiles file key).mp hmem
          obtain ⟨clause, hclause⟩ := exists_loadSchema_iff.mpr hreached.2.1
          exact h clause (writes_loadDirectory_iff.mpr ⟨listing, file, hlist, hclause, hreached⟩)

theorem ordered_perform (update : Update) (h : registry.Ordered) :
    (update.perform registry).Ordered := by
  cases update with
  | register key schema => exact h.insert key _
  | loadDirectory disk directory =>
      show (registry.loadDirectory disk directory).2.Ordered
      cases hlist : disk.list directory with
      | error cause => rwa [loadDirectory_of_unlisted registry hlist]
      | ok listing =>
          obtain ⟨files, hwritten, -⟩ := exists_written_loadDirectory registry hlist
          exact hwritten.ordered h

end Update

/-! ## A row of updates -/

/-- The registry that some updates make of an empty one. -/
def afterUpdates (updates : List Update) : Registry :=
  updates.foldl Update.perform {}

/-- One of the updates writes the name. -/
def Wrote (updates : List Update) (name : String) : Prop :=
  ∃ update ∈ updates, ∃ clause, update.Writes name clause

/-- Of the updates that write the name the last one gives it this clause. -/
def LastWrites (updates : List Update) (name : String) (clause : Clause) : Prop :=
  ∃ before update after, updates = before ++ update :: after ∧ update.Writes name clause ∧
    ¬ Wrote after name

variable {updates : List Update}

theorem afterUpdates_concat (updates : List Update) (update : Update) :
    afterUpdates (updates ++ [update]) = update.perform (afterUpdates updates) := by
  rw [afterUpdates, List.foldl_append]
  rfl

theorem wrote_concat {update : Update} :
    Wrote (updates ++ [update]) name ↔
      Wrote updates name ∨ ∃ clause, update.Writes name clause := by
  simp [Wrote, or_and_right, exists_or]

/-- The last update goes before the others. -/
theorem lastWrites_concat {update : Update} :
    LastWrites (updates ++ [update]) name clause ↔
      update.Writes name clause ∨
        LastWrites updates name clause ∧ ∀ other, ¬ update.Writes name other := by
  constructor
  · rintro ⟨before, found, after, hupdates, hwrites, hafter⟩
    obtain rfl | ⟨middle, last, rfl⟩ := List.eq_nil_or_concat after
    · obtain ⟨-, rfl⟩ := List.append_singleton_inj.mp hupdates
      exact .inl hwrites
    · rw [List.concat_eq_append] at hupdates hafter
      rw [← List.cons_append, ← List.append_assoc] at hupdates
      obtain ⟨rfl, rfl⟩ := List.append_singleton_inj.mp hupdates
      rw [wrote_concat, not_or] at hafter
      exact .inr ⟨⟨before, found, middle, rfl, hwrites, hafter.1⟩, not_exists.mp hafter.2⟩
  · rintro (hwrites | ⟨⟨before, found, after, rfl, hwrites, hafter⟩, hlast⟩)
    · exact ⟨updates, update, [], rfl, hwrites, by simp [Wrote]⟩
    · refine ⟨before, found, after ++ [update], by simp, hwrites, ?_⟩
      rw [wrote_concat, not_or]
      exact ⟨hafter, not_exists.mpr hlast⟩

/-- A name that has been written has been written last. -/
theorem exists_lastWrites_iff :
    (∃ clause, LastWrites updates name clause) ↔ Wrote updates name := by
  constructor
  · rintro ⟨clause, before, update, after, rfl, hwrites, -⟩
    exact ⟨update, by simp, clause, hwrites⟩
  · induction updates using List.reverseRecOn with
    | nil => simp [Wrote]
    | append_singleton updates update ih =>
        intro h
        by_cases hlast : ∃ clause, update.Writes name clause
        · obtain ⟨clause, hwrites⟩ := hlast
          exact ⟨clause, lastWrites_concat.mpr (.inl hwrites)⟩
        · obtain ⟨clause, hclause⟩ := ih ((wrote_concat.mp h).resolve_right hlast)
          exact ⟨clause, lastWrites_concat.mpr (.inr ⟨hclause, not_exists.mp hlast⟩)⟩

/-- **The last write counts**, whichever way the name was written. -/
theorem get?_afterUpdates_eq_some_iff :
    (afterUpdates updates).get? name = some clause ↔ LastWrites updates name clause := by
  induction updates using List.reverseRecOn generalizing clause with
  | nil =>
      constructor
      · intro h
        contradiction
      · rintro ⟨before, update, after, hupdates, -⟩
        simp at hupdates
  | append_singleton updates update ih =>
      rw [afterUpdates_concat, lastWrites_concat]
      by_cases hlast : ∃ clause, update.Writes name clause
      · obtain ⟨found, hfound⟩ := hlast
        rw [Update.get?_perform_of_writes _ hfound, Option.some.injEq]
        constructor
        · rintro rfl
          exact .inl hfound
        · rintro (hwrites | ⟨-, hnone⟩)
          · -- What an update writes is what it leaves, so it writes one clause only.
            have hboth := Update.get?_perform_of_writes (afterUpdates updates) hwrites
            rw [Update.get?_perform_of_writes _ hfound] at hboth
            exact Option.some.inj hboth
          · exact absurd hfound (hnone found)
      · have hnone := not_exists.mp hlast
        rw [Update.get?_perform_of_not_writes _ hnone, ih]
        constructor
        · intro hwrites
          exact .inr ⟨hwrites, hnone⟩
        · rintro (hwrites | ⟨hwrites, -⟩)
          · exact absurd hwrites (hnone clause)
          · exact hwrites

theorem ordered_afterUpdates (updates : List Update) : (afterUpdates updates).Ordered := by
  induction updates using List.reverseRecOn with
  | nil => exact List.Pairwise.nil
  | append_singleton updates update ih =>
      rw [afterUpdates_concat]
      exact update.ordered_perform ih

/-! ## The registry as a map -/

/-- The names are those under which something is found. -/
theorem mem_names_iff : name ∈ registry.names ↔ (registry.get? name).isSome = true := by
  rw [Option.isSome_iff_ne_none, ne_eq, get?, List.lookup_eq_none_iff, names, List.mem_map]
  simp only [bne_iff_ne, ne_eq, not_forall, not_not, exists_prop]
  exact exists_congr (fun entry => and_congr_right (fun _ => eq_comm))

theorem wrote_iff_isSome :
    Wrote updates name ↔ ((afterUpdates updates).get? name).isSome = true := by
  rw [← exists_lastWrites_iff, Option.isSome_iff_exists]
  exact exists_congr (fun clause => get?_afterUpdates_eq_some_iff.symm)

/-- What a registry tells of the updates that have filled it. -/
structure Reflects (updates : List Update) (registry : Registry) : Prop where
  get?_eq_some_iff : ∀ name clause,
    registry.get? name = some clause ↔ LastWrites updates name clause
  get?_eq_none_iff : ∀ name, registry.get? name = none ↔ ¬ Wrote updates name
  contains_iff : ∀ name, registry.contains name = true ↔ ∃ clause, registry.get? name = some clause
  mem_names_iff : ∀ name, name ∈ registry.names ↔ Wrote updates name
  /-- The names stand in the order of their bytes, and none of them twice. -/
  names_increase :
    registry.names.Pairwise (fun left right => left.toUTF8.toList < right.toUTF8.toList)
  /-- The size is the number of the names that have been written, however they are listed. -/
  size_eq : ∀ list : List String, list.Nodup → (∀ name, name ∈ list ↔ Wrote updates name) →
    registry.size = list.length
  isEmpty_iff : registry.isEmpty = true ↔ registry.size = 0
  /-- One more update changes no name but those that it writes. -/
  others : ∀ (update : Update) (name : String), (∀ clause, ¬ update.Writes name clause) →
    (update.perform registry).get? name = registry.get? name

/-- **A registry is the map of the last writes**, after any updates of a new one. -/
theorem reflects_afterUpdates (updates : List Update) :
    Reflects updates (afterUpdates updates) := by
  have hmem (name : String) : name ∈ (afterUpdates updates).names ↔ Wrote updates name :=
    mem_names_iff.trans wrote_iff_isSome.symm
  have hordered := ordered_afterUpdates updates
  constructor
  case get?_eq_some_iff => exact fun name clause => get?_afterUpdates_eq_some_iff
  case get?_eq_none_iff =>
    intro name
    rw [wrote_iff_isSome, Option.not_isSome_iff_eq_none]
  case contains_iff => exact fun name => Option.isSome_iff_exists
  case mem_names_iff => exact hmem
  case names_increase => exact hordered.imp (fun hbefore => of_decide_eq_true hbefore)
  case size_eq =>
    intro list hlist hsame
    have hnodup : (afterUpdates updates).names.Nodup := by
      refine hordered.imp ?_
      rintro left _ hbefore rfl
      rw [utf8Before_self] at hbefore
      contradiction
    have hperm : (afterUpdates updates).names.Perm list :=
      (List.perm_ext_iff_of_nodup hnodup hlist).mpr
        (fun name => (hmem name).trans (hsame name).symm)
    rw [← hperm.length_eq]
    exact (List.length_map _).symm
  case isEmpty_iff => exact List.isEmpty_iff_length_eq_zero
  case others => exact fun update name h => update.get?_perform_of_not_writes _ h

end Registry
end RequiredKeys
