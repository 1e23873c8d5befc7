import RequiredKeys.Proofs.Schema.Registry

/-!
# Loading a directory

A listing comes in any order and holds files of all kinds.  `SchemaRow` says which of them are
schemas and in what order they are taken.  It determines the row (`SchemaRow.eq_of_nodup`), and the
order of the listing is forgotten (`schemaFiles_of_perm`).

From there on loading is a walk along the row (`Loads.loadFiles_append`): as far as files load,
their clauses are written, and the first that does not load ends the walk with its error.
`LoadsDirectory` says what this makes of a registry, seen as a map.
-/

namespace RequiredKeys

/-! ## Names of files -/

namespace FileName

/-- A name is a stem, a point and an extension: the last point divides it, unless it stands in
front. -/
def Splits (file stem extension : FileName) : Prop :=
  file = stem ++ Ascii.point :: extension ∧ stem ≠ [] ∧ Ascii.point ∉ extension

theorem split?_eq_some_iff {file stem extension : FileName} :
    file.split? = some (stem, extension) ↔ file.Splits stem extension := by
  unfold split? Splits
  dsimp only
  constructor
  · intro h
    split at h
    · next mark reversedStem hdrop =>
        split at h
        · simp at h
        · next hstem =>
            obtain ⟨rfl, rfl⟩ : reversedStem.reverse = stem ∧
                (file.reverse.takeWhile (· != Ascii.point)).reverse = extension := by
              simpa using h
            -- The byte that ends the extension from behind is the point.
            obtain rfl : mark = Ascii.point := by
              have hhead := List.head?_dropWhile_not (· != Ascii.point) file.reverse
              rw [hdrop] at hhead
              simpa using hhead
            have hfile : file.reverse.takeWhile (· != Ascii.point) ++ Ascii.point :: reversedStem =
                file.reverse := by
              rw [← hdrop, List.takeWhile_append_dropWhile]
            refine ⟨?_, by simpa using hstem, ?_⟩
            · simpa using (congrArg List.reverse hfile).symm
            · intro hmem
              have hne := List.all_eq_true.mp List.all_takeWhile _ (List.mem_reverse.mp hmem)
              simp at hne
    · simp at h
  · rintro ⟨rfl, hstem, hextension⟩
    have hpass (b : UInt8) (hb : b ∈ extension.reverse) : (b != Ascii.point) = true := by
      rw [bne_iff_ne]
      rintro rfl
      exact hextension (List.mem_reverse.mp hb)
    have hreverse : (stem ++ Ascii.point :: extension).reverse =
        extension.reverse ++ Ascii.point :: stem.reverse := by
      simp
    rw [hreverse, List.takeWhile_append_of_pos hpass, List.dropWhile_append_of_pos hpass]
    simp [hstem]

end FileName

namespace Registry

/-- The name of a schema is the stem of its file, if that is a text. -/
theorem schemaName?_eq_some_iff {file : FileName} {name : String} :
    schemaName? file = some name ↔
      file.Splits (FileName.ofString name) (FileName.ofString "json") := by
  have hstem (stem : FileName) :
      file.stemBefore? schemaExtension = some stem ↔ file.Splits stem schemaExtension := by
    rw [← FileName.split?_eq_some_iff]
    unfold FileName.stemBefore?
    split
    · next found extension hsplit =>
        rw [hsplit, Option.some.injEq, Prod.mk.injEq]
        split <;> simp [*]
    · next hsplit => simp [hsplit]
  have hname : FileName.ofString name = encoded name.toList := toList_toUTF8 name
  unfold schemaName?
  simp only [Option.bind_eq_some_iff, hstem, fromUTF8?_eq_some_iff, hname, exists_eq_right]
  rfl

/-- The schemas of a listing: the files with the extension of schemas whose stem is a text, each
with that text, in the order of their bytes. -/
structure SchemaRow (listing : List FileName) (files : List (FileName × String)) : Prop where
  mem_iff : ∀ file name, (file, name) ∈ files ↔
    file ∈ listing ∧ file.Splits (FileName.ofString name) (FileName.ofString "json")
  ordered : files.Pairwise (fun left right => left.1 ≤ right.1)
  /-- The entries of a directory are distinct, and then no name comes twice. -/
  distinct : listing.Nodup → (files.map Prod.snd).Nodup

/-- No two of some files share a name. -/
def Unambiguous (files : List (FileName × String)) : Prop :=
  ∀ left right name, (left, name) ∈ files → (right, name) ∈ files → left = right

theorem Unambiguous.of_append {before after : List (FileName × String)}
    (h : Unambiguous (before ++ after)) : Unambiguous before := by
  intro left right name hleft hright
  exact h left right name (List.mem_append_left after hleft) (List.mem_append_left after hright)

theorem SchemaRow.unambiguous {listing : List FileName} {files : List (FileName × String)}
    (h : SchemaRow listing files) : Unambiguous files := by
  intro left right name hleft hright
  obtain ⟨-, hleft, -⟩ := (h.mem_iff left name).mp hleft
  obtain ⟨-, hright, -⟩ := (h.mem_iff right name).mp hright
  exact hleft.trans hright.symm

/-- The entries of a directory are distinct, and then there is only one row. -/
theorem SchemaRow.eq_of_nodup {listing : List FileName} {files other : List (FileName × String)}
    (h : SchemaRow listing files) (hother : SchemaRow listing other) (hdistinct : listing.Nodup) :
    files = other := by
  have hnodup {row : List (FileName × String)} (hrow : SchemaRow listing row) : row.Nodup := by
    refine (List.pairwise_map.mp (hrow.distinct hdistinct)).imp ?_
    intro left right hne hsame
    exact hne (congrArg Prod.snd hsame)
  refine List.Perm.eq_of_pairwise ?_ h.ordered hother.ordered ?_
  · rintro ⟨file, name⟩ ⟨found, key⟩ hleft hright hle hge
    obtain rfl : file = found := List.le_antisymm hle hge
    have hname := schemaName?_eq_some_iff.mpr ((h.mem_iff file name).mp hleft).2
    have hkey := schemaName?_eq_some_iff.mpr ((hother.mem_iff file key).mp hright).2
    obtain rfl : name = key := Option.some.inj (hname.symm.trans hkey)
    rfl
  · refine (List.perm_ext_iff_of_nodup (hnodup h) (hnodup hother)).mpr ?_
    rintro ⟨file, name⟩
    rw [h.mem_iff, hother.mem_iff]

theorem pairwise_mergeSort_fileNameLe (listing : List FileName) :
    (listing.mergeSort fileNameLe).Pairwise (fun left right => fileNameLe left right = true) := by
  refine List.pairwise_mergeSort ?_ ?_ listing
  · intro left middle right hleft hright
    simp only [fileNameLe, decide_eq_true_eq] at *
    exact List.le_trans hleft hright
  · intro left right
    simp only [fileNameLe, Bool.or_eq_true, decide_eq_true_eq]
    exact List.le_total left right

theorem mem_schemaFiles_iff {listing : List FileName} {file : FileName} {name : String} :
    (file, name) ∈ schemaFiles listing ↔
      file ∈ listing ∧ file.Splits (FileName.ofString name) (FileName.ofString "json") := by
  unfold schemaFiles
  rw [List.mem_filterMap, ← schemaName?_eq_some_iff]
  simp [Option.map_eq_some_iff]

theorem schemaRow_schemaFiles (listing : List FileName) :
    SchemaRow listing (schemaFiles listing) where
  mem_iff := fun _ _ => mem_schemaFiles_iff
  ordered := by
    unfold schemaFiles
    rw [List.pairwise_filterMap]
    refine (pairwise_mergeSort_fileNameLe listing).imp ?_
    intro left right hle _ hleft _ hright
    obtain ⟨_, -, rfl⟩ := Option.map_eq_some_iff.mp hleft
    obtain ⟨_, -, rfl⟩ := Option.map_eq_some_iff.mp hright
    simp only [fileNameLe, decide_eq_true_eq] at hle
    exact hle
  distinct := by
    intro hdistinct
    have hnodup : (listing.mergeSort fileNameLe).Nodup :=
      (List.mergeSort_perm listing fileNameLe).nodup_iff.mpr hdistinct
    unfold schemaFiles
    rw [List.map_filterMap, List.Nodup, List.pairwise_filterMap]
    refine hnodup.imp ?_
    intro left right hne name hleft other hright hsame
    -- The same name would have come from the same file.
    simp only [Option.map_map, Option.map_eq_some_iff, Function.comp_apply] at hleft hright
    obtain ⟨_, hleft, rfl⟩ := hleft
    obtain ⟨_, hright, rfl⟩ := hright
    obtain rfl := hsame
    exact hne ((schemaName?_eq_some_iff.mp hleft).1.trans (schemaName?_eq_some_iff.mp hright).1.symm)

/-- The order of a listing is forgotten. -/
theorem schemaFiles_of_perm {listing other : List FileName} (h : other.Perm listing) :
    schemaFiles other = schemaFiles listing := by
  have hsorted : other.mergeSort fileNameLe = listing.mergeSort fileNameLe := by
    refine List.Perm.eq_of_pairwise ?_ (pairwise_mergeSort_fileNameLe other)
      (pairwise_mergeSort_fileNameLe listing) ?_
    · intro left right _ _ hle hge
      simp only [fileNameLe, decide_eq_true_eq] at hle hge
      exact List.le_antisymm hle hge
    · exact (List.mergeSort_perm other fileNameLe).trans
        (h.trans (List.mergeSort_perm listing fileNameLe).symm)
  unfold schemaFiles
  rw [hsorted]

/-! ## The walk along the files -/

/-- The files of a row load, and these are the clauses of their schemas under their names. -/
inductive Loads (disk : Disk) (directory : Path) :
    List (FileName × String) → List (String × Clause) → Prop
  | nil : Loads disk directory [] []
  | cons {file : FileName} {name : String} {schema : Json} {files : List (FileName × String)}
      {written : List (String × Clause)}
      (h : disk.loadSchema (directory.entry file) = .ok schema)
      (hrest : Loads disk directory files written) :
      Loads disk directory ((file, name) :: files) ((name, Clause.ofSchema schema) :: written)

/-- Every one of some files loads. -/
def AllLoad (disk : Disk) (directory : Path) (files : List (FileName × String)) : Prop :=
  ∀ file ∈ files, ∃ schema, disk.loadSchema (directory.entry file.1) = .ok schema

/-- A file does not load, and those before it do. -/
structure FirstError (disk : Disk) (directory : Path) (files before : List (FileName × String))
    (file : FileName) (error : LoadError) : Prop where
  split : ∃ name rest, files = before ++ (file, name) :: rest
  loads : AllLoad disk directory before
  fails : disk.loadSchema (directory.entry file) = .error error

variable {registry : Registry} {disk : Disk} {directory : Path}
  {files : List (FileName × String)} {written : List (String × Clause)}

/-- Either all files load, or there is a first one that does not. -/
theorem allLoad_or_firstError (disk : Disk) (directory : Path) (files : List (FileName × String)) :
    AllLoad disk directory files ∨
      ∃ before file error, FirstError disk directory files before file error := by
  induction files with
  | nil => exact .inl (List.forall_mem_nil _)
  | cons entry files ih =>
      obtain ⟨file, name⟩ := entry
      cases hfile : disk.loadSchema (directory.entry file) with
      | error error => exact .inr ⟨[], file, error, ⟨name, files, rfl⟩, List.forall_mem_nil _, hfile⟩
      | ok schema =>
          obtain hloads | ⟨before, found, error, ⟨other, rest, rfl⟩, hloads, hfails⟩ := ih
          · exact .inl (List.forall_mem_cons.mpr ⟨⟨schema, hfile⟩, hloads⟩)
          · exact .inr ⟨(file, name) :: before, found, error, ⟨other, rest, rfl⟩,
              List.forall_mem_cons.mpr ⟨⟨schema, hfile⟩, hloads⟩, hfails⟩

theorem exists_loads (h : AllLoad disk directory files) :
    ∃ written, Loads disk directory files written := by
  induction files with
  | nil => exact ⟨[], .nil⟩
  | cons file files ih =>
      obtain ⟨⟨schema, hschema⟩, hfiles⟩ := List.forall_mem_cons.mp h
      obtain ⟨written, hwritten⟩ := ih hfiles
      exact ⟨_, .cons hschema hwritten⟩

namespace Loads

theorem map_fst (h : Loads disk directory files written) :
    written.map Prod.fst = files.map Prod.snd := by
  induction h with
  | nil => rfl
  | cons _ _ ih => rw [List.map_cons, List.map_cons, ih]

/-- What is written comes from the files, each with the clause of its schema. -/
theorem mem_iff (h : Loads disk directory files written) {name : String} {clause : Clause} :
    (name, clause) ∈ written ↔ ∃ file schema, (file, name) ∈ files ∧
      disk.loadSchema (directory.entry file) = .ok schema ∧ Clause.ofSchema schema = clause := by
  induction h with
  | nil => simp
  | @cons file key schema files written hschema _ ih =>
      rw [List.mem_cons, ih]
      constructor
      · rintro (hsame | ⟨found, read, hmem, hread⟩)
        · obtain ⟨rfl, rfl⟩ := Prod.mk.inj hsame
          exact ⟨file, schema, List.mem_cons_self, hschema, rfl⟩
        · exact ⟨found, read, List.mem_cons_of_mem _ hmem, hread⟩
      · rintro ⟨found, read, hmem, hread, rfl⟩
        obtain hsame | hmem := List.mem_cons.mp hmem
        · obtain ⟨rfl, rfl⟩ := Prod.mk.inj hsame
          obtain rfl : schema = read := Except.ok.inj (hschema.symm.trans hread)
          exact .inl rfl
        · exact .inr ⟨found, read, hmem, hread, rfl⟩

theorem exists_schema (h : Loads disk directory files written) {file : FileName} {name : String}
    (hmem : (file, name) ∈ files) :
    ∃ schema, disk.loadSchema (directory.entry file) = .ok schema := by
  induction h with
  | nil => simp at hmem
  | cons hschema _ ih =>
      obtain hsame | hmem := List.mem_cons.mp hmem
      · obtain ⟨rfl, -⟩ := Prod.mk.inj hsame
        exact ⟨_, hschema⟩
      · exact ih hmem

/-- Where a name tells its file, it stands where it has been written. -/
theorem settled (h : Loads disk directory files written)
    (hunique : Unambiguous files) (registry : Registry) {name : String} {clause : Clause}
    (hmem : (name, clause) ∈ written) :
    Settled (registry.writeAll written).entries name clause := by
  refine settled_writeAll ?_ hmem
  intro found hfound
  obtain ⟨file, schema, hfile, hschema, rfl⟩ := h.mem_iff.mp hmem
  obtain ⟨other, read, hother, hread, rfl⟩ := h.mem_iff.mp hfound
  obtain rfl := hunique file other name hfile hother
  obtain rfl : schema = read := Except.ok.inj (hschema.symm.trans hread)
  rfl

/-- Files that load are walked past, and their clauses are written on the way. -/
theorem loadFiles_append (h : Loads disk directory files written) (registry : Registry)
    (rest : List (FileName × String)) :
    registry.loadFiles disk directory (files ++ rest) =
      (registry.writeAll written).loadFiles disk directory rest := by
  induction h generalizing registry with
  | nil => rfl
  | cons hschema _ ih =>
      rw [List.cons_append, loadFiles, Disk.loadClause, hschema]
      exact ih _

theorem loadFiles (h : Loads disk directory files written) (registry : Registry) :
    registry.loadFiles disk directory files = (none, registry.writeAll written) := by
  have happend := h.loadFiles_append registry []
  rwa [List.append_nil] at happend

/-- The first file that does not load ends the walk. -/
theorem loadFiles_error (h : Loads disk directory files written) (registry : Registry)
    {file : FileName} {name : String} {error : LoadError} (rest : List (FileName × String))
    (herror : disk.loadSchema (directory.entry file) = .error error) :
    registry.loadFiles disk directory (files ++ (file, name) :: rest) =
      (some error, registry.writeAll written) := by
  rw [h.loadFiles_append, Registry.loadFiles, Disk.loadClause, herror]
  rfl

end Loads

/-! ## Directories -/

/-- What has become of a registry when the schemas of some files have been written and nothing
else. -/
structure Written (registry : Registry) (disk : Disk) (directory : Path)
    (files : List (FileName × String)) (after : Registry) : Prop where
  /-- A file gives its name the clause of its schema, malformed or not. -/
  get?_of_mem : ∀ file name, (file, name) ∈ files → ∃ schema,
    disk.loadSchema (directory.entry file) = .ok schema ∧
      after.get? name = some (Clause.ofSchema schema)
  get?_of_not_mem : ∀ name, name ∉ files.map Prod.snd → after.get? name = registry.get? name
  ordered : registry.Ordered → after.Ordered

theorem Loads.written_writeAll (h : Loads disk directory files written)
    (hunique : Unambiguous files) (registry : Registry) :
    Written registry disk directory files (registry.writeAll written) where
  get?_of_mem := by
    intro file name hmem
    obtain ⟨schema, hschema⟩ := h.exists_schema hmem
    have hwritten := h.mem_iff.mpr ⟨file, schema, hmem, hschema, rfl⟩
    exact ⟨schema, hschema, (h.settled hunique registry hwritten).lookup_eq⟩
  get?_of_not_mem := by
    intro name hname
    rw [← h.map_fst] at hname
    exact get?_writeAll_of_not_mem hname
  ordered := fun hordered => hordered.writeAll written

theorem loadDirectory_of_none {listing : List FileName} {after : Registry}
    (hlist : disk.list directory = .ok listing)
    (h : registry.loadFiles disk directory (schemaFiles listing) = (none, after)) :
    registry.loadDirectory disk directory = (.ok (schemaFiles listing).length, after) := by
  unfold loadDirectory
  rw [hlist]
  dsimp only
  rw [h]

theorem loadDirectory_of_some {listing : List FileName} {after : Registry} {error : LoadError}
    (hlist : disk.list directory = .ok listing)
    (h : registry.loadFiles disk directory (schemaFiles listing) = (some error, after)) :
    registry.loadDirectory disk directory = (.error error, after) := by
  unfold loadDirectory
  rw [hlist]
  dsimp only
  rw [h]

theorem path_of_loadSchema {path : Path} {error : LoadError}
    (h : disk.loadSchema path = .error error) : error.path = path := by
  unfold Disk.loadSchema at h
  split at h
  · obtain rfl := Except.error.inj h
    rfl
  · split at h
    · obtain rfl := Except.error.inj h
      rfl
    · split at h
      · simp at h
      · obtain rfl := Except.error.inj h
        rfl

/-- **What loading a directory does** with a listing whose schemas are these files. -/
structure LoadsDirectory (registry : Registry) (disk : Disk) (directory : Path)
    (listing : List FileName) (files : List (FileName × String)) : Prop where
  row : SchemaRow listing files
  unambiguous : Unambiguous files
  /-- There are two cases. -/
  covered : AllLoad disk directory files ∨
    ∃ before file error, FirstError disk directory files before file error
  /-- Where every file loads, all are written and counted, and loading them once more changes
  nothing. -/
  complete : AllLoad disk directory files →
    ∃ after, registry.loadDirectory disk directory = (.ok files.length, after) ∧
      Written registry disk directory files after ∧
      after.loadDirectory disk directory = (.ok files.length, after)
  /-- The first file that does not load gives its error, and those before it are written. -/
  interrupted : ∀ before file error, FirstError disk directory files before file error →
    error.path = directory.entry file ∧
      ∃ after, registry.loadDirectory disk directory = (.error error, after) ∧
        Written registry disk directory before after
  /-- A disk that lists the same entries in another order gives the same. -/
  unordered : ∀ (other : Disk) (shuffled : List FileName), other.look = disk.look →
    other.list directory = .ok shuffled → shuffled.Perm listing →
    registry.loadDirectory other directory = registry.loadDirectory disk directory

theorem loadFiles_of_look {other : Disk} (h : other.look = disk.look) (registry : Registry)
    (files : List (FileName × String)) :
    registry.loadFiles other directory files = registry.loadFiles disk directory files := by
  have hload (path : Path) : other.loadClause path = disk.loadClause path := by
    unfold Disk.loadClause Disk.loadSchema
    rw [h]
  induction files generalizing registry with
  | nil => rfl
  | cons file files ih =>
      rw [loadFiles, loadFiles, hload]
      split
      · rfl
      · exact ih _

/-- Loading is exact for every registry and every directory that can be listed. -/
theorem loadDirectory_exact {listing : List FileName} (registry : Registry)
    (hlist : disk.list directory = .ok listing) :
    LoadsDirectory registry disk directory listing (schemaFiles listing) where
  row := schemaRow_schemaFiles listing
  unambiguous := (schemaRow_schemaFiles listing).unambiguous
  covered := allLoad_or_firstError disk directory (schemaFiles listing)
  complete := by
    intro hloads
    have hunique := (schemaRow_schemaFiles listing).unambiguous
    obtain ⟨written, hwritten⟩ := exists_loads hloads
    refine ⟨registry.writeAll written, loadDirectory_of_none hlist (hwritten.loadFiles registry),
      hwritten.written_writeAll hunique registry, ?_⟩
    -- Every entry that is written again stands where it was written before.
    have hsame : (registry.writeAll written).writeAll written = registry.writeAll written :=
      writeAll_eq_self (fun _ hentry => hwritten.settled hunique registry hentry)
    have hagain := hwritten.loadFiles (registry.writeAll written)
    rw [hsame] at hagain
    exact loadDirectory_of_none hlist hagain
  interrupted := by
    rintro before file error ⟨⟨name, rest, hfiles⟩, hloads, herror⟩
    have hrow := (schemaRow_schemaFiles listing).unambiguous
    rw [hfiles] at hrow
    have hunique : Unambiguous before := hrow.of_append
    obtain ⟨written, hwritten⟩ := exists_loads hloads
    have hwalk : registry.loadFiles disk directory (schemaFiles listing) =
        (some error, registry.writeAll written) := by
      rw [hfiles]
      exact hwritten.loadFiles_error registry rest herror
    exact ⟨path_of_loadSchema herror, registry.writeAll written,
      loadDirectory_of_some hlist hwalk, hwritten.written_writeAll hunique registry⟩
  unordered := by
    intro other shuffled hlook hshuffled hperm
    unfold loadDirectory
    rw [hlist, hshuffled]
    dsimp only
    rw [schemaFiles_of_perm hperm, loadFiles_of_look hlook]

/-- A directory with a schema, a file that holds no value, and a file without a stem. -/
def mixedFiles : Disk where
  look path := .ok (.file (encoded
    (if path = ⟨encoded "d/a.json".toList⟩ then "\x7b\x7d" else "[").toList))
  list _ := .ok (["b.json", ".json", "a.json"].map (fun name => encoded name.toList))

theorem schemaFiles_mixedFiles :
    schemaFiles (["b.json", ".json", "a.json"].map (fun name => encoded name.toList)) =
      [(encoded "a.json".toList, "a"), (encoded "b.json".toList, "b")] := by
  have hsorted : (["b.json", ".json", "a.json"].map (fun name => encoded name.toList)).Perm
      ([".json", "a.json", "b.json"].map (fun name => encoded name.toList)) := by
    decide
  have hnone : schemaName? (encoded ".json".toList) = none := rfl
  have ha : schemaName? (encoded "a.json".toList) = some "a" := by
    rw [schemaName?_eq_some_iff, FileName.ofString, FileName.ofString, toList_toUTF8, toList_toUTF8]
    exact ⟨rfl, by decide, by decide⟩
  have hb : schemaName? (encoded "b.json".toList) = some "b" := by
    rw [schemaName?_eq_some_iff, FileName.ofString, FileName.ofString, toList_toUTF8, toList_toUTF8]
    exact ⟨rfl, by decide, by decide⟩
  rw [schemaFiles_of_perm hsorted, schemaFiles, List.mergeSort_of_pairwise (by decide)]
  simp only [List.map_cons, List.map_nil, List.filterMap_cons, List.filterMap_nil, hnone, ha, hb,
    Option.map_none, Option.map_some]

theorem loadDirectory_mixedFiles :
    ∃ after, Registry.loadDirectory ⟨[("a", .names ["x"]), ("c", .names ["y"])]⟩ mixedFiles
        ⟨encoded "d".toList⟩ = (.error (.malformed ⟨encoded "d/b.json".toList⟩), after) ∧
      after.get? "a" = some .absent ∧ after.get? "b" = none ∧
        after.get? "c" = some (.names ["y"]) := by
  have hlist : mixedFiles.list ⟨encoded "d".toList⟩ =
      .ok (["b.json", ".json", "a.json"].map (fun name => encoded name.toList)) := rfl
  have hfirst : mixedFiles.loadSchema
      (Path.entry ⟨encoded "d".toList⟩ (encoded "a.json".toList)) = .ok (.object []) := rfl
  have hsecond : mixedFiles.loadSchema
      (Path.entry ⟨encoded "d".toList⟩ (encoded "b.json".toList)) =
        .error (.malformed ⟨encoded "d/b.json".toList⟩) := rfl
  have hbefore : AllLoad mixedFiles ⟨encoded "d".toList⟩ [(encoded "a.json".toList, "a")] := by
    intro other hother
    obtain rfl := List.mem_singleton.mp hother
    exact ⟨.object [], hfirst⟩
  have hexact := loadDirectory_exact ⟨[("a", .names ["x"]), ("c", .names ["y"])]⟩ hlist
  obtain ⟨-, after, hafter, hwritten⟩ :=
    hexact.interrupted _ _ _ ⟨⟨"b", [], schemaFiles_mixedFiles⟩, hbefore, hsecond⟩
  obtain ⟨schema, hschema, ha⟩ := hwritten.get?_of_mem _ _ List.mem_cons_self
  obtain rfl : Json.object [] = schema := Except.ok.inj (hfirst.symm.trans hschema)
  refine ⟨after, hafter, ha, ?_, ?_⟩
  · exact hwritten.get?_of_not_mem "b" (by decide)
  · exact hwritten.get?_of_not_mem "c" (by decide)

end Registry
end RequiredKeys
