import RequiredKeys.Program.Failure
import RequiredKeys.Program.Settings
import RequiredKeys.Proofs.Json.Agreement
import RequiredKeys.Proofs.Json.Encoding
import Mathlib.Data.List.Nodup

/-!
# What a settings file says

Settings are read in three steps: the text becomes a value, the value becomes a row of fields, and
the fields are taken over one after the other.  This module says what comes out by the row of fields
alone, in which neither the order nor the spelling is left.

* `GivesField` is one field: its member gives the value, and without one the value stays.
* `DeclaredSettings.Sets` is a row of fields that starts from any settings; one field is
  `assign_eq_some_iff`, and the row is `foldlM_assign_eq_some_iff`, by induction.
* `Settings.GivenBy` is a row of fields that starts from the defaults.
* `ListsFields` is the text of a row of fields, in either of its forms.

`Settings.decodes` puts the steps together.
-/

namespace RequiredKeys

/-! ## Fields -/

/-- What some members make of a field: `reads` tells the values that may come of its member.  If
there is none the field keeps the value it has. -/
def GivesField {α : Type} (members : List (String × Json)) (name : String)
    (reads : Json → α → Prop) (before after : α) : Prop :=
  (∃ json, (name, json) ∈ members ∧ reads json after) ∨
    (name ∉ members.map Prod.fst ∧ after = before)

/-- A choice between words is made by a word, or by an object that has it for its only key. -/
inductive Chooses {α : Type} (name : α → String) : Json → α → Prop
  | word (choice : α) : Chooses name (.string (name choice)) choice
  | member (choice : α) : Chooses name (.object [(name choice, .null)]) choice

namespace GivesField

variable {α : Type} {members : List (String × Json)} {key name : String} {json : Json}
  {reads : Json → α → Prop} {before after : α}

theorem nil_iff : GivesField [] name reads before after ↔ after = before := by
  simp [GivesField]

theorem singleton_iff :
    GivesField [(key, json)] name reads before after ↔
      if key = name then reads json after else after = before := by
  unfold GivesField
  by_cases hkey : key = name
  · simp [hkey]
  · simp [hkey, Ne.symm hkey]

/-- The first member of a row, if no other has its name, can be taken by itself. -/
theorem cons_iff (hfresh : key ∉ members.map Prod.fst) :
    GivesField ((key, json) :: members) name reads before after ↔
      ∃ middle, GivesField [(key, json)] name reads before middle ∧
        GivesField members name reads middle after := by
  simp only [singleton_iff]
  by_cases hkey : key = name
  · subst hkey
    have hrest (found : Json) : (key, found) ∉ members :=
      fun hmem => hfresh (List.mem_map.mpr ⟨_, hmem, rfl⟩)
    simp [GivesField, hrest, hfresh]
  · simp [GivesField, hkey, Ne.symm hkey]

/-- The order of the members does not matter. -/
theorem perm_iff {others : List (String × Json)} (h : members.Perm others) :
    GivesField members name reads before after ↔ GivesField others name reads before after := by
  simp only [GivesField, h.mem_iff, (h.map Prod.fst).mem_iff]

/-- If no name is given twice, the value is the one that is read off the member at hand. -/
theorem reads_of_mem (h : GivesField members name reads before after)
    (hnodup : (members.map Prod.fst).Nodup) (hmem : (name, json) ∈ members) :
    reads json after := by
  obtain ⟨found, hfound, hreads⟩ | ⟨habsent, -⟩ := h
  · have hsame := List.inj_on_of_nodup_map hnodup hfound hmem rfl
    rwa [← (Prod.mk.inj hsame).2]
  · exact absurd (List.mem_map.mpr ⟨_, hmem, rfl⟩) habsent

end GivesField

namespace DeclaredSettings

theorem choice?_eq_some_iff {α : Type} {words : List (String × α)} {name : α → String}
    (hwords : ∀ word choice, words.lookup word = some choice ↔ word = name choice) {json : Json}
    {choice : α} : choice? words json = some choice ↔ Chooses name json choice := by
  constructor
  · intro h
    unfold choice? at h
    split at h
    · next word =>
        obtain rfl := (hwords word choice).mp h
        exact .word choice
    · next word =>
        obtain rfl := (hwords word choice).mp h
        exact .member choice
    · contradiction
  · rintro (_ | _)
    · exact (hwords _ choice).mpr rfl
    · exact (hwords _ choice).mpr rfl

/-- Choices are found by their words, if no two of them share one. -/
theorem lookup_words_eq_some_iff {α : Type} {name : α → String}
    (hname : ∀ left right, name left = name right → left = right) (choices : List α)
    (word : String) (choice : α) :
    (choices.map (fun choice => (name choice, choice))).lookup word = some choice ↔
      choice ∈ choices ∧ word = name choice := by
  induction choices with
  | nil => simp
  | cons first rest ih =>
      rw [List.map_cons, List.lookup_cons]
      by_cases hword : word = name first
      · have hsame : word = name choice ↔ choice = first := by
          rw [hword]
          exact ⟨fun h => hname _ _ h.symm, fun h => congrArg name h.symm⟩
        rw [beq_iff_eq.mpr hword, hsame, Option.some.injEq]
        constructor
        · rintro rfl
          exact ⟨List.mem_cons_self, rfl⟩
        · exact fun h => h.2.symm
      · rw [beq_false_of_ne hword, ih]
        constructor
        · rintro ⟨hmem, hsame⟩
          exact ⟨List.mem_cons_of_mem _ hmem, hsame⟩
        · rintro ⟨hmem, rfl⟩
          obtain rfl | hmem := List.mem_cons.mp hmem
          · exact absurd rfl hword
          · exact ⟨hmem, rfl⟩

theorem choice?_scope_iff {json : Json} {scope : MatchScope} :
    choice? MatchScope.words json = some scope ↔ Chooses MatchScope.name json scope := by
  apply choice?_eq_some_iff
  intro word choice
  have hname (left right : MatchScope) (h : left.name = right.name) : left = right := by
    cases left <;> cases right <;> first | rfl | exact absurd h (by decide)
  have hmem : choice ∈ [MatchScope.anywhere, .topLevel] := by cases choice <;> decide
  exact (lookup_words_eq_some_iff hname [.anywhere, .topLevel] word choice).trans
    (and_iff_right hmem)

theorem choice?_format_iff {json : Json} {format : LogFormat} :
    choice? LogFormat.words json = some format ↔ Chooses LogFormat.name json format := by
  apply choice?_eq_some_iff
  intro word choice
  have hname (left right : LogFormat) (h : left.name = right.name) : left = right := by
    cases left <;> cases right <;> first | rfl | exact absurd h (by decide)
  have hmem : choice ∈ [LogFormat.text, .json] := by cases choice <;> decide
  exact (lookup_words_eq_some_iff hname [.text, .json] word choice).trans (and_iff_right hmem)

theorem bool?_eq_some_iff {json : Json} {stop : Bool} :
    bool? json = some stop ↔ json = .bool stop := by
  cases json <;> simp [bool?]

theorem string?_eq_some_iff {json : Json} {text : String} :
    json.string? = some text ↔ json = .string text := by
  cases json <;> simp [Json.string?]

/-- What a row of fields makes of some settings. -/
structure Sets (before : DeclaredSettings) (fields : List (String × Json))
    (after : DeclaredSettings) : Prop where
  known : ∀ name ∈ fields.map Prod.fst, name ∈ fieldNames
  scope : GivesField fields "match_scope" (Chooses MatchScope.name) before.scope after.scope
  stopWhenSatisfied : GivesField fields "stop_when_satisfied" (fun json stop => json = .bool stop)
    before.stopWhenSatisfied after.stopWhenSatisfied
  levelName : GivesField fields "log_level" (fun json name => json = .string name)
    before.levelName after.levelName
  format : GivesField fields "log_format" (Chooses LogFormat.name) before.format after.format

variable {before after : DeclaredSettings} {fields rest : List (String × Json)} {name : String}
  {json : Json}

theorem sets_singleton_iff :
    before.Sets [(name, json)] after ↔
      name ∈ fieldNames ∧
      (if name = "match_scope" then Chooses MatchScope.name json after.scope
        else after.scope = before.scope) ∧
      (if name = "stop_when_satisfied" then json = .bool after.stopWhenSatisfied
        else after.stopWhenSatisfied = before.stopWhenSatisfied) ∧
      (if name = "log_level" then json = .string after.levelName
        else after.levelName = before.levelName) ∧
      (if name = "log_format" then Chooses LogFormat.name json after.format
        else after.format = before.format) := by
  constructor
  · rintro ⟨known, scope, stop, level, format⟩
    rw [GivesField.singleton_iff] at scope stop level format
    exact ⟨known name (by simp), scope, stop, level, format⟩
  · rintro ⟨known, scope, stop, level, format⟩
    refine ⟨by simpa using known, ?_, ?_, ?_, ?_⟩
    · exact GivesField.singleton_iff.mpr scope
    · exact GivesField.singleton_iff.mpr stop
    · exact GivesField.singleton_iff.mpr level
    · exact GivesField.singleton_iff.mpr format

/-- A field that can be read is taken over, and can be told from the settings that come of it. -/
theorem takesOver_iff {α : Type} {found : Option α} {reads : α → Prop}
    (hfound : ∀ value, found = some value ↔ reads value) {put : α → DeclaredSettings}
    (get : DeclaredSettings → α) (hget : ∀ value, get (put value) = value) :
    found.map put = some after ↔ reads (get after) ∧ after = put (get after) := by
  rw [Option.map_eq_some_iff]
  constructor
  · rintro ⟨value, hvalue, rfl⟩
    rw [hget]
    exact ⟨(hfound value).mp hvalue, rfl⟩
  · rintro ⟨hreads, hafter⟩
    exact ⟨get after, (hfound _).mpr hreads, hafter.symm⟩

/-- **One field.** -/
theorem assign_eq_some_iff :
    before.assign (name, json) = some after ↔ before.Sets [(name, json)] after := by
  rw [sets_singleton_iff]
  -- In each case one field is taken over, and the settings agree in the three others.
  unfold assign
  dsimp only
  split
  · rw [takesOver_iff (fun _ => choice?_scope_iff) scope (fun _ => rfl)]
    cases after
    simp [fieldNames]
  · rw [takesOver_iff (fun _ => bool?_eq_some_iff) stopWhenSatisfied (fun _ => rfl)]
    cases after
    simp [fieldNames, and_left_comm]
  · rw [takesOver_iff (fun _ => string?_eq_some_iff) levelName (fun _ => rfl)]
    cases after
    simp [fieldNames, and_left_comm]
  · rw [takesOver_iff (fun _ => choice?_format_iff) format (fun _ => rfl)]
    cases after
    simp [fieldNames, and_assoc, and_left_comm, and_comm]
  · next hscope hstop hlevel hformat =>
      have hunknown : name ∉ fieldNames := by
        simpa [fieldNames] using ⟨hscope, hstop, hlevel, hformat⟩
      simp [hunknown]

theorem sets_cons_iff (hfresh : name ∉ rest.map Prod.fst) :
    before.Sets ((name, json) :: rest) after ↔
      ∃ middle, before.Sets [(name, json)] middle ∧ middle.Sets rest after := by
  constructor
  · intro h
    obtain ⟨scope, hscope, hscope'⟩ := (GivesField.cons_iff hfresh).mp h.scope
    obtain ⟨stop, hstop, hstop'⟩ := (GivesField.cons_iff hfresh).mp h.stopWhenSatisfied
    obtain ⟨level, hlevel, hlevel'⟩ := (GivesField.cons_iff hfresh).mp h.levelName
    obtain ⟨format, hformat, hformat'⟩ := (GivesField.cons_iff hfresh).mp h.format
    obtain ⟨hname, hrest⟩ := List.forall_mem_cons.mp h.known
    exact ⟨⟨scope, stop, level, format⟩,
      ⟨List.forall_mem_singleton.mpr hname, hscope, hstop, hlevel, hformat⟩,
      ⟨hrest, hscope', hstop', hlevel', hformat'⟩⟩
  · rintro ⟨middle, hfirst, hrest⟩
    constructor
    · exact List.forall_mem_cons.mpr ⟨hfirst.known name (by simp), hrest.known⟩
    · exact (GivesField.cons_iff hfresh).mpr ⟨_, hfirst.scope, hrest.scope⟩
    · exact (GivesField.cons_iff hfresh).mpr ⟨_, hfirst.stopWhenSatisfied, hrest.stopWhenSatisfied⟩
    · exact (GivesField.cons_iff hfresh).mpr ⟨_, hfirst.levelName, hrest.levelName⟩
    · exact (GivesField.cons_iff hfresh).mpr ⟨_, hfirst.format, hrest.format⟩

/-- **A row of fields**, one after the other. -/
theorem foldlM_assign_eq_some_iff (hnodup : (fields.map Prod.fst).Nodup) :
    fields.foldlM assign before = some after ↔ before.Sets fields after := by
  induction fields generalizing before with
  | nil =>
      rw [List.foldlM_nil]
      constructor
      · intro h
        obtain rfl := Option.some.inj h
        constructor <;> simp [GivesField.nil_iff]
      · intro h
        have hscope := GivesField.nil_iff.mp h.scope
        have hstop := GivesField.nil_iff.mp h.stopWhenSatisfied
        have hlevel := GivesField.nil_iff.mp h.levelName
        have hformat := GivesField.nil_iff.mp h.format
        cases before
        cases after
        simp_all
  | cons field rest ih =>
      obtain ⟨name, json⟩ := field
      obtain ⟨hfresh, hrest⟩ := List.nodup_cons.mp hnodup
      rw [List.foldlM_cons, Option.bind_eq_bind, Option.bind_eq_some_iff, sets_cons_iff hfresh]
      exact exists_congr (fun middle => and_congr assign_eq_some_iff (ih hrest))

theorem ofFields?_eq_some_iff :
    ofFields? fields = some after ↔ (fields.map Prod.fst).Nodup ∧ Sets {} fields after := by
  unfold ofFields?
  by_cases hnodup : (fields.map Prod.fst).Nodup
  · rw [if_pos hnodup, foldlM_assign_eq_some_iff hnodup, and_iff_right hnodup]
  · simp [hnodup]

end DeclaredSettings

/-! ## Settings -/

theorem LogLevel.ofName?_eq_some_iff {name : String} {level : LogLevel} :
    ofName? name = some level ↔ name = level.name := by
  constructor
  · intro h
    have hfound := List.find?_some h
    exact (beq_iff_eq.mp hfound).symm
  · rintro rfl
    exact ofName?_name level

namespace Settings

/-- The settings that a row of fields gives.  Each field is read by its own rule, and a field that
is left out has its default. -/
structure GivenBy (fields : List (String × Json)) (settings : Settings) : Prop where
  once : (fields.map Prod.fst).Nodup
  known : ∀ name ∈ fields.map Prod.fst, name ∈ DeclaredSettings.fieldNames
  scope : GivesField fields "match_scope" (Chooses MatchScope.name) .anywhere settings.scope
  stopWhenSatisfied : GivesField fields "stop_when_satisfied" (fun json stop => json = .bool stop)
    true settings.stopWhenSatisfied
  level : GivesField fields "log_level" (fun json level => json = .string level.name)
    .info settings.level
  format : GivesField fields "log_format" (Chooses LogFormat.name) .text settings.format

variable {fields others : List (String × Json)} {settings : Settings}

/-- The level is checked behind the fields, and the default level exists. -/
theorem exists_resolve_iff :
    (∃ declared, DeclaredSettings.ofFields? fields = some declared ∧
      declared.resolve = .ok settings) ↔ GivenBy fields settings := by
  simp only [DeclaredSettings.ofFields?_eq_some_iff]
  constructor
  · rintro ⟨declared, ⟨honce, hsets⟩, hresolve⟩
    unfold DeclaredSettings.resolve at hresolve
    split at hresolve
    · next level hlevel =>
        obtain rfl := Except.ok.inj hresolve
        have hname := LogLevel.ofName?_eq_some_iff.mp hlevel
        refine ⟨honce, hsets.known, hsets.scope, hsets.stopWhenSatisfied, ?_, hsets.format⟩
        obtain ⟨json, hmem, hjson⟩ | ⟨habsent, hdefault⟩ := hsets.levelName
        · exact .inl ⟨json, hmem, hjson.trans (congrArg Json.string hname)⟩
        · have hinfo : LogLevel.ofName? LogLevel.info.name = some level := by
            rw [← hlevel, hdefault]
          rw [LogLevel.ofName?_name] at hinfo
          exact .inr ⟨habsent, (Option.some.inj hinfo).symm⟩
    · contradiction
  · intro h
    refine ⟨⟨settings.scope, settings.stopWhenSatisfied, settings.level.name, settings.format⟩,
      ⟨h.once, h.known, h.scope, h.stopWhenSatisfied, ?_, h.format⟩, ?_⟩
    · obtain ⟨json, hmem, hjson⟩ | ⟨habsent, hdefault⟩ := h.level
      · exact .inl ⟨json, hmem, hjson⟩
      · exact .inr ⟨habsent, congrArg LogLevel.name hdefault⟩
    · simp only [DeclaredSettings.resolve, LogLevel.ofName?_name]

/-- The order of the fields does not matter. -/
theorem GivenBy.perm (h : GivenBy fields settings) (hperm : fields.Perm others) :
    GivenBy others settings := by
  have hkeys := hperm.map Prod.fst
  constructor
  case once => exact hkeys.nodup_iff.mp h.once
  case known => exact fun name hname => h.known name (hkeys.mem_iff.mpr hname)
  case scope => exact (GivesField.perm_iff hperm).mp h.scope
  case stopWhenSatisfied => exact (GivesField.perm_iff hperm).mp h.stopWhenSatisfied
  case level => exact (GivesField.perm_iff hperm).mp h.level
  case format => exact (GivesField.perm_iff hperm).mp h.format

theorem givenBy_nil_iff : GivenBy [] settings ↔ settings = {} := by
  constructor
  · intro h
    have hscope := GivesField.nil_iff.mp h.scope
    have hstop := GivesField.nil_iff.mp h.stopWhenSatisfied
    have hlevel := GivesField.nil_iff.mp h.level
    have hformat := GivesField.nil_iff.mp h.format
    cases settings
    simp_all
  · rintro rfl
    constructor <;> simp [GivesField.nil_iff]

/-! ## Texts -/

/-- The fields that a value lists: they are the members of an object, or else the elements of an
array go to the first of the fields in their order. -/
inductive ListsFields : Json → List (String × Json) → Prop
  | object (members : List (String × Json)) : ListsFields (.object members) members
  | array (elements : List Json) (hlength : elements.length ≤ DeclaredSettings.fieldNames.length) :
      ListsFields (.array elements) (DeclaredSettings.fieldNames.zip elements)

variable {json : Json} {text : List UInt8}

theorem ListsFields.unique (h : ListsFields json fields) (hother : ListsFields json others) :
    fields = others := by
  cases h <;> cases hother <;> rfl

theorem ofJson?_eq_some_iff {declared : DeclaredSettings} :
    DeclaredSettings.ofJson? json = some declared ↔
      ∃ fields, ListsFields json fields ∧ DeclaredSettings.ofFields? fields = some declared := by
  constructor
  · intro h
    unfold DeclaredSettings.ofJson? at h
    split at h
    · next members => exact ⟨members, .object members, h⟩
    · next elements =>
        split at h
        · next hlength => exact ⟨_, .array elements hlength, h⟩
        · contradiction
    · contradiction
  · rintro ⟨fields, hfields, h⟩
    cases hfields with
    | object => exact h
    | array elements hlength => rwa [DeclaredSettings.ofJson?, if_pos hlength]

/-- The values of fields have few brackets and no numbers. -/
theorem GivenBy.fits (h : GivenBy fields settings) {limit depth : Nat} (hdepth : depth + 1 ≤ limit)
    {field : String × Json} (hmem : field ∈ fields) : field.2.Fits limit depth := by
  have hword (text : String) : (Json.string text).Fits limit depth :=
    Json.fits_string_iff.mpr (by omega)
  have hchoice {α : Type} {word : α → String} {choice : α} {json : Json}
      (hreads : Chooses word json choice) : json.Fits limit depth := by
    cases hreads with
    | word => exact hword _
    | member =>
        refine Json.fits_object_iff.mpr ⟨hdepth, List.forall_mem_singleton.mpr ?_⟩
        exact Json.fits_null_iff.mpr hdepth
  obtain ⟨name, json⟩ := field
  have hname := h.known name (List.mem_map.mpr ⟨_, hmem, rfl⟩)
  simp only [DeclaredSettings.fieldNames, List.mem_cons, List.not_mem_nil, or_false] at hname
  obtain rfl | rfl | rfl | rfl := hname
  · exact hchoice (h.scope.reads_of_mem h.once hmem)
  · rw [h.stopWhenSatisfied.reads_of_mem h.once hmem]
    exact Json.fits_bool_iff.mpr (by omega)
  · rw [h.level.reads_of_mem h.once hmem]
    exact hword _
  · exact hchoice (h.format.reads_of_mem h.once hmem)

/-- A value that gives settings is within all limits of the reader. -/
theorem ListsFields.fits (h : ListsFields json fields) (hgiven : GivenBy fields settings) :
    json.Fits Json.Reader.maxNesting 0 := by
  have hroom : 0 + 1 + 1 ≤ Json.Reader.maxNesting := by decide
  cases h with
  | object => exact Json.fits_object_iff.mpr ⟨by omega, fun member hmem => hgiven.fits hroom hmem⟩
  | array elements hlength =>
      refine Json.fits_array_iff.mpr ⟨by omega, ?_⟩
      intro element hmem
      rw [← List.map_snd_zip hlength] at hmem
      obtain ⟨field, hfield, rfl⟩ := List.mem_map.mp hmem
      exact hgiven.fits hroom hfield

/-- **What a text gives.** -/
theorem ofBytes_eq_ok_iff :
    ofBytes text = .ok settings ↔
      ∃ json fields, DocumentText text [json] ∧ ListsFields json fields ∧
        GivenBy fields settings := by
  simp only [← exists_resolve_iff]
  constructor
  · intro h
    unfold ofBytes at h
    split at h
    · contradiction
    · split at h
      · next declared hdeclared =>
          obtain ⟨json, hread, hjson⟩ := Option.bind_eq_some_iff.mp hdeclared
          obtain ⟨fields, hfields, hdeclares⟩ := ofJson?_eq_some_iff.mp hjson
          exact ⟨json, fields, (Json.read?_eq_some_iff_documentText.mp hread).1, hfields,
            declared, hdeclares, h⟩
      · contradiction
  · rintro ⟨json, fields, htext, hfields, declared, hdeclares, hresolve⟩
    have hfits := hfields.fits (exists_resolve_iff.mp ⟨declared, hdeclares, hresolve⟩)
    have hread := Json.read?_eq_some_iff_documentText.mpr ⟨htext, hfits⟩
    obtain ⟨chars, hchars⟩ := isEncoded_iff.mp htext.isEncoded
    have hjson := ofJson?_eq_some_iff.mpr ⟨fields, hfields, hdeclares⟩
    rw [ofBytes, hchars, hread]
    simp only [Option.bind_some, hjson, hresolve]

/-! ## Files -/

/-- The file under a path can be read, and the value it writes lists the fields. -/
def FileLists (disk : Disk) (path : Path) (fields : List (String × Json)) : Prop :=
  ∃ text json, (disk.look path >>= FileContent.read) = .ok text ∧ DocumentText text [json] ∧
    ListsFields json fields

variable {disk : Disk} {path : Path}

theorem load_eq_ok_iff :
    load disk path = .ok settings ↔
      ∃ fields, FileLists disk path fields ∧ GivenBy fields settings := by
  constructor
  · intro h
    unfold load at h
    split at h
    · contradiction
    · next text htext =>
        obtain ⟨json, fields, hjson, hfields, hgiven⟩ := ofBytes_eq_ok_iff.mp h
        exact ⟨fields, ⟨text, json, htext, hjson, hfields⟩, hgiven⟩
  · rintro ⟨fields, ⟨text, json, htext, hjson, hfields⟩, hgiven⟩
    rw [load, htext]
    exact ofBytes_eq_ok_iff.mpr ⟨json, fields, hjson, hfields, hgiven⟩

/-- Of a file whose fields are known, the settings are those that the fields give. -/
theorem load_eq_ok_iff_of_fileLists (h : FileLists disk path fields) :
    load disk path = .ok settings ↔ GivenBy fields settings := by
  rw [load_eq_ok_iff]
  constructor
  · rintro ⟨others, ⟨text, json, htext, hjson, hothers⟩, hgiven⟩
    obtain ⟨found, other, hfound, hother, hfields⟩ := h
    rw [htext] at hfound
    obtain rfl := Except.ok.inj hfound
    obtain rfl := Json.documentText_unique hother hjson (hothers.fits hgiven)
    rwa [hfields.unique hothers]
  · intro hgiven
    exact ⟨fields, h, hgiven⟩

/-- What reading settings comes to. -/
structure Decodes (disk : Disk) (path : Path) : Prop where
  /-- Settings are loaded if and only if the file lists fields that give them. -/
  load_iff : ∀ settings, load disk path = .ok settings ↔
    ∃ fields, FileLists disk path fields ∧ GivenBy fields settings
  /-- Everything else is refused, with one code. -/
  refused : (∀ fields settings, FileLists disk path fields → ¬ GivenBy fields settings) →
    ∃ error, load disk path = .error error ∧ (Failure.ofSettings error).code = "CONFIG_ERROR"
  /-- Two files that list the same fields, in any order, in either form and however they are
  spelt, load the same settings. -/
  sameFields : ∀ otherDisk otherPath fields others, FileLists disk path fields →
    FileLists otherDisk otherPath others → fields.Perm others → ∀ settings,
      load disk path = .ok settings ↔ load otherDisk otherPath = .ok settings
  /-- Without a file the settings are those of a file without fields. -/
  defaults : ∀ settings, loadOrDefault disk none = .ok settings ↔ GivenBy [] settings

/-- **Settings are decoded exactly**, and by their fields alone. -/
theorem decodes (disk : Disk) (path : Path) : Decodes disk path := by
  constructor
  case load_iff => exact fun settings => load_eq_ok_iff
  case refused =>
    intro hnone
    cases hload : load disk path with
    | error error => exact ⟨error, rfl, rfl⟩
    | ok settings =>
        obtain ⟨fields, hfields, hgiven⟩ := load_eq_ok_iff.mp hload
        exact absurd hgiven (hnone fields settings hfields)
  case sameFields =>
    intro otherDisk otherPath fields others hfields hothers hperm settings
    rw [load_eq_ok_iff_of_fileLists hfields, load_eq_ok_iff_of_fileLists hothers]
    exact ⟨fun h => h.perm hperm, fun h => h.perm hperm.symm⟩
  case defaults =>
    intro settings
    rw [givenBy_nil_iff, loadOrDefault, Except.ok.injEq, eq_comm]

end Settings
end RequiredKeys
