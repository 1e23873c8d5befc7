import RequiredKeys.Requirement.Snapshot
import Mathlib.Data.List.Infix
import Mathlib.Data.List.Induction

/-!
# The identity of snapshots

Snapshots carry numbers that tell whether two of them are the same one.  What the numbers are
meant to say is said here without them, by how a history came about: `Origin steps index origin`
leads from a snapshot back to the step that made it from names or by taking a name away, through
copies and through observations that took nothing away.

* `performs_perform` is all that one step can do: nothing, add a snapshot under a new number, or
  add one that is there already.
* `Adds history step snapshot` says which snapshot a step of each kind adds, and with which names;
  `adds_perform` says that this is the one, and that a step adds nothing only if there is none.
* `Origin.snapshot?_eq`: a snapshot is the one at its origin, number and names together.
* `Origin.eq_of_identity_eq`: no two origins have the same number, since each one got the next
  number that was free.

`identities_ofSteps` puts this together, for every row of steps.
-/

namespace RequiredKeys

/-- As long as the number of names stays, no name is taken away. -/
theorem Outstanding.remaining_observe_eq_iff (outstanding : Outstanding) (token : Token) :
    (outstanding.observe token).remaining = outstanding.remaining ↔
      (outstanding.observe token).names = outstanding.names := by
  refine ⟨?_, congrArg List.length⟩
  intro hlength
  cases hoffers : token.offeredName? with
  | none => rw [observe_of_offeredName?_eq_none hoffers]
  | some name =>
      rw [observe_of_offeredName?_eq_some hoffers] at hlength ⊢
      exact List.erase_sublist.eq_of_length hlength

namespace History

/-! ## One step -/

/-- The step makes a snapshot of its own: from names, or by taking one of them away. -/
inductive Makes (history : History) : Step → Prop
  | ofNames (names : List String) : Makes history (.ofNames names)
  | satisfied : Makes history .satisfied
  | seed {clause : Clause} {outstanding : Outstanding}
      (h : Outstanding.ofClause clause = .ok outstanding) : Makes history (.seed clause)
  | observe {index : Nat} {token : Token} {snapshot : Snapshot}
      (h : history.snapshot? index = some snapshot)
      (htaken : (snapshot.outstanding.observe token).names ≠ snapshot.outstanding.names) :
      Makes history (.observe index token)

/-- The step hands the snapshot at an index on: it copies it, or it observes a token that takes
none of its names away. -/
inductive HandsOn (history : History) : Step → Nat → Prop
  | copy {index : Nat} {snapshot : Snapshot} (h : history.snapshot? index = some snapshot) :
      HandsOn history (.copy index) index
  | observe {index : Nat} {token : Token} {snapshot : Snapshot}
      (h : history.snapshot? index = some snapshot)
      (hkept : (snapshot.outstanding.observe token).names = snapshot.outstanding.names) :
      HandsOn history (.observe index token) index

/-- Everything that a step can do to a history. -/
inductive Performs (history : History) (step : Step) : History → Prop
  | nothing (hmakes : ¬ Makes history step) (hhands : ∀ index, ¬ HandsOn history step index) :
      Performs history step history
  | create (outstanding : Outstanding) (h : Makes history step) :
      Performs history step (history.create outstanding)
  | keep {index : Nat} {snapshot : Snapshot} (hsnapshot : history.snapshot? index = some snapshot)
      (h : HandsOn history step index) : Performs history step (history.keep snapshot)

variable {history : History} {snapshot : Snapshot} {token : Token}

/-- Behind a token that takes nothing away the snapshot is still the same. -/
theorem observe_of_kept
    (h : (snapshot.outstanding.observe token).names = snapshot.outstanding.names) :
    history.observe snapshot token = history.keep snapshot := by
  unfold observe
  split
  · next name hoffers =>
      rw [Outstanding.observe_of_offeredName?_eq_some hoffers, List.erase_eq_self_iff] at h
      rw [if_neg h]
  · rfl

theorem observe_of_taken
    (h : (snapshot.outstanding.observe token).names ≠ snapshot.outstanding.names) :
    history.observe snapshot token = history.create (snapshot.outstanding.observe token) := by
  unfold observe
  split
  · next name hoffers =>
      rw [Outstanding.observe_of_offeredName?_eq_some hoffers] at h ⊢
      rw [if_pos (by simpa using h)]
  · next hoffers =>
      rw [Outstanding.observe_of_offeredName?_eq_none hoffers] at h
      contradiction

theorem performs_perform (history : History) (step : Step) :
    Performs history step (history.perform step) := by
  cases step with
  | ofNames names => exact .create _ (.ofNames names)
  | satisfied => exact .create _ .satisfied
  | seed clause =>
      unfold perform
      dsimp only
      split
      · next outstanding hclause => exact .create outstanding (.seed hclause)
      · next error hclause =>
          refine .nothing ?_ nofun
          rintro (_ | _ | hother)
          simp [hclause] at hother
  | copy index =>
      unfold perform
      dsimp only
      split
      · next snapshot hsnapshot => exact .keep hsnapshot (.copy hsnapshot)
      · next hnone =>
          refine .nothing nofun ?_
          rintro _ (hother | _)
          simp [hnone] at hother
  | observe index token =>
      unfold perform
      dsimp only
      split
      · next snapshot hsnapshot =>
          by_cases hkept :
              (snapshot.outstanding.observe token).names = snapshot.outstanding.names
          · rw [observe_of_kept hkept]
            exact .keep hsnapshot (.observe hsnapshot hkept)
          · rw [observe_of_taken hkept]
            exact .create _ (.observe hsnapshot hkept)
      · next hnone =>
          refine .nothing ?_ ?_
          · rintro (_ | _ | _ | ⟨hother, -⟩)
            simp [hnone] at hother
          · rintro _ (_ | ⟨hother, -⟩)
            simp [hnone] at hother

/-- A snapshot that is handed on is not made. -/
theorem HandsOn.not_makes {step : Step} {index : Nat} (h : HandsOn history step index) :
    ¬ Makes history step := by
  intro hmakes
  cases h with
  | copy => nomatch hmakes
  | observe hsnapshot hkept =>
      cases hmakes with
      | observe hother htaken =>
          rw [hsnapshot, Option.some.injEq] at hother
          subst hother
          exact htaken hkept

/-- A step hands one snapshot on at most. -/
theorem HandsOn.index_eq {step : Step} {index other : Nat} (h : HandsOn history step index)
    (hother : HandsOn history step other) : index = other := by
  cases h with
  | copy => cases hother with
    | copy => rfl
  | observe => cases hother with
    | observe => rfl

theorem HandsOn.lt_length {step : Step} {index : Nat} (h : HandsOn history step index) :
    index < history.snapshots.length := by
  cases h with
  | copy hsnapshot => exact (List.getElem?_eq_some_iff.mp hsnapshot).1
  | observe hsnapshot _ => exact (List.getElem?_eq_some_iff.mp hsnapshot).1

theorem exists_create_of_makes {step : Step} (h : Makes history step) :
    ∃ outstanding, history.perform step = history.create outstanding := by
  have hperforms := performs_perform history step
  generalize history.perform step = after at hperforms ⊢
  cases hperforms with
  | nothing hmakes _ => exact absurd h hmakes
  | create outstanding _ => exact ⟨outstanding, rfl⟩
  | keep _ hhands => exact absurd h hhands.not_makes

theorem exists_keep_of_handsOn {step : Step} {index : Nat} (h : HandsOn history step index) :
    ∃ snapshot, history.snapshot? index = some snapshot ∧
      history.perform step = history.keep snapshot := by
  have hperforms := performs_perform history step
  generalize history.perform step = after at hperforms ⊢
  cases hperforms with
  | nothing _ hhands => exact absurd h (hhands index)
  | create _ hmakes => exact absurd hmakes h.not_makes
  | keep hsnapshot hhands =>
      obtain rfl := h.index_eq hhands
      exact ⟨_, hsnapshot, rfl⟩

/-- No step changes a snapshot that is there, or takes a number back. -/
theorem grows_perform (history : History) (step : Step) :
    history.snapshots <+: (history.perform step).snapshots ∧
      history.issued ≤ (history.perform step).issued := by
  have hperforms := performs_perform history step
  generalize history.perform step = after at hperforms ⊢
  cases hperforms with
  | nothing => exact ⟨List.prefix_rfl, Nat.le_refl _⟩
  | create outstanding _ => exact ⟨List.prefix_append _ _, Nat.le_succ _⟩
  | keep _ _ => exact ⟨List.prefix_append _ _, Nat.le_refl _⟩

/-! ## What a step adds -/

/-- No snapshot of the history is the same one. -/
def IsNew (history : History) (snapshot : Snapshot) : Prop :=
  ∀ other ∈ history.snapshots, snapshot.shares other = false

/-- The snapshot that a step adds: a new one with certain names, or one that is there.  A malformed
clause and an index without a snapshot have none. -/
inductive Adds (history : History) : Step → Snapshot → Prop
  | ofNames {names : List String} {made : Snapshot} (hnew : IsNew history made)
      (hnames : made.outstanding.names = names.eraseDups) : Adds history (.ofNames names) made
  | satisfied {made : Snapshot} (hnew : IsNew history made)
      (hnames : made.outstanding.names = []) : Adds history .satisfied made
  | seedAbsent {made : Snapshot} (hnew : IsNew history made)
      (hnames : made.outstanding.names = []) : Adds history (.seed .absent) made
  | seedNames {list : List String} {made : Snapshot} (hnew : IsNew history made)
      (hnames : made.outstanding.names = list.eraseDups) :
      Adds history (.seed (.names list)) made
  | copy {index : Nat} {snapshot : Snapshot} (h : history.snapshot? index = some snapshot) :
      Adds history (.copy index) snapshot
  | taken {index : Nat} {token : Token} {snapshot made : Snapshot} {name : String}
      (h : history.snapshot? index = some snapshot) (hoffers : token.offeredName? = some name)
      (hmem : name ∈ snapshot.outstanding.names) (hnew : IsNew history made)
      (hnames : made.outstanding.names = snapshot.outstanding.names.erase name) :
      Adds history (.observe index token) made
  | kept {index : Nat} {token : Token} {snapshot : Snapshot}
      (h : history.snapshot? index = some snapshot)
      (hoffers : ∀ name ∈ snapshot.outstanding.names, token.offeredName? ≠ some name) :
      Adds history (.observe index token) snapshot

theorem perform_observe {index : Nat} (h : history.snapshot? index = some snapshot) :
    history.perform (.observe index token) = history.observe snapshot token := by
  simp only [perform, h]

/-- **A step adds the snapshot of its kind**, or there is none and it adds nothing. -/
theorem adds_perform (hnew : ∀ outstanding, IsNew history ⟨outstanding, history.issued⟩)
    (step : Step) :
    (∃ added, Adds history step added ∧
        (history.perform step).snapshots = history.snapshots ++ [added]) ∨
      (∀ added, ¬ Adds history step added) ∧ history.perform step = history := by
  cases step with
  | ofNames names => exact .inl ⟨_, .ofNames (hnew _) rfl, rfl⟩
  | satisfied => exact .inl ⟨_, .satisfied (hnew _) rfl, rfl⟩
  | seed clause =>
      cases clause with
      | absent => exact .inl ⟨_, .seedAbsent (hnew _) rfl, rfl⟩
      | names list => exact .inl ⟨_, .seedNames (hnew _) rfl, rfl⟩
      | malformed error => exact .inr ⟨nofun, rfl⟩
  | copy index =>
      cases hindex : history.snapshot? index with
      | some snapshot => exact .inl ⟨snapshot, .copy hindex, by simp [perform, hindex, keep]⟩
      | none =>
          refine .inr ⟨?_, by simp [perform, hindex]⟩
          rintro _ (_ | _ | _ | _ | hother)
          simp [hindex] at hother
  | observe index token =>
      cases hindex : history.snapshot? index with
      | some snapshot =>
          rw [perform_observe hindex]
          by_cases htaken : ∃ name ∈ snapshot.outstanding.names, token.offeredName? = some name
          · obtain ⟨name, hmem, hoffers⟩ := htaken
            refine .inl ⟨_, .taken hindex hoffers hmem (hnew ⟨_⟩) rfl, ?_⟩
            simp [observe, hoffers, hmem, create]
          · refine .inl ⟨snapshot, .kept hindex (by simpa using htaken), ?_⟩
            unfold observe
            split
            · next name hoffers =>
                rw [if_neg (fun hmem => htaken ⟨name, hmem, hoffers⟩)]
                rfl
            · rfl
      | none =>
          refine .inr ⟨?_, by simp [perform, hindex]⟩
          rintro _ (_ | _ | _ | _ | _ | ⟨hother, -⟩ | ⟨hother, -⟩) <;> simp [hindex] at hother

/-! ## Rows of steps -/

theorem ofSteps_concat (steps : List Step) (step : Step) :
    ofSteps (steps ++ [step]) = (ofSteps steps).perform step := by
  rw [ofSteps, List.foldl_append]
  rfl

theorem grows_ofSteps (front back : List Step) :
    (ofSteps front).snapshots <+: (ofSteps (front ++ back)).snapshots ∧
      (ofSteps front).issued ≤ (ofSteps (front ++ back)).issued := by
  induction back using List.reverseRecOn with
  | nil =>
      rw [List.append_nil]
      exact ⟨List.prefix_rfl, Nat.le_refl _⟩
  | append_singleton back step ih =>
      rw [← List.append_assoc, ofSteps_concat]
      obtain ⟨hsnapshots, hissued⟩ := grows_perform (ofSteps (front ++ back)) step
      exact ⟨ih.1.trans hsnapshots, Nat.le_trans ih.2 hissued⟩

/-- Later steps leave the snapshots that there are. -/
theorem snapshot?_ofSteps_append {front : List Step} {index : Nat} {snapshot : Snapshot}
    (h : (ofSteps front).snapshot? index = some snapshot) (back : List Step) :
    (ofSteps (front ++ back)).snapshot? index = some snapshot := by
  obtain ⟨more, hmore⟩ := (grows_ofSteps front back).1
  unfold snapshot? at h ⊢
  rw [← hmore, List.getElem?_append_left (List.getElem?_eq_some_iff.mp h).1, h]

/-- Every number that a snapshot has was given out. -/
theorem identity_lt_issued {steps : List Step} {index : Nat} {snapshot : Snapshot}
    (h : (ofSteps steps).snapshot? index = some snapshot) :
    snapshot.identity < (ofSteps steps).issued := by
  induction steps using List.reverseRecOn generalizing index snapshot with
  | nil => simp [ofSteps, snapshot?] at h
  | append_singleton steps step ih =>
      rw [ofSteps_concat] at h ⊢
      have hperforms := performs_perform (ofSteps steps) step
      generalize (ofSteps steps).perform step = after at hperforms h ⊢
      cases hperforms with
      | nothing => exact ih h
      | create outstanding _ =>
          obtain hmem | hmem := List.mem_append.mp (List.mem_of_getElem? h)
          · obtain ⟨place, hplace⟩ := List.mem_iff_getElem?.mp hmem
            exact Nat.lt_succ_of_lt (ih hplace)
          · obtain rfl := List.mem_singleton.mp hmem
            exact Nat.lt_succ_self _
      | keep hkept _ =>
          obtain hmem | hmem := List.mem_append.mp (List.mem_of_getElem? h)
          · obtain ⟨place, hplace⟩ := List.mem_iff_getElem?.mp hmem
            exact ih hplace
          · obtain rfl := List.mem_singleton.mp hmem
            exact ih hkept

/-- The number that is given out next is not in use. -/
theorem isNew_issued (steps : List Step) (outstanding : Outstanding) :
    IsNew (ofSteps steps) ⟨outstanding, (ofSteps steps).issued⟩ := by
  intro other hother
  obtain ⟨index, hindex⟩ := List.mem_iff_getElem?.mp hother
  exact beq_false_of_ne (Nat.ne_of_gt (identity_lt_issued hindex))

/-! ## Origins -/

/-- In a row of steps, this is the step behind `front`, and it adds the snapshot at `index` if it
adds one. -/
structure StepAt (steps front : List Step) (step : Step) (index : Nat) : Prop where
  row : front ++ [step] <+: steps
  index_eq : index = (ofSteps front).snapshots.length

/-- The snapshot at `index` comes from the step that made the one at `origin`, through steps
that handed it on. -/
inductive Origin (steps : List Step) : Nat → Nat → Prop
  | made {front : List Step} {step : Step} {index : Nat} (hstep : StepAt steps front step index)
      (h : Makes (ofSteps front) step) : Origin steps index index
  | handed {front : List Step} {step : Step} {index earlier origin : Nat}
      (hstep : StepAt steps front step index) (h : HandsOn (ofSteps front) step earlier)
      (horigin : Origin steps earlier origin) : Origin steps index origin

variable {steps : List Step}

theorem StepAt.append {front : List Step} {step : Step} {index : Nat}
    (h : StepAt steps front step index) (back : List Step) :
    StepAt (steps ++ back) front step index :=
  ⟨h.row.trans (List.prefix_append _ _), h.index_eq⟩

/-- What a step adds can be seen behind the whole row. -/
theorem StepAt.snapshot? {front : List Step} {step : Step} {index : Nat} {snapshot : Snapshot}
    (h : StepAt steps front step index)
    (hadds : ((ofSteps front).perform step).snapshot? (ofSteps front).snapshots.length =
      some snapshot) : (ofSteps steps).snapshot? index = some snapshot := by
  obtain ⟨⟨back, rfl⟩, rfl⟩ := h
  rw [← ofSteps_concat] at hadds
  exact snapshot?_ofSteps_append hadds back

/-- A snapshot that is made gets the next number. -/
theorem StepAt.exists_identity_eq {front : List Step} {step : Step} {index : Nat}
    (h : StepAt steps front step index) (hmakes : Makes (ofSteps front) step) :
    ∃ snapshot, (ofSteps steps).snapshot? index = some snapshot ∧
      snapshot.identity = (ofSteps front).issued := by
  obtain ⟨outstanding, hcreate⟩ := exists_create_of_makes hmakes
  refine ⟨⟨outstanding, (ofSteps front).issued⟩, h.snapshot? ?_, rfl⟩
  rw [hcreate]
  exact List.getElem?_concat_length

/-- A snapshot that is handed on is the one that it was. -/
theorem StepAt.snapshot?_eq {front : List Step} {step : Step} {index earlier : Nat}
    (h : StepAt steps front step index) (hhands : HandsOn (ofSteps front) step earlier) :
    (ofSteps steps).snapshot? index = (ofSteps steps).snapshot? earlier := by
  obtain ⟨snapshot, hsnapshot, hkeep⟩ := exists_keep_of_handsOn hhands
  have hindex : (ofSteps steps).snapshot? index = some snapshot := by
    refine h.snapshot? ?_
    rw [hkeep]
    exact List.getElem?_concat_length
  obtain ⟨back, hrow⟩ := (List.prefix_append front [step]).trans h.row
  rw [hindex, ← hrow]
  exact (snapshot?_ofSteps_append hsnapshot back).symm

/-- Two steps of a row are the same one, or one of them comes before the other. -/
theorem StepAt.cases {front other : List Step} {step next : Step} {index place : Nat}
    (h : StepAt steps front step index) (hother : StepAt steps other next place) :
    front = other ∨ front ++ [step] <+: other ∨ other ++ [next] <+: front := by
  obtain hprefix | hprefix := List.prefix_or_prefix_of_prefix h.row hother.row
  · obtain heq | hbefore := List.prefix_concat_iff.mp hprefix
    · exact .inl (List.append_inj_left' heq rfl)
    · exact .inr (.inl hbefore)
  · obtain heq | hbefore := List.prefix_concat_iff.mp hprefix
    · exact .inl (List.append_inj_left' heq rfl).symm
    · exact .inr (.inr hbefore)

/-- A number that a step has used up is not given out behind it. -/
theorem issued_lt_of_begins {front other : List Step} {step : Step}
    (hmakes : Makes (ofSteps front) step) (h : front ++ [step] <+: other) :
    (ofSteps front).issued < (ofSteps other).issued := by
  obtain ⟨outstanding, hcreate⟩ := exists_create_of_makes hmakes
  obtain ⟨back, rfl⟩ := h
  have hgrows := (grows_ofSteps (front ++ [step]) back).2
  rw [ofSteps_concat, hcreate] at hgrows
  exact hgrows

namespace Origin

theorem append {index origin : Nat} (h : Origin steps index origin) (back : List Step) :
    Origin (steps ++ back) index origin := by
  induction h with
  | made hstep hmakes => exact .made (hstep.append back) hmakes
  | handed hstep hhands _ ih => exact .handed (hstep.append back) hhands ih

/-- **A snapshot is the one at its origin**, names and number. -/
theorem snapshot?_eq {index origin : Nat} (h : Origin steps index origin) :
    (ofSteps steps).snapshot? index = (ofSteps steps).snapshot? origin := by
  induction h with
  | made => rfl
  | handed hstep hhands _ ih => exact (hstep.snapshot?_eq hhands).trans ih

theorem exists_makes {index origin : Nat} (h : Origin steps index origin) :
    ∃ front step, StepAt steps front step origin ∧ Makes (ofSteps front) step := by
  induction h with
  | made hstep hmakes => exact ⟨_, _, hstep, hmakes⟩
  | handed _ _ _ ih => exact ih

/-- **Origins have different numbers.** -/
theorem eq_of_identity_eq {left right origin other : Nat} {one two : Snapshot}
    (hleft : Origin steps left origin) (hright : Origin steps right other)
    (hone : (ofSteps steps).snapshot? left = some one)
    (htwo : (ofSteps steps).snapshot? right = some two) (h : one.identity = two.identity) :
    origin = other := by
  obtain ⟨front, step, hstep, hmakes⟩ := hleft.exists_makes
  obtain ⟨before, next, hnext, hmakesNext⟩ := hright.exists_makes
  obtain ⟨made, hmade, hidentity⟩ := hstep.exists_identity_eq hmakes
  obtain ⟨madeNext, hmadeNext, hidentityNext⟩ := hnext.exists_identity_eq hmakesNext
  rw [hleft.snapshot?_eq, hmade, Option.some.injEq] at hone
  rw [hright.snapshot?_eq, hmadeNext, Option.some.injEq] at htwo
  subst hone htwo
  rw [hidentity, hidentityNext] at h
  -- The earlier one of two different steps has the smaller number.
  obtain rfl | hbefore | hbehind := hstep.cases hnext
  · exact hstep.index_eq.trans hnext.index_eq.symm
  · exact absurd h (Nat.ne_of_lt (issued_lt_of_begins hmakes hbefore))
  · exact absurd h.symm (Nat.ne_of_lt (issued_lt_of_begins hmakesNext hbehind))

end Origin

/-- Every snapshot has an origin. -/
theorem exists_origin {index : Nat} (h : index < (ofSteps steps).snapshots.length) :
    ∃ origin, Origin steps index origin := by
  induction steps using List.reverseRecOn generalizing index with
  | nil => simp [ofSteps] at h
  | append_singleton steps step ih =>
      have hearlier {earlier : Nat} (hlt : earlier < (ofSteps steps).snapshots.length) :
          ∃ origin, Origin (steps ++ [step]) earlier origin := by
        obtain ⟨origin, horigin⟩ := ih hlt
        exact ⟨origin, horigin.append [step]⟩
      -- The last step adds one snapshot at most, behind those that were there.
      by_cases hlt : index < (ofSteps steps).snapshots.length
      · exact hearlier hlt
      · rw [ofSteps_concat] at h
        have hperforms := performs_perform (ofSteps steps) step
        generalize (ofSteps steps).perform step = after at hperforms h
        cases hperforms with
        | nothing => exact absurd h hlt
        | create outstanding hmakes =>
            have hindex : index = (ofSteps steps).snapshots.length := by
              simp only [create, List.length_append, List.length_singleton] at h
              omega
            exact ⟨index, .made ⟨List.prefix_rfl, hindex⟩ hmakes⟩
        | keep hsnapshot hhands =>
            have hindex : index = (ofSteps steps).snapshots.length := by
              simp only [keep, List.length_append, List.length_singleton] at h
              omega
            obtain ⟨origin, horigin⟩ := hearlier hhands.lt_length
            exact ⟨origin, .handed ⟨List.prefix_rfl, hindex⟩ hhands horigin⟩

/-- **What identities say about a history**, whatever its steps. -/
structure Identities (steps : List Step) : Prop where
  /-- A step adds the snapshot of its kind, or there is none and it adds nothing. -/
  adds : ∀ step, (∃ added, Adds (ofSteps steps) step added ∧
      (ofSteps (steps ++ [step])).snapshots = (ofSteps steps).snapshots ++ [added]) ∨
    (∀ added, ¬ Adds (ofSteps steps) step added) ∧ ofSteps (steps ++ [step]) = ofSteps steps
  /-- Every snapshot goes back to one step. -/
  existsUnique_origin : ∀ index < (ofSteps steps).snapshots.length, ∃! origin,
    Origin steps index origin
  /-- Two snapshots are the same one if they go back to the same step. -/
  shares_iff : ∀ left right one two, (ofSteps steps).snapshot? left = some one →
    (ofSteps steps).snapshot? right = some two →
      (one.shares two = true ↔ ∃ origin, Origin steps left origin ∧ Origin steps right origin)
  names_eq : ∀ one ∈ (ofSteps steps).snapshots, ∀ two ∈ (ofSteps steps).snapshots,
    one.shares two = true → one.outstanding.names = two.outstanding.names
  equivalence : Equivalence (fun one two : Snapshot => one.shares two = true)
  /-- What is left behind a token is the same snapshot if as many names are left. -/
  observe : ∀ index snapshot token, (ofSteps steps).snapshot? index = some snapshot →
    ∃ left, (ofSteps (steps ++ [.observe index token])).snapshot?
        (ofSteps steps).snapshots.length = some left ∧
      left.outstanding = snapshot.outstanding.observe token ∧
      (left.shares snapshot = true ↔
        left.outstanding.remaining = snapshot.outstanding.remaining)
  /-- No further steps change a snapshot that is there. -/
  unchanged : ∀ more index snapshot, (ofSteps steps).snapshot? index = some snapshot →
    (ofSteps (steps ++ more)).snapshot? index = some snapshot

theorem shares_iff_identity_eq {one two : Snapshot} :
    one.shares two = true ↔ one.identity = two.identity :=
  beq_iff_eq

theorem equivalence_shares : Equivalence (fun one two : Snapshot => one.shares two = true) := by
  simp only [shares_iff_identity_eq]
  exact ⟨fun _ => rfl, Eq.symm, Eq.trans⟩

/-- Going back to the same step is being the same snapshot. -/
theorem shares_iff_origin {left right : Nat} {one two : Snapshot}
    (hone : (ofSteps steps).snapshot? left = some one)
    (htwo : (ofSteps steps).snapshot? right = some two) :
    one.shares two = true ↔ ∃ origin, Origin steps left origin ∧ Origin steps right origin := by
  rw [shares_iff_identity_eq]
  constructor
  · intro h
    obtain ⟨origin, hleft⟩ := exists_origin (List.getElem?_eq_some_iff.mp hone).1
    obtain ⟨other, hright⟩ := exists_origin (List.getElem?_eq_some_iff.mp htwo).1
    obtain rfl := hleft.eq_of_identity_eq hright hone htwo h
    exact ⟨origin, hleft, hright⟩
  · rintro ⟨origin, hleft, hright⟩
    rw [hleft.snapshot?_eq, ← hright.snapshot?_eq, htwo, Option.some.injEq] at hone
    rw [hone]

/-- Snapshots of one origin are equal. -/
theorem eq_of_shares {one two : Snapshot} (hone : one ∈ (ofSteps steps).snapshots)
    (htwo : two ∈ (ofSteps steps).snapshots) (h : one.shares two = true) : one = two := by
  obtain ⟨left, hleft⟩ := List.mem_iff_getElem?.mp hone
  obtain ⟨right, hright⟩ := List.mem_iff_getElem?.mp htwo
  obtain ⟨origin, hleftOrigin, hrightOrigin⟩ := (shares_iff_origin hleft hright).mp h
  have hsame : (ofSteps steps).snapshot? left = (ofSteps steps).snapshot? right :=
    hleftOrigin.snapshot?_eq.trans hrightOrigin.snapshot?_eq.symm
  exact Option.some.inj (hleft.symm.trans (hsame.trans hright))

theorem exists_left_of_observe {index : Nat} {snapshot : Snapshot}
    (h : (ofSteps steps).snapshot? index = some snapshot) (token : Token) :
    ∃ left, (ofSteps (steps ++ [.observe index token])).snapshot?
        (ofSteps steps).snapshots.length = some left ∧
      left.outstanding = snapshot.outstanding.observe token ∧
      (left.shares snapshot = true ↔
        left.outstanding.remaining = snapshot.outstanding.remaining) := by
  rw [ofSteps_concat, perform_observe h]
  by_cases hkept : (snapshot.outstanding.observe token).names = snapshot.outstanding.names
  · rw [observe_of_kept hkept]
    refine ⟨snapshot, List.getElem?_concat_length, ?_, ?_⟩
    · exact congrArg Outstanding.mk hkept.symm
    · simp [Snapshot.shares]
  · rw [observe_of_taken hkept]
    refine ⟨_, List.getElem?_concat_length, rfl, ?_⟩
    -- The number that is given out now is larger than all that are in use.
    have hlt := identity_lt_issued h
    rw [shares_iff_identity_eq]
    refine iff_of_false (Nat.ne_of_gt hlt) ?_
    rw [Outstanding.remaining_observe_eq_iff]
    exact hkept

/-- **The identity of snapshots tracks what is taken away**, in every history. -/
theorem identities_ofSteps (steps : List Step) : Identities steps where
  adds := by
    intro step
    rw [ofSteps_concat]
    exact adds_perform (isNew_issued steps) step
  existsUnique_origin := by
    intro index hlt
    obtain ⟨origin, horigin⟩ := exists_origin hlt
    refine ⟨origin, horigin, ?_⟩
    intro other hother
    have hsnapshot := List.getElem?_eq_getElem hlt
    exact hother.eq_of_identity_eq horigin hsnapshot hsnapshot rfl
  shares_iff := fun _ _ _ _ hone htwo => shares_iff_origin hone htwo
  names_eq := by
    intro one hone two htwo hshares
    rw [eq_of_shares hone htwo hshares]
  equivalence := equivalence_shares
  observe := fun _ _ token h => exists_left_of_observe h token
  unchanged := fun more _ _ h => snapshot?_ofSteps_append h more

/-- The first two snapshots are equal and not the same one, as are the last three; a copy and a key
that is not asked for go back to the third one. -/
example : ((ofSteps [.satisfied, .ofNames [], .ofNames ["a"], .copy 2, .observe 3 (.fieldName "b"),
    .observe 2 (.fieldName "a"), .observe 3 (.fieldName "a"),
    .seed .absent]).snapshots.map Snapshot.identity) = [0, 1, 2, 2, 2, 3, 4, 5] := by
  decide

end History
end RequiredKeys
