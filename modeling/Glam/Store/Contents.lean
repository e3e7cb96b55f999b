import Glam.Store.Journal

/-!
# Volumes under a sequence of edits

What a volume holds after a sequence of edits, and what a read of it depends on. Two facts carry
conflict analysis. Edits that do not overlap an address leave what is read there as it was
(`readVolume_editsOn_of_apart`). And what a read sees after edits of its own transaction is
determined by what `dependency` says it depends on before them (`readVolume_editsOn_congr`), so a
transaction whose dependencies did not change reads the same from a newer store.

A journal's drafts are its edits applied to its snapshot (`StoreJournal.replay_valueAt`), so these
are facts about what its reads return.
-/

namespace Glam.Store

variable {K A : Type}

namespace StoreJournal

@[simp] theorem fork_valueAt (journal : StoreJournal K A) (w : VolumeId) :
    journal.fork.valueAt w = journal.valueAt w := rfl

end StoreJournal

variable [DecidableEq K]

/-- What `volume` holds after `edit`, where it held `current`. An edit of a volume that does not
exist changes nothing, and creating one gives it its first value. -/
def applyOn (volume : VolumeId) (current : Option (Value K A)) (edit : StoreEdit K A) :
    Option (Value K A) :=
  if edit.address.volume = volume ∧ edit.writesData then
    match edit with
    | .create _ initial => some initial
    | _ => current.map fun value => applyEdit value edit
  else current

/-- What `volume` holds after `edits`. -/
def editsOn (volume : VolumeId) (current : Option (Value K A)) (edits : List (StoreEdit K A)) :
    Option (Value K A) :=
  edits.foldl (applyOn volume) current

/-- What reading `path` in a volume gives, if the volume exists. -/
def readVolume (contents : Option (Value K A)) (path : List K) : Option (Reading K A) :=
  contents.map fun value => pathRead value path

section

variable (volume : VolumeId) (current : Option (Value K A))
include volume current

@[simp] theorem editsOn_nil :
    editsOn volume current [] = current := rfl

@[simp] theorem editsOn_cons (edit : StoreEdit K A) (edits : List (StoreEdit K A)) :
    editsOn volume current (edit :: edits) = editsOn volume (applyOn volume current edit) edits :=
  rfl

theorem editsOn_append (edits later : List (StoreEdit K A)) :
    editsOn volume current (edits ++ later) = editsOn volume (editsOn volume current edits) later :=
  List.foldl_append

end

/-! ### One edit -/

variable {volume : VolumeId} {edit : StoreEdit K A} {P : StoreEdit K A → Value K A → Prop}
  {current x y : Option (Value K A)} {edits : List (StoreEdit K A)} {path : List K}
  {j j' : StoreJournal K A}

theorem applyOn_of_not_data (h : ¬ (edit.address.volume = volume ∧ edit.writesData))
    (current : Option (Value K A)) :
    applyOn volume current edit = current := if_neg h

theorem applyOn_create (volume : VolumeId) (current : Option (Value K A)) (initial : Value K A) :
    applyOn volume current (.create volume initial) = some initial := if_pos ⟨rfl, rfl⟩

/-- A volume exists after an edit if it did before it, or the edit creates it. -/
theorem isSome_applyOn (volume : VolumeId) (current : Option (Value K A))
    (edit : StoreEdit K A) :
    (applyOn volume current edit).isSome ↔
      current.isSome ∨ ∃ initial, edit = .create volume initial := by
  by_cases h : edit.address.volume = volume ∧ edit.writesData
  · unfold applyOn
    rw [if_pos h]
    cases edit with
    | create created initial =>
      obtain rfl : created = volume := h.1
      simp
    | set | rewrite | remove | resolve => simp
  · rw [applyOn_of_not_data h]
    constructor
    · exact .inl
    · rintro (hs | ⟨initial, rfl⟩)
      · exact hs
      · exact absurd ⟨rfl, rfl⟩ h

theorem applyOn_some (h : edit.address.volume = volume ∧ edit.writesData) (value : Value K A) :
    applyOn volume (some value) edit = some (applyEdit value edit) := by
  unfold applyOn
  rw [if_pos h]
  cases edit <;> rfl

/-- A data edit that creates no volume applies to what the volume holds. -/
theorem applyOn_of_data (h : edit.address.volume = volume ∧ edit.writesData)
    (hcreate : ∀ volume initial, edit ≠ .create volume initial) (current : Option (Value K A)) :
    applyOn volume current edit = current.map fun value => applyEdit value edit := by
  rw [applyOn, if_pos h]
  exact hcreate

/-! ### Conditions along a sequence of edits -/

/-- Every edit of the sequence that writes `volume`'s data meets `P` on what the volume holds
then. -/
def Along (P : StoreEdit K A → Value K A → Prop) (volume : VolumeId) :
    Option (Value K A) → List (StoreEdit K A) → Prop
  | _, [] => True
  | current, edit :: edits =>
    (edit.address.volume = volume → edit.writesData → ∀ value ∈ current, P edit value) ∧
      Along P volume (applyOn volume current edit) edits

theorem Along.imp {Q : StoreEdit K A → Value K A → Prop} (hPQ : ∀ e v, P e v → Q e v)
    (h : Along P volume current edits) : Along Q volume current edits := by
  induction edits generalizing current with
  | nil => trivial
  | cons edit edits ih =>
    exact ⟨fun hv hd value hx => hPQ _ _ (h.1 hv hd value hx), ih h.2⟩

theorem along_append {later : List (StoreEdit K A)} :
    Along P volume current (edits ++ later) ↔
      Along P volume current edits ∧ Along P volume (editsOn volume current edits) later := by
  induction edits generalizing current with
  | nil => simp [Along]
  | cons edit edits ih =>
    rw [List.cons_append, Along, Along, ih, editsOn_cons, and_assoc]

/-- Every edit finds only dictionaries and undefined values on its way. -/
abbrev PathsOk (volume : VolumeId) (current : Option (Value K A))
    (edits : List (StoreEdit K A)) : Prop :=
  Along StoreEdit.PathOk volume current edits

/-- No removal runs into a value that is no dictionary. -/
abbrev Unblocked (volume : VolumeId) (current : Option (Value K A))
    (edits : List (StoreEdit K A)) : Prop :=
  Along (fun edit value => ¬ edit.BlockedRemoval value) volume current edits

theorem not_blockedRemoval_of_pathOk {value : Value K A} (h : edit.PathOk value) :
    ¬ edit.BlockedRemoval value := by
  cases edit with
  | remove => exact h
  | set | rewrite | create | resolve => exact fun hb => hb

/-! ### A sequence of edits -/

theorem isSome_editsOn (volume : VolumeId) (current : Option (Value K A))
    (edits : List (StoreEdit K A)) :
    (editsOn volume current edits).isSome ↔
      current.isSome ∨ ∃ initial, .create volume initial ∈ edits := by
  induction edits generalizing current with
  | nil => simp
  | cons edit edits ih =>
    rw [editsOn_cons, ih, isSome_applyOn]
    simp only [List.mem_cons, exists_or, or_assoc, eq_comm]

/-- After a volume's creation, what it held before it does not matter. -/
theorem editsOn_of_create {initial : Value K A} (h : .create volume initial ∈ edits)
    (current current' : Option (Value K A)) :
    editsOn volume current edits = editsOn volume current' edits := by
  obtain ⟨before, later, rfl⟩ := List.append_of_mem h
  rw [editsOn_append, editsOn_append, editsOn_cons, editsOn_cons, applyOn_create, applyOn_create]

theorem readVolume_eq (contents : Option (Value K A)) (path : List K) :
    readVolume contents path = contents.map fun value => read value path := by
  simp only [readVolume, pathRead_eq]

/-- An edit changes no reading apart from it. -/
theorem readVolume_applyOn_of_apart (hfree : ¬ edit.address.Overlaps ⟨volume, path⟩)
    (hok : edit.address.volume = volume → edit.writesData →
      ∀ value ∈ current, ¬ edit.BlockedRemoval value) :
    readVolume (applyOn volume current edit) path = readVolume current path := by
  by_cases h : edit.address.volume = volume ∧ edit.writesData
  · cases current with
    | none =>
      cases edit with
      | create => exact absurd (.inl ⟨h.1, List.nil_prefix⟩) hfree
      | _ => unfold applyOn; rw [if_pos h]; rfl
    | some value =>
      rw [applyOn_some h, readVolume_eq, readVolume_eq, Option.map_some, Option.map_some,
        read_applyEdit_of_apart (hok h.1 h.2 value rfl)
          (ConflictAddress.apart_of_not_overlaps h.1 hfree)]
  · rw [applyOn_of_not_data h]

/-- **Edits elsewhere change no reading.** -/
theorem readVolume_editsOn_of_apart (hfree : ∀ edit ∈ edits, ¬ edit.address.Overlaps ⟨volume, path⟩)
    (hok : Unblocked volume current edits) :
    readVolume (editsOn volume current edits) path = readVolume current path := by
  induction edits generalizing current with
  | nil => rfl
  | cons edit edits ih =>
    rw [editsOn_cons, ih (fun e he => hfree e (List.mem_cons_of_mem edit he)) hok.2]
    exact readVolume_applyOn_of_apart (hfree edit (.head _)) hok.1

/-- An edit keeps to its kind's place: data lies outside the runtime's volume, and only there do
edits without data write. -/
def StoreEdit.Placed (edit : StoreEdit K A) : Prop :=
  (edit.writesData = true ↔ edit.address.volume ≠ runtimeVolume) ∧ edit.RemovesPath

/-- Each set and each removal of `volume` is blocked in both contents, as they are then, or in
neither. -/
def BlockedAlike (volume : VolumeId) :
    Option (Value K A) → Option (Value K A) → List (StoreEdit K A) → Prop
  | _, _, [] => True
  | x, y, edit :: edits =>
    (edit.address.volume = volume → ∀ v ∈ x, ∀ w ∈ y, (edit.Blocked v ↔ edit.Blocked w)) ∧
      BlockedAlike volume (applyOn volume x edit) (applyOn volume y edit) edits

/-- What is read after an edit depends on what the edit and the reading depend on. -/
theorem readVolume_applyOn_congr_of_alike
    (hdata : edit.address.volume = volume → edit.writesData = true) (hxy : x.isSome ↔ y.isSome)
    (halike : edit.address.volume = volume →
      ∀ v ∈ x, ∀ w ∈ y, (edit.Blocked v ↔ edit.Blocked w))
    (h : ∀ d, edit.dependencyStep volume path = some d → readVolume x d = readVolume y d) :
    readVolume (applyOn volume x edit) path = readVolume (applyOn volume y edit) path := by
  by_cases hv : edit.address.volume = volume
  · subst hv
    match x, y, hxy with
    | none, none, _ => rfl
    | none, some _, hxy | some _, none, hxy => simp at hxy
    | some v, some w, _ =>
      rw [applyOn_some ⟨rfl, hdata rfl⟩, applyOn_some ⟨rfl, hdata rfl⟩, readVolume_eq,
        readVolume_eq]
      refine congrArg some (read_applyEdit_congr_of_alike (hdata rfl) (halike rfl v rfl w rfl)
        fun d hd => ?_)
      have hread := h d hd
      rw [readVolume_eq, readVolume_eq] at hread
      exact Option.some.inj hread
  · -- the edit is of another volume, and the read depends on what it reads
    have hnot : ¬ (edit.address.volume = volume ∧ edit.writesData) := fun hc => hv hc.1
    rw [applyOn_of_not_data hnot, applyOn_of_not_data hnot]
    refine h path (dependencyStep_of_not_overlaps ?_)
    rintro (hp | hp)
    · exact hv hp.1
    · exact hv hp.1.symm

/-- **Dependencies are right** for two contents in which the edits are blocked alike. -/
theorem readVolume_editsOn_congr_of_alike
    (hdata : ∀ edit ∈ edits, edit.address.volume = volume → edit.writesData = true)
    (hxy : x.isSome ↔ y.isSome) (halike : BlockedAlike volume x y edits)
    (h : ∀ d, dependency edits volume path = some d → readVolume x d = readVolume y d) :
    readVolume (editsOn volume x edits) path = readVolume (editsOn volume y edits) path := by
  induction edits generalizing x y with
  | nil => exact h path rfl
  | cons edit edits ih =>
    have hxy' : (applyOn volume x edit).isSome ↔ (applyOn volume y edit).isSome := by
      rw [isSome_applyOn, isSome_applyOn, hxy]
    rw [editsOn_cons, editsOn_cons]
    refine ih (fun e he => hdata e (List.mem_cons_of_mem edit he)) hxy' halike.2 fun d hd => ?_
    refine readVolume_applyOn_congr_of_alike (hdata edit (.head _)) hxy halike.1
      fun d' hd' => h d' ?_
    rw [dependency, hd]
    exact hd'

theorem PathsOk.blockedAlike
    (hdata : ∀ edit ∈ edits, edit.address.volume = volume → edit.writesData = true)
    (hx : PathsOk volume x edits) (hy : PathsOk volume y edits) :
    BlockedAlike volume x y edits := by
  induction edits generalizing x y with
  | nil => trivial
  | cons edit edits ih =>
    refine ⟨fun hv v hvx w hwy => ?_,
      ih (fun e he => hdata e (List.mem_cons_of_mem edit he)) hx.2 hy.2⟩
    have hwrites := hdata edit (.head _) hv
    exact iff_of_false (hx.1 hv hwrites v hvx).not_blocked (hy.1 hv hwrites w hwy).not_blocked

/-- **What a read sees after edits is determined by what it depends on.** -/
theorem readVolume_editsOn_congr (hplaced : ∀ edit ∈ edits, edit.Placed)
    (hvol : volume ≠ runtimeVolume) (hxy : x.isSome ↔ y.isSome) (hx : PathsOk volume x edits)
    (hy : PathsOk volume y edits)
    (h : ∀ d, dependency edits volume path = some d → readVolume x d = readVolume y d) :
    readVolume (editsOn volume x edits) path = readVolume (editsOn volume y edits) path := by
  have hdata : ∀ edit ∈ edits, edit.address.volume = volume → edit.writesData = true :=
    fun edit he hv => (hplaced edit he).1.mpr (hv ▸ hvol)
  exact readVolume_editsOn_congr_of_alike hdata hxy (PathsOk.blockedAlike hdata hx hy) h

/-! ### Journals and their operations -/

namespace StoreJournal

variable (journal : StoreJournal K A) (edit)

/-- An edit is appended, and shown where the volume is known. -/
theorem pushEdit_fields (volume : VolumeId) :
    (journal.pushEdit volume edit).snapshot = journal.snapshot ∧
      (journal.pushEdit volume edit).branch = journal.branch ∧
      (journal.pushEdit volume edit).edits = journal.edits ++ [edit] ∧
      (journal.pushEdit volume edit).views =
        match journal.valueAt volume with
        | some current => journal.views.set volume (applyEdit current edit)
        | none => journal.views := by
  unfold pushEdit
  cases journal.valueAt volume with
  | none => exact ⟨rfl, rfl, rfl, rfl⟩
  | some => cases journal.hasVolumeCell volume <;> exact ⟨rfl, rfl, rfl, rfl⟩

/-- An edit of a journal changes its value as the edit does. -/
theorem pushEdit_valueAt (hvol : edit.address.volume = volume) (hdata : edit.writesData)
    (hcreate : ∀ v initial, edit ≠ .create v initial) (w : VolumeId) :
    (journal.pushEdit volume edit).valueAt w = applyOn w (journal.valueAt w) edit := by
  obtain ⟨hs, -, -, hviews⟩ := journal.pushEdit_fields edit volume
  rw [valueAt, hs, hviews]
  by_cases hw : w = volume
  · subst hw
    rw [applyOn_of_data ⟨hvol, hdata⟩ hcreate]
    cases hcur : journal.valueAt w with
    | none => exact hcur
    | some => simp only [Table.get_set_self, Option.map_some]
  · rw [applyOn_of_not_data fun hc => hw (hc.1.symm.trans hvol)]
    cases journal.valueAt volume with
    | none => rfl
    | some => simp only [Table.get_set_of_ne _ _ hw, valueAt]

/-- How an edit is replayed: a volume is created, an edit without data is only recorded, and any
other is pushed. -/
theorem replay_cases :
    (∃ volume initial, edit = .create volume initial) ∨
      (edit.writesData = false ∧ ∀ journal : StoreJournal K A,
        journal.replay edit = { journal with edits := journal.edits ++ [edit] }) ∨
      (edit.writesData = true ∧ (∀ volume initial, edit ≠ .create volume initial) ∧
        ∀ journal : StoreJournal K A,
          journal.replay edit = journal.pushEdit edit.address.volume edit) := by
  match edit with
  | .create volume initial => exact .inl ⟨volume, initial, rfl⟩
  | .set _ none | .rewrite _ none | .resolve _ _ _ => exact .inr (.inl ⟨rfl, fun _ => rfl⟩)
  | .set _ (some _) | .rewrite _ (some _) | .remove _ =>
    exact .inr (.inr ⟨rfl, nofun, fun _ => rfl⟩)

theorem replay_fields :
    (journal.replay edit).snapshot = journal.snapshot ∧
      (journal.replay edit).branch = journal.branch ∧
      (journal.replay edit).edits = journal.edits ++ [edit] := by
  rcases replay_cases edit with ⟨volume, initial, rfl⟩ | ⟨-, hreplay⟩ | ⟨-, -, hreplay⟩
  · exact ⟨rfl, rfl, rfl⟩
  · rw [hreplay]
    exact ⟨rfl, rfl, rfl⟩
  · obtain ⟨hs, hb, he, -⟩ := journal.pushEdit_fields edit edit.address.volume
    rw [hreplay]
    exact ⟨hs, hb, he⟩

theorem replay_views_congr (hs : j.snapshot = j'.snapshot) (hv : j.views = j'.views) :
    (j.replay edit).views = (j'.replay edit).views := by
  rcases replay_cases edit with ⟨volume, initial, rfl⟩ | ⟨-, hreplay⟩ | ⟨-, -, hreplay⟩
  · exact congrArg (fun t : Table VolumeId (Value K A) => t.set volume initial) hv
  · rw [hreplay, hreplay]
    exact hv
  · have hvalue : ∀ volume, j.valueAt volume = j'.valueAt volume := fun _ => by
      unfold valueAt; rw [hs, hv]
    rw [hreplay, hreplay, (j.pushEdit_fields edit _).2.2.2, (j'.pushEdit_fields edit _).2.2.2,
      hvalue, hv]

/-- **A replayed edit changes the drafts as it changes volumes.** -/
theorem replay_valueAt (w : VolumeId) :
    (journal.replay edit).valueAt w = applyOn w (journal.valueAt w) edit := by
  rcases replay_cases edit with ⟨volume, initial, rfl⟩ | ⟨hdata, hreplay⟩ | ⟨hdata, hne, hreplay⟩
  · by_cases hw : w = volume
    · subst hw
      rw [applyOn_create, valueAt, replay, Table.get_set_self]
    · rw [applyOn_of_not_data fun hc => hw hc.1.symm, valueAt, replay, Table.get_set_of_ne _ _ hw]
      rfl
  · rw [hreplay, applyOn_of_not_data (by simp [hdata])]
    rfl
  · rw [hreplay]
    exact journal.pushEdit_valueAt edit rfl hdata hne w

end StoreJournal

/-- The two journals differ at most in the cells they keep. -/
structure StoreJournal.Similar (j j' : StoreJournal K A) : Prop where
  snapshot : j.snapshot = j'.snapshot
  views : j.views = j'.views
  edits : j.edits = j'.edits
  branch : j.branch = j'.branch

namespace StoreJournal.Similar

omit [DecidableEq K] in
theorem refl (j : StoreJournal K A) : Similar j j := ⟨rfl, rfl, rfl, rfl⟩

omit [DecidableEq K] in
theorem symm (h : Similar j j') : Similar j' j :=
  ⟨h.snapshot.symm, h.views.symm, h.edits.symm, h.branch.symm⟩

omit [DecidableEq K] in
theorem trans {j'' : StoreJournal K A} (h : Similar j j') (h' : Similar j' j'') : Similar j j'' :=
  ⟨h.snapshot.trans h'.snapshot, h.views.trans h'.views, h.edits.trans h'.edits,
    h.branch.trans h'.branch⟩

omit [DecidableEq K] in
theorem keepVolume (j : StoreJournal K A) (volume : VolumeId) : Similar (j.keepVolume volume) j :=
  ⟨rfl, rfl, rfl, rfl⟩

omit [DecidableEq K] in
theorem valueAt (h : Similar j j') (volume : VolumeId) : j.valueAt volume = j'.valueAt volume := by
  unfold StoreJournal.valueAt
  rw [h.views, h.snapshot]

theorem replay (h : Similar j j') (edit : StoreEdit K A) :
    Similar (j.replay edit) (j'.replay edit) := by
  obtain ⟨hs, hb, he⟩ := j.replay_fields edit
  obtain ⟨hs', hb', he'⟩ := j'.replay_fields edit
  exact ⟨by rw [hs, hs', h.snapshot], replay_views_congr edit h.snapshot h.views,
    by rw [he, he', h.edits], by rw [hb, hb', h.branch]⟩

theorem observeReadById (h : Similar j j') (volume : VolumeId) (path : List K) :
    Similar (j.observeReadById volume path).1 (j'.observeReadById volume path).1 ∧
      (j.observeReadById volume path).2 = (j'.observeReadById volume path).2 := by
  unfold StoreJournal.observeReadById StoreJournal.branchWithRead
  rw [h.snapshot, h.edits, h.branch]
  exact ⟨⟨rfl, h.views, rfl, rfl⟩, rfl⟩

end StoreJournal.Similar

namespace JournalOp

variable [StoreKeys K]

/-- What an operation does to the journal: it records an edit, or a read at an address. -/
def effect : JournalOp K A → StoreEdit K A ⊕ ConflictAddress K
  | .read target path => .inr ⟨target.id, path⟩
  | .write target path value => .inl (.set ⟨target.id, path⟩ (some value))
  | .rewrite target path updater => .inl (.rewrite ⟨target.id, path⟩ (some updater))
  | .remove target path => .inl (.remove ⟨target.id, path⟩)
  | .create volume initial => .inl (.create volume initial)
  | .readVirtual path => .inr ⟨runtimeVolume, virtualKeys path⟩
  | .writeVirtual path => .inl (.set ⟨runtimeVolume, virtualKeys path⟩ none)
  | .rewriteVirtual path => .inl (.rewrite ⟨runtimeVolume, virtualKeys path⟩ none)
  | .readPromise promise => .inr ⟨runtimeVolume, promisePath promise⟩
  | .resolve promise resolution =>
    .inl (.resolve ⟨runtimeVolume, promisePath promise⟩ promise resolution)

/-- What a read answers where the store keeps the volumes `kept` and its path reads as `reading`. -/
def answer (op : JournalOp K A) (kept : Finset VolumeId) (reading : Option (Reading K A)) :
    Answer K A :=
  match op, reading with
  | .read (.kept volume) _, some reading =>
    if volume ∈ kept then .reading reading else .missingVolume
  | .read (.store _) _, some reading => .reading reading
  | .read (.handle _) _, some reading => .reading reading
  | .read _ _, none => .missingVolume
  | _, _ => .unit

/-- **An edit operation replays its edit.** -/
theorem perform_of_edit {op : JournalOp K A} (h : op.effect = .inl edit)
    (journal : StoreJournal K A) :
    (op.perform journal).1.Similar (journal.replay edit) ∧ (op.perform journal).2 = (none, .unit) := by
  -- a handle also keeps its volume
  have hkeep : ∀ (target : VolumeTarget) (edit : StoreEdit K A),
      (∀ j : StoreJournal K A, j.replay edit = j.pushEdit target.id edit) →
      (target.editIn journal edit).Similar (journal.replay edit) := by
    intro target edit hreplay
    cases target with
    | store | kept => rw [hreplay]; exact .refl _
    | handle volume =>
      have := (StoreJournal.Similar.keepVolume journal volume).replay edit
      rwa [hreplay (journal.keepVolume volume)] at this
  cases op with
  | read | readVirtual | readPromise => simp [effect] at h
  | write | rewrite | remove => obtain rfl := Sum.inl.inj h; exact ⟨hkeep _ _ fun _ => rfl, rfl⟩
  | create | writeVirtual | rewriteVirtual | resolve =>
    obtain rfl := Sum.inl.inj h; exact ⟨.refl _, rfl⟩

/-- **A read operation records its read**, and answers with what the journal holds there. -/
theorem perform_of_read {op : JournalOp K A} {address : ConflictAddress K}
    (h : op.effect = .inr address) (journal : StoreJournal K A) :
    (op.perform journal).1.Similar (journal.observeReadById address.volume address.path).1 ∧
      (op.perform journal).2 = ((journal.observeReadById address.volume address.path).2,
        op.answer journal.snapshot.kept
          (readVolume (journal.valueAt address.volume) address.path)) := by
  cases op with
  | read target path =>
    obtain rfl := Sum.inr.inj h
    cases target with
    | store volume | handle volume =>
      refine ⟨⟨rfl, rfl, rfl, rfl⟩, Prod.ext rfl ?_⟩
      have hread : (journal.observeReadById volume path).1.valueAt volume =
          journal.valueAt volume := rfl
      simp only [perform, VolumeTarget.readIn, VolumeTarget.id, hread]
      cases journal.valueAt volume <;> simp [readVolume, answer]
    | kept volume =>
      let observed := (journal.observeReadById volume path).1
      by_cases hk : volume ∈ journal.snapshot.kept
      · have hread : (VolumeTarget.kept volume).readIn observed =
            (observed.keepVolume volume, journal.valueAt volume) := if_pos hk
        simp only [perform, VolumeTarget.id, observed] at hread ⊢
        rw [hread]
        refine ⟨.keepVolume _ volume, Prod.ext rfl ?_⟩
        cases hv : journal.valueAt volume <;> simp [readVolume, answer, hk]
      · have hread : (VolumeTarget.kept volume).readIn observed = (observed, none) := if_neg hk
        simp only [perform, VolumeTarget.id, observed] at hread ⊢
        rw [hread]
        refine ⟨.refl _, Prod.ext rfl ?_⟩
        cases hv : journal.valueAt volume <;> simp [readVolume, answer, hk]
  | readVirtual | readPromise =>
    obtain rfl := Sum.inr.inj h; exact ⟨.refl _, by simp [perform, answer]⟩
  | write | rewrite | remove | create | writeVirtual | rewriteVirtual | resolve =>
    simp [effect] at h

end JournalOp

end Glam.Store
