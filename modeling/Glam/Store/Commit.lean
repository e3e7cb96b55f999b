import Glam.Store.Run

/-!
# Commits

The store itself: the committed version of each volume, the latest change at each address, and the
commit of a journal, translated from `ReflectionStore` of `store.rs`.

A journal that began from the current revision already holds a draft of each volume it wrote, and
its commit installs the drafts. Another is rebased: its edits are applied to the volumes as they
stand now. Either way a volume is installed only if the journal keeps its cell. For a journal that
does, both come to the same: the volumes after the commit are its edits applied to the volumes
before it (`committedVersions_get`).
-/

namespace Glam.Store

variable {K A : Type} [DecidableEq K]

/-- What becomes of a commit. -/
inductive StoreCommitResult
  | committed
  | conflict
  | missingVolume (volume : VolumeId)
deriving DecidableEq

/-- Shared reflection heap state. `kept` are the volumes whose cells the store keeps, its own and
those a host created, and `revoked` those a host has taken back. `pending` are the promises not yet
resolved. -/
structure ReflectionStore (K A : Type) where
  kept : Finset VolumeId
  revoked : Finset VolumeId
  versions : Table VolumeId (Value K A)
  revision : Nat
  latestChanges : Table (ConflictAddress K) Nat
  pending : Finset PromiseId
  nextVolume : VolumeId

/-- The volumes whose data `edits` change, which creating one does. -/
def writtenVolumes (edits : List (StoreEdit K A)) : Finset VolumeId :=
  ((edits.filter StoreEdit.writesData).map fun edit => edit.address.volume).toFinset

/-- The addresses `edits` write, without those below others. -/
def normalizedEditPaths (edits : List (StoreEdit K A)) : Finset (ConflictAddress K) :=
  TreeOrder.coverAll ConflictAddress.IsPrefixOf (edits.map StoreEdit.address)

/-- **Normalized addresses stand for all edits.** They are addresses of edits, none above another,
with one above each edit, and overlap what the edits overlap. -/
theorem normalizedEditPaths_spec (edits : List (StoreEdit K A)) :
    IsAntichain ConflictAddress.IsPrefixOf (normalizedEditPaths edits : Set (ConflictAddress K)) ∧
      (∀ edit ∈ edits, ∃ address ∈ normalizedEditPaths edits, address.IsPrefixOf edit.address) ∧
      (∀ address ∈ normalizedEditPaths edits, ∃ edit ∈ edits, edit.address = address) ∧
      ∀ address, (∃ edit ∈ edits, edit.address.Overlaps address) ↔
        ∃ kept ∈ normalizedEditPaths edits, kept.Overlaps address := by
  have hbelow := TreeOrder.exists_below_coverAll ConflictAddress.isPrefixOf_treeOrder
    (edits.map StoreEdit.address)
  refine ⟨TreeOrder.isAntichain_coverAll _, ?_, ?_, ?_⟩
  · exact fun edit hedit => hbelow _ (List.mem_map_of_mem hedit)
  · exact fun address h => List.mem_map.mp (TreeOrder.mem_of_mem_coverAll h)
  · intro address
    rw [normalizedEditPaths,
      TreeOrder.exists_overlap_coverAll ConflictAddress.isPrefixOf_treeOrder]
    simp

/-- One edit of `rebase_edits`: applied to what earlier edits wrote, else to the volume as
`versions` hold it. -/
def rebaseEdit (versions written : Table VolumeId (Value K A)) (edit : StoreEdit K A) :
    Table VolumeId (Value K A) :=
  if edit.writesData then
    match written.get edit.address.volume with
    | some current => written.set edit.address.volume (applyEdit current edit)
    | none =>
      match versions.get edit.address.volume with
      | some value => written.set edit.address.volume (applyEdit value edit)
      | none =>
        match edit with
        | .create volume initial => written.set volume initial
        | _ => written
  else written

/-- The new value of each volume that `edits` write, applied in order to the volume as `versions`
hold it. -/
def rebaseEdits (versions : Table VolumeId (Value K A)) (edits : List (StoreEdit K A)) :
    Table VolumeId (Value K A) :=
  edits.foldl (rebaseEdit versions) ∅

/-- The volumes that edits create. -/
def createdVolumes (edits : List (StoreEdit K A)) : List VolumeId :=
  edits.filterMap fun edit =>
    match edit with
    | .create volume _ => some volume
    | _ => none

/-- The promises that edits resolve. -/
def resolvedPromises (edits : List (StoreEdit K A)) : List PromiseId :=
  edits.filterMap fun edit =>
    match edit with
    | .resolve _ promise _ => some promise
    | _ => none

namespace ReflectionStore

/-- The store at its start, with three volumes of empty dictionaries. -/
def new : ReflectionStore K A where
  kept := {heapVolume, runtimeVolume, environmentVolume}
  revoked := ∅
  versions := ((Table.set ∅ heapVolume (.dict [])).set runtimeVolume (.dict [])).set
    environmentVolume (.dict [])
  revision := 0
  latestChanges := ∅
  pending := ∅
  nextVolume := 4

variable (store : ReflectionStore K A)

/-- What a transaction begins with. -/
def snapshot : StoreSnapshot K A :=
  ⟨store.revision, store.kept, store.versions⟩

/-- Something that the journal's transaction observed has changed since its snapshot. -/
def Conflicts (journal : StoreJournal K A) (index : ObservationIndex K) : Prop :=
  ∃ changed ∈ store.latestChanges.keys,
    (∃ revision ∈ store.latestChanges.get changed, journal.snapshot.revision < revision) ∧
      index.MayConflict changed

instance (store : ReflectionStore K A) (journal : StoreJournal K A) (index : ObservationIndex K) :
    Decidable (store.Conflicts journal index) :=
  inferInstanceAs (Decidable (∃ _ ∈ _, _))

/-- The first volume that the journal edits and a host has revoked. -/
def revokedVolume (journal : StoreJournal K A) : Option VolumeId :=
  (journal.edits.map fun edit => edit.address.volume).find? fun volume =>
    (store.versions.get volume).isNone && !(createdVolumes journal.edits).contains volume &&
      decide (volume ∈ store.revoked)

/-- Validates a journal without changing the store. -/
def validate (journal : StoreJournal K A) (index : ObservationIndex K) : StoreCommitResult :=
  match store.revokedVolume journal with
  | some volume => .missingVolume volume
  | none =>
    if store.Conflicts journal index then .conflict
    -- a resolution that another committed first conflicts
    else if ∃ promise ∈ resolvedPromises journal.edits, promise ∉ store.pending then .conflict
    else .committed

/-- The volumes as a commit of `journal` leaves them. A journal that began from the current
revision installs its drafts; another applies its edits to the volumes as they stand now. A volume
whose cell the journal does not keep is left as it is. -/
def committedVersions (journal : StoreJournal K A) : Table VolumeId (Value K A) :=
  if store.revision = journal.snapshot.revision then
    store.versions.override
      (journal.views.restrict fun volume =>
        volume ∈ writtenVolumes journal.edits ∧ volume ∈ journal.cells)
  else
    store.versions.override
      ((rebaseEdits store.versions journal.edits).restrict fun volume => volume ∈ journal.cells)

/-- Applies a journal already accepted by `validate`. Returns whether the store changed. -/
def commitValidated (journal : StoreJournal K A) : ReflectionStore K A × Bool :=
  if journal.edits.isEmpty then (store, false)
  else
    ({ store with
        versions := store.committedVersions journal
        revision := store.revision + 1
        latestChanges := store.latestChanges.override
          (Table.ofKeys (normalizedEditPaths journal.edits) (store.revision + 1))
        pending := store.pending \ (resolvedPromises journal.edits).toFinset },
      true)

/-- Commits a journal, if it is valid, and leaves the store as it is otherwise. -/
def tryCommit (journal : StoreJournal K A)
    (index : ObservationIndex K) : ReflectionStore K A × StoreCommitResult :=
  match store.validate journal index with
  | .committed => ((store.commitValidated journal).1, .committed)
  | refused => (store, refused)

/-- Allocates a volume for a host, which names it by its identity: the store keeps it until the
host revokes it. -/
def createVolume (initial : Value K A) : ReflectionStore K A :=
  { store with
    kept := insert store.nextVolume store.kept
    versions := store.versions.set store.nextVolume initial
    revision := store.revision + 1
    latestChanges := store.latestChanges.set (.root store.nextVolume) (store.revision + 1)
    nextVolume := store.nextVolume + 1 }

/-- Takes a volume back. The store's own volumes cannot be. -/
def revokeVolume (volume : VolumeId) : ReflectionStore K A :=
  if volume = heapVolume ∨ volume = runtimeVolume ∨ volume = environmentVolume ∨
      (store.versions.get volume).isNone then store
  else
    { store with
      kept := store.kept.erase volume
      revoked := insert volume store.revoked
      versions := store.versions.remove volume
      revision := store.revision + 1
      latestChanges := store.latestChanges.set (.root volume) (store.revision + 1) }

/-- Replaces the heap volume from outside of any transaction. -/
def replaceRoot (root : Value K A) : ReflectionStore K A :=
  { store with
    versions := store.versions.set heapVolume root
    revision := store.revision + 1
    latestChanges := store.latestChanges.set (.root heapVolume) (store.revision + 1) }

end ReflectionStore

/-! ### What a commit leaves -/

variable {edits : List (StoreEdit K A)}

theorem editsOn_of_not_written {volume : VolumeId}
    (h : ∀ edit ∈ edits, edit.writesData → edit.address.volume ≠ volume)
    (current : Option (Value K A)) : editsOn volume current edits = current := by
  induction edits generalizing current with
  | nil => rfl
  | cons edit edits ih =>
    rw [editsOn_cons, applyOn_of_not_data fun hc => h edit (.head _) hc.2 hc.1]
    exact ih (fun e he => h e (List.mem_cons_of_mem edit he)) current

omit [DecidableEq K] in
theorem mem_writtenVolumes {volume : VolumeId} :
    volume ∈ writtenVolumes edits ↔
      ∃ edit ∈ edits, edit.writesData = true ∧ edit.address.volume = volume := by
  simp [writtenVolumes, and_assoc]

theorem rebaseEdits_concat (versions : Table VolumeId (Value K A)) (edits : List (StoreEdit K A))
    (edit : StoreEdit K A) :
    rebaseEdits versions (edits ++ [edit]) =
      rebaseEdit versions (rebaseEdits versions edits) edit := by
  rw [rebaseEdits, List.foldl_append]
  rfl

section

variable {versions written : Table VolumeId (Value K A)} {edit : StoreEdit K A}

/-- A data edit that creates no volume drafts what it does to the volume's value, where the volume
exists. -/
theorem rebaseEdit_of_data (hdata : edit.writesData)
    (hcreate : ∀ volume initial, edit ≠ .create volume initial) :
    rebaseEdit versions written edit =
      match (written.get edit.address.volume).or (versions.get edit.address.volume) with
      | some current => written.set edit.address.volume (applyEdit current edit)
      | none => written := by
  rw [rebaseEdit, if_pos hdata]
  · cases written.get edit.address.volume with
    | some => rfl
    | none => cases versions.get edit.address.volume <;> rfl
  · exact hcreate

theorem rebaseEdit_create (versions written : Table VolumeId (Value K A)) (volume : VolumeId)
    (initial : Value K A) :
    rebaseEdit versions written (.create volume initial) = written.set volume initial := by
  unfold rebaseEdit
  simp only [StoreEdit.writesData, if_true, StoreEdit.address, ConflictAddress.root]
  cases written.get volume with
  | some => rfl
  | none => cases versions.get volume <;> rfl

/-- A rebased edit changes no other volume. -/
theorem rebaseEdit_get_of_not_written {volume : VolumeId}
    (h : ¬ (edit.address.volume = volume ∧ edit.writesData)) :
    (rebaseEdit versions written edit).get volume = written.get volume := by
  unfold rebaseEdit
  split
  · next hdata =>
    have hne : volume ≠ edit.address.volume := fun hv => h ⟨hv.symm, hdata⟩
    split
    · exact Table.get_set_of_ne _ _ hne
    split
    · exact Table.get_set_of_ne _ _ hne
    split
    · exact Table.get_set_of_ne _ _ hne
    · rfl
  · rfl

end

/-- **Rebasing applies the edits**: what is written, or else stood there before, is what the edits
make of the volume. -/
theorem rebaseEdits_get (versions : Table VolumeId (Value K A)) (edits : List (StoreEdit K A))
    (volume : VolumeId) :
    ((rebaseEdits versions edits).get volume).or (versions.get volume) =
      editsOn volume (versions.get volume) edits := by
  induction edits using List.reverseRecOn with
  | nil => simp [rebaseEdits]
  | append_singleton edits edit ih =>
    rw [rebaseEdits_concat, editsOn_append, ← ih, editsOn_cons, editsOn_nil]
    by_cases h : edit.address.volume = volume ∧ edit.writesData = true
    · by_cases hcreate : ∃ created initial, edit = .create created initial
      · obtain ⟨created, initial, rfl⟩ := hcreate
        obtain rfl : created = volume := h.1
        rw [rebaseEdit_create, Table.get_set_self, applyOn_create, Option.some_or]
      · have hne : ∀ created initial, edit ≠ .create created initial :=
          fun created initial heq => hcreate ⟨created, initial, heq⟩
        rw [rebaseEdit_of_data h.2 hne, applyOn_of_data h hne, h.1]
        cases hcur : ((rebaseEdits versions edits).get volume).or (versions.get volume) with
        | none => exact hcur
        | some => simp only [Table.get_set_self, Option.some_or, Option.map_some]
    · rw [rebaseEdit_get_of_not_written h, applyOn_of_not_data h]

/-- **A commit applies the journal's edits** to the volumes, whether it installs drafts or rebases,
if the journal keeps the cell of every volume it writes. -/
theorem committedVersions_get {store : ReflectionStore K A} {journal : StoreJournal K A}
    (hvalue : ∀ volume, journal.valueAt volume =
      editsOn volume (journal.snapshot.versions.get volume) journal.edits)
    (hcells : ∀ edit ∈ journal.edits, edit.writesData → edit.address.volume ∈ journal.cells)
    (hcurrent : store.revision = journal.snapshot.revision →
      journal.snapshot.versions = store.versions) (volume : VolumeId) :
    (store.committedVersions journal).get volume =
      editsOn volume (store.versions.get volume) journal.edits := by
  -- a volume without a cell is written by no edit
  have hfree : volume ∉ journal.cells →
      editsOn volume (store.versions.get volume) journal.edits = store.versions.get volume := by
    intro hcell
    refine editsOn_of_not_written (fun edit he hdata hv => hcell ?_) _
    rw [← hv]
    exact hcells edit he hdata
  unfold ReflectionStore.committedVersions
  split
  · next hrev =>
    rw [Table.get_override, Table.get_restrict]
    split
    · rw [← hcurrent hrev, ← hvalue, StoreJournal.valueAt]
      cases journal.views.get volume <;> rfl
    · next hnot =>
      rw [Option.none_or]
      by_cases hcell : volume ∈ journal.cells
      · exact (editsOn_of_not_written (fun edit he hdata hv =>
          hnot ⟨mem_writtenVolumes.mpr ⟨edit, he, hdata, hv⟩, hcell⟩) _).symm
      · exact (hfree hcell).symm
  · rw [Table.get_override, Table.get_restrict]
    split
    · exact rebaseEdits_get store.versions journal.edits volume
    · next hcell => rw [Option.none_or, hfree hcell]

/-! ### A removal rebased over a changed shape -/

/-- A heap with a dictionary at key 0 and the number 7 at key 2. -/
def sampleStore : ReflectionStore Nat Nat :=
  ReflectionStore.new.replaceRoot (.dict [(0, .dict [(1, .data 1)]), (2, .data 7)])

/-- A transaction that removes what is below key 0. -/
def sampleRemoval : StoreJournal Nat Nat :=
  (StoreJournal.new sampleStore.snapshot).pushEdit heapVolume (.remove ⟨heapVolume, [0, 1]⟩)

/-- Another that replaces the dictionary at key 0 by a number. -/
def sampleReplacement : StoreJournal Nat Nat :=
  (StoreJournal.new sampleStore.snapshot).pushEdit heapVolume
    (.set ⟨heapVolume, [0]⟩ (some (.data 5)))

/-- Both transactions commit, the removal last. Key 2, apart from what either wrote, reads as 7
after the first commit, and the second makes the whole heap unreadable. So does the removal applied
to those contents directly. -/
theorem rebased_removal_unreadable :
    Apart [0, 1] [2] ∧
      pathRead (.dict [(0, .data 5), (2, .data 7)] : Value Nat Nat) [2] = .value (.data 7) ∧
      pathRead (applyEdit (.dict [(0, .data 5), (2, .data 7)] : Value Nat Nat)
        (.remove ⟨heapVolume, [0, 1]⟩)) [2] = .failed ∧
      (sampleStore.tryCommit sampleReplacement ∅).2 = .committed ∧
      readVolume ((sampleStore.tryCommit sampleReplacement ∅).1.versions.get heapVolume) [2] =
        some (.value (.data 7)) ∧
      ((sampleStore.tryCommit sampleReplacement ∅).1.tryCommit sampleRemoval ∅).2 = .committed ∧
      readVolume (((sampleStore.tryCommit sampleReplacement ∅).1.tryCommit sampleRemoval
        ∅).1.versions.get heapVolume) [2] = some .failed :=
  ⟨by decide, rfl, rfl, by decide, rfl, by decide, rfl⟩

end Glam.Store
