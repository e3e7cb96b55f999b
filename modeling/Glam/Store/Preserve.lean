import Glam.Store.Transaction

/-!
# What the steps keep

Each change of the store is an `Advance` for the transactions open meanwhile and keeps the store's
own invariant (`StoreOk`), and a transaction's next operation keeps the transaction's. A commit
performs the transaction's edits on the volumes (`TransactionOk.commit_versions`). It needs the
cells of the volumes written, which the transaction keeps for every volume it knows.
-/

namespace Glam.Store

variable {K A : Type} [DecidableEq K]

/-! ### The store through its changes -/

/-- What holds of the store between steps. -/
structure StoreOk (store : ReflectionStore K A) : Prop where
  /-- the next identity is new -/
  bounded : ∀ volume, (store.versions.get volume).isSome ∨ volume ∈ store.kept ∪ store.revoked →
    volume < store.nextVolume
  /-- of the host's volumes those exist that are not revoked -/
  kept_iff : ∀ volume ∈ store.kept ∪ store.revoked,
    volume ∈ store.kept ↔ (store.versions.get volume).isSome
  own : heapVolume ∈ store.kept ∧ runtimeVolume ∈ store.kept ∧ environmentVolume ∈ store.kept
  changes_le : ∀ address revision, store.latestChanges.get address = some revision →
    revision ≤ store.revision

variable {store : ReflectionStore K A} {volume : VolumeId} {journal : StoreJournal K A}
  {target : VolumeTarget} {op : JournalOp K A}

theorem StoreOk.isSome (h : StoreOk store) (hkept : volume ∈ store.kept) :
    (store.versions.get volume).isSome :=
  (h.kept_iff volume (Finset.mem_union_left _ hkept)).mp hkept

/-- The invariant holds at the start. -/
theorem StoreOk.new : StoreOk (.new : ReflectionStore K A) := by
  have hget : ∀ volume, ((ReflectionStore.new : ReflectionStore K A).versions.get volume).isSome ↔
      volume ∈ ({heapVolume, runtimeVolume, environmentVolume} : Finset VolumeId) := by
    intro volume
    simp only [ReflectionStore.new, Table.get_set, Table.get_empty, Finset.mem_insert,
      Finset.mem_singleton]
    split_ifs <;> simp_all
  refine ⟨fun volume hv => ?_, fun volume _ => (hget volume).symm, by simp [ReflectionStore.new],
    fun address revision hrev => ?_⟩
  · rw [hget] at hv
    simp only [ReflectionStore.new, Finset.union_empty, or_self, Finset.mem_insert,
      Finset.mem_singleton] at hv ⊢
    rcases hv with rfl | rfl | rfl <;> decide
  · simp [ReflectionStore.new, Table.get_empty] at hrev

namespace ReflectionStore

variable {store store' : ReflectionStore K A}

/-- A host's change of one volume is recorded at its root, which any read of the volume
overlaps. -/
theorem Advance.of_root (hok : StoreOk store) (hrevision : store'.revision = store.revision + 1)
    (hlatest : store'.latestChanges =
      store.latestChanges.set (.root volume) (store.revision + 1))
    (hversions : ∀ w, w ≠ volume → store'.versions.get w = store.versions.get w)
    (hgone : (store'.versions.get volume).isNone → volume ∈ store'.revoked)
    (hrevoked : store.revoked ⊆ store'.revoked)
    (hhosted : store.kept ∪ store.revoked ⊆ store'.kept ∪ store'.revoked)
    (hfresh : ∀ w ∈ store'.kept ∪ store'.revoked,
      w ∈ store.kept ∪ store.revoked ∨ store.nextVolume ≤ w)
    (hnext : store.nextVolume ≤ store'.nextVolume) : store.Advance store' where
  revision_le := by omega
  versions_eq := fun h => by omega
  changes := fun address revision hget => by
    rw [hlatest, Table.get_set]
    split
    · exact ⟨_, rfl, (hok.changes_le address revision hget).trans (Nat.le_succ _)⟩
    · exact ⟨revision, hget, le_rfl⟩
  frame := fun w path hfree => by
    by_cases hw : w = volume
    · -- a change of the whole volume overlaps every path of it
      subst hw
      refine absurd (.inl ⟨rfl, List.nil_prefix⟩) (hfree (.root w) (store.revision + 1) ?_ ?_)
      · rw [hlatest, Table.get_set_self]
      · omega
    · rw [hversions w hw]
  gone := fun w hsome hnone => by
    by_cases hw : w = volume
    · subst hw
      exact hgone hnone
    · rw [hversions w hw] at hnone
      rw [Option.isNone_iff_eq_none.mp hnone] at hsome
      simp at hsome
  revoked_subset := hrevoked
  hosted_subset := hhosted
  hosted_fresh := hfresh
  next_le := hnext

/-- A store that differs in its counters only. -/
theorem Advance.of_counters (hkept : store'.kept = store.kept)
    (hrevoked : store'.revoked = store.revoked) (hversions : store'.versions = store.versions)
    (hrevision : store'.revision = store.revision)
    (hlatest : store'.latestChanges = store.latestChanges)
    (hnext : store.nextVolume ≤ store'.nextVolume) : store.Advance store' where
  revision_le := hrevision.ge
  versions_eq := fun _ => hversions
  changes := fun _ revision hget => ⟨revision, by rw [hlatest, hget], le_rfl⟩
  frame := fun volume path _ => by rw [hversions]
  gone := fun volume hsome hnone => by
    rw [hversions, Option.isNone_iff_eq_none] at hnone
    rw [hnone] at hsome
    simp at hsome
  revoked_subset := hrevoked.ge
  hosted_subset := by rw [hkept, hrevoked]
  hosted_fresh := fun volume hmem => .inl (by rwa [hkept, hrevoked] at hmem)
  next_le := hnext

theorem advance_createVolume (hok : StoreOk store) (initial : Value K A) :
    store.Advance (store.createVolume initial) := by
  refine Advance.of_root hok rfl rfl (fun w hw => Table.get_set_of_ne _ _ hw) (fun hnone => ?_)
    (subset_rfl) ?_ (fun w hw => ?_) (Nat.le_succ _)
  · simp [createVolume, Table.get_set_self] at hnone
  · exact Finset.union_subset_union_left (Finset.subset_insert _ _)
  · simp only [createVolume, Finset.mem_union, Finset.mem_insert, or_assoc] at hw
    rcases hw with rfl | hw
    · exact .inr le_rfl
    · exact .inl (Finset.mem_union.mpr hw)

theorem advance_replaceRoot (hok : StoreOk store) (root : Value K A) :
    store.Advance (store.replaceRoot root) := by
  refine Advance.of_root hok rfl rfl (fun w hw => Table.get_set_of_ne _ _ hw) (fun hnone => ?_)
    (subset_rfl) (subset_rfl) (fun w hw => .inl hw) le_rfl
  simp [replaceRoot, Table.get_set_self] at hnone

/-- What a revocation changes. -/
theorem revokeVolume_eq (hok : StoreOk store)
    (h : volume ∈ store.kept ∧ volume ≠ heapVolume ∧ volume ≠ runtimeVolume ∧
      volume ≠ environmentVolume) :
    store.revokeVolume volume =
      { store with
        kept := store.kept.erase volume
        revoked := insert volume store.revoked
        versions := store.versions.remove volume
        revision := store.revision + 1
        latestChanges := store.latestChanges.set (.root volume) (store.revision + 1) } := by
  obtain ⟨value, hvalue⟩ := Option.isSome_iff_exists.mp (hok.isSome h.1)
  exact if_neg (by simp [h.2.1, h.2.2.1, h.2.2.2, hvalue])

theorem hosted_erase_insert {kept revoked : Finset VolumeId} (h : volume ∈ kept) :
    kept.erase volume ∪ insert volume revoked = kept ∪ revoked := by
  ext w
  simp only [Finset.mem_union, Finset.mem_erase, Finset.mem_insert]
  by_cases hw : w = volume
  · simp [hw, h]
  · simp [hw]

theorem advance_revokeVolume (hok : StoreOk store)
    (h : volume ∈ store.kept ∧ volume ≠ heapVolume ∧ volume ≠ runtimeVolume ∧
      volume ≠ environmentVolume) : store.Advance (store.revokeVolume volume) := by
  rw [revokeVolume_eq hok h]
  refine Advance.of_root hok rfl rfl (fun w hw => Table.get_remove_of_ne _ hw)
    (fun _ => Finset.mem_insert_self _ _) (Finset.subset_insert _ _) ?_ (fun w hw => .inl ?_)
    le_rfl
  · rw [hosted_erase_insert h.1]
  · rwa [hosted_erase_insert h.1] at hw

end ReflectionStore

namespace StoreOk

variable {store : ReflectionStore K A}

section

variable (h : StoreOk store)
include h

theorem changes_le_set (address changed : ConflictAddress K) (revision : Nat)
    (hget : (store.latestChanges.set address (store.revision + 1)).get changed = some revision) :
    revision ≤ store.revision + 1 := by
  rw [Table.get_set] at hget
  split at hget
  · exact (Option.some.inj hget).ge
  · exact (h.changes_le changed revision hget).trans (Nat.le_succ _)

/-- A created volume keeps the invariant: its name is new. -/
theorem createVolume (initial : Value K A) : StoreOk (store.createVolume initial) where
  bounded := fun volume hv => by
    by_cases hnew : volume = store.nextVolume
    · exact hnew ▸ Nat.lt_succ_self _
    · refine Nat.lt_succ_of_lt (h.bounded volume ?_)
      simpa [ReflectionStore.createVolume, Table.get_set_of_ne _ _ hnew, hnew] using hv
  kept_iff := fun volume hv => by
    by_cases hnew : volume = store.nextVolume
    · simp [ReflectionStore.createVolume, hnew, Table.get_set_self]
    · have hold : volume ∈ store.kept ∪ store.revoked := by
        simpa [ReflectionStore.createVolume, hnew] using hv
      simpa [ReflectionStore.createVolume, Table.get_set_of_ne _ _ hnew, hnew]
        using h.kept_iff volume hold
  own := ⟨Finset.mem_insert_of_mem h.own.1, Finset.mem_insert_of_mem h.own.2.1,
    Finset.mem_insert_of_mem h.own.2.2⟩
  changes_le := h.changes_le_set _

theorem replaceRoot (root : Value K A) : StoreOk (store.replaceRoot root) := by
  have hsome : ∀ volume, ((store.replaceRoot root).versions.get volume).isSome ↔
      (store.versions.get volume).isSome := by
    intro volume
    by_cases hheap : volume = heapVolume
    · simp [ReflectionStore.replaceRoot, hheap, Table.get_set_self, h.isSome h.own.1]
    · simp [ReflectionStore.replaceRoot, Table.get_set_of_ne _ _ hheap]
  exact ⟨fun volume hv => h.bounded volume (by rwa [hsome] at hv),
    fun volume hv => (h.kept_iff volume hv).trans (hsome volume).symm, h.own, h.changes_le_set _⟩

/-- A revoked volume keeps the invariant: its name is not used again. -/
theorem revokeVolume
    (hv : volume ∈ store.kept ∧ volume ≠ heapVolume ∧ volume ≠ runtimeVolume ∧
      volume ≠ environmentVolume) : StoreOk (store.revokeVolume volume) := by
  rw [ReflectionStore.revokeVolume_eq h hv]
  refine ⟨fun w hw => h.bounded w ?_, fun w hw => ?_, ?_, h.changes_le_set _⟩
  · simp only [ReflectionStore.hosted_erase_insert hv.1] at hw
    refine hw.imp_left fun hsome => ?_
    by_cases hwv : w = volume
    · exact hwv ▸ h.isSome hv.1
    · rwa [Table.get_remove_of_ne _ hwv] at hsome
  · simp only [ReflectionStore.hosted_erase_insert hv.1] at hw
    by_cases hwv : w = volume
    · simp [hwv, Table.get_remove_self]
    · simpa [Table.get_remove_of_ne _ hwv, hwv] using h.kept_iff w hw
  · exact ⟨Finset.mem_erase.mpr ⟨hv.2.1.symm, h.own.1⟩,
      Finset.mem_erase.mpr ⟨hv.2.2.1.symm, h.own.2.1⟩,
      Finset.mem_erase.mpr ⟨hv.2.2.2.symm, h.own.2.2⟩⟩

theorem reserveFor (op : JournalOp K A) : StoreOk (store.reserveFor op) := by
  cases op with
  | create volume initial =>
    exact ⟨fun volume hv => Nat.lt_succ_of_lt (h.bounded volume hv), h.kept_iff, h.own,
      h.changes_le⟩
  | _ => exact h

end

end StoreOk

theorem ReflectionStore.advance_reserveFor (store : ReflectionStore K A) (op : JournalOp K A) :
    store.Advance (store.reserveFor op) := by
  cases op with
  | create => exact Advance.of_counters rfl rfl rfl rfl rfl (Nat.le_succ _)
  | _ => exact Advance.of_counters rfl rfl rfl rfl rfl le_rfl

/-! ### A transaction's next operation -/

theorem StoreJournal.cells_subset_pushEdit (journal : StoreJournal K A) (volume : VolumeId)
    (edit : StoreEdit K A) : journal.cells ⊆ (journal.pushEdit volume edit).cells := by
  unfold pushEdit
  cases journal.valueAt volume with
  | none => exact subset_rfl
  | some =>
    by_cases hcell : journal.hasVolumeCell volume = true
    · rw [if_pos hcell]
      exact Finset.subset_insert _ _
    · rw [if_neg hcell]

/-- An edit of a volume that the snapshot has keeps the volume's cell. -/
theorem StoreJournal.mem_cells_pushEdit (edit : StoreEdit K A)
    (hsnap : (journal.snapshot.versions.get volume).isSome)
    (hvalue : (journal.valueAt volume).isSome) : volume ∈ (journal.pushEdit volume edit).cells := by
  obtain ⟨current, hcurrent⟩ := Option.isSome_iff_exists.mp hvalue
  have hcell : journal.hasVolumeCell volume = true := by simp [hasVolumeCell, hsnap]
  unfold pushEdit
  rw [hcurrent]
  simp only [hcell, if_true]
  exact Finset.mem_insert_self _ _

theorem VolumeTarget.cells_subset_editIn (target : VolumeTarget) (journal : StoreJournal K A)
    (edit : StoreEdit K A) : journal.cells ⊆ (target.editIn journal edit).cells := by
  cases target with
  | store volume | kept volume => exact journal.cells_subset_pushEdit volume edit
  | handle volume =>
    exact (Finset.subset_insert _ _).trans
      ((journal.keepVolume volume).cells_subset_pushEdit volume edit)

omit [DecidableEq K] in
theorem VolumeTarget.Known.id_ne (h : target.Known store) : target.id ≠ runtimeVolume := by
  cases target with
  | store => rcases h with rfl | rfl <;> simp [VolumeTarget.id, heapVolume,
      environmentVolume, runtimeVolume]
  | kept => exact h.1
  | handle => exact h.1

theorem JournalOp.Enabled.valid (h : op.Enabled store journal) (hok : StoreOk store) :
    op.Valid := by
  cases op with
  | read | write | rewrite => exact VolumeTarget.Known.id_ne h
  | remove => exact ⟨VolumeTarget.Known.id_ne h.1, h.2⟩
  | create volume initial =>
    -- the runtime's own volume has its identity already
    have hlt := hok.bounded runtimeVolume (.inr (Finset.mem_union_left _ hok.own.2.1))
    exact (ne_of_lt (h ▸ hlt)).symm
  | readVirtual | writeVirtual | rewriteVirtual | readPromise | resolve => trivial

omit [DecidableEq K] in
theorem JournalOp.Enabled.known (h : op.Enabled store journal) (htarget : op.target = some target) :
    target.Known store := by
  cases op with
  | read | write | rewrite => exact Option.some.inj htarget ▸ h
  | remove => exact Option.some.inj htarget ▸ h.1
  | _ => simp [JournalOp.target] at htarget

variable [StoreKeys K]

/-- An operation makes no cell unknown. -/
theorem JournalOp.cells_subset_perform (op : JournalOp K A) (journal : StoreJournal K A) :
    journal.cells ⊆ (op.perform journal).1.cells := by
  cases op with
  | read target path =>
    cases target with
    | store => exact subset_rfl
    | kept =>
      simp only [perform, VolumeTarget.readIn]
      split
      · exact Finset.subset_insert _ _
      · exact subset_rfl
    | handle => exact Finset.subset_insert _ _
  | write target path value | rewrite target path updater | remove target path =>
    exact target.cells_subset_editIn journal _
  | create => exact Finset.subset_insert _ _
  | readVirtual | writeVirtual | rewriteVirtual | readPromise | resolve =>
    exact subset_rfl

/-- An operation keeps the cell of the volume whose data it edits. -/
theorem JournalOp.mem_cells_perform {edit : StoreEdit K A} (hedit : op.effect = .inl edit)
    (hdata : edit.writesData)
    (hsnap : ∀ target, op.target = some target → (∀ volume, target ≠ .handle volume) →
      (journal.snapshot.versions.get target.id).isSome ∧ (journal.valueAt target.id).isSome) :
    edit.address.volume ∈ (op.perform journal).1.cells := by
  have hin : ∀ target : VolumeTarget, op.target = some target → ∀ edit : StoreEdit K A,
      target.id ∈ (target.editIn journal edit).cells := by
    intro target htarget edit
    cases target with
    | handle volume =>
      exact (journal.keepVolume volume).cells_subset_pushEdit volume edit
        (Finset.mem_insert_self _ _)
    | store | kept =>
      obtain ⟨hs, hv⟩ := hsnap _ htarget (by simp)
      exact StoreJournal.mem_cells_pushEdit edit hs hv
  cases op with
  | write target path value | rewrite target path updater | remove target path =>
    obtain rfl := Sum.inl.inj hedit; exact hin target rfl _
  | create =>
    obtain rfl := Sum.inl.inj hedit
    exact Finset.mem_insert_self _ _
  | writeVirtual | rewriteVirtual =>
    obtain rfl := Sum.inl.inj hedit; simp [StoreEdit.writesData] at hdata
  | resolve =>
    obtain rfl := Sum.inl.inj hedit
    simp [StoreEdit.writesData] at hdata
  | read | readVirtual | readPromise => simp [effect] at hedit

omit [DecidableEq K] in
theorem mem_editsOf_concat {ops : List (JournalOp K A)} {edit : StoreEdit K A} :
    edit ∈ editsOf (ops ++ [op]) ↔ edit ∈ editsOf ops ∨ op.effect = .inl edit := by
  rw [editsOf_append, editsOf_singleton, List.mem_append, Option.mem_toList,
    Sum.getLeft?_eq_some_iff]

/-- **A transaction's next operation keeps it in order.** -/
theorem TransactionOk.perform {snapshot : StoreSnapshot K A} {transaction : Transaction K A}
    (h : TransactionOk store snapshot transaction) (hok : StoreOk store)
    (henabled : op.Enabled store transaction.session.journal)
    (hpath : ∀ edit, op.effect = .inl edit → edit.writesData →
      ∀ value ∈ transaction.session.journal.valueAt edit.address.volume, edit.PathOk value)
    (hknows : ∀ edit volume, op.effect = .inl edit → op.target = some (.kept volume) →
      (transaction.session.journal.snapshot.versions.get volume).isSome) :
    TransactionOk (store.reserveFor op) snapshot (transaction.perform op) := by
  have hadv := h.advance (store.advance_reserveFor op)
  refine { hadv with
    session_eq := ?_, index_eq := ?_, valid := ?_, paths := ?_, cells := ?_, hosted := ?_,
    created := ?_ }
  · change transaction.session.perform op = _
    rw [h.session_eq]
    exact (runOps_concat _ _ op).symm
  · change List.foldl _ transaction.index _ = List.foldl _ _ (transaction.session.perform op).observed
    rw [h.index_eq, Session.perform, List.foldl_append]
  · intro other hother
    rcases List.mem_append.mp hother with hold | hnew
    · exact h.valid other hold
    · rw [List.mem_singleton.mp hnew]
      exact henabled.valid hok
  · intro volume
    change PathsOk volume _ (editsOf (transaction.ops ++ [op]))
    rw [editsOf_append, editsOf_singleton]
    refine along_append.mpr ⟨h.paths volume, ?_⟩
    cases heffect : op.effect with
    | inr => trivial
    | inl edit =>
      refine ⟨fun hvol hdata value hvalue => hpath edit heffect hdata value ?_, trivial⟩
      rw [hvol, h.journal_valueAt]
      exact hvalue
  · intro edit hmem hdata
    change edit.address.volume ∈ (op.perform transaction.session.journal).1.cells
    rcases mem_editsOf_concat.mp hmem with hold | hnew
    · exact op.cells_subset_perform _ (h.cells edit hold hdata)
    · refine op.mem_cells_perform hnew hdata fun target htarget hhandle => ?_
      have hsome : (snapshot.versions.get target.id).isSome := by
        have hknown := henabled.known htarget
        cases target with
        | store =>
          rcases hknown with rfl | rfl
          · exact h.own.1
          · exact h.own.2
        | kept volume => exact h.journal_snapshot ▸ hknows edit volume hnew htarget
        | handle volume => exact absurd rfl (hhandle volume)
      rw [h.journal_snapshot, h.journal_valueAt, isSome_editsOn]
      exact ⟨hsome, .inl hsome⟩
  · intro other hother volume htarget
    rcases List.mem_append.mp hother with hold | hnew
    · exact hadv.hosted other hold volume htarget
    · rw [List.mem_singleton.mp hnew] at htarget
      have hknown := (henabled.known htarget).2
      cases op with
      | create => simp [JournalOp.target] at htarget
      | _ => exact Finset.mem_union.mpr hknown
  · intro volume initial hmem
    rcases mem_editsOf_concat.mp hmem with hold | hnew
    · exact hadv.created volume initial hold
    · -- the identity is the next one, so nobody has used it
      cases op with
      | create created first =>
        obtain ⟨rfl, rfl⟩ : created = volume ∧ first = initial := by
          simpa [JournalOp.effect] using hnew
        obtain rfl : created = store.nextVolume := henabled
        refine ⟨Nat.lt_succ_self _, fun hhosted => ?_, ?_⟩
        · exact absurd (hok.bounded _ (.inr hhosted)) (lt_irrefl _)
        · by_contra hsome
          exact absurd (h.bounded _ (.inl (Option.isSome_iff_ne_none.mpr hsome))) (lt_irrefl _)
      | _ => simp [JournalOp.effect] at hnew

/-! ### A commit -/

namespace TransactionOk

variable {store : ReflectionStore K A} {snapshot : StoreSnapshot K A}
  {transaction : Transaction K A}

/-- **A commit performs the transaction's edits on the store's volumes.** -/
theorem commit_versions (h : TransactionOk store snapshot transaction) (volume : VolumeId) :
    (store.commitValidated transaction.session.journal).1.versions.get volume =
      editsOn volume (store.versions.get volume) (editsOf transaction.ops) := by
  unfold ReflectionStore.commitValidated
  split
  · next hempty =>
    rw [h.journal_edits, List.isEmpty_iff] at hempty
    rw [hempty, editsOn_nil]
  · rw [← h.journal_edits]
    refine committedVersions_get (fun w => ?_) (fun edit hmem => ?_) (fun hrev => ?_) volume
    · rw [h.journal_valueAt, h.journal_snapshot, h.journal_edits]
    · exact h.cells edit (h.journal_edits ▸ hmem)
    · rw [h.journal_snapshot] at hrev ⊢
      exact h.current hrev.symm

omit [StoreKeys K] in
/-- The revision at which each change was made, after a commit. -/
theorem latestChanges_commit (store : ReflectionStore K A) (hedits : ¬ journal.edits.isEmpty)
    (address : ConflictAddress K) :
    (store.commitValidated journal).1.latestChanges.get address =
      if address ∈ normalizedEditPaths journal.edits then some (store.revision + 1)
      else store.latestChanges.get address := by
  rw [ReflectionStore.commitValidated, if_neg hedits]
  simp only [Table.get_override, Table.get_ofKeys]
  split <;> rfl

/-- A commit changes what its journal edits, and nothing else. -/
theorem advance_commit (h : TransactionOk store snapshot transaction) (hok : StoreOk store)
    (hpaths : ∀ volume, PathsOk volume (store.versions.get volume) (editsOf transaction.ops)) :
    store.Advance (store.commitValidated transaction.session.journal).1 := by
  have hversions := h.commit_versions
  by_cases hempty : transaction.session.journal.edits.isEmpty = true
  · rw [ReflectionStore.commitValidated, if_pos hempty]
    exact ReflectionStore.Advance.of_counters rfl rfl rfl rfl rfl le_rfl
  have hlatest := latestChanges_commit store hempty
  have hrest : (store.commitValidated transaction.session.journal).1.revision =
        store.revision + 1 ∧
      (store.commitValidated transaction.session.journal).1.kept = store.kept ∧
      (store.commitValidated transaction.session.journal).1.revoked = store.revoked ∧
      (store.commitValidated transaction.session.journal).1.nextVolume = store.nextVolume := by
    rw [ReflectionStore.commitValidated, if_neg hempty]
    exact ⟨rfl, rfl, rfl, rfl⟩
  obtain ⟨hrevision, hkept, hrevoked, hnext⟩ := hrest
  refine ⟨by omega, fun heq => by omega, fun address revision hget => ?_,
    fun volume path hfree => ?_, fun volume hsome hnone => ?_, hrevoked.ge, ?_, ?_, hnext.ge⟩
  · rw [hlatest]
    split
    · exact ⟨_, rfl, (hok.changes_le address revision hget).trans (Nat.le_succ _)⟩
    · exact ⟨revision, hget, le_rfl⟩
  · -- an edit that overlapped the address would have left a change that does
    rw [hversions]
    refine (readVolume_editsOn_of_apart (fun edit hmem hover => ?_)
      ((hpaths volume).imp fun _ _ => not_blockedRemoval_of_pathOk)).symm
    obtain ⟨changed, hchanged, hover'⟩ := (TreeOrder.exists_overlap_coverAll
      ConflictAddress.isPrefixOf_treeOrder
      (transaction.session.journal.edits.map StoreEdit.address) ⟨volume, path⟩).mpr
      ⟨edit.address, List.mem_map_of_mem (h.journal_edits ▸ hmem), hover⟩
    refine hfree changed (store.revision + 1) ?_ (Nat.lt_succ_self _) hover'
    rw [hlatest]
    exact if_pos hchanged
  · rw [hversions, Option.isNone_iff_eq_none] at hnone
    have hsome' := (isSome_editsOn volume (store.versions.get volume)
      (editsOf transaction.ops)).mpr (.inl hsome)
    rw [hnone] at hsome'
    simp at hsome'
  · rw [hkept, hrevoked]
  · intro volume hmem
    rw [hkept, hrevoked] at hmem
    exact .inl hmem

/-- A commit keeps the invariant. -/
theorem storeOk_commit (h : TransactionOk store snapshot transaction) (hok : StoreOk store) :
    StoreOk (store.commitValidated transaction.session.journal).1 := by
  by_cases hempty : transaction.session.journal.edits.isEmpty = true
  · rw [ReflectionStore.commitValidated, if_pos hempty]
    exact hok
  have hlatest := latestChanges_commit store hempty
  have hversions := h.commit_versions
  rw [ReflectionStore.commitValidated, if_neg hempty] at hlatest hversions ⊢
  -- the volumes that exist are those that did and those that the transaction created
  have hsome : ∀ volume, ((store.committedVersions transaction.session.journal).get volume).isSome ↔
      (store.versions.get volume).isSome ∨
        ∃ initial, .create volume initial ∈ editsOf transaction.ops := by
    intro volume
    rw [show (store.committedVersions transaction.session.journal).get volume = _
      from hversions volume, isSome_editsOn]
  refine ⟨fun volume hv => ?_, fun volume hv => ?_, hok.own, fun address revision hget => ?_⟩
  · rcases hv with hv | hv
    · rcases (hsome volume).mp hv with hold | ⟨initial, hcreate⟩
      · exact hok.bounded volume (.inl hold)
      · exact (h.created volume initial hcreate).1
    · exact hok.bounded volume (.inr hv)
  · rw [hok.kept_iff volume hv]
    refine Iff.trans ⟨.inl, ?_⟩ (hsome volume).symm
    rintro (hold | ⟨initial, hcreate⟩)
    · exact hold
    · exact absurd hv (h.created volume initial hcreate).2.1
  · rw [hlatest] at hget
    split at hget
    · exact (Option.some.inj hget).ge
    · exact (hok.changes_le address revision hget).trans (Nat.le_succ _)

end TransactionOk

end Glam.Store
