import Glam.Store.System

/-!
# Open transactions

The invariant of an open transaction (`TransactionOk`): where nothing overlapping an address has
changed since its snapshot, the snapshot still reads there as the store does. It outlives whatever
others do to the store (`TransactionOk.advance`), of which `ReflectionStore.Advance` says all that a
transaction needs to know.

A transaction that passes validation has had nothing change that its reads depend on, so its reads
are those of the store it commits to (`TransactionOk.answers_serial`).
-/

namespace Glam.Store

variable {K A : Type} [DecidableEq K] [StoreKeys K]

/-! ### What one transaction sees of the others -/

/-- What a change of the store may do while a transaction is open. Changes are recorded at later
revisions, and where none overlaps an address the volumes read as before. -/
structure ReflectionStore.Advance (store store' : ReflectionStore K A) : Prop where
  revision_le : store.revision ≤ store'.revision
  versions_eq : store'.revision = store.revision → store'.versions = store.versions
  changes : ∀ address revision, store.latestChanges.get address = some revision →
    ∃ revision', store'.latestChanges.get address = some revision' ∧ revision ≤ revision'
  frame : ∀ volume path,
    (∀ address revision, store'.latestChanges.get address = some revision →
      store.revision < revision → ¬ address.Overlaps ⟨volume, path⟩) →
    readVolume (store.versions.get volume) path = readVolume (store'.versions.get volume) path
  gone : ∀ volume, (store.versions.get volume).isSome → (store'.versions.get volume).isNone →
    volume ∈ store'.revoked
  revoked_subset : store.revoked ⊆ store'.revoked
  hosted_subset : store.kept ∪ store.revoked ⊆ store'.kept ∪ store'.revoked
  hosted_fresh : ∀ volume ∈ store'.kept ∪ store'.revoked,
    volume ∈ store.kept ∪ store.revoked ∨ store.nextVolume ≤ volume
  next_le : store.nextVolume ≤ store'.nextVolume

/-- What holds of an open transaction. -/
structure TransactionOk (store : ReflectionStore K A) (snapshot : StoreSnapshot K A)
    (transaction : Transaction K A) : Prop where
  session_eq : transaction.session = runOps (.new snapshot) transaction.ops
  index_eq : transaction.index =
    transaction.session.observed.foldl ObservationIndex.observe ∅
  valid : ∀ op ∈ transaction.ops, op.Valid
  /-- its edits found only dictionaries on their way -/
  paths : ∀ volume, PathsOk volume (snapshot.versions.get volume) (editsOf transaction.ops)
  /-- it keeps the cells of the volumes it writes -/
  cells : ∀ edit ∈ editsOf transaction.ops, edit.writesData →
    edit.address.volume ∈ transaction.session.journal.cells
  revision_le : snapshot.revision ≤ store.revision
  current : snapshot.revision = store.revision → snapshot.versions = store.versions
  /-- where nothing has changed since its snapshot, the snapshot reads as the store -/
  unchanged : ∀ volume path,
    (∀ address revision, store.latestChanges.get address = some revision →
      snapshot.revision < revision → ¬ address.Overlaps ⟨volume, path⟩) →
    readVolume (snapshot.versions.get volume) path = readVolume (store.versions.get volume) path
  /-- only a revocation takes a volume away -/
  gone : ∀ volume, (snapshot.versions.get volume).isSome → (store.versions.get volume).isNone →
    volume ∈ store.revoked
  hosted : ∀ op ∈ transaction.ops, ∀ volume, op.target = some (.kept volume) →
    volume ∈ store.kept ∪ store.revoked
  kept_iff : ∀ volume ∈ store.kept ∪ store.revoked,
    volume ∈ snapshot.kept ↔ (snapshot.versions.get volume).isSome
  /-- the volumes it creates are new, and nobody else's -/
  created : ∀ volume initial, .create volume initial ∈ editsOf transaction.ops →
    volume < store.nextVolume ∧ volume ∉ store.kept ∪ store.revoked ∧
      snapshot.versions.get volume = none
  bounded : ∀ volume, (snapshot.versions.get volume).isSome ∨ volume ∈ snapshot.kept →
    volume < store.nextVolume
  own : (snapshot.versions.get heapVolume).isSome ∧
    (snapshot.versions.get environmentVolume).isSome

variable {store : ReflectionStore K A}

/-- **Other transactions' steps keep an open transaction in order.** -/
theorem TransactionOk.advance {store' : ReflectionStore K A} {snapshot : StoreSnapshot K A}
    {transaction : Transaction K A} (h : TransactionOk store snapshot transaction)
    (hadv : store.Advance store') : TransactionOk store' snapshot transaction :=
  { h with
    revision_le := h.revision_le.trans hadv.revision_le
    current := fun hrev => by
      have hle := h.revision_le
      have hle' := hadv.revision_le
      rw [h.current (by omega), hadv.versions_eq (by omega)]
    unchanged := fun volume path hfree => by
      rw [h.unchanged volume path fun address revision hget hlt => ?_]
      · exact hadv.frame volume path fun address revision hget hlt =>
          hfree address revision hget (lt_of_le_of_lt h.revision_le hlt)
      · obtain ⟨revision', hget', hle⟩ := hadv.changes address revision hget
        exact hfree address revision' hget' (lt_of_lt_of_le hlt hle)
    gone := fun volume hsome hnone => by
      by_cases hstore : (store.versions.get volume).isSome
      · exact hadv.gone volume hstore hnone
      · exact hadv.revoked_subset (h.gone volume hsome (by simpa using hstore))
    hosted := fun op hop volume htarget => hadv.hosted_subset (h.hosted op hop volume htarget)
    kept_iff := fun volume hmem => by
      rcases hadv.hosted_fresh volume hmem with hold | hnew
      · exact h.kept_iff volume hold
      · -- a volume created since is in no earlier snapshot
        refine iff_of_false (fun hk => ?_) fun hs => ?_
        · exact absurd (h.bounded volume (.inr hk)) (not_lt_of_ge hnew)
        · exact absurd (h.bounded volume (.inl hs)) (not_lt_of_ge hnew)
    created := fun volume initial hmem => by
      obtain ⟨hlt, hnot, hnone⟩ := h.created volume initial hmem
      refine ⟨lt_of_lt_of_le hlt hadv.next_le, fun hmem' => ?_, hnone⟩
      rcases hadv.hosted_fresh volume hmem' with hold | hnew
      · exact hnot hold
      · exact not_lt_of_ge hnew hlt
    bounded := fun volume hv => lt_of_lt_of_le (h.bounded volume hv) hadv.next_le }

/-! ### A transaction that passes validation -/

omit [StoreKeys K] in
theorem mayConflict_foldl (index : ObservationIndex K) (observed : List (ConflictAddress K))
    (changed : ConflictAddress K) :
    (observed.foldl ObservationIndex.observe index).MayConflict changed ↔
      (∃ read ∈ observed, read.Overlaps changed) ∨ index.MayConflict changed := by
  induction observed generalizing index with
  | nil => simp
  | cons read observed ih =>
    rw [List.foldl_cons, ih, ObservationIndex.mayConflict_observe]
    simp only [List.mem_cons, exists_eq_or_imp, or_assoc, or_left_comm]

omit [DecidableEq K] [StoreKeys K] in
/-- The created volumes are those of the `create` edits. -/
theorem mem_createdVolumes {edits : List (StoreEdit K A)} {volume : VolumeId} :
    volume ∈ createdVolumes edits ↔ ∃ initial, .create volume initial ∈ edits := by
  rw [createdVolumes, List.mem_filterMap]
  constructor
  · rintro ⟨edit, hmem, hedit⟩
    cases edit with
    | create created initial =>
      cases hedit
      exact ⟨initial, hmem⟩
    | _ => simp at hedit
  · rintro ⟨initial, hmem⟩
    exact ⟨_, hmem, rfl⟩

omit [StoreKeys K] in
/-- What validation has found: no edit is of a revoked volume, and nothing observed has changed. -/
theorem ReflectionStore.of_validate {journal : StoreJournal K A} {index : ObservationIndex K}
    (h : store.validate journal index = .committed) :
    (∀ edit ∈ journal.edits, (store.versions.get edit.address.volume).isNone →
      edit.address.volume ∈ store.revoked →
      ∃ initial, .create edit.address.volume initial ∈ journal.edits) ∧
      ¬ store.Conflicts journal index := by
  unfold validate at h
  cases hfind : store.revokedVolume journal with
  | some => simp [hfind] at h
  | none =>
    simp only [hfind] at h
    refine ⟨fun edit hmem hnone hrevoked => ?_, fun hc => ?_⟩
    · have hnot := List.find?_eq_none.mp hfind edit.address.volume (List.mem_map_of_mem hmem)
      by_contra hcreated
      refine hnot ?_
      simp only [hnone, hrevoked, decide_true, Bool.and_true, Bool.true_and, Bool.not_eq_true',
        List.contains_eq_mem, decide_eq_false_iff_not, mem_createdVolumes]
      exact hcreated
    · rw [if_pos hc] at h
      simp at h

namespace TransactionOk

variable {store : ReflectionStore K A} {snapshot : StoreSnapshot K A}
  {transaction : Transaction K A}

section

variable (h : TransactionOk store snapshot transaction)
include h

theorem journal_snapshot : transaction.session.journal.snapshot = snapshot := by
  rw [h.session_eq, runOps_snapshot]
  rfl

theorem journal_edits : transaction.session.journal.edits = editsOf transaction.ops := by
  rw [h.session_eq, runOps_edits]
  rfl

theorem journal_valueAt (volume : VolumeId) :
    transaction.session.journal.valueAt volume =
      editsOn volume (snapshot.versions.get volume) (editsOf transaction.ops) := by
  rw [h.session_eq, runOps_valueAt]
  rfl

end

variable {address : ConflictAddress K} {target : VolumeTarget} {done : List (StoreEdit K A)}

section

variable (h : TransactionOk store snapshot transaction)
include h

/-- What a validated transaction observed reads in its snapshot as in the store. -/
theorem read_of_observed
    (hvalid : store.validate transaction.session.journal transaction.index = .committed)
    (hobs : address ∈ transaction.session.observed) :
    readVolume (snapshot.versions.get address.volume) address.path =
      readVolume (store.versions.get address.volume) address.path := by
  refine h.unchanged address.volume address.path fun changed revision hget hlt hover => ?_
  refine (ReflectionStore.of_validate hvalid).2 ⟨changed, ?_, ⟨revision, hget, ?_⟩, ?_⟩
  · exact Table.mem_keys_iff.mpr ⟨revision, hget⟩
  · rw [h.journal_snapshot]
    exact hlt
  · rw [h.index_eq, mayConflict_foldl]
    exact .inl ⟨address, hobs, hover.symm⟩

theorem placed : ∀ edit ∈ editsOf transaction.ops, edit.Placed := by
  intro edit hmem
  obtain ⟨op, hop, heffect⟩ := List.mem_filterMap.mp hmem
  exact (h.valid op hop).placed (Sum.getLeft?_eq_some_iff.mp heffect)

theorem mem_observed {event : JournalOp K A × List (StoreEdit K A)}
    (hmem : event ∈ history [] transaction.ops)
    (hobs : observedAt (.new snapshot) event = some address) :
    address ∈ transaction.session.observed := by
  rw [h.session_eq, runOps_observed]
  exact List.mem_filterMap.mpr ⟨event, hmem, hobs⟩

end

section

variable (h : TransactionOk store snapshot transaction)
  (hvalid : store.validate transaction.session.journal transaction.index = .committed)
include h hvalid

/-- A volume that a validated transaction reads exists in the store if it does in its snapshot:
even a read that the transaction's own edits cover, for then validation has checked the edits. -/
theorem isSome_of_read {path : List K}
    (hmem : (.read target path, done) ∈ history [] transaction.ops)
    (hsome : (snapshot.versions.get target.id).isSome) : (store.versions.get target.id).isSome := by
  by_contra hnone
  have hgone := h.gone target.id hsome (by simpa using hnone)
  cases hdep : dependency done target.id path with
  | some d =>
    have hobs : (⟨target.id, d⟩ : ConflictAddress K) ∈ transaction.session.observed := by
      obtain ⟨value, hvalue⟩ := Option.isSome_iff_exists.mp hsome
      refine h.mem_observed hmem ?_
      simp [observedAt, JournalOp.effect, StoreJournal.new, hvalue, hdep]
    have hread := congrArg Option.isSome (h.read_of_observed hvalid hobs)
    simp only [readVolume, Option.isSome_map] at hread
    exact hnone (hread ▸ hsome)
  | none =>
    -- some edit of its own covers the read
    have hover : ∃ edit ∈ done, edit.address.Overlaps ⟨target.id, path⟩ := by
      by_contra hfree
      push Not at hfree
      rw [dependency_of_not_overlaps hfree] at hdep
      simp at hdep
    obtain ⟨edit, hedit, hover⟩ := hover
    have hvol : edit.address.volume = target.id := by
      rcases hover with hp | hp
      · exact hp.1
      · exact hp.1.symm
    have hin := (prefix_of_mem_history hmem).subset hedit
    obtain ⟨initial, hcreate⟩ := (ReflectionStore.of_validate hvalid).1 edit
      (h.journal_edits ▸ hin) (by rw [hvol]; simpa using hnone) (hvol ▸ hgone)
    rw [h.journal_edits, hvol] at hcreate
    rw [(h.created target.id initial hcreate).2.2] at hsome
    simp at hsome

/-- **A validated transaction's reads are those of the store**: each reads, after the edits the
transaction made before it, as it does where these are made in the store. -/
theorem read_serial
    (hpaths : ∀ volume, PathsOk volume (store.versions.get volume) (editsOf transaction.ops))
    {path : List K} (hmem : (.read target path, done) ∈ history [] transaction.ops) :
    readVolume (editsOn target.id (snapshot.versions.get target.id) done) path =
      readVolume (editsOn target.id (store.versions.get target.id) done) path := by
  obtain ⟨later, hlater⟩ := prefix_of_mem_history hmem
  cases hsnap : snapshot.versions.get target.id with
  | none =>
    -- the read is recorded as it is, whatever the transaction wrote
    have hobs : (⟨target.id, path⟩ : ConflictAddress K) ∈ transaction.session.observed := by
      refine h.mem_observed hmem ?_
      simp [observedAt, JournalOp.effect, StoreJournal.new, hsnap]
    have hread := h.read_of_observed hvalid hobs
    rw [hsnap] at hread
    rw [show store.versions.get target.id = none from Option.map_eq_none_iff.mp hread.symm]
  | some =>
    have hsome : (snapshot.versions.get target.id).isSome := by rw [hsnap]; rfl
    have hstore := h.isSome_of_read hvalid hmem hsome
    rw [← hsnap]
    have hop : (JournalOp.read target path).Valid := h.valid _ (mem_of_mem_history hmem)
    refine readVolume_editsOn_congr (fun edit he => ?_) hop (iff_of_true hsome hstore) ?_ ?_
      fun d hd => ?_
    · exact h.placed edit (hlater ▸ List.mem_append_left later he)
    · exact (along_append.mp (hlater ▸ h.paths target.id)).1
    · exact (along_append.mp (hlater ▸ hpaths target.id)).1
    · have hobs : (⟨target.id, d⟩ : ConflictAddress K) ∈ transaction.session.observed := by
        refine h.mem_observed hmem ?_
        simp [observedAt, JournalOp.effect, StoreJournal.new, hsnap, hd]
      exact h.read_of_observed hvalid hobs

/-- **A validated transaction got the answers of the serial run.** -/
theorem answers_serial
    (hpaths : ∀ volume, PathsOk volume (store.versions.get volume) (editsOf transaction.ops)) :
    (serialRun store.versions.get transaction.ops).2 = transaction.session.answers := by
  rw [serialRun_snd, h.session_eq, runOps_answers]
  refine List.map_congr_left fun event hmem => ?_
  obtain ⟨op, done⟩ := event
  unfold answerAt
  cases op with
  | read target path =>
    have hread := h.read_serial hvalid hpaths hmem
    simp only [serialAnswer, JournalOp.effect]
    rw [← hread]
    change _ = (JournalOp.read target path).answer snapshot.kept
      (readVolume (editsOn target.id (snapshot.versions.get target.id) done) path)
    cases target with
    | store | handle => cases readVolume _ path <;> rfl
    | kept volume =>
      cases hcase : readVolume _ path with
      | none => rfl
      | some =>
        -- the volume was there at the snapshot, for it is nobody's creation
        have hop := mem_of_mem_history hmem
        have hhosted := h.hosted _ hop volume rfl
        have hexists : (editsOn volume (snapshot.versions.get volume) done).isSome := by
          have := congrArg Option.isSome hcase
          simpa [readVolume, VolumeTarget.id] using this
        rcases (isSome_editsOn _ _ _).mp hexists with hsome | ⟨initial, hcreate⟩
        · exact (if_pos ((h.kept_iff volume hhosted).mpr hsome)).symm
        · exact absurd hhosted
            (h.created volume initial ((prefix_of_mem_history hmem).subset hcreate)).2.1
  | _ => rfl

end

/-- An open transaction has got the answers of the serial run on its snapshot. -/
theorem answers_snapshot (h : TransactionOk store snapshot transaction) :
    (serialRun snapshot.versions.get transaction.ops).2 = transaction.session.answers := by
  -- it could commit to a store that still is what the snapshot was taken of
  let still : ReflectionStore K A :=
    { store with
      kept := store.kept ∪ store.revoked
      revoked := ∅
      versions := snapshot.versions
      revision := snapshot.revision
      latestChanges := ∅
      pending := (resolvedPromises transaction.session.journal.edits).toFinset }
  have hhosted : still.kept ∪ still.revoked = store.kept ∪ store.revoked := Finset.union_empty _
  have hstill : TransactionOk still snapshot transaction :=
    { h with
      revision_le := le_rfl
      current := fun _ => rfl
      unchanged := fun _ _ _ => rfl
      gone := fun volume hsome hnone => by simp_all [still]
      hosted := hhosted ▸ h.hosted
      kept_iff := hhosted ▸ h.kept_iff
      created := hhosted ▸ h.created }
  have hnone : still.revokedVolume transaction.session.journal = none :=
    List.find?_eq_none.mpr (by simp [still])
  refine hstill.answers_serial ?_ h.paths
  rw [ReflectionStore.validate, hnone]
  simp [ReflectionStore.Conflicts, still]

end TransactionOk

end Glam.Store
