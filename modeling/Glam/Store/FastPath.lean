import Glam.Store.Commit

/-!
# Installing drafts and rebasing edits

A commit has two ways to the new volumes. A journal that began from the current revision has a draft
of each volume it wrote, made as its operations came, and installs the drafts. Any other applies its
edits to the volumes as they stand now. This module shows that the first way is the second with the
work done already.

The invariant is an equation: the drafts of a journal are what its edits make of its snapshot's
volumes, edit by edit (`StoreJournal.Drafted`). Reads, forks and kept cells leave both sides as they
are, and an edit, whether the journal's own or one a merged branch replays, does the same to both
(`replay_views_eq`). A store whose revision is a snapshot's has the snapshot's volumes, since
nothing changes a volume without raising the revision (`Evolves.versions_eq`). -/

namespace Glam.Store

variable {K A : Type} [DecidableEq K]

/-! ### Journals -/

variable {versions : Table VolumeId (Value K A)}

namespace StoreJournal

omit [DecidableEq K] in
theorem valueAt_eq_or (journal : StoreJournal K A) (volume : VolumeId) :
    journal.valueAt volume =
      (journal.views.get volume).or (journal.snapshot.versions.get volume) := by
  unfold valueAt
  cases journal.views.get volume <;> rfl

/-- **A replayed edit does to the drafts what rebasing it does.** -/
theorem replay_views_eq (journal : StoreJournal K A) (edit : StoreEdit K A) :
    (journal.replay edit).views = rebaseEdit journal.snapshot.versions journal.views edit := by
  rcases replay_cases edit with ⟨volume, initial, rfl⟩ | ⟨hdata, hreplay⟩ | ⟨hdata, hne, hreplay⟩
  · exact (rebaseEdit_create _ _ volume initial).symm
  · rw [hreplay]
    exact (if_neg (by simp [hdata])).symm
  · rw [hreplay, (journal.pushEdit_fields edit _).2.2.2, valueAt_eq_or]
    exact (rebaseEdit_of_data hdata hne).symm

variable [StoreKeys K]

/-- The journals of transactions that began from `snapshot`: by any operations, forks of branches
and merges of them, in any order. -/
inductive From (snapshot : StoreSnapshot K A) : StoreJournal K A → Prop
  | new : From snapshot (.new snapshot)
  | perform {journal : StoreJournal K A} (op : JournalOp K A) :
      From snapshot journal → From snapshot (op.perform journal).1
  | fork {journal : StoreJournal K A} : From snapshot journal → From snapshot journal.fork
  | merge {journal branch : StoreJournal K A} :
      From snapshot journal → From snapshot branch → From snapshot (journal.mergeBranch branch).1

/-- The drafts are the edits, rebased over the snapshot. -/
def Drafted (journal : StoreJournal K A) : Prop :=
  journal.views = rebaseEdits journal.snapshot.versions journal.edits

omit [StoreKeys K] in
theorem Drafted.of_similar {j j' : StoreJournal K A} (h : Drafted j) (hsimilar : j'.Similar j) :
    Drafted j' := by
  unfold Drafted
  rw [hsimilar.views, hsimilar.snapshot, hsimilar.edits]
  exact h

variable {journal : StoreJournal K A} {snapshot : StoreSnapshot K A}

omit [StoreKeys K] in
theorem Drafted.replay (h : Drafted journal) (edit : StoreEdit K A) :
    Drafted (journal.replay edit) := by
  obtain ⟨hsnapshot, -, hedits⟩ := journal.replay_fields edit
  unfold Drafted
  rw [hsnapshot, hedits, rebaseEdits_concat, ← h, replay_views_eq]

omit [StoreKeys K] in
theorem Drafted.foldl_replay (h : Drafted journal) (edits : List (StoreEdit K A)) :
    Drafted (edits.foldl StoreJournal.replay journal) := by
  exact List.foldlRecOn edits StoreJournal.replay h fun _ hdrafted edit _ => hdrafted.replay edit

omit [StoreKeys K] in
/-- A merge keeps the drafts in step. -/
theorem Drafted.mergeBranch (h : Drafted journal) (branch : StoreJournal K A) :
    Drafted (journal.mergeBranch branch).1 := by
  unfold StoreJournal.mergeBranch
  split
  · exact h
  split
  · exact h
  split
  · exact h
  -- the branch's edits replay onto the journal's own drafts
  apply Drafted.foldl_replay
  exact h

theorem Drafted.perform (h : Drafted journal) (op : JournalOp K A) :
    Drafted (op.perform journal).1 := by
  cases heffect : op.effect with
  | inl edit => exact (h.replay edit).of_similar (JournalOp.perform_of_edit heffect journal).1
  | inr address =>
    have hread : Drafted (journal.observeReadById address.volume address.path).1 := h
    exact hread.of_similar (JournalOp.perform_of_read heffect journal).1

theorem From.drafted (h : From snapshot journal) : Drafted journal := by
  induction h with
  | new => rfl
  | perform op _ ih => exact ih.perform op
  | fork _ ih => exact ih
  | merge _ _ ih _ => exact ih.mergeBranch _

/-- A journal keeps the snapshot it began with. -/
theorem From.snapshot_eq (h : From snapshot journal) : journal.snapshot = snapshot := by
  induction h with
  | new => rfl
  | @perform journal op _ ih =>
    cases heffect : op.effect with
    | inl edit =>
      rw [(JournalOp.perform_of_edit heffect journal).1.snapshot, (journal.replay_fields edit).1,
        ih]
    | inr =>
      rw [(JournalOp.perform_of_read heffect journal).1.snapshot]
      exact ih
  | fork _ ih => exact ih
  | @merge journal branch _ _ ih _ =>
    unfold mergeBranch
    split
    · exact ih
    split
    · exact ih
    split
    · exact ih
    rw [(foldl_replay_fields ..).1]
    exact ih

end StoreJournal

/-! ### Stores -/

variable [StoreKeys K]

namespace ReflectionStore

/-- One change of a store. Reserving identities and allocating promises change no volume. -/
inductive Changes : ReflectionStore K A → ReflectionStore K A → Prop
  | commit (store : ReflectionStore K A) (journal : StoreJournal K A) :
      Changes store (store.commitValidated journal).1
  | createVolume (store : ReflectionStore K A) (initial : Value K A) :
      Changes store (store.createVolume initial)
  | revokeVolume (store : ReflectionStore K A) (volume : VolumeId) :
      Changes store (store.revokeVolume volume)
  | replaceRoot (store : ReflectionStore K A) (root : Value K A) :
      Changes store (store.replaceRoot root)
  | reserve (store : ReflectionStore K A) (volume : VolumeId) :
      Changes store { store with nextVolume := volume }
  | allocatePromise (store : ReflectionStore K A) (promise : PromiseId) :
      Changes store { store with pending := insert promise store.pending }

/-- What a store becomes by any number of changes. -/
abbrev Evolves : ReflectionStore K A → ReflectionStore K A → Prop :=
  Relation.ReflTransGen Changes

variable {store now : ReflectionStore K A}

omit [StoreKeys K] in
/-- A store whose revision stays has the same contents. -/
theorem Changes.revision {next : ReflectionStore K A} (h : Changes store next) :
    store.revision < next.revision ∨
      (next.revision = store.revision ∧ next.versions = store.versions) := by
  cases h with
  | commit =>
    unfold commitValidated
    split
    · exact .inr ⟨rfl, rfl⟩
    · exact .inl (Nat.lt_succ_self _)
  | createVolume | replaceRoot => exact .inl (Nat.lt_succ_self _)
  | revokeVolume =>
    unfold ReflectionStore.revokeVolume
    split
    · exact .inr ⟨rfl, rfl⟩
    · exact .inl (Nat.lt_succ_self _)
  | reserve | allocatePromise => exact .inr ⟨rfl, rfl⟩

omit [StoreKeys K] in
/-- As long as the revision stays, so do the contents. -/
theorem Evolves.revision (h : Evolves store now) :
    store.revision < now.revision ∨
      (now.revision = store.revision ∧ now.versions = store.versions) := by
  induction h with
  | refl => exact .inr ⟨rfl, rfl⟩
  | tail _ hlast ih =>
    rcases ih with hlt | ⟨hrevision, hversions⟩
    · rcases hlast.revision with hlt' | ⟨hrevision', -⟩
      · exact .inl (hlt.trans hlt')
      · exact .inl (hrevision' ▸ hlt)
    · rcases hlast.revision with hlt' | ⟨hrevision', hversions'⟩
      · exact .inl (hrevision ▸ hlt')
      · exact .inr ⟨hrevision'.trans hrevision, hversions'.trans hversions⟩

omit [StoreKeys K] in
/-- **At the revision of a snapshot the volumes are the snapshot's.** -/
theorem Evolves.versions_eq (h : Evolves store now) (hrevision : now.revision = store.revision) :
    now.versions = store.versions := by
  rcases h.revision with hlt | ⟨-, hversions⟩
  · omega
  · exact hversions

/-- The volumes as rebasing the journal's edits over the store leaves them, where the journal keeps
their cells. -/
def rebasedVersions (store : ReflectionStore K A) (journal : StoreJournal K A) :
    Table VolumeId (Value K A) :=
  store.versions.override
    ((rebaseEdits store.versions journal.edits).restrict fun volume => volume ∈ journal.cells)

end ReflectionStore

omit [StoreKeys K] in
theorem mem_writtenVolumes_of_rebaseEdits {edits : List (StoreEdit K A)} {volume : VolumeId}
    (h : (rebaseEdits versions edits).get volume ≠ none) : volume ∈ writtenVolumes edits := by
  induction edits using List.reverseRecOn with
  | nil => exact absurd (Table.get_empty volume) h
  | append_singleton edits edit ih =>
    rw [mem_writtenVolumes]
    by_cases hlast : edit.address.volume = volume ∧ edit.writesData = true
    · exact ⟨edit, by simp, hlast.symm⟩
    · rw [rebaseEdits_concat, rebaseEdit_get_of_not_written hlast] at h
      obtain ⟨earlier, hearlier, hwrites⟩ := mem_writtenVolumes.mp (ih h)
      exact ⟨earlier, List.mem_append_left _ hearlier, hwrites⟩

/-- **Installing drafts is rebasing.** For a journal that began from a store's snapshot, and what
the store has become since:

* rebasing the journal's edits over the snapshot gives its drafts;
* if the revision is still the snapshot's, a commit, which then installs the drafts, leaves the
  volumes that rebasing the edits over the store as it is now leaves. -/
theorem commit_installs_rebased {store now : ReflectionStore K A} {journal : StoreJournal K A}
    (hjournal : StoreJournal.From store.snapshot journal) (hnow : store.Evolves now) :
    rebaseEdits journal.snapshot.versions journal.edits = journal.views ∧
      (now.revision = journal.snapshot.revision →
        now.committedVersions journal = now.rebasedVersions journal) := by
  have hviews : rebaseEdits journal.snapshot.versions journal.edits = journal.views :=
    hjournal.drafted.symm
  refine ⟨hviews, ?_⟩
  intro hrevision
  have hsnapshot := hjournal.snapshot_eq
  have hversions : now.versions = journal.snapshot.versions := by
    rw [hsnapshot] at hrevision ⊢
    exact hnow.versions_eq hrevision
  unfold ReflectionStore.committedVersions ReflectionStore.rebasedVersions
  rw [if_pos hrevision, hversions, hviews]
  congr 1
  apply Table.ext_get
  intro volume
  rw [Table.get_restrict, Table.get_restrict]
  by_cases hcell : volume ∈ journal.cells
  · by_cases hwritten : volume ∈ writtenVolumes journal.edits
    · rw [if_pos ⟨hwritten, hcell⟩, if_pos hcell]
    · -- what no edit writes has no draft
      have hnone : journal.views.get volume = none := by
        by_contra hsome
        rw [← hviews] at hsome
        exact hwritten (mem_writtenVolumes_of_rebaseEdits hsome)
      rw [if_neg fun h => hwritten h.1, if_pos hcell, hnone]
  · rw [if_neg fun h => hcell h.2, if_neg hcell]

/-- A transaction that sets, reads and removes, committed at once. -/
theorem commit_installs_rebased_sample :
    let store : ReflectionStore Nat Nat := .new
    let ops : List (JournalOp Nat Nat) := [.write (.store heapVolume) [0, 1] (.data 7),
      .read (.store heapVolume) [0], .remove (.store heapVolume) [0, 1]]
    let journal := ops.foldl (fun journal op => (op.perform journal).1) (.new store.snapshot)
    StoreJournal.From store.snapshot journal ∧ store.Evolves store ∧
      store.committedVersions journal = store.rebasedVersions journal := by
  intro store ops journal
  have hfrom : StoreJournal.From store.snapshot journal :=
    .perform _ (.perform _ (.perform _ .new))
  have hnow : store.Evolves store := .refl
  exact ⟨hfrom, hnow, (commit_installs_rebased hfrom hnow).2 (by rw [hfrom.snapshot_eq]; rfl)⟩

end Glam.Store
