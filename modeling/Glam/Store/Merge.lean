import Glam.Store.Dependency

/-!
# Merging a branch

A branch works on a copy of its journal while the journal goes on. `mergeBranch` replays the
branch's edits on the journal as it stands then, and refuses when the branch read what the journal
has written since the fork.

The merge should be as if the branch's work ran now. In its edits, its drafts and the reads it
records it always is. The values the branch read may differ: an edit of the branch covers a later
read of the branch, so that read is not checked, but replayed on the journal the edit can run into a
value that is no dictionary where it did not in the branch. `MergeAlike` says that nothing of the
kind happens, and it is exact: where it fails, some branch that makes the same edits reads what no
serial run reads, and is merged nevertheless (`mergeAlike_iff`).

A branch may have branches of its own, merged into it before it is merged. `Evolves` follows a
journal through operations and merges to any depth, with the operations in the order that the merges
give them, and `Evolves.serial` shows the journal to be the one that order leads to. Where each of
the merges was `MergeAlike`, the answers are those of that order too (`Evolves.answers`).
-/

namespace Glam.Store

variable {K A : Type} [DecidableEq K] [StoreKeys K]

/-! ### Journals with branches -/

variable {address : ConflictAddress K} {j j' now branch : StoreJournal K A}
  {later done : List (StoreEdit K A)} {own : VolumeId → Prop} {ops : List (JournalOp K A)}

namespace JournalOp

omit [DecidableEq K] [StoreKeys K] in
/-- The volume an operation names. -/
def target : JournalOp K A → Option VolumeTarget
  | .read target _ => some target
  | .write target _ _ => some target
  | .rewrite target _ _ => some target
  | .remove target _ => some target
  | _ => none

/-- The runtime's volume has no handle, and a removal names a path. -/
def Valid : JournalOp K A → Prop
  | .read target _ => target.id ≠ runtimeVolume
  | .write target _ _ => target.id ≠ runtimeVolume
  | .rewrite target _ _ => target.id ≠ runtimeVolume
  | .remove target path => target.id ≠ runtimeVolume ∧ path ≠ []
  | .create volume _ => volume ≠ runtimeVolume
  | _ => True

/-- What a transaction may ask of a journal that holds `contents`, where `own` are the identities
it reserves for the volumes it creates: a volume of its own has no handle before it exists. -/
structure Allowed (own : VolumeId → Prop) (contents : VolumeId → Option (Value K A))
    (op : JournalOp K A) : Prop where
  valid : op.Valid
  named : ∀ target, op.target = some target → own target.id → (contents target.id).isSome
  created : ∀ volume initial, op = .create volume initial → own volume

omit [DecidableEq K] in
theorem Valid.placed {op : JournalOp K A} (h : op.Valid) {edit : StoreEdit K A}
    (he : op.effect = .inl edit) : edit.Placed := by
  cases op with
  | read | readVirtual | readPromise => simp [effect] at he
  | write | rewrite | create =>
    obtain rfl := Sum.inl.inj he; exact ⟨iff_of_true rfl h, trivial⟩
  | remove =>
    obtain rfl := Sum.inl.inj he; exact ⟨iff_of_true rfl h.1, h.2⟩
  | writeVirtual | rewriteVirtual | resolve =>
    obtain rfl := Sum.inl.inj he
    exact ⟨iff_of_false (by simp [StoreEdit.writesData]) (by simp [StoreEdit.address]), trivial⟩

omit [DecidableEq K] in
/-- A read either names a volume or has no value to answer with. -/
theorem read_or_answer_unit {op : JournalOp K A} (h : op.effect = .inr address) :
    (∃ target path, op = .read target path ∧ address = ⟨target.id, path⟩) ∨
      ∀ kept reading, op.answer kept reading = .unit := by
  cases op with
  | read target path =>
    obtain rfl := Sum.inr.inj h
    exact .inl ⟨target, path, rfl, rfl⟩
  | readVirtual | readPromise => exact .inr fun kept reading => by simp [answer]
  | write | rewrite | remove | create | writeVirtual | rewriteVirtual | resolve =>
    simp [effect] at h

omit [DecidableEq K] [StoreKeys K] in
/-- The answer to a read of one of the store's own volumes tells what was read. -/
theorem reading_of_answer {volume : VolumeId} {path : List K} {kept kept' : Finset VolumeId}
    {reading reading' : Option (Reading K A)}
    (h : (read (.store volume) path : JournalOp K A).answer kept reading =
      (read (.store volume) path : JournalOp K A).answer kept' reading') : reading = reading' := by
  cases reading <;> cases reading' <;> simp_all [answer]

end JournalOp

/-- What a volume of the journal held when the branch with base `base` was forked. -/
def StoreJournal.valueAtFork (journal : StoreJournal K A) (base : Nat) (volume : VolumeId) :
    Option (Value K A) :=
  editsOn volume (journal.snapshot.versions.get volume) (journal.edits.take base)

/-- The branch finds in the journal what it found at the fork: whatever the journal's edits since do
not overlap reads as it did, and each set and each removal of the branch runs into a value that is
no dictionary both then and now, or neither then nor now. -/
def MergeAlike (journal branch : StoreJournal K A) : Prop :=
  ∀ fork ∈ branch.branch, ∀ volume, volume ≠ runtimeVolume →
    (∀ path, (∀ edit ∈ journal.edits.drop fork.base, ¬ edit.address.Overlaps ⟨volume, path⟩) →
      readVolume (journal.valueAtFork fork.base volume) path =
        readVolume (journal.valueAt volume) path) ∧
      BlockedAlike volume (journal.valueAtFork fork.base volume) (journal.valueAt volume)
        (branch.edits.drop fork.base)

/-- `Evolves own P j ops s`: from journal `j`, operations and merges, each meeting `P`, lead to the
session `s`, and `ops` are the operations in the order the merges give them: those of a branch
after those of its journal before the merge. -/
inductive Evolves (own : VolumeId → Prop) (P : StoreJournal K A → StoreJournal K A → Prop) :
    StoreJournal K A → List (JournalOp K A) → Session K A → Prop
  | refl (j : StoreJournal K A) : Evolves own P j [] ⟨j, [], []⟩
  | perform {j : StoreJournal K A} {ops : List (JournalOp K A)} {s : Session K A}
      (op : JournalOp K A) :
      Evolves own P j ops s → op.Allowed own s.journal.valueAt →
      Evolves own P j (ops ++ [op]) (s.perform op)
  | merge {j : StoreJournal K A} {before since branchOps : List (JournalOp K A)}
      {fork now branch : Session K A} :
      Evolves own P j before fork → Evolves own P fork.journal since now →
      Evolves own P fork.journal.fork branchOps branch → P now.journal branch.journal →
      (now.journal.mergeBranch branch.journal).2 = true →
      Evolves own P j (before ++ since ++ branchOps)
        ⟨(now.journal.mergeBranch branch.journal).1,
          fork.observed ++ now.observed ++ branch.observed,
          fork.answers ++ now.answers ++ branch.answers⟩

/-- A journal of some transaction: its first, one it evolved to, or a branch of one. -/
inductive LiveJournal (own : VolumeId → Prop) (P : StoreJournal K A → StoreJournal K A → Prop) :
    StoreJournal K A → Prop
  | new (snapshot : StoreSnapshot K A) : LiveJournal own P (.new snapshot)
  | evolve {j : StoreJournal K A} {ops : List (JournalOp K A)} {s : Session K A} :
      LiveJournal own P j → Evolves own P j ops s → LiveJournal own P s.journal
  | fork {j : StoreJournal K A} : LiveJournal own P j → LiveJournal own P j.fork

/-- The drafts are the edits applied to the snapshot, and a branch's fork lies within its edits. -/
structure StoreJournal.Ok (journal : StoreJournal K A) : Prop where
  valueAt_eq : ∀ volume, journal.valueAt volume =
    editsOn volume (journal.snapshot.versions.get volume) journal.edits
  base_le : ∀ branch ∈ journal.branch, branch.base ≤ journal.edits.length

namespace StoreJournal.Ok

omit [StoreKeys K] in
theorem new (snapshot : StoreSnapshot K A) : Ok (.new snapshot) := by
  refine ⟨fun volume => ?_, nofun⟩
  simp [StoreJournal.valueAt, StoreJournal.new]

variable {journal : StoreJournal K A}

omit [StoreKeys K] in
theorem fork (h : Ok journal) : Ok journal.fork := by
  refine ⟨h.valueAt_eq, fun branch hb => ?_⟩
  cases hb
  exact Nat.le_refl _

omit [StoreKeys K] in
theorem similar (h : Ok j) (hs : j.Similar j') : Ok j' := by
  refine ⟨fun volume => ?_, fun branch hb => ?_⟩
  · rw [← hs.valueAt, h.valueAt_eq, hs.snapshot, hs.edits]
  · rw [← hs.branch] at hb
    rw [← hs.edits]
    exact h.base_le branch hb

theorem runOps (h : Ok journal) (ops : List (JournalOp K A)) : Ok (runOps journal ops).journal := by
  refine ⟨fun volume => ?_, fun branch hb => ?_⟩
  · rw [runOps_valueAt, h.valueAt_eq, runOps_snapshot, runOps_edits, editsOn_append]
  · rw [runOps_branch h.base_le] at hb
    obtain ⟨own, hown, rfl⟩ := Option.map_eq_some_iff.mp hb
    rw [runOps_edits, List.length_append]
    exact Nat.le_add_right_of_le (h.base_le own hown)

end StoreJournal.Ok

/-- Similar journals answer alike and stay similar. -/
theorem perform_similar (h : j.Similar j') (op : JournalOp K A) :
    (op.perform j).1.Similar (op.perform j').1 ∧ (op.perform j).2 = (op.perform j').2 := by
  cases he : op.effect with
  | inl edit =>
    obtain ⟨hs, h2⟩ := op.perform_of_edit he j
    obtain ⟨hs', h2'⟩ := op.perform_of_edit he j'
    exact ⟨hs.trans ((h.replay edit).trans hs'.symm), h2.trans h2'.symm⟩
  | inr address =>
    obtain ⟨hs, h2⟩ := op.perform_of_read he j
    obtain ⟨hs', h2'⟩ := op.perform_of_read he j'
    obtain ⟨hobserve, hread⟩ := h.observeReadById address.volume address.path
    refine ⟨hs.trans (hobserve.trans hs'.symm), ?_⟩
    rw [h2, h2', hread, h.snapshot, h.valueAt]

/-- The same along a run. -/
theorem runOps_similar (h : j.Similar j') (ops : List (JournalOp K A)) :
    (runOps j ops).journal.Similar (runOps j' ops).journal ∧
      (runOps j ops).observed = (runOps j' ops).observed ∧
      (runOps j ops).answers = (runOps j' ops).answers := by
  induction ops using List.reverseRecOn with
  | nil => exact ⟨h, rfl, rfl⟩
  | append_singleton ops op ih =>
    obtain ⟨hj, hobs, hans⟩ := ih
    obtain ⟨hsim, hresult⟩ := perform_similar hj op
    rw [runOps_concat, runOps_concat]
    refine ⟨hsim, ?_, ?_⟩
    · rw [Session.perform, Session.perform, hobs, hresult]
    · rw [Session.perform, Session.perform, hans, hresult]

/-- A run in two parts. -/
theorem runOps_append (j : StoreJournal K A) (ops ops' : List (JournalOp K A)) :
    (runOps j (ops ++ ops')).journal = (runOps (runOps j ops).journal ops').journal ∧
      (runOps j (ops ++ ops')).observed =
        (runOps j ops).observed ++ (runOps (runOps j ops).journal ops').observed ∧
      (runOps j (ops ++ ops')).answers =
        (runOps j ops).answers ++ (runOps (runOps j ops).journal ops').answers := by
  induction ops' using List.reverseRecOn with
  | nil => simp
  | append_singleton ops' op ih =>
    obtain ⟨hj, hobs, hans⟩ := ih
    rw [← List.append_assoc, runOps_concat, runOps_concat]
    unfold Session.perform
    simp only [hj, hobs, hans, List.append_assoc, and_self]

/-! ### One merge -/

omit [StoreKeys K] in
/-- Edits that do not overlap what a read depends on do not change what it depends on. -/
theorem dependency_skip {before : List (StoreEdit K A)} {volume : VolumeId} {path : List K}
    (hfree : ∀ d, dependency done volume path = some d →
      ∀ edit ∈ later, ¬ edit.address.Overlaps ⟨volume, d⟩) :
    dependency (before ++ later ++ done) volume path = dependency (before ++ done) volume path := by
  rw [dependency_append, dependency_append]
  cases hd : dependency done volume path with
  | none => rfl
  | some d =>
    rw [Option.bind_some, Option.bind_some, dependency_append,
      dependency_of_not_overlaps (hfree d hd), Option.bind_some]

omit [StoreKeys K] in
/-- A branch read that the edits since the fork do not overlap sees the same after them, where the
branch's edits are blocked as they were. -/
theorem readVolume_later_congr {fork : Option (Value K A)} {volume : VolumeId} {path : List K}
    (hdata : ∀ edit ∈ done, edit.address.volume = volume → edit.writesData = true)
    (hcreated : ∀ initial, .create volume initial ∈ later → own volume)
    (hnamed : own volume → (editsOn volume fork done).isSome)
    (hagree : ∀ d, dependency done volume path = some d →
      readVolume fork d = readVolume (editsOn volume fork later) d)
    (halike : BlockedAlike volume fork (editsOn volume fork later) done) :
    readVolume (editsOn volume fork done) path =
      readVolume (editsOn volume (editsOn volume fork later) done) path := by
  by_cases hdone : ∃ initial, .create volume initial ∈ done
  · -- a volume the branch created holds what the branch put there
    obtain ⟨initial, hinit⟩ := hdone
    rw [editsOn_of_create hinit (editsOn volume fork later) fork]
  · have hexists : fork.isSome ↔ (editsOn volume fork later).isSome := by
      rw [isSome_editsOn]
      refine ⟨.inl, ?_⟩
      rintro (h | ⟨initial, hinit⟩)
      · exact h
      · have hsome := hnamed (hcreated initial hinit)
        rw [isSome_editsOn] at hsome
        exact hsome.resolve_right hdone
    exact readVolume_editsOn_congr_of_alike hdata hexists halike hagree

omit [StoreKeys K] in
/-- A merge that is refused changes nothing. -/
theorem mergeBranch_of_false (h : (now.mergeBranch branch).2 = false) :
    (now.mergeBranch branch).1 = now := by
  unfold StoreJournal.mergeBranch at h ⊢
  cases hb : branch.branch with
  | none => rfl
  | some fork =>
    obtain ⟨base, reads⟩ := fork
    simp only [hb] at h ⊢
    cases hl : StoreJournal.slice now.edits base now.edits.length with
    | none => rfl
    | some =>
      simp only [hl] at h ⊢
      split
      · rfl
      · next hfree =>
        rw [if_neg hfree] at h
        exact absurd h (by simp)

omit [StoreKeys K] in
/-- A merge succeeds exactly if no edit since the fork overlaps a read of the branch. -/
theorem mergeBranch_iff {base : Nat} {reads : List (ConflictAddress K)}
    (hb : branch.branch = some ⟨base, reads⟩) (hle : base ≤ now.edits.length) :
    (now.mergeBranch branch).2 = true ↔
      ∀ read ∈ reads, ∀ edit ∈ now.edits.drop base, ¬ edit.address.Overlaps read := by
  have hslice : StoreJournal.slice now.edits base now.edits.length = some (now.edits.drop base) := by
    rw [StoreJournal.slice, if_pos ⟨hle, Nat.le_refl _⟩, List.take_length]
  unfold StoreJournal.mergeBranch
  simp only [hb, hslice]
  split
  · next hov =>
    obtain ⟨read, hread, edit, hedit, hover⟩ := hov
    exact iff_of_false (by simp) fun hfree => hfree read hread edit hedit hover
  · next hov =>
    exact iff_of_true rfl fun read hread edit hedit hover => hov ⟨read, hread, edit, hedit, hover⟩

omit [StoreKeys K] in
/-- A merge replays the branch's edits. -/
theorem mergeBranch_of_true {base : Nat} {reads : List (ConflictAddress K)}
    (hb : branch.branch = some ⟨base, reads⟩) (h : (now.mergeBranch branch).2 = true) :
    (now.mergeBranch branch).1 = (branch.edits.drop base).foldl StoreJournal.replay
      { now with
        branch := now.inheritReads base reads
        cells := now.cells ∪ branch.cells } := by
  unfold StoreJournal.mergeBranch at h ⊢
  simp only [hb] at h ⊢
  split at h
  · exact absurd h (by simp)
  · split at h
    · exact absurd h (by simp)
    · next hov => rw [if_neg hov]

/-- Every operation is allowed where it stands in the run. -/
def AllowedAlong (own : VolumeId → Prop) (j : StoreJournal K A) (ops : List (JournalOp K A)) :
    Prop :=
  ∀ event ∈ history [] ops, event.1.Allowed own fun v => editsOn v (j.valueAt v) event.2

/-- The edits of allowed operations are in their volumes, and create only owned ones. -/
theorem AllowedAlong.placed (h : AllowedAlong own j ops) {edit : StoreEdit K A}
    (he : edit ∈ editsOf ops) :
    edit.Placed ∧ ∀ volume initial, edit = .create volume initial → own volume := by
  induction ops using List.reverseRecOn with
  | nil => simp at he
  | append_singleton ops op ih =>
    rw [editsOf_append, editsOf_singleton, List.mem_append] at he
    rw [AllowedAlong, history_concat] at h
    rcases he with he | he
    · exact ih (fun event hevent => h event (List.mem_append_left _ hevent)) he
    · have hop := h (op, editsOf ops) (List.mem_append_right _ (.head _))
      have heffect : op.effect = .inl edit := by
        cases hop : op.effect with
        | inl =>
          rw [hop] at he
          simp only [Sum.getLeft?_inl, Option.toList_some, List.mem_singleton] at he
          rw [he]
        | inr => rw [hop] at he; simp at he
      refine ⟨hop.valid.placed heffect, fun volume initial hcreate => ?_⟩
      subst hcreate
      refine hop.created volume initial ?_
      cases op <;> simp_all [JournalOp.effect]

section Merge

-- the journal at the fork, what it and its branch did since, and where that led them
variable {own : VolumeId → Prop} {jf now branch : StoreJournal K A}
  {since branchOps : List (JournalOp K A)}

theorem branch_of_fork (hok : jf.Ok) (hbranch : branch.Similar (runOps jf.fork branchOps).journal) :
    branch.branch =
      some ⟨jf.edits.length, (history [] branchOps).filterMap (branchReadAt [])⟩ := by
  rw [hbranch.branch, runOps_branch hok.fork.base_le]
  simp [StoreJournal.fork]

theorem edits_of_fork (hbranch : branch.Similar (runOps jf.fork branchOps).journal) :
    branch.edits.drop jf.edits.length = editsOf branchOps := by
  rw [hbranch.edits, runOps_edits]
  exact List.drop_left

theorem edits_of_now (hnow : now.Similar (runOps jf since).journal) :
    now.edits = jf.edits ++ editsOf since := by
  rw [hnow.edits, runOps_edits]

theorem length_edits_le (hnow : now.Similar (runOps jf since).journal) :
    jf.edits.length ≤ now.edits.length := by
  simp [edits_of_now hnow]

section

variable (hok : jf.Ok) (hnow : now.Similar (runOps jf since).journal)
  (hbranch : branch.Similar (runOps jf.fork branchOps).journal)
  (hmerge : (now.mergeBranch branch).2 = true)
include hok hnow hbranch hmerge

/-- What a merge that succeeds has checked: no edit since the fork overlaps what a read of the
branch depends on. -/
theorem not_overlaps_of_merge {event : JournalOp K A × List (StoreEdit K A)}
    (hevent : event ∈ history [] branchOps) (hread : event.1.effect = .inr address) {d : List K}
    (hd : dependency event.2 address.volume address.path = some d) :
    ∀ edit ∈ editsOf since, ¬ edit.address.Overlaps ⟨address.volume, d⟩ := by
  have hfree := (mergeBranch_iff (branch_of_fork hok hbranch) (length_edits_le hnow)).mp hmerge
  rw [edits_of_now hnow, List.drop_left] at hfree
  refine hfree ⟨address.volume, d⟩ (List.mem_filterMap.mpr ⟨event, hevent, ?_⟩)
  simp [branchReadAt, hread, hd]

/-- Run after the edits since the fork, the branch's reads are observed as they were. -/
theorem observed_of_merge :
    (runOps now branchOps).observed = (runOps jf.fork branchOps).observed := by
  rw [runOps_observed, runOps_observed]
  refine List.filterMap_congr fun event hevent => ?_
  unfold observedAt
  cases hread : event.1.effect with
  | inl => rfl
  | inr address =>
    have hskip : dependency (now.edits ++ event.2) address.volume address.path =
        dependency (jf.edits ++ event.2) address.volume address.path := by
      rw [edits_of_now hnow]
      exact dependency_skip fun d hd =>
        not_overlaps_of_merge hok hnow hbranch hmerge hevent hread hd
    rw [hnow.snapshot, runOps_snapshot]
    simp only [hskip]
    rfl

/-- Run after the edits since the fork, the branch's reads are recorded in an enclosing branch as
the merge records them. -/
theorem branch_of_merge :
    (runOps now branchOps).journal.branch = now.inheritReads jf.edits.length
      ((history [] branchOps).filterMap (branchReadAt [])) := by
  have hnowOk : now.Ok := (hok.runOps since).similar hnow.symm
  rw [runOps_branch hnowOk.base_le, StoreJournal.inheritReads]
  cases hb : now.branch with
  | none => rfl
  | some fork =>
    -- the enclosing branch was forked before this one
    have hbase : fork.base ≤ jf.edits.length := by
      rw [hnow.branch, runOps_branch hok.base_le] at hb
      obtain ⟨outer, houter, rfl⟩ := Option.map_eq_some_iff.mp hb
      exact hok.base_le outer houter
    have hdrop : now.edits.drop fork.base = jf.edits.drop fork.base ++ editsOf since := by
      rw [edits_of_now hnow, List.drop_append_of_le_length hbase]
    have hslice : StoreJournal.slice now.edits fork.base jf.edits.length =
        some (jf.edits.drop fork.base) := by
      rw [StoreJournal.slice, edits_of_now hnow, if_pos ⟨hbase, by simp⟩, List.take_left]
    simp only [Option.map_some, hslice, Option.getD_some, List.filterMap_filterMap, hdrop]
    refine congrArg (fun reads => some { fork with reads := fork.reads ++ reads }) ?_
    refine List.filterMap_congr fun event hevent => ?_
    unfold branchReadAt
    cases hread : event.1.effect with
    | inl => rfl
    | inr address =>
      simp only [List.nil_append]
      rw [dependency_skip fun d hd =>
        not_overlaps_of_merge hok hnow hbranch hmerge hevent hread hd, dependency_append]
      cases dependency event.2 address.volume address.path <;> rfl

/-- **A merge is the serial run** of the branch's operations on the journal, in its edits, its
drafts and the reads it records. -/
theorem similar_of_merge : (runOps now branchOps).journal.Similar (now.mergeBranch branch).1 := by
  rw [mergeBranch_of_true (branch_of_fork hok hbranch) hmerge, edits_of_fork hbranch]
  refine ⟨?_, ?_, ?_, ?_⟩
  · rw [runOps_snapshot, (foldl_replay_fields ..).1]
  · rw [runOps_views]
    refine foldl_replay_views_congr ?_ ?_ _ <;> rfl
  · rw [runOps_edits, (foldl_replay_fields ..).2.2]
  · rw [branch_of_merge hok hnow hbranch hmerge, (foldl_replay_fields ..).2.1]

end

/-- A merge is alike or not by what the volumes held at the fork and hold now. -/
theorem mergeAlike_of_fork (hok : jf.Ok) (hnow : now.Similar (runOps jf since).journal)
    (hbranch : branch.Similar (runOps jf.fork branchOps).journal) :
    MergeAlike now branch ↔ ∀ volume, volume ≠ runtimeVolume →
      (∀ path, (∀ edit ∈ editsOf since, ¬ edit.address.Overlaps ⟨volume, path⟩) →
        readVolume (jf.valueAt volume) path = readVolume (now.valueAt volume) path) ∧
        BlockedAlike volume (jf.valueAt volume) (now.valueAt volume) (editsOf branchOps) := by
  have hatFork : ∀ volume, now.valueAtFork jf.edits.length volume = jf.valueAt volume := by
    intro volume
    rw [StoreJournal.valueAtFork, hnow.snapshot, runOps_snapshot, edits_of_now hnow,
      List.take_left, hok.valueAt_eq]
  rw [MergeAlike, branch_of_fork hok hbranch]
  simp only [Option.mem_some, forall_eq', edits_of_fork hbranch, hatFork, edits_of_now hnow,
    List.drop_left]

/-- **A merge that is alike keeps the branch's reads.** -/
theorem answers_of_merge (hok : jf.Ok) (hnow : now.Similar (runOps jf since).journal)
    (hbranch : branch.Similar (runOps jf.fork branchOps).journal)
    (hsince : AllowedAlong own jf since) (hallowed : AllowedAlong own jf.fork branchOps)
    (hmerge : (now.mergeBranch branch).2 = true) (halike : MergeAlike now branch) :
    (runOps now branchOps).answers = (runOps jf.fork branchOps).answers := by
  have halike := (mergeAlike_of_fork hok hnow hbranch).mp halike
  have hvalue : ∀ volume, now.valueAt volume =
      editsOn volume (jf.valueAt volume) (editsOf since) := fun volume => by
    rw [hnow.valueAt, runOps_valueAt]
  rw [runOps_answers, runOps_answers]
  refine List.map_congr_left fun event hevent => ?_
  unfold answerAt
  cases hread : event.1.effect with
  | inl => rfl
  | inr =>
    have hop := hallowed event hevent
    -- only a read of a volume has a value to compare
    rcases JournalOp.read_or_answer_unit hread with ⟨target, path, hop_eq, rfl⟩ | hunit
    · have hvalid := hop.valid
      rw [hop_eq] at hvalid
      obtain ⟨rest, hrest⟩ := prefix_of_mem_history hevent
      obtain ⟨hagree, hblocked⟩ := halike target.id hvalid
      rw [← hrest, blockedAlike_append] at hblocked
      have hsame : readVolume (editsOn target.id (jf.valueAt target.id) event.2) path =
          readVolume (editsOn target.id (now.valueAt target.id) event.2) path := by
        rw [hvalue] at hagree hblocked ⊢
        refine readVolume_later_congr (fun edit hedit htarget => ?_)
          (fun initial hinit => (hsince.placed hinit).2 _ _ rfl)
          (fun hown => hop.named target (by rw [hop_eq]; rfl) hown) (fun d hd => hagree d ?_)
          hblocked.1
        · have hplaced := hallowed.placed (hrest ▸ List.mem_append_left _ hedit)
          exact hplaced.1.1.mpr (htarget ▸ hvalid)
        · exact not_overlaps_of_merge hok hnow hbranch hmerge hevent hread hd
      simp only [hnow.snapshot, runOps_snapshot, ← hsame]
      rfl
    · simp only [hunit]

/-! ### Branches that make the same edits -/

omit [DecidableEq K] in
/-- An operation that edits nothing, put between others, leaves their history as it is. -/
theorem mem_history_insert {before after : List (JournalOp K A)} {op : JournalOp K A}
    {event : JournalOp K A × List (StoreEdit K A)} (hop : op.effect = .inr address) :
    event ∈ history [] (before ++ op :: after) ↔
      event ∈ history [] (before ++ after) ∨ event = (op, editsOf before) := by
  rw [history_append, history_append, history, hop]
  simp only [Sum.getLeft?_inr, Option.toList_none, List.append_nil, List.nil_append,
    List.mem_append, List.mem_cons]
  tauto

/-- The operations of a run that edit. -/
def editing (ops : List (JournalOp K A)) : List (JournalOp K A) :=
  ops.filter fun op => op.effect.isLeft

omit [DecidableEq K] in
theorem editsOf_editing (ops : List (JournalOp K A)) : editsOf (editing ops) = editsOf ops := by
  rw [editsOf, editsOf, editing, List.filterMap_filter]
  refine List.filterMap_congr fun op _ => ?_
  cases op.effect <;> rfl

omit [DecidableEq K] in
/-- The history of the edits alone is part of the whole. -/
theorem mem_history_of_editing {event : JournalOp K A × List (StoreEdit K A)}
    (h : event ∈ history [] (editing ops)) : event ∈ history [] ops := by
  induction ops using List.reverseRecOn with
  | nil => exact h
  | append_singleton ops op ih =>
    rw [history_concat, List.mem_append]
    rw [editing, List.filter_append] at h
    cases hop : op.effect with
    | inl =>
      rw [List.filter_singleton, hop, Sum.isLeft_inl, cond_true, history_concat, List.mem_append]
        at h
      refine h.imp ih fun hlast => ?_
      rwa [← editing, editsOf_editing] at hlast
    | inr =>
      rw [List.filter_singleton, hop, Sum.isLeft_inr, cond_false, List.append_nil] at h
      exact .inl (ih h)

/-- **What the answers of the branches say.** If every branch that makes these edits and is merged
has the answers of the serial run, then after any of the edits whatever nobody has overwritten since
the fork reads as it did: some branch reads just that. -/
theorem readVolume_of_answers (hok : jf.Ok) (hnow : now.Similar (runOps jf since).journal)
    (hallowed : AllowedAlong own jf.fork branchOps)
    (hanswers : ∀ ops, editsOf ops = editsOf branchOps → AllowedAlong own jf.fork ops →
      (now.mergeBranch (runOps jf.fork ops).journal).2 = true →
      (runOps now ops).answers = (runOps jf.fork ops).answers)
    {done rest : List (StoreEdit K A)} {volume : VolumeId} {path : List K}
    (hdone : editsOf branchOps = done ++ rest) (hvolume : volume ≠ runtimeVolume)
    (hnamed : own volume → (editsOn volume (jf.valueAt volume) done).isSome)
    (hfree : ∀ d, dependency done volume path = some d →
      ∀ edit ∈ editsOf since, ¬ edit.address.Overlaps ⟨volume, d⟩) :
    readVolume (editsOn volume (jf.valueAt volume) done) path =
      readVolume (editsOn volume (now.valueAt volume) done) path := by
  -- the branch's edits alone, with the one read between them
  obtain ⟨before, after, hops, rfl, hafter⟩ :=
    List.filterMap_eq_append_iff.mp ((editsOf_editing branchOps).trans hdone)
  let read : JournalOp K A := .read (.store volume) path
  have heffect : read.effect = .inr ⟨volume, path⟩ := rfl
  have hedits : editsOf (before ++ read :: after) = editsOf branchOps := by
    rw [editsOf_append, ← List.singleton_append, editsOf_append, editsOf_singleton, hdone, ← hafter]
    rfl
  have hmem : ∀ event ∈ history [] (before ++ read :: after),
      event ∈ history [] (editing branchOps) ∨ event = (read, editsOf before) := by
    intro event hevent
    rw [hops]
    exact (mem_history_insert heffect).mp hevent
  have halong : AllowedAlong own jf.fork (before ++ read :: after) := by
    intro event hevent
    rcases hmem event hevent with hevent | rfl
    · exact hallowed event (mem_history_of_editing hevent)
    · refine ⟨hvolume, fun target htarget => ?_, nofun⟩
      obtain rfl := Option.some.inj htarget
      exact hnamed
  have hmerge : (now.mergeBranch (runOps jf.fork (before ++ read :: after)).journal).2 = true := by
    rw [mergeBranch_iff (branch_of_fork hok (.refl _)) (length_edits_le hnow), edits_of_now hnow,
      List.drop_left]
    intro address haddress
    obtain ⟨event, hevent, hrecorded⟩ := List.mem_filterMap.mp haddress
    rcases hmem event hevent with hevent | rfl
    · -- the other operations edit, and record nothing
      have hediting := (List.mem_filter.mp (mem_of_mem_history hevent)).2
      obtain ⟨edit, hedit⟩ := Sum.isLeft_iff.mp hediting
      rw [branchReadAt, hedit] at hrecorded
      cases hrecorded
    · obtain ⟨d, hd, rfl⟩ := Option.map_eq_some_iff.mp hrecorded
      exact hfree d hd
  have hsame := hanswers _ hedits halong hmerge
  rw [runOps_answers, runOps_answers, List.map_inj_left] at hsame
  have hread := hsame (read, editsOf before) ((mem_history_insert heffect).mpr (.inr rfl))
  exact (JournalOp.reading_of_answer hread).symm

/-- **When a merge keeps the branch's reads.** A merge is alike if and only if every branch that
makes the same edits, and whose reads let it be merged, has the answers of the serial run. -/
theorem mergeAlike_iff (hok : jf.Ok) (hnow : now.Similar (runOps jf since).journal)
    (hbranch : branch.Similar (runOps jf.fork branchOps).journal)
    (hsince : AllowedAlong own jf since) (hallowed : AllowedAlong own jf.fork branchOps) :
    MergeAlike now branch ↔
      ∀ ops, editsOf ops = editsOf branchOps → AllowedAlong own jf.fork ops →
        (now.mergeBranch (runOps jf.fork ops).journal).2 = true →
        (runOps now ops).answers = (runOps jf.fork ops).answers := by
  rw [mergeAlike_of_fork hok hnow hbranch]
  constructor
  · intro halike ops hedits halong hmerge
    refine answers_of_merge hok hnow (.refl _) hsince halong hmerge ?_
    rwa [mergeAlike_of_fork hok hnow (.refl _), hedits]
  · intro hanswers volume hvolume
    have hreads : ∀ done, done <+: editsOf branchOps →
        (own volume → (editsOn volume (jf.valueAt volume) done).isSome) → ∀ path,
        (∀ d, dependency done volume path = some d →
          ∀ edit ∈ editsOf since, ¬ edit.address.Overlaps ⟨volume, d⟩) →
        readVolume (editsOn volume (jf.valueAt volume) done) path =
          readVolume (editsOn volume (now.valueAt volume) done) path := by
      rintro done ⟨rest, hdone⟩ hnamed path
      exact readVolume_of_answers hok hnow hallowed hanswers hdone.symm hvolume hnamed
    have hvalue : now.valueAt volume = editsOn volume (jf.valueAt volume) (editsOf since) := by
      rw [hnow.valueAt, runOps_valueAt]
    constructor
    · intro path hfree
      by_cases hnamed : own volume → (jf.valueAt volume).isSome
      · refine hreads [] List.nil_prefix hnamed path fun d hd => ?_
        obtain rfl := Option.some.inj hd
        exact hfree
      · -- a volume that no branch can name was not created since, or everything in it is overlapped
        have hmissing : ¬ (jf.valueAt volume).isSome := fun hsome => hnamed fun _ => hsome
        have hnow : ¬ (now.valueAt volume).isSome := by
          rw [hvalue, isSome_editsOn]
          rintro (hsome | ⟨initial, hinit⟩)
          · exact hmissing hsome
          · exact hfree _ hinit (.inl ⟨rfl, List.nil_prefix⟩)
        rw [Option.not_isSome_iff_eq_none.mp hnow, Option.not_isSome_iff_eq_none.mp hmissing]
    · generalize hrest : editsOf branchOps = edits at hreads
      clear hrest
      induction edits using List.reverseRecOn with
      | nil => trivial
      | append_singleton edits edit ih =>
        have hfirst := ih fun done hdone => hreads done (hdone.trans (List.prefix_append _ _))
        refine blockedAlike_append.mpr ⟨hfirst, fun htarget v hv w hw => ?_, trivial⟩
        refine blocked_iff_of_readVolume htarget (fun path hnone => ?_) v hv w hw
        refine hreads _ (List.prefix_refl _) (fun _ => ?_) path fun d hd => ?_
        · -- the volume exists where the edit is made, so the branch can name it
          rw [editsOn_append, isSome_editsOn, Option.mem_def.mp hv]
          exact .inl rfl
        · rw [hnone] at hd
          cases hd

end Merge

/-! ### Any depth -/

/-- Operations allowed on a journal are allowed after others wherever the journal's volumes
exist. -/
theorem AllowedAlong.append {ops' : List (JournalOp K A)} (h : AllowedAlong own j ops)
    (h' : AllowedAlong own j' ops')
    (hexists : ∀ volume, (j'.valueAt volume).isSome →
      (editsOn volume (j.valueAt volume) (editsOf ops)).isSome) :
    AllowedAlong own j (ops ++ ops') := by
  rw [AllowedAlong, history_append, List.nil_append, history_eq_map (editsOf ops)]
  refine List.forall_mem_append.mpr ⟨h, List.forall_mem_map.mpr fun later hlater => ?_⟩
  obtain ⟨hvalid, hnamed, hcreated⟩ := h' later hlater
  refine ⟨hvalid, fun target htarget hown => ?_, hcreated⟩
  have hsome := hnamed target htarget hown
  rw [isSome_editsOn] at hsome
  rw [editsOn_append, isSome_editsOn]
  exact hsome.imp_left (hexists target.id)

/-- Run serially, a journal comes to where its branch is merged. -/
theorem similar_at_merge {before since : List (JournalOp K A)} {fork : StoreJournal K A}
    (hfork : fork.Similar (runOps j before).journal) (hnow : now.Similar (runOps fork since).journal) :
    (runOps j (before ++ since)).journal.Similar now := by
  rw [(runOps_append j before since).1]
  exact (runOps_similar hfork.symm since).1.trans hnow.symm

/-- **A journal that evolved through merges is the one its operations lead to**, run one after the
other in the order the merges gave them, with the same reads observed. -/
theorem Evolves.serial {P : StoreJournal K A → StoreJournal K A → Prop} {s : Session K A}
    (h : Evolves own P j ops s) (hok : j.Ok) :
    s.journal.Similar (runOps j ops).journal ∧ s.observed = (runOps j ops).observed ∧
      AllowedAlong own j ops := by
  induction h with
  | refl => exact ⟨.refl _, rfl, nofun⟩
  | @perform j ops s op hs hallowed ih =>
    obtain ⟨hsim, hobs, hall⟩ := ih hok
    obtain ⟨hsim', hresult⟩ := perform_similar hsim op
    rw [runOps_concat]
    refine ⟨hsim', ?_, ?_⟩
    · rw [Session.perform, Session.perform, hobs, hresult]
    · rw [AllowedAlong, history_concat]
      refine List.forall_mem_append.mpr ⟨hall, List.forall_mem_singleton.mpr ?_⟩
      have hcontents : s.journal.valueAt = fun v => editsOn v (j.valueAt v) (editsOf ops) := by
        funext v
        rw [hsim.valueAt, runOps_valueAt]
      rwa [hcontents] at hallowed
  | @merge j before since branchOps fork now branch hfork hnow hbranch hpaths hmerge ihf ihn ihb =>
    obtain ⟨hsimF, hobsF, hallF⟩ := ihf hok
    have hokF : fork.journal.Ok := (hok.runOps before).similar hsimF.symm
    obtain ⟨hsimN, hobsN, hallN⟩ := ihn hokF
    obtain ⟨hsimB, hobsB, hallB⟩ := ihb hokF.fork
    -- run serially, the journal comes to where it was merged, and the branch goes on from there
    obtain ⟨hj1, hobs1, -⟩ := runOps_append j (before ++ since) branchOps
    obtain ⟨-, hobs2, -⟩ := runOps_append j before since
    obtain ⟨-, hobsS, -⟩ := runOps_similar hsimF.symm since
    obtain ⟨hsimM, hobsM, -⟩ := runOps_similar (similar_at_merge hsimF hsimN) branchOps
    refine ⟨?_, ?_, ?_⟩
    · rw [hj1]
      exact (hsimM.trans (similar_of_merge hokF hsimN hsimB hmerge)).symm
    · rw [hobs1, hobs2, hobsM, observed_of_merge hokF hsimN hsimB hmerge, hobsS, ← hobsF, ← hobsN,
        ← hobsB]
    · have hvalueF : ∀ volume, fork.journal.valueAt volume =
          editsOn volume (j.valueAt volume) (editsOf before) := fun volume => by
        rw [hsimF.valueAt, runOps_valueAt]
      refine AllowedAlong.append (hallF.append hallN fun volume hv => ?_) hallB fun volume hv => ?_
      · rwa [hvalueF] at hv
      · rw [StoreJournal.fork_valueAt, hvalueF] at hv
        rw [editsOf_append, editsOn_append, isSome_editsOn]
        exact .inl hv

/-- **The answers are those of the serial run** if every merge on the way was alike. -/
theorem Evolves.answers {s : Session K A} (h : Evolves own MergeAlike j ops s) (hok : j.Ok) :
    s.answers = (runOps j ops).answers := by
  induction h with
  | refl => rfl
  | perform op hs hallowed ih =>
    obtain ⟨-, hresult⟩ := perform_similar (hs.serial hok).1 op
    rw [runOps_concat, Session.perform, Session.perform, ih hok, hresult]
  | @merge j before since branchOps fork now branch hfork hnow hbranch halike hmerge ihf ihn ihb =>
    obtain ⟨hsimF, -, -⟩ := hfork.serial hok
    have hokF : fork.journal.Ok := (hok.runOps before).similar hsimF.symm
    obtain ⟨hsimN, -, hallN⟩ := hnow.serial hokF
    obtain ⟨hsimB, -, hallB⟩ := hbranch.serial hokF.fork
    obtain ⟨-, -, hans1⟩ := runOps_append j (before ++ since) branchOps
    obtain ⟨-, -, hans2⟩ := runOps_append j before since
    obtain ⟨-, -, hansS⟩ := runOps_similar hsimF.symm since
    obtain ⟨-, -, hansM⟩ := runOps_similar (similar_at_merge hsimF hsimN) branchOps
    rw [hans1, hans2, hansM, answers_of_merge hokF hsimN hsimB hallN hallB hmerge halike, hansS,
      ← ihf hok, ← ihn hokF, ← ihb hokF.fork]

/-- A run without merges. -/
theorem Evolves.of_allowedAlong (P : StoreJournal K A → StoreJournal K A → Prop)
    (h : AllowedAlong own j ops) : Evolves own P j ops (runOps j ops) := by
  induction ops using List.reverseRecOn with
  | nil => exact .refl j
  | append_singleton ops op ih =>
    rw [AllowedAlong, history_concat] at h
    rw [runOps_concat]
    refine .perform op (ih fun event hevent => h event (List.mem_append_left _ hevent)) ?_
    have hcontents : (runOps j ops).journal.valueAt =
        fun v => editsOn v (j.valueAt v) (editsOf ops) := funext (runOps_valueAt j ops)
    rw [hcontents]
    exact h _ (List.mem_append_right _ (.head _))

theorem LiveJournal.ok {P : StoreJournal K A → StoreJournal K A → Prop}
    (h : LiveJournal own P j) : j.Ok := by
  induction h with
  | new snapshot => exact .new snapshot
  | @evolve j ops s hj hs ih => exact (ih.runOps ops).similar (hs.serial ih).1.symm
  | fork hj ih => exact ih.fork

/-- **Merging a branch.** Let a journal of any nesting depth be forked, and let it and its branch go
on. If the merge succeeds, the journal's edits, its drafts, the reads of the branch that it is
itself, and what is observed are those of running the branch's operations on it now. So are the
branch's answers, if this merge and those the branch made before are alike. If the merge fails, the
journal is as it was. No weaker condition does for the answers: the merge is alike exactly if every
branch that makes the same edits, and is merged, has the answers of the serial run. -/
theorem mergeBranch_serial {own : VolumeId → Prop} {jf : StoreJournal K A}
    {since branchOps : List (JournalOp K A)} {now branch : Session K A}
    (hjf : LiveJournal own (fun _ _ => True) jf)
    (hnow : Evolves own (fun _ _ => True) jf since now)
    (hbranch : Evolves own (fun _ _ => True) jf.fork branchOps branch) :
    ((now.journal.mergeBranch branch.journal).2 = true →
      (now.journal.mergeBranch branch.journal).1.edits =
          (runOps now.journal branchOps).journal.edits ∧
        (now.journal.mergeBranch branch.journal).1.views =
          (runOps now.journal branchOps).journal.views ∧
        (now.journal.mergeBranch branch.journal).1.branch =
          (runOps now.journal branchOps).journal.branch ∧
        branch.observed = (runOps now.journal branchOps).observed ∧
        (MergeAlike now.journal branch.journal →
          Evolves own MergeAlike jf.fork branchOps branch →
          branch.answers = (runOps now.journal branchOps).answers)) ∧
      ((now.journal.mergeBranch branch.journal).2 = false →
        (now.journal.mergeBranch branch.journal).1.edits = now.journal.edits ∧
          (now.journal.mergeBranch branch.journal).1.views = now.journal.views) ∧
      (MergeAlike now.journal branch.journal ↔
        ∀ ops, editsOf ops = editsOf branchOps → AllowedAlong own jf.fork ops →
          (now.journal.mergeBranch (runOps jf.fork ops).journal).2 = true →
          (runOps now.journal ops).answers = (runOps jf.fork ops).answers) := by
  obtain ⟨hsimN, -, hallN⟩ := hnow.serial hjf.ok
  obtain ⟨hsimB, hobsB, hallB⟩ := hbranch.serial hjf.ok.fork
  refine ⟨fun hmerge => ?_, fun hmerge => ?_, mergeAlike_iff hjf.ok hsimN hsimB hallN hallB⟩
  · have hsim := similar_of_merge hjf.ok hsimN hsimB hmerge
    refine ⟨hsim.edits.symm, hsim.views.symm, hsim.branch.symm, ?_, fun halike hinner => ?_⟩
    · rw [hobsB, observed_of_merge hjf.ok hsimN hsimB hmerge]
    · rw [hinner.answers hjf.ok.fork,
        answers_of_merge hjf.ok hsimN hsimB hallN hallB hmerge halike]
  · rw [mergeBranch_of_false hmerge]
    exact ⟨rfl, rfl⟩

/-! ### A branch that writes below what its journal replaces -/

section Sample

/-- A heap with an empty dictionary at key 0. -/
def sampleSnapshot : StoreSnapshot Nat Nat :=
  ⟨0, {heapVolume}, Table.set ∅ heapVolume (.dict [(0, .dict [])])⟩

/-- The branch writes below key 0, and reads what it wrote. -/
def sampleBranchOps : List (JournalOp Nat Nat) :=
  [.write (.store heapVolume) [0, 7] (.data 1), .read (.store heapVolume) [0, 7]]

/-- The journal replaces the value at `key`. -/
def sampleNowOps (key : Nat) : List (JournalOp Nat Nat) :=
  [.write (.store heapVolume) [key] (.data 5)]

theorem sampleBranchOps_allowed (j : StoreJournal Nat Nat) :
    AllowedAlong (fun _ => False) j sampleBranchOps := by
  have hheap : heapVolume ≠ runtimeVolume := by decide
  refine List.forall_mem_cons.mpr ⟨⟨hheap, fun _ _ h => h.elim, nofun⟩, ?_⟩
  exact List.forall_mem_singleton.mpr ⟨hheap, fun _ _ h => h.elim, nofun⟩

theorem sampleNowOps_allowed (key : Nat) (j : StoreJournal Nat Nat) :
    AllowedAlong (fun _ => False) j (sampleNowOps key) := by
  have hheap : heapVolume ≠ runtimeVolume := by decide
  exact List.forall_mem_singleton.mpr ⟨hheap, fun _ _ h => h.elim, nofun⟩

/-- The journal replaces the dictionary at key 0 by a number. The merge succeeds, since the branch's
only read is covered by its own write. Run after the journal's write, that write fails and the read
with it, where the branch read the value it had written. -/
theorem mergeBranch_read_differs :
    ∃ (jf : StoreJournal Nat Nat) (since branchOps : List (JournalOp Nat Nat))
      (now branch : Session Nat Nat),
      LiveJournal (fun _ => False) (fun _ _ => True) jf ∧
        Evolves (fun _ => False) (fun _ _ => True) jf since now ∧
        Evolves (fun _ => False) (fun _ _ => True) jf.fork branchOps branch ∧
        (now.journal.mergeBranch branch.journal).2 = true ∧
        branch.answers = [.unit, .reading (.value (.data 1))] ∧
        (runOps now.journal branchOps).answers = [.unit, .reading .failed] :=
  ⟨.new sampleSnapshot, sampleNowOps 0, sampleBranchOps, _, _, .new sampleSnapshot,
    .of_allowedAlong _ (sampleNowOps_allowed 0 _), .of_allowedAlong _ (sampleBranchOps_allowed _),
    by decide, rfl, rfl⟩

/-- Where the journal writes at another key, the branch's read is that of the serial run. -/
theorem mergeBranch_serial_sample :
    (runOps (StoreJournal.new sampleSnapshot).fork sampleBranchOps).answers =
      (runOps (runOps (StoreJournal.new sampleSnapshot) (sampleNowOps 1)).journal
        sampleBranchOps).answers := by
  have hmerge := mergeBranch_serial (LiveJournal.new sampleSnapshot)
    (Evolves.of_allowedAlong _ (sampleNowOps_allowed 1 _))
    (Evolves.of_allowedAlong _ (sampleBranchOps_allowed _))
  obtain ⟨-, -, -, -, hanswers⟩ := hmerge.1 (by decide)
  refine hanswers ((mergeAlike_of_fork (.new _) (.refl _) (.refl _)).mpr fun volume _ => ?_)
    (Evolves.of_allowedAlong _ (sampleBranchOps_allowed _))
  refine ⟨fun path hfree => ?_, fun hv value hvalue now hnow => ?_, trivial⟩
  · rw [runOps_valueAt]
    exact (readVolume_editsOn_of_apart hfree ⟨fun _ _ _ _ h => h, trivial⟩).symm
  · obtain rfl : heapVolume = volume := hv
    cases hvalue
    cases hnow
    exact iff_of_false nofun nofun

end Sample

end Glam.Store
