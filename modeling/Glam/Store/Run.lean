import Glam.Store.Contents

/-!
# Running operations on a journal

What a sequence of operations leaves behind, in closed form. The journal's edits are those of the
operations, its drafts are the edits applied to what it held before, and each read leaves an address
with the index, one with the journal's branch, and an answer. All three are functions of the
operation and of the edits before it (`history`), which is what lets a run be compared with the same
operations run elsewhere.
-/

namespace Glam.Store

variable {K A : Type} [StoreKeys K]

/-- The edits among some operations. -/
def editsOf (ops : List (JournalOp K A)) : List (StoreEdit K A) :=
  ops.filterMap fun op => op.effect.getLeft?

/-- The operations, each with the edits recorded before it, where `done` are those before the
first. -/
def history (done : List (StoreEdit K A)) : List (JournalOp K A) →
    List (JournalOp K A × List (StoreEdit K A))
  | [] => []
  | op :: ops => (op, done) :: history (done ++ op.effect.getLeft?.toList) ops

@[simp] theorem editsOf_nil : editsOf ([] : List (JournalOp K A)) = [] := rfl

theorem editsOf_append (ops ops' : List (JournalOp K A)) :
    editsOf (ops ++ ops') = editsOf ops ++ editsOf ops' := List.filterMap_append

theorem editsOf_singleton (op : JournalOp K A) : editsOf [op] = op.effect.getLeft?.toList := by
  cases h : op.effect <;> simp [editsOf, h]

theorem history_append (done : List (StoreEdit K A)) (ops ops' : List (JournalOp K A)) :
    history done (ops ++ ops') = history done ops ++ history (done ++ editsOf ops) ops' := by
  induction ops generalizing done with
  | nil => simp [history]
  | cons op ops ih =>
    have hcons : editsOf (op :: ops) = op.effect.getLeft?.toList ++ editsOf ops := by
      rw [← List.singleton_append, editsOf_append, editsOf_singleton]
    rw [List.cons_append, history, history, ih, hcons, List.cons_append, List.append_assoc]

theorem history_concat (ops : List (JournalOp K A)) (op : JournalOp K A) :
    history [] (ops ++ [op]) = history [] ops ++ [(op, editsOf ops)] := by
  rw [history_append]
  rfl

variable {ops : List (JournalOp K A)} {event : JournalOp K A × List (StoreEdit K A)}

theorem prefix_of_mem_history (h : event ∈ history [] ops) : event.2 <+: editsOf ops := by
  induction ops using List.reverseRecOn with
  | nil => simp [history] at h
  | append_singleton ops op ih =>
    rw [history_concat, List.mem_append] at h
    rw [editsOf_append]
    rcases h with h | h
    · exact (ih h).trans (List.prefix_append _ _)
    · rw [List.mem_singleton.mp h]
      exact List.prefix_append _ _

theorem history_eq_map (done : List (StoreEdit K A)) (ops : List (JournalOp K A)) :
    history done ops = (history [] ops).map fun event => (event.1, done ++ event.2) := by
  induction ops using List.reverseRecOn with
  | nil => rfl
  | append_singleton ops op ih =>
    rw [history_append, ih, history_concat, List.map_append]
    rfl

theorem mem_of_mem_history (h : event ∈ history [] ops) : event.1 ∈ ops := by
  induction ops using List.reverseRecOn with
  | nil => simp [history] at h
  | append_singleton ops op ih =>
    rw [history_concat, List.mem_append] at h
    rcases h with h | h
    · exact List.mem_append_left [op] (ih h)
    · rw [List.mem_singleton.mp h]
      exact List.mem_append_right ops (List.mem_singleton_self op)

variable [DecidableEq K]

/-- A journal at work, with the addresses its reads left with the index and the answers it got. -/
structure Session (K A : Type) where
  journal : StoreJournal K A
  observed : List (ConflictAddress K)
  answers : List (Answer K A)

/-- An operation of a transaction, with what it observes and answers. -/
def Session.perform (session : Session K A) (op : JournalOp K A) : Session K A :=
  ⟨(op.perform session.journal).1,
    session.observed ++ (op.perform session.journal).2.1.toList,
    session.answers ++ [(op.perform session.journal).2.2]⟩

/-- Performs `ops` on `journal`, one after the other. -/
def runOps (journal : StoreJournal K A) (ops : List (JournalOp K A)) : Session K A :=
  ops.foldl Session.perform ⟨journal, [], []⟩

@[simp] theorem runOps_nil (journal : StoreJournal K A) : runOps journal [] = ⟨journal, [], []⟩ :=
  rfl

theorem runOps_concat (journal : StoreJournal K A) (ops : List (JournalOp K A))
    (op : JournalOp K A) : runOps journal (ops ++ [op]) = (runOps journal ops).perform op := by
  rw [runOps, List.foldl_append]
  rfl

/-! ### The journal after a run -/

section

variable (journal : StoreJournal K A)
include journal

/-- A run keeps the snapshot. -/
theorem runOps_snapshot (ops : List (JournalOp K A)) :
    (runOps journal ops).journal.snapshot = journal.snapshot := by
  induction ops using List.reverseRecOn with
  | nil => rfl
  | append_singleton ops op ih =>
    rw [runOps_concat, Session.perform]
    cases h : op.effect with
    | inl edit =>
      rw [(op.perform_of_edit h _).1.snapshot, (StoreJournal.replay_fields edit _).1, ih]
    | inr =>
      rw [(op.perform_of_read h _).1.snapshot]
      exact ih

/-- The edits of a run are those of its operations. -/
theorem runOps_edits (ops : List (JournalOp K A)) :
    (runOps journal ops).journal.edits = journal.edits ++ editsOf ops := by
  induction ops using List.reverseRecOn with
  | nil => simp
  | append_singleton ops op ih =>
    rw [runOps_concat, Session.perform, editsOf_append, editsOf_singleton, ← List.append_assoc,
      ← ih]
    cases h : op.effect with
    | inl edit =>
      rw [(op.perform_of_edit h _).1.edits, (StoreJournal.replay_fields edit _).2.2]
      rfl
    | inr =>
      rw [(op.perform_of_read h _).1.edits]
      exact (List.append_nil _).symm

/-- **The volumes after a run** are those of applying its edits. -/
theorem runOps_valueAt (ops : List (JournalOp K A)) (volume : VolumeId) :
    (runOps journal ops).journal.valueAt volume =
      editsOn volume (journal.valueAt volume) (editsOf ops) := by
  induction ops using List.reverseRecOn with
  | nil => rfl
  | append_singleton ops op ih =>
    rw [runOps_concat, Session.perform, editsOf_append, editsOf_singleton, editsOn_append, ← ih]
    cases h : op.effect with
    | inl =>
      rw [(op.perform_of_edit h _).1.valueAt, StoreJournal.replay_valueAt]
      rfl
    | inr =>
      rw [(op.perform_of_read h _).1.valueAt]
      rfl

section

variable (edits : List (StoreEdit K A))
include edits

omit [StoreKeys K] in
theorem foldl_replay_concat (edit : StoreEdit K A) :
    (edits ++ [edit]).foldl StoreJournal.replay journal =
      (edits.foldl StoreJournal.replay journal).replay edit := by
  rw [List.foldl_append]
  rfl

omit [StoreKeys K] in
theorem foldl_replay_fields :
    (edits.foldl StoreJournal.replay journal).snapshot = journal.snapshot ∧
      (edits.foldl StoreJournal.replay journal).branch = journal.branch ∧
      (edits.foldl StoreJournal.replay journal).edits = journal.edits ++ edits := by
  induction edits using List.reverseRecOn with
  | nil => exact ⟨rfl, rfl, (List.append_nil _).symm⟩
  | append_singleton edits edit ih =>
    obtain ⟨hs, hb, he⟩ := StoreJournal.replay_fields edit (edits.foldl .replay journal)
    rw [foldl_replay_concat, hs, hb, he, ← List.append_assoc, ih.2.2]
    exact ⟨ih.1, ih.2.1, rfl⟩

end

end

omit [StoreKeys K] in
theorem foldl_replay_views_congr {j j' : StoreJournal K A} (hs : j.snapshot = j'.snapshot)
    (hv : j.views = j'.views) (edits : List (StoreEdit K A)) :
    (edits.foldl StoreJournal.replay j).views = (edits.foldl StoreJournal.replay j').views := by
  induction edits using List.reverseRecOn with
  | nil => exact hv
  | append_singleton edits edit ih =>
    rw [foldl_replay_concat, foldl_replay_concat]
    refine StoreJournal.replay_views_congr edit ?_ ih
    rw [(foldl_replay_fields j _).1, (foldl_replay_fields j' _).1, hs]

/-- **The drafts after a run** are those of replaying its edits. -/
theorem runOps_views (journal : StoreJournal K A) (ops : List (JournalOp K A)) :
    (runOps journal ops).journal.views =
      ((editsOf ops).foldl StoreJournal.replay journal).views := by
  induction ops using List.reverseRecOn with
  | nil => rfl
  | append_singleton ops op ih =>
    rw [runOps_concat, Session.perform, editsOf_append, editsOf_singleton]
    cases h : op.effect with
    | inl edit =>
      rw [(op.perform_of_edit h _).1.views]
      simp only [Sum.getLeft?_inl, Option.toList_some, foldl_replay_concat]
      refine StoreJournal.replay_views_congr edit ?_ ih
      rw [runOps_snapshot, (foldl_replay_fields ..).1]
    | inr =>
      rw [(op.perform_of_read h _).1.views]
      simp only [Sum.getLeft?_inr, Option.toList_none, List.append_nil]
      exact ih

/-! ### What each operation leaves -/

/-- What an operation answers on `journal`, after the edits recorded before it. -/
def answerAt (journal : StoreJournal K A) (event : JournalOp K A × List (StoreEdit K A)) :
    Answer K A :=
  match event.1.effect with
  | .inl _ => .unit
  | .inr address =>
    event.1.answer journal.snapshot.kept
      (readVolume (editsOn address.volume (journal.valueAt address.volume) event.2) address.path)

/-- What an operation has the index observe. -/
def observedAt (journal : StoreJournal K A) (event : JournalOp K A × List (StoreEdit K A)) :
    Option (ConflictAddress K) :=
  match event.1.effect with
  | .inl _ => none
  | .inr address =>
    if (journal.snapshot.versions.get address.volume).isNone then some address
    else (dependency (journal.edits ++ event.2) address.volume address.path).map fun read =>
      ⟨address.volume, read⟩

/-- What an operation adds to the reads of a branch that has made the edits `own` already. -/
def branchReadAt (own : List (StoreEdit K A)) (event : JournalOp K A × List (StoreEdit K A)) :
    Option (ConflictAddress K) :=
  match event.1.effect with
  | .inl _ => none
  | .inr address =>
    (dependency (own ++ event.2) address.volume address.path).map fun read =>
      ⟨address.volume, read⟩

/-- What a run answers, from the history of its operations. -/
theorem runOps_answers (journal : StoreJournal K A) (ops : List (JournalOp K A)) :
    (runOps journal ops).answers = (history [] ops).map (answerAt journal) := by
  induction ops using List.reverseRecOn with
  | nil => rfl
  | append_singleton ops op ih =>
    rw [runOps_concat, history_concat, List.map_append, ← ih]
    refine congrArg (_ ++ ·) (congrArg (fun answer => [answer]) ?_)
    unfold answerAt
    cases h : op.effect with
    | inl => rw [(op.perform_of_edit h _).2]
    | inr =>
      rw [(op.perform_of_read h _).2, runOps_snapshot, runOps_valueAt]

/-- What a run observes, from the history of its operations. -/
theorem runOps_observed (journal : StoreJournal K A) (ops : List (JournalOp K A)) :
    (runOps journal ops).observed = (history [] ops).filterMap (observedAt journal) := by
  induction ops using List.reverseRecOn with
  | nil => rfl
  | append_singleton ops op ih =>
    rw [runOps_concat, history_concat, List.filterMap_append, ← ih]
    refine congrArg (_ ++ ·) ?_
    have hlast : ∀ event : JournalOp K A × List (StoreEdit K A),
        [event].filterMap (observedAt journal) = (observedAt journal event).toList := by
      intro event
      cases h : observedAt journal event <;> simp [h]
    rw [hlast]
    refine congrArg Option.toList ?_
    unfold observedAt
    cases h : op.effect with
    | inl => rw [(op.perform_of_edit h _).2]
    | inr =>
      rw [(op.perform_of_read h _).2, StoreJournal.observeReadById, runOps_snapshot, runOps_edits]

/-- What a branch reads of the store below it, from the history of its operations. -/
theorem runOps_branch {journal : StoreJournal K A}
    (hbase : ∀ branch ∈ journal.branch, branch.base ≤ journal.edits.length)
    (ops : List (JournalOp K A)) :
    (runOps journal ops).journal.branch = journal.branch.map fun branch =>
      { branch with
        reads := branch.reads ++
          (history [] ops).filterMap (branchReadAt (journal.edits.drop branch.base)) } := by
  induction ops using List.reverseRecOn with
  | nil => simp [history]
  | append_singleton ops op ih =>
    rw [runOps_concat, Session.perform, history_concat]
    cases hb : journal.branch with
    | none =>
      rw [hb] at ih
      cases h : op.effect with
      | inl edit =>
        rw [(op.perform_of_edit h _).1.branch, (StoreJournal.replay_fields edit _).2.1, ih]
        rfl
      | inr =>
        rw [(op.perform_of_read h _).1.branch]
        simp [StoreJournal.observeReadById, StoreJournal.branchWithRead, ih]
    | some branch =>
      rw [hb] at ih
      simp only [Option.map_some, List.filterMap_append] at ih ⊢
      cases h : op.effect with
      | inl edit =>
        rw [(op.perform_of_edit h _).1.branch, (StoreJournal.replay_fields edit _).2.1, ih]
        simp [branchReadAt, h]
      | inr address =>
        rw [(op.perform_of_read h _).1.branch]
        simp only [StoreJournal.observeReadById, StoreJournal.branchWithRead, ih, Option.map_some,
          runOps_edits, List.drop_append_of_le_length (hbase branch hb)]
        cases hd : dependency (journal.edits.drop branch.base ++ editsOf ops) address.volume
            address.path <;> simp [branchReadAt, h, hd]

end Glam.Store
