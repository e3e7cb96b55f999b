import Glam.Store.Preserve

/-!
# Serializability

The store's volumes are those of the serial run, and every read of a committed transaction got the
answer it gets there (`serializable`).

This needs that an edit by identity names a volume the transaction's snapshot has (`KnowsVolumes`).
Where a host creates a volume later, the journal records the edit without the volume's cell. The
commit takes a volume without a cell to be collected and drops its edits, so a write of a volume in
use is lost, in a transaction that has committed (`lost_write`).
-/

namespace Glam.Store

variable {K A : Type} [DecidableEq K] [StoreKeys K]

/-! ### Runs -/

/-- What each volume holds before anything is committed. -/
def initialContents : Contents K A := (ReflectionStore.new : ReflectionStore K A).versions.get

/-- The store is what its log makes of the first contents, and each transaction is one of its
snapshots'. -/
structure SystemOk (s : System K A) : Prop where
  store : StoreOk s.store
  transactions : ∀ t transaction, s.transactions.get t = some transaction →
    ∃ snapshot, TransactionOk s.store snapshot transaction
  contents : s.store.versions.get = replayLog initialContents s.log
  answers : AnswersAgree initialContents s.log

variable {s : System K A}

namespace SystemOk

theorem initial : SystemOk (System.initial : System K A) where
  store := StoreOk.new
  transactions := fun t transaction h => by simp [System.initial, Table.get_empty] at h
  contents := rfl
  answers := trivial

variable {store : ReflectionStore K A}

/-- A change of the store that the log records keeps the invariant. -/
theorem of_advance (h : SystemOk s) {transactions : Table Nat (Transaction K A)}
    {entry : LogEntry K A} (hadv : s.store.Advance store) (hok : StoreOk store)
    (hopen : ∀ t transaction, transactions.get t = some transaction →
      s.transactions.get t = some transaction)
    (hcontents : store.versions.get = entry.apply s.store.versions.get)
    (hanswers : ∀ ops answers, entry = .transaction ops answers →
      (serialRun s.store.versions.get ops).2 = answers) :
    SystemOk ⟨store, transactions, s.log ++ [entry]⟩ where
  store := hok
  transactions := fun t transaction hget => by
    obtain ⟨snapshot, htransaction⟩ := h.transactions t transaction (hopen t transaction hget)
    exact ⟨snapshot, htransaction.advance hadv⟩
  contents := by rw [replayLog_concat, ← h.contents, hcontents]
  answers := answersAgree_concat h.answers (by rwa [← h.contents])

/-- A transaction begins in order. -/
theorem begin_transaction (hok : StoreOk store) :
    TransactionOk store store.snapshot ⟨[], ⟨.new store.snapshot, [], []⟩, ∅⟩ where
  session_eq := rfl
  index_eq := rfl
  valid := by simp
  paths := fun _ => trivial
  cells := by simp
  revision_le := le_rfl
  current := fun _ => rfl
  unchanged := fun _ _ _ => rfl
  gone := fun volume hsome hnone => by
    rw [ReflectionStore.snapshot, Option.isNone_iff_eq_none.mp hnone] at hsome
    simp at hsome
  hosted := by simp
  kept_iff := hok.kept_iff
  created := by simp
  bounded := fun volume hv => hok.bounded volume (hv.imp_right (Finset.mem_union_left _))
  own := ⟨hok.isSome hok.own.1, hok.isSome hok.own.2.2⟩

/-- **Every step keeps the invariant.** -/
theorem step {s' : System K A} (h : SystemOk s) {a : Action K A} (hpaths : DictPaths s a)
    (hknows : KnowsVolumes s a) (hstep : s.step a = some s') : SystemOk s' := by
  cases a with
  | begin t =>
    cases hget : s.transactions.get t with
    | some => simp [System.step, hget] at hstep
    | none =>
      simp only [System.step, hget, Option.some.injEq] at hstep
      subst hstep
      refine { h with transactions := fun t' transaction hget' => ?_ }
      rw [Table.get_set] at hget'
      split at hget'
      · -- the new transaction's snapshot is the store as it is now
        cases hget'
        exact ⟨s.store.snapshot, begin_transaction h.store⟩
      · exact h.transactions t' transaction hget'
  | perform t op =>
    cases hget : s.transactions.get t with
    | none => simp [System.step, hget] at hstep
    | some transaction =>
      simp only [System.step, hget] at hstep
      split at hstep
      · next henabled =>
        cases hstep
        have hadv := s.store.advance_reserveFor op
        refine ⟨h.store.reserveFor op, fun t' other hget' => ?_, ?_, h.answers⟩
        · rw [Table.get_set] at hget'
          split at hget'
          · cases hget'
            obtain ⟨snapshot, htransaction⟩ := h.transactions t transaction hget
            exact ⟨snapshot, htransaction.perform h.store henabled
              (hpaths transaction hget) (hknows transaction hget)⟩
          · obtain ⟨snapshot, hother⟩ := h.transactions t' other hget'
            exact ⟨snapshot, hother.advance hadv⟩
        · -- reserving names for an operation leaves the contents alone
          rw [← h.contents]
          cases op <;> rfl
      · simp at hstep
  | commit t =>
    cases hget : s.transactions.get t with
    | none => simp [System.step, hget] at hstep
    | some transaction =>
      obtain ⟨snapshot, htransaction⟩ := h.transactions t transaction hget
      simp only [System.step, hget, ReflectionStore.tryCommit] at hstep
      cases hvalid : s.store.validate transaction.session.journal transaction.index with
      | committed =>
        rw [hvalid] at hstep
        cases hstep
        -- the paths are those of the journal, which has the edits of the operations
        have hstore : ∀ volume, PathsOk volume (s.store.versions.get volume)
            (editsOf transaction.ops) := by
          intro volume
          rw [← htransaction.journal_edits]
          exact hpaths transaction hget volume
        -- the log grows by the transaction, run on the contents at the commit
        refine h.of_advance (htransaction.advance_commit h.store hstore)
          (htransaction.storeOk_commit h.store) (fun t' other hget' => ?_) ?_
          fun ops answers hentry => ?_
        · rw [Table.get_remove] at hget'
          split at hget'
          · simp at hget'
          · exact hget'
        · rw [LogEntry.apply, serialRun_fst]
          exact funext htransaction.commit_versions
        · obtain ⟨rfl, rfl⟩ : transaction.ops = ops ∧ transaction.session.answers = answers := by
            simpa using hentry
          exact htransaction.answers_serial hvalid hstore
      -- a refused commit changes nothing
      | conflict | missingVolume =>
        rw [hvalid] at hstep
        exact Option.some.inj hstep ▸ h
  | abandon =>
    cases hstep
    refine { h with transactions := fun t' transaction hget => ?_ }
    rw [Table.get_remove] at hget
    split at hget
    · simp at hget
    · exact h.transactions t' transaction hget
  | createVolume initial =>
    cases hstep
    refine h.of_advance (ReflectionStore.advance_createVolume h.store initial)
      (h.store.createVolume initial) (fun _ _ hget => hget) ?_ (by simp)
    funext volume
    rw [LogEntry.apply, Function.update_apply]
    exact Table.get_set _ _ _ _
  | revokeVolume =>
    simp only [System.step] at hstep
    split at hstep
    · next hhosted =>
      cases hstep
      refine h.of_advance (ReflectionStore.advance_revokeVolume h.store hhosted)
        (h.store.revokeVolume hhosted) (fun _ _ hget => hget) ?_ (by simp)
      funext w
      rw [ReflectionStore.revokeVolume_eq h.store hhosted, LogEntry.apply, Function.update_apply]
      exact Table.get_remove _ _ _
    · simp at hstep
  | replaceRoot root =>
    cases hstep
    refine h.of_advance (ReflectionStore.advance_replaceRoot h.store root)
      (h.store.replaceRoot root) (fun _ _ hget => hget) ?_ (by simp)
    funext volume
    rw [LogEntry.apply, Function.update_apply]
    exact Table.get_set _ _ _ _
  | allocatePromise promise =>
    cases hstep
    -- promises are not part of the contents
    have hadv : s.store.Advance { s.store with pending := insert promise s.store.pending } :=
      .of_counters rfl rfl rfl rfl rfl le_rfl
    refine ⟨⟨h.store.bounded, h.store.kept_iff, h.store.own, h.store.changes_le⟩,
      fun t transaction hget => ?_, h.contents, h.answers⟩
    obtain ⟨snapshot, htransaction⟩ := h.transactions t transaction hget
    exact ⟨snapshot, htransaction.advance hadv⟩

end SystemOk

theorem System.Run.ok (h : s.Run fun s a => DictPaths s a ∧ KnowsVolumes s a) : SystemOk s := by
  induction h with
  | initial => exact SystemOk.initial
  | step a _ hP hstep ih => exact ih.step hP.1 hP.2 hstep

/-- **Committed transactions are serializable in the order of their commits.** In every run whose
edits find only dictionaries on their way and name volumes that their transaction's snapshot has,
the store's volumes are those of the serial run, and every committed transaction got its answers. -/
theorem serializable (s : System K A)
    (h : s.Run fun s a => DictPaths s a ∧ KnowsVolumes s a) :
    s.store.versions.get = replayLog initialContents s.log ∧
      AnswersAgree initialContents s.log :=
  ⟨h.ok.contents, h.ok.answers⟩

/-- The log only grows, and a transaction keeps the snapshot that it began with. -/
theorem System.step_snapshot {s' : System K A} {a : Action K A} (hstep : s.step a = some s')
    {t : Nat} {transaction : Transaction K A} (hget : s'.transactions.get t = some transaction) :
    s.log <+: s'.log ∧
      ((∃ before, s.transactions.get t = some before ∧
          transaction.session.journal.snapshot = before.session.journal.snapshot) ∨
        transaction.session.journal.snapshot = s.store.snapshot) := by
  cases a with
  | perform t' op =>
    simp only [System.step] at hstep
    split at hstep
    · cases hstep
    · next before hbefore =>
      split at hstep <;> cases hstep
      refine ⟨List.prefix_refl _, .inl ?_⟩
      rw [Table.get_set] at hget
      split at hget
      · next heq =>
        cases hget
        exact ⟨before, heq ▸ hbefore, runOps_snapshot before.session.journal [op]⟩
      · exact ⟨transaction, hget, rfl⟩
  | _ => grind [System.step, StoreJournal.new, List.prefix_append]

/-- **Open transactions see what was committed.** Whatever others do meanwhile, and whether or not
it will commit, an open transaction has got the answers of a serial run of its operations right
after some first part of what is committed. -/
theorem open_transaction_answers (s : System K A)
    (h : s.Run fun s a => DictPaths s a ∧ KnowsVolumes s a) (t : Nat)
    (transaction : Transaction K A) (hget : s.transactions.get t = some transaction) :
    ∃ past, past <+: s.log ∧
      (serialRun (replayLog initialContents past) transaction.ops).2 =
        transaction.session.answers := by
  have hpast : ∃ past, past <+: s.log ∧
      transaction.session.journal.snapshot.versions.get = replayLog initialContents past := by
    induction h generalizing transaction with
    | initial => cases hget
    | step a hrun _ hstep ih =>
      obtain ⟨hlog, ⟨before, hbefore, heq⟩ | heq⟩ := System.step_snapshot hstep hget
      · obtain ⟨past, hpast, hbegan⟩ := ih before hbefore
        exact ⟨past, hpast.trans hlog, heq ▸ hbegan⟩
      · exact ⟨_, hlog, heq ▸ hrun.ok.contents⟩
  obtain ⟨past, hfirst, heq⟩ := hpast
  obtain ⟨snapshot, hok⟩ := h.ok.transactions t transaction hget
  refine ⟨past, hfirst, ?_⟩
  rw [← heq, hok.journal_snapshot]
  exact hok.answers_snapshot

/-! ### Runs of given actions -/

/-- The state after `actions`, where all are possible. -/
def System.after (s : System K A) : List (Action K A) → Option (System K A)
  | [] => some s
  | a :: actions => (s.step a).bind fun s' => s'.after actions

/-- Each of `actions` meets `P` where it is made. -/
def System.MeetsAlong (P : System K A → Action K A → Prop) (s : System K A) :
    List (Action K A) → Prop
  | [] => True
  | a :: actions => P s a ∧ ∀ s', s.step a = some s' → s'.MeetsAlong P actions

theorem System.Run.after {P : System K A → Action K A → Prop} {s' : System K A} (h : s.Run P)
    {actions : List (Action K A)} (hmeets : s.MeetsAlong P actions)
    (hafter : s.after actions = some s') : s'.Run P := by
  induction actions generalizing s with
  | nil => exact Option.some.inj hafter ▸ h
  | cons a actions ih =>
    obtain ⟨middle, hstep, hrest⟩ := Option.bind_eq_some_iff.mp hafter
    exact ih (.step a h hmeets.1 hstep) (hmeets.2 middle hstep) hrest

section Sample

/-- Two transactions from one snapshot: the first writes the heap's key 2, the second reads key 3
and writes key 4. The second commits last, so its write is rebased. -/
def rebasedWrite : List (Action Nat Nat) :=
  [.begin 0, .begin 1, .perform 0 (.write (.store heapVolume) [2] (.data 5)),
    .perform 1 (.read (.store heapVolume) [3]),
    .perform 1 (.write (.store heapVolume) [4] (.data 6)), .commit 0, .commit 1]

/-- The run of the two transactions meets the conditions. -/
theorem rebasedWrite_meets : System.initial.MeetsAlong
    (fun s a => DictPaths s a ∧ KnowsVolumes s a) rebasedWrite := by
  refine ⟨⟨trivial, trivial⟩, fun s₁ h₁ => ?_⟩
  obtain rfl := Option.some.inj h₁
  refine ⟨⟨trivial, trivial⟩, fun s₂ h₂ => ?_⟩
  obtain rfl := Option.some.inj h₂
  refine ⟨⟨fun transaction ht edit he _ value hvalue => ?_, nofun⟩,
    fun s₃ h₃ => ?_⟩
  · cases ht
    obtain rfl := Sum.inl.inj he
    cases hvalue
    exact nofun
  obtain rfl := Option.some.inj h₃
  refine ⟨⟨nofun, nofun⟩, fun s₄ h₄ => ?_⟩
  obtain rfl := Option.some.inj h₄
  refine ⟨⟨fun transaction ht edit he _ value hvalue => ?_, nofun⟩,
    fun s₅ h₅ => ?_⟩
  · cases ht
    obtain rfl := Sum.inl.inj he
    cases hvalue
    exact nofun
  obtain rfl := Option.some.inj h₅
  refine ⟨⟨fun transaction ht volume => ?_, trivial⟩, fun s₆ h₆ => ?_⟩
  · cases ht
    refine ⟨fun hv _ value hvalue => ?_, trivial⟩
    obtain rfl : heapVolume = volume := hv
    cases hvalue
    exact nofun
  obtain rfl := Option.some.inj h₆
  refine ⟨⟨fun transaction ht volume => ?_, trivial⟩, fun _ _ => trivial⟩
  cases ht
  refine ⟨fun hv _ value hvalue => ?_, trivial⟩
  obtain rfl : heapVolume = volume := hv
  cases hvalue
  exact nofun

/-- Both transactions commit, and the heap is that of the serial run. -/
theorem serializable_sample : ∃ s : System Nat Nat,
    System.initial.after rebasedWrite = some s ∧
      s.store.versions.get heapVolume = some (.dict [(4, .data 6), (2, .data 5)]) ∧
      s.store.versions.get = replayLog initialContents s.log ∧
      AnswersAgree initialContents s.log := by
  have hheap : ((System.initial.after rebasedWrite).map fun s =>
      s.store.versions.get heapVolume) = some (some (.dict [(4, .data 6), (2, .data 5)])) := rfl
  obtain ⟨s, hs, hversion⟩ := Option.map_eq_some_iff.mp hheap
  exact ⟨s, hs, hversion, serializable s (System.Run.initial.after rebasedWrite_meets hs)⟩

/-- A transaction reads key 3 after a host has replaced the heap it began with. -/
def staleRead : List (Action Nat Nat) :=
  [.begin 0, .replaceRoot (.dict [(3, .data 5)]), .perform 0 (.read (.store heapVolume) [3])]

/-- It finds nothing there, as in the serial run before the replacement. -/
theorem open_transaction_answers_staleRead : ∃ (s : System Nat Nat) (transaction : _),
    System.initial.after staleRead = some s ∧ s.transactions.get 0 = some transaction ∧
      transaction.session.answers = [.reading .undefined] ∧
      ∃ past, past <+: s.log ∧
        (serialRun (replayLog initialContents past) transaction.ops).2 =
          transaction.session.answers := by
  have hmeets : System.initial.MeetsAlong (fun s a => DictPaths s a ∧ KnowsVolumes s a)
      staleRead :=
    ⟨⟨trivial, trivial⟩, fun _ _ => ⟨⟨trivial, trivial⟩, fun _ _ => ⟨⟨nofun, nofun⟩,
      fun _ _ => trivial⟩⟩⟩
  have hanswers : ((System.initial.after staleRead).bind fun s => (s.transactions.get 0).map
      fun transaction => transaction.session.answers) = some [.reading .undefined] := rfl
  obtain ⟨s, hs, hopen⟩ := Option.bind_eq_some_iff.mp hanswers
  obtain ⟨transaction, hget, hreading⟩ := Option.map_eq_some_iff.mp hopen
  exact ⟨s, transaction, hs, hget, hreading,
    open_transaction_answers s (System.Run.initial.after hmeets hs) 0 transaction hget⟩

/-- A host creates volume 4 after a transaction began, and the transaction writes it. -/
def lateWrite : List (Action Nat Nat) :=
  [.begin 0, .createVolume (.dict []), .perform 0 (.write (.kept 4) [7] (.data 1)), .commit 0]

/-- The run of a late write keeps to dictionary paths. -/
theorem lateWrite_meets : System.initial.MeetsAlong DictPaths lateWrite := by
  refine ⟨trivial, fun s₁ h₁ => ?_⟩
  obtain rfl := Option.some.inj h₁
  refine ⟨trivial, fun s₂ h₂ => ?_⟩
  obtain rfl := Option.some.inj h₂
  refine ⟨fun transaction ht edit he _ value hvalue => ?_, fun s₃ h₃ => ?_⟩
  · -- the transaction's snapshot lacks the volume
    cases ht
    obtain rfl := Sum.inl.inj he
    exact absurd hvalue nofun
  obtain rfl := Option.some.inj h₃
  refine ⟨fun transaction ht volume => ?_, fun _ _ => trivial⟩
  cases ht
  refine ⟨fun hv _ value hvalue => ?_, trivial⟩
  obtain rfl : 4 = volume := hv
  cases hvalue
  exact nofun

/-- The transaction commits, and its write is lost: the volume stays empty, while in the serial
run it holds the write. -/
theorem lost_write : ∃ s : System Nat Nat, s.Run DictPaths ∧
    s.log.length = 2 ∧ s.store.versions.get 4 = some (.dict []) ∧
    replayLog initialContents s.log 4 = some (.dict [(7, .data 1)]) := by
  have hafter : ((System.initial.after lateWrite).map fun s =>
      (s.log.length, s.store.versions.get 4, replayLog initialContents s.log 4)) =
      some (2, some (.dict []), some (.dict [(7, .data 1)])) := rfl
  obtain ⟨s, hs, heq⟩ := Option.map_eq_some_iff.mp hafter
  simp only [Prod.mk.injEq] at heq
  exact ⟨s, System.Run.initial.after lateWrite_meets hs, heq⟩

end Sample

end Glam.Store
