import Glam.Store.Commit
import Glam.Store.Merge

/-!
# The store at work

Transactions begin from snapshots, read and edit their journals, and try to commit, in any
interleaving, while hosts create, revoke and replace volumes (`System.step`). The specification is
the serial run: what was committed, one after another in the order of the commits, each transaction
performing its operations directly on the volumes (`replayLog`).

A host may create a volume after a transaction's snapshot and hand its identity to the transaction.
`KnowsVolumes` says that the transaction does not edit such a volume by that identity.
-/

namespace Glam.Store

variable {K A : Type} [DecidableEq K] [StoreKeys K]

/-! ### The serial run -/

/-- What each volume holds. -/
abbrev Contents (K A : Type) := VolumeId → Option (Value K A)

variable (contents : Contents K A)

/-- What an operation answers when it is performed on the volumes themselves. -/
def serialAnswer : JournalOp K A → Answer K A
  | .read target path =>
    match readVolume (contents target.id) path with
    | none => .missingVolume
    | some reading => .reading reading
  | _ => .unit

/-- The volumes after an operation is performed on them. -/
def serialApply (op : JournalOp K A) : Contents K A := fun volume =>
  match op.effect with
  | .inl edit => applyOn volume (contents volume) edit
  | .inr _ => contents volume

/-- Performs the operations of a transaction on the volumes, one after the other. -/
def serialRun (contents : Contents K A) : List (JournalOp K A) → Contents K A × List (Answer K A)
  | [] => (contents, [])
  | op :: ops =>
    ((serialRun (serialApply contents op) ops).1,
      serialAnswer contents op :: (serialRun (serialApply contents op) ops).2)

/-- What was committed: a transaction with the answers it got, or a host's change. -/
inductive LogEntry (K A : Type)
  | transaction (ops : List (JournalOp K A)) (answers : List (Answer K A))
  | createVolume (volume : VolumeId) (initial : Value K A)
  | revokeVolume (volume : VolumeId)
  | replaceRoot (root : Value K A)

/-- The volumes after a logged change is made to them. -/
def LogEntry.apply : LogEntry K A → Contents K A
  | .transaction ops _ => (serialRun contents ops).1
  | .createVolume volume initial => Function.update contents volume (some initial)
  | .revokeVolume volume => Function.update contents volume none
  | .replaceRoot root => Function.update contents heapVolume (some root)

/-- The volumes after everything logged, in the order of the log. -/
def replayLog (log : List (LogEntry K A)) : Contents K A :=
  log.foldl LogEntry.apply contents

/-- Every logged transaction got the answers of the serial run. -/
def AnswersAgree (contents : Contents K A) : List (LogEntry K A) → Prop
  | [] => True
  | entry :: log =>
    (∀ ops answers, entry = .transaction ops answers → (serialRun contents ops).2 = answers) ∧
      AnswersAgree (entry.apply contents) log

/-! ### The system -/

/-- An open transaction: its journal at work, what it has done, and its read index. -/
structure Transaction (K A : Type) where
  ops : List (JournalOp K A)
  session : Session K A
  index : ObservationIndex K

/-- The store, the open transactions, and what was committed so far. -/
structure System (K A : Type) where
  store : ReflectionStore K A
  transactions : Table Nat (Transaction K A)
  log : List (LogEntry K A)

/-- What happens to the store: the steps of transactions, and those from outside of any. -/
inductive Action (K A : Type)
  | begin (t : Nat)
  | perform (t : Nat) (op : JournalOp K A)
  | commit (t : Nat)
  | abandon (t : Nat)
  | createVolume (initial : Value K A)
  | revokeVolume (volume : VolumeId)
  | replaceRoot (root : Value K A)
  | allocatePromise (promise : PromiseId)

/-- How operations name volumes: the store's own by what they are, a host's by an identity that a
host's creation gave, others by a handle of a volume whose identity is reserved. -/
def VolumeTarget.Known (store : ReflectionStore K A) : VolumeTarget → Prop
  | .store volume => volume = heapVolume ∨ volume = environmentVolume
  | .kept volume => volume ≠ runtimeVolume ∧ (volume ∈ store.kept ∨ volume ∈ store.revoked)
  | .handle volume => volume ≠ runtimeVolume ∧ volume < store.nextVolume

instance (store : ReflectionStore K A) : (target : VolumeTarget) → Decidable (target.Known store)
  | .store _ => inferInstanceAs (Decidable (_ ∨ _))
  | .kept _ => inferInstanceAs (Decidable (_ ∧ _))
  | .handle _ => inferInstanceAs (Decidable (_ ∧ _))

/-- What a transaction can ask of its journal: a removal names a path, a creation takes the next
identity, and a promise is resolved once and while it is pending. -/
def JournalOp.Enabled (store : ReflectionStore K A) (journal : StoreJournal K A) :
    JournalOp K A → Prop
  | .read target _ => target.Known store
  | .write target _ _ => target.Known store
  | .rewrite target _ _ => target.Known store
  | .remove target path => target.Known store ∧ path ≠ []
  | .create volume _ => volume = store.nextVolume
  | .resolve promise _ => promise ∈ store.pending ∧ promise ∉ resolvedPromises journal.edits
  | _ => True

instance (store : ReflectionStore K A) (journal : StoreJournal K A) :
    (op : JournalOp K A) → Decidable (op.Enabled store journal)
  | .read target _ => inferInstanceAs (Decidable (target.Known store))
  | .write target _ _ => inferInstanceAs (Decidable (target.Known store))
  | .rewrite target _ _ => inferInstanceAs (Decidable (target.Known store))
  | .remove target _ => inferInstanceAs (Decidable (target.Known store ∧ _))
  | .create _ _ => inferInstanceAs (Decidable (_ = _))
  | .resolve _ _ => inferInstanceAs (Decidable (_ ∧ _))
  | .readVirtual _ => inferInstanceAs (Decidable True)
  | .writeVirtual _ => inferInstanceAs (Decidable True)
  | .rewriteVirtual _ => inferInstanceAs (Decidable True)
  | .readPromise _ => inferInstanceAs (Decidable True)

/-- The identity a creation takes is gone from then on, whether or not the transaction commits. -/
def ReflectionStore.reserveFor (store : ReflectionStore K A) : JournalOp K A → ReflectionStore K A
  | .create _ _ => { store with nextVolume := store.nextVolume + 1 }
  | _ => store

/-- A transaction after one more operation. -/
def Transaction.perform (transaction : Transaction K A) (op : JournalOp K A) : Transaction K A :=
  { ops := transaction.ops ++ [op]
    session := transaction.session.perform op
    index := ((op.perform transaction.session.journal).2.1.toList).foldl
      ObservationIndex.observe transaction.index }

/-- One step of the system, where it is possible. A commit that is refused leaves everything as it
is: the transaction may be abandoned and run again. -/
def System.step (s : System K A) : Action K A → Option (System K A)
  | .begin t =>
    match s.transactions.get t with
    | some _ => none
    | none => some { s with
        transactions := s.transactions.set t ⟨[], ⟨.new s.store.snapshot, [], []⟩, ∅⟩ }
  | .perform t op =>
    match s.transactions.get t with
    | none => none
    | some transaction =>
      if op.Enabled s.store transaction.session.journal then
        some { s with
          store := s.store.reserveFor op
          transactions := s.transactions.set t (transaction.perform op) }
      else none
  | .commit t =>
    match s.transactions.get t with
    | none => none
    | some transaction =>
      match s.store.tryCommit transaction.session.journal transaction.index with
      | (store, .committed) => some
          { store := store
            transactions := s.transactions.remove t
            log := s.log ++ [.transaction transaction.ops transaction.session.answers] }
      | (_, _) => some s
  | .abandon t => some { s with transactions := s.transactions.remove t }
  | .createVolume initial => some
      { s with
        store := s.store.createVolume initial
        log := s.log ++ [.createVolume s.store.nextVolume initial] }
  | .revokeVolume volume =>
    -- a host revokes what it created and has not revoked yet
    if volume ∈ s.store.kept ∧ volume ≠ heapVolume ∧ volume ≠ runtimeVolume ∧
        volume ≠ environmentVolume then
      some { s with
        store := s.store.revokeVolume volume
        log := s.log ++ [.revokeVolume volume] }
    else none
  | .replaceRoot root => some
      { s with
        store := s.store.replaceRoot root
        log := s.log ++ [.replaceRoot root] }
  | .allocatePromise promise => some
      { s with store := { s.store with pending := insert promise s.store.pending } }

/-- The store at its start, without a transaction. -/
def System.initial : System K A := ⟨.new, ∅, []⟩

/-- The states of runs whose actions all meet `P`. -/
inductive System.Run (P : System K A → Action K A → Prop) : System K A → Prop
  | initial : Run P .initial
  | step {s s' : System K A} (a : Action K A) :
      Run P s → P s a → s.step a = some s' → Run P s'

/-- Everything on the way along an edited path is a dictionary or undefined, in the transaction's
own view when it makes the edit and in the store's volumes when it commits. -/
def DictPaths (s : System K A) : Action K A → Prop
  | .perform t op => ∀ transaction ∈ s.transactions.get t, ∀ edit, op.effect = .inl edit →
      edit.writesData → ∀ value ∈ transaction.session.journal.valueAt edit.address.volume,
      edit.PathOk value
  | .commit t => ∀ transaction ∈ s.transactions.get t, ∀ volume,
      PathsOk volume (s.store.versions.get volume) transaction.session.journal.edits
  | _ => True

/-- An edit by identity names a volume that the transaction's snapshot has. -/
def KnowsVolumes (s : System K A) : Action K A → Prop
  | .perform t op => ∀ transaction ∈ s.transactions.get t, ∀ edit volume,
      op.effect = .inl edit → op.target = some (.kept volume) →
      (transaction.session.journal.snapshot.versions.get volume).isSome
  | _ => True

/-! ### The serial run in closed form -/

theorem serialApply_eq (contents : Contents K A) (op : JournalOp K A) :
    serialApply contents op =
      fun volume => editsOn volume (contents volume) op.effect.getLeft?.toList := by
  funext volume
  unfold serialApply
  cases op.effect <;> rfl

theorem serialRun_fst (contents : Contents K A) (ops : List (JournalOp K A)) :
    (serialRun contents ops).1 =
      fun volume => editsOn volume (contents volume) (editsOf ops) := by
  induction ops generalizing contents with
  | nil => rfl
  | cons op ops ih =>
    rw [serialRun, ih, serialApply_eq, ← List.singleton_append, editsOf_append, editsOf_singleton]
    funext volume
    rw [editsOn_append]

theorem serialRun_snd (contents : Contents K A) (ops : List (JournalOp K A)) :
    (serialRun contents ops).2 = (history [] ops).map fun event =>
      serialAnswer (fun volume => editsOn volume (contents volume) event.2) event.1 := by
  induction ops generalizing contents with
  | nil => rfl
  | cons op ops ih =>
    rw [serialRun, ih, serialApply_eq, history, List.map_cons, List.nil_append]
    refine congrArg (serialAnswer contents op :: ·) ?_
    rw [history_eq_map op.effect.getLeft?.toList, List.map_map]
    refine List.map_congr_left fun event _ => ?_
    simp only [Function.comp_apply, editsOn_append]

theorem replayLog_concat (contents : Contents K A) (log : List (LogEntry K A))
    (entry : LogEntry K A) :
    replayLog contents (log ++ [entry]) = entry.apply (replayLog contents log) := by
  rw [replayLog, List.foldl_append]
  rfl

theorem answersAgree_concat {contents : Contents K A} {log : List (LogEntry K A)}
    {entry : LogEntry K A} (h : AnswersAgree contents log)
    (hentry : ∀ ops answers, entry = .transaction ops answers →
      (serialRun (replayLog contents log) ops).2 = answers) :
    AnswersAgree contents (log ++ [entry]) := by
  induction log generalizing contents with
  | nil => exact ⟨hentry, trivial⟩
  | cons first log ih => exact ⟨h.1, ih h.2 hentry⟩

end Glam.Store
