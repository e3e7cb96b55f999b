import Glam.Lib.Table
import Glam.Store.Edit

/-!
# Journals

A transaction works on a journal: the snapshot it began from, drafts of the volumes it has written,
and its edits in order. This module translates `StoreJournal` of `store.rs` and the operations a
transaction performs on it, with branches, for concurrent work within one transaction, and their
merge.

A journal and its branches share one observation index behind a lock, which only ever takes in
addresses and says nothing back until the commit. So the operations here return the address they
have it observe, if any, and whoever runs the transaction keeps the index. The strategy is the exact
one: the index is a set of addresses of which none is a prefix of another.

The values of volumes are kept by the volumes' cells, which a collector clears when nothing reaches
them. The model has no collector, so a version is always readable, but it does keep track of the
cells a journal holds, since a commit installs nothing for a volume whose cell the journal lacks.
-/

namespace Glam.Store

/-- The keys the runtime makes for itself. -/
class StoreKeys (K : Type) where
  virtualNamespace : K
  promiseNamespace : K
  number : Nat → K

/-- Numbers serve as keys where their form does not matter. -/
instance : StoreKeys Nat := ⟨0, 1, id⟩

variable {K A : Type} [DecidableEq K]

/-- Immutable state captured at the beginning of a transaction. `kept` are the volumes whose cells
the store keeps. -/
structure StoreSnapshot (K A : Type) where
  revision : Nat
  kept : Finset VolumeId
  versions : Table VolumeId (Value K A)

/-- A branch of a journal: how many edits the journal held at the fork, and what the branch read of
the transaction's state at the fork. -/
structure Branch (K : Type) where
  base : Nat
  reads : List (ConflictAddress K)

/-- Ordered edits accumulated by one optimistic transaction. `views` are the drafts of the volumes
it has written, and `cells` the volumes it keeps until it ends. -/
structure StoreJournal (K A : Type) where
  snapshot : StoreSnapshot K A
  views : Table VolumeId (Value K A)
  cells : Finset VolumeId
  edits : List (StoreEdit K A)
  branch : Option (Branch K)

/-- The read index of the exact strategy. -/
abbrev ObservationIndex (K : Type) := Finset (ConflictAddress K)

namespace ObservationIndex

/-- Notes a read. An address below one that was read already adds nothing. -/
def observe (index : ObservationIndex K) (address : ConflictAddress K) : ObservationIndex K :=
  TreeOrder.cover ConflictAddress.IsPrefixOf index address

/-- Whether a change at `changed` may conflict with what was read. -/
def MayConflict (index : ObservationIndex K) (changed : ConflictAddress K) : Prop :=
  ∃ read ∈ index, read.Overlaps changed

instance (index : ObservationIndex K) (changed : ConflictAddress K) :
    Decidable (index.MayConflict changed) :=
  inferInstanceAs (Decidable (∃ _ ∈ index, _))

theorem mayConflict_observe (index : ObservationIndex K) (address changed : ConflictAddress K) :
    (index.observe address).MayConflict changed ↔
      address.Overlaps changed ∨ index.MayConflict changed :=
  TreeOrder.exists_overlap_cover ConflictAddress.isPrefixOf_treeOrder index address changed

end ObservationIndex

namespace StoreJournal

/-- The journal of a transaction at its start. -/
def new (snapshot : StoreSnapshot K A) : StoreJournal K A :=
  ⟨snapshot, ∅, ∅, [], none⟩

variable (journal : StoreJournal K A)

/-- The value of `volume` with this journal's writes, or nothing where the volume does not
exist. -/
def valueAt (volume : VolumeId) : Option (Value K A) :=
  match journal.views.get volume with
  | some draft => some draft
  | none => journal.snapshot.versions.get volume

/-- Keeps `volume` until this journal's transaction ends. -/
def keepVolume (volume : VolumeId) : StoreJournal K A :=
  { journal with cells := insert volume journal.cells }

/-- Whether the journal has a cell for `volume`: one it keeps, or its snapshot version's. -/
def hasVolumeCell (volume : VolumeId) : Bool :=
  decide (volume ∈ journal.cells) || (journal.snapshot.versions.get volume).isSome

/-- Records `edit`, applying it to the volume's view where the volume exists, and keeping the
volume's cell. -/
def pushEdit (volume : VolumeId) (edit : StoreEdit K A) : StoreJournal K A :=
  match journal.valueAt volume with
  | some current =>
    let kept := if journal.hasVolumeCell volume then journal.keepVolume volume else journal
    { kept with
      views := kept.views.set volume (applyEdit current edit)
      edits := kept.edits ++ [edit] }
  | none => { journal with edits := journal.edits ++ [edit] }

/-- Performs an edit made elsewhere on this journal. -/
def replay (edit : StoreEdit K A) : StoreJournal K A :=
  match edit with
  | .set _ none | .rewrite _ none | .resolve _ _ _ =>
    { journal with edits := journal.edits ++ [edit] }
  | .set address (some _) | .rewrite address (some _) | .remove address =>
    journal.pushEdit address.volume edit
  | .create volume initial =>
    { journal with
      views := journal.views.set volume initial
      cells := insert volume journal.cells
      edits := journal.edits ++ [edit] }

/-- The journal's branch with a read at `path` in `volume` recorded. A branch's read depends on the
transaction's state at the fork, which the branch's own edits alone may cover. -/
def branchWithRead (volume : VolumeId) (path : List K) : Option (Branch K) :=
  journal.branch.map fun branch =>
    { branch with
      reads := branch.reads ++
        ((dependency (journal.edits.drop branch.base) volume path).map fun read =>
          ⟨volume, read⟩).toList }

/-- Records the portion of the snapshot needed by a read at `path` in `volume`. Returns what it
has the index observe, which is nothing when the journal's own edits cover the read. -/
def observeReadById (volume : VolumeId) (path : List K) :
    StoreJournal K A × Option (ConflictAddress K) :=
  ({ journal with branch := journal.branchWithRead volume path },
    if (journal.snapshot.versions.get volume).isNone then some ⟨volume, path⟩
    else (dependency journal.edits volume path).map fun read => ⟨volume, read⟩)

/-- A branch of the journal, which notes where it began and what it reads of the journal. -/
def fork : StoreJournal K A :=
  { journal with branch := some ⟨journal.edits.length, []⟩ }

/-- `edits.get(start..end)`. -/
def slice (edits : List (StoreEdit K A)) (start stop : Nat) : Option (List (StoreEdit K A)) :=
  if start ≤ stop ∧ stop ≤ edits.length then some ((edits.take stop).drop start) else none

/-- What `merge_branch` adds to the reads of an enclosing branch: what the merged branch read, which
the journal's own edits before the fork may cover or widen, as for a read of its own. -/
def inheritReads (base : Nat) (reads : List (ConflictAddress K)) : Option (Branch K) :=
  journal.branch.map fun own =>
    let edits := (slice journal.edits own.base base).getD []
    { own with
      reads := own.reads ++ reads.filterMap fun read =>
        (dependency edits read.volume read.path).map fun path => ⟨read.volume, path⟩ }

/-- Merges `branch`, a branch of this journal, as if its work ran now: its edits replay onto this
journal. It fails, merging nothing, when the branch read what this journal wrote after the fork.
Returns whether it merged. -/
def mergeBranch (journal branch : StoreJournal K A) : StoreJournal K A × Bool :=
  match branch.branch with
  -- only a branch merges into its journal
  | none => (journal, false)
  | some ⟨base, reads⟩ =>
    match slice journal.edits base journal.edits.length with
    | none => (journal, false)
    | some later =>
      if ∃ read ∈ reads, ∃ edit ∈ later, edit.address.Overlaps read then (journal, false)
      else
        let merged := { journal with
          branch := journal.inheritReads base reads
          cells := journal.cells ∪ branch.cells }
        ((branch.edits.drop base).foldl replay merged, true)

end StoreJournal

/-! ### The operations of a transaction -/

/-- How an operation names its volume. -/
inductive VolumeTarget
  /-- one of the store's own volumes: the shared heap or the environment -/
  | store (volume : VolumeId)
  /-- a host's protected volume, by its identity, which the store keeps until the host revokes it -/
  | kept (volume : VolumeId)
  /-- a volume's handle, which keeps the volume -/
  | handle (volume : VolumeId)
deriving DecidableEq

namespace VolumeTarget

/-- The volume that is meant, however it was named. -/
def id : VolumeTarget → VolumeId
  | .store volume => volume
  | .kept volume => volume
  | .handle volume => volume

/-- Reads the whole volume within `journal`'s transaction. -/
def readIn (target : VolumeTarget) (journal : StoreJournal K A) :
    StoreJournal K A × Option (Value K A) :=
  match target with
  | .store volume => (journal, journal.valueAt volume)
  | .kept volume =>
    if volume ∈ journal.snapshot.kept then
      (journal.keepVolume volume, journal.valueAt volume)
    else (journal, none)
  | .handle volume => (journal.keepVolume volume, journal.valueAt volume)

/-- Edits the volume within `journal`'s transaction: a host's volume by its identity, blindly. -/
def editIn (target : VolumeTarget) (journal : StoreJournal K A) (edit : StoreEdit K A) :
    StoreJournal K A :=
  match target with
  | .store volume => journal.pushEdit volume edit
  | .kept volume => journal.pushEdit volume edit
  | .handle volume => (journal.keepVolume volume).pushEdit volume edit

end VolumeTarget

/-- What a transaction asks of its journal. -/
inductive JournalOp (K A : Type)
  | read (target : VolumeTarget) (path : List K)
  | write (target : VolumeTarget) (path : List K) (value : Value K A)
  | rewrite (target : VolumeTarget) (path : List K) (updater : Value K A → Value K A)
  | remove (target : VolumeTarget) (path : List K)
  /-- allocates the volume whose identity was reserved for it -/
  | create (volume : VolumeId) (initial : Value K A)
  | readVirtual (path : List K)
  | writeVirtual (path : List K)
  | rewriteVirtual (path : List K)
  | readPromise (promise : PromiseId)
  | resolve (promise : PromiseId) (resolution : Resolution K A)

/-- What an operation answers. -/
inductive Answer (K A : Type)
  | unit
  | missingVolume
  | reading (reading : Reading K A)

variable [StoreKeys K]

/-- A promise's place in the runtime's volume. -/
def promisePath (promise : PromiseId) : List K :=
  [StoreKeys.promiseNamespace, StoreKeys.number promise]

/-- A virtual resource's place in the runtime's volume. -/
def virtualKeys (path : List K) : List K := StoreKeys.virtualNamespace :: path

/-- Performs an operation: the journal after it, the address it observes and its answer. -/
def JournalOp.perform (op : JournalOp K A) (journal : StoreJournal K A) :
    StoreJournal K A × Option (ConflictAddress K) × Answer K A :=
  match op with
  | .read target path =>
    let (journal, observed) := journal.observeReadById target.id path
    let (journal, contents) := target.readIn journal
    (journal, observed,
      match contents with
      | none => .missingVolume
      | some contents => .reading (pathRead contents path))
  | .write target path value =>
    (target.editIn journal (.set ⟨target.id, path⟩ (some value)), none, .unit)
  | .rewrite target path updater =>
    (target.editIn journal (.rewrite ⟨target.id, path⟩ (some updater)), none, .unit)
  | .remove target path => (target.editIn journal (.remove ⟨target.id, path⟩), none, .unit)
  | .create volume initial => (journal.replay (.create volume initial), none, .unit)
  | .readVirtual path =>
    let (journal, observed) := journal.observeReadById runtimeVolume (virtualKeys path)
    (journal, observed, .unit)
  | .writeVirtual path =>
    (journal.replay (.set ⟨runtimeVolume, virtualKeys path⟩ none), none, .unit)
  | .rewriteVirtual path =>
    (journal.replay (.rewrite ⟨runtimeVolume, virtualKeys path⟩ none), none, .unit)
  | .readPromise promise =>
    let (journal, observed) := journal.observeReadById runtimeVolume (promisePath promise)
    (journal, observed, .unit)
  | .resolve promise resolution =>
    (journal.replay (.resolve ⟨runtimeVolume, promisePath promise⟩ promise resolution), none,
      .unit)

end Glam.Store
