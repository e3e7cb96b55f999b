import Glam.Store.Journal
import Mathlib.Data.Finset.Union

/-!
# Conflict-analysis strategies

A strategy says how a transaction summarises what it reads, and which committed changes then count
as conflicts. This module translates the three strategies of `store/conflict.rs`.

* The exact strategy keeps the least addresses read (`ObservationIndex`): a read covered by a
  shorter one is dropped, and a shorter one drops those it covers.
* The fingerprint strategy keeps no address at all, but two sets of hashes: one of what was read,
  and one of every prefix of what was read. A change conflicts when its own hash is among the
  latter, or that of one of its prefixes among the former.
* The coarse strategy keeps one bit: something was read.

What a strategy has to meet is `Conservative`: a change that overlaps something read, in whatever
order the reads arrived, is reported. `Exact` is that, and no other report. Both follow from what
one `observe` does to the reports (`exact_of_observe`, `conservative_of_observe`), by induction on
the reads; nothing is assumed of the hash beyond its being a function, since two addresses of which
one is a prefix of the other share an address both sets know of.
-/

namespace Glam.Store

variable {K : Type}

/-! ### Addresses and their prefixes -/

namespace ConflictAddress

/-- The address itself and the addresses above it, from the volume's root down. -/
def prefixes (address : ConflictAddress K) : List (ConflictAddress K) :=
  (List.range (address.path.length + 1)).map fun length =>
    ⟨address.volume, address.path.take length⟩

theorem mem_prefixes {a b : ConflictAddress K} : a ∈ b.prefixes ↔ a.IsPrefixOf b := by
  constructor
  · intro h
    obtain ⟨length, -, rfl⟩ := List.mem_map.mp h
    exact ⟨rfl, List.take_prefix _ _⟩
  · rintro ⟨hvolume, hpath⟩
    refine List.mem_map.mpr ⟨a.path.length, ?_, ?_⟩
    · exact List.mem_range.mpr (Nat.lt_succ_of_le hpath.length_le)
    · rw [← hvolume, ← List.prefix_iff_eq_take.mp hpath]

end ConflictAddress

/-! ### Strategies -/

/-- How the reads of one optimistic transaction are summarised. -/
structure ConflictAnalysisStrategy (K : Type) where
  Index : Type
  begin : Index
  observe : Index → ConflictAddress K → Index
  mayConflict : Index → ConflictAddress K → Bool

namespace ConflictAnalysisStrategy

variable (strategy : ConflictAnalysisStrategy K)

/-- The index of a transaction that read `observed`, in this order. -/
def observeAll (observed : List (ConflictAddress K)) : strategy.Index :=
  observed.foldl strategy.observe strategy.begin

@[simp] theorem observeAll_nil (strategy : ConflictAnalysisStrategy K) :
    strategy.observeAll [] = strategy.begin := rfl

@[simp] theorem observeAll_concat (strategy : ConflictAnalysisStrategy K)
    (observed : List (ConflictAddress K)) (address : ConflictAddress K) :
    strategy.observeAll (observed ++ [address]) =
      strategy.observe (strategy.observeAll observed) address := by
  rw [observeAll, List.foldl_append]
  rfl

/-- A change is reported if it overlaps something read. -/
def Conservative : Prop :=
  ∀ observed changed, (∃ read ∈ observed, ConflictAddress.Overlaps read changed) →
    strategy.mayConflict (strategy.observeAll observed) changed = true

/-- A change is reported if and only if it overlaps something read. -/
def Exact : Prop :=
  ∀ observed changed, strategy.mayConflict (strategy.observeAll observed) changed = true ↔
    ∃ read ∈ observed, ConflictAddress.Overlaps read changed

variable {strategy : ConflictAnalysisStrategy K}

/-- A strategy is conservative if observing an address adds the changes that overlap it to those
reported, and takes none away. -/
theorem conservative_of_observe
    (h : ∀ index address changed,
      address.Overlaps changed ∨ strategy.mayConflict index changed = true →
        strategy.mayConflict (strategy.observe index address) changed = true) :
    strategy.Conservative := by
  intro observed changed
  induction observed using List.reverseRecOn with
  | nil =>
    rintro ⟨read, hread, -⟩
    cases hread
  | append_singleton observed address ih =>
    rintro ⟨read, hread, hoverlaps⟩
    rw [observeAll_concat]
    apply h
    rcases List.mem_append.mp hread with hearlier | hlast
    · exact .inr (ih ⟨read, hearlier, hoverlaps⟩)
    · obtain rfl := List.mem_singleton.mp hlast
      exact .inl hoverlaps

/-- A strategy is exact if it reports nothing at first, and observing an address adds just the
changes that overlap it. -/
theorem exact_of_observe (hbegin : ∀ changed, strategy.mayConflict strategy.begin changed = false)
    (h : ∀ index address changed,
      strategy.mayConflict (strategy.observe index address) changed = true ↔
        address.Overlaps changed ∨ strategy.mayConflict index changed = true) :
    strategy.Exact := by
  intro observed changed
  refine ⟨?_, conservative_of_observe (fun index address changed => (h index address changed).mpr)
    observed changed⟩
  induction observed using List.reverseRecOn with
  | nil =>
    intro hreported
    rw [observeAll_nil, hbegin] at hreported
    cases hreported
  | append_singleton observed address ih =>
    intro hreported
    rw [observeAll_concat] at hreported
    rcases (h _ _ _).mp hreported with hoverlaps | hearlier
    · exact ⟨address, by simp, hoverlaps⟩
    · obtain ⟨read, hread, hoverlaps⟩ := ih hearlier
      exact ⟨read, List.mem_append_left _ hread, hoverlaps⟩

end ConflictAnalysisStrategy

/-! ### The exact strategy -/

/-- Exact path-overlap analysis, the reference implementation. -/
def exactConflictAnalysis [DecidableEq K] : ConflictAnalysisStrategy K where
  Index := ObservationIndex K
  begin := ∅
  observe := ObservationIndex.observe
  mayConflict index changed := decide (index.MayConflict changed)

theorem exactConflictAnalysis_exact [DecidableEq K] :
    (exactConflictAnalysis (K := K)).Exact := by
  apply ConflictAnalysisStrategy.exact_of_observe
  · intro changed
    simp [exactConflictAnalysis, ObservationIndex.MayConflict]
  · intro index address changed
    simp only [exactConflictAnalysis, decide_eq_true_iff]
    exact ObservationIndex.mayConflict_observe index address changed

/-! ### The fingerprint strategy -/

/-- Hashes of the addresses read, and of every prefix of one. -/
structure FingerprintObservationIndex where
  completeReads : Finset UInt64
  readPrefixes : Finset UInt64

variable {changed : ConflictAddress K}

namespace FingerprintObservationIndex

variable (hashOne : ConflictAddress K → UInt64)

/-- Notes a read by the fingerprints of its address and of all above it. -/
def observe (index : FingerprintObservationIndex) (address : ConflictAddress K) :
    FingerprintObservationIndex where
  completeReads := insert (hashOne address) index.completeReads
  readPrefixes := index.readPrefixes ∪ (address.prefixes.map hashOne).toFinset

/-- Whether a change may be of something that was read. -/
def mayConflict (index : FingerprintObservationIndex) (changed : ConflictAddress K) : Bool :=
  decide (hashOne changed ∈ index.readPrefixes) ||
    changed.prefixes.any fun above => decide (hashOne above ∈ index.completeReads)

variable {hashOne}

variable {index : FingerprintObservationIndex}

theorem mayConflict_eq_true_iff :
    index.mayConflict hashOne changed = true ↔
      hashOne changed ∈ index.readPrefixes ∨
        ∃ above, above.IsPrefixOf changed ∧ hashOne above ∈ index.completeReads := by
  simp [mayConflict, ConflictAddress.mem_prefixes]

/-- A change at or above the address read finds its hash among those of the address's prefixes; one
at or below it has the address among its own prefixes. -/
theorem mayConflict_observe_of_overlaps (index : FingerprintObservationIndex)
    {address : ConflictAddress K} (h : address.Overlaps changed) :
    (index.observe hashOne address).mayConflict hashOne changed = true := by
  rw [mayConflict_eq_true_iff]
  rcases h with hbelow | habove
  · right
    exact ⟨address, hbelow, Finset.mem_insert_self _ _⟩
  · left
    apply Finset.mem_union_right
    exact List.mem_toFinset.mpr
      (List.mem_map_of_mem (ConflictAddress.mem_prefixes.mpr habove))

theorem mayConflict_observe_of_mayConflict (address : ConflictAddress K)
    (h : index.mayConflict hashOne changed = true) :
    (index.observe hashOne address).mayConflict hashOne changed = true := by
  rw [mayConflict_eq_true_iff] at h ⊢
  rcases h with hprefix | ⟨above, habove, hread⟩
  · exact .inl (Finset.mem_union_left _ hprefix)
  · exact .inr ⟨above, habove, Finset.mem_insert_of_mem hread⟩

end FingerprintObservationIndex

/-- Conservative fingerprint analysis. `hashOne` is the transaction's randomly keyed hash of
addresses. -/
def fingerprintConflictAnalysis (hashOne : ConflictAddress K → UInt64) :
    ConflictAnalysisStrategy K where
  Index := FingerprintObservationIndex
  begin := ⟨∅, ∅⟩
  observe := FingerprintObservationIndex.observe hashOne
  mayConflict := FingerprintObservationIndex.mayConflict hashOne

theorem fingerprintConflictAnalysis_conservative (hashOne : ConflictAddress K → UInt64) :
    (fingerprintConflictAnalysis hashOne).Conservative := by
  apply ConflictAnalysisStrategy.conservative_of_observe
  intro index address changed h
  rcases h with hoverlaps | hearlier
  · exact FingerprintObservationIndex.mayConflict_observe_of_overlaps index hoverlaps
  · exact FingerprintObservationIndex.mayConflict_observe_of_mayConflict address hearlier

/-! ### The coarse strategy -/

/-- Coarse analysis: once a transaction reads anything, every committed write conflicts. -/
def coarseConflictAnalysis : ConflictAnalysisStrategy K where
  Index := Bool
  begin := false
  observe _ _ := true
  mayConflict index _ := index

theorem coarseConflictAnalysis_conservative : (coarseConflictAnalysis (K := K)).Conservative :=
  ConflictAnalysisStrategy.conservative_of_observe fun _ _ _ _ => rfl

/-! ### The strategies compared -/

theorem ConflictAddress.overlaps_iff {read : ConflictAddress K} :
    read.Overlaps changed ↔ read.volume = changed.volume ∧
      (read.path <+: changed.path ∨ changed.path <+: read.path) := by
  constructor
  · rintro (⟨hvolume, hpath⟩ | ⟨hvolume, hpath⟩)
    · exact ⟨hvolume, .inl hpath⟩
    · exact ⟨hvolume.symm, .inr hpath⟩
  · rintro ⟨hvolume, hpath | hpath⟩
    · exact .inl ⟨hvolume, hpath⟩
    · exact .inr ⟨hvolume.symm, hpath⟩

/-- **No strategy misses a conflict, and the exact one reports no other.** Whatever addresses were
observed, in whatever order, the exact index reports a change exactly when an observed address of
the same volume is a prefix of the changed one or extends it, and the fingerprint and the coarse
index report it then too. -/
theorem conflictAnalysis_reports [DecidableEq K] (hashOne : ConflictAddress K → UInt64)
    (observed : List (ConflictAddress K)) (changed : ConflictAddress K) :
    let conflicting := ∃ read ∈ observed, read.volume = changed.volume ∧
      (read.path <+: changed.path ∨ changed.path <+: read.path)
    (exactConflictAnalysis.mayConflict (exactConflictAnalysis.observeAll observed) changed = true ↔
        conflicting) ∧
      (conflicting → (fingerprintConflictAnalysis hashOne).mayConflict
        ((fingerprintConflictAnalysis hashOne).observeAll observed) changed = true) ∧
      (conflicting →
        coarseConflictAnalysis.mayConflict (coarseConflictAnalysis.observeAll observed) changed =
          true) := by
  intro conflicting
  have hiff : (∃ read ∈ observed, ConflictAddress.Overlaps read changed) ↔ conflicting := by
    simp only [conflicting, ConflictAddress.overlaps_iff]
  refine ⟨(exactConflictAnalysis_exact observed changed).trans hiff, ?_, ?_⟩
  · intro h
    exact fingerprintConflictAnalysis_conservative hashOne observed changed (hiff.mpr h)
  · intro h
    exact coarseConflictAnalysis_conservative observed changed (hiff.mpr h)

/-- Colliding hashes add a conflict: a read of one key then conflicts with a change of another. -/
example :
    (fingerprintConflictAnalysis fun _ : ConflictAddress Nat => 0).mayConflict
        ((fingerprintConflictAnalysis fun _ => 0).observeAll [⟨heapVolume, [0]⟩])
        ⟨heapVolume, [1]⟩ = true ∧
      exactConflictAnalysis.mayConflict
        (exactConflictAnalysis.observeAll [⟨heapVolume, [0]⟩])
        (⟨heapVolume, [1]⟩ : ConflictAddress Nat) = false := by
  decide

end Glam.Store
