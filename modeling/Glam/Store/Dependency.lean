import Glam.Store.Run

/-!
# What reads depend on, whatever the volume holds

A read through a transaction's own edits leaves with the index what it depends on, or nothing where
the edits decide it. `readVolume_editsOn_congr` says that this is right where the edits find only
dictionaries and undefined values on their ways. This module asks what is left of it for volumes of
any shape.

Two contents of a volume are compared through one list of edits. An edit is blocked in one of them
if its path runs into a value that is no dictionary. A set that is blocked leaves nothing to read at
its path, where one that is not leaves its value; a removal that is blocked leaves a volume nobody
can read. Neither is recorded as a dependency, so a read can tell two contents apart that agree
wherever it is said to depend. This is the only way it can: dependencies are right for two contents,
after every edit and at every path, if and only if each set and each removal is blocked in both or
in neither (`dependencies_sound_iff`). Rewrites need no such condition, since a read below one
depends on the whole path of the rewrite.
-/

namespace Glam.Store

variable {K A : Type} [DecidableEq K]

variable {x y : Option (Value K A)} {edits : List (StoreEdit K A)} {edit : StoreEdit K A}

theorem blockedAlike_append {volume : VolumeId} {later : List (StoreEdit K A)} :
    BlockedAlike volume x y (edits ++ later) ↔
      BlockedAlike volume x y edits ∧
        BlockedAlike volume (editsOn volume x edits) (editsOn volume y edits) later := by
  induction edits generalizing x y with
  | nil => simp [BlockedAlike]
  | cons edit edits ih =>
    rw [List.cons_append, BlockedAlike, BlockedAlike, ih, editsOn_cons, editsOn_cons, and_assoc]

/-! ### One edit -/

/-- A set of a value, or a removal of one. -/
def StoreEdit.Decides (edit : StoreEdit K A) : Prop :=
  (∃ address value, edit = .set address (some value)) ∨
    ∃ address, edit = .remove address ∧ address.path ≠ []

/-- What is read at the path of a set or a removal tells whether it was blocked. -/
theorem read_applyEdit_self_eq_failed_iff {v : Value K A} (hedit : edit.Decides) :
    read (applyEdit v edit) edit.address.path = .failed ↔ edit.Blocked v := by
  rcases hedit with ⟨address, value, rfl⟩ | ⟨address, rfl, hpath⟩
  · simp only [StoreEdit.Blocked, StoreEdit.address, pathRead_eq]
    rw [applyEdit, applyValueAtPath_eq]
    by_cases hv : read v address.path = .failed
    · have hread := read_insertAt_append_of_failed value v [] hv
      rw [List.append_nil] at hread
      exact iff_of_true hread hv
    · have hread := read_insertAt_append value v [] hv
      rw [List.append_nil, read_nil] at hread
      rw [hread]
      exact iff_of_false (by simp) hv
  · simp only [StoreEdit.Blocked, StoreEdit.address, pathRead_eq]
    rw [applyEdit, removePath_eq v hpath]
    by_cases hv : read v address.path = .failed
    · rw [removeAt_of_failed hv]
      exact iff_of_true (read_error hpath) hv
    · have hread := read_removeAt_append hpath [] hv
      rw [List.append_nil] at hread
      rw [hread]
      exact iff_of_false (by simp) hv

/-- An edit whose path has no key is blocked nowhere. -/
theorem not_blocked_of_empty_path (h : edit.address.path = []) (v : Value K A) :
    ¬ edit.Blocked v := by
  have hread : ∀ {path : List K}, path = [] → pathRead v path ≠ .failed := by
    rintro path rfl
    simp [pathRead]
  cases edit with
  | set address value =>
    cases value with
    | none => exact fun hb => hb
    | some => exact hread h
  | remove => exact hread h
  | rewrite | create | resolve => exact fun hb => hb

/-! ### A sequence of edits -/

/-- A set or a removal decides what is read at its own path. -/
theorem dependency_concat_self (hedit : edit.Decides) (edits : List (StoreEdit K A)) :
    dependency (edits ++ [edit]) edit.address.volume edit.address.path = none := by
  rw [dependency_append, dependency, dependency]
  rcases hedit with ⟨address, value, rfl⟩ | ⟨address, rfl, -⟩ <;>
    simp [StoreEdit.dependencyStep, StoreEdit.address, ConflictAddress.IsPrefixOf]

/-- The last edit is blocked alike if what it leaves at its path reads alike. -/
theorem blocked_iff_of_readVolume {volume : VolumeId} (hvolume : edit.address.volume = volume)
    (h : ∀ path, dependency (edits ++ [edit]) volume path = none →
      readVolume (editsOn volume x (edits ++ [edit])) path =
        readVolume (editsOn volume y (edits ++ [edit])) path) :
    ∀ v ∈ editsOn volume x edits, ∀ w ∈ editsOn volume y edits,
      (edit.Blocked v ↔ edit.Blocked w) := by
  intro v hv w hw
  by_cases hedit : edit.Decides
  · have hdata : edit.writesData = true := by
      rcases hedit with ⟨address, value, rfl⟩ | ⟨address, rfl, -⟩ <;> rfl
    subst hvolume
    have hread := h edit.address.path (dependency_concat_self hedit edits)
    rw [editsOn_append, editsOn_append, hv, hw, editsOn_cons, editsOn_cons,
      applyOn_some ⟨rfl, hdata⟩, applyOn_some ⟨rfl, hdata⟩, readVolume_eq, readVolume_eq,
      editsOn_nil, editsOn_nil, Option.map_some, Option.map_some, Option.some.injEq] at hread
    rw [← read_applyEdit_self_eq_failed_iff hedit, ← read_applyEdit_self_eq_failed_iff hedit, hread]
  · -- no other edit is ever blocked
    have hnever : ∀ value, ¬ edit.Blocked value := by
      intro value hblocked
      cases edit with
      | set address new =>
        cases new with
        | none => exact hblocked
        | some new => exact hedit (.inl ⟨address, new, rfl⟩)
      | remove address =>
        have hempty : address.path = [] := by
          by_contra hne
          exact hedit (.inr ⟨address, rfl, hne⟩)
        exact not_blocked_of_empty_path (by exact hempty) value hblocked
      | rewrite | create | resolve => exact hblocked
    exact iff_of_false (hnever v) (hnever w)

/-! ### Transactions -/

/-- The journal of a transaction that made `edits`, from a snapshot in which `volume` holds
`contents`. -/
def journalOn (snapshot : StoreSnapshot K A) (volume : VolumeId) (contents : Value K A)
    (edits : List (StoreEdit K A)) : StoreJournal K A :=
  edits.foldl StoreJournal.replay
    (.new { snapshot with versions := snapshot.versions.set volume contents })

section

variable (snapshot : StoreSnapshot K A) (volume : VolumeId) (contents : Value K A)
  (edits : List (StoreEdit K A))

theorem journalOn_valueAt :
    (journalOn snapshot volume contents edits).valueAt volume =
      editsOn volume (some contents) edits := by
  induction edits using List.reverseRecOn with
  | nil => simp [journalOn, StoreJournal.new, StoreJournal.valueAt]
  | append_singleton edits edit ih =>
    rw [journalOn, foldl_replay_concat, StoreJournal.replay_valueAt, editsOn_append, ← ih]
    rfl

theorem journalOn_observed (path : List K) :
    ((journalOn snapshot volume contents edits).observeReadById volume path).2 =
      (dependency edits volume path).map fun read => ⟨volume, read⟩ := by
  rw [StoreJournal.observeReadById, journalOn, (foldl_replay_fields ..).1,
    (foldl_replay_fields ..).2.2]
  simp [StoreJournal.new]

end

/-- **When dependencies are right.** Take two contents of a volume, and the transaction that makes
`edits` on either. Then after any of its edits, every read returns the same on both if they agree at
the address it has the index observe, and whatever they hold if it has it observe none, exactly if
each set and each removal among the edits runs into a value that is no dictionary on both contents
or on neither. -/
theorem dependencies_sound_iff (snapshot : StoreSnapshot K A) {volume : VolumeId}
    {edits : List (StoreEdit K A)}
    (hdata : ∀ edit ∈ edits, edit.address.volume = volume → edit.writesData = true)
    (v w : Value K A) :
    (∀ done, done <+: edits → ∀ path,
      (∀ address, ((journalOn snapshot volume v done).observeReadById volume path).2 =
        some address → pathRead v address.path = pathRead w address.path) →
      readVolume ((journalOn snapshot volume v done).valueAt volume) path =
        readVolume ((journalOn snapshot volume w done).valueAt volume) path) ↔
    BlockedAlike volume (some v) (some w) edits := by
  simp only [journalOn_valueAt, journalOn_observed]
  constructor
  · intro h
    -- what an edit leaves at its own path tells whether it was blocked
    induction edits using List.reverseRecOn with
    | nil => trivial
    | append_singleton edits edit ih =>
      have hfirst := ih (fun e he => hdata e (List.mem_append_left _ he)) fun done hdone =>
        h done (hdone.trans (List.prefix_append _ _))
      refine blockedAlike_append.mpr ⟨hfirst, fun hvolume => ?_, trivial⟩
      refine blocked_iff_of_readVolume hvolume fun path hnone => ?_
      refine h _ (List.prefix_refl _) path fun address haddress => ?_
      rw [hnone] at haddress
      cases haddress
  · rintro halike done ⟨later, rfl⟩ path hagree
    refine readVolume_editsOn_congr_of_alike
      (fun edit hedit => hdata edit (List.mem_append_left _ hedit)) Iff.rfl
      (blockedAlike_append.mp halike).1 fun d hd => ?_
    have hread := hagree ⟨volume, d⟩ (by rw [hd]; rfl)
    rw [readVolume, readVolume, Option.map_some, Option.map_some, hread]

/-- A set below a key, on an empty volume and on one that holds a datum at that key. The transaction
then reads what it set, and no dependency is recorded: but only on the first does it see its own
value. -/
theorem set_below_datum_unsound :
    let edits : List (StoreEdit Nat Nat) := [.set ⟨heapVolume, [0, 1]⟩ (some (.data 7))]
    let snapshot : StoreSnapshot Nat Nat := ⟨0, ∅, ∅⟩
    ((journalOn snapshot heapVolume (.dict []) edits).observeReadById heapVolume [0, 1]).2 = none ∧
      readVolume ((journalOn snapshot heapVolume (.dict []) edits).valueAt heapVolume) [0, 1] =
        some (.value (.data 7)) ∧
      readVolume ((journalOn snapshot heapVolume (.dict [(0, .data 5)]) edits).valueAt heapVolume)
        [0, 1] = some .failed := by
  intro edits snapshot
  refine ⟨?_, ?_, ?_⟩
  · rw [journalOn_observed]
    rfl
  · rw [journalOn_valueAt]
    rfl
  · rw [journalOn_valueAt]
    rfl

/-- The same set, on two volumes that hold dictionaries or nothing at that key. -/
theorem dependencies_sound_iff_dicts :
    let edits : List (StoreEdit Nat Nat) := [.set ⟨heapVolume, [0, 1]⟩ (some (.data 7))]
    let snapshot : StoreSnapshot Nat Nat := ⟨0, ∅, ∅⟩
    (∀ edit ∈ edits, edit.address.volume = heapVolume → edit.writesData = true) ∧
      readVolume ((journalOn snapshot heapVolume (.dict []) edits).valueAt heapVolume) [0, 1] =
        readVolume ((journalOn snapshot heapVolume (.dict [(0, .dict [])]) edits).valueAt
          heapVolume) [0, 1] := by
  intro edits snapshot
  have hdata : ∀ edit ∈ edits, edit.address.volume = heapVolume → edit.writesData = true := by
    intro edit hedit _
    obtain rfl := List.mem_singleton.mp hedit
    rfl
  refine ⟨hdata, (dependencies_sound_iff snapshot hdata (.dict []) (.dict [(0, .dict [])])).mpr ?_
    edits (List.prefix_refl _) [0, 1] ?_⟩
  · refine ⟨fun _ v hv w hw => ?_, trivial⟩
    cases hv
    cases hw
    exact iff_of_false (by simp [StoreEdit.Blocked, pathRead_eq, read])
      (by simp [StoreEdit.Blocked, pathRead_eq, read])
  · intro address haddress
    rw [journalOn_observed] at haddress
    cases haddress

end Glam.Store
