import Glam.Lib.TreeOrder
import Glam.Store.Frame

/-!
# Edits and what they change

An edit writes at an address: a path in a volume. This module translates the addresses of
`store/conflict.rs`, and `StoreEdit`, `apply_edit_in` and `dependency` of `store.rs`.

The frame law says that an edit leaves every path apart from its own as it was. It holds of every
insertion. A removal whose path runs into a value that is no dictionary fails as a whole, and the
volume with it, so the law fails for it exactly where the read at the other path succeeded
(`read_applyEdit_eq_iff`).

Conflict analysis rests on `read_applyEdit_congr_of_alike`: after an edit that is blocked in both of
two volumes or in neither, they read alike at a path if they read alike, before it, at what the read
depends on.
-/

namespace Glam.Store

/-- The name of a volume of the store. -/
abbrev VolumeId := Nat

/-- The name of a promise. -/
abbrev PromiseId := Nat

/-- The shared heap's volume, the same in every store. -/
def heapVolume : VolumeId := 1

/-- The runtime's private volume, where virtual resources and promises have their addresses. It
holds no data. -/
def runtimeVolume : VolumeId := 2

/-- The machines' environment volume. -/
def environmentVolume : VolumeId := 3

/-! ### Addresses -/

/-- A path within a volume. -/
structure ConflictAddress (K : Type) where
  volume : VolumeId
  path : List K
deriving DecidableEq

namespace ConflictAddress

variable {K : Type}

/-- The address of a whole volume. -/
def root (volume : VolumeId) : ConflictAddress K := ⟨volume, []⟩

/-- Whether the first address is at or above the second. -/
def IsPrefixOf (a b : ConflictAddress K) : Prop := a.volume = b.volume ∧ a.path <+: b.path

instance [DecidableEq K] : DecidableRel (IsPrefixOf (K := K)) :=
  fun _ _ => inferInstanceAs (Decidable (_ ∧ _))

theorem isPrefixOf_treeOrder : TreeOrder (IsPrefixOf (K := K)) where
  refl a := ⟨rfl, List.prefix_rfl⟩
  trans hab hbc := ⟨hab.1.trans hbc.1, hab.2.trans hbc.2⟩
  antisymm {a b} hab hba := by
    cases a; cases b
    simp only [ConflictAddress.mk.injEq]
    exact ⟨hab.1, hab.2.eq_of_length (Nat.le_antisymm hab.2.length_le hba.2.length_le)⟩
  chain {a b c} hac hbc := by
    rcases Nat.le_total a.path.length b.path.length with h | h
    · exact .inl ⟨hac.1.trans hbc.1.symm, List.prefix_of_prefix_length_le hac.2 hbc.2 h⟩
    · exact .inr ⟨hbc.1.trans hac.1.symm, List.prefix_of_prefix_length_le hbc.2 hac.2 h⟩

/-- Whether one of two addresses is at or above the other. -/
abbrev Overlaps (a b : ConflictAddress K) : Prop := TreeOrder.Overlap IsPrefixOf a b

theorem apart_of_not_overlaps {a b : ConflictAddress K} (hv : a.volume = b.volume)
    (h : ¬ a.Overlaps b) : Apart a.path b.path :=
  ⟨fun hp => h (.inl ⟨hv, hp⟩), fun hp => h (.inr ⟨hv.symm, hp⟩)⟩

end ConflictAddress

/-! ### Edits -/

/-- How a promise is resolved. -/
inductive Resolution (K A : Type)
  | fulfill (value : Value K A)
  | break (failure : Value K A)

/-- An edit at an address. One without data writes a virtual resource: it joins conflict analysis
as its data counterpart does, but changes no volume. An updater is what applying a function value
to the prior value evaluates to. -/
inductive StoreEdit (K A : Type)
  | set (address : ConflictAddress K) (value : Option (Value K A))
  | rewrite (address : ConflictAddress K) (updater : Option (Value K A → Value K A))
  | remove (address : ConflictAddress K)
  | create (volume : VolumeId) (initial : Value K A)
  | resolve (address : ConflictAddress K) (promise : PromiseId) (resolution : Resolution K A)

variable {K A : Type}

namespace StoreEdit

/-- Where the edit writes. -/
def address : StoreEdit K A → ConflictAddress K
  | .set address _ => address
  | .rewrite address _ => address
  | .remove address => address
  | .create volume _ => ConflictAddress.root volume
  | .resolve address _ _ => address

/-- Whether the edit changes its volume's data. -/
def writesData : StoreEdit K A → Bool
  | .set _ value => value.isSome
  | .rewrite _ updater => updater.isSome
  | .remove _ => true
  | .create _ _ => true
  | .resolve _ _ _ => false

end StoreEdit

variable [DecidableEq K]

/-! ### Applying an edit -/

/-- The value at `path`, as the lazy access gives it: an error where it is undefined. -/
def lazyValuePath (value : Value K A) (path : List K) : Value K A :=
  if path = [] then value else (dictPathWalk .dictLookup path .error value).value

/-- Puts a value at a path. The empty path is the whole volume. -/
def applyValueAtPath (root : Value K A) (path : List K) (value : Value K A) : Value K A :=
  if path = [] then value else dictInsert path value root

/-- `root` without what is at `path`, pruning the dictionaries the removal empties. -/
def removePath (root : Value K A) (path : List K) : Value K A :=
  (dictPathWalk .dictRemove path .error root).value

/-- `current` with `edit` applied. -/
def applyEdit (current : Value K A) : StoreEdit K A → Value K A
  | .set _ none => current
  | .rewrite _ none => current
  | .resolve _ _ _ => current
  | .create _ initial => initial
  | .set address (some value) => applyValueAtPath current address.path value
  | .remove address => removePath current address.path
  | .rewrite address (some updater) =>
    applyValueAtPath current address.path (updater (lazyValuePath current address.path))

/-- What a read of `path` in `root` gives: a read first checks that the path is defined, then looks
it up. -/
def pathRead (root : Value K A) (path : List K) : Reading K A :=
  if path = [] then .value root
  else
    match dictPathWalk .dictDefines path .error root with
    | .predicate true => .value (dictPathWalk .dictLookup path .error root).value
    | .predicate false => .undefined
    | _ => .failed

theorem pathRead_eq (root : Value K A) (path : List K) : pathRead root path = read root path := by
  by_cases hpath : path = []
  · subst hpath
    rw [pathRead, if_pos rfl, read_nil]
  · rw [pathRead, if_neg hpath, dictPathWalk, dictPathWalk, if_neg hpath, if_neg hpath, pathWalk_eq]
    cases read root path <;> rfl

theorem lazyValuePath_eq (value : Value K A) (path : List K) :
    lazyValuePath value path =
      match read value path with
      | .value found => found
      | _ => .error := by
  by_cases hpath : path = []
  · subst hpath
    rw [lazyValuePath, if_pos rfl, read_nil]
  · rw [lazyValuePath, if_neg hpath, dictPathWalk, if_neg hpath, pathWalk_eq]
    cases read value path <;> rfl

theorem applyValueAtPath_eq (root : Value K A) (path : List K) (value : Value K A) :
    applyValueAtPath root path value = insertAt value root path := by
  by_cases hpath : path = []
  · subst hpath
    rw [applyValueAtPath, if_pos rfl, insertAt_nil]
  · rw [applyValueAtPath, if_neg hpath, dictInsert_eq hpath]

variable {path : List K} {edit : StoreEdit K A}

theorem removePath_eq (root : Value K A) (hpath : path ≠ []) :
    removePath root path = removeAt root path :=
  dictRemove_eq hpath .error root

/-! ### The frame law -/

/-- The edit is a removal, and its walk runs into a value on the way that is no dictionary. -/
def StoreEdit.BlockedRemoval (edit : StoreEdit K A) (current : Value K A) : Prop :=
  match edit with
  | .remove address => pathRead current address.path = .failed
  | _ => False

/-- An edit changes no reading apart from it. -/
theorem read_applyEdit_of_apart {current : Value K A} {q : List K}
    (hok : ¬ edit.BlockedRemoval current) (hq : Apart edit.address.path q) :
    read (applyEdit current edit) q = read current q := by
  cases edit with
  | set address value =>
    cases value with
    | none => rfl
    | some value =>
      rw [applyEdit, applyValueAtPath_eq]
      exact read_insertAt_of_apart value current hq
  | rewrite address updater =>
    cases updater with
    | none => rfl
    | some =>
      rw [applyEdit, applyValueAtPath_eq]
      exact read_insertAt_of_apart _ current hq
  | create => exact absurd rfl hq.ne_nil_left
  | resolve => rfl
  | remove address =>
    have hpath : address.path ≠ [] := hq.ne_nil_left
    rw [StoreEdit.BlockedRemoval, pathRead_eq] at hok
    rw [applyEdit, removePath_eq current hpath]
    exact read_removeAt_of_apart hok hq

/-- **Frame law, exactly.** After an edit, a path apart from the edited one reads as it did before,
unless the edit is a removal that runs into a value that is no dictionary: then it reads as before
only if it could not be read before either. -/
theorem pathRead_applyEdit_eq_iff (current : Value K A) (edit : StoreEdit K A) (q : List K)
    (hq : Apart edit.address.path q) :
    pathRead (applyEdit current edit) q = pathRead current q ↔
      (edit.BlockedRemoval current → pathRead current q = .failed) := by
  simp only [pathRead_eq]
  by_cases hblocked : edit.BlockedRemoval current
  · cases edit with
    | remove address =>
      -- the whole volume becomes an error
      have hfailed : read current address.path = .failed := pathRead_eq current _ ▸ hblocked
      have hpath : address.path ≠ [] := hq.ne_nil_left
      rw [applyEdit, removePath_eq current hpath, removeAt_of_failed hfailed,
        read_error hq.ne_nil_right]
      exact ⟨fun h _ => h.symm, fun h => (h hblocked).symm⟩
    | _ => exact hblocked.elim
  · exact iff_of_true (read_applyEdit_of_apart hblocked hq) fun h => absurd h hblocked

/-- Removing a path that is defined leaves another key readable. -/
theorem pathRead_applyEdit_eq_iff_sample :
    Apart [0, 1] [2] ∧
      pathRead (applyEdit (.dict [(0, .dict [(1, .data 1)]), (2, .data 7)] : Value Nat Nat)
        (.remove ⟨heapVolume, [0, 1]⟩)) [2] =
        pathRead (.dict [(0, .dict [(1, .data 1)]), (2, .data 7)]) [2] :=
  ⟨by decide, (pathRead_applyEdit_eq_iff _ (.remove ⟨heapVolume, [0, 1]⟩) [2] (by decide)).mpr nofun⟩

/-! ### What a read depends on -/

/-- What a read of `dependency` in `volume` depends on before `edit`: nothing when the edit decides
it, the whole path of a rewrite at or above it, and the same otherwise. -/
def StoreEdit.dependencyStep (edit : StoreEdit K A) (volume : VolumeId) (dependency : List K) :
    Option (List K) :=
  match edit with
  | .set address _ | .remove address | .resolve address _ _ =>
    if address.IsPrefixOf ⟨volume, dependency⟩ then none else some dependency
  -- nothing outside the transaction knows a volume it created
  | .create created _ => if created = volume then none else some dependency
  | .rewrite address _ =>
    if address.IsPrefixOf ⟨volume, dependency⟩ then some address.path else some dependency

/-- What a read of `path` in `volume` depends on, given the `edits` before it. -/
def dependency (edits : List (StoreEdit K A)) (volume : VolumeId) (path : List K) :
    Option (List K) :=
  match edits with
  | [] => some path
  | edit :: later => (dependency later volume path).bind (edit.dependencyStep volume)

theorem dependency_append (edits later : List (StoreEdit K A)) (volume : VolumeId)
    (path : List K) :
    dependency (edits ++ later) volume path =
      (dependency later volume path).bind (dependency edits volume) := by
  induction edits with
  | nil => rw [List.nil_append]; cases dependency later volume path <;> rfl
  | cons edit edits ih =>
    rw [List.cons_append, dependency, ih]
    cases dependency later volume path <;> rfl

/-- An edit that does not overlap what is read does not change what the read depends on. -/
theorem dependencyStep_of_not_overlaps {volume : VolumeId}
    (h : ¬ edit.address.Overlaps ⟨volume, path⟩) : edit.dependencyStep volume path = some path := by
  have hfront : ¬ edit.address.IsPrefixOf ⟨volume, path⟩ := fun hp => h (.inl hp)
  cases edit with
  | set | remove | resolve | rewrite => exact if_neg hfront
  | create => exact if_neg fun hv => hfront ⟨hv, List.nil_prefix⟩

theorem dependency_of_not_overlaps {edits : List (StoreEdit K A)} {volume : VolumeId}
    (h : ∀ edit ∈ edits, ¬ edit.address.Overlaps ⟨volume, path⟩) :
    dependency edits volume path = some path := by
  induction edits with
  | nil => rfl
  | cons edit edits ih =>
    rw [dependency, ih fun e he => h e (List.mem_cons_of_mem edit he), Option.bind_some]
    exact dependencyStep_of_not_overlaps (h edit (.head _))

/-- Everything on the way along the edited path is a dictionary or undefined in `current`
(`read_ne_failed_iff`). -/
def StoreEdit.PathOk (edit : StoreEdit K A) (current : Value K A) : Prop :=
  pathRead current edit.address.path ≠ .failed

/-- A removal names a path. -/
def StoreEdit.RemovesPath : StoreEdit K A → Prop
  | .remove address => address.path ≠ []
  | _ => True

/-- A set or a removal whose path runs into a value that is no dictionary. -/
def StoreEdit.Blocked (edit : StoreEdit K A) (current : Value K A) : Prop :=
  match edit with
  | .set address (some _) => pathRead current address.path = .failed
  | .remove address => pathRead current address.path = .failed
  | _ => False

theorem StoreEdit.PathOk.not_blocked {current : Value K A} (h : edit.PathOk current) :
    ¬ edit.Blocked current := by
  cases edit with
  | set address value =>
    cases value with
    | none => exact id
    | some => exact h
  | remove => exact h
  | rewrite | create | resolve => exact id

/-- **What a read sees after an edit** is determined by what it depends on before it, if the edit is
blocked in both contents or in neither. -/
theorem read_applyEdit_congr_of_alike {v w : Value K A} {q : List K} (hdata : edit.writesData)
    (halike : edit.Blocked v ↔ edit.Blocked w)
    (h : ∀ d, edit.dependencyStep edit.address.volume q = some d → read v d = read w d) :
    read (applyEdit v edit) q = read (applyEdit w edit) q := by
  cases edit with
  | resolve => simp [StoreEdit.writesData] at hdata
  | create => rfl
  | set address value =>
    cases value with
    | none => simp [StoreEdit.writesData] at hdata
    | some =>
      simp only [StoreEdit.Blocked, pathRead_eq] at halike
      rw [applyEdit, applyEdit, applyValueAtPath_eq, applyValueAtPath_eq]
      exact read_insertAt_congr_of_alike (fun _ => halike) (fun _ => rfl)
        fun hp => h q (if_neg fun hpre => hp hpre.2)
  | remove address =>
    simp only [StoreEdit.Blocked, pathRead_eq] at halike
    by_cases hpath : address.path = []
    · -- the empty path cannot be removed: the volume is unreadable in both
      rw [applyEdit, applyEdit, removePath, removePath, hpath]
      rfl
    · rw [applyEdit, applyEdit, removePath_eq v hpath, removePath_eq w hpath]
      by_cases hv : read v address.path = .failed
      · rw [removeAt_of_failed hv, removeAt_of_failed (halike.mp hv)]
      · exact read_removeAt_congr hpath hv (mt halike.mpr hv)
          fun hp => h q (if_neg fun hpre => hp hpre.2)
  | rewrite address updater =>
    cases updater with
    | none => simp [StoreEdit.writesData] at hdata
    | some =>
      rw [applyEdit, applyEdit, applyValueAtPath_eq, applyValueAtPath_eq]
      -- unless the read is apart from the rewrite, the prior value is one of the things it sees
      have hprior : ¬ Apart address.path q → read v address.path = read w address.path := by
        intro hapart
        by_cases hp : address.path <+: q
        · exact h _ (if_pos ⟨rfl, hp⟩)
        · have hqp : q <+: address.path := not_not.mp fun hqp => hapart ⟨hp, hqp⟩
          exact read_eq_of_prefix hqp (h q (if_neg fun hpre => hp hpre.2))
      refine read_insertAt_congr_of_alike (fun hp => ?_) (fun hapart => ?_)
        fun hp => h q (if_neg fun hpre => hp hpre.2)
      · rw [hprior fun hapart => hapart.1 hp]
      · rw [lazyValuePath_eq, lazyValuePath_eq, hprior hapart]

end Glam.Store
