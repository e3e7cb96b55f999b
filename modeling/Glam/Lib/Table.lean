import Mathlib.Data.Finmap

/-!
# Finite tables

A `Table κ ν` is a finite map from `κ` to `ν`: Mathlib's `Finmap` with a constant family. The
programs verified over it look entries up, write them and remove them, so the lemmas here say what
`get` returns after each write, as one equation with an `if` per write. Every later proof reads a
table through `get` and those equations.
-/

/-- A finite map from keys `κ` to values `ν`. -/
abbrev Table (κ : Type*) (ν : Type*) := Finmap (fun _ : κ => ν)

namespace Table

variable {κ ν : Type*} [DecidableEq κ]

/-- The value of a key. -/
def get (t : Table κ ν) (k : κ) : Option ν := Finmap.lookup k t

/-- Gives a key a value. -/
def set (t : Table κ ν) (k : κ) (v : ν) : Table κ ν := Finmap.insert k v t

/-- Takes a key away. -/
def remove (t : Table κ ν) (k : κ) : Table κ ν := Finmap.erase k t

@[simp, grind =] theorem get_empty (k : κ) : get (∅ : Table κ ν) k = none :=
  Finmap.lookup_empty k

@[grind =] theorem get_set (t : Table κ ν) (k : κ) (v : ν) (j : κ) :
    (t.set k v).get j = if j = k then some v else t.get j := by
  unfold get set
  split
  · next h => subst h; exact Finmap.lookup_insert t
  · next h => exact Finmap.lookup_insert_of_ne t h

@[grind =] theorem get_remove (t : Table κ ν) (k j : κ) :
    (t.remove k).get j = if j = k then none else t.get j := by
  unfold get remove
  split
  · next h => subst h; exact Finmap.lookup_erase j t
  · next h => exact Finmap.lookup_erase_ne h

@[simp] theorem get_set_self (t : Table κ ν) (k : κ) (v : ν) : (t.set k v).get k = some v := by
  rw [get_set, if_pos rfl]

variable {k : κ} {t : Table κ ν}

theorem get_set_of_ne (t : Table κ ν) {j : κ} (v : ν) (h : j ≠ k) :
    (t.set k v).get j = t.get j := by
  rw [get_set, if_neg h]

@[simp] theorem get_remove_self (t : Table κ ν) (k : κ) : (t.remove k).get k = none := by
  rw [get_remove, if_pos rfl]

theorem get_remove_of_ne (t : Table κ ν) {j : κ} (h : j ≠ k) : (t.remove k).get j = t.get j := by
  rw [get_remove, if_neg h]

theorem ext_get {s : Table κ ν} (h : ∀ k, s.get k = t.get k) : s = t :=
  Finmap.ext_lookup h

theorem mem_keys_iff : k ∈ t.keys ↔ ∃ v, t.get k = some v := by
  rw [Finmap.mem_keys, Finmap.mem_iff]
  rfl

/-- The entries of `u`, and those of `t` at the keys `u` lacks. -/
def override (t u : Table κ ν) : Table κ ν := u ∪ t

theorem get_override (t u : Table κ ν) (j : κ) :
    (t.override u).get j = (u.get j).or (t.get j) := by
  unfold get override
  by_cases h : j ∈ u
  · rw [Finmap.lookup_union_left h]
    obtain ⟨v, hv⟩ := Finmap.mem_iff.mp h
    rw [hv, Option.some_or]
  · rw [Finmap.lookup_union_right h, Finmap.lookup_eq_none.mpr h, Option.none_or]

/-- The entries whose keys have a property. -/
def restrict (t : Table κ ν) (p : κ → Prop) [DecidablePred p] : Table κ ν :=
  ⟨t.entries.filter fun entry => p entry.1,
    Multiset.nodup_keys.mp (Multiset.nodup_of_le
      (Multiset.map_le_map (Multiset.filter_le _ t.entries))
      (Multiset.nodup_keys.mpr t.nodupKeys))⟩

/-- A restricted table has the entries whose keys have the property. -/
theorem get_restrict (t : Table κ ν) (p : κ → Prop) [DecidablePred p] (j : κ) :
    (t.restrict p).get j = if p j then t.get j else none := by
  unfold get
  have hmem : ∀ v, Finmap.lookup j (t.restrict p) = some v ↔ Finmap.lookup j t = some v ∧ p j := by
    intro v
    rw [Finmap.lookup_eq_some_iff, Finmap.lookup_eq_some_iff]
    exact Multiset.mem_filter
  split
  · next h =>
    refine Option.ext fun v => ?_
    rw [hmem, and_iff_left h]
  · next h =>
    refine Option.eq_none_iff_forall_ne_some.mpr fun v hv => h ((hmem v).mp hv).2

/-- The table with `v` at each of `keys` and nothing else. -/
def ofKeys (keys : Finset κ) (v : ν) : Table κ ν :=
  ⟨keys.val.map fun k => ⟨k, v⟩, by
    rw [← Multiset.nodup_keys, Multiset.keys, Multiset.map_map]
    simpa using keys.nodup⟩

theorem get_ofKeys (keys : Finset κ) (v : ν) (j : κ) :
    (ofKeys keys v).get j = if j ∈ keys then some v else none := by
  unfold get
  split
  · next h => rw [Finmap.lookup_eq_some_iff]; simp [ofKeys, h]
  · next h =>
    rw [Finmap.lookup_eq_none, Finmap.mem_def]
    simp [ofKeys, Multiset.keys, h]

end Table
