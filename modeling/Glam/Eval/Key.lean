import Mathlib.Algebra.Order.Ring.Rat
import Mathlib.Data.List.Basic
import Mathlib.Order.Compare

/-!
# Dictionary keys

The keys of dictionaries (`Key` in `core.rs`), with the order the source derives for them. Atoms are
interned, so an atom is its key. A persistent map keeps its entries in the order of their keys,
which is why two maps with the same keys list them alike.

`Key.canonical` is this development's own: the key with every text written as the list of its bytes
and every atom as the dictionary it stands for. The keys of a dictionary stay as they are, since the
source compares those as keys and never as values.
-/

namespace Glam.Eval

/-- The keys of dictionaries: values that are compared as data. -/
inductive Key
  | atom (key : Key)
  | number (value : Rat)
  | binary (bytes : List UInt8)
  | abstractGlobalPath (parts : List String)
  | list (items : List Key)
  | dict (entries : List (Key × Key))

namespace Key

/-- The key of the unit atom. -/
def unit : Key := .abstractGlobalPath ["builtin", "unit"]

/-- A byte of a text as an item of a list. -/
def byte (byte : UInt8) : Key := .number byte.toNat

/-- The position of a key's variant among the variants. -/
def variant : Key → Nat
  | .atom _ => 0
  | .number _ => 1
  | .binary _ => 2
  | .abstractGlobalPath _ => 3
  | .list _ => 4
  | .dict _ => 5

mutual

/-- The derived order: by variant, then by contents. -/
protected def compare : Key → Key → Ordering
  | .atom left, .atom right => left.compare right
  | .number left, .number right => compare left right
  | .binary left, .binary right => compare left right
  | .abstractGlobalPath left, .abstractGlobalPath right => compare left right
  | .list left, .list right => compareItems left right
  | .dict left, .dict right => compareEntries left right
  | left, right => compare left.variant right.variant

/-- The items of two lists in turn; a list comes after its prefixes. -/
def compareItems : List Key → List Key → Ordering
  | [], [] => .eq
  | [], _ :: _ => .lt
  | _ :: _, [] => .gt
  | left :: lefts, right :: rights => (left.compare right).then (compareItems lefts rights)

/-- The entries of two dictionaries in turn, each by its key and then by its value. -/
def compareEntries : List (Key × Key) → List (Key × Key) → Ordering
  | [], [] => .eq
  | [], _ :: _ => .lt
  | _ :: _, [] => .gt
  | (key, left) :: lefts, (key', right) :: rights =>
    ((key.compare key').then (left.compare right)).then (compareEntries lefts rights)

end

mutual

theorem compare_eq_iff : ∀ left right : Key, left.compare right = .eq ↔ left = right
  | .atom left, right => by
    cases right <;> simp [Key.compare, variant, compare_eq_iff left]
  | .number left, right | .binary left, right | .abstractGlobalPath left, right => by
    cases right <;> simp [Key.compare, variant]
  | .list left, right => by
    cases right <;> simp [Key.compare, variant, compareItems_eq_iff left]
  | .dict left, right => by
    cases right <;> simp [Key.compare, variant, compareEntries_eq_iff left]

theorem compareItems_eq_iff : ∀ left right : List Key, compareItems left right = .eq ↔ left = right
  | [], right => by cases right <;> simp [compareItems]
  | left :: lefts, right => by
    cases right <;>
      simp [compareItems, Ordering.then_eq_eq, compare_eq_iff left, compareItems_eq_iff lefts]

theorem compareEntries_eq_iff : ∀ left right : List (Key × Key),
    compareEntries left right = .eq ↔ left = right
  | [], right => by cases right <;> simp [compareEntries]
  | (key, left) :: lefts, right => by
    cases right <;>
      simp [compareEntries, Ordering.then_eq_eq, compare_eq_iff key, compare_eq_iff left,
        compareEntries_eq_iff lefts, Prod.ext_iff]

end

mutual

theorem compare_swap : ∀ left right : Key, (left.compare right).swap = right.compare left
  | .atom left, right => by
    cases right <;> simp [Key.compare, variant, ← Std.OrientedOrd.eq_swap, compare_swap left]
  | .number left, right | .binary left, right | .abstractGlobalPath left, right => by
    cases right <;> simp [Key.compare, variant, ← Std.OrientedOrd.eq_swap]
  | .list left, right => by
    cases right <;> simp [Key.compare, variant, ← Std.OrientedOrd.eq_swap, compareItems_swap left]
  | .dict left, right => by
    cases right <;> simp [Key.compare, variant, ← Std.OrientedOrd.eq_swap, compareEntries_swap left]

theorem compareItems_swap : ∀ left right : List Key,
    (compareItems left right).swap = compareItems right left
  | [], right => by cases right <;> simp [compareItems]
  | left :: lefts, right => by
    cases right <;>
      simp [compareItems, Ordering.swap_then, compare_swap left, compareItems_swap lefts]

theorem compareEntries_swap : ∀ left right : List (Key × Key),
    (compareEntries left right).swap = compareEntries right left
  | [], right => by cases right <;> simp [compareEntries]
  | (key, left) :: lefts, right => by
    cases right <;>
      simp [compareEntries, Ordering.swap_then, compare_swap key, compare_swap left,
        compareEntries_swap lefts]

end

instance : DecidableEq Key := fun left right => decidable_of_iff _ (compare_eq_iff left right)

theorem not_compare_lt_of_compare_lt {left right : Key} (h : left.compare right = .lt) :
    right.compare left ≠ .lt := by
  rw [← compare_swap left right, h]
  decide

theorem byte_injective : Function.Injective byte := by
  intro left right h
  simpa [byte, UInt8.toNat_inj] using h

/-! ### What a key stands for -/

mutual

/-- **The canonical form.** Texts become lists of byte numbers and atoms the dictionaries they stand
for; unit stands for none and stays an atom. -/
def canonical : Key → Key
  | .atom key => if key = unit then .atom unit else .dict [(key, .atom unit)]
  | .number value => .number value
  | .binary bytes => .list (bytes.map byte)
  | .abstractGlobalPath parts => .abstractGlobalPath parts
  | .list items => .list (canonicalItems items)
  | .dict entries => .dict (canonicalEntries entries)

/-- The canonical keys of a list's items. -/
def canonicalItems : List Key → List Key
  | [] => []
  | item :: items => item.canonical :: canonicalItems items

/-- The canonical keys of a dictionary's members. -/
def canonicalEntries : List (Key × Key) → List (Key × Key)
  | [] => []
  | (key, member) :: entries => (key, member.canonical) :: canonicalEntries entries

end

theorem canonicalItems_map_byte (bytes : List UInt8) :
    canonicalItems (bytes.map byte) = bytes.map byte := by
  induction bytes with
  | nil => rfl
  | cons head bytes ih =>
    rw [List.map_cons, canonicalItems, ih]
    rfl

mutual

/-- **One representation.** The keys have the same variant at every place where both have one: no
text faces a list and no atom faces a dictionary. -/
def Alike : Key → Key → Prop
  | .atom _, .atom _ => True
  | .number _, .number _ => True
  | .binary _, .binary _ => True
  | .abstractGlobalPath _, .abstractGlobalPath _ => True
  | .list left, .list right => ItemsAlike left right
  | .dict left, .dict right => EntriesAlike left right
  | _, _ => False

/-- The items that face each other are alike. -/
def ItemsAlike : List Key → List Key → Prop
  | left :: lefts, right :: rights => left.Alike right ∧ ItemsAlike lefts rights
  | _, _ => True

/-- The members that face each other are alike. -/
def EntriesAlike : List (Key × Key) → List (Key × Key) → Prop
  | (_, left) :: lefts, (_, right) :: rights => left.Alike right ∧ EntriesAlike lefts rights
  | _, _ => True

end

mutual

theorem alike_self : ∀ key : Key, key.Alike key
  | .atom _ | .number _ | .binary _ | .abstractGlobalPath _ => by simp [Alike]
  | .list items => by simpa [Alike] using itemsAlike_self items
  | .dict entries => by simpa [Alike] using entriesAlike_self entries

theorem itemsAlike_self : ∀ items : List Key, ItemsAlike items items
  | [] => by simp [ItemsAlike]
  | item :: items => by simpa [ItemsAlike] using ⟨alike_self item, itemsAlike_self items⟩

theorem entriesAlike_self : ∀ entries : List (Key × Key), EntriesAlike entries entries
  | [] => by simp [EntriesAlike]
  | (_, member) :: entries => by
    simpa [EntriesAlike] using ⟨alike_self member, entriesAlike_self entries⟩

end

theorem atom_canonical_inj {left right : Key}
    (h : (Key.atom left).canonical = (Key.atom right).canonical) : left = right := by
  by_cases hleft : left = unit <;> by_cases hright : right = unit <;>
    simp_all [canonical]

mutual

/-- Canonical forms tell apart all keys of one representation. -/
theorem eq_of_canonical_of_alike : ∀ {left right : Key},
    left.canonical = right.canonical → left.Alike right → left = right
  | .atom left, right, h, ha => by
    cases right <;> simp only [Alike] at ha
    rw [atom_canonical_inj h]
  | .number left, right, h, ha | .abstractGlobalPath left, right, h, ha => by
    cases right <;> simp only [Alike] at ha
    simpa [canonical] using h
  | .binary left, right, h, ha => by
    cases right <;> simp only [Alike] at ha
    simp only [canonical, list.injEq] at h
    rw [List.map_injective_iff.mpr byte_injective h]
  | .list left, right, h, ha => by
    cases right <;> simp only [Alike] at ha
    simp only [canonical, list.injEq] at h
    rw [items_eq_of_canonical_of_alike h ha]
  | .dict left, right, h, ha => by
    cases right <;> simp only [Alike] at ha
    simp only [canonical, dict.injEq] at h
    rw [entries_eq_of_canonical_of_alike h ha]

theorem items_eq_of_canonical_of_alike : ∀ {left right : List Key},
    canonicalItems left = canonicalItems right → ItemsAlike left right → left = right
  | [], right, h, _ => by cases right <;> simp_all [canonicalItems]
  | left :: lefts, right, h, ha => by
    cases right with
    | nil => simp [canonicalItems] at h
    | cons =>
      simp only [canonicalItems, List.cons.injEq] at h
      simp only [ItemsAlike] at ha
      rw [eq_of_canonical_of_alike h.1 ha.1, items_eq_of_canonical_of_alike h.2 ha.2]

theorem entries_eq_of_canonical_of_alike : ∀ {left right : List (Key × Key)},
    canonicalEntries left = canonicalEntries right → EntriesAlike left right → left = right
  | [], right, h, _ => by
    cases right <;> simp_all [canonicalEntries]
  | (_, left) :: lefts, right, h, ha => by
    cases right with
    | nil => simp [canonicalEntries] at h
    | cons =>
      simp only [canonicalEntries, List.cons.injEq, Prod.mk.injEq] at h
      simp only [EntriesAlike] at ha
      rw [eq_of_canonical_of_alike h.1.2 ha.1, entries_eq_of_canonical_of_alike h.2 ha.2, h.1.1]

end

end Key
end Glam.Eval
