import Mathlib.Data.Finset.Basic
import Mathlib.Data.Finset.Filter
import Mathlib.Data.List.Basic
import Mathlib.Order.Antichain

/-!
# Tree orders and their least elements

A tree order is a partial order in which what lies below one element is a chain, as the prefixes of
one path are. Two elements overlap when one lies below the other. A set of elements can then be
summarised by its least ones without changing what it overlaps, and `cover` keeps such a summary
one element at a time: an element with something of the summary below it adds nothing, and any
other replaces what lies above it.

The summary of a sequence is an antichain of its elements with one of them below each, in whatever
order they come, and overlaps what the sequence does. `cover` is exact for overlap one element at a
time (`exists_overlap_cover`).
-/

/-- A partial order in which the elements below any one element form a chain. -/
structure TreeOrder {α : Type*} (r : α → α → Prop) : Prop where
  refl : ∀ a, r a a
  trans : ∀ {a b c}, r a b → r b c → r a c
  antisymm : ∀ {a b}, r a b → r b a → a = b
  chain : ∀ {a b c}, r a c → r b c → r a b ∨ r b a

namespace TreeOrder

variable {α : Type*} {r : α → α → Prop}

/-- Two elements of a tree, of which one is above the other. -/
def Overlap (r : α → α → Prop) (a b : α) : Prop := r a b ∨ r b a

instance [DecidableRel r] (a b : α) : Decidable (Overlap r a b) :=
  inferInstanceAs (Decidable (_ ∨ _))

theorem Overlap.symm {a b : α} (h : Overlap r a b) : Overlap r b a := Or.symm h

theorem Overlap.of_below (hr : TreeOrder r) {a b c : α} (hab : r a b) (h : Overlap r b c) :
    Overlap r a c := by
  rcases h with hbc | hcb
  · exact .inl (hr.trans hab hbc)
  · exact hr.chain hab hcb

variable [DecidableRel r] [DecidableEq α]

variable (r) in
/-- The summary `s` with `a` taken in. -/
def cover (s : Finset α) (a : α) : Finset α :=
  if ∃ b ∈ s, r b a then s else insert a (s.filter fun b => ¬ r a b)

variable (r) in
/-- The cover of a list, element by element. -/
def coverAll (l : List α) : Finset α := l.foldl (cover r) ∅

@[simp] theorem coverAll_nil : coverAll r [] = ∅ := rfl

theorem coverAll_concat (l : List α) (a : α) :
    coverAll r (l ++ [a]) = cover r (coverAll r l) a := by
  rw [coverAll, List.foldl_append]
  rfl

/-- **Covering is exact for overlap.** -/
theorem exists_overlap_cover (hr : TreeOrder r) (s : Finset α) (a c : α) :
    (∃ b ∈ cover r s a, Overlap r b c) ↔ Overlap r a c ∨ ∃ b ∈ s, Overlap r b c := by
  unfold cover
  split
  · next h =>
    -- an element of `s` below `a` overlaps whatever `a` does
    obtain ⟨b, hb, hba⟩ := h
    refine ⟨.inr, ?_⟩
    rintro (hac | h)
    · exact ⟨b, hb, hac.of_below hr hba⟩
    · exact h
  · next h =>
    constructor
    · rintro ⟨b, hb, hbc⟩
      rcases Finset.mem_insert.mp hb with rfl | hb
      · exact .inl hbc
      · exact .inr ⟨b, (Finset.mem_filter.mp hb).1, hbc⟩
    · rintro (hac | ⟨b, hb, hbc⟩)
      · exact ⟨a, Finset.mem_insert_self a _, hac⟩
      · by_cases hab : r a b
        · exact ⟨a, Finset.mem_insert_self a _, hbc.of_below hr hab⟩
        · exact ⟨b, Finset.mem_insert_of_mem (Finset.mem_filter.mpr ⟨hb, hab⟩), hbc⟩

/-- Each element is at or below one of the cover. -/
theorem exists_below_coverAll (hr : TreeOrder r) (l : List α) :
    ∀ a ∈ l, ∃ b ∈ coverAll r l, r b a := by
  induction l using List.reverseRecOn with
  | nil => exact nofun
  | append_singleton l x ih =>
    rw [coverAll_concat, cover, List.forall_mem_append, List.forall_mem_singleton]
    split
    · next h => exact ⟨ih, h⟩
    · refine ⟨fun a ha => ?_, x, Finset.mem_insert_self x _, hr.refl x⟩
      obtain ⟨b, hb, hba⟩ := ih a ha
      by_cases hxb : r x b
      · exact ⟨x, Finset.mem_insert_self x _, hr.trans hxb hba⟩
      · exact ⟨b, Finset.mem_insert_of_mem (Finset.mem_filter.mpr ⟨hb, hxb⟩), hba⟩

theorem mem_of_mem_coverAll {l : List α} {a : α} (h : a ∈ coverAll r l) : a ∈ l := by
  induction l using List.reverseRecOn with
  | nil => exact absurd h (Finset.notMem_empty a)
  | append_singleton l x ih =>
    rw [coverAll_concat, cover] at h
    rw [List.mem_append, List.mem_singleton]
    split at h
    · exact .inl (ih h)
    · rw [Finset.mem_insert, Finset.mem_filter] at h
      exact h.symm.imp (fun h => ih h.1) id

/-- **The summary is an antichain.** -/
theorem isAntichain_coverAll (l : List α) : IsAntichain r (coverAll r l : Set α) := by
  induction l using List.reverseRecOn with
  | nil => simp
  | append_singleton l x ih =>
    rw [coverAll_concat, cover]
    split
    · exact ih
    · next h =>
      rw [Finset.coe_insert]
      have hkept : IsAntichain r ((coverAll r l).filter fun b => ¬ r x b : Set α) :=
        ih.subset (Finset.coe_subset.mpr (Finset.filter_subset ..))
      refine hkept.insert (fun b hb _ hbx => h ⟨b, ?_, hbx⟩) fun b hb _ => ?_
      · exact (Finset.mem_filter.mp hb).1
      · exact (Finset.mem_filter.mp hb).2

theorem exists_overlap_coverAll (hr : TreeOrder r) (l : List α) (c : α) :
    (∃ b ∈ coverAll r l, Overlap r b c) ↔ ∃ b ∈ l, Overlap r b c := by
  constructor
  · rintro ⟨b, hb, hbc⟩
    exact ⟨b, mem_of_mem_coverAll hb, hbc⟩
  · rintro ⟨b, hb, hbc⟩
    obtain ⟨a, ha, hab⟩ := exists_below_coverAll hr l b hb
    exact ⟨a, ha, hbc.of_below hr hab⟩

end TreeOrder
