import Mathlib.Data.Finset.Insert
import Mathlib.Logic.Relation

/-!
# Walks by an injective step

A walk whose step leads no two points to the same one, from a point that nothing leads to, never
comes back to a point it passed: the first point it came back to would have two points before it.
`Passed` is what such a walk knows of the points behind it, and `Passed.step` is the argument.
-/

namespace Glam.InjectiveWalk

variable {α : Type*} [DecidableEq α] {Step : α → α → Prop}

/-- The walk from `start` has passed `path` and stands at `point`. -/
structure Passed (Step : α → α → Prop) (start : α) (path : Finset α) (point : α) : Prop where
  notMem : point ∉ path
  start_mem : start = point ∨ start ∈ path
  reaches : Relation.ReflTransGen Step start point
  /-- every point but the first was stepped to from a point passed -/
  origin : ∀ q, q = point ∨ q ∈ path → q = start ∨ ∃ p ∈ path, Step p q
  /-- every point passed was stepped on from -/
  onward : ∀ p ∈ path, ∃ q, Step p q ∧ (q = point ∨ q ∈ path)

omit [DecidableEq α] in
theorem passed_start (start : α) : Passed Step start ∅ start where
  notMem := Finset.notMem_empty _
  start_mem := .inl rfl
  reaches := .refl
  origin := by
    rintro q (rfl | hq)
    · exact .inl rfl
    · cases hq
  onward := nofun

/-- **One step on** leads to a point not passed yet. -/
theorem Passed.step {start point next : α} {path : Finset α} (h : Passed Step start path point)
    (hinj : ∀ a b c, Step a c → Step b c → a = b) (hstart : ∀ p, ¬ Step p start)
    (hstep : Step point next) : Passed Step start (insert point path) next := by
  refine ⟨?_, ?_, h.reaches.tail hstep, ?_, ?_⟩
  · intro hmem
    -- `next` was passed, so a point passed leads to it, and so does `point`
    have hmem' : next = point ∨ next ∈ path := Finset.mem_insert.mp hmem
    rcases h.origin next hmem' with rfl | ⟨p, hp, hpnext⟩
    · exact hstart point hstep
    · exact h.notMem (hinj p point next hpnext hstep ▸ hp)
  · exact .inr (Finset.mem_insert.mpr h.start_mem)
  · rintro q (rfl | hq)
    · exact .inr ⟨point, Finset.mem_insert_self _ _, hstep⟩
    · exact (h.origin q (Finset.mem_insert.mp hq)).imp_right fun ⟨p, hp, hpq⟩ =>
        ⟨p, Finset.mem_insert_of_mem hp, hpq⟩
  · intro p hp
    rcases Finset.mem_insert.mp hp with rfl | hp
    · exact ⟨next, hstep, .inl rfl⟩
    · obtain ⟨q, hpq, hq⟩ := h.onward p hp
      exact ⟨q, hpq, .inr (Finset.mem_insert.mpr hq)⟩

end Glam.InjectiveWalk
