import Mathlib.Data.List.MinMax
import Mathlib.Data.List.Rotate

/-!
# Circuits of a step

A step `f : α → Option α` leads from each point to at most one other. A circuit is a list of
distinct points, each led to the next and the last to the first. Since the step is a function, a
circuit is determined by any of its points up to where one starts to list it; listed from its least
point, it is determined altogether (`Circuit.canonical_eq`). -/

namespace Glam

variable {α : Type*} {f : α → Option α}

/-- **A circuit**: distinct points, each led to the next and the last to the first. -/
structure Circuit (f : α → Option α) (points : List α) : Prop where
  nonempty : points ≠ []
  nodup : points.Nodup
  next : ∀ i x, points[i]? = some x → f x = points[(i + 1) % points.length]?

/-- The point that `count` steps lead to. -/
def follow (f : α → Option α) : Nat → α → Option α
  | 0, x => some x
  | count + 1, x => (follow f count x).bind f

theorem follow_add (m n : Nat) (x : α) : follow f (m + n) x = (follow f m x).bind (follow f n) := by
  induction n with
  | zero => cases follow f m x <;> rfl
  | succ n ih =>
    rw [Nat.add_succ, follow, ih]
    cases follow f m x <;> rfl

variable {x : α}

namespace Circuit

variable {points others : List α}

section

variable (h : Circuit f points)
include h

theorem length_pos : 0 < points.length :=
  List.length_pos_of_ne_nil h.nonempty

theorem rotate (k : Nat) : Circuit f (points.rotate k) where
  nonempty := by simpa [List.rotate_eq_nil_iff] using h.nonempty
  nodup := List.nodup_rotate.mpr h.nodup
  next := by
    intro i x hx
    have hi : i < points.length := by
      simpa using (List.getElem?_eq_some_iff.mp hx).1
    rw [List.getElem?_rotate hi] at hx
    rw [h.next _ x hx, List.length_rotate, List.getElem?_rotate (Nat.mod_lt _ h.length_pos)]
    congr 1
    rw [Nat.mod_add_mod, Nat.mod_add_mod, Nat.add_right_comm]

theorem follow_eq (hx : points[0]? = some x) (m : Nat) :
    follow f m x = points[m % points.length]? := by
  induction m with
  | zero => rw [Nat.zero_mod, hx, follow]
  | succ m ih =>
    have hlt := Nat.mod_lt m h.length_pos
    rw [follow, ih, List.getElem?_eq_getElem hlt, Option.bind_some,
      h.next _ _ (List.getElem?_eq_getElem hlt), Nat.mod_add_mod]

theorem length_le_of_head (h' : Circuit f others) (hx : points[0]? = some x)
    (hx' : others[0]? = some x) : others.length ≤ points.length := by
  by_contra hlt
  rw [not_le] at hlt
  -- the shorter circuit is back at `x` while the longer one is still at another point
  have hback := h.follow_eq hx points.length
  rw [Nat.mod_self, hx, h'.follow_eq hx', Nat.mod_eq_of_lt hlt] at hback
  have hsame := (List.getElem?_inj hlt h'.nodup).mp (hback.trans hx'.symm)
  exact absurd hsame h.length_pos.ne'

theorem eq_of_head (h' : Circuit f others) (hx : points[0]? = some x) (hx' : others[0]? = some x) :
    points = others := by
  have hlength : points.length = others.length :=
    le_antisymm (h'.length_le_of_head h hx' hx) (h.length_le_of_head h' hx hx')
  apply List.ext_getElem?
  intro i
  by_cases hi : i < points.length
  · rw [← Nat.mod_eq_of_lt hi, ← h.follow_eq hx, hlength, ← h'.follow_eq hx']
  · rw [List.getElem?_eq_none (not_lt.mp hi), List.getElem?_eq_none (hlength ▸ not_lt.mp hi)]

theorem exists_rotate_head (hx : x ∈ points) : ∃ k, (points.rotate k)[0]? = some x := by
  obtain ⟨k, hk, rfl⟩ := List.getElem_of_mem hx
  refine ⟨k, ?_⟩
  rw [List.getElem?_rotate h.length_pos, Nat.zero_add, Nat.mod_eq_of_lt hk,
    List.getElem?_eq_getElem hk]

theorem isRotated (h' : Circuit f others) (hx : x ∈ points) (hx' : x ∈ others) :
    points ~r others := by
  obtain ⟨k, hk⟩ := h.exists_rotate_head hx
  obtain ⟨k', hk'⟩ := h'.exists_rotate_head hx'
  have heq := (h.rotate k).eq_of_head (h'.rotate k') hk hk'
  exact (List.IsRotated.forall points k).symm.trans (heq ▸ List.IsRotated.forall others k')

theorem follow_mem (hx : x ∈ points) (m : Nat) : ∃ y ∈ points, follow f m x = some y := by
  obtain ⟨k, hk⟩ := h.exists_rotate_head hx
  have hlt := Nat.mod_lt m (h.rotate k).length_pos
  refine ⟨_, List.mem_rotate.mp (List.getElem_mem hlt), ?_⟩
  rw [(h.rotate k).follow_eq hk, List.getElem?_eq_getElem hlt]

end

end Circuit

/-- A list turned so that it starts at its least point. -/
def canonical [LinearOrder α] (points : List α) : List α :=
  match points.min? with
  | some least => points.rotate (points.idxOf least)
  | none => points

namespace Circuit

variable [LinearOrder α] {points others : List α}

theorem canonical_spec (h : Circuit f points) : ∃ least, points.min? = some least ∧
    Circuit f (canonical points) ∧ (canonical points)[0]? = some least := by
  obtain ⟨least, hleast⟩ : ∃ least, points.min? = some least :=
    Option.isSome_iff_exists.mp (List.isSome_min?_of_ne_nil h.nonempty)
  have hmem : least ∈ points := List.min?_mem hleast
  refine ⟨least, hleast, ?_, ?_⟩ <;> simp only [canonical, hleast]
  · exact h.rotate _
  · have hidx := List.idxOf_lt_length_of_mem hmem
    rw [List.getElem?_rotate h.length_pos, Nat.zero_add, Nat.mod_eq_of_lt hidx,
      List.getElem?_eq_getElem hidx, List.getElem_idxOf hidx]

theorem mem_canonical : x ∈ canonical points ↔ x ∈ points := by
  unfold canonical
  split
  · exact List.mem_rotate
  · rfl

/-- **One circuit has one canonical listing.** -/
theorem canonical_eq (h : Circuit f points) (h' : Circuit f others) (hx : x ∈ points)
    (hx' : x ∈ others) : canonical points = canonical others := by
  obtain ⟨least, hleast, hcircuit, hhead⟩ := h.canonical_spec
  obtain ⟨least', hleast', hcircuit', hhead'⟩ := h'.canonical_spec
  have hperm := (h.isRotated h' hx hx').perm
  -- both list one set of points, so they have one least point
  have hmin : least = least' := by
    rw [List.min?_eq_some_iff] at hleast hleast'
    exact le_antisymm (hleast.2 _ (hperm.mem_iff.mpr hleast'.1))
      (hleast'.2 _ (hperm.mem_iff.mp hleast.1))
  exact hcircuit.eq_of_head hcircuit' hhead (hmin ▸ hhead')

end Circuit

end Glam
