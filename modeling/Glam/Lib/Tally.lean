import Mathlib.Data.Fintype.Card
import Mathlib.Algebra.Order.BigOperators.Group.Finset
import Mathlib.Logic.Function.Basic

/-!
# Counting the members of a finite family

`tally p f` is how many members of the family `f` satisfy `p`. It counts processes by what they are
doing, and changes by at most one when one of them moves. -/

namespace Glam

variable {ι α : Type} [Fintype ι]

/-- The number of indices whose value has a property. -/
def tally (p : α → Bool) (f : ι → α) : Nat := (Finset.univ.filter fun i => p (f i)).card

variable {p : α → Bool} {f : ι → α}

theorem tally_congr {g : ι → α} (h : ∀ i, p (g i) = p (f i)) : tally p g = tally p f := by
  unfold tally
  congr 1
  ext i
  simp only [Finset.mem_filter, h]

theorem tally_eq_zero : tally p f = 0 ↔ ∀ i, p (f i) = false := by
  unfold tally
  rw [Finset.card_eq_zero, Finset.filter_eq_empty_iff]
  simp

theorem tally_pos {i : ι} (h : p (f i) = true) : 0 < tally p f :=
  Finset.card_pos.mpr ⟨i, Finset.mem_filter.mpr ⟨Finset.mem_univ i, h⟩⟩

variable [DecidableEq ι]

/-- A count changes by what the one that is replaced counts. -/
theorem tally_update (p : α → Bool) (f : ι → α) (i : ι) (a : α) :
    tally p (Function.update f i a) + (p (f i)).toNat = tally p f + (p a).toNat := by
  have hsplit : ∀ g : ι → α, tally p g =
      ((Finset.univ.erase i).filter fun j => p (g j)).card + (p (g i)).toNat := by
    intro g
    unfold tally
    rw [← Finset.insert_erase (Finset.mem_univ i), Finset.filter_insert]
    cases hp : p (g i) with
    | false => simp
    | true => simp
  have hrest : ((Finset.univ.erase i).filter fun j => p (Function.update f i a j)).card =
      ((Finset.univ.erase i).filter fun j => p (f j)).card := by
    congr 1
    refine Finset.filter_congr fun j hj => ?_
    rw [Function.update_of_ne (Finset.ne_of_mem_erase hj)]
  rw [hsplit f, hsplit (Function.update f i a), hrest, Function.update_self]
  omega

end Glam
