import Mathlib.Data.Fintype.Card

/-!
# Ranks on finite types

A loop that follows a relation on a finite type ends if some rank falls with every step. Then it
ends within as many steps as the type has elements, whatever the rank was: there is a rank below
that number which falls too. -/

/-- A rank that falls along `r` can be taken below the number of elements: count those of lower
rank. -/
theorem exists_rank_lt_card {α : Type*} [Fintype α] {r : α → α → Prop}
    (h : ∃ rank : α → ℕ, ∀ a b, r a b → rank b < rank a) :
    ∃ rank : α → ℕ, (∀ a b, r a b → rank b < rank a) ∧ ∀ a, rank a < Fintype.card α := by
  classical
  obtain ⟨rank, hrank⟩ := h
  refine ⟨fun a => (Finset.univ.filter fun x => rank x < rank a).card, ?_, ?_⟩
  · intro a b hab
    have hlt := hrank a b hab
    apply Finset.card_lt_card
    rw [Finset.ssubset_iff_of_subset]
    · exact ⟨b, by simpa using hlt, by simp⟩
    · intro x hx
      simp only [Finset.mem_filter, Finset.mem_univ, true_and] at hx ⊢
      exact hx.trans hlt
  · intro a
    apply Finset.card_lt_univ_of_notMem (x := a)
    simp
