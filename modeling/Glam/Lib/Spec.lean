import Mathlib.Order.Basic

/-!
# Postconditions of computations that can fail

`Spec m Q E` says that `m` gives a result that meets `Q`, or fails in a way that meets `E`. The
rules follow how such computations are put together. -/

namespace Glam

variable {ε α β : Type}

/-- The result meets `Q`, the failure `E`. -/
def Spec (m : Except ε α) (Q : α → Prop) (E : ε → Prop) : Prop :=
  match m with
  | .ok a => Q a
  | .error e => E e

/-- Fails with `e` unless `c` holds. -/
def check (c : Prop) [Decidable c] (e : ε) : Except ε Unit := if c then .ok () else .error e

variable {m : Except ε α} {f : α → Except ε β}

theorem Except.bind_eq_ok {b : β} (h : (m >>= f) = .ok b) : ∃ a, m = .ok a ∧ f a = .ok b := by
  cases m with
  | ok a => exact ⟨a, rfl, h⟩
  | error => cases h

theorem of_check {c : Prop} [Decidable c] {e : ε} {u : Unit} (h : check c e = .ok u) : c := by
  by_contra hc
  rw [check, if_neg hc] at h
  cases h

theorem of_check_bind {c : Prop} [Decidable c] {e : ε} {m : Except ε β} {b : β}
    (h : (check c e >>= fun _ => m) = .ok b) : c ∧ m = .ok b := by
  obtain ⟨_, hcheck, hm⟩ := Except.bind_eq_ok h
  exact ⟨of_check hcheck, hm⟩

theorem Except.bind_ok (a : α) (f : α → Except ε β) : ((.ok a : Except ε α) >>= f) = f a := rfl

namespace Spec

variable {Q : α → Prop} {E : ε → Prop} {R : β → Prop}

theorem ok {a : α} (h : Q a) : Spec (.ok a : Except ε α) Q E := h

theorem pure {a : α} (h : Q a) : Spec (Pure.pure a : Except ε α) Q E := h

theorem bind (h : Spec m Q E) (hf : ∀ a, Q a → Spec (f a) R E) : Spec (m >>= f) R E := by
  cases m with
  | ok a => exact hf a h
  | error => exact h

theorem exists_ok (h : Spec m Q fun _ => False) : ∃ a, m = .ok a ∧ Q a := by
  cases m with
  | ok a => exact ⟨a, rfl, h⟩
  | error => exact h.elim

end Spec

end Glam
