import Glam.Eval.Value
import Glam.Lib.Poll

/-!
# Demands under a budget

A machine of the evaluator demands values as it goes. Driving a demand (`eval/whnf.rs`) follows lazy
values and promises, at a unit of the step budget each, and stops before a look it has no unit for.
The machine then keeps the demand where it got to and reports that the budget is exhausted.

A machine has at most one demand at a time. `DemandOf` says which it is and where its focus is put
back, and `pollIn` is a poll under a budget. `KeepsDemand` is what the machine has to keep: it polls
alike from any focus on the way. Then its polls are interruptible, and no result depends on the
budgets it is run under.
-/

namespace Glam.Eval

/-- What an evaluation within a budget comes to. -/
inductive WhnfStatus
  | ready (value : Value)
  | budgetExhausted (focus : Value)

/-- **`drive_regional_in_place`** with `reduce_semantic_shell`, from a focus that has been evaluated,
and the budget it leaves. -/
def Value.drive : (budget : Nat) → Value → WhnfStatus × Nat
  | 0, focus => (.budgetExhausted focus, 0)
  | budget + 1, .deferred value => value.drive budget
  | budget + 1, value => (.ready value, budget + 1)

/-- How many lazy values and promises a demand follows. -/
def Value.depth : Value → Nat
  | .deferred value => value.depth + 1
  | _ => 0

theorem Value.drive_lasts : ∀ {budget : Nat} {value : Value}, value.depth < budget →
    value.drive budget = (.ready value.whnf, budget - value.depth)
  | budget + 1, .deferred value, h => by
    rw [depth] at h
    rw [drive, whnf, depth, drive_lasts (Nat.lt_of_succ_lt_succ h), Nat.add_sub_add_right]
  | _ + 1, .atom _, _ | _ + 1, .number _, _ | _ + 1, .binary _, _ | _ + 1, .list _, _
  | _ + 1, .dict .., _ | _ + 1, .other _, _ => rfl

theorem Value.drive_spent : ∀ {budget : Nat} {value : Value}, budget ≤ value.depth →
    ∃ focus, value.drive budget = (.budgetExhausted focus, 0) ∧ focus.whnf = value.whnf ∧
      focus.depth + budget = value.depth
  | 0, value, _ => ⟨value, rfl, rfl, rfl⟩
  | budget + 1, .deferred value, h => by
    rw [depth] at h
    obtain ⟨focus, hdrive, hwhnf, hdepth⟩ := drive_spent (Nat.le_of_succ_le_succ h)
    exact ⟨focus, by rw [drive, hdrive], by rw [whnf, hwhnf], by rw [depth, ← hdepth]; rfl⟩

variable {S R : Type}

/-- The demand that the next poll of a machine drives, if any: its focus, and the machine with another
focus in its place. -/
abbrev DemandOf (S : Type) := S → Option (Value × (Value → S))

/-- A poll under a budget. The demand is driven first. Where the budget lasts, the poll goes on with
the value it gives, which is what `poll` takes it to be; otherwise the focus is put back. -/
def pollIn (demand : DemandOf S) (poll : S → S ⊕ R) (budget : Nat) (s : S) : Polled S R × Nat :=
  match demand s with
  | none => (.lasting (poll s), budget)
  | some (focus, putBack) =>
    match focus.drive budget with
    | (.ready _, left) => (.lasting (poll s), left)
    | (.budgetExhausted focus, left) => (.budgetExhausted (putBack focus), left)

/-- The units that the demand of the next poll takes. -/
def demandCost (demand : DemandOf S) (s : S) : Nat :=
  (demand s).elim 0 fun focus => focus.1.depth

/-- A machine whose demand is put back anywhere on its way still demands it, and polls alike. -/
def KeepsDemand (demand : DemandOf S) (poll : S → S ⊕ R) : Prop :=
  ∀ {s : S} {focus : Value} {putBack : Value → S}, demand s = some (focus, putBack) →
    ∀ focus' : Value, focus'.whnf = focus.whnf →
      demand (putBack focus') = some (focus', putBack) ∧ poll (putBack focus') = poll s

/-- **Demands can be interrupted.** -/
theorem KeepsDemand.interruptible {demand : DemandOf S} {poll : S → S ⊕ R}
    (h : KeepsDemand demand poll) :
    Interruptible (pollIn demand poll) poll (demandCost demand) where
  lasts {budget s} hcost := by
    rw [demandCost] at hcost ⊢
    rw [pollIn]
    cases hdemand : demand s with
    | none => rfl
    | some focus =>
      rw [hdemand] at hcost
      simp only [Option.elim_some] at hcost ⊢
      rw [Value.drive_lasts hcost]
  spent {budget s} hpos hcost := by
    rw [demandCost] at hcost
    rw [pollIn]
    cases hdemand : demand s with
    | none =>
      rw [hdemand] at hcost
      exact absurd hcost (Nat.not_le_of_lt hpos)
    | some focus =>
      rw [hdemand] at hcost
      obtain ⟨focus', hdrive, hwhnf, hdepth⟩ := Value.drive_spent hcost
      obtain ⟨hkept, hpoll⟩ := h hdemand focus' hwhnf
      refine ⟨focus.2 focus', 0, by simp only [hdrive], hpoll, ?_⟩
      simp only [demandCost, hkept, hdemand, Option.elim_some]
      exact hdepth

end Glam.Eval
