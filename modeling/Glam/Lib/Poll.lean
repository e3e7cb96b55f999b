import Mathlib

/-!
# Machines that are polled

A resumable machine is a state and a poll: one poll leaves the next state or stops with a result.
`Leads` says where polling gets to, as a state on the way or as the result. Statements about a
machine with a stack are proved with it frame by frame and put together with `Leads.trans`;
`leads_result_iff` reads the last of them as a run with enough fuel.

A machine may also be run under budgets, which interrupt it between its polls or within one
(`machineSteps`). `Interruptible` says what a poll has to keep for that to make no difference, and
`Leads.anySlices` that it makes none.
-/

namespace Glam

variable {S R : Type} {poll : S → S ⊕ R} {s t : S} {x : S ⊕ R} {r r' : R}

/-- The result after at most `fuel` polls. -/
def runPolls (poll : S → S ⊕ R) : (fuel : Nat) → S → Option R
  | 0, _ => none
  | fuel + 1, s =>
    match poll s with
    | .inl t => runPolls poll fuel t
    | .inr r => some r

/-- One or more polls from `s` give `x`. -/
inductive Leads (poll : S → S ⊕ R) : S → S ⊕ R → Prop
  | poll (s : S) : Leads poll s (poll s)
  | later {s t : S} {x : S ⊕ R} : poll s = .inl t → Leads poll t x → Leads poll s x

namespace Leads

theorem of_eq (h : poll s = x) : Leads poll s x := h ▸ .poll s

theorem trans (h : Leads poll s (.inl t)) (ht : Leads poll t x) : Leads poll s x := by
  generalize hy : (.inl t : S ⊕ R) = y at h
  induction h with
  | poll => exact .later hy.symm ht
  | later hs _ ih => exact .later hs (ih hy)

end Leads

/-- A machine leads to a result exactly if some number of polls returns it. -/
theorem leads_result_iff : Leads poll s (.inr r) ↔ ∃ fuel, runPolls poll fuel s = some r := by
  constructor
  · intro h
    generalize hy : (.inr r : S ⊕ R) = y at h
    induction h with
    | poll => exact ⟨1, by simp only [runPolls, ← hy]⟩
    | later hs _ ih =>
      obtain ⟨fuel, hfuel⟩ := ih hy
      exact ⟨fuel + 1, by simpa only [runPolls, hs] using hfuel⟩
  · rintro ⟨fuel, hfuel⟩
    induction fuel generalizing s with
    | zero => cases hfuel
    | succ fuel ih =>
      cases hs : poll s with
      | inl => exact .later hs (ih (by simpa only [runPolls, hs] using hfuel))
      | inr =>
        simp only [runPolls, hs, Option.some.injEq] at hfuel
        exact .of_eq (hfuel ▸ hs)

theorem Leads.result_unique (h : Leads poll s (.inr r)) (h' : Leads poll s (.inr r')) :
    r = r' := by
  obtain ⟨fuel, hfuel⟩ := leads_result_iff.mp h
  clear h
  induction fuel generalizing s with
  | zero => cases hfuel
  | succ fuel ih =>
    generalize hy : (.inr r' : S ⊕ R) = y at h'
    cases h' with
    | poll => simpa [runPolls, ← hy] using hfuel.symm
    | later hs h' => exact ih (hy ▸ h') (by simpa only [runPolls, hs] using hfuel)

/-! ### Polls under a budget

A poll may have work of its own to pay for, and run out of its budget before that is done. It then
leaves a state to go on from. What matters is that the state comes to the same as the one before,
with the work paid for so far behind it.
-/

/-- What a poll under a budget comes to. -/
inductive Polled (S R : Type)
  | again (s : S)
  | budgetExhausted (s : S)
  | done (r : R)

/-- What a poll comes to that the budget lasts for. -/
def Polled.lasting : S ⊕ R → Polled S R
  | .inl s => .again s
  | .inr r => .done r

/-- Polls until there is a result or the budget is spent. Each poll is given the budget there is and
returns what it leaves of it, and one that goes on costs a unit more. So there are no more polls than
units, and `fuel` is the budget to begin with. -/
def machineSteps (pollIn : Nat → S → Polled S R × Nat) : (fuel budget : Nat) → S → S ⊕ R
  | 0, _, s => .inl s
  | fuel + 1, budget, s =>
    if budget = 0 then .inl s
    else
      match pollIn budget s with
      | (.again t, left) => machineSteps pollIn fuel (left - 1) t
      | (.budgetExhausted t, _) => .inl t
      | (.done r, _) => .inr r

/-- Polls in slices, each with a budget of its own: it goes on from the state that the one before has
left. -/
def runSliced (pollIn : Nat → S → Polled S R × Nat) : (budgets : List Nat) → S → Option R
  | [], _ => none
  | budget :: budgets, s =>
    match machineSteps pollIn budget budget s with
    | .inl t => runSliced pollIn budgets t
    | .inr r => some r

/-- **Interruptible polls.** A budget that exceeds the cost of a poll lasts for it. Any other is
spent, and the state it leaves polls alike, at a cost that is lower by what was spent. -/
structure Interruptible (pollIn : Nat → S → Polled S R × Nat) (poll : S → S ⊕ R)
    (cost : S → Nat) : Prop where
  lasts : ∀ {budget s}, cost s < budget →
    pollIn budget s = (.lasting (poll s), budget - cost s)
  spent : ∀ {budget s}, 0 < budget → budget ≤ cost s →
    ∃ t left, pollIn budget s = (.budgetExhausted t, left) ∧ poll t = poll s ∧
      cost t + budget = cost s

/-- The units that `fuel` polls take, if there are as many. -/
def totalCost (poll : S → S ⊕ R) (cost : S → Nat) : (fuel : Nat) → S → Nat
  | 0, _ => 0
  | fuel + 1, s => cost s + 1 + (poll s).elim (totalCost poll cost fuel) fun _ => 0

section Slices

variable {pollIn : Nat → S → Polled S R × Nat} {cost : S → Nat}

/-- One slice gets to the result if the budget covers the total cost. Otherwise it is spent in full,
and what it leaves comes to the same result. -/
theorem machineSteps_spec (law : Interruptible pollIn poll cost) {polls : Nat}
    (h : runPolls poll polls s = some r) {fuel budget : Nat} (hfuel : budget ≤ fuel) :
    (totalCost poll cost polls s ≤ budget → machineSteps pollIn fuel budget s = .inr r) ∧
    (budget < totalCost poll cost polls s → ∃ t polls', machineSteps pollIn fuel budget s = .inl t ∧
      runPolls poll polls' t = some r ∧
      totalCost poll cost polls' t + budget = totalCost poll cost polls s) := by
  induction polls generalizing s fuel budget with
  | zero => cases h
  | succ polls ih =>
    have htotal : totalCost poll cost (polls + 1) s =
        cost s + 1 + (poll s).elim (totalCost poll cost polls) fun _ => 0 := rfl
    obtain rfl | hpos := Nat.eq_zero_or_pos budget
    · -- nothing to spend: the slice leaves the state as it is
      refine ⟨fun hle => absurd hle (by omega), fun _ => ⟨s, polls + 1, ?_, h, rfl⟩⟩
      cases fuel <;> rfl
    obtain ⟨fuel, rfl⟩ := Nat.exists_eq_add_of_lt (hpos.trans_le hfuel)
    rw [Nat.zero_add] at hfuel ⊢
    rw [machineSteps, if_neg hpos.ne']
    by_cases hcost : cost s < budget
    · rw [law.lasts hcost, htotal]
      rw [runPolls] at h
      cases hpoll : poll s with
      | inl t =>
        rw [hpoll] at h
        obtain ⟨hdone, hgoes⟩ := ih h (show budget - cost s - 1 ≤ fuel by omega)
        simp only [Polled.lasting, Sum.elim_inl]
        refine ⟨fun hle => hdone (by omega), fun hlt => ?_⟩
        obtain ⟨u, polls', hsteps, hu, hleft⟩ := hgoes (by omega)
        exact ⟨u, polls', hsteps, hu, by omega⟩
      | inr r' =>
        rw [hpoll, Option.some.injEq] at h
        subst h
        exact ⟨fun _ => rfl, fun hlt => absurd hlt (by simpa using hcost)⟩
    · obtain ⟨t, left, hpoll, hsame, hleft⟩ := law.spent hpos (Nat.le_of_not_lt hcost)
      rw [hpoll]
      refine ⟨fun hle => absurd hle (by omega), fun _ => ⟨t, polls + 1, rfl, ?_, ?_⟩⟩
      · rwa [runPolls, hsame]
      · rw [totalCost, hsame, htotal]
        omega

/-- The machine comes to the result once the budgets of its slices add up to what it needs, however
they are sliced, and to none before. -/
def AnySlices (pollIn : Nat → S → Polled S R × Nat) (s : S) (r : R) : Prop :=
  ∃ needed, ∀ budgets : List Nat,
    runSliced pollIn budgets s = if needed ≤ budgets.sum then some r else none

/-- **Slices do not matter**: a machine that comes to a result comes to it under any budgets. -/
theorem Leads.anySlices (law : Interruptible pollIn poll cost) (h : Leads poll s (.inr r)) :
    AnySlices pollIn s r := by
  obtain ⟨polls, hpolls⟩ := leads_result_iff.mp h
  refine ⟨totalCost poll cost polls s, fun budgets => ?_⟩
  clear h
  induction budgets generalizing s polls with
  | nil =>
    cases polls with
    | zero => cases hpolls
    | succ => rw [runSliced, if_neg (by rw [totalCost, List.sum_nil]; omega)]
  | cons budget budgets ih =>
    obtain ⟨hdone, hgoes⟩ := machineSteps_spec law hpolls (le_refl budget)
    rw [runSliced, List.sum_cons]
    by_cases hle : totalCost poll cost polls s ≤ budget
    · rw [hdone hle, if_pos (by omega)]
    · obtain ⟨t, polls', hsteps, ht, hleft⟩ := hgoes (Nat.lt_of_not_le hle)
      rw [hsteps]
      simp only [ih polls' ht, ← hleft, Nat.add_comm budget, Nat.add_le_add_iff_right]

end Slices

end Glam
