import Mathlib.Tactic.ByContra
import Mathlib.Tactic.SplitIfs

/-!
# Cycle detection for walks

Detects that a walk with one successor a step has entered a cycle, without remembering the items it
passed: one saved item, moved forward at steps 1, 2, 4, 8 and so on, is compared with each item
(`walk_cycle.rs`). The saved item is the one passed two before the power (`Tracks`), so what is
reported was passed before. Once it lies on the cycle, the walk comes back to it before the power
doubles again (`Within`), and that bounds the items passed.
-/

namespace Glam

/-- The state of the search for a cycle: the item that is compared with, and when another is saved.
-/
structure WalkCycle (α : Type) where
  saved : Option α
  power : Nat
  sinceSaved : Nat

namespace WalkCycle

variable {α : Type}

/-- The walk's item after so many steps, if it has not ended. -/
def visit (successor : α → Option α) (start : α) : Nat → Option α
  | 0 => some start
  | n + 1 => (visit successor start n).bind successor

/-- The items go through `mu` of them and then round a cycle of `lambda`. -/
structure LeadIn (items : Nat → Option α) (mu lambda : Nat) : Prop where
  pos : 0 < lambda
  distinct : ∀ i j, i < j → j < mu + lambda → items i ≠ items j
  round : ∀ i, mu ≤ i → items (i + lambda) = items i
  unending : ∀ i, items i ≠ none

/-- What the detector knows when `n` items have passed. -/
structure Tracks (items : Nat → Option α) (n : Nat) (cycle : WalkCycle α) : Prop where
  passed : n + 1 = cycle.power + cycle.sinceSaved
  since_lt : cycle.sinceSaved < cycle.power
  saved_eq : cycle.saved = if cycle.power = 1 then none else items (cycle.power - 2)

/-- A saved item on the cycle is not due yet, and the power is the first to suffice for that. -/
structure Within (mu lambda : Nat) (cycle : WalkCycle α) : Prop where
  due : mu + 2 ≤ cycle.power → cycle.sinceSaved < lambda
  power_lt : cycle.power < 2 * max (mu + 2) lambda

variable {successor : α → Option α} {start item : α} {items : Nat → Option α}
  {n steps mu lambda : Nat} {cycle next : WalkCycle α}

theorem Within.passed_lt (h : Within mu lambda cycle) (htracks : Tracks items n cycle) :
    n < 2 * max (mu + 1) lambda + lambda := by
  obtain ⟨hpassed, hlt, -⟩ := htracks
  obtain ⟨hdue, hpower_lt⟩ := h
  omega

theorem visit_succ (h : visit successor start n = some item) :
    visit successor start (n + 1) = successor item := by
  rw [visit, h, Option.bind_some]

variable [DecidableEq α]

/-- The search at its start. -/
def new : WalkCycle α := ⟨none, 1, 0⟩

/-- Records the walk's next item. Nothing is returned once the walk has come back to the saved
item. -/
def advance (cycle : WalkCycle α) (item : α) : Option (WalkCycle α) :=
  if cycle.saved = some item then none
  else if cycle.sinceSaved + 1 = cycle.power then some ⟨some item, cycle.power * 2, 0⟩
  else some { cycle with sinceSaved := cycle.sinceSaved + 1 }

/-- Walks until the walk ends or a cycle is detected, with the number of items passed and whether it
was a cycle. -/
def walk (successor : α → Option α) : Nat → WalkCycle α → α → Nat → Option (Nat × Bool)
  | 0, _, _, _ => none
  | fuel + 1, cycle, item, steps =>
    match cycle.advance item with
    | none => some (steps, true)
    | some cycle =>
      match successor item with
      | some next => walk successor fuel cycle next (steps + 1)
      | none => some (steps + 1, false)

theorem advance_eq_some (h : cycle.advance item = some next) : cycle.saved ≠ some item ∧
    (cycle.sinceSaved + 1 = cycle.power ∧
        next.saved = some item ∧ next.power = cycle.power * 2 ∧ next.sinceSaved = 0 ∨
      cycle.sinceSaved + 1 ≠ cycle.power ∧ next.saved = cycle.saved ∧ next.power = cycle.power ∧
        next.sinceSaved = cycle.sinceSaved + 1) := by
  unfold advance at h
  split_ifs at h with hsaved hpower
  · cases h
    exact ⟨hsaved, .inl ⟨hpower, rfl, rfl, rfl⟩⟩
  · cases h
    exact ⟨hsaved, .inr ⟨hpower, rfl, rfl, rfl⟩⟩

theorem Tracks.advance (h : Tracks items n cycle) (hitem : items n = some item)
    (hnext : cycle.advance item = some next) : Tracks items (n + 1) next := by
  obtain ⟨hpassed, hlt, hsaved⟩ := h
  obtain ⟨-, ⟨hpower, hsaved', hpower', hsince⟩ | ⟨hpower, hsaved', hpower', hsince⟩⟩ :=
    advance_eq_some hnext
  · refine ⟨by omega, by omega, ?_⟩
    rw [hsaved', if_neg (by omega), ← hitem]
    congr 1
    omega
  · exact ⟨by omega, by omega, by rw [hsaved', hpower', hsaved]⟩

theorem Tracks.earlier (h : Tracks items n cycle) (hnone : cycle.advance item = none) :
    ∃ m < n, items m = some item := by
  obtain ⟨hpassed, hlt, hsaved⟩ := h
  unfold WalkCycle.advance at hnone
  split_ifs at hnone with heq
  rw [heq] at hsaved
  split_ifs at hsaved with hpower
  exact ⟨cycle.power - 2, by omega, hsaved.symm⟩

/-- The saved item comes back after `lambda` items, before the power doubles. -/
theorem Within.advance (h : Within mu lambda cycle) (htracks : Tracks items n cycle)
    (hleadIn : LeadIn items mu lambda) (hitem : items n = some item)
    (hnext : cycle.advance item = some next) : Within mu lambda next := by
  obtain ⟨hpassed, hlt, hsaved⟩ := htracks
  obtain ⟨hdue, hpower_lt⟩ := h
  obtain ⟨hne, hcases⟩ := advance_eq_some hnext
  have hsoon : mu + 2 ≤ cycle.power → cycle.sinceSaved + 1 < lambda := by
    intro hpower
    have hless := hdue hpower
    by_contra hback
    refine hne ?_
    rw [hsaved, if_neg (by omega), ← hitem, ← hleadIn.round _ (by omega)]
    congr 1
    omega
  have hpos := hleadIn.pos
  obtain ⟨hpower, -, hpower', hsince⟩ | ⟨-, -, hpower', hsince⟩ := hcases
  · exact ⟨by omega, by omega⟩
  · exact ⟨by omega, by omega⟩

/-- A cycle that is reported is there: an item was visited twice. -/
theorem exists_visit_eq_of_walk (fuel : Nat) (htracks : Tracks (visit successor start) n cycle)
    (hitem : visit successor start n = some item)
    (hwalk : walk successor fuel cycle item n = some (steps, true)) :
    ∃ m < steps, visit successor start m = visit successor start steps ∧
      visit successor start steps ≠ none := by
  induction fuel generalizing n cycle item with
  | zero => cases hwalk
  | succ fuel ih =>
    unfold walk at hwalk
    cases hnext : cycle.advance item with
    | none =>
      rw [hnext] at hwalk
      cases hwalk
      obtain ⟨m, hm, hback⟩ := htracks.earlier hnext
      exact ⟨m, hm, hback.trans hitem.symm, by rw [hitem]; nofun⟩
    | some next =>
      cases hsucc : successor item with
      | none =>
        simp only [hnext, hsucc] at hwalk
        cases hwalk
      | some item' =>
        simp only [hnext, hsucc] at hwalk
        exact ih (htracks.advance hitem hnext) ((visit_succ hitem).trans hsucc) hwalk

/-- A cycle that is there is reported within a number of steps that its length and its lead-in
bound. -/
theorem exists_walk_eq (h : LeadIn (visit successor start) mu lambda) (fuel : Nat)
    (hfuel : 2 * max (mu + 1) lambda + lambda < fuel + n)
    (htracks : Tracks (visit successor start) n cycle) (hwithin : Within mu lambda cycle)
    (hitem : visit successor start n = some item) :
    ∃ steps ≤ 2 * max (mu + 1) lambda + lambda,
      walk successor fuel cycle item n = some (steps, true) := by
  have hlt := hwithin.passed_lt htracks
  induction fuel generalizing n cycle item with
  | zero => omega
  | succ fuel ih =>
    unfold walk
    cases hnext : cycle.advance item with
    | none => exact ⟨n, Nat.le_of_lt hlt, rfl⟩
    | some next =>
      have hvisit := visit_succ hitem
      have htracks' := htracks.advance hitem hnext
      have hwithin' := hwithin.advance htracks h hitem hnext
      cases hsucc : successor item with
      | none => exact absurd (hvisit.trans hsucc) (h.unending _)
      | some item' =>
        exact ih (by omega) htracks' hwithin' (hvisit.trans hsucc) (hwithin'.passed_lt htracks')

/-- **The detector.** A walk that never repeats an item is not reported. One with a lead-in of `mu`
items before a cycle of `lambda` is, when at least `mu + lambda` items have passed and at most
`2 * max (mu + 1) lambda + lambda`. -/
theorem walk_spec (successor : α → Option α) (start : α) :
    ((∀ i j, i < j → visit successor start j ≠ none →
        visit successor start i ≠ visit successor start j) →
      ∀ fuel steps, walk successor fuel new start 0 ≠ some (steps, true)) ∧
    ∀ mu lambda, LeadIn (visit successor start) mu lambda →
      ∀ fuel, 2 * max (mu + 1) lambda + lambda < fuel →
        ∃ steps, walk successor fuel new start 0 = some (steps, true) ∧ mu + lambda ≤ steps ∧
          steps ≤ 2 * max (mu + 1) lambda + lambda := by
  have htracks : Tracks (visit successor start) 0 new := ⟨rfl, Nat.one_pos, rfl⟩
  refine ⟨fun hdistinct fuel steps hwalk => ?_, fun mu lambda h fuel hfuel => ?_⟩
  · obtain ⟨m, hm, heq, hsome⟩ := exists_visit_eq_of_walk fuel htracks rfl hwalk
    exact hdistinct m steps hm hsome heq
  · have hwithin : Within mu lambda (new : WalkCycle α) :=
      ⟨fun _ => h.pos, by simp only [new]; omega⟩
    obtain ⟨steps, hle, hwalk⟩ := exists_walk_eq h fuel hfuel htracks hwithin rfl
    obtain ⟨m, hm, heq, -⟩ := exists_visit_eq_of_walk fuel htracks rfl hwalk
    refine ⟨steps, hwalk, ?_, hle⟩
    by_contra hless
    exact h.distinct m steps hm (by omega) heq

end WalkCycle

end Glam
