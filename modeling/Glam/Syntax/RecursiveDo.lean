import Mathlib

/-!
# Plans of recursive `do` blocks

A name declared in one step of a `do` block and fulfilled in a later one is in scope over an
interval of steps. Intervals that cross are no scopes, so the planner moves starts down until none
do. It repairs one pair of names at a time, in index order, and goes on until a pass changes nothing.

A repair moves a start no further than any choice of starts without crossings has it
(`le_of_repair`). So the order of the repairs does not matter: what is left is the latest such
choice (`alignCrossingStarts_greatest`). Without crossings, a name that starts before another ends
contains it, as long as it comes first in the order of the scope tree. The stack of the tree builder
is then a filter of the names it has seen (`Placed.stack`), with the smallest container on top.
-/

namespace Glam.Syntax.RecursiveDo

/-! ### The planner -/

/-- What a step does to promises. -/
inductive Event
  | none
  | declare (ids : List Nat)
  | fulfill (id : Nat)

/-- A step of a `do` block. -/
structure Step where
  line : Nat
  event : Event

/-- Whether an event declares a promise. -/
def Event.declares (id : Nat) : Event → Bool
  | declare ids => id ∈ ids
  | _ => false

/-- Whether an event fulfils a promise. -/
def Event.fulfills (id : Nat) : Event → Bool
  | fulfill id' => id = id'
  | _ => false

/-- What the first loop of `RecursiveDoPlan::build` leaves as a step of a name: the last that hits,
from the one with the index on. `usize::MAX` is `none`. -/
def lastStep (hits : Event → Bool) (found : Option Nat) (index : Nat) : List Step → Option Nat
  | [] => found
  | step :: steps =>
    lastStep hits (if hits step.event then some index else found) (index + 1) steps

/-- `left` ends within `right`, which starts within `left`. -/
def Crosses (stop start : Nat → Nat) (left right : Nat) : Prop :=
  start left < start right ∧ start right < stop left ∧ stop left < stop right

instance (stop start : Nat → Nat) (left right : Nat) : Decidable (Crosses stop start left right) :=
  inferInstanceAs (Decidable (_ ∧ _ ∧ _))

/-- Moves the start of a scope that crosses another to the other's start. -/
def alignPair (stop : Nat → Nat) (aligned : (Nat → Nat) × Bool) (pair : Nat × Nat) :
    (Nat → Nat) × Bool :=
  if Crosses stop aligned.1 pair.1 pair.2 then
    (Function.update aligned.1 pair.2 (aligned.1 pair.1), true)
  else aligned

/-- The pairs of names, as two nested loops go through them. -/
def pairs (count : Nat) : List (Nat × Nat) :=
  List.range count ×ˢ List.range count

/-- The loop of `align_crossing_starts`; `fuel` bounds the passes. -/
def alignLoop (count : Nat) (stop : Nat → Nat) : Nat → (Nat → Nat) → Nat → Nat
  | 0, start => start
  | fuel + 1, start =>
    let aligned := (pairs count).foldl (alignPair stop) (start, false)
    if aligned.2 then alignLoop count stop fuel aligned.1 else aligned.1

/-- Moves starts until no scopes cross. -/
def alignCrossingStarts (count : Nat) (stop start : Nat → Nat) : Nat → Nat :=
  alignLoop count stop (((List.range count).map start).sum + 1) start

/-- The order of the scope tree: by start, and then from the latest end. -/
def Precedes (stop start : Nat → Nat) (a b : Nat) : Prop :=
  start a < start b ∨ start a = start b ∧ (stop b < stop a ∨ stop a = stop b ∧ a ≤ b)

instance (stop start : Nat → Nat) : DecidableRel (Precedes stop start) :=
  fun _ _ => inferInstanceAs (Decidable (_ ∨ _ ∧ (_ ∨ _ ∧ _)))

/-- The scopes placed so far. -/
structure Scopes where
  roots : List Nat
  children : Nat → List Nat
  /-- open scopes, the innermost first -/
  stack : List Nat

/-- Places a scope within the innermost open one that has not ended. -/
def Scopes.place (stop start : Nat → Nat) (scopes : Scopes) (id : Nat) : Scopes :=
  match scopes.stack.dropWhile fun parent => stop parent < start id with
  | [] => ⟨scopes.roots ++ [id], scopes.children, [id]⟩
  | parent :: outer =>
    ⟨scopes.roots, Function.update scopes.children parent (scopes.children parent ++ [id]),
      id :: parent :: outer⟩

/-- Places the scopes by their starts. -/
def buildScopeTree (count : Nat) (stop start : Nat → Nat) : Scopes :=
  ((List.range count).insertionSort (Precedes stop start)).foldl (Scopes.place stop start)
    ⟨[], fun _ => [], []⟩

/-- Where each promise's scope starts and ends, and which scopes are within which. -/
structure Plan where
  declarationStep : Nat → Nat
  fulfillmentStep : Nat → Nat
  semanticStart : Nat → Nat
  children : Nat → List Nat
  roots : List Nat

/-- `RecursiveDoPlan::build`, for the canonical names. -/
def build (steps : List Step) (names : List String) : Except (Nat × String) Plan :=
  let declarationStep id := (lastStep (·.declares id) none 0 steps).getD 0
  let fulfillment id := lastStep (·.fulfills id) none 0 steps
  let unfulfilled := (List.range names.length).filter fun id => (fulfillment id).isNone
  match (unfulfilled.map declarationStep).min? with
  | some first =>
    let unresolved := unfulfilled.filter fun id => declarationStep id = first
    .error ((steps.map Step.line).getD first 0,
      "recursive do `declare` statement has no later fulfillment for " ++
        ", ".intercalate (unresolved.map fun id => s!"`{names.getD id default}`"))
  | none =>
    let fulfillmentStep id := (fulfillment id).getD 0
    let start := alignCrossingStarts names.length fulfillmentStep declarationStep
    let scopes := buildScopeTree names.length fulfillmentStep start
    .ok ⟨declarationStep, fulfillmentStep, start, scopes.children, scopes.roots⟩

/-! ### Aligning -/

section Align

variable {count : Nat} {stop start start' latest : Nat → Nat}

variable {left right : Nat}

/-- **A repair moves no start below a choice of starts without crossings.** -/
theorem le_of_repair (hcross : Crosses stop start left right)
    (hlatest : ¬ Crosses stop latest left right) (hleft : latest left ≤ start left)
    (hright : latest right ≤ start right) : latest right ≤ start left := by
  unfold Crosses at *
  omega

/-- The sum of all starts, which each alignment makes smaller. -/
def weight (count : Nat) (start : Nat → Nat) : Nat :=
  ((List.range count).map start).sum

theorem weight_repair (hcross : Crosses stop start left right) (hright : right < count) :
    weight count (Function.update start right (start left)) < weight count start := by
  refine List.sum_lt_sum _ _ (fun id _ => ?_) ⟨right, List.mem_range.mpr hright, ?_⟩
  · by_cases hid : id = right
    · rw [hid, Function.update_self]
      exact hcross.1.le
    · rw [Function.update_of_ne hid]
  · rw [Function.update_self]
    exact hcross.1

/-- A pass lowers starts, or finds no crossing and changes nothing. -/
theorem foldl_alignPair (stop start : Nat → Nat) {list : List (Nat × Nat)}
    (hlist : ∀ pair ∈ list, pair.2 < count) (changed : Bool) :
    let aligned := list.foldl (alignPair stop) (start, changed)
    weight count aligned.1 ≤ weight count start ∧
      (aligned.2 = true → changed = true ∨ weight count aligned.1 < weight count start) ∧
      (aligned.2 = false → changed = false ∧ aligned.1 = start ∧
        ∀ pair ∈ list, ¬ Crosses stop start pair.1 pair.2) := by
  induction list generalizing start changed with
  | nil => exact ⟨le_rfl, .inl, fun hchanged => ⟨hchanged, rfl, nofun⟩⟩
  | cons pair list ih =>
    obtain ⟨hpair, hlist⟩ := List.forall_mem_cons.mp hlist
    rw [List.foldl_cons, alignPair]
    split
    next hcross =>
      have hless := weight_repair hcross hpair
      obtain ⟨hle, -, hsame⟩ := ih (Function.update start pair.2 (start pair.1)) hlist true
      exact ⟨hle.trans hless.le, fun _ => .inr (hle.trans_lt hless),
        fun hunchanged => absurd (hsame hunchanged).1 nofun⟩
    next hcross =>
      obtain ⟨hle, hchanged, hsame⟩ := ih start hlist changed
      refine ⟨hle, hchanged, fun hunchanged => ?_⟩
      obtain ⟨hflag, heq, hnone⟩ := hsame hunchanged
      exact ⟨hflag, heq, List.forall_mem_cons.mpr ⟨hcross, hnone⟩⟩

theorem mem_pairs {pair : Nat × Nat} : pair ∈ pairs count ↔ pair.1 < count ∧ pair.2 < count := by
  rw [pairs, List.mem_product, List.mem_range, List.mem_range]

/-- **Enough passes leave no crossing.** -/
theorem not_crosses_alignLoop {fuel : Nat} (hfuel : weight count start < fuel)
    (hleft : left < count) (hright : right < count) :
    ¬ Crosses stop (alignLoop count stop fuel start) left right := by
  induction fuel generalizing start with
  | zero => cases hfuel
  | succ fuel ih =>
    obtain ⟨-, hchanged, hsame⟩ :=
      foldl_alignPair stop start (fun (pair : Nat × Nat) hpair => (mem_pairs.mp hpair).2) false
    rw [alignLoop]
    split
    next haligned =>
      rcases hchanged haligned with hflag | hless
      · cases hflag
      · exact ih (by omega)
    next haligned =>
      obtain ⟨-, heq, hnone⟩ := hsame (Bool.not_eq_true _ ▸ haligned)
      rw [heq]
      exact hnone (left, right) (mem_pairs.mpr ⟨hleft, hright⟩)

/-- What one repair of crossing scopes preserves, all of them do. -/
theorem alignCrossingStarts_induct {P : (Nat → Nat) → Prop}
    (hrepair : ∀ start left right, left < count → right < count → Crosses stop start left right →
      P start → P (Function.update start right (start left)))
    (hstart : P start) : P (alignCrossingStarts count stop start) := by
  have hpass {start : Nat → Nat} (hstart : P start) :
      P ((pairs count).foldl (alignPair stop) (start, false)).1 := by
    refine List.foldlRecOn (motive := fun aligned : _ × Bool => P aligned.1) _ _ hstart ?_
    intro aligned h pair hpair
    obtain ⟨hleft, hright⟩ := mem_pairs.mp hpair
    unfold alignPair
    split
    next hcross => exact hrepair _ _ _ hleft hright hcross h
    next => exact h
  unfold alignCrossingStarts
  generalize ((List.range count).map start).sum + 1 = fuel
  induction fuel generalizing start with
  | zero => exact hstart
  | succ fuel ih =>
    rw [alignLoop]
    split
    · exact ih (hpass hstart)
    · exact hpass hstart

theorem alignCrossingStarts_le (id : Nat) : alignCrossingStarts count stop start id ≤ start id := by
  refine alignCrossingStarts_induct (P := fun aligned => ∀ id, aligned id ≤ start id) ?_
    (fun _ => le_rfl) id
  intro aligned left right _ _ hcross h
  exact (Function.forall_update_iff aligned (p := fun id first => first ≤ start id)).mpr
    ⟨hcross.1.le.trans (h right), fun id _ => h id⟩

theorem exists_alignCrossingStarts_eq {id : Nat} (hid : id < count) :
    ∃ other < count, alignCrossingStarts count stop start id = start other := by
  refine alignCrossingStarts_induct
    (P := fun aligned => ∀ id < count, ∃ other < count, aligned id = start other) ?_
    (fun id hid => ⟨id, hid, rfl⟩) id hid
  intro aligned left right hleft _ _ h
  exact (Function.forall_update_iff aligned
    (p := fun id first => id < count → ∃ other < count, first = start other)).mpr
    ⟨fun _ => h left hleft, fun id _ => h id⟩

/-- **The starts are the latest ones without crossings.** -/
theorem alignCrossingStarts_greatest
    (hlatest : ∀ left < count, ∀ right < count, ¬ Crosses stop latest left right)
    (hle : ∀ id < count, latest id ≤ start id) {id : Nat} (hid : id < count) :
    latest id ≤ alignCrossingStarts count stop start id := by
  refine alignCrossingStarts_induct (P := fun aligned => ∀ id < count, latest id ≤ aligned id) ?_
    hle id hid
  intro aligned left right hleft hright hcross h
  refine (Function.forall_update_iff aligned
    (p := fun id first => id < count → latest id ≤ first)).mpr ⟨fun _ => ?_, fun id _ => h id⟩
  exact le_of_repair hcross (hlatest left hleft right hright) (h left hleft) (h right hright)

end Align

/-! ### The scope tree -/

section Tree

variable {count : Nat} {stop start : Nat → Nat} {a b id : Nat}

/-- Whether the first scope holds the second. -/
def Contains (stop start : Nat → Nat) (a b : Nat) : Prop :=
  a ≠ b ∧ start a ≤ start b ∧ stop b ≤ stop a

/-- The smallest interval that contains another. -/
structure Smallest (count : Nat) (stop start : Nat → Nat) (parent id : Nat) : Prop where
  lt : parent < count
  contains : Contains stop start parent id
  smallest : ∀ other < count, Contains stop start other id →
    other = parent ∨ Contains stop start other parent

/-- Intervals of which no two cross; each has an end of its own. -/
structure Laminar (count : Nat) (stop start : Nat → Nat) : Prop where
  lt : ∀ id < count, start id < stop id
  apart : ∀ a < count, ∀ b < count, start a ≠ stop b
  injective : ∀ a < count, ∀ b < count, stop a = stop b → a = b
  uncrossed : ∀ left < count, ∀ right < count, ¬ Crosses stop start left right

instance : Std.Total (Precedes stop start) where
  total a b := by
    unfold Precedes
    omega

instance : IsTrans Nat (Precedes stop start) where
  trans a b c := by
    unfold Precedes
    omega

section

variable (h : Laminar count stop start) (ha : a < count) (hb : b < count)
include h ha hb

theorem Laminar.contains (hprecedes : Precedes stop start a b) (hne : a ≠ b)
    (hopen : start b ≤ stop a) : Contains stop start a b := by
  have huncrossed := h.uncrossed a ha b hb
  have hapart := h.apart b hb a ha
  unfold Precedes at hprecedes
  unfold Crosses at huncrossed
  refine ⟨hne, ?_, ?_⟩ <;> omega

theorem Laminar.precedes (hcontains : Contains stop start a b) : Precedes stop start a b := by
  obtain ⟨hne, hstart, hstop⟩ := hcontains
  have hends := mt (h.injective a ha b hb) hne
  unfold Precedes
  omega

theorem Laminar.not_contains (hcontains : Contains stop start a b) : ¬ Contains stop start b a :=
  fun hinverse => hcontains.1 (h.injective a ha b hb (hinverse.2.2.antisymm hcontains.2.2))

end

theorem dropWhile_dropWhile {p q : Nat → Bool} (hpq : ∀ a, p a → q a) (l : List Nat) :
    (l.dropWhile p).dropWhile q = l.dropWhile q := by
  induction l with
  | nil => rfl
  | cons a l ih =>
    by_cases hp : p a
    · rw [List.dropWhile_cons_of_pos hp, List.dropWhile_cons_of_pos (hpq a hp), ih]
    · rw [List.dropWhile_cons_of_neg hp]

/-- **The scopes of the names seen so far**, in the order of the tree. -/
structure Placed (count : Nat) (stop start : Nat → Nat) (seen : List Nat) (scopes : Scopes) :
    Prop where
  /-- what is open at a step from here on -/
  stack : ∀ now, (∀ id ∈ seen, start id ≤ now) →
    scopes.stack.dropWhile (fun parent => stop parent < now) = seen.reverse.filter (now ≤ stop ·)
  roots : ∀ id ∈ scopes.roots, id ∈ seen ∧ ∀ other < count, ¬ Contains stop start other id
  children : ∀ parent, ∀ id ∈ scopes.children parent,
    id ∈ seen ∧ Smallest count stop start parent id
  placed : ∀ id ∈ seen, id ∈ scopes.roots ∨ ∃ parent, id ∈ scopes.children parent
  rootsApart : scopes.roots.Pairwise fun a b => stop a < start b
  childrenApart : ∀ parent, (scopes.children parent).Pairwise fun a b => stop a < start b

section Place

variable {seen rest : List Nat} {scopes : Scopes} (h : Laminar count stop start)
  (hsorted : (seen ++ id :: rest).Pairwise (Precedes stop start))
  (hnodup : (seen ++ id :: rest).Nodup) (hall : ∀ a, a ∈ seen ++ id :: rest ↔ a < count)
include h hsorted hnodup hall

/-- What is open when a name is placed: the intervals that contain it. -/
theorem open_iff (a : Nat) :
    a ∈ seen.reverse.filter (start id ≤ stop ·) ↔ a < count ∧ Contains stop start a id := by
  have hid : id < count := (hall id).mp (by simp)
  rw [List.mem_filter, List.mem_reverse, decide_eq_true_eq]
  constructor
  · rintro ⟨hseen, hopen⟩
    have ha : a < count := (hall a).mp (List.mem_append_left _ hseen)
    have hprecedes := (List.pairwise_append.mp hsorted).2.2 a hseen id (.head _)
    have hne := (List.nodup_append.mp hnodup).2.2 a hseen id (.head _)
    exact ⟨ha, h.contains ha hid hprecedes hne hopen⟩
  · rintro ⟨ha, hcontains⟩
    have hlt := h.lt id hid
    refine ⟨?_, by have := hcontains.2.2; omega⟩
    rcases List.mem_append.mp ((hall a).mpr ha) with hseen | hrest
    · exact hseen
    · exfalso
      rcases List.mem_cons.mp hrest with rfl | hrest
      · exact hcontains.1 rfl
      · have hafter := (List.pairwise_cons.mp (List.pairwise_append.mp hsorted).2.1).1 a hrest
        have hbefore := h.precedes ha hid hcontains
        have hne := hcontains.1
        unfold Precedes at hafter hbefore
        omega

/-- The first that is open is the smallest that contains the name. -/
theorem smallest_of_open {parent : Nat} {outer : List Nat}
    (hopen : seen.reverse.filter (start id ≤ stop ·) = parent :: outer) :
    Smallest count stop start parent id := by
  have hiff := open_iff h hsorted hnodup hall
  rw [hopen] at hiff
  obtain ⟨hparent, hcontains⟩ := (hiff parent).mp (.head _)
  refine ⟨hparent, hcontains, fun other hother hcontains' => ?_⟩
  rcases List.mem_cons.mp ((hiff other).mpr ⟨hother, hcontains'⟩) with heq | houter
  · exact .inl heq
  · -- the others come before it in the order
    have hback : (parent :: outer).Pairwise fun a b => Precedes stop start b a ∧ b ≠ a := by
      rw [← hopen]
      refine List.Pairwise.sublist List.filter_sublist (List.pairwise_reverse.mpr ?_)
      exact (List.pairwise_append.mp hsorted).1.and (List.nodup_append.mp hnodup).1
    obtain ⟨hprecedes, hne⟩ := (List.pairwise_cons.mp hback).1 other houter
    have hlt := h.lt id ((hall id).mp (by simp))
    have hstart := hcontains.2.1
    have hstop := hcontains'.2.2
    exact .inr (h.contains hother hparent hprecedes hne (by omega))

variable (hplaced : Placed count stop start seen scopes)
include hplaced

omit h hnodup hall in
theorem Placed.stack_eq : scopes.stack.dropWhile (fun parent => stop parent < start id) =
    seen.reverse.filter (start id ≤ stop ·) := by
  refine hplaced.stack (start id) fun a ha => ?_
  have hprecedes := (List.pairwise_append.mp hsorted).2.2 a ha id (.head _)
  unfold Precedes at hprecedes
  omega

/-- The open scopes are those placed so far that have not ended. -/
theorem Placed.stack_cons {now : Nat} (hnow : ∀ a ∈ seen ++ [id], start a ≤ now) :
    (id :: seen.reverse.filter (start id ≤ stop ·)).dropWhile (fun parent => stop parent < now) =
      (seen ++ [id]).reverse.filter (now ≤ stop ·) := by
  have hid : start id ≤ now := hnow id (by simp)
  rw [List.reverse_append, List.reverse_singleton, List.singleton_append]
  by_cases hlate : stop id < now
  · rw [List.dropWhile_cons_of_pos (by simpa using hlate), ← hplaced.stack_eq hsorted,
      dropWhile_dropWhile, List.filter_cons_of_neg (by simpa using hlate)]
    · exact hplaced.stack now fun a ha => hnow a (List.mem_append_left _ ha)
    · simp only [decide_eq_true_eq]
      exact fun _ hstop => hstop.trans_le hid
  · -- what is open now contains the name, so it stays open as long
    rw [List.dropWhile_cons_of_neg (by simpa using hlate),
      List.filter_cons_of_pos (by simpa using hlate)]
    congr 1
    refine List.filter_congr fun a ha => decide_eq_decide.mpr ⟨fun hstop => ?_, hid.trans⟩
    have hopen : a ∈ seen.reverse.filter (start id ≤ stop ·) :=
      List.mem_filter.mpr ⟨ha, decide_eq_true hstop⟩
    exact (Nat.not_lt.mp hlate).trans ((open_iff h hsorted hnodup hall a).mp hopen).2.2.2

/-- **Placing a name** under the smallest that contains it. -/
theorem Placed.place : Placed count stop start (seen ++ [id]) (scopes.place stop start id) := by
  have hopen := open_iff h hsorted hnodup hall
  have hstack (now : Nat) (hnow : ∀ a ∈ seen ++ [id], start a ≤ now) :=
    Placed.stack_cons h hsorted hnodup hall hplaced hnow
  have hseen {a : Nat} (ha : a ∈ seen) : a ∈ seen ++ [id] := List.mem_append_left _ ha
  -- a name that is not open has ended
  have hended : ∀ a ∈ seen, ¬ Contains stop start a id → stop a < start id := by
    intro a ha hnot
    by_contra hstop
    refine hnot ((hopen a).mp (List.mem_filter.mpr ⟨List.mem_reverse.mpr ha, ?_⟩)).2
    simpa using hstop
  unfold Scopes.place
  rw [hplaced.stack_eq hsorted]
  cases hcase : seen.reverse.filter (start id ≤ stop ·) with
  | nil =>
    rw [hcase] at hstack hopen
    have hroot : ∀ other < count, ¬ Contains stop start other id :=
      fun other hother hcontains => nomatch (hopen other).mpr ⟨hother, hcontains⟩
    refine ⟨hstack, ?_, ?_, ?_, ?_, hplaced.childrenApart⟩
    · exact List.forall_mem_append.mpr ⟨fun a ha => (hplaced.roots a ha).imp_left hseen,
        List.forall_mem_singleton.mpr ⟨by simp, hroot⟩⟩
    · exact fun parent a ha => (hplaced.children parent a ha).imp_left hseen
    · exact List.forall_mem_append.mpr
        ⟨fun a ha => (hplaced.placed a ha).imp_left (List.mem_append_left _),
          fun a ha => .inl (List.mem_append_right _ ha)⟩
    · refine List.pairwise_append.mpr ⟨hplaced.rootsApart, List.pairwise_singleton .., ?_⟩
      intro a ha b hb
      cases List.mem_singleton.mp hb
      have haSeen := (hplaced.roots a ha).1
      exact hended a haSeen (hroot a ((hall a).mp (List.mem_append_left _ haSeen)))
  | cons parent outer =>
    have hsmallest := smallest_of_open h hsorted hnodup hall hcase
    rw [hcase] at hstack
    -- its parent has no other child that contains it
    have hsibling : ∀ a ∈ scopes.children parent, stop a < start id := by
      intro a ha
      obtain ⟨haSeen, hchild⟩ := hplaced.children parent a ha
      have haCount := (hall a).mp (List.mem_append_left _ haSeen)
      refine hended a haSeen fun hcontains => ?_
      rcases hsmallest.smallest a haCount hcontains with rfl | hinverse
      · exact hchild.contains.1 rfl
      · exact h.not_contains haCount hsmallest.lt hinverse hchild.contains
    refine ⟨hstack, ?_, ?_, ?_, hplaced.rootsApart, ?_⟩
    · exact fun a ha => (hplaced.roots a ha).imp_left hseen
    · refine (Function.forall_update_iff scopes.children (p := fun other children =>
        ∀ a ∈ children, a ∈ seen ++ [id] ∧ Smallest count stop start other a)).mpr ⟨?_, ?_⟩
      · exact List.forall_mem_append.mpr
          ⟨fun a ha => (hplaced.children parent a ha).imp_left hseen,
            List.forall_mem_singleton.mpr ⟨by simp, hsmallest⟩⟩
      · exact fun other _ a ha => (hplaced.children other a ha).imp_left hseen
    · intro a ha
      rw [Function.exists_update_iff scopes.children (p := fun _ children => a ∈ children)]
      rcases List.mem_append.mp ha with ha | ha
      · refine (hplaced.placed a ha).imp_right fun ⟨other, hmem⟩ => ?_
        by_cases hother : other = parent
        · exact .inl (List.mem_append_left _ (hother ▸ hmem))
        · exact .inr ⟨other, hother, hmem⟩
      · exact .inr (.inl (List.mem_append_right _ ha))
    · refine (Function.forall_update_iff scopes.children (p := fun _ children =>
        children.Pairwise fun a b => stop a < start b)).mpr ⟨?_, fun other _ => ?_⟩
      · refine List.pairwise_append.mpr
          ⟨hplaced.childrenApart parent, List.pairwise_singleton .., fun a ha b hb => ?_⟩
        cases List.mem_singleton.mp hb
        exact hsibling a ha
      · exact hplaced.childrenApart other

end Place

/-- **The scope forest**: every name once, under the smallest interval that contains it, with
siblings disjoint and in the order of the steps. -/
structure IsScopeForest (count : Nat) (stop start : Nat → Nat) (roots : List Nat)
    (children : Nat → List Nat) : Prop where
  once : (roots ++ (List.range count).flatMap children).Perm (List.range count)
  root_iff : ∀ id, id ∈ roots ↔ id < count ∧ ∀ other < count, ¬ Contains stop start other id
  child_iff : ∀ parent id,
    id ∈ children parent ↔ id < count ∧ Smallest count stop start parent id
  rootsApart : roots.Pairwise fun a b => stop a < start b
  childrenApart : ∀ parent, (children parent).Pairwise fun a b => stop a < start b

/-- Every scope is placed among those before it. -/
theorem placed_buildScopeTree (h : Laminar count stop start) :
    Placed count stop start ((List.range count).insertionSort (Precedes stop start))
      (buildScopeTree count stop start) := by
  have hperm := List.perm_insertionSort (Precedes stop start) (List.range count)
  have hsorted := List.pairwise_insertionSort (Precedes stop start) (List.range count)
  have hnodup := hperm.nodup_iff.mpr List.nodup_range
  have hall : ∀ a, a ∈ (List.range count).insertionSort (Precedes stop start) ↔ a < count :=
    fun a => hperm.mem_iff.trans List.mem_range
  unfold buildScopeTree
  suffices hloop : ∀ rest seen scopes, Placed count stop start seen scopes →
      seen ++ rest = (List.range count).insertionSort (Precedes stop start) →
      Placed count stop start ((List.range count).insertionSort (Precedes stop start))
        (rest.foldl (Scopes.place stop start) scopes) from
    hloop _ [] _ ⟨fun _ _ => rfl, nofun, nofun, nofun, .nil, fun _ => .nil⟩ rfl
  intro rest
  induction rest with
  | nil =>
    intro seen scopes hplaced heq
    rwa [← heq, List.append_nil]
  | cons id rest ih =>
    intro seen scopes hplaced heq
    refine ih (seen ++ [id]) _ ?_ (by rw [List.append_assoc]; exact heq)
    exact Placed.place h (heq ▸ hsorted) (heq ▸ hnodup) (heq ▸ hall) hplaced

/-- Scopes that do not cross make a forest by what contains what. -/
theorem isScopeForest_buildScopeTree (h : Laminar count stop start) :
    IsScopeForest count stop start (buildScopeTree count stop start).roots
      (buildScopeTree count stop start).children := by
  have hplaced := placed_buildScopeTree h
  have hall : ∀ {a}, a ∈ (List.range count).insertionSort (Precedes stop start) ↔ a < count :=
    (List.perm_insertionSort ..).mem_iff.trans List.mem_range
  generalize (List.range count).insertionSort (Precedes stop start) = ordered at hplaced hall
  generalize buildScopeTree count stop start = scopes at hplaced
  -- a scope lies directly within one other only
  have hunique : ∀ {p q id}, Smallest count stop start p id → Smallest count stop start q id →
      p = q := by
    intro p q id hp hq
    rcases hp.smallest q hq.lt hq.contains with heq | hqp
    · exact heq.symm
    · rcases hq.smallest p hp.lt hp.contains with heq | hpq
      · exact heq
      · exact absurd hqp (h.not_contains hp.lt hq.lt hpq)
  have hroot : ∀ id, id ∈ scopes.roots ↔
      id < count ∧ ∀ other < count, ¬ Contains stop start other id := by
    refine fun id => ⟨fun hid => (hplaced.roots id hid).imp_left hall.mp, fun ⟨hid, hnone⟩ => ?_⟩
    rcases hplaced.placed id (hall.mpr hid) with hroot | ⟨parent, hchild⟩
    · exact hroot
    · have hsmallest := (hplaced.children parent id hchild).2
      exact absurd hsmallest.contains (hnone parent hsmallest.lt)
  have hchild : ∀ parent id, id ∈ scopes.children parent ↔
      id < count ∧ Smallest count stop start parent id := by
    refine fun parent id => ⟨fun hid => (hplaced.children parent id hid).imp_left hall.mp,
      fun ⟨hid, hsmallest⟩ => ?_⟩
    rcases hplaced.placed id (hall.mpr hid) with hroot | ⟨other, hchild⟩
    · exact absurd hsmallest.contains ((hplaced.roots id hroot).2 parent hsmallest.lt)
    · rwa [hunique hsmallest (hplaced.children other id hchild).2]
  -- scopes that lie apart are different ones
  have hnodup {list : List Nat} (hlist : ∀ id ∈ list, id < count)
      (hapart : list.Pairwise fun a b => stop a < start b) : list.Nodup := by
    refine hapart.imp_of_mem fun ha _ hlt heq => ?_
    have := h.lt _ (hlist _ ha)
    rw [← heq] at hlt
    omega
  refine ⟨?_, hroot, hchild, hplaced.rootsApart, hplaced.childrenApart⟩
  -- each scope stands once, among the roots or below one parent
  refine (List.perm_ext_iff_of_nodup ?_ List.nodup_range).mpr fun id => ?_
  · refine List.nodup_append.mpr ⟨hnodup (fun id hid => ((hroot id).mp hid).1) hplaced.rootsApart,
      List.nodup_flatMap.mpr ⟨fun parent _ => hnodup (fun id hid => ((hchild parent id).mp hid).1)
        (hplaced.childrenApart parent), ?_⟩, ?_⟩
    · refine List.nodup_range.imp fun {p q} hne id hp hq => hne ?_
      exact hunique ((hchild p id).mp hp).2 ((hchild q id).mp hq).2
    · rintro a ha b hb rfl
      obtain ⟨parent, -, hmem⟩ := List.mem_flatMap.mp hb
      have hsmallest := ((hchild parent a).mp hmem).2
      exact ((hroot a).mp ha).2 parent hsmallest.lt hsmallest.contains
  · rw [List.mem_append, List.mem_flatMap, List.mem_range]
    constructor
    · rintro (hid | ⟨parent, -, hid⟩)
      · exact ((hroot id).mp hid).1
      · exact ((hchild parent id).mp hid).1
    · intro hid
      refine (hplaced.placed id (hall.mpr hid)).imp_right fun ⟨parent, hmem⟩ => ⟨parent, ?_, hmem⟩
      exact List.mem_range.mpr ((hchild parent id).mp hmem).2.lt

end Tree

/-! ### Plans -/

/-- The last step that an event occurs in, if one does. -/
theorem lastStep_spec (hits : Event → Bool) (found : Option Nat) (index : Nat) (steps : List Step) :
    (∀ step ∈ steps, ¬ hits step.event) ∧ lastStep hits found index steps = found ∨
      ∃ i step, steps[i]? = some step ∧ hits step.event ∧
        lastStep hits found index steps = some (index + i) := by
  induction steps generalizing found index with
  | nil => exact .inl ⟨nofun, rfl⟩
  | cons step steps ih =>
    rw [lastStep]
    rcases ih (if hits step.event then some index else found) (index + 1) with
      ⟨hnone, hlast⟩ | ⟨i, later, hlater, hhits, hlast⟩
    · by_cases hstep : hits step.event
      · exact .inr ⟨0, step, rfl, hstep, by rw [hlast, if_pos hstep]; rfl⟩
      · refine .inl ⟨List.forall_mem_cons.mpr ⟨hstep, hnone⟩, ?_⟩
        rw [hlast, if_neg hstep]
    · exact .inr ⟨i + 1, later, hlater, hhits, by rw [hlast, Nat.add_right_comm]; rfl⟩

theorem exists_lastStep {hits : Event → Bool} {steps : List Step}
    (h : ∃ step ∈ steps, hits step.event) :
    ∃ step, steps[(lastStep hits none 0 steps).getD 0]? = some step ∧ hits step.event := by
  rcases lastStep_spec hits none 0 steps with ⟨hnever, -⟩ | ⟨i, step, hi, hhits, hlast⟩
  · obtain ⟨step, hstep, hhits⟩ := h
    exact absurd hhits (hnever step hstep)
  · refine ⟨step, ?_, hhits⟩
    rwa [hlast, Option.getD_some, Nat.zero_add]

/-- Steps that declare names are apart from those that fulfill one, and each fulfills one only. -/
theorem Event.not_declares_of_fulfills {event : Event} {a b : Nat} (ha : event.fulfills a) :
    ¬ event.declares b ∧ (event.fulfills b → a = b) := by
  cases event with
  | fulfill =>
    rw [Event.fulfills, decide_eq_true_eq] at ha
    refine ⟨nofun, fun hb => ?_⟩
    rw [Event.fulfills, decide_eq_true_eq] at hb
    exact ha.trans hb.symm
  | none | declare => cases ha

/-- **What a plan is to be**, for names that are declared and fulfilled in the steps. -/
structure Plan.Least (plan : Plan) (steps : List Step) (count : Nat) : Prop where
  declared : ∀ id < count, ∃ step, steps[plan.declarationStep id]? = some step ∧
    step.event.declares id
  fulfilled : ∀ id < count, ∃ step, steps[plan.fulfillmentStep id]? = some step ∧
    step.event.fulfills id
  le : ∀ id < count, plan.semanticStart id ≤ plan.declarationStep id
  uncrossed : ∀ left < count, ∀ right < count,
    ¬ Crosses plan.fulfillmentStep plan.semanticStart left right
  latest : ∀ start : Nat → Nat, (∀ id < count, start id ≤ plan.declarationStep id) →
    (∀ left < count, ∀ right < count, ¬ Crosses plan.fulfillmentStep start left right) →
    ∀ id < count, start id ≤ plan.semanticStart id
  forest : IsScopeForest count plan.fulfillmentStep plan.semanticStart plan.roots plan.children

/-- The plan moves starts no further than crossings demand. -/
theorem least_of_steps {steps : List Step} {count : Nat} {declaration fulfillment : Nat → Nat}
    (hdeclared : ∀ id < count, ∃ step, steps[declaration id]? = some step ∧ step.event.declares id)
    (hfulfilled : ∀ id < count, ∃ step, steps[fulfillment id]? = some step ∧ step.event.fulfills id)
    (hlater : ∀ id < count, declaration id < fulfillment id) :
    Plan.Least ⟨declaration, fulfillment, alignCrossingStarts count fulfillment declaration,
      (buildScopeTree count fulfillment (alignCrossingStarts count fulfillment declaration)).children,
      (buildScopeTree count fulfillment (alignCrossingStarts count fulfillment declaration)).roots⟩
      steps count := by
  have huncrossed : ∀ left < count, ∀ right < count,
      ¬ Crosses fulfillment (alignCrossingStarts count fulfillment declaration) left right :=
    fun left hleft right hright => not_crosses_alignLoop (Nat.lt_succ_self _) hleft hright
  have hlaminar :
      Laminar count fulfillment (alignCrossingStarts count fulfillment declaration) := by
    refine ⟨fun id hid => (alignCrossingStarts_le id).trans_lt (hlater id hid), ?_, ?_, huncrossed⟩
    · -- a start is the declaration of some name
      intro a ha b hb heq
      obtain ⟨other, hother, hstart⟩ : ∃ other < count,
          alignCrossingStarts count fulfillment declaration a = declaration other :=
        exists_alignCrossingStarts_eq ha
      obtain ⟨step, hstep, hdeclares⟩ := hdeclared other hother
      obtain ⟨step', hstep', hfulfills⟩ := hfulfilled b hb
      rw [← hstart, heq, hstep'] at hstep
      cases hstep
      exact (Event.not_declares_of_fulfills hfulfills).1 hdeclares
    · intro a ha b hb heq
      obtain ⟨step, hstep, hfulfills⟩ := hfulfilled a ha
      obtain ⟨step', hstep', hfulfills'⟩ := hfulfilled b hb
      rw [heq, hstep'] at hstep
      cases hstep
      exact (Event.not_declares_of_fulfills hfulfills).2 hfulfills'
  exact ⟨hdeclared, hfulfilled, fun id _ => alignCrossingStarts_le id, huncrossed,
    fun start hle hstart id hid => alignCrossingStarts_greatest hstart hle hid,
    isScopeForest_buildScopeTree hlaminar⟩

/-- **Plans widen intervals the least possible.** A plan for names that are declared, and not after
they are fulfilled, is least, or some name is never fulfilled. -/
theorem build_spec (steps : List Step) (names : List String)
    (hdeclared : ∀ id < names.length, ∃ step ∈ steps, step.event.declares id)
    (hlater : steps.Pairwise fun earlier later => ∀ id, earlier.event.fulfills id →
      ¬ later.event.declares id) :
    match build steps names with
    | .ok plan => plan.Least steps names.length
    | .error _ => ∃ id < names.length, ∀ step ∈ steps, ¬ step.event.fulfills id := by
  unfold build
  dsimp only
  split
  next plan hplan =>
    split at hplan
    · cases hplan
    next hmin =>
      cases hplan
      -- every promise has a declaration, and here also a fulfilment
      have hstart := fun id hid => exists_lastStep (hdeclared id hid)
      have hstop : ∀ id < names.length, ∃ step,
          steps[(lastStep (·.fulfills id) none 0 steps).getD 0]? = some step ∧
            step.event.fulfills id := by
        intro id hid
        rw [List.min?_eq_none_iff, List.map_eq_nil_iff, List.filter_eq_nil_iff] at hmin
        refine exists_lastStep ?_
        by_contra hnever
        rcases lastStep_spec (·.fulfills id) none 0 steps with ⟨-, hnone⟩ | ⟨i, step, hi, hhits, -⟩
        · exact hmin id (List.mem_range.mpr hid) (by rw [hnone]; rfl)
        · exact hnever ⟨step, List.mem_of_getElem? hi, hhits⟩
      refine least_of_steps hstart hstop fun id hid => ?_
      obtain ⟨step, hstep, hdeclares⟩ := hstart id hid
      obtain ⟨step', hstep', hfulfills⟩ := hstop id hid
      obtain ⟨hi, rfl⟩ := List.getElem?_eq_some_iff.mp hstep
      obtain ⟨hj, rfl⟩ := List.getElem?_eq_some_iff.mp hstep'
      -- a fulfilment at or before the declaration is ruled out by the order of the steps
      refine lt_of_not_ge fun hle => ?_
      rcases hle.lt_or_eq with hlt | heq
      · exact List.pairwise_iff_getElem.mp hlater _ _ hj hi hlt id hfulfills hdeclares
      · simp only [← heq] at hdeclares
        exact (Event.not_declares_of_fulfills hfulfills).1 hdeclares
  next failure hfailure =>
    split at hfailure
    next first hmin =>
      -- the one that is reported is never fulfilled
      obtain ⟨id, hid, -⟩ := List.mem_map.mp (List.min?_mem hmin)
      obtain ⟨hid, hnone⟩ := List.mem_filter.mp hid
      refine ⟨id, List.mem_range.mp hid, ?_⟩
      rcases lastStep_spec (·.fulfills id) none 0 steps with ⟨hnever, -⟩ | ⟨i, step, -, -, hlast⟩
      · exact hnever
      · rw [hlast] at hnone
        cases hnone
    · cases hfailure

/-- Two names whose intervals cross. -/
def crossingSteps : List Step :=
  [⟨1, .declare [0]⟩, ⟨2, .declare [1]⟩, ⟨3, .fulfill 0⟩, ⟨4, .fulfill 1⟩]

theorem build_spec_crossingSteps : ∃ plan, build crossingSteps ["a", "b"] = .ok plan ∧
    plan.semanticStart 1 = 0 ∧ plan.children 1 = [0] ∧ plan.Least crossingSteps 2 := by
  have hspec := build_spec crossingSteps ["a", "b"] (by decide)
    (by simp [crossingSteps, Event.fulfills, Event.declares])
  exact ⟨_, rfl, rfl, rfl, hspec⟩

end Glam.Syntax.RecursiveDo
