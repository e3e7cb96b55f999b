import Glam.Lib.Rank
import Mathlib.Logic.Relation
import Mathlib.Tactic.Common

/-!
# Graph search with a worklist

A search marks vertices as it reaches them, each once, and keeps those reached but not yet looked at
in a worklist. Breadth-first and depth-first search differ only in where the worklist takes a new
vertex in (`put`), so both are instances. For each vertex but the first the search remembers the
edge by which it was reached, and `trace` follows these back.

A step takes one vertex from the worklist and puts in those it marks, so the length of the worklist
and the number of unmarked vertices together fall by one, and as many steps as there are vertices
are enough. What the search knows when it ends is `Inv`, and that it stopped at a vertex it was
looking for or its marked vertices are closed under edges (`run_spec`).
-/

/-- The state of a search: what it has visited, how it came there, and what it visits next. -/
structure GraphSearch (α β : Type*) where
  visited : Finset α
  reachedBy : α → Option (α × β)
  pending : List α

namespace GraphSearch

variable {α β : Type*}

/-- The labels of the edges along a path. -/
inductive Path (edges : α → List (α × β)) : α → List β → α → Prop
  | nil (a : α) : Path edges a [] a
  | snoc {a b c : α} {labels : List β} {label : β} :
      Path edges a labels b → (c, label) ∈ edges b → Path edges a (labels ++ [label]) c

variable {a slot x : α} {search : GraphSearch α β} {edge : α × β} {fuel : ℕ}

theorem Path.reaches {edges : α → List (α × β)} {b : α} {labels : List β}
    (h : Path edges a labels b) :
    Relation.ReflTransGen (fun u v => ∃ label, (v, label) ∈ edges u) a b := by
  induction h with
  | nil => exact .refl
  | snoc _ hedge ih => exact ih.tail ⟨_, hedge⟩

variable [DecidableEq α]

/-- Only `a` marked, and nothing looked at. -/
def start (a : α) : GraphSearch α β := ⟨{a}, fun _ => none, [a]⟩

variable (put : List α → α → List α) (stop : α → Bool) (edges : α → List (α × β))

/-- Marks the end of an edge from `slot`, unless it is marked. -/
def reach (slot : α) (search : GraphSearch α β) (edge : α × β) : GraphSearch α β :=
  if edge.1 ∈ search.visited then search
  else
    { visited := insert edge.1 search.visited
      reachedBy := Function.update search.reachedBy edge.1 (some (slot, edge.2))
      pending := put search.pending edge.1 }

/-- Looks at up to `fuel` vertices, until the worklist is empty or one is looked for. -/
def run : ℕ → GraphSearch α β → GraphSearch α β
  | 0, search => search
  | fuel + 1, search =>
    match search.pending with
    | [] => search
    | slot :: rest =>
      if stop slot then { search with pending := rest }
      else run fuel ((edges slot).foldl (reach put slot) { search with pending := rest })

/-- What a search from `a` knows. -/
structure Inv (a : α) (search : GraphSearch α β) : Prop where
  start : a ∈ search.visited
  origin : search.reachedBy a = none
  /-- each vertex was reached by an edge from a marked one -/
  edge : ∀ {x y label}, search.reachedBy x = some (y, label) →
    x ∈ search.visited ∧ y ∈ search.visited ∧ (x, label) ∈ edges y
  reached : ∀ x ∈ search.visited, x ≠ a → ∃ y label, search.reachedBy x = some (y, label)
  /-- that was marked before it -/
  depth : ∃ depth : α → ℕ, ∀ x y label,
    search.reachedBy x = some (y, label) → depth y < depth x
  pending : ∀ x ∈ search.pending, x ∈ search.visited

omit [DecidableEq α] in
theorem inv_start (a : α) : Inv edges a (start a) where
  start := Finset.mem_singleton_self a
  origin := rfl
  edge := nofun
  reached := fun _ hx hne => absurd (Finset.mem_singleton.mp hx) hne
  depth := ⟨fun _ => 0, nofun⟩
  pending := fun _ hx => Finset.mem_singleton.mpr (List.mem_singleton.mp hx)

variable {put stop edges}

theorem reach_of_mem (h : edge.1 ∈ search.visited) : reach put slot search edge = search := if_pos h

theorem reach_of_notMem (h : edge.1 ∉ search.visited) :
    reach put slot search edge =
      { visited := insert edge.1 search.visited
        reachedBy := Function.update search.reachedBy edge.1 (some (slot, edge.2))
        pending := put search.pending edge.1 } := if_neg h

theorem visited_subset_reach (slot : α) (search : GraphSearch α β) (edge : α × β) :
    search.visited ⊆ (reach put slot search edge).visited := by
  by_cases h : edge.1 ∈ search.visited
  · rw [reach_of_mem h]
  · rw [reach_of_notMem h]
    exact Finset.subset_insert _ _

theorem mem_visited_reach (slot : α) (search : GraphSearch α β) (edge : α × β) :
    edge.1 ∈ (reach put slot search edge).visited := by
  by_cases h : edge.1 ∈ search.visited
  · rw [reach_of_mem h]
    exact h
  · rw [reach_of_notMem h]
    exact Finset.mem_insert_self _ _

section Put

variable (hput : ∀ list a, (put list a).Perm (a :: list))
include hput

/-- **One edge.** -/
theorem Inv.reach (h : Inv edges a search) (hslot : slot ∈ search.visited)
    (hedge : edge ∈ edges slot) : Inv edges a (reach put slot search edge) := by
  by_cases hmem : edge.1 ∈ search.visited
  · rw [reach_of_mem hmem]
    exact h
  rw [reach_of_notMem hmem]
  have hne : edge.1 ≠ a := by
    rintro heq
    exact hmem (heq ▸ h.start)
  -- the new element is reached by the edge, one deeper than where that begins
  refine ⟨Finset.mem_insert_of_mem h.start, ?_, ?_, ?_, ?_, ?_⟩
  all_goals dsimp only
  · rw [Function.update_of_ne hne.symm]
    exact h.origin
  · intro x y label hx
    by_cases hxe : x = edge.1
    · subst hxe
      rw [Function.update_self] at hx
      cases hx
      exact ⟨Finset.mem_insert_self _ _, Finset.mem_insert_of_mem hslot, hedge⟩
    · rw [Function.update_of_ne hxe] at hx
      obtain ⟨hxv, hyv, hxy⟩ := h.edge hx
      exact ⟨Finset.mem_insert_of_mem hxv, Finset.mem_insert_of_mem hyv, hxy⟩
  · intro x hx hxa
    by_cases hxe : x = edge.1
    · subst hxe
      exact ⟨slot, edge.2, Function.update_self ..⟩
    · rw [Function.update_of_ne hxe]
      exact h.reached x (Finset.mem_of_mem_insert_of_ne hx hxe) hxa
  · obtain ⟨depth, hdepth⟩ := h.depth
    refine ⟨Function.update depth edge.1 (depth slot + 1), ?_⟩
    intro x y label hx
    by_cases hxe : x = edge.1
    · subst hxe
      rw [Function.update_self] at hx
      cases hx
      have hne' : slot ≠ edge.1 := fun heq => hmem (heq ▸ hslot)
      rw [Function.update_self, Function.update_of_ne hne']
      exact Nat.lt_succ_self _
    · rw [Function.update_of_ne hxe] at hx
      have hye : y ≠ edge.1 := fun heq => hmem (heq ▸ (h.edge hx).2.1)
      rw [Function.update_of_ne hxe, Function.update_of_ne hye]
      exact hdepth x y label hx
  · intro x hx
    rcases List.mem_cons.mp ((hput _ _).mem_iff.mp hx) with rfl | hx
    · exact Finset.mem_insert_self _ _
    · exact Finset.mem_insert_of_mem (h.pending x hx)

theorem mem_pending_reach (hx : x ∈ (GraphSearch.reach put slot search edge).visited) :
    x ∈ search.visited ∨ x ∈ (GraphSearch.reach put slot search edge).pending := by
  by_cases hmem : edge.1 ∈ search.visited
  · rw [reach_of_mem hmem] at hx
    exact .inl hx
  · rw [reach_of_notMem hmem] at hx ⊢
    rcases Finset.mem_insert.mp hx with rfl | hx
    · exact .inr ((hput _ _).mem_iff.mpr (.head _))
    · exact .inl hx

theorem pending_subset_reach (hx : x ∈ search.pending) :
    x ∈ (GraphSearch.reach put slot search edge).pending := by
  by_cases hmem : edge.1 ∈ search.visited
  · rwa [reach_of_mem hmem]
  · rw [reach_of_notMem hmem]
    exact (hput _ _).mem_iff.mpr (.tail _ hx)

variable [Fintype α]

/-- What is still to be done: the worklist, and the unmarked vertices. -/
def left (search : GraphSearch α β) : ℕ :=
  search.pending.length + (Fintype.card α - search.visited.card)

theorem left_reach (slot : α) (search : GraphSearch α β) (edge : α × β) :
    left (GraphSearch.reach put slot search edge) = left search := by
  by_cases hmem : edge.1 ∈ search.visited
  · rw [reach_of_mem hmem]
  · rw [reach_of_notMem hmem, left, left]
    have hlt : search.visited.card < Fintype.card α := Finset.card_lt_univ_of_notMem hmem
    rw [Finset.card_insert_of_notMem hmem, (hput _ _).length_eq, List.length_cons]
    omega

/-- **All edges of one vertex.** -/
theorem Inv.foldl_reach (h : Inv edges a search) (hslot : slot ∈ search.visited)
    {list : List (α × β)} (hlist : ∀ edge ∈ list, edge ∈ edges slot) :
    Inv edges a (list.foldl (GraphSearch.reach put slot) search) ∧
      left (list.foldl (GraphSearch.reach put slot) search) = left search ∧
      search.visited ⊆ (list.foldl (GraphSearch.reach put slot) search).visited ∧
      (∀ edge ∈ list, edge.1 ∈ (list.foldl (GraphSearch.reach put slot) search).visited) ∧
      (∀ x ∈ search.pending, x ∈ (list.foldl (GraphSearch.reach put slot) search).pending) ∧
      ∀ x ∈ (list.foldl (GraphSearch.reach put slot) search).visited,
        x ∈ search.visited ∨ x ∈ (list.foldl (GraphSearch.reach put slot) search).pending := by
  induction list generalizing search with
  | nil =>
    exact ⟨h, rfl, subset_rfl, nofun,
      fun _ hx => hx, fun _ hx => .inl hx⟩
  | cons edge list ih =>
    obtain ⟨hedge, hlist⟩ := List.forall_mem_cons.mp hlist
    have hstep := h.reach hput hslot hedge
    have hsub : search.visited ⊆ (GraphSearch.reach put slot search edge).visited :=
      visited_subset_reach slot search edge
    obtain ⟨hinv, hleft, hvisited, hends, hpending, hnew⟩ := ih hstep (hsub hslot) hlist
    refine ⟨hinv, hleft.trans (left_reach hput slot search edge), hsub.trans hvisited, ?_, ?_, ?_⟩
    · exact List.forall_mem_cons.mpr ⟨hvisited (mem_visited_reach slot search edge), hends⟩
    · intro x hx
      exact hpending x (pending_subset_reach hput hx)
    · intro x hx
      rcases hnew x hx with hx | hx
      · rcases mem_pending_reach hput hx with hx | hx
        · exact .inl hx
        · exact .inr (hpending x hx)
      · exact .inr hx

/-- **The search.** With enough fuel it stops at a vertex it looks for, or marks a set of vertices
closed under edges. -/
theorem Inv.run (h : Inv edges a search)
    (hdone : ∀ x ∈ search.visited,
      x ∈ search.pending ∨ ∀ edge ∈ edges x, edge.1 ∈ search.visited)
    (hfuel : left search ≤ fuel) :
    Inv edges a (run put stop edges fuel search) ∧
      ((∃ x ∈ (run put stop edges fuel search).visited, stop x = true) ∨
        ∀ x ∈ (run put stop edges fuel search).visited, ∀ edge ∈ edges x,
          edge.1 ∈ (run put stop edges fuel search).visited) := by
  induction fuel generalizing search with
  | zero =>
    rw [left] at hfuel
    have hempty : search.pending = [] := List.length_eq_zero_iff.mp (by omega)
    exact ⟨h, .inr fun x hx => (hdone x hx).resolve_left (hempty ▸ List.not_mem_nil)⟩
  | succ fuel ih =>
    rw [GraphSearch.run]
    cases hpending : search.pending with
    | nil => exact ⟨h, .inr fun x hx => (hdone x hx).resolve_left (hpending ▸ List.not_mem_nil)⟩
    | cons slot rest =>
      have hslot : slot ∈ search.visited := h.pending slot (hpending ▸ (.head _))
      have hpopped : Inv edges a { search with pending := rest } :=
        { h with pending := fun x hx => h.pending x (hpending ▸ .tail _ hx) }
      dsimp only
      split
      · next hstop => exact ⟨hpopped, .inl ⟨slot, hslot, hstop⟩⟩
      · obtain ⟨hinv, hleft, hvisited, hends, hkept, hnew⟩ :=
          hpopped.foldl_reach hput hslot fun edge hedge => hedge
        apply ih hinv
        · -- what is visited is pending still, or has its edges followed
          intro x hx
          rcases hnew x hx with hold | hp
          · rcases hdone x hold with hp | hclosed
            · rw [hpending] at hp
              rcases List.mem_cons.mp hp with rfl | hp
              · exact .inr hends
              · exact .inl (hkept x hp)
            · exact .inr fun edge hedge => hvisited (hclosed edge hedge)
          · exact .inl hp
        · rw [hleft]
          rw [left, hpending, List.length_cons] at hfuel
          rw [left]
          dsimp only
          omega

/-- A search with enough fuel stops where it should, or has visited all there is to reach. -/
theorem run_spec (a : α) (hfuel : Fintype.card α ≤ fuel) :
    Inv edges a (GraphSearch.run put stop edges fuel (GraphSearch.start a)) ∧
      ((∃ x ∈ (GraphSearch.run put stop edges fuel (GraphSearch.start a)).visited, stop x = true) ∨
        ∀ x ∈ (GraphSearch.run put stop edges fuel (GraphSearch.start a)).visited,
          ∀ edge ∈ edges x,
            edge.1 ∈ (GraphSearch.run put stop edges fuel (GraphSearch.start a)).visited) := by
  apply (inv_start edges a).run hput
  · intro x hx
    exact .inl (List.mem_singleton.mpr (Finset.mem_singleton.mp hx))
  · have hpos : 0 < Fintype.card α := Fintype.card_pos_iff.mpr ⟨a⟩
    rw [left]
    simp only [GraphSearch.start, List.length_singleton, Finset.card_singleton]
    omega

end Put

omit [DecidableEq α] in
theorem mem_of_reaches {marked : Finset α}
    (hclosed : ∀ x ∈ marked, ∀ edge ∈ edges x, edge.1 ∈ marked) {b : α} (ha : a ∈ marked)
    (h : Relation.ReflTransGen (fun u v => ∃ label, (v, label) ∈ edges u) a b) : b ∈ marked := by
  induction h with
  | refl => exact ha
  | tail _ hstep ih =>
    obtain ⟨label, hlabel⟩ := hstep
    exact hclosed _ ih _ hlabel

/-! ### Tracing back -/

/-- The labels met on the way back from `slot`, at most `fuel` of them, last first. -/
def trace (reachedBy : α → Option (α × β)) : ℕ → α → List β → List β
  | 0, _, labels => labels
  | fuel + 1, slot, labels =>
    match reachedBy slot with
    | none => labels
    | some (previous, label) => trace reachedBy fuel previous (labels ++ [label])

/-- The way back is a path from the first vertex, with what was traced before it behind. -/
theorem Inv.trace (h : Inv edges a search) {depth : α → ℕ}
    (hdepth : ∀ x y label, search.reachedBy x = some (y, label) → depth y < depth x)
    (hx : x ∈ search.visited) (hfuel : depth x < fuel) (labels : List β) :
    ∃ before, Path edges a before x ∧
      (trace search.reachedBy fuel x labels).reverse = before ++ labels.reverse := by
  induction fuel generalizing x labels with
  | zero => omega
  | succ fuel ih =>
    rw [GraphSearch.trace]
    by_cases hxa : x = a
    · subst hxa
      rw [h.origin]
      exact ⟨[], .nil x, rfl⟩
    · obtain ⟨y, label, hy⟩ := h.reached x hx hxa
      rw [hy]
      obtain ⟨-, hyv, hedge⟩ := h.edge hy
      have hlt := hdepth x y label hy
      obtain ⟨before, hpath, htrace⟩ := ih hyv (by omega) (labels ++ [label])
      refine ⟨before ++ [label], .snoc hpath hedge, ?_⟩
      rw [htrace]
      simp

/-- **Tracing back** from a marked vertex gives a path to it. -/
theorem Inv.path [Fintype α] (h : Inv edges a search) (hx : x ∈ search.visited) :
    Path edges a (GraphSearch.trace search.reachedBy (Fintype.card α) x []).reverse x := by
  obtain ⟨depth, hdepth⟩ := h.depth
  obtain ⟨depth, hdepth, hcard⟩ :=
    exists_rank_lt_card (r := fun x y => ∃ label, search.reachedBy x = some (y, label))
      ⟨depth, fun x y hxy => hdepth x y _ hxy.choose_spec⟩
  obtain ⟨before, hpath, htrace⟩ :=
    h.trace (fun x y label hxy => hdepth x y ⟨label, hxy⟩) hx (hcard x) []
  rw [htrace, List.reverse_nil, List.append_nil]
  exact hpath

end GraphSearch
