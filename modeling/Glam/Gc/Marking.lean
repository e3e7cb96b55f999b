import Mathlib
import Glam.Gc.Mark

/-!
# What marking marks

The marked objects are the pending ones and those in the least set that holds the roots, follows
edges, and follows an ephemeron from its holder to its value where its key is marked
(`HeapGraph.Closed`). An ephemeron is cleared if it was reached and its key is not marked. Neither
depends on the order of the roots, of the reports of an object, or in which work is taken from the
worklist (`mark_eq`).

The invariant is `Marking`: an object that is marked and not on the worklist has had its reports
noted, where a noted ephemeron has its key and value marked or is recorded. The rounds keep it,
because a pair leaves the record only with both marked. A round that marks nothing has seen every
recorded pair with its key unmarked, and its marks are the final ones, so the marked objects are
closed.

Every step of the worklist and every round that marks anything leaves fewer objects unmarked or less
work, so `2 * Fintype.card Obj` bounds the steps of each loop. -/

namespace Glam.Gc

variable {Obj Pair : Type}

/-! ### What is to be marked -/

/-- **A set that marking may not leave**: it holds the roots, and follows the edges of what it
holds, and the ephemerons whose keys it holds or are pending. -/
structure HeapGraph.Closed (graph : HeapGraph Obj Pair) (s : Set Obj) : Prop where
  root : ∀ {o}, o ∈ graph.roots → o ∈ s
  edge : ∀ {o target}, o ∈ s → .edge target ∈ graph.trace o → target ∈ s
  value : ∀ {o pair key value}, o ∈ s → .ephemeron pair ∈ graph.trace o →
    graph.pairs pair = some (key, value) → key ∈ s ∨ key ∈ graph.pending → value ∈ s

/-- What the roots reach: the least such set. -/
def HeapGraph.reached (graph : HeapGraph Obj Pair) : Set Obj := {o | ∀ s, graph.Closed s → o ∈ s}

theorem HeapGraph.reached_isLeast (graph : HeapGraph Obj Pair) :
    IsLeast {s | graph.Closed s} graph.reached := by
  refine ⟨⟨fun ho s hs => hs.root ho, fun ho hr s hs => hs.edge (ho s hs) hr,
    fun ho hr hpair hkey s hs => hs.value (ho s hs) hr hpair (hkey.imp (fun hk => hk s hs) id)⟩, ?_⟩
  exact fun s hs o ho => ho s hs

/-- The ephemeron is held by an object of the set. -/
def HeapGraph.Holds (graph : HeapGraph Obj Pair) (s : Set Obj) (pair : Pair) : Prop :=
  ∃ o ∈ s, .ephemeron pair ∈ graph.trace o

/-- The same heap, with its roots, its pending objects and the reports of each object listed in
another order. -/
structure HeapGraph.Reorders (graph other : HeapGraph Obj Pair) : Prop where
  roots : other.roots.Perm graph.roots
  trace : ∀ o, (other.trace o).Perm (graph.trace o)
  pairs : other.pairs = graph.pairs
  pending : other.pending.Perm graph.pending

section Reorders

variable {graph other : HeapGraph Obj Pair}

theorem HeapGraph.Reorders.symm (h : graph.Reorders other) : other.Reorders graph :=
  ⟨h.roots.symm, fun o => (h.trace o).symm, h.pairs.symm, h.pending.symm⟩

theorem HeapGraph.Reorders.closed (h : graph.Reorders other) {s : Set Obj} (hs : graph.Closed s) :
    other.Closed s where
  root ho := hs.root (h.roots.mem_iff.mp ho)
  edge ho hr := hs.edge ho ((h.trace _).mem_iff.mp hr)
  value ho hr hp hk :=
    hs.value ho ((h.trace _).mem_iff.mp hr) (h.pairs ▸ hp) (hk.imp id h.pending.mem_iff.mp)

theorem HeapGraph.Reorders.holds_iff (h : graph.Reorders other) {s : Set Obj} {pair : Pair} :
    other.Holds s pair ↔ graph.Holds s pair :=
  exists_congr fun o => and_congr_right fun _ => (h.trace o).mem_iff

theorem HeapGraph.Reorders.reached_eq (h : graph.Reorders other) :
    other.reached = graph.reached := by
  ext o
  exact forall_congr' fun s => imp_congr_left ⟨h.symm.closed, h.closed⟩

end Reorders

/-! ### Lists -/

section Lists

variable {l : List Pair} {index : Nat}

theorem swapRemove_getElem? (hlt : index < l.length) {i : Nat} (hi : i < index) :
    (swapRemove l index)[i]? = l[i]? := by
  rw [swapRemove, List.getLast?_eq_some_getLast (List.ne_nil_of_length_pos (by omega)),
    List.getElem?_dropLast, if_pos (by rw [List.length_set]; omega), List.getElem?_set_ne (by omega)]

variable {order : List Obj → Nat}

theorem takeWork_eq_none {worklist : List Obj} :
    takeWork order worklist = none ↔ worklist = [] := by
  unfold takeWork
  rw [Option.map_eq_none_iff, List.getElem?_eq_none_iff, ← List.length_eq_zero_iff]
  constructor
  · intro hle
    by_contra hne
    exact absurd (Nat.mod_lt _ (Nat.pos_of_ne_zero hne)) (Nat.not_lt.mpr hle)
  · intro hzero
    omega

theorem takeWork_eq_some {worklist rest : List Obj} {work : Obj}
    (h : takeWork order worklist = some (work, rest)) :
    rest.length + 1 = worklist.length ∧ ∀ o, o ∈ worklist ↔ o = work ∨ o ∈ rest := by
  obtain ⟨x, hx, heq⟩ := Option.map_eq_some_iff.mp h
  obtain ⟨rfl, rfl⟩ := Prod.mk.inj heq
  obtain ⟨hlt, hget⟩ := List.getElem?_eq_some_iff.mp hx
  have hperm := List.getElem_cons_eraseIdx_perm hlt
  rw [hget] at hperm
  exact ⟨hperm.length_eq, fun o => hperm.mem_iff.symm.trans List.mem_cons⟩

end Lists

/-! ### The invariant -/

/-- What a report asks for has been done: the target of an edge is marked, and so are the key and
the value of an ephemeron, unless it is recorded. -/
def Noted (graph : HeapGraph Obj Pair) (attempt : MarkAttempt Obj Pair) : Report Obj Pair → Prop
  | .edge target => target ∈ attempt.marks
  | .ephemeron pair => ∀ key value, graph.pairs pair = some (key, value) →
    key ∈ attempt.marks ∧ value ∈ attempt.marks ∨ pair ∈ attempt.ephemerons

/-- **The invariant of marking.** The object `current`, if there is one, is being traced. -/
structure Marking (graph : HeapGraph Obj Pair) (reached : Set Obj) (attempt : MarkAttempt Obj Pair)
    (current : Option Obj) : Prop where
  pairs : attempt.pairs = graph.pairs
  pending : ∀ o ∈ graph.pending, o ∈ attempt.marks
  sound : ∀ o ∈ attempt.marks, o ∈ graph.pending ∨ o ∈ reached
  work : ∀ o ∈ attempt.worklist, o ∈ reached
  noted : ∀ o ∈ attempt.marks, o ∉ graph.pending → o ∉ attempt.worklist → current ≠ some o →
    ∀ report ∈ graph.trace o, Noted graph attempt report
  recorded : ∀ pair ∈ attempt.ephemerons, (graph.pairs pair).isSome ∧ graph.Holds reached pair

/-- Marks and records are kept. -/
structure Grows (before after : MarkAttempt Obj Pair) : Prop where
  marks : before.marks ⊆ after.marks
  ephemerons : before.ephemerons ⊆ after.ephemerons

variable {before after : MarkAttempt Obj Pair} {report : Report Obj Pair}

theorem Grows.refl (attempt : MarkAttempt Obj Pair) : Grows attempt attempt :=
  ⟨subset_rfl, List.Subset.refl _⟩

theorem Grows.trans {a b c : MarkAttempt Obj Pair} (hab : Grows a b) (hbc : Grows b c) : Grows a c :=
  ⟨Finset.Subset.trans hab.marks hbc.marks, List.Subset.trans hab.ephemerons hbc.ephemerons⟩

theorem Grows.noted {graph : HeapGraph Obj Pair} (h : Grows before after)
    (hnoted : Noted graph before report) : Noted graph after report := by
  cases report with
  | edge => exact h.marks hnoted
  | ephemeron =>
    intro key value hpair
    exact (hnoted key value hpair).imp (fun hm => ⟨h.marks hm.1, h.marks hm.2⟩) fun he =>
      h.ephemerons he

variable [DecidableEq Obj]

section Discover

variable {graph : HeapGraph Obj Pair} {reached : Set Obj} {attempt : MarkAttempt Obj Pair}
  {current : Option Obj} {value : Obj}

theorem discover_of_mem (h : value ∈ attempt.marks) : attempt.discover value = (false, attempt) :=
  if_pos h

/-- Discovering an object marks it, if it was not marked, and puts it on the worklist. -/
theorem discover_of_notMem (h : value ∉ attempt.marks) :
    (attempt.discover value).1 = true ∧
      (attempt.discover value).2.marks = insert value attempt.marks ∧
      (attempt.discover value).2.worklist = value :: attempt.worklist ∧
      (attempt.discover value).2.pairs = attempt.pairs ∧
      (attempt.discover value).2.ephemerons = attempt.ephemerons := by
  unfold MarkAttempt.discover
  rw [if_neg h]
  exact ⟨rfl, rfl, rfl, rfl, rfl⟩

theorem discover_grows (attempt : MarkAttempt Obj Pair) (value : Obj) :
    Grows attempt (attempt.discover value).2 ∧ value ∈ (attempt.discover value).2.marks := by
  by_cases hmem : value ∈ attempt.marks
  · rw [discover_of_mem hmem]
    exact ⟨⟨subset_rfl, List.Subset.refl _⟩, hmem⟩
  · obtain ⟨_, hmarks, _, _, hephemerons⟩ := discover_of_notMem hmem
    rw [hmarks]
    exact ⟨⟨hmarks ▸ Finset.subset_insert _ _, hephemerons ▸ List.Subset.refl _⟩,
      Finset.mem_insert_self _ _⟩

/-- Discovering an object that is reached keeps the invariant. -/
theorem Marking.discover (h : Marking graph reached attempt current) (hvalue : value ∈ reached) :
    Marking graph reached (attempt.discover value).2 current := by
  by_cases hmem : value ∈ attempt.marks
  · rw [discover_of_mem hmem]
    exact h
  obtain ⟨_, hmarks, hwork, hpairs, hephemerons⟩ := discover_of_notMem hmem
  refine ⟨hpairs.trans h.pairs, fun o ho => ?_, fun o ho => ?_, fun o ho => ?_,
    fun o ho hpending hout hcurrent report hreport => ?_, ?_⟩
  · rw [hmarks]
    exact Finset.mem_insert_of_mem (h.pending o ho)
  · rw [hmarks] at ho
    rcases Finset.mem_insert.mp ho with rfl | ho
    · exact .inr hvalue
    · exact h.sound o ho
  · rw [hwork] at ho
    rcases List.mem_cons.mp ho with rfl | ho
    · exact hvalue
    · exact h.work o ho
  · rw [hwork, List.mem_cons, not_or] at hout
    rw [hmarks] at ho
    have ho := (Finset.mem_insert.mp ho).resolve_left hout.1
    exact (discover_grows _ _).1.noted (h.noted o ho hpending hout.2 hcurrent report hreport)
  · rw [hephemerons]
    exact h.recorded

end Discover

/-! ### Progress -/

section Weight

variable [Fintype Obj]

/-- The number of objects that are not marked, which tracing makes smaller. -/
def unmarked (attempt : MarkAttempt Obj Pair) : Nat := Fintype.card Obj - attempt.marks.card

/-- What every step of the worklist decreases. -/
def weight (attempt : MarkAttempt Obj Pair) : Nat := 2 * unmarked attempt + attempt.worklist.length

omit [DecidableEq Obj] in
theorem unmarked_le_of_subset (h : before.marks ⊆ after.marks) : unmarked after ≤ unmarked before :=
  Nat.sub_le_sub_left (Finset.card_le_card h) _

/-- Discovering an object marks one more, or changes nothing. -/
theorem discover_weight (attempt : MarkAttempt Obj Pair) (value : Obj) :
    weight (attempt.discover value).2 ≤ weight attempt ∧
      ((attempt.discover value).1 = true →
        unmarked (attempt.discover value).2 < unmarked attempt) := by
  by_cases hmem : value ∈ attempt.marks
  · rw [discover_of_mem hmem]
    exact ⟨Nat.le_refl _, nofun⟩
  obtain ⟨_, hmarks, hwork, _, _⟩ := discover_of_notMem hmem
  have hcard : (insert value attempt.marks).card = attempt.marks.card + 1 :=
    Finset.card_insert_of_notMem hmem
  have hle : (insert value attempt.marks).card ≤ Fintype.card Obj := Finset.card_le_univ _
  have hlt : unmarked (attempt.discover value).2 < unmarked attempt := by
    unfold unmarked
    rw [hmarks]
    omega
  refine ⟨?_, fun _ => hlt⟩
  unfold weight
  rw [hwork, List.length_cons]
  omega

end Weight

/-! ### Tracing -/

section Trace

variable [Fintype Obj] {graph : HeapGraph Obj Pair} {reached : Set Obj}
  {attempt : MarkAttempt Obj Pair} {o : Obj}

section

variable (hclosed : graph.Closed reached)
include hclosed

/-- **One report.** It keeps the invariant, is noted, and leaves no more to do than there was. -/
theorem Marking.visit (h : Marking graph reached attempt (some o)) (ho : o ∈ reached)
    (hreport : report ∈ graph.trace o) :
    Marking graph reached (attempt.visit report) (some o) ∧ Grows attempt (attempt.visit report) ∧
      Noted graph (attempt.visit report) report ∧ weight (attempt.visit report) ≤ weight attempt := by
  cases report with
  | edge target =>
    obtain ⟨hgrows, hmem⟩ := discover_grows attempt target
    exact ⟨h.discover (hclosed.edge ho hreport), hgrows, hmem, (discover_weight attempt target).1⟩
  | ephemeron pair =>
    have hpairs : attempt.pairs pair = graph.pairs pair := congrFun h.pairs pair
    unfold MarkAttempt.visit MarkAttempt.ephemeron
    dsimp only
    rw [hpairs]
    cases hpair : graph.pairs pair with
    | none => exact ⟨h, .refl _, fun _ _ hbad => (nomatch hpair.symm.trans hbad), Nat.le_refl _⟩
    | some entry =>
      obtain ⟨key, value⟩ := entry
      dsimp only
      by_cases hkey : key ∈ attempt.marks
      · -- the value is an edge
        rw [if_pos hkey]
        obtain ⟨hgrows, hmem⟩ := discover_grows attempt value
        refine ⟨h.discover (hclosed.value ho hreport hpair (h.sound key hkey).symm), hgrows, ?_,
          (discover_weight attempt value).1⟩
        intro key' value' hpair'
        obtain ⟨rfl, rfl⟩ := Prod.mk.inj (Option.some.inj (hpair.symm.trans hpair'))
        exact .inl ⟨hgrows.marks hkey, hmem⟩
      · rw [if_neg hkey]
        have hgrows : Grows attempt { attempt with ephemerons := attempt.ephemerons ++ [pair] } :=
          ⟨subset_rfl, List.subset_append_left _ _⟩
        refine ⟨{ h with noted := ?_, recorded := ?_ }, hgrows, fun _ _ _ =>
          .inr (List.mem_append_right _ (List.mem_singleton_self _)), Nat.le_refl _⟩
        · intro o' ho' hpending hout hcurrent report hmem
          exact hgrows.noted (h.noted o' ho' hpending hout hcurrent report hmem)
        · intro pair' hmem
          rcases List.mem_append.mp hmem with hmem | hmem
          · exact h.recorded pair' hmem
          · rw [List.mem_singleton.mp hmem]
            exact ⟨Option.isSome_iff_exists.mpr ⟨_, hpair⟩, o, ho, hreport⟩

/-- Visiting the reports of an object notes each of them. -/
theorem Marking.visitAll (h : Marking graph reached attempt (some o)) (ho : o ∈ reached)
    {reports : List (Report Obj Pair)} (hreports : reports ⊆ graph.trace o) :
    Marking graph reached (reports.foldl MarkAttempt.visit attempt) (some o) ∧
      Grows attempt (reports.foldl MarkAttempt.visit attempt) ∧
      (∀ report ∈ reports, Noted graph (reports.foldl MarkAttempt.visit attempt) report) ∧
      weight (reports.foldl MarkAttempt.visit attempt) ≤ weight attempt := by
  induction reports generalizing attempt with
  | nil => exact ⟨h, .refl _, nofun, Nat.le_refl _⟩
  | cons report reports ih =>
    obtain ⟨hfirst, hrest⟩ := List.cons_subset.mp hreports
    obtain ⟨hstep, hgrows, hnoted, hweight⟩ := h.visit hclosed ho hfirst
    obtain ⟨hall, hgrows', hnoted', hweight'⟩ := ih hstep hrest
    refine ⟨hall, hgrows.trans hgrows', fun report' hmem => ?_, hweight'.trans hweight⟩
    rcases List.mem_cons.mp hmem with rfl | hmem
    · exact hgrows'.noted hnoted
    · exact hnoted' report' hmem

/-- **Tracing one object of the worklist.** -/
theorem Marking.traceObject (h : Marking graph reached attempt none) {rest : List Obj}
    (hlength : rest.length + 1 = attempt.worklist.length)
    (hmem : ∀ x, x ∈ attempt.worklist ↔ x = o ∨ x ∈ rest) :
    Marking graph reached (MarkAttempt.traceObject graph { attempt with worklist := rest } o) none ∧
      attempt.marks ⊆
        (MarkAttempt.traceObject graph { attempt with worklist := rest } o).marks ∧
      weight (MarkAttempt.traceObject graph { attempt with worklist := rest } o) <
        weight attempt := by
  have ho : o ∈ reached := h.work o ((hmem o).mpr (.inl rfl))
  -- without `o` on the worklist, its reports are those still to be noted
  have hcurrent : Marking graph reached { attempt with worklist := rest } (some o) := by
    refine { h with work := fun x hx => h.work x ((hmem x).mpr (.inr hx)), noted := ?_ }
    intro x hx hpending hout hne
    refine h.noted x hx hpending (fun hx' => ?_) nofun
    rcases (hmem x).mp hx' with rfl | hx'
    · exact hne rfl
    · exact hout hx'
  obtain ⟨hall, hgrows, hnoted, hweight⟩ :=
    hcurrent.visitAll hclosed ho (List.Subset.refl (graph.trace o))
  refine ⟨{ hall with noted := ?_ }, hgrows.marks, ?_⟩
  · intro x hx hpending hout _ report hreport
    by_cases heq : x = o
    · rw [heq] at hreport
      exact hnoted report hreport
    · exact hall.noted x hx hpending hout (fun hbad => heq (Option.some.inj hbad).symm) report hreport
  · refine Nat.lt_of_le_of_lt hweight ?_
    show 2 * unmarked attempt + rest.length < 2 * unmarked attempt + attempt.worklist.length
    omega

/-- **Draining the worklist.** -/
theorem Marking.traceWorklist (order : List Obj → Nat) (h : Marking graph reached attempt none)
    {fuel : Nat} (hfuel : weight attempt < fuel) :
    ∃ after, MarkAttempt.traceWorklist graph order fuel attempt = .ok after ∧
      Marking graph reached after none ∧ after.worklist = [] ∧ attempt.marks ⊆ after.marks := by
  induction fuel generalizing attempt with
  | zero => exact absurd hfuel (Nat.not_lt_zero _)
  | succ fuel ih =>
    unfold MarkAttempt.traceWorklist
    cases htake : takeWork order attempt.worklist with
    | none =>
      exact ⟨attempt, rfl, h, takeWork_eq_none.mp htake, subset_rfl⟩
    | some taken =>
      obtain ⟨work, rest⟩ := taken
      obtain ⟨hlength, hmem⟩ := takeWork_eq_some htake
      obtain ⟨hstep, hmarks, hweight⟩ := h.traceObject hclosed hlength hmem
      obtain ⟨after, hafter, hinv, hdone, hmarks'⟩ := ih hstep (by omega)
      exact ⟨after, hafter, hinv, hdone, Finset.Subset.trans hmarks hmarks'⟩

end

end Trace

/-! ### The rounds -/

section Rounds

variable [Fintype Obj] {graph : HeapGraph Obj Pair} {reached : Set Obj}
  {attempt : MarkAttempt Obj Pair}

/-- The pair's key is not marked. -/
def KeyUnmarked (graph : HeapGraph Obj Pair) (attempt : MarkAttempt Obj Pair) (pair : Pair) : Prop :=
  ∃ key value, graph.pairs pair = some (key, value) ∧ key ∉ attempt.marks

/-- A round that has marked nothing has left the worklist empty, and has seen the pairs before
`index` with their keys unmarked. -/
def Quiet (graph : HeapGraph Obj Pair) (attempt : MarkAttempt Obj Pair) (index : Nat) : Prop :=
  attempt.worklist = [] ∧
    ∀ i < index, ∀ pair, attempt.ephemerons[i]? = some pair → KeyUnmarked graph attempt pair

omit [DecidableEq Obj] [Fintype Obj] in
/-- A recorded pair may leave the record once its key and value are marked. -/
theorem Marking.swapRemove (h : Marking graph reached attempt none) {index : Nat}
    (hlt : index < attempt.ephemerons.length) {key value : Obj}
    (hpair : graph.pairs attempt.ephemerons[index] = some (key, value))
    (hkey : key ∈ attempt.marks) (hvalue : value ∈ attempt.marks) :
    Marking graph reached { attempt with ephemerons := Gc.swapRemove attempt.ephemerons index }
      none := by
  refine { h with
    recorded := fun pair hmem => h.recorded pair (mem_of_mem_swapRemove hmem)
    noted := ?_ }
  intro o ho hpending hout hcurrent report hreport
  have hnoted := h.noted o ho hpending hout hcurrent report hreport
  cases report with
  | edge => exact hnoted
  | ephemeron =>
    intro key' value' hpair'
    rcases hnoted key' value' hpair' with hmarks | hmem
    · exact .inl hmarks
    · rcases mem_swapRemove hlt hmem with rfl | hmem
      · obtain ⟨rfl, rfl⟩ := Prod.mk.inj (Option.some.inj (hpair.symm.trans hpair'))
        exact .inl ⟨hkey, hvalue⟩
      · exact .inr hmem

/-- **One round over the recorded pairs**, from `index` on. -/
theorem Marking.ephemeronRound (hclosed : graph.Closed reached)
    (h : Marking graph reached attempt none) {index : Nat} {marked : Bool}
    (hquiet : marked = false → Quiet graph attempt index) :
    ∃ marked' after, attempt.ephemeronRound index marked = .ok (marked', after) ∧
      Marking graph reached after none ∧ weight after ≤ weight attempt ∧
      attempt.marks ⊆ after.marks ∧
      (marked' = true → marked = true ∨ unmarked after < unmarked attempt) ∧
      (marked' = false → Quiet graph after after.ephemerons.length) := by
  -- the source's loop: each step takes a pair out or moves on
  induction hn : attempt.ephemerons.length - index generalizing attempt index marked with
  | zero =>
    have hge : ¬ index < attempt.ephemerons.length := by omega
    refine ⟨marked, attempt, ?_, h, Nat.le_refl _, subset_rfl, .inl, fun hmarked => ?_⟩
    · rw [MarkAttempt.ephemeronRound, dif_neg hge]
    · obtain ⟨hwork, hseen⟩ := hquiet hmarked
      exact ⟨hwork, fun i hi => hseen i (by omega)⟩
  | succ n ih =>
    have hlt : index < attempt.ephemerons.length := by omega
    obtain ⟨hsome, hholds⟩ := h.recorded _ (List.getElem_mem hlt)
    obtain ⟨⟨key, value⟩, hpair⟩ := Option.isSome_iff_exists.mp hsome
    rw [MarkAttempt.ephemeronRound, dif_pos hlt, congrFun h.pairs, hpair]
    dsimp only
    by_cases hkey : key ∈ attempt.marks
    · rw [if_pos hkey]
      obtain ⟨o, ho, hreport⟩ := hholds
      have hvalue : value ∈ reached := hclosed.value ho hreport hpair (h.sound key hkey).symm
      obtain ⟨hgrows, hmem⟩ := discover_grows attempt value
      obtain ⟨hweight, hfresh⟩ := discover_weight attempt value
      have hsame : (attempt.discover value).2.ephemerons = attempt.ephemerons := by
        by_cases hmarked : value ∈ attempt.marks
        · rw [discover_of_mem hmarked]
        · exact (discover_of_notMem hmarked).2.2.2.2
      have hnext := (h.discover hvalue).swapRemove (by rw [hsame]; exact hlt)
        (by simpa only [hsame] using hpair) (hgrows.marks hkey) hmem
      rw [hsame] at hnext
      have hlength := length_swapRemove attempt.ephemerons index
      have hquiet' : (marked || (attempt.discover value).1) = false →
          Quiet graph { (attempt.discover value).2 with
            ephemerons := Gc.swapRemove attempt.ephemerons index } index := by
        -- nothing was marked, so the pairs seen before are as they were
        intro hor
        obtain ⟨hmarked, hold⟩ := Bool.or_eq_false_iff.mp hor
        have hvalueMarked : value ∈ attempt.marks := by
          by_contra hnot
          rw [(discover_of_notMem hnot).1] at hold
          cases hold
        rw [discover_of_mem hvalueMarked]
        obtain ⟨hwork, hseen⟩ := hquiet hmarked
        refine ⟨hwork, fun i hi pair hget => hseen i hi pair ?_⟩
        rw [← swapRemove_getElem? hlt hi]
        exact hget
      obtain ⟨marked', after, hafter, hinv, hweight', hmarks, hprogress, hdone⟩ :=
        ih hnext hquiet' (by dsimp only; omega)
      refine ⟨marked', after, hafter, hinv, hweight'.trans hweight,
        Finset.Subset.trans hgrows.marks hmarks, fun hmarked => ?_, hdone⟩
      rcases hprogress hmarked with hor | hlt'
      · rcases Bool.or_eq_true_iff.mp hor with hmarked | hnew
        · exact .inl hmarked
        · exact .inr (Nat.lt_of_le_of_lt (unmarked_le_of_subset hmarks) (hfresh hnew))
      · exact .inr (Nat.lt_of_lt_of_le hlt' (unmarked_le_of_subset hgrows.marks))
    · rw [if_neg hkey]
      refine ih h (fun hmarked => ?_) (by omega)
      obtain ⟨hwork, hseen⟩ := hquiet hmarked
      refine ⟨hwork, fun i hi pair hget => ?_⟩
      rcases Nat.lt_or_eq_of_le (Nat.le_of_lt_succ hi) with hi | rfl
      · exact hseen i hi pair hget
      · rw [List.getElem?_eq_getElem hlt] at hget
        cases hget
        exact ⟨key, value, hpair, hkey⟩

/-- **Rounds until nothing is marked**, and what is cleared then. -/
theorem Marking.traceEphemerons [DecidableEq Pair] (hclosed : graph.Closed reached)
    (order : List Obj → Nat) {limit : Nat} (hlimit : 2 * Fintype.card Obj < limit)
    (h : Marking graph reached attempt none) (hwork : attempt.worklist = []) {fuel : Nat}
    (hfuel : unmarked attempt < fuel) :
    ∃ after, MarkAttempt.traceEphemerons graph order limit fuel attempt = .ok after.clearRecorded ∧
      Marking graph reached after none ∧ Quiet graph after after.ephemerons.length ∧
      attempt.marks ⊆ after.marks := by
  induction fuel generalizing attempt with
  | zero => exact absurd hfuel (Nat.not_lt_zero _)
  | succ fuel ih =>
    have hquiet : Quiet graph attempt 0 := ⟨hwork, fun i hi => absurd hi (Nat.not_lt_zero i)⟩
    obtain ⟨marked, round, hround, hinv, hweight, hkept, hprogress, hdone⟩ :=
      h.ephemeronRound hclosed fun _ => hquiet
    unfold MarkAttempt.traceEphemerons
    rw [hround]
    cases marked with
    | false => exact ⟨round, rfl, hinv, hdone rfl, hkept⟩
    | true =>
      have hfewer := (hprogress rfl).resolve_left Bool.false_ne_true
      have hbound : weight attempt ≤ 2 * Fintype.card Obj := by
        unfold weight unmarked
        rw [hwork, List.length_nil]
        omega
      obtain ⟨drained, hdrained, hinv', hwork', hmarks⟩ :=
        Marking.traceWorklist hclosed order
          ({ hinv with } : Marking graph reached
            { round with ephemeronRoundCount := round.ephemeronRoundCount + 1 } none)
          (Nat.lt_of_le_of_lt (hweight.trans hbound) hlimit)
      have hle : unmarked drained ≤ unmarked round := unmarked_le_of_subset hmarks
      obtain ⟨after, hafter, hinv'', hquiet', hmarks'⟩ := ih hinv' hwork' (by omega)
      refine ⟨after, ?_, hinv'', hquiet',
        Finset.Subset.trans hkept (Finset.Subset.trans hmarks hmarks')⟩
      simp only [Except.bind_ok, if_true, hdrained]
      exact hafter

end Rounds

/-! ### The whole attempt -/

section Mark

variable {graph : HeapGraph Obj Pair} {attempt : MarkAttempt Obj Pair}

/-- Retaining the pending objects marks them, and does nothing else that marking depends on. -/
theorem retainPendingFinalizers_eq (attempt : MarkAttempt Obj Pair) {owners : List Obj}
    (hnodup : owners.Nodup) (hnew : ∀ o ∈ owners, o ∉ attempt.marks) :
    ∃ after, attempt.retainPendingFinalizers owners = .ok after ∧
      (∀ o, o ∈ after.marks ↔ o ∈ owners ∨ o ∈ attempt.marks) ∧ after.pairs = attempt.pairs ∧
      after.worklist = attempt.worklist ∧ after.ephemerons = attempt.ephemerons := by
  induction owners generalizing attempt with
  | nil => exact ⟨attempt, rfl, fun o => by simp, rfl, rfl, rfl⟩
  | cons owner owners ih =>
    obtain ⟨hout, hnodup⟩ := List.nodup_cons.mp hnodup
    have hfresh := hnew owner (.head _)
    unfold MarkAttempt.retainPendingFinalizers
    rw [check, if_pos hfresh]
    have hnew' : ∀ o ∈ owners, o ∉ insert owner attempt.marks := by
      intro o ho hmem
      rcases Finset.mem_insert.mp hmem with rfl | hmem
      · exact hout ho
      · exact hnew o (.tail _ ho) hmem
    obtain ⟨after, hafter, hmarks, hrest⟩ := ih
      { attempt with
        marks := insert owner attempt.marks
        markedSlotCount := attempt.markedSlotCount + 1
        conservativelyRetainedSlotCount := attempt.conservativelyRetainedSlotCount + 1 } hnodup hnew'
    refine ⟨after, hafter, fun o => ?_, hrest⟩
    rw [hmarks, Finset.mem_insert, List.mem_cons]
    tauto

/-- The registered roots are marked, and the invariant holds. -/
theorem Marking.seedRegisteredRoots [Fintype Obj] {reached : Set Obj}
    (h : Marking graph reached attempt none) {roots : List Obj} (hroots : ∀ o ∈ roots, o ∈ reached) :
    Marking graph reached (attempt.seedRegisteredRoots roots) none ∧
      attempt.marks ⊆ (attempt.seedRegisteredRoots roots).marks ∧
      (∀ o ∈ roots, o ∈ (attempt.seedRegisteredRoots roots).marks) ∧
      weight (attempt.seedRegisteredRoots roots) ≤ weight attempt := by
  induction roots generalizing attempt with
  | nil => exact ⟨h, subset_rfl, nofun, Nat.le_refl _⟩
  | cons root roots ih =>
    have hcounted : Marking graph reached { attempt with rootCount := attempt.rootCount + 1 } none :=
      { h with }
    obtain ⟨hgrows, hmem⟩ :=
      discover_grows { attempt with rootCount := attempt.rootCount + 1 } root
    obtain ⟨hinv, hmarks, hall, hweight⟩ := ih (hcounted.discover (hroots root (.head _)))
      fun o ho => hroots o (.tail _ ho)
    refine ⟨hinv, Finset.Subset.trans hgrows.marks hmarks, fun o ho => ?_,
      hweight.trans (discover_weight _ root).1⟩
    rcases List.mem_cons.mp ho with rfl | ho
    · exact hmarks hmem
    · exact hall o ho

omit [DecidableEq Obj] in
/-- Clearing takes exactly the recorded ephemerons. -/
theorem clearRecorded_pairs [DecidableEq Pair] (attempt : MarkAttempt Obj Pair) (pair : Pair) :
    attempt.clearRecorded.pairs pair =
      if pair ∈ attempt.ephemerons then none else attempt.pairs pair := by
  have hfold : ∀ (recorded : List Pair) (pairs : Pair → Option (Obj × Obj)),
      recorded.foldl (fun pairs pair => Function.update pairs pair none) pairs pair =
        if pair ∈ recorded then none else pairs pair := by
    intro recorded
    induction recorded with
    | nil => exact fun pairs => (if_neg List.not_mem_nil).symm
    | cons first recorded ih =>
      intro pairs
      rw [List.foldl_cons, ih]
      by_cases heq : pair = first
      · subst heq
        rw [Function.update_self, if_pos List.mem_cons_self, ite_self]
      · rw [Function.update_of_ne heq]
        simp only [List.mem_cons, heq, false_or]
  exact hfold attempt.ephemerons attempt.pairs

variable {reached : Set Obj}

omit [DecidableEq Obj] in
/-- Where the invariant holds, nothing is on the worklist and the recorded pairs have unmarked keys,
the marked objects that are not pending are closed. -/
theorem Marking.closed (hclosed : graph.Closed reached)
    (hpending : ∀ o ∈ graph.pending, o ∉ reached) (h : Marking graph reached attempt none)
    (hroots : ∀ o ∈ graph.roots, o ∈ attempt.marks)
    (hquiet : Quiet graph attempt attempt.ephemerons.length) :
    graph.Closed {o | o ∈ attempt.marks ∧ o ∉ graph.pending} := by
  obtain ⟨hwork, hkeys⟩ := hquiet
  have hout : ∀ o, o ∉ attempt.worklist := fun o => by rw [hwork]; exact List.not_mem_nil
  have hreached : ∀ {o}, o ∈ attempt.marks ∧ o ∉ graph.pending → o ∈ reached :=
    fun ho => (h.sound _ ho.1).resolve_left ho.2
  have hnoted : ∀ {o}, o ∈ attempt.marks ∧ o ∉ graph.pending → ∀ report ∈ graph.trace o,
      Noted graph attempt report :=
    fun ho => h.noted _ ho.1 ho.2 (hout _) nofun
  refine ⟨fun ho => ⟨hroots _ ho, fun hp => hpending _ hp (hclosed.root ho)⟩,
    fun ho hr => ⟨hnoted ho _ hr, fun hp => hpending _ hp (hclosed.edge (hreached ho) hr)⟩, ?_⟩
  intro o pair key value ho hr hpair hkey
  have hkeyMarked : key ∈ attempt.marks := hkey.elim (fun hkey => hkey.1) (h.pending key)
  have hvalue : value ∈ reached :=
    hclosed.value (hreached ho) hr hpair (h.sound key hkeyMarked).symm
  refine ⟨?_, fun hp => hpending _ hp hvalue⟩
  rcases hnoted ho _ hr key value hpair with hmarks | hmem
  · exact hmarks.2
  · -- a pair that is still recorded has an unmarked key
    obtain ⟨i, hi, hget⟩ := List.getElem_of_mem hmem
    obtain ⟨key', value', hpair', hunmarked⟩ :=
      hkeys i hi pair (List.getElem?_eq_some_iff.mpr ⟨hi, hget⟩)
    obtain ⟨rfl, rfl⟩ := Prod.mk.inj (Option.some.inj (hpair.symm.trans hpair'))
    exact absurd hkeyMarked hunmarked

omit [DecidableEq Obj] in
/-- The pairs that are recorded at the end are those reached whose keys are not marked. -/
theorem Marking.recorded_iff (hpending : ∀ o ∈ graph.pending, o ∉ reached)
    (h : Marking graph reached attempt none) (hmarks : ∀ o ∈ reached, o ∈ attempt.marks)
    (hquiet : Quiet graph attempt attempt.ephemerons.length) (pair : Pair) :
    pair ∈ attempt.ephemerons ↔ graph.Holds reached pair ∧ KeyUnmarked graph attempt pair := by
  obtain ⟨hwork, hkeys⟩ := hquiet
  constructor
  · intro hmem
    obtain ⟨i, hi, hget⟩ := List.getElem_of_mem hmem
    exact ⟨(h.recorded pair hmem).2, hkeys i hi pair (List.getElem?_eq_some_iff.mpr ⟨hi, hget⟩)⟩
  · rintro ⟨⟨o, ho, hr⟩, key, value, hpair, hunmarked⟩
    have hnoted := h.noted o (hmarks o ho) (fun hp => hpending o hp ho)
      (by rw [hwork]; exact List.not_mem_nil) nofun _ hr key value hpair
    exact hnoted.resolve_left fun hbad => hunmarked hbad.1

/-- **Marking one heap.** -/
theorem mark_spec [DecidableEq Pair] [Fintype Obj] (hleast : IsLeast {s | graph.Closed s} reached)
    (hpending : ∀ o ∈ graph.pending, o ∉ reached) (order : List Obj → Nat) {limit : Nat}
    (hlimit : 2 * Fintype.card Obj < limit) :
    ∃ after, mark graph order limit = .ok after ∧
      (∀ o, o ∈ after.marks ↔ o ∈ graph.pending ∨ o ∈ reached) ∧
      ∀ pair, (graph.Holds reached pair ∧ KeyUnmarked graph after pair → after.pairs pair = none) ∧
        (¬ (graph.Holds reached pair ∧ KeyUnmarked graph after pair) →
          after.pairs pair = graph.pairs pair) := by
  have hclosed : graph.Closed reached := hleast.1
  obtain ⟨retained, hretained, hmarks, hpairs, hwork, hephemerons⟩ :=
    retainPendingFinalizers_eq (MarkAttempt.begin graph) graph.pending_nodup
      fun _ _ hbad => absurd hbad (Finset.notMem_empty _)
  have hmarks : ∀ o, o ∈ retained.marks ↔ o ∈ graph.pending := fun o =>
    (hmarks o).trans (or_iff_left (Finset.notMem_empty o))
  have hbegin : Marking graph reached retained none := by
    refine ⟨hpairs, fun o ho => (hmarks o).mpr ho, fun o ho => .inl ((hmarks o).mp ho), ?_, ?_, ?_⟩
    · rw [hwork]
      exact nofun
    · exact fun o ho hout => absurd ((hmarks o).mp ho) hout
    · rw [hephemerons]
      exact nofun
  obtain ⟨hseeded, _, hroots, hweight⟩ := hbegin.seedRegisteredRoots fun _ => hclosed.root
  have hbound : weight retained ≤ 2 * Fintype.card Obj := by
    unfold weight unmarked
    rw [hwork]
    exact Nat.mul_le_mul_left 2 (Nat.sub_le _ _)
  obtain ⟨drained, hdrained, hinv, hempty, hkept⟩ :=
    hseeded.traceWorklist hclosed order (Nat.lt_of_le_of_lt (hweight.trans hbound) hlimit)
  have hfuel : unmarked drained < limit := by
    have hle : unmarked drained ≤ Fintype.card Obj := Nat.sub_le _ _
    omega
  obtain ⟨final, hfinal, hinv', hquiet, hkept'⟩ :=
    hinv.traceEphemerons hclosed order hlimit hempty hfuel
  -- the marks are final: what is marked and not pending is closed, so it holds all that is reached
  have hreached : ∀ o ∈ reached, o ∈ final.marks := fun o ho =>
    (hleast.2 (hinv'.closed hclosed hpending (fun r hr => hkept' (hkept (hroots r hr))) hquiet) ho).1
  refine ⟨final.clearRecorded, ?_, fun o => ⟨hinv'.sound o, ?_⟩, fun pair => ?_⟩
  · unfold mark
    rw [hretained, Except.bind_ok, hdrained, Except.bind_ok, hfinal, Except.bind_ok, check,
      if_pos (show final.clearRecorded.worklist = [] from hquiet.1)]
    rfl
  · exact fun ho => ho.elim (hinv'.pending o) (hreached o)
  · have hiff := hinv'.recorded_iff hpending hreached hquiet pair
    rw [clearRecorded_pairs]
    exact ⟨fun hcleared => if_pos (hiff.mpr hcleared), fun hkept =>
      (if_neg fun hmem => hkept (hiff.mp hmem)).trans (congrFun hinv'.pairs pair)⟩

/-- **Marking is exact.** In every heap whose pending objects the roots do not reach, whatever the
order of its roots, of the reports of its objects and in which work is taken, marking ends without a
panic, and marks the pending objects and what the roots reach. It clears the ephemerons that it
reached and whose keys it did not mark, and no others. -/
theorem mark_exact [DecidableEq Pair] [Fintype Obj] (graph : HeapGraph Obj Pair)
    (hpending : ∀ o ∈ graph.pending, o ∉ graph.reached) :
    IsLeast {s | graph.Closed s} graph.reached ∧
    ∃ (marks : Finset Obj) (pairs : Pair → Option (Obj × Obj)),
      (∀ o, o ∈ marks ↔ o ∈ graph.pending ∨ o ∈ graph.reached) ∧
      (∀ pair, pairs pair = none ∧ graph.pairs pair ≠ none ↔ graph.Holds graph.reached pair ∧
        ∃ key value, graph.pairs pair = some (key, value) ∧ key ∉ marks) ∧
      (∀ pair, pairs pair = none ∨ pairs pair = graph.pairs pair) ∧
      ∀ (other : HeapGraph Obj Pair) (order : List Obj → Nat) (limit : Nat), graph.Reorders other →
        2 * Fintype.card Obj < limit →
        ∃ after, mark other order limit = .ok after ∧ after.marks = marks ∧ after.pairs = pairs := by
  refine ⟨graph.reached_isLeast, ?_⟩
  -- one order of marking gives the result, and the others are compared with it
  obtain ⟨first, _, hmarks, hpairs⟩ :=
    mark_spec graph.reached_isLeast hpending newestFirst (Nat.lt_succ_self _)
  refine ⟨first.marks, first.pairs, hmarks, fun pair => ?_, fun pair => ?_, ?_⟩
  · constructor
    · rintro ⟨hcleared, hwas⟩
      by_contra hkept
      exact hwas (((hpairs pair).2 hkept).symm.trans hcleared)
    · intro hcleared
      obtain ⟨key, value, hpair, _⟩ := hcleared.2
      exact ⟨(hpairs pair).1 hcleared, fun hbad => nomatch hpair.symm.trans hbad⟩
  · by_cases hcleared : graph.Holds graph.reached pair ∧ KeyUnmarked graph first pair
    · exact .inl ((hpairs pair).1 hcleared)
    · exact .inr ((hpairs pair).2 hcleared)
  intro other order limit horder hlimit
  have hreached := horder.reached_eq
  obtain ⟨after, hafter, hmarks', hpairs'⟩ := mark_spec other.reached_isLeast
    (fun o ho hr => hpending o (horder.pending.mem_iff.mp ho) (hreached ▸ hr)) order hlimit
  have hsame : after.marks = first.marks := by
    ext o
    rw [hmarks', hmarks, horder.pending.mem_iff, hreached]
  refine ⟨after, hafter, hsame, funext fun pair => ?_⟩
  have hiff : (other.Holds other.reached pair ∧ KeyUnmarked other after pair) ↔
      graph.Holds graph.reached pair ∧ KeyUnmarked graph first pair := by
    unfold KeyUnmarked
    rw [hreached, horder.holds_iff, horder.pairs, hsame]
  by_cases hcleared : graph.Holds graph.reached pair ∧ KeyUnmarked graph first pair
  · exact ((hpairs' pair).1 (hiff.mpr hcleared)).trans ((hpairs pair).1 hcleared).symm
  · rw [(hpairs' pair).2 fun hbad => hcleared (hiff.mp hbad), (hpairs pair).2 hcleared, horder.pairs]

/-- A heap of five objects. The root holds two ephemerons: the key of one is reached, the key of the
other is not. The last object is pending. -/
def sampleGraph : HeapGraph (Fin 5) Bool where
  roots := [0]
  trace o := if o = 0 then [.ephemeron true, .ephemeron false, .edge 1] else []
  pairs pair := if pair then some (1, 2) else some (3, 1)
  pending := [4]
  pending_nodup := List.nodup_singleton 4

/-- The pending object is marked, though nothing reaches it. -/
theorem mark_exact_sampleGraph :
    (∀ o ∈ sampleGraph.pending, o ∉ sampleGraph.reached) ∧
      ∃ after, mark sampleGraph newestFirst 11 = .ok after ∧ 4 ∈ after.marks := by
  have hclosed : sampleGraph.Closed {o | o ≠ 4} := by
    refine ⟨by simp [sampleGraph], fun {o target} _ hr => ?_, fun {o pair key value} _ _ hpair _ => ?_⟩
    · by_cases ho : o = 0 <;> simp [sampleGraph, ho] at hr
      simp [hr]
    · cases pair <;> simp [sampleGraph] at hpair <;> simp [← hpair.2]
  have hpending : ∀ o ∈ sampleGraph.pending, o ∉ sampleGraph.reached := by
    intro o ho hr
    rw [List.mem_singleton.mp ho] at hr
    exact hr _ hclosed rfl
  obtain ⟨_, marks, _, hmarks, _, _, hall⟩ := mark_exact sampleGraph hpending
  obtain ⟨after, hafter, rfl, _⟩ := hall sampleGraph newestFirst 11
    ⟨.refl _, fun _ => .refl _, rfl, .refl _⟩ (by decide)
  exact ⟨hpending, after, hafter, (hmarks 4).mpr (.inl (List.mem_singleton_self 4))⟩

end Mark

end Glam.Gc
