import Mathlib.Data.Finset.Card
import Mathlib.Data.List.Nodup

/-!
# Alternating walks

Points, each with two sides. A side of a point leads to a side of another point, or to an end:
`leave b i` says where the side `b` of `i` leads. Where both sides are symmetric (`TwoMatchings`),
the points fall into paths, which go through each of their points once and lead from an end to an
end, and cycles, which have no ends.

`paths` finds the paths, in the order of the points: from each point not seen yet with an end on one
side, it walks to the other end. It lists each side with an end exactly once
(`TwoMatchings.exists_paths`). The walk never comes back to a point, since whatever it passed leads
only to what it passed, so as many steps as there are points suffice.
-/

namespace Glam.Alternating

variable {ι ε : Type}

/-- A side of a point. -/
abbrev Half (ι : Type) := ι × Bool

/-- Both sides are symmetric, and no point leads to itself. -/
structure TwoMatchings (leave : Bool → ι → ε ⊕ ι) : Prop where
  symm : ∀ {b i j}, leave b i = .inr j → leave b j = .inr i
  irrefl : ∀ {b i}, leave b i ≠ .inr i

variable (leave : Bool → ι → ε ⊕ ι)

/-- The side leads to an end. -/
def IsEnd (half : Half ι) : Prop :=
  ∃ e, leave half.2 half.1 = .inl e

/-- Leaving `i` by its side `b`, one arrives at the end of `half`. -/
inductive Arrives (leave : Bool → ι → ε ⊕ ι) : ι → Bool → Half ι → Prop
  | here {i : ι} {b : Bool} {e : ε} : leave b i = .inl e → Arrives leave i b (i, b)
  | step {i j : ι} {b : Bool} {half : Half ι} :
      leave b i = .inr j → Arrives leave j (!b) half → Arrives leave i b half

/-- A path leads from the end of one side to the end of the other. -/
def Joins (first last : Half ι) : Prop :=
  IsEnd leave first ∧ Arrives leave first.1 (!first.2) last

/-- Walks from `i`, leaving by its side `b`, to an end. Returns the points passed and the side that
has the end. -/
def walk (leave : Bool → ι → ε ⊕ ι) : Nat → ι → Bool → Option (List ι × Half ι)
  | 0, _, _ => none
  | fuel + 1, i, b =>
    match leave b i with
    | .inl _ => some ([i], (i, b))
    | .inr j => (walk leave fuel j (!b)).map fun found => (i :: found.1, found.2)

/-- What the search for paths has seen, and the ends of the paths it found. -/
structure Search (ι : Type) where
  visited : List ι
  found : List (Half ι × Half ι)

/-- The sides that paths end at. -/
def halves (found : List (Half ι × Half ι)) : List (Half ι) :=
  found.flatMap fun path => [path.1, path.2]

/-- The paths found join the ends of the points seen, each end once, and what was seen leads only to
itself. -/
structure Search.Ok (leave : Bool → ι → ε ⊕ ι) (P : Finset ι) (search : Search ι) : Prop where
  subset : ∀ x ∈ search.visited, x ∈ P
  closed : ∀ v ∈ search.visited, ∀ b w, leave b v = .inr w → w ∈ search.visited
  joins : ∀ path ∈ search.found, Joins leave path.1 path.2
  nodup : (halves search.found).Nodup
  mem_halves : ∀ half, half ∈ halves search.found ↔ IsEnd leave half ∧ half.1 ∈ search.visited

variable [DecidableEq ι]

/-- Enters the path at the side `b` of `start`, if it has an end and was not seen yet. -/
def Search.enter (fuel : Nat) (start : ι) (b : Bool) (search : Search ι) : Option (Search ι) :=
  if start ∈ search.visited then some search
  else
    match leave b start with
    | .inr _ => some search
    | .inl _ =>
      (walk leave fuel start (!b)).map fun found =>
        ⟨search.visited ++ found.1, search.found ++ [((start, b), found.2)]⟩

/-- Enters each point by its one side, then by the other. -/
def Search.enterAll (leave : Bool → ι → ε ⊕ ι) (fuel : Nat) :
    List ι → Search ι → Option (Search ι)
  | [], search => some search
  | start :: starts, search =>
    (search.enter leave fuel start false).bind fun search =>
      (search.enter leave fuel start true).bind fun search =>
        search.enterAll leave fuel starts

/-- The paths among `points`, each as the two sides that have its ends. -/
def paths (points : List ι) : Option (List (Half ι × Half ι)) :=
  (Search.enterAll leave (points.length + 1) points ⟨[], []⟩).map Search.found

/-! ### Arriving -/

variable {leave : Bool → ι → ε ⊕ ι} {i : ι} {b : Bool} {half : Half ι} {fuel : Nat}

omit [DecidableEq ι] in
theorem Arrives.isEnd (h : Arrives leave i b half) : IsEnd leave half := by
  induction h with
  | here he => exact ⟨_, he⟩
  | step _ _ ih => exact ih

omit [DecidableEq ι] in
/-- A walk arrives at one end only. -/
theorem Arrives.unique {half' : Half ι} (h : Arrives leave i b half) (h' : Arrives leave i b half')
    : half = half' := by
  induction h with
  | here he =>
    cases h' with
    | here => rfl
    | step hj _ => rw [he] at hj; simp at hj
  | step hj _ ih =>
    cases h' with
    | here he => rw [hj] at he; simp at he
    | step hj' harr =>
      rw [hj] at hj'
      obtain rfl := Sum.inr.inj hj'
      exact ih harr

omit [DecidableEq ι] in
theorem Joins.unique {first last last' : Half ι} (h : Joins leave first last)
    (h' : Joins leave first last') : last = last' :=
  h.2.unique h'.2

omit [DecidableEq ι] in
/-- A walk that returns has arrived. -/
theorem arrives_of_walk {l : List ι} (h : walk leave fuel i b = some (l, half)) :
    Arrives leave i b half := by
  induction fuel generalizing i b l with
  | zero => simp [walk] at h
  | succ fuel ih =>
    rw [walk] at h
    cases hleave : leave b i with
    | inl =>
      simp only [hleave, Option.some.injEq, Prod.mk.injEq] at h
      obtain ⟨-, rfl⟩ := h
      exact .here hleave
    | inr =>
      simp only [hleave, Option.map_eq_some_iff, Prod.mk.injEq] at h
      obtain ⟨⟨l', half'⟩, hwalk, -, rfl⟩ := h
      exact .step hleave (ih hwalk)

namespace TwoMatchings

variable {leave : Bool → ι → ε ⊕ ι}

omit [DecidableEq ι] in
/-- Walking back: if leaving `i` by `b` arrives at `half`, then what comes before `i` is reached
from the other side of `half`. -/
theorem arrives_back (h : TwoMatchings leave) {origin : Half ι} (harr : Arrives leave i b half)
    (hback : Arrives leave i (!b) origin) : Arrives leave half.1 (!half.2) origin := by
  induction harr with
  | here => exact hback
  | @step i j b half hj _ ih =>
    refine ih ?_
    rw [Bool.not_not]
    exact .step (h.symm hj) hback

omit [DecidableEq ι] in
/-- **Paths lead both ways.** -/
theorem joins_symm (h : TwoMatchings leave) {first last : Half ι} (hj : Joins leave first last) :
    Joins leave last first := by
  obtain ⟨⟨e, he⟩, harr⟩ := hj
  refine ⟨harr.isEnd, h.arrives_back harr ?_⟩
  rw [Bool.not_not]
  exact .here he

omit [DecidableEq ι] in
/-- A path from a side that found paths end at is one of them, from this end or from the other. -/
theorem mem_of_mem_halves (h : TwoMatchings leave) {found : List (Half ι × Half ι)}
    (hjoins : ∀ path ∈ found, Joins leave path.1 path.2) {first last : Half ι}
    (hmem : first ∈ halves found) (hjoin : Joins leave first last) :
    (first, last) ∈ found ∨ (last, first) ∈ found := by
  obtain ⟨path, hpath, hhalf⟩ := List.mem_flatMap.mp hmem
  rw [List.mem_pair] at hhalf
  rcases hhalf with rfl | rfl
  · obtain rfl := (hjoins path hpath).unique hjoin
    exact .inl hpath
  · obtain rfl := (h.joins_symm (hjoins path hpath)).unique hjoin
    exact .inr hpath

/-! ### The walk -/

/-- A set of points that lead only to one another. -/
def Closed (leave : Bool → ι → ε ⊕ ι) (V : Finset ι) : Prop :=
  ∀ v ∈ V, ∀ b w, leave b v = .inr w → w ∈ V

/-- What a walk from `i`, leaving by `b`, has found: new points, among which only the first and the
last have ends, on the side not left by and on the side arrived at. -/
structure Walked (leave : Bool → ι → ε ⊕ ι) (P V : Finset ι) (i : ι) (b : Bool) (l : List ι)
    (half : Half ι) : Prop where
  nodup : l.Nodup
  new : ∀ x ∈ l, x ∈ P ∧ x ∉ V
  mem_start : i ∈ l
  mem_last : half.1 ∈ l
  closed : Closed leave (V ∪ l.toFinset)
  ends : ∀ x ∈ l, ∀ c, IsEnd leave (x, c) → (x, c) = half ∨ (x, c) = (i, !b)
  ne : half ≠ (i, !b)

variable {P : Finset ι}

/-- **The walk comes to an end.** `V` has been passed already: it leads only to itself, except that
the walk has come from it to `i` by the side opposite to `b`. -/
theorem exists_walk (h : TwoMatchings leave) (hP : Closed leave P) {V : Finset ι} (hi : i ∈ P)
    (hiV : i ∉ V) (hV : ∀ v ∈ V, ∀ c w, leave c v = .inr w → w ∈ V ∨ (w = i ∧ c = !b))
    (hfrom : ∀ w, leave (!b) i = .inr w → w ∈ V) (hfuel : (P \ V).card ≤ fuel) :
    ∃ l half, walk leave fuel i b = some (l, half) ∧ Walked leave P V i b l half := by
  induction fuel generalizing V i b with
  | zero =>
    have hmem : i ∈ P \ V := Finset.mem_sdiff.mpr ⟨hi, hiV⟩
    have hpos : 0 < (P \ V).card := Finset.card_pos.mpr ⟨i, hmem⟩
    omega
  | succ fuel ih =>
    rw [walk]
    cases hleave : leave b i with
    | inl =>
      refine ⟨[i], (i, b), rfl, by simp, by simpa using ⟨hi, hiV⟩, by simp, by simp, ?_, ?_, ?_⟩
      · intro v hv c w hw
        rw [List.toFinset_cons, List.toFinset_nil, Finset.mem_union, Finset.mem_insert] at hv ⊢
        rcases hv with hv | rfl | hv
        · rcases hV v hv c w hw with hw | ⟨rfl, -⟩
          · exact .inl hw
          · exact .inr (.inl rfl)
        · -- the side left by has an end, and the other leads back
          rcases Bool.eq_or_eq_not c b with rfl | rfl
          · cases hleave.symm.trans hw
          · exact .inl (hfrom w hw)
        · simp at hv
      · intro x hx c _
        obtain rfl := List.mem_singleton.mp hx
        exact (Bool.eq_or_eq_not c b).imp (congrArg _) (congrArg _)
      · intro heq
        exact Bool.not_ne_self b (Prod.mk.inj heq).2.symm
    | inr j =>
      have hji : leave b j = .inr i := h.symm hleave
      have hne : j ≠ i := fun heq => h.irrefl (heq ▸ hleave)
      -- nothing passed leads to `j` by this side, for it would lead to `i` by it
      have hjV : j ∉ V := by
        intro hj
        rcases hV j hj b i hji with hiV' | ⟨-, hb⟩
        · exact hiV hiV'
        · exact Bool.not_ne_self b hb.symm
      have hjP : j ∈ P := hP i hi b j hleave
      have hcard : (P \ insert i V).card ≤ fuel := by
        rw [Finset.sdiff_insert, Finset.card_erase_of_mem (Finset.mem_sdiff.mpr ⟨hi, hiV⟩)]
        omega
      have hV' : ∀ v ∈ insert i V, ∀ c w, leave c v = .inr w →
          w ∈ insert i V ∨ (w = j ∧ c = !(!b)) := by
        intro v hv c w hw
        rcases Finset.mem_insert.mp hv with rfl | hv
        · rcases Bool.eq_or_eq_not c b with rfl | rfl
          · rw [hleave] at hw
            exact .inr ⟨(Sum.inr.inj hw).symm, (Bool.not_not _).symm⟩
          · exact .inl (Finset.mem_insert_of_mem (hfrom w hw))
        · rcases hV v hv c w hw with hwV | ⟨rfl, -⟩
          · exact .inl (Finset.mem_insert_of_mem hwV)
          · exact .inl (Finset.mem_insert_self _ V)
      have hfrom' : ∀ w, leave (!(!b)) j = .inr w → w ∈ insert i V := by
        intro w hw
        rw [Bool.not_not, hji] at hw
        exact Sum.inr.inj hw ▸ Finset.mem_insert_self i V
      obtain ⟨l, half, hwalk, hl⟩ := ih hjP (by simp [hjV, hne]) hV' hfrom' hcard
      refine ⟨i :: l, half, by simp [hwalk], ?_, ?_, by simp, ?_, ?_, ?_, ?_⟩
      · refine List.nodup_cons.mpr ⟨fun hil => ?_, hl.nodup⟩
        exact (hl.new i hil).2 (Finset.mem_insert_self i V)
      · refine List.forall_mem_cons.mpr ⟨⟨hi, hiV⟩, fun x hx => ?_⟩
        exact (hl.new x hx).imp_right fun hnot hxV => hnot (Finset.mem_insert_of_mem hxV)
      · exact List.mem_cons_of_mem i hl.mem_last
      · have hunion : V ∪ (i :: l).toFinset = insert i V ∪ l.toFinset := by
          rw [List.toFinset_cons, Finset.union_insert, Finset.insert_union]
        rw [hunion]
        exact hl.closed
      · intro x hx c hend
        rcases List.mem_cons.mp hx with rfl | hx
        · rcases Bool.eq_or_eq_not c b with rfl | rfl
          · obtain ⟨e, he⟩ := hend
            cases hleave.symm.trans he
          · exact .inr rfl
        · rcases hl.ends x hx c hend with hhalf | hfirst
          · exact .inl hhalf
          · obtain ⟨rfl, rfl⟩ := Prod.mk.inj hfirst
            obtain ⟨e, he⟩ := hend
            rw [Bool.not_not] at he
            cases hji.symm.trans he
      · intro heq
        have hlast := hl.mem_last
        rw [heq] at hlast
        exact (hl.new i hlast).2 (Finset.mem_insert_self i V)

/-! ### The search -/

omit [DecidableEq ι] in
theorem halves_concat (found : List (Half ι × Half ι)) (path : Half ι × Half ι) :
    halves (found ++ [path]) = halves found ++ [path.1, path.2] := by
  simp [halves]

/-- Entering a point by one side: afterwards the point is seen if that side has an end. -/
theorem exists_enter (h : TwoMatchings leave) (hP : Closed leave P) (hfuel : P.card ≤ fuel)
    {search : Search ι} (hok : search.Ok leave P) {start : ι} (hstart : start ∈ P) (b : Bool) :
    ∃ search', search.enter leave fuel start b = some search' ∧ search'.Ok leave P ∧
      (∀ x ∈ search.visited, x ∈ search'.visited) ∧
      (IsEnd leave (start, b) → start ∈ search'.visited) := by
  unfold Search.enter
  by_cases hseen : start ∈ search.visited
  · rw [if_pos hseen]
    exact ⟨search, rfl, hok, fun _ hx => hx, fun _ => hseen⟩
  rw [if_neg hseen]
  cases hleave : leave b start with
  | inr =>
    refine ⟨search, rfl, hok, fun _ hx => hx, ?_⟩
    rintro ⟨e, he⟩
    cases hleave.symm.trans he
  | inl e =>
    have hend : IsEnd leave (start, b) := ⟨e, hleave⟩
    -- a new path: nothing seen leads to its first point
    have hV : ∀ v ∈ search.visited.toFinset, ∀ c w, leave c v = .inr w →
        w ∈ search.visited.toFinset ∨ (w = start ∧ c = !(!b)) := by
      intro v hv c w hw
      exact .inl (List.mem_toFinset.mpr (hok.closed v (List.mem_toFinset.mp hv) c w hw))
    have hfrom : ∀ w, leave (!(!b)) start = .inr w → w ∈ search.visited.toFinset := by
      intro w hw
      rw [Bool.not_not, hleave] at hw
      simp at hw
    obtain ⟨l, half, hwalk, hl⟩ := h.exists_walk hP hstart (by simpa using hseen) hV hfrom
      ((Finset.card_le_card Finset.sdiff_subset).trans hfuel)
    rw [hwalk]
    refine ⟨_, rfl, ⟨?_, ?_, ?_, ?_, ?_⟩, fun x hx => List.mem_append_left l hx,
      fun _ => List.mem_append_right _ hl.mem_start⟩
    · exact List.forall_mem_append.mpr ⟨hok.subset, fun x hx => (hl.new x hx).1⟩
    · intro v hv c w hw
      have hmem : ∀ x, x ∈ search.visited ++ l ↔ x ∈ search.visited.toFinset ∪ l.toFinset := by
        simp
      rw [hmem] at hv ⊢
      exact hl.closed v hv c w hw
    · exact List.forall_mem_append.mpr
        ⟨hok.joins, List.forall_mem_singleton.mpr ⟨hend, arrives_of_walk hwalk⟩⟩
    · -- the ends of earlier paths are at points seen before, those of this one are not
      have hnew : ∀ x ∈ l, ∀ c, (x, c) ∉ halves search.found := by
        intro x hx c hmem
        have hxV := ((hok.mem_halves (x, c)).mp hmem).2
        exact (hl.new x hx).2 (List.mem_toFinset.mpr hxV)
      rw [halves_concat, List.nodup_append]
      refine ⟨hok.nodup, ?_, ?_⟩
      · have hne := hl.ne
        rw [Bool.not_not] at hne
        simpa using hne.symm
      · intro a ha c hc heq
        subst heq
        simp only [List.mem_cons, List.not_mem_nil, or_false] at hc
        rcases hc with rfl | rfl
        · exact hnew start hl.mem_start b ha
        · exact hnew a.1 hl.mem_last a.2 ha
    · intro x
      rw [halves_concat, List.mem_append, hok.mem_halves, List.mem_append]
      constructor
      · rintro (⟨hx, hmem⟩ | hx)
        · exact ⟨hx, .inl hmem⟩
        · simp only [List.mem_cons, List.not_mem_nil, or_false] at hx
          rcases hx with rfl | rfl
          · exact ⟨hend, .inr hl.mem_start⟩
          · exact ⟨(arrives_of_walk hwalk).isEnd, .inr hl.mem_last⟩
      · rintro ⟨hx, hmem | hmem⟩
        · exact .inl ⟨hx, hmem⟩
        · refine .inr ?_
          rcases hl.ends x.1 hmem x.2 hx with hlast | hfirst
          · exact hlast ▸ by simp
          · rw [Bool.not_not] at hfirst
            exact hfirst ▸ by simp

/-- The search from some starts comes to an end, having passed every path that ends there. -/
theorem exists_enterAll (h : TwoMatchings leave) (hP : Closed leave P) (hfuel : P.card ≤ fuel)
    {starts : List ι} (hstarts : ∀ x ∈ starts, x ∈ P) {search : Search ι} (hok : search.Ok leave P)
    :
    ∃ search', search.enterAll leave fuel starts = some search' ∧ search'.Ok leave P ∧
      (∀ x ∈ search.visited, x ∈ search'.visited) ∧
      ∀ x ∈ starts, ∀ b, IsEnd leave (x, b) → x ∈ search'.visited := by
  induction starts generalizing search with
  | nil => exact ⟨search, rfl, hok, fun _ hx => hx, by simp⟩
  | cons start starts ih =>
    obtain ⟨hstart, hstarts⟩ := List.forall_mem_cons.mp hstarts
    obtain ⟨first, hfirst, hok₁, hsub₁, hend₁⟩ := h.exists_enter hP hfuel hok hstart false
    obtain ⟨second, hsecond, hok₂, hsub₂, hend₂⟩ := h.exists_enter hP hfuel hok₁ hstart true
    obtain ⟨last, hlast, hok₃, hsub₃, hend₃⟩ := ih hstarts hok₂
    refine ⟨last, ?_, hok₃, fun x hx => hsub₃ x (hsub₂ x (hsub₁ x hx)), fun x hx b hb => ?_⟩
    · rw [Search.enterAll, hfirst, Option.bind_some, hsecond, Option.bind_some, hlast]
    · rcases List.mem_cons.mp hx with rfl | hx
      · cases b with
        | false => exact hsub₃ x (hsub₂ x (hend₁ hb))
        | true => exact hsub₃ x (hend₂ hb)
      · exact hend₃ x hx b hb

/-- **The search finds every path once.** -/
theorem exists_paths (h : TwoMatchings leave) {points : List ι}
    (hpoints : ∀ i ∈ points, ∀ b j, leave b i = .inr j → j ∈ points) :
    ∃ found, paths leave points = some found ∧
      (∀ path ∈ found, Joins leave path.1 path.2) ∧ (halves found).Nodup ∧
      ∀ half, half ∈ halves found ↔ IsEnd leave half ∧ half.1 ∈ points := by
  have hclosed : Closed leave points.toFinset := by
    intro v hv b w hw
    exact List.mem_toFinset.mpr (hpoints v (List.mem_toFinset.mp hv) b w hw)
  have hcard : points.toFinset.card ≤ points.length + 1 :=
    (List.toFinset_card_le points).trans (Nat.le_succ _)
  have hinit : (⟨[], []⟩ : Search ι).Ok leave points.toFinset := by
    refine ⟨by simp, by simp, by simp, by simp [halves], by simp [halves]⟩
  obtain ⟨search, hsearch, hok, -, hends⟩ := h.exists_enterAll hclosed hcard
    (fun x hx => List.mem_toFinset.mpr hx) hinit
  refine ⟨search.found, by rw [paths, hsearch]; rfl, hok.joins, hok.nodup, fun half => ?_⟩
  rw [hok.mem_halves]
  exact and_congr_right fun hend => ⟨fun hmem => List.mem_toFinset.mp (hok.subset half.1 hmem),
    fun hmem => hends half.1 hmem half.2 hend⟩

end TwoMatchings

end Glam.Alternating
