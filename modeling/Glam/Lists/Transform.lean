import Glam.Lists.Pop

/-!
# Lazy maps of lists

The builtins `map` and list `concat` (`list_transform_machine.rs`) transform one node of a list and
defer the rest: the sides of a concatenation and the lazy chunks become transformations of their
own, which run when they are asked for. `force` is one such run. It logs each lazy chunk that it
forces, of the source or of an item's list.

Deferred parts are forced one at a time, anywhere in the list (`Forces`). What a list reads as, once
each part is replaced by what it holds (`Reads`), takes a number of forcings that no order changes:
each forcing takes one off (`Forces.reads_iff`). So all there is to show of a transformation is what
its deferred parts read as (`Transforms.reads_iff`). -/

namespace Glam.ListNode

/-! ### Forcing in any order -/

section Forcing

variable {U P : Type}

/-- **A sequence reads as items**, with `n` deferred parts forced in all. -/
inductive Reads (expand : P → Option (ListNode U P)) :
    Nat → List (ListPart U P) → List (ListItem U) → Prop
  | nil : Reads expand 0 [] []
  | item {n : Nat} {parts : List (ListPart U P)} {items : List (ListItem U)} (first : ListItem U)
      (h : Reads expand n parts items) : Reads expand n (.item first :: parts) (first :: items)
  | deferred {m n : Nat} {part : P} {list : ListNode U P} {parts : List (ListPart U P)}
      {front back : List (ListItem U)} (hexpand : expand part = some list)
      (hfront : Reads expand m list.sequence front) (hback : Reads expand n parts back) :
      Reads expand (m + 1 + n) (.deferred part :: parts) (front ++ back)

/-- One deferred part of a list is forced. -/
inductive Forces (expand : P → Option (ListNode U P)) : ListNode U P → ListNode U P → Prop
  | thunk {part : P} {list : ListNode U P} (h : expand part = some list) :
      Forces expand (.thunk part) list
  | left {left left' : ListNode U P} (right : ListNode U P) (h : Forces expand left left') :
      Forces expand (.concat left right) (.concat left' right)
  | right (left : ListNode U P) {right right' : ListNode U P} (h : Forces expand right right') :
      Forces expand (.concat left right) (.concat left right')

/-- So many deferred parts are forced, one after the other. -/
inductive Forced (expand : P → Option (ListNode U P)) : Nat → ListNode U P → ListNode U P → Prop
  | refl (list : ListNode U P) : Forced expand 0 list list
  | step {k : Nat} {list next last : ListNode U P} (h : Forces expand list next)
      (hrest : Forced expand k next last) : Forced expand (k + 1) list last

variable {expand : P → Option (ListNode U P)} {m n k : Nat} {parts parts' : List (ListPart U P)}
  {items front back : List (ListItem U)} {list next : ListNode U P}

theorem Reads.append (hfront : Reads expand m parts front) (hback : Reads expand k parts' back) :
    Reads expand (m + k) (parts ++ parts') (front ++ back) := by
  induction hfront with
  | nil => rwa [Nat.zero_add]
  | item first _ ih => exact .item first ih
  | deferred hexpand hlist _ _ ih =>
    rw [List.append_assoc, Nat.add_assoc]
    exact .deferred hexpand hlist ih

/-- What is read of a concatenation is read of its parts. -/
theorem Reads.of_append (h : Reads expand n (parts ++ parts') items) :
    ∃ m k front back, n = m + k ∧ items = front ++ back ∧ Reads expand m parts front ∧
      Reads expand k parts' back := by
  induction parts generalizing n items with
  | nil => exact ⟨0, n, [], items, (Nat.zero_add n).symm, rfl, .nil, h⟩
  | cons part parts ih =>
    cases h with
    | item first h =>
      obtain ⟨m, k, front, back, rfl, rfl, hfront, hback⟩ := ih h
      exact ⟨m, k, first :: front, back, rfl, rfl, .item first hfront, hback⟩
    | deferred hexpand hlist h =>
      obtain ⟨m, k, front, back, rfl, rfl, hfront, hback⟩ := ih h
      exact ⟨_, k, _, back, (Nat.add_assoc ..).symm, (List.append_assoc ..).symm,
        .deferred hexpand hlist hfront, hback⟩

/-- A deferred part reads as what it holds, with one forcing more. -/
theorem reads_deferred_iff {part : P} (hexpand : expand part = some list) :
    Reads expand n [.deferred part] items ↔
      ∃ m, n = m + 1 ∧ Reads expand m list.sequence items := by
  constructor
  · intro h
    cases h with
    | deferred hexpand' hfront hback =>
      cases hback
      cases hexpand.symm.trans hexpand'
      rw [List.append_nil]
      exact ⟨_, rfl, hfront⟩
  · rintro ⟨m, rfl, h⟩
    rw [← List.append_nil items]
    exact .deferred hexpand h .nil

/-- Items are read as they are. -/
theorem reads_items_iff {items' : List (ListItem U)} :
    Reads expand n (items.map .item) items' ↔ n = 0 ∧ items' = items := by
  constructor
  · intro h
    induction items generalizing items' with
    | nil =>
      cases h
      exact ⟨rfl, rfl⟩
    | cons first items ih =>
      cases h with
      | item _ h =>
        obtain ⟨hzero, rfl⟩ := ih h
        exact ⟨hzero, rfl⟩
  · rintro ⟨rfl, rfl⟩
    induction items' with
    | nil => exact .nil
    | cons first items ih => exact .item first ih

theorem Reads.eq_items (h : Reads expand n parts items) (hzero : n = 0) :
    parts = items.map .item := by
  induction h with
  | nil => rfl
  | item first _ ih => rw [List.map_cons, ih hzero]
  | deferred => omega

/-- **A forcing takes one off**, whichever part it forces. -/
theorem Forces.reads_iff (h : Forces expand list next) :
    Reads expand n list.sequence items ↔ ∃ m, n = m + 1 ∧ Reads expand m next.sequence items := by
  induction h generalizing n items with
  | thunk hexpand => exact reads_deferred_iff hexpand
  | left right _ ih =>
    constructor
    · intro h
      obtain ⟨_, k, front, back, rfl, rfl, hfront, hback⟩ := h.of_append
      obtain ⟨m, rfl, hforced⟩ := ih.mp hfront
      exact ⟨m + k, Nat.add_right_comm .., hforced.append hback⟩
    · rintro ⟨_, rfl, h⟩
      obtain ⟨m, k, front, back, rfl, rfl, hfront, hback⟩ := h.of_append
      rw [Nat.add_right_comm]
      exact (ih.mpr ⟨m, rfl, hfront⟩).append hback
  | right left _ ih =>
    constructor
    · intro h
      obtain ⟨k, _, front, back, rfl, rfl, hfront, hback⟩ := h.of_append
      obtain ⟨m, rfl, hforced⟩ := ih.mp hback
      exact ⟨k + m, rfl, hfront.append hforced⟩
    · rintro ⟨_, rfl, h⟩
      obtain ⟨k, m, front, back, rfl, rfl, hfront, hback⟩ := h.of_append
      exact hfront.append (ih.mpr ⟨m, rfl, hback⟩)

/-- Forcing takes its cost off what is left to be forced. -/
theorem Forced.reads_iff (h : Forced expand k list next) :
    Reads expand n list.sequence items ↔ ∃ m, n = m + k ∧ Reads expand m next.sequence items := by
  induction h generalizing n with
  | refl => simp
  | step hstep _ ih =>
    rw [hstep.reads_iff]
    constructor
    · rintro ⟨_, rfl, h⟩
      obtain ⟨m, rfl, hlast⟩ := ih.mp h
      exact ⟨m, rfl, hlast⟩
    · rintro ⟨m, rfl, h⟩
      exact ⟨_, rfl, ih.mpr ⟨m, rfl, h⟩⟩

/-- What takes forcing to be read has something that can be forced. -/
theorem Reads.exists_forces (h : Reads expand n list.sequence items) (hpos : 0 < n) :
    ∃ next, Forces expand list next := by
  induction list generalizing n items with
  | thunk part =>
    cases h with
    | deferred hexpand => exact ⟨_, .thunk hexpand⟩
  | concat left right ihLeft ihRight =>
    obtain ⟨m, k, front, back, rfl, rfl, hfront, hback⟩ := h.of_append
    rcases Nat.eq_zero_or_pos m with rfl | hm
    · obtain ⟨next, hnext⟩ := ihRight hback (by omega)
      exact ⟨_, .right left hnext⟩
    · obtain ⟨next, hnext⟩ := ihLeft hfront hm
      exact ⟨_, .left right hnext⟩
  | empty =>
    cases h
    cases hpos
  | bytes | values | finger => exact absurd (reads_items_iff.mp h).1 hpos.ne'

/-- **Forced in any order, the list denotes what `Denotes` says**: where nothing is deferred any
more, and every order gets there, after the same number of forcings. -/
structure AnyOrder (expand : P → Option (ListNode U P)) (list : ListNode U P)
    (Denotes : List (ListItem U) → Prop) : Prop where
  sound : ∀ k next items, Forced expand k list next → next.sequence = items.map .item →
    Denotes items
  complete : ∀ items, Denotes items → ∃ n, ∀ k next, Forced expand k list next →
    k ≤ n ∧ (k = n → next.sequence = items.map .item) ∧ (k < n → ∃ more, Forces expand next more)

/-- Whichever thunk is forced first, the list comes to the same items. -/
theorem anyOrder_of_reads {Denotes : List (ListItem U) → Prop}
    (h : ∀ items, (∃ n, Reads expand n list.sequence items) ↔ Denotes items) :
    AnyOrder expand list Denotes where
  sound := by
    intro k next items hforced hsequence
    refine (h items).mp ⟨0 + k, hforced.reads_iff.mpr ⟨0, rfl, ?_⟩⟩
    rw [hsequence]
    exact reads_items_iff.mpr ⟨rfl, rfl⟩
  complete := by
    intro items hdenotes
    obtain ⟨n, hreads⟩ := (h items).mpr hdenotes
    refine ⟨n, fun k next hforced => ?_⟩
    obtain ⟨m, rfl, hnext⟩ := hforced.reads_iff.mp hreads
    exact ⟨by omega, fun hlast => hnext.eq_items (by omega),
      fun hless => hnext.exists_forces (by omega)⟩

end Forcing

/-! ### Transformations -/

/-- A deferred part of a transformed list: the transformation of a list or of a lazy chunk of the
source, or a lazy chunk of an item's list. -/
inductive Pending (V T S : Type)
  | list (source : ListNode V T)
  | chunk (lazy : T)
  | own (lazy : S)

variable {V U T S : Type}

/-- The lazy chunk that a deferred part is of. -/
def Pending.demands : Pending V T S → List (T ⊕ S)
  | .list _ => []
  | .chunk lazy => [.inl lazy]
  | .own lazy => [.inr lazy]

/-- `map_root_step`, as the machine of `map` calls it: an item's result is made and not run. -/
def mapNode (apply : ListItem V → U) :
    ListNode V T → StateM (List (T ⊕ S)) (ListNode U (Pending V T S)) :=
  mapRootStep (fun byte => pure (apply (.byte byte))) (fun value => pure (apply (.value value)))
    (fun list => pure (.list list)) fun lazy => pure (.chunk lazy)

/-- `flat_map_root_step`, as the machine of `concat` calls it. -/
def flatMapNode (apply : ListItem V → ListNode U (Pending V T S)) (list : ListNode V T) :
    StateM (List (T ⊕ S)) (ListNode U (Pending V T S)) := fun log =>
  match (flatMapRootStep (E := Empty) (fun byte => pure (apply (.byte byte)))
    (fun value => pure (apply (.value value))) (fun list => pure (.list list))
    (fun lazy => pure (.chunk lazy)) list).run log with
  | .ok mapped => mapped

section Transform

variable (source : T → Option (ListNode V T)) (own : S → Option (ListNode U (Pending V T S)))
  (node : ListNode V T → StateM (List (T ⊕ S)) (ListNode U (Pending V T S)))

/-- Forces a deferred part. A transformation runs on the list that it is of, for which a lazy chunk
of the source is forced (`poll_regional_source`). The log has every lazy chunk that was. -/
def force (log : List (T ⊕ S)) :
    Pending V T S → Option (ListNode U (Pending V T S)) × List (T ⊕ S)
  | .list list => ((node list).run log).map some id
  | .chunk lazy =>
    match source lazy with
    | none => (none, log ++ [.inl lazy])
    | some list => ((node list).run (log ++ [.inl lazy])).map some id
  | .own lazy => (own lazy, log ++ [.inr lazy])

/-- What a deferred part holds. -/
def expand (part : Pending V T S) : Option (ListNode U (Pending V T S)) :=
  (force source own node [] part).1

/-- What the transformation of one node denotes. -/
def rootParts (image : ListItem V → List (ListPart U (Pending V T S))) :
    ListNode V T → List (ListPart U (Pending V T S))
  | .empty => []
  | .bytes data => (ListChunk.bytes data).items.flatMap image
  | .values items => (ListChunk.values items).items.flatMap image
  | .concat left right => [.deferred (.list left)] ++ [.deferred (.list right)]
  | .finger chunks => chunks.items.flatMap image
  | .thunk lazy => [.deferred (.chunk lazy)]

/-- The transformation of a node forces nothing, and transforms the items of the node only. -/
def Transforms (image : ListItem V → List (ListPart U (Pending V T S))) : Prop :=
  ∀ list, ∃ mapped, (∀ log, (node list).run log = (mapped, log)) ∧
    mapped.sequence = rootParts image list

namespace Transforms

variable {source own node} {image : ListItem V → List (ListPart U (Pending V T S))}
  (h : Transforms node image)
include h

/-- **Forcing a part forces the lazy chunk that it is of**, and no other. -/
theorem force_eq (log : List (T ⊕ S)) (part : Pending V T S) :
    force source own node log part = (expand source own node part, log ++ part.demands) := by
  unfold expand force
  cases part with
  | list list =>
    obtain ⟨mapped, hmapped, -⟩ := h list
    simp [hmapped, Pending.demands]
  | chunk lazy =>
    cases hlazy : source lazy with
    | none => simp [hlazy, Pending.demands]
    | some list =>
      obtain ⟨mapped, hmapped, -⟩ := h list
      simp [hlazy, hmapped, Pending.demands]
  | own => rfl

theorem expand_chunk (lazy : T) : expand source own node (.chunk lazy) =
    (source lazy).bind fun list => expand source own node (.list list) := by
  cases hlazy : source lazy with
  | none => simp [expand, force, hlazy]
  | some list =>
    obtain ⟨mapped, hmapped, -⟩ := h list
    simp [expand, force, hlazy, hmapped]

variable {n : Nat} {list : ListNode V T} {out : List (ListItem U)}

theorem reads_list_iff : Reads (expand source own node) n [.deferred (.list list)] out ↔
    ∃ m, n = m + 1 ∧ Reads (expand source own node) m (rootParts image list) out := by
  obtain ⟨mapped, hmapped, hparts⟩ := h list
  rw [← hparts]
  exact reads_deferred_iff (by simp [expand, force, hmapped])

/-- A lazy chunk of the source is transformed as the list that it holds. -/
theorem reads_chunk_iff {lazy : T} :
    Reads (expand source own node) n [.deferred (.chunk lazy)] out ↔ ∃ list, source lazy = some list ∧
      Reads (expand source own node) n [.deferred (.list list)] out := by
  constructor
  · intro hreads
    cases hreads with
    | deferred hexpand hfront hback =>
      rw [h.expand_chunk] at hexpand
      obtain ⟨list, hlist, hexpand⟩ := Option.bind_eq_some_iff.mp hexpand
      exact ⟨list, hlist, .deferred hexpand hfront hback⟩
  · rintro ⟨list, hlist, hreads⟩
    cases hreads with
    | deferred hexpand hfront hback =>
      refine .deferred ?_ hfront hback
      rw [h.expand_chunk, hlist]
      exact hexpand

/-- What a transformed list reads as comes from the items of the source. -/
theorem exists_items (hreads : Reads (expand source own node) n [.deferred (.list list)] out) :
    ∃ m items k, Reads source m list.sequence items ∧
      Reads (expand source own node) k (items.flatMap image) out := by
  induction n using Nat.strong_induction_on generalizing list out with
  | _ n ih =>
  obtain ⟨n, rfl, hroot⟩ := h.reads_list_iff.mp hreads
  cases list with
  | empty => exact ⟨0, [], n, .nil, hroot⟩
  | bytes | values | finger => exact ⟨0, _, n, reads_items_iff.mpr ⟨rfl, rfl⟩, hroot⟩
  | concat left right =>
    obtain ⟨a, b, front, back, rfl, rfl, hfront, hback⟩ := hroot.of_append
    obtain ⟨m, items, k, hitems, hfront⟩ := ih a (by omega) hfront
    obtain ⟨m', items', k', hitems', hback⟩ := ih b (by omega) hback
    refine ⟨m + m', items ++ items', k + k', hitems.append hitems', ?_⟩
    rw [List.flatMap_append]
    exact hfront.append hback
  | thunk lazy =>
    obtain ⟨list, hlist, hroot⟩ := h.reads_chunk_iff.mp hroot
    obtain ⟨m, items, k, hitems, hout⟩ := ih n (Nat.lt_succ_self n) hroot
    exact ⟨m + 1, items, k, (reads_deferred_iff hlist).mpr ⟨m, rfl, hitems⟩, hout⟩

/-- By induction on the forcing that the source takes: the image of a list is read as the images of
its items. -/
theorem exists_reads {bound m k : Nat} {items : List (ListItem V)} (hbound : m ≤ bound)
    (hitems : Reads source m list.sequence items)
    (hreads : Reads (expand source own node) k (items.flatMap image) out) :
    ∃ n, Reads (expand source own node) n [.deferred (.list list)] out := by
  -- the sides of a concatenation may have all forcings, so the list is an induction of its own
  induction bound using Nat.strong_induction_on generalizing m k list items out with
  | _ bound ih =>
  suffices hroot : ∃ n, Reads (expand source own node) n (rootParts image list) out by
    obtain ⟨n, hroot⟩ := hroot
    exact ⟨n + 1, h.reads_list_iff.mpr ⟨n, rfl, hroot⟩⟩
  induction list generalizing m k items out with
  | empty =>
    cases hitems
    exact ⟨k, hreads⟩
  | bytes | values | finger =>
    obtain ⟨-, rfl⟩ := reads_items_iff.mp hitems
    exact ⟨k, hreads⟩
  | concat left right ihLeft ihRight =>
    obtain ⟨a, b, front, back, rfl, rfl, hfront, hback⟩ := hitems.of_append
    rw [List.flatMap_append] at hreads
    obtain ⟨c, d, _, _, rfl, rfl, hfront', hback'⟩ := hreads.of_append
    obtain ⟨n, hleft⟩ := ihLeft (by omega) hfront hfront'
    obtain ⟨n', hright⟩ := ihRight (by omega) hback hback'
    exact ⟨n + 1 + (n' + 1), (h.reads_list_iff.mpr ⟨n, rfl, hleft⟩).append
      (h.reads_list_iff.mpr ⟨n', rfl, hright⟩)⟩
  | thunk lazy =>
    cases hitems with
    | deferred hlist hfront hback =>
      cases hback
      rw [List.append_nil] at hreads
      obtain ⟨n, hchunk⟩ := ih _ (by omega) le_rfl hfront hreads
      exact ⟨n, h.reads_chunk_iff.mpr ⟨_, hlist, hchunk⟩⟩

/-- **A transformation reads as the transformed items of its source.** -/
theorem reads_iff (list : ListNode V T) (out : List (ListItem U)) :
    (∃ n, Reads (expand source own node) n (ListNode.thunk (.list list)).sequence out) ↔
      ∃ m items k, Reads source m list.sequence items ∧
        Reads (expand source own node) k (items.flatMap image) out := by
  constructor
  · rintro ⟨n, hreads⟩
    exact h.exists_items hreads
  · rintro ⟨m, items, k, hitems, hreads⟩
    exact h.exists_reads le_rfl hitems hreads

end Transforms

end Transform

/-! ### The two transformations -/

theorem mapM_chunks {M : Type → Type} [Monad M] [LawfulMonad M] {A : Type} (apply : ListItem V → A)
    (chunks : FingerList V) :
    chunks.mapM (fun
      | .bytes data => data.mapM fun byte => pure (apply (.byte byte))
      | .values items => items.mapM fun value => pure (apply (.value value))) =
    (pure (chunks.map fun chunk => chunk.items.map apply) : M (List (List A))) := by
  rw [← List.mapM_pure]
  congr 1
  funext chunk
  cases chunk <;> simp [ListChunk.items, List.mapM_pure, Function.comp_def]

/-- Mapping transforms item by item. -/
theorem transforms_mapNode (apply : ListItem V → U) :
    Transforms (mapNode apply : ListNode V T → StateM (List (T ⊕ S)) _)
      fun item => [.item (.value (apply item))] := by
  intro list
  cases list with
  | empty | concat | thunk => exact ⟨_, fun _ => rfl, rfl⟩
  | bytes items | values items =>
    refine ⟨fromValues (items.map ?_), fun log => ?_, ?_⟩
    rotate_left
    · simp only [mapNode, mapRootStep, List.mapM_pure, pure_bind]
      rfl
    · simp [rootParts, ListChunk.items, List.flatMap_map, ← List.map_eq_flatMap]
  | finger chunks =>
    refine ⟨fromFinger (chunks.map fun chunk => .values (chunk.items.map apply)), fun log => ?_, ?_⟩
    · simp only [mapNode, mapRootStep]
      erw [mapM_chunks]
      simp only [pure_bind, foldl_pushRight, List.nil_append, List.map_map]
      rfl
    · simp [rootParts, FingerList.items, ListChunk.items, List.flatMap_map,
        List.map_flatMap, List.flatMap_assoc, ← List.map_eq_flatMap, Function.comp_def]

/-- Flat-mapping transforms item by item. -/
theorem transforms_flatMapNode (apply : ListItem V → ListNode U (Pending V T S)) :
    Transforms (flatMapNode apply) fun item => (apply item).sequence := by
  intro list
  cases list with
  | empty | concat | thunk => exact ⟨_, fun _ => rfl, rfl⟩
  | bytes items | values items =>
    refine ⟨concatBalanced (items.map ?_), fun log => ?_, ?_⟩
    rotate_left
    · simp [flatMapNode, StateT.run, flatMapRootStep, List.mapM_pure]
      rfl
    · simp [rootParts, ListChunk.items, List.flatMap_map, spread]
  | finger chunks =>
    refine ⟨concatBalanced (chunks.items.map apply), fun log => ?_, ?_⟩
    · simp only [flatMapNode, StateT.run, flatMapRootStep]
      erw [mapM_chunks]
      simp only [pure_bind, FingerList.items, List.map_flatMap]
      rfl
    · simp [rootParts, List.flatMap_map, spread]

/-- **Lazy maps of lists.** Forcing a deferred part forces the lazy chunk it is of, if any, and
nothing else. Forced in any order, a mapped list denotes the items of the source, mapped in order,
and a flat-mapped list the lists of the items, one after the other. -/
theorem forced_in_any_order (source : T → Option (ListNode V T))
    (own : S → Option (ListNode U (Pending V T S))) (list : ListNode V T) :
    (∀ apply : ListItem V → U,
      (∀ log part, force source own (mapNode apply) log part =
        (expand source own (mapNode apply) part, log ++ part.demands)) ∧
      AnyOrder (expand source own (mapNode apply)) (.thunk (.list list)) fun out => ∃ m items,
        Reads source m list.sequence items ∧ out = items.map fun item => .value (apply item)) ∧
    ∀ apply : ListItem V → ListNode U (Pending V T S),
      (∀ log part, force source own (flatMapNode apply) log part =
        (expand source own (flatMapNode apply) part, log ++ part.demands)) ∧
      AnyOrder (expand source own (flatMapNode apply)) (.thunk (.list list)) fun out =>
        ∃ m items k, Reads source m list.sequence items ∧
          Reads (expand source own (flatMapNode apply)) k
            (items.flatMap fun item => (apply item).sequence) out := by
  constructor
  · intro apply
    have htransforms := transforms_mapNode (T := T) (S := S) apply
    refine ⟨htransforms.force_eq, anyOrder_of_reads fun out => ?_⟩
    rw [htransforms.reads_iff]
    refine exists_congr fun m => exists_congr fun items => ?_
    have himage : (items.flatMap fun item => [ListPart.item (.value (apply item))]) =
        (items.map fun item => .value (apply item)).map
          (.item : _ → ListPart U (Pending V T S)) := by
      rw [List.map_map, List.map_eq_flatMap]
      rfl
    simp only [himage, reads_items_iff, exists_and_left, exists_eq_left]
  · intro apply
    have htransforms := transforms_flatMapNode apply
    exact ⟨htransforms.force_eq, anyOrder_of_reads (htransforms.reads_iff list)⟩

end Glam.ListNode
