import Mathlib

/-!
# List literals

A list literal is lowered in parts that are joined with `++` (`g_syntax/net_lowering.rs`). A run of
at least `limit` closed items is a part of its own, which is data; the other items are cut into parts
of at most `limit`, the arity of the operator that collects them.

The parts are joined in the shape of a finger tree (`g_syntax/resolved.rs`): the first and the last
stand at the ends, and what is between them is joined in pairs and then in the same way. A level of
the join adds three to the depth of an element and leaves at most half of the elements.
-/

namespace Glam.Syntax

/-! ### The join -/

section Join

variable {ι T : Type} {join : T → T → T}

/-- The elements in pairs, and the last on its own where their number is odd. -/
def joinPairs (join : T → T → T) : List T → List T
  | left :: right :: rest => join left right :: joinPairs join rest
  | rest => rest

theorem length_joinPairs (elements : List T) :
    (joinPairs join elements).length = (elements.length + 1) / 2 := by
  fun_induction joinPairs join elements with
  | case1 left right rest ih =>
    rw [List.length_cons, ih, List.length_cons, List.length_cons]
    omega
  | case2 rest hrest =>
    match rest with
    | [] | [_] => simp
    | _ :: _ :: _ => exact (hrest _ _ _ rfl).elim

/-- **`finger_join`.** -/
def fingerJoin (join : T → T → T) : List T → Option T
  | [] => none
  | first :: rest =>
    if rest.length ≤ 2 then
      (first :: rest).getLast?.map fun last => (first :: rest).dropLast.foldr join last
    else
      match rest.getLast?, fingerJoin join (joinPairs join rest.dropLast) with
      | some last, some middle => some (join first (join middle last))
      | _, _ => none
termination_by elements => elements.length
decreasing_by
  rw [length_joinPairs, List.length_dropLast, List.length_cons]
  omega

/-- How parts are joined. -/
inductive JoinTree (ι : Type)
  | part (a : ι)
  | append (left right : JoinTree ι)

namespace JoinTree

/-- The parts of a tree, from left to right. -/
def leaves : JoinTree ι → List ι
  | .part a => [a]
  | .append left right => left.leaves ++ right.leaves

/-- How deep a tree is. -/
def depth : JoinTree ι → Nat
  | .part _ => 0
  | .append left right => max left.depth right.depth + 1

/-- The value of a tree whose parts have values. -/
def eval (f : ι → T) (join : T → T → T) : JoinTree ι → T
  | .part a => f a
  | .append left right => join (left.eval f join) (right.eval f join)

theorem eval_part_append (tree : JoinTree ι) : tree.eval .part .append = tree := by
  induction tree with
  | part => rfl
  | append left right ihleft ihright => rw [eval, ihleft, ihright]

/-- An associative join has one value, whatever the shape of the tree. -/
theorem eval_eq_foldl (join : T → T → T) [Std.Associative join] (tree : JoinTree T) :
    ∃ first rest, tree.leaves = first :: rest ∧ tree.eval id join = rest.foldl join first := by
  induction tree with
  | part first => exact ⟨first, [], rfl, rfl⟩
  | append left right ihleft ihright =>
    obtain ⟨first, rest, hleaves, heval⟩ := ihleft
    obtain ⟨first', rest', hleaves', heval'⟩ := ihright
    refine ⟨first, rest ++ first' :: rest', by rw [leaves, hleaves, hleaves']; rfl, ?_⟩
    rw [eval, heval, heval', List.foldl_append, List.foldl_cons, List.foldl_assoc]

variable {f : ι → T} {depth : Nat}

/-- Joining in pairs keeps the leaves and adds one level. -/
theorem exists_joinPairs (f : ι → T) (join : T → T → T) (trees : List (JoinTree ι))
    (h : ∀ tree ∈ trees, tree.depth ≤ depth) :
    ∃ pairs : List (JoinTree ι), joinPairs join (trees.map (eval f join)) = pairs.map (eval f join) ∧
      pairs.flatMap leaves = trees.flatMap leaves ∧ ∀ tree ∈ pairs, tree.depth ≤ depth + 1 := by
  match trees with
  | [] | [_] => exact ⟨_, rfl, rfl, fun tree htree => (h tree htree).trans (Nat.le_succ depth)⟩
  | left :: right :: rest =>
    simp only [List.forall_mem_cons] at h
    obtain ⟨hleft, hright, hrest⟩ := h
    obtain ⟨pairs, hpairs, hleaves, hdepth⟩ := exists_joinPairs f join rest hrest
    refine ⟨append left right :: pairs, congrArg (_ :: ·) hpairs, ?_, ?_⟩
    · simp only [List.flatMap_cons, leaves, hleaves, List.append_assoc]
    · exact List.forall_mem_cons.mpr ⟨Nat.succ_le_succ (max_le hleft hright), hdepth⟩

theorem log2_lt {n : Nat} (h : 2 ≤ n) : ((n - 1) / 2).log2 < n.log2 := by
  rw [Nat.log2_def n, if_pos h, Nat.log2_eq_log_two, Nat.log2_eq_log_two]
  exact Nat.lt_succ_of_le (Nat.log_mono_right (Nat.div_le_div_right (Nat.sub_le ..)))

/-- **The finger-shaped join** keeps the order of the elements, and their depth logarithmic. -/
theorem exists_fingerJoin (f : ι → T) (join : T → T → T) {trees : List (JoinTree ι)}
    (hne : trees ≠ []) (h : ∀ tree ∈ trees, tree.depth ≤ depth) :
    ∃ tree : JoinTree ι, fingerJoin join (trees.map (eval f join)) = some (eval f join tree) ∧
      tree.leaves = trees.flatMap leaves ∧ tree.depth ≤ depth + 3 * (trees.length.log2 + 1) := by
  -- on the number of trees: the middle ones are joined in pairs, of which there are half as many
  induction hlength : trees.length using Nat.strong_induction_on generalizing trees depth with
  | _ n ih =>
  obtain ⟨first, rest, rfl⟩ := List.exists_cons_of_ne_nil hne
  rw [List.map_cons, fingerJoin, List.length_map]
  split
  next hshort =>
    match rest, hshort with
    | [], _ => exact ⟨first, rfl, by simp, by have := h first (.head _); omega⟩
    | [last], _ =>
      simp only [List.forall_mem_cons] at h
      exact ⟨append first last, rfl, by simp [leaves], by rw [JoinTree.depth]; omega⟩
    | [middle, last], _ =>
      simp only [List.forall_mem_cons] at h
      refine ⟨append first (append middle last), rfl, by simp [leaves], ?_⟩
      rw [JoinTree.depth, JoinTree.depth]
      omega
  next hlong =>
    have hrest : rest ≠ [] := by
      rintro rfl
      exact hlong (Nat.zero_le 2)
    obtain ⟨hfirst, hdepth⟩ := List.forall_mem_cons.mp h
    obtain ⟨pairs, hpairs, hleaves, hdepth'⟩ := exists_joinPairs f join rest.dropLast
      fun tree htree => hdepth tree (List.mem_of_mem_dropLast htree)
    have hcount := congrArg List.length hpairs
    rw [length_joinPairs, List.length_map, List.length_map, List.length_dropLast] at hcount
    obtain ⟨middle, hmiddle, hmiddles, hshallow⟩ := ih pairs.length
      (by rw [← hlength, List.length_cons]; omega)
      (List.ne_nil_of_length_pos (by omega)) hdepth' rfl
    refine ⟨append first (append middle (rest.getLast hrest)), ?_, ?_, ?_⟩
    · rw [← List.map_dropLast, hpairs, hmiddle, List.getLast?_map, List.getLast?_eq_some_getLast hrest]
      rfl
    · rw [leaves, leaves, hmiddles, hleaves, List.flatMap_cons]
      conv_rhs => rw [← List.dropLast_append_getLast hrest, List.flatMap_append, List.flatMap_singleton]
    · have hlast := hdepth _ (List.getLast_mem hrest)
      -- halving takes one off the logarithm, which pays for the three levels
      have hlog := log2_lt (n := n) (by rw [← hlength, List.length_cons]; omega)
      rw [show (n - 1) / 2 = pairs.length by rw [← hlength, List.length_cons]; omega] at hlog
      rw [JoinTree.depth, JoinTree.depth]
      omega

end JoinTree

theorem exists_fingerJoin_parts (f : ι → T) (join : T → T → T) {parts : List ι} (hne : parts ≠ []) :
    ∃ tree : JoinTree ι, fingerJoin join (parts.map f) = some (tree.eval f join) ∧
      tree.leaves = parts ∧ tree.depth ≤ 3 * (parts.length.log2 + 1) := by
  have hdepth : ∀ tree ∈ parts.map JoinTree.part, tree.depth ≤ 0 :=
    List.forall_mem_map.mpr fun _ _ => le_rfl
  obtain ⟨tree, hjoin, hleaves, hshallow⟩ :=
    JoinTree.exists_fingerJoin f join (mt List.map_eq_nil_iff.mp hne) hdepth
  rw [List.map_map] at hjoin
  rw [List.flatMap_map] at hleaves
  rw [List.length_map, Nat.zero_add] at hshallow
  exact ⟨tree, hjoin, hleaves.trans (List.flatMap_singleton' parts), hshallow⟩

end Join

/-! ### The parts of a literal -/

/-- `ResolvedExpr`: closed data, embedded or provided, or an expression to evaluate. -/
inductive ResolvedExpr (V E : Type)
  | embedded (value : V)
  | provided (value : V)
  | other (expr : E)

/-- A part of a list literal: values that are known already, or expressions. -/
inductive ListPart (V E : Type)
  | closed (values : List V)
  | items (exprs : List (ResolvedExpr V E))

variable {V E : Type}

/-- The item that an expression gives: a value, or what the expression evaluates to. -/
def ResolvedExpr.item : ResolvedExpr V E → V ⊕ E
  | .embedded value | .provided value => .inl value
  | .other expr => .inr expr

/-- The items of a part. -/
def ListPart.contents : ListPart V E → List (V ⊕ E)
  | .closed values => values.map .inl
  | .items exprs => exprs.map ResolvedExpr.item

/-- `ListParts`: the parts so far, the items in none of them, and the closed items after those. -/
structure ListParts (V E : Type) where
  parts : List (ListPart V E)
  group : List (ResolvedExpr V E)
  run : List V

namespace ListParts

/-- `LIST_OPERATOR_MAX_ARITY`. -/
def limit : Nat := 8

/-- The items in lists of `limit`, the last of which may be shorter. -/
def chunks {α : Type} (items : List α) : List (List α) :=
  if items = [] then [] else items.take limit :: chunks (items.drop limit)
termination_by items.length
decreasing_by
  rename_i hne
  rw [List.length_drop]
  exact Nat.sub_lt (List.length_pos_iff.mpr hne) (Nat.succ_pos 7)

/-- Ends the group of expressions, in parts of bounded length. -/
def flushGroup (s : ListParts V E) : ListParts V E :=
  { s with parts := s.parts ++ (chunks s.group).map .items, group := [] }

/-- Ends the run of known values. A long one is a part of its own, and a short one joins the group.
-/
def endClosedRun (s : ListParts V E) : ListParts V E :=
  if limit ≤ s.run.length then
    { s.flushGroup with parts := s.flushGroup.parts ++ [.closed s.run], run := [] }
  else { s with group := s.group ++ s.run.map .embedded, run := [] }

/-- An iteration of `split`. -/
def add (s : ListParts V E) : ResolvedExpr V E → ListParts V E
  | .embedded value | .provided value => { s with run := s.run ++ [value] }
  | .other expr => { s.endClosedRun with group := s.endClosedRun.group ++ [.other expr] }

/-- The parts of a list literal. -/
def split (items : List (ResolvedExpr V E)) : List (ListPart V E) :=
  (items.foldl add ⟨[], [], []⟩).endClosedRun.flushGroup.parts

/-- `list_into`: how the parts of a literal are joined, where it has any. -/
def listInto (items : List (ResolvedExpr V E)) : Option (JoinTree (ListPart V E)) :=
  fingerJoin .append ((split items).map .part)

end ListParts

/-- A run of closed items that is long enough, or some items within the limit. -/
def ListPart.Within : ListPart V E → Prop
  | .closed values => ListParts.limit ≤ values.length
  | .items exprs => exprs ≠ [] ∧ exprs.length ≤ ListParts.limit

namespace ListParts

theorem chunks_spec {α : Type} (items : List α) :
    (chunks items).flatten = items ∧ ∀ chunk ∈ chunks items, chunk ≠ [] ∧ chunk.length ≤ limit := by
  fun_induction chunks items with
  | case1 => exact ⟨rfl, nofun⟩
  | case2 items hne ih =>
    refine ⟨by rw [List.flatten_cons, ih.1, List.take_append_drop], ?_⟩
    refine List.forall_mem_cons.mpr ⟨⟨?_, List.length_take_le ..⟩, ih.2⟩
    exact fun hnil => (List.take_eq_nil_iff.mp hnil).elim nofun hne

variable {s : ListParts V E} {items : List (V ⊕ E)}

/-- What has been split so far: all of the items, in parts as they should be. -/
def Splits (s : ListParts V E) (items : List (V ⊕ E)) : Prop :=
  s.parts.flatMap ListPart.contents ++ s.group.map ResolvedExpr.item ++ s.run.map .inl = items ∧
    ∀ part ∈ s.parts, part.Within

theorem Splits.flushGroup (h : s.Splits items) : s.flushGroup.Splits items := by
  obtain ⟨hflatten, hchunks⟩ := chunks_spec s.group
  refine ⟨?_, List.forall_mem_append.mpr ⟨h.2, List.forall_mem_map.mpr hchunks⟩⟩
  have hcontents : ((chunks s.group).map ListPart.items).flatMap ListPart.contents =
      s.group.map ResolvedExpr.item := by
    conv_rhs => rw [← hflatten, List.map_flatten]
    rw [List.flatMap_map]
    rfl
  rw [← h.1, ListParts.flushGroup, List.flatMap_append, hcontents]
  simp

/-- Ending a run keeps the items. -/
theorem Splits.endClosedRun (h : s.Splits items) :
    s.endClosedRun.Splits items ∧ s.endClosedRun.run = [] := by
  unfold ListParts.endClosedRun
  split
  next hlong =>
    have hflush := h.flushGroup
    refine ⟨⟨?_, List.forall_mem_append.mpr ⟨hflush.2, List.forall_mem_singleton.mpr hlong⟩⟩, rfl⟩
    rw [← hflush.1]
    simp [ListParts.flushGroup, ListPart.contents]
  next =>
    refine ⟨⟨?_, h.2⟩, rfl⟩
    rw [← h.1]
    simp [Function.comp_def, ResolvedExpr.item]

/-- Adding an item appends it. -/
theorem Splits.add (h : s.Splits items) (item : ResolvedExpr V E) :
    (s.add item).Splits (items ++ [item.item]) := by
  cases item with
  | embedded value | provided value =>
    refine ⟨?_, h.2⟩
    rw [← h.1]
    simp [ListParts.add, ResolvedExpr.item]
  | other expr =>
    obtain ⟨hended, hrun⟩ := h.endClosedRun
    refine ⟨?_, hended.2⟩
    rw [← hended.1]
    simp [ListParts.add, hrun]

theorem splits_foldl (items : List (ResolvedExpr V E)) :
    (items.foldl ListParts.add ⟨[], [], []⟩).Splits (items.map ResolvedExpr.item) := by
  induction items using List.reverseRecOn with
  | nil => exact ⟨rfl, nofun⟩
  | append_singleton items item ih =>
    rw [List.foldl_append, List.map_append]
    exact ih.add item

theorem split_spec (items : List (ResolvedExpr V E)) :
    (split items).flatMap ListPart.contents = items.map ResolvedExpr.item ∧
      ∀ part ∈ split items, part.Within := by
  obtain ⟨hended, hrun⟩ := (splits_foldl items).endClosedRun
  refine ⟨?_, hended.flushGroup.2⟩
  rw [← hended.flushGroup.1]
  simp [split, ListParts.flushGroup, hrun]

end ListParts

/-- **List literals.** The join of some elements has them in their order in a tree of logarithmic
depth, so that an associative join has the value it should; and the parts of a list literal, which
are joined so, are its items in order, in runs of closed items and in lists within the limit. -/
theorem listInto_spec :
    (∀ (T : Type) (join : T → T → T) (first : T) (rest : List T), ∃ tree : JoinTree T,
      fingerJoin join (first :: rest) = some (tree.eval id join) ∧ tree.leaves = first :: rest ∧
      tree.depth ≤ 3 * ((first :: rest).length.log2 + 1) ∧
      (Std.Associative join → tree.eval id join = rest.foldl join first)) ∧
    ∀ (V E : Type) (items : List (ResolvedExpr V E)),
      (ListParts.split items).flatMap ListPart.contents = items.map ResolvedExpr.item ∧
      (∀ part ∈ ListParts.split items, part.Within) ∧
      (items = [] ∧ ListParts.listInto items = none ∨ ∃ tree, ListParts.listInto items = some tree ∧
        tree.leaves = ListParts.split items ∧
        tree.depth ≤ 3 * ((ListParts.split items).length.log2 + 1)) := by
  refine ⟨fun T join first rest => ?_, fun V E items => ?_⟩
  · obtain ⟨tree, hjoin, hleaves, hdepth⟩ := exists_fingerJoin_parts id join
      (List.cons_ne_nil first rest)
    rw [List.map_id] at hjoin
    refine ⟨tree, hjoin, hleaves, hdepth, fun _ => ?_⟩
    obtain ⟨first', rest', hleaves', heval⟩ := tree.eval_eq_foldl join
    cases hleaves.symm.trans hleaves'
    exact heval
  · obtain ⟨hcontents, hwithin⟩ := ListParts.split_spec items
    refine ⟨hcontents, hwithin, ?_⟩
    by_cases hnil : ListParts.split items = []
    · rw [hnil] at hcontents
      refine .inl ⟨List.map_eq_nil_iff.mp hcontents.symm, ?_⟩
      rw [ListParts.listInto, hnil, List.map_nil, fingerJoin]
    · obtain ⟨tree, hjoin, hleaves, hdepth⟩ := exists_fingerJoin_parts JoinTree.part JoinTree.append hnil
      rw [JoinTree.eval_part_append] at hjoin
      exact .inr ⟨tree, hjoin, hleaves, hdepth⟩

end Glam.Syntax
