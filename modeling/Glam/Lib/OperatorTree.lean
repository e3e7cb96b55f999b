import Mathlib.Data.List.Basic

/-!
# Operator trees from a stack

A chain of operands and operators is read into a tree with a stack. What the next operator finds on
the stack is folded into its left operand, or kept there for later, or refused: `decision` says
which, for the operator on top of the stack and the next one. A tree is ordered if every operator
would fold its left operand and keep for its right one.

Reading never changes the tree that the stack stands for (`finish`), so what is read is ordered. The
converse is that every ordered tree is what its chain is read into. Operators are compared only where
they meet on the stack, so it takes a decision that goes along the spines of a tree: an operator that
folds the top of a tree folds all that was kept below it on that side (`Coherent`).
-/

namespace Glam

/-- What becomes of the operator on top of the stack. -/
inductive Decision
  | fold
  | keep
  | refuse
deriving DecidableEq

/-- Operands joined by infix operators. -/
inductive OpTree (E O : Type)
  | leaf (operand : E)
  | node (op : O) (left right : OpTree E O)

namespace OpTree

variable {E O : Type}

/-- The leftmost operand. -/
def first : OpTree E O → E
  | leaf operand => operand
  | node _ left _ => left.first

/-- The operators in order, each with the operand after it. -/
def rest : OpTree E O → List (O × E)
  | leaf _ => []
  | node op left right => left.rest ++ (op, right.first) :: right.rest

/-- The tree of an operand and a stack of operators with their left operands. -/
def finish (current : OpTree E O) : List (OpTree E O × O) → OpTree E O
  | [] => current
  | (left, op) :: frames => finish (node op left current) frames

theorem finish_append (current : OpTree E O) (inner frames : List (OpTree E O × O)) :
    finish current (inner ++ frames) = finish (finish current inner) frames := by
  induction inner generalizing current with
  | nil => rfl
  | cons frame inner ih => exact ih _

variable (decision : O → O → Decision)

/-- An operator would fold the tree into its left operand. -/
def Left (op : O) : OpTree E O → Prop
  | leaf _ => True
  | node top _ _ => decision top op = .fold

/-- An operator on the stack would be kept for the tree. -/
def Right (op : O) : OpTree E O → Prop
  | leaf _ => True
  | node top _ _ => decision op top = .keep

/-- Whether every operator takes its operands the way that `decision` groups them. -/
def Ordered : OpTree E O → Prop
  | leaf _ => True
  | node op left right =>
    left.Ordered ∧ right.Ordered ∧ left.Left decision op ∧ right.Right decision op

/-- Folds the operators that the next one folds. -/
def close (next : O) (current : OpTree E O) :
    List (OpTree E O × O) → Option (OpTree E O × List (OpTree E O × O))
  | [] => some (current, [])
  | (left, op) :: frames =>
    match decision op next with
    | .fold => close next (node op left current) frames
    | .keep => some (current, (left, op) :: frames)
    | .refuse => none

/-- Reads a chain, with the operators that wait for their right operand on a stack. -/
def read (current : OpTree E O) (frames : List (OpTree E O × O)) :
    List (O × E) → Option (OpTree E O × List (OpTree E O × O))
  | [] => some (current, frames)
  | (op, operand) :: rest => do
    let (left, frames) ← close decision op current frames
    read (leaf operand) ((left, op) :: frames) rest

/-- The tree of a chain, if no two neighbouring operators refuse each other. -/
def parse (first : E) (rest : List (O × E)) : Option (OpTree E O) :=
  (read decision (leaf first) [] rest).map fun (current, frames) => finish current frames

variable {decision} {current tree : OpTree E O} {frames : List (OpTree E O × O)}

/-! ### What is read is ordered -/

/-- The top of the stack is kept for the tree. -/
def Fits (decision : O → O → Decision) (tree : OpTree E O) (frames : List (OpTree E O × O)) : Prop :=
  ∀ frame ∈ frames.head?, tree.Right decision frame.2

theorem of_ordered_finish (h : (finish current frames).Ordered decision) :
    current.Ordered decision ∧ current.Fits decision frames := by
  induction frames generalizing current with
  | nil => exact ⟨h, nofun⟩
  | cons frame frames ih =>
    obtain ⟨⟨-, hcurrent, -, hright⟩, -⟩ := ih h
    refine ⟨hcurrent, ?_⟩
    rintro _ ⟨⟩
    exact hright

theorem ordered_finish (h : (finish current frames).Ordered decision)
    (htree : tree.Ordered decision) (hfits : tree.Fits decision frames) :
    (finish tree frames).Ordered decision := by
  induction frames generalizing current tree with
  | nil => exact htree
  | cons frame frames ih =>
    have hframe := of_ordered_finish (show (finish (node _ _ current) frames).Ordered decision from h)
    exact ih h ⟨hframe.1.1, htree, hframe.1.2.2.1, hfits frame rfl⟩ hframe.2

/-- The last operand of the finished tree is the one read last. -/
theorem finish_node_leaf (current : OpTree E O) (frames : List (OpTree E O × O)) (op : O)
    (operand : E) :
    (finish (node op current (leaf operand)) frames).first = (finish current frames).first ∧
      (finish (node op current (leaf operand)) frames).rest =
        (finish current frames).rest ++ [(op, operand)] := by
  suffices h : ∀ (tree current : OpTree E O) more,
      tree.first = current.first → tree.rest = current.rest ++ more →
      (finish tree frames).first = (finish current frames).first ∧
        (finish tree frames).rest = (finish current frames).rest ++ more from
    h _ _ _ rfl rfl
  intro tree current more hfirst hrest
  induction frames generalizing tree current with
  | nil => exact ⟨hfirst, hrest⟩
  | cons frame frames ih => exact ih _ _ rfl (by simp [rest, hfirst, hrest])

variable {outer : List (OpTree E O × O)}

/-- Closing leaves the tree that the stack stands for as it is. -/
theorem close_spec {next : O} {left : OpTree E O}
    (h : close decision next current frames = some (left, outer))
    (hcurrent : current.Left decision next) :
    finish left outer = finish current frames ∧ left.Left decision next ∧
      ∀ frame ∈ outer.head?, decision frame.2 next = .keep := by
  induction frames generalizing current with
  | nil =>
    cases h
    exact ⟨rfl, hcurrent, nofun⟩
  | cons frame frames ih =>
    unfold close at h
    split at h
    next hfold => exact ih h hfold
    next hkeep =>
      cases h
      refine ⟨rfl, hcurrent, ?_⟩
      rintro _ ⟨⟩
      exact hkeep
    next => cases h

/-- What is read is ordered, and spells the chain. -/
theorem read_spec {operand : E} {rest : List (O × E)}
    (h : read decision (leaf operand) frames rest = some (tree, outer))
    (hordered : (finish (leaf operand) frames).Ordered decision) :
    (finish tree outer).Ordered decision ∧
      (finish tree outer).first = (finish (leaf operand) frames).first ∧
      (finish tree outer).rest = (finish (leaf operand) frames).rest ++ rest := by
  induction rest generalizing operand frames with
  | nil =>
    cases h
    exact ⟨hordered, rfl, (List.append_nil _).symm⟩
  | cons item rest ih =>
    obtain ⟨op, next⟩ := item
    obtain ⟨⟨left, closed⟩, hclose, hread⟩ := Option.bind_eq_some_iff.mp h
    obtain ⟨hsame, hleft, hkeep⟩ := close_spec hclose trivial
    rw [← hsame] at hordered
    have hpushed : (finish (node op left (leaf next)) closed).Ordered decision :=
      ordered_finish hordered ⟨(of_ordered_finish hordered).1, trivial, hleft, trivial⟩ hkeep
    obtain ⟨htree, hfirst, hrest⟩ := ih hread hpushed
    obtain ⟨hfirst', hrest'⟩ := finish_node_leaf left closed op next
    refine ⟨htree, ?_, ?_⟩
    · rw [hfirst, ← hsame]
      exact hfirst'
    · rw [hrest, ← hsame]
      exact (congrArg (· ++ rest) hrest').trans (List.append_assoc ..)

/-! ### Every ordered tree is read -/

/-- A decision that goes along the spines of trees. -/
structure Coherent (decision : O → O → Decision) : Prop where
  fold_of_keep : ∀ {a b c : O}, decision a c = .fold → decision a b = .keep → decision b c = .fold
  keep_of_fold : ∀ {a b c : O}, decision a c = .keep → decision b c = .fold → decision a b = .keep

/-- Closing folds the operators that the next one folds, and no more. -/
theorem close_of_fold {next : O} {inner : List (OpTree E O × O)}
    (hinner : ∀ frame ∈ inner, decision frame.2 next = .fold)
    (houter : ∀ frame ∈ frames.head?, decision frame.2 next = .keep) :
    close decision next current (inner ++ frames) = some (finish current inner, frames) := by
  induction inner generalizing current with
  | nil =>
    cases frames with
    | nil => rfl
    | cons frame frames => simp [close, houter frame rfl, finish]
  | cons frame inner ih =>
    rw [List.forall_mem_cons] at hinner
    rw [List.cons_append, close, hinner.1]
    exact ih hinner.2

variable (hdecision : Coherent decision)
include hdecision

/-- Reading the chain of an ordered tree puts its right spine on the stack. -/
theorem read_ordered (htree : tree.Ordered decision) (hfits : tree.Fits decision frames)
    (more : List (O × E)) :
    ∃ operand inner, finish (leaf operand) inner = tree ∧
      (∀ op, tree.Left decision op → ∀ frame ∈ inner, decision frame.2 op = .fold) ∧
      read decision (leaf tree.first) frames (tree.rest ++ more) =
        read decision (leaf operand) (inner ++ frames) more := by
  induction tree generalizing frames more with
  | leaf operand => exact ⟨operand, [], rfl, nofun, rfl⟩
  | node op left right ihLeft ihRight =>
    obtain ⟨hleft, hright, hfold, hkeep⟩ := htree
    -- the left operand is kept for, too, and all of its right spine is folded by the operator
    have hleftFits : left.Fits decision frames := by
      intro frame hframe
      cases left with
      | leaf => trivial
      | node => exact hdecision.keep_of_fold (hfits frame hframe) hfold
    obtain ⟨e, inner, hinner, hfolds, hread⟩ :=
      ihLeft hleft hleftFits ((op, right.first) :: (right.rest ++ more))
    have hclose : close decision op (leaf e) (inner ++ frames) = some (left, frames) := by
      rw [close_of_fold (hfolds op hfold) hfits, hinner]
    have hrightFits : right.Fits decision ((left, op) :: frames) := by
      rintro _ ⟨⟩
      exact hkeep
    obtain ⟨e', inner', hinner', hfolds', hread'⟩ := ihRight hright hrightFits more
    refine ⟨e', inner' ++ [(left, op)], by rw [finish_append, hinner']; rfl, ?_, ?_⟩
    · intro parent hparent frame hframe
      rcases List.mem_append.mp hframe with hframe | hframe
      · refine hfolds' parent ?_ frame hframe
        cases right with
        | leaf => trivial
        | node => exact hdecision.fold_of_keep hparent hkeep
      · cases List.mem_singleton.mp hframe
        exact hparent
    · rw [List.append_assoc, List.singleton_append, ← hread', rest, List.append_assoc]
      exact hread.trans (by rw [read, hclose]; rfl)

/-- **Reading a chain gives the one ordered tree over it**, if there is one. -/
theorem parse_eq_some_iff {operand : E} {chain : List (O × E)} :
    parse decision operand chain = some tree ↔
      tree.first = operand ∧ tree.rest = chain ∧ tree.Ordered decision := by
  constructor
  · intro h
    obtain ⟨⟨current, frames⟩, hread, rfl⟩ := Option.map_eq_some_iff.mp h
    obtain ⟨hordered, hfirst, hrest⟩ := read_spec hread trivial
    exact ⟨hfirst, hrest, hordered⟩
  · rintro ⟨rfl, rfl, hordered⟩
    have hempty : tree.Fits decision [] := nofun
    obtain ⟨e, inner, rfl, -, hread⟩ := read_ordered hdecision hordered hempty []
    rw [List.append_nil, List.append_nil] at hread
    rw [parse, hread]
    rfl

end OpTree

end Glam
