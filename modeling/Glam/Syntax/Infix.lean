import Mathlib.Data.List.Basic
import Glam.Lib.OperatorTree

/-!
# Infix chains

A chain of operands and infix operators is resolved with two stacks. The operators are partially
ordered only: `and` and `or`, or `+` and `*`, are not related, and a chain in which they meet is
refused. Comparisons that meet are one chain of comparisons.

The order is one of levels (`decision_eq`): operators of different levels are related by
their levels, and those of one level only within a family. That makes the decision of the stack
coherent, and resolution is reading with that decision (`resolveInfixChain_toOption`). In an operator
tree, a comparison whose left operand is topped by a comparison is one more of its chain;
`treeExpr` is the expression with the chains as one node.
-/

namespace Glam.Syntax

/-! ### The resolver -/

/-- The builtins that are infix operators; any other has a symbol only. -/
inductive Builtin
  | append | add | subtract | multiply | divide
  | greater | greaterEqual | equal | notEqual | lessEqual | less
  | other (symbol : String)

/-- The infix operators of the syntax. -/
inductive SyntaxOperator
  | builtin (builtin : Builtin)
  | boolAnd | boolOr
  | pipeForward | pipeBackward
  | applicativeForward | applicativeBackward
  | composeForward | composeBackward
  | effectBind | kleisliCompose | effectThen

/-- How operators of one family group. -/
inductive Associativity
  | left | right | none
deriving DecidableEq

/-- How the operator on the left binds, compared with the next one. -/
inductive OperatorRelation
  | stronger
  | weaker
  | same (associativity : Associativity)
  | unrelated
deriving DecidableEq

/-- The builtins of arithmetic. -/
def Builtin.isArithmetic : Builtin → Bool
  | .add | .subtract | .multiply | .divide => true
  | _ => false

/-- The builtins that compare. -/
def Builtin.isComparison : Builtin → Bool
  | .greater | .greaterEqual | .equal | .notEqual | .lessEqual | .less => true
  | _ => false

/-- The operators that chain. -/
def isComparisonOperator : SyntaxOperator → Bool
  | .builtin builtin => builtin.isComparison
  | _ => false

/-- How strongly an operator binds. -/
def operatorPrecedence : SyntaxOperator → Nat
  | .boolOr => 0
  | .boolAnd => 1
  | .effectBind | .effectThen => 2
  | .pipeForward | .pipeBackward | .applicativeForward | .applicativeBackward => 3
  | .composeForward | .composeBackward | .kleisliCompose => 4
  | .builtin .greater | .builtin .greaterEqual | .builtin .equal | .builtin .notEqual
  | .builtin .lessEqual | .builtin .less => 5
  | .builtin .append => 6
  | .builtin .add | .builtin .subtract => 7
  | .builtin .multiply | .builtin .divide => 8
  | .builtin (.other _) => 9

/-- The relation of two operators of different families. -/
def relationByPrecedence (left right : SyntaxOperator) : OperatorRelation :=
  match compare (operatorPrecedence left) (operatorPrecedence right) with
  | .gt => .stronger
  | .lt => .weaker
  | .eq => .unrelated

/-- The relation of two neighbouring operators. Those of one family may group, and of the others
only the precedence counts. -/
def infixOperatorRelation (left right : SyntaxOperator) : OperatorRelation :=
  match left, right with
  | .boolOr, .boolOr | .boolAnd, .boolAnd => .same .right
  | .boolOr, .boolAnd | .boolAnd, .boolOr => .unrelated
  | .effectBind, .effectBind | .effectBind, .effectThen
  | .effectThen, .effectBind | .effectThen, .effectThen => .same .left
  | .kleisliCompose, .kleisliCompose => .same .right
  | .pipeForward, .pipeForward => .same .left
  | .pipeBackward, .pipeBackward => .same .right
  | .pipeForward, .pipeBackward | .pipeBackward, .pipeForward => .unrelated
  | .applicativeForward, .applicativeForward => .same .right
  | .applicativeBackward, .applicativeBackward => .same .left
  | .applicativeForward, .applicativeBackward
  | .applicativeBackward, .applicativeForward => .unrelated
  | .composeForward, .composeForward => .same .left
  | .composeBackward, .composeBackward => .same .right
  | .composeForward, .composeBackward | .composeBackward, .composeForward => .unrelated
  | .builtin .append, .builtin .append => .same .left
  | .builtin .add, .builtin .add => .same .left
  | .builtin .subtract, .builtin .subtract => .same .none
  | .builtin .multiply, .builtin .multiply => .same .left
  | .builtin .divide, .builtin .divide => .same .none
  | .builtin left, .builtin right =>
    if left.isArithmetic && right.isArithmetic then .unrelated
    else if left.isComparison && right.isComparison then .same .none
    else relationByPrecedence (.builtin left) (.builtin right)
  | left, right => relationByPrecedence left right

/-- An operator as it is written. -/
def infixOperatorSymbol : SyntaxOperator → String
  | .boolAnd => "and"
  | .boolOr => "or"
  | .builtin .append => "++"
  | .builtin .add => "+"
  | .builtin .subtract => "-"
  | .builtin .multiply => "*"
  | .builtin .divide => "/"
  | .builtin .greater => ">"
  | .builtin .greaterEqual => ">="
  | .builtin .equal => "=="
  | .builtin .notEqual => "<>"
  | .builtin .lessEqual => "=<"
  | .builtin .less => "<"
  | .pipeForward => "|>"
  | .pipeBackward => "<|"
  | .applicativeForward => "!>"
  | .applicativeBackward => "<!"
  | .composeForward => ">>"
  | .composeBackward => "<<"
  | .effectBind => ">>="
  | .kleisliCompose => ">=>"
  | .effectThen => "=>>"
  | .builtin (.other symbol) => symbol

/-- The expressions that resolution makes of its operands. -/
inductive SyntaxExpr (E : Type)
  | operand (operand : E)
  /-- `syntax_binary_expr` -/
  | binary (op : SyntaxOperator) (left right : SyntaxExpr E)
  | comparisonChain (first : SyntaxExpr E) (rest : List (SyntaxOperator × SyntaxExpr E))

/-- An operand on the stack. Comparisons are kept open, since the next one may extend their chain.
-/
inductive PartialExpr (E : Type)
  | expr (expr : SyntaxExpr E)
  | comparisonChain (first : SyntaxExpr E) (rest : List (SyntaxOperator × SyntaxExpr E))

variable {E : Type}

/-- The expression of an operand. A chain of one comparison is a binary expression. -/
def PartialExpr.intoExpr : PartialExpr E → SyntaxExpr E
  | .expr resolved => resolved
  | .comparisonChain first [(op, right)] => .binary op first right
  | .comparisonChain first rest => .comparisonChain first rest

/-- The operator applied to the two operands on top of the stack. -/
def PartialExpr.reduce (left : PartialExpr E) (op : SyntaxOperator) (right : SyntaxExpr E) :
    PartialExpr E :=
  if isComparisonOperator op then
    match left with
    | .expr left => .comparisonChain left [(op, right)]
    | .comparisonChain first rest => .comparisonChain first (rest ++ [(op, right)])
  else .expr (.binary op left.intoExpr right)

/-- Applies an operator to the two operands on top of the stack. -/
def reduceTopOperator (exprs : List (PartialExpr E)) (op : SyntaxOperator) :
    Except String (List (PartialExpr E)) :=
  match exprs with
  | [] => .error "missing right operand in operator chain"
  | [_] => .error "missing left operand in operator chain"
  | right :: left :: exprs => .ok (left.reduce op right.intoExpr :: exprs)

/-- The inner loop of `resolve_infix_chain`: what the next operator finds on the stacks. -/
def reduceFor (next : SyntaxOperator) (exprs : List (PartialExpr E)) :
    List SyntaxOperator → Except String (List (PartialExpr E) × List SyntaxOperator)
  | [] => .ok (exprs, [])
  | previous :: ops =>
    match infixOperatorRelation previous next with
    | .stronger | .same .left => do reduceFor next (← reduceTopOperator exprs previous) ops
    | .weaker | .same .right => .ok (exprs, previous :: ops)
    | .same .none =>
      if isComparisonOperator previous && isComparisonOperator next then do
        reduceFor next (← reduceTopOperator exprs previous) ops
      else
        .error s!"operator `{infixOperatorSymbol next}` is non-associative; parenthesize this chain"
    | .unrelated =>
      .error (s!"operators `{infixOperatorSymbol previous}` and `{infixOperatorSymbol next}` " ++
        "have no precedence relationship; parenthesize to disambiguate")

/-- The loop over the chain, with the operands and the operators it has stacked. -/
def reduceChain (exprs : List (PartialExpr E)) (ops : List SyntaxOperator) :
    List (SyntaxOperator × E) → Except String (List (PartialExpr E) × List SyntaxOperator)
  | [] => .ok (exprs, ops)
  | (next, operand) :: rest => do
    let (exprs, ops) ← reduceFor next exprs ops
    reduceChain (.expr (.operand operand) :: exprs) (next :: ops) rest

/-- Resolves a chain of operators and operands into an expression. -/
def resolveInfixChain (first : E) (rest : List (SyntaxOperator × E)) :
    Except String (SyntaxExpr E) := do
  let (exprs, ops) ← reduceChain [.expr (.operand first)] [] rest
  match ← ops.foldlM reduceTopOperator exprs with
  | expr :: _ => .ok expr.intoExpr
  | [] => .error "operator chain did not produce an expression"

/-! ### Levels and families -/

/-- Operators that are related though they are of one level; `0` is in no family. -/
def SyntaxOperator.family : SyntaxOperator → Nat
  | .boolOr => 1
  | .boolAnd => 2
  | .effectBind | .effectThen => 3
  | .pipeForward => 4
  | .pipeBackward => 5
  | .applicativeForward => 6
  | .applicativeBackward => 7
  | .composeForward => 8
  | .composeBackward => 9
  | .kleisliCompose => 10
  | .builtin .append => 12
  | .builtin .add => 13
  | .builtin .subtract => 14
  | .builtin .multiply => 15
  | .builtin .divide => 16
  | .builtin (.other _) => 0
  | .builtin _ => 11

/-- The level of a family, by its number. The higher level binds more strongly. -/
def level : Nat → Nat
  | 0 => 9
  | 1 | 2 => 1
  | 3 => 2
  | 4 | 5 | 6 | 7 => 3
  | 8 | 9 | 10 => 4
  | 11 => 5
  | 12 => 6
  | _ => 8

/-- What an operator does with one of its family. -/
def settle : Nat → Decision
  | 3 | 4 | 7 | 8 | 11 | 12 | 13 | 15 => .fold
  | 1 | 2 | 5 | 6 | 9 | 10 => .keep
  | _ => .refuse

/-- What the next operator does with the one on top of the stack. -/
def decision (previous next : SyntaxOperator) : Decision :=
  match infixOperatorRelation previous next with
  | .stronger | .same .left => .fold
  | .weaker | .same .right => .keep
  | .same .none =>
    if isComparisonOperator previous && isComparisonOperator next then .fold else .refuse
  | .unrelated => .refuse

/-- **The order of the operators**: one of levels, and of families within a level. -/
theorem decision_eq (a b : SyntaxOperator) :
    decision a b =
      if level b.family < level a.family then .fold
      else if level a.family < level b.family then .keep
      else if a.family = b.family then settle a.family
      else .refuse := by
  rcases a with ⟨_ | _⟩ | _ <;> rcases b with ⟨_ | _⟩ | _ <;> rfl

theorem decision_eq_fold_iff (a b : SyntaxOperator) :
    decision a b = .fold ↔ level b.family < level a.family ∨
      a.family = b.family ∧ settle a.family = .fold := by
  rw [decision_eq]
  by_cases hfamily : a.family = b.family
  · simp [hfamily]
  · split_ifs <;> simp_all

theorem decision_eq_keep_iff (a b : SyntaxOperator) :
    decision a b = .keep ↔ level a.family < level b.family ∨
      a.family = b.family ∧ settle a.family = .keep := by
  rw [decision_eq]
  by_cases hfamily : a.family = b.family
  · simp [hfamily]
  · split_ifs with hlt
    · simp [hfamily, Nat.le_of_lt hlt]
    all_goals simp_all

/-- What two operators decide about each other fits together over three. -/
theorem coherent_decision : OpTree.Coherent decision where
  fold_of_keep := by
    intro a b c hfold hkeep
    rw [decision_eq_fold_iff] at hfold ⊢
    rw [decision_eq_keep_iff] at hkeep
    rcases hkeep with hkeep | ⟨hkeep, hsettle⟩
    · rcases hfold with hfold | ⟨hfold, -⟩
      · exact .inl (Nat.lt_trans hfold hkeep)
      · exact .inl (hfold ▸ hkeep)
    · rcases hfold with hfold | ⟨-, hfold⟩
      · exact .inl (hkeep ▸ hfold)
      · cases hfold.symm.trans hsettle
  keep_of_fold := by
    intro a b c hkeep hfold
    rw [decision_eq_fold_iff] at hfold
    rw [decision_eq_keep_iff] at hkeep ⊢
    rcases hkeep with hkeep | ⟨hkeep, hsettle⟩
    · rcases hfold with hfold | ⟨hfold, -⟩
      · exact .inl (Nat.lt_trans hkeep hfold)
      · exact .inl (hfold ▸ hkeep)
    · rcases hfold with hfold | ⟨hfold, hfold'⟩
      · exact .inl (hkeep ▸ hfold)
      · rw [hfold, ← hkeep] at hfold'
        cases hfold'.symm.trans hsettle

/-- The relation seen from the other operator. -/
def OperatorRelation.swap : OperatorRelation → OperatorRelation
  | .stronger => .weaker
  | .weaker => .stronger
  | relation => relation

theorem infixOperatorRelation_swap (a b : SyntaxOperator) :
    infixOperatorRelation a b = (infixOperatorRelation b a).swap := by
  rcases a with ⟨_ | _⟩ | _ <;> rcases b with ⟨_ | _⟩ | _ <;> rfl

/-! ### Resolution reads trees -/

/-- What a tree is on the stack. -/
def partialExpr : OpTree E SyntaxOperator → PartialExpr E
  | .leaf operand => .expr (.operand operand)
  | .node op left right => (partialExpr left).reduce op (partialExpr right).intoExpr

/-- The expression that a tree of operators stands for. -/
def treeExpr (tree : OpTree E SyntaxOperator) : SyntaxExpr E :=
  (partialExpr tree).intoExpr

/-- The operand stack of the resolver, from the tree being built and those below it. -/
def stackedExprs (current : OpTree E SyntaxOperator)
    (frames : List (OpTree E SyntaxOperator × SyntaxOperator)) : List (PartialExpr E) :=
  partialExpr current :: frames.map fun frame => partialExpr frame.1

theorem toOption_bind {A B : Type} (x : Except String A) (f : A → Except String B) :
    (x >>= f).toOption = x.toOption.bind fun a => (f a).toOption := by
  cases x <;> rfl

section

variable (current : OpTree E SyntaxOperator)
  (frames : List (OpTree E SyntaxOperator × SyntaxOperator))

/-- Reducing the stack is closing the tree, up to the message of an error. -/
theorem reduceFor_toOption (next : SyntaxOperator) :
    (reduceFor next (stackedExprs current frames) (frames.map Prod.snd)).toOption =
      (OpTree.close decision next current frames).map fun (left, outer) =>
        (stackedExprs left outer, outer.map Prod.snd) := by
  induction frames generalizing current with
  | nil => rfl
  | cons frame frames ih =>
    obtain ⟨left, op⟩ := frame
    have hreduced := ih (.node op left current)
    rw [List.map_cons, reduceFor, OpTree.close, decision]
    cases infixOperatorRelation op next with
    | stronger => exact hreduced
    | weaker => rfl
    | same associativity =>
      cases associativity with
      | left => exact hreduced
      | right => rfl
      | none =>
        dsimp only
        split
        · exact hreduced
        · rfl
    | unrelated => rfl

/-- The loop reads the chain as `OpTree.read` does. -/
theorem reduceChain_toOption (rest : List (SyntaxOperator × E)) :
    (reduceChain (stackedExprs current frames) (frames.map Prod.snd) rest).toOption =
      (OpTree.read decision current frames rest).map fun (left, outer) =>
        (stackedExprs left outer, outer.map Prod.snd) := by
  induction rest generalizing current frames with
  | nil => rfl
  | cons item rest ih =>
    obtain ⟨next, operand⟩ := item
    rw [reduceChain, OpTree.read, toOption_bind, reduceFor_toOption]
    cases OpTree.close decision next current frames with
    | none => rfl
    | some closed => exact ih (.leaf operand) ((closed.1, next) :: closed.2)

theorem foldlM_reduceTopOperator :
    (frames.map Prod.snd).foldlM reduceTopOperator (stackedExprs current frames) =
      .ok [partialExpr (OpTree.finish current frames)] := by
  induction frames generalizing current with
  | nil => rfl
  | cons frame frames ih =>
    rw [List.map_cons, List.foldlM_cons]
    exact ih (.node frame.2 frame.1 current)

end

/-- **Resolution is reading with the decision of the stack.** -/
theorem resolveInfixChain_toOption (first : E) (rest : List (SyntaxOperator × E)) :
    (resolveInfixChain first rest).toOption =
      (OpTree.parse decision first rest).map treeExpr := by
  have hchain := reduceChain_toOption (.leaf first) [] rest
  rw [resolveInfixChain, toOption_bind, OpTree.parse]
  refine (congrArg (Option.bind · _) hchain).trans ?_
  cases OpTree.read decision (.leaf first) [] rest with
  | none => rfl
  | some =>
    simp only [Option.map_some, Option.bind_some, foldlM_reduceTopOperator]
    rfl

/-! ### The trees of a chain -/

/-- An operand on the left: its top operator binds tighter or is of one level and associates to the
left, or is a comparison, which is then of the same chain. -/
def LeftOperand (op : SyntaxOperator) : OpTree E SyntaxOperator → Prop
  | .leaf _ => True
  | .node top _ _ => infixOperatorRelation top op = .stronger ∨
      infixOperatorRelation top op = .same .left ∨
      isComparisonOperator top ∧ isComparisonOperator op

/-- An operand on the right: its top operator binds tighter or is of one level and associates to the
right. -/
def RightOperand (op : SyntaxOperator) : OpTree E SyntaxOperator → Prop
  | .leaf _ => True
  | .node top _ _ => infixOperatorRelation top op = .stronger ∨
      infixOperatorRelation top op = .same .right

/-- Whether every node of a tree takes its operands. -/
def Resolves : OpTree E SyntaxOperator → Prop
  | .leaf _ => True
  | .node op left right => Resolves left ∧ Resolves right ∧ LeftOperand op left ∧ RightOperand op right

theorem leftOperand_iff (op : SyntaxOperator) (tree : OpTree E SyntaxOperator) :
    LeftOperand op tree ↔ tree.Left decision op := by
  cases tree with
  | leaf => exact Iff.rfl
  | node top left right =>
    have hcomparison : isComparisonOperator top → isComparisonOperator op →
        infixOperatorRelation top op = .same .none := by
      intro htop hop
      rcases top with ⟨_ | _⟩ | _ <;> cases htop <;> rcases op with ⟨_ | _⟩ | _ <;> cases hop <;> rfl
    rw [LeftOperand, OpTree.Left, decision]
    split <;> simp_all

/-- The right operands that the source leaves are those that the decisions leave. -/
theorem rightOperand_iff (op : SyntaxOperator) (tree : OpTree E SyntaxOperator) :
    RightOperand op tree ↔ tree.Right decision op := by
  cases tree with
  | leaf => exact Iff.rfl
  | node top left right =>
    rw [RightOperand, OpTree.Right, decision, infixOperatorRelation_swap]
    cases infixOperatorRelation op top with
    | same associativity =>
      cases associativity with
      | left | right => simp [OperatorRelation.swap]
      | none =>
        dsimp only [OperatorRelation.swap]
        split <;> simp
    | stronger | weaker | unrelated => simp [OperatorRelation.swap]

theorem resolves_iff (tree : OpTree E SyntaxOperator) : Resolves tree ↔ tree.Ordered decision := by
  induction tree with
  | leaf => exact Iff.rfl
  | node op left right ihLeft ihRight =>
    rw [Resolves, OpTree.Ordered, ihLeft, ihRight, leftOperand_iff, rightOperand_iff]

end Glam.Syntax
