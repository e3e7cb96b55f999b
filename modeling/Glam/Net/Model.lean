import Mathlib.Tactic.Common

/-!
# Ports, signs and nodes

The vocabulary of interaction nets, translated from `interaction_net/model.rs`. A node has numbered
ports, of which port 0 is its principal one. Two principal ports wired together are an active pair.
Every port provides a value or consumes one, and each kind of node has a rule for its ports' signs
(`RuntimeNode.Obeys`).

Node, site and copy numbers are unbounded here; the source stops at the limits of its words.
-/

namespace Glam.Net

/-- A port's polarity: it provides a value, or consumes one. -/
inductive Sign
  | provides
  | consumes
deriving DecidableEq

/-- The other sign. -/
def Sign.opposite : Sign → Sign
  | .provides => .consumes
  | .consumes => .provides

@[simp] theorem Sign.opposite_opposite (sign : Sign) : sign.opposite.opposite = sign := by
  cases sign <;> rfl

@[simp] theorem Sign.opposite_ne_self (sign : Sign) : sign.opposite ≠ sign := by
  cases sign <;> decide

/-- The name of a node within its net. -/
abbrev NodeId := Nat
/-- The place in a program that a fan comes from. -/
abbrev FanSite := Nat
/-- The name of a copy that is under way. -/
abbrev CopyId := Nat

/-- The lower-numbered node of a principal-principal wire, which identifies the pair. -/
abbrev ActivePairKey := NodeId

/-- A port of a node. Its principal port has the index zero. -/
structure Port where
  node : NodeId
  index : Nat
deriving DecidableEq

namespace Port

/-- The port at which a node reacts. -/
def principal (node : NodeId) : Port := ⟨node, 0⟩

/-- Another port of a node. -/
def auxiliary (node : NodeId) (index : Nat) : Port := ⟨node, index⟩

/-- Whether a port is its node's principal one. -/
def IsPrincipal (port : Port) : Prop := port.index = 0

instance (port : Port) : Decidable port.IsPrincipal := inferInstanceAs (Decidable (_ = _))

@[simp] theorem principal_node (node : NodeId) : (principal node).node = node := rfl
@[simp] theorem principal_index (node : NodeId) : (principal node).index = 0 := rfl
@[simp] theorem auxiliary_node (node : NodeId) (index : Nat) : (auxiliary node index).node = node :=
  rfl
@[simp] theorem auxiliary_index (node : NodeId) (index : Nat) :
    (auxiliary node index).index = index := rfl

theorem IsPrincipal.eq {port : Port} (h : port.IsPrincipal) : port = principal port.node := by
  obtain ⟨node, index⟩ := port
  exact congrArg (Port.mk node) h

@[simp] theorem principal_inj {n m : NodeId} : principal n = principal m ↔ n = m := by
  simp [principal]

end Port

/-- A port together with its own sign. -/
structure SignedPort where
  port : Port
  sign : Sign
deriving DecidableEq

/-- The identity of a fan: the site it comes from and its history. A history is a list of steps,
each through another fan and by one of its branches, and only ever grows at its end. -/
inductive FanIdentity
  | root (site : FanSite)
  | residual (identity through : FanIdentity) (branch : Bool)
deriving DecidableEq

/-- Client semantics embedded in otherwise generic topology. -/
structure NetSpecialization where
  Data : Type
  Operator : Type
  /-- what names a runtime net where another copies from it -/
  RuntimeSource : Type
  WaitToken : Type
  StuckReason : Type
  CallableCheckpoint : Type

/-- The nodes of a reusable template. -/
inductive Node (S : NetSpecialization)
  /-- function or application: `[principal, aux1, aux2]` -/
  | bind
  /-- `[input, left, right]` -/
  | fan (site : FanSite)
  | erase
  | data (data : S.Data)
  /-- `[input, result]` -/
  | operator (operator : S.Operator)

/-- A node of a net at run time. -/
inductive RuntimeNode (S : NetSpecialization)
  | bind
  | fan (identity : FanIdentity)
  | erase
  | data (data : S.Data)
  | operator (operator : S.Operator)
  /-- incremental evaluator state, installed only by callable evaluation -/
  | callableCheckpoint (generation : Nat) (payload : Option S.CallableCheckpoint)
  /-- the anchor of a net's exposed port, which uses its port 1 -/
  | interface
  /-- a one-way wire into a logical copy of another net -/
  | remoteCursor (copy : CopyId) (remote : Port)

variable {S : NetSpecialization}

namespace RuntimeNode

/-- The number of a node's ports, the principal one included. -/
def portCount : RuntimeNode S → Nat
  | .bind => 3
  | .fan _ => 3
  | .operator _ => 2
  | .interface => 2
  | .erase => 1
  | .data _ => 1
  | .callableCheckpoint _ _ => 1
  | .remoteCursor _ _ => 1

/-- The ordinary vocabulary, which a copy can reproduce node by node. -/
def IsAgent : RuntimeNode S → Prop
  | .bind => True
  | .fan _ => True
  | .erase => True
  | .data _ => True
  | .operator _ => True
  | _ => False

instance : (node : RuntimeNode S) → Decidable node.IsAgent
  | .bind => isTrue trivial
  | .fan _ => isTrue trivial
  | .erase => isTrue trivial
  | .data _ => isTrue trivial
  | .operator _ => isTrue trivial
  | .callableCheckpoint _ _ => isFalse id
  | .interface => isFalse id
  | .remoteCursor _ _ => isFalse id

end RuntimeNode

end Glam.Net
