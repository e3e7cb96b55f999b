import Glam.Lib.Alternating
import Glam.Net.Graph

/-!
# The interaction rules

What reducing an active pair does to a net (`interaction_net/runtime/graph.rs` and `rewrite.rs`).
Every rule detaches all auxiliary ports of its pair, as the sockets of a boundary, before it creates
anything. A pair may be linked to itself, so a socket's link may lead to another socket. A rule then
says what replaces each socket: a port of a node it created, another socket, or an eraser.

Recorded links and replacements alternate along paths through the sockets. Each path joins its two
ends: two ports are wired together, a port that meets an eraser receives a fresh one, and two
erasers vanish.
-/

namespace Glam.Net

variable {S : NetSpecialization}

/-- The recorded link of one socket of a boundary. -/
inductive BoundaryLink
  /-- a surviving port outside the rewritten pair -/
  | port (peer : SignedPort)
  /-- another socket of the same boundary, with that socket's sign -/
  | socket (socket : Nat) (sign : Sign)

/-- The sign of the socket's own port: the opposite of its peer's. -/
def BoundaryLink.socketSign : BoundaryLink → Sign
  | .port peer => peer.sign.opposite
  | .socket _ sign => sign.opposite

/-- The auxiliary ports of an active pair being rewritten, detached together. -/
structure RewriteBoundary where
  links : List BoundaryLink

/-- What a rule substitutes for one socket of its boundary. -/
inductive BoundaryReplacement
  | port (port : Port)
  | socket (socket : Nat)
  | erase

/-- One end of a resolved boundary path. -/
inductive BoundaryEndpoint
  | port (port : SignedPort)
  | erase

/-- One node's auxiliary ports in index order. -/
def auxiliaryPorts (node : NodeId) (count : Nat) : List Port :=
  (List.range count).map fun index => .auxiliary node (index + 1)

namespace RewriteBoundary

/-- The sign the detached socket's own port had. -/
def socketSign (boundary : RewriteBoundary) (socket : Nat) : Sign :=
  match boundary.links[socket]? with
  | some link => link.socketSign
  | none => .provides

/-- Where a socket leads by its recorded link. -/
def recorded (boundary : RewriteBoundary) (socket : Nat) : BoundaryEndpoint ⊕ Nat :=
  match boundary.links[socket]? with
  | some (.port peer) => .inl (.port peer)
  | some (.socket other _) => .inr other
  | none => .inl .erase

/-- Where a socket leads by its replacement. A replacement port takes the sign of the socket. -/
def replaced (boundary : RewriteBoundary) (replacements : List BoundaryReplacement)
    (socket : Nat) : BoundaryEndpoint ⊕ Nat :=
  match replacements[socket]? with
  | some (.port port) => .inl (.port ⟨port, boundary.socketSign socket⟩)
  | some (.socket other) => .inr other
  | some .erase => .inl .erase
  | none => .inl .erase

/-- The two sides of a socket: its recorded link and its replacement. -/
def leave (boundary : RewriteBoundary) (replacements : List BoundaryReplacement) (side : Bool)
    (socket : Nat) : BoundaryEndpoint ⊕ Nat :=
  if side then boundary.replaced replacements socket else boundary.recorded socket

end RewriteBoundary

namespace RuntimeNet

variable (net : RuntimeNet S)

/-- The recorded link of the socket at `port`, among the sockets at `ports`. -/
def boundaryLink (ports : List Port) (port : Port) : Except Panic BoundaryLink :=
  match net.reference port with
  | none => .error .unwiredAuxiliary
  | some neighbor =>
    match ports.idxOf? neighbor.port with
    | some socket => .ok (.socket socket neighbor.sign)
    | none => .ok (.port neighbor)

/-- Cuts the wires at all of `ports`. The second port of a wire between two of them is already
clear. -/
def disconnectAll (net : RuntimeNet S) : List Port → Except Panic (RuntimeNet S)
  | [] => .ok net
  | port :: ports => do
    let (_, net) ← net.disconnect port
    net.disconnectAll ports

/-- Detaches the given auxiliary ports of an active pair whose principal ports are already
disconnected. -/
def detachBoundary (ports : List Port) : Except Panic (RewriteBoundary × RuntimeNet S) := do
  let links ← ports.mapM (net.boundaryLink ports)
  let net ← net.disconnectAll ports
  .ok (⟨links⟩, net)

/-- Joins the two ends of a path. A port meets an eraser in a node of its own, and two erasers leave
nothing. -/
def joinBoundaryEndpoints : BoundaryEndpoint → BoundaryEndpoint → Except Panic (RuntimeNet S)
  | .port first, .port last => net.wire first last
  | .port port, .erase => do
    -- an eraser has no sign of its own: it takes the opposite of whatever it meets
    let (erase, net) ← net.addNode .erase
    net.bindReference (.principal erase) port
  | .erase, .port port => do
    let (erase, net) ← net.addNode .erase
    net.bindReference (.principal erase) port
  | .erase, .erase => .ok net

/-- Joins the ends of all paths. -/
def joinPaths (leave : Bool → Nat → BoundaryEndpoint ⊕ Nat) (net : RuntimeNet S) :
    List (Alternating.Half Nat × Alternating.Half Nat) → Except Panic (RuntimeNet S)
  | [] => .ok net
  | (first, last) :: paths =>
    match leave first.2 first.1, leave last.2 last.1 with
    | .inl one, .inl other => do
      let net ← net.joinBoundaryEndpoints one other
      net.joinPaths leave paths
    | _, _ => .error .badReplacements

/-- Connects a rule's replacements across a detached boundary. -/
def attachBoundary (boundary : RewriteBoundary)
    (replacements : List BoundaryReplacement) : Except Panic (RuntimeNet S) := do
  check (boundary.links.length = replacements.length) .badReplacements
  match Alternating.paths (boundary.leave replacements) (List.range boundary.links.length) with
  | none => .error .badReplacements
  | some paths => net.joinPaths (boundary.leave replacements) paths

/-! ### The rules -/

/-- How an annihilation joins the two nodes' auxiliary ports. -/
inductive AuxiliaryPairing
  /-- port `i` meets port `i`, as for identical fans -/
  | positional
  /-- port 1 meets port 2 and port 2 meets port 1, as for binds -/
  | crossed

/-- The socket that `socket` fuses with, of `sockets` sockets: the left node's, then the right
node's. -/
def AuxiliaryPairing.partner (pairing : AuxiliaryPairing) (sockets socket : Nat) : Nat :=
  match pairing with
  | .positional => (socket + sockets / 2) % sockets
  | .crossed => sockets - 1 - socket

/-- Two nodes that annihilate: their auxiliary ports are fused in pairs. -/
def join (left right : NodeId) (auxiliaries : Nat)
    (pairing : AuxiliaryPairing) : Except Panic (RuntimeNet S) := do
  let (_, net) ← net.disconnect (.principal left)
  let (boundary, net) ← net.detachBoundary
    (auxiliaryPorts left auxiliaries ++ auxiliaryPorts right auxiliaries)
  let (_, net) ← net.removeNode left
  let (_, net) ← net.removeNode right
  net.attachBoundary boundary ((List.range boundary.links.length).map fun socket =>
    .socket (pairing.partner boundary.links.length socket))

/-- A fan that meets data makes two of it. -/
def duplicateData (fan data : NodeId) : Except Panic (RuntimeNet S) := do
  let (_, net) ← net.disconnect (.principal fan)
  let (boundary, net) ← net.detachBoundary (auxiliaryPorts fan 2)
  let (payload, net) ← net.removeNode data
  let (_, net) ← net.removeNode fan
  match payload with
  | .data payload => do
    let (first, net) ← net.addNode (.data payload)
    let (second, net) ← net.addNode (.data payload)
    net.attachBoundary boundary [.port (.principal first), .port (.principal second)]
  | _ => .error .badNode

/-- Wires auxiliary `index` of the copies `first` and `second` to the two branches of `residual`.
Each copied auxiliary keeps the original's sign. -/
def wireCopies (sign : Sign) (first second residual : NodeId) (index : Nat) :
    Except Panic (RuntimeNet S) := do
  let net ← net.wire ⟨.auxiliary first index, sign⟩ ⟨.auxiliary residual 1, sign.opposite⟩
  net.wire ⟨.auxiliary second index, sign⟩ ⟨.auxiliary residual 2, sign.opposite⟩

/-- A fan that meets a bind passes through it, and leaves a fan at each auxiliary port. -/
def duplicateBind (fan : NodeId) (identity : FanIdentity) (bind : NodeId) :
    Except Panic (RuntimeNet S) := do
  let (_, net) ← net.disconnect (.principal fan)
  let (boundary, net) ← net.detachBoundary (auxiliaryPorts fan 2 ++ auxiliaryPorts bind 2)
  let (_, net) ← net.removeNode fan
  let (_, net) ← net.removeNode bind
  let (first, net) ← net.addNode .bind
  let (second, net) ← net.addNode .bind
  let (argument, net) ← net.addNode (.fan identity)
  let net ← net.wireCopies (boundary.socketSign 2) first second argument 1
  let (result, net) ← net.addNode (.fan identity)
  let net ← net.wireCopies (boundary.socketSign 3) first second result 2
  net.attachBoundary boundary
    [.port (.principal first), .port (.principal second), .port (.principal argument),
      .port (.principal result)]

/-- A fan that meets an operator passes through it. -/
def duplicateOperator (fan : NodeId) (identity : FanIdentity)
    (operator : NodeId) : Except Panic (RuntimeNet S) := do
  let (_, net) ← net.disconnect (.principal fan)
  let (boundary, net) ← net.detachBoundary (auxiliaryPorts fan 2 ++ auxiliaryPorts operator 1)
  let (payload, net) ← net.removeNode operator
  let (_, net) ← net.removeNode fan
  match payload with
  | .operator payload => do
    let (first, net) ← net.addNode (.operator payload)
    let (second, net) ← net.addNode (.operator payload)
    let (residual, net) ← net.addNode (.fan identity)
    let net ← net.wireCopies (boundary.socketSign 2) first second residual 1
    net.attachBoundary boundary
      [.port (.principal first), .port (.principal second), .port (.principal residual)]
  | _ => .error .badNode

/-- Two fans of different identities pass through each other. -/
def commuteFans (left : NodeId) (leftIdentity : FanIdentity)
    (right : NodeId) (rightIdentity : FanIdentity) : Except Panic (RuntimeNet S) := do
  let (_, net) ← net.disconnect (.principal left)
  let (boundary, net) ← net.detachBoundary (auxiliaryPorts left 2 ++ auxiliaryPorts right 2)
  let (_, net) ← net.removeNode left
  let (_, net) ← net.removeNode right
  let (right₀, net) ← net.addNode (.fan (rightIdentity.residual leftIdentity false))
  let (right₁, net) ← net.addNode (.fan (rightIdentity.residual leftIdentity true))
  let (left₀, net) ← net.addNode (.fan (leftIdentity.residual rightIdentity false))
  let (left₁, net) ← net.addNode (.fan (leftIdentity.residual rightIdentity true))
  let sign := boundary.socketSign 2
  let net ← net.wire ⟨.auxiliary right₀ 1, sign⟩ ⟨.auxiliary left₀ 1, sign.opposite⟩
  let net ← net.wire ⟨.auxiliary right₀ 2, sign⟩ ⟨.auxiliary left₁ 1, sign.opposite⟩
  let net ← net.wire ⟨.auxiliary right₁ 1, sign⟩ ⟨.auxiliary left₀ 2, sign.opposite⟩
  let net ← net.wire ⟨.auxiliary right₁ 2, sign⟩ ⟨.auxiliary left₁ 2, sign.opposite⟩
  net.attachBoundary boundary
    [.port (.principal right₀), .port (.principal right₁), .port (.principal left₀),
      .port (.principal left₁)]

/-- How many auxiliary ports an agent has. The nodes of the evaluator are no agents. -/
def auxiliaryCount : RuntimeNode S → Option Nat
  | .bind => some 2
  | .fan _ => some 2
  | .operator _ => some 1
  | .erase => some 0
  | .data _ => some 0
  | _ => none

/-- An eraser takes a node away, and erases what was wired to it. -/
def erase (net : RuntimeNet S) (eraser other : NodeId) : Except Panic (RuntimeNet S) := do
  let (_, net) ← net.disconnect (.principal eraser)
  match (net.nodes.get other).bind auxiliaryCount with
  | none => .error .badNode
  | some auxiliaries => do
    let (boundary, net) ← net.detachBoundary (auxiliaryPorts other auxiliaries)
    let (_, net) ← net.removeNode eraser
    let (_, net) ← net.removeNode other
    net.attachBoundary boundary (boundary.links.map fun _ => .erase)

end RuntimeNet

end Glam.Net
